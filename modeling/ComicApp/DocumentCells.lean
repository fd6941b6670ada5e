import ComicApp.MutationEffects

/-!
# What the backend commits

The backend is outside the repository. `Server` takes it as a parameter, with what the comments of
`FieldValue` and of `updateData` promise of it: it rejects an update of a missing document, removes every
occurrence of an element from an array and starts an increment from the number that it holds. A
document is compared by its cells: whether a field is there and what it is, and whether a value is an
element of it. Every write, in the local view and at the backend, puts values into cells.
-/

namespace ComicApp.Firestore
open TransformOperation
variable {κ φ α : Type} [DecidableEq φ] [DecidableEq α]

def Update.result (transform : TransformOperation α → Option (FieldValue α) → FieldValue α) :
    Update α → Option (FieldValue α) → Option (FieldValue α)
  | .value v, _ => some v
  | .delete, _ => none
  | .transform transformation, previous => some (transform transformation previous)

/-- `transform` is the value that the backend computes for a field, `commit` the document after a write,
and `results` its answer to the mutations of a write to a document, at a version. -/
structure Server (φ α : Type) [DecidableEq φ] [DecidableEq α] where
  transform : TransformOperation α → Option (FieldValue α) → FieldValue α
  commit : Write φ α → Option (ObjectValue φ α) → Option (ObjectValue φ α)
  results : Write φ α → ℕ → ObjectValue φ α → List (MutationResult α)
  /-- "Each specified element that doesn't already exist in the array will be added to the end. If the
  field being modified is not already an array it will be overwritten with an array containing exactly
  the specified elements." -/
  arrayUnion : ∀ elements previous, transform (ArrayUnion elements) previous =
    .array (elements.foldl ComicApp.arrayUnion (CoercedFieldValuesArray previous))
  /-- "All instances of each element specified will be removed from the array. If the field being
  modified is not already an array it will be overwritten with an empty array." -/
  arrayRemove : ∀ elements previous, transform (ArrayRemove elements) previous =
    .array ((CoercedFieldValuesArray previous).filter (· ∉ elements))
  increment : ∀ operand previous, transform (Increment operand) previous =
    .primitive (.integer (SafeIncrement (base previous) operand))
  setData : ∀ data document, commit (.setData data) document = some data
  /-- "If the document does not exist, the update fails." -/
  updateData_none : ∀ d, commit (.updateData d) none = none
  updateData_some : ∀ d data, commit (.updateData d) (some data) = some fun path =>
    (d.lookup path).elim (data path) fun u => u.result transform (data path)
  results_setData : ∀ data version previous, results (.setData data) version previous = [⟨version, none⟩]
  /-- The transformed values come in the order of the field transforms. -/
  results_updateData : ∀ d version data, results (.updateData d) version data =
    ⟨version, none⟩ :: if d.field_transforms = [] then [] else
      [⟨version, some (d.field_transforms.map fun t => transform t.transformation (data t.path))⟩]

namespace Server

/-- The backend that does what the comments say. -/
def documented : Server φ α :=
  let transform : TransformOperation α → Option (FieldValue α) → FieldValue α
    | ArrayUnion elements, previous =>
      .array (elements.foldl ComicApp.arrayUnion (CoercedFieldValuesArray previous))
    | ArrayRemove elements, previous =>
      .array ((CoercedFieldValuesArray previous).filter (· ∉ elements))
    | Increment operand, previous => .primitive (.integer (SafeIncrement (base previous) operand))
  { transform := transform
    commit := fun
      | .setData data, _ => some data
      | .updateData d, document => document.map fun data path =>
        (d.lookup path).elim (data path) fun u => u.result transform (data path)
    results := fun
      | .setData _, version, _ => [⟨version, none⟩]
      | .updateData d, version, data =>
        ⟨version, none⟩ :: if d.field_transforms = [] then [] else
          [⟨version, some (d.field_transforms.map fun t => transform t.transformation (data t.path))⟩]
    arrayUnion := fun _ _ => rfl
    arrayRemove := fun _ _ => rfl
    increment := fun _ _ => rfl
    setData := fun _ _ => rfl
    updateData_none := fun _ => rfl
    updateData_some := fun _ _ => rfl
    results_setData := fun _ _ _ => rfl
    results_updateData := fun _ _ _ => rfl }

def update (server : Server φ α) : Update α → Option (FieldValue α) → Option (FieldValue α) :=
  Update.result server.transform

theorem update_transform (server : Server φ α) (transformation : TransformOperation α)
    (previous : Option (FieldValue α)) :
    server.update (.transform transformation) previous =
      some (server.transform transformation previous) := rfl

theorem updateData (server : Server φ α) (d : UpdateData φ α) (document : Option (ObjectValue φ α)) :
    server.commit (.updateData d) document = document.map fun data path =>
      (d.lookup path).elim (data path) fun u => server.update u (data path) := by
  cases document with
  | none => exact server.updateData_none d
  | some data => exact server.updateData_some d data

end Server

/-- No array of the document holds an element twice. -/
def Distinct (document : Option (ObjectValue φ α)) : Prop :=
  ∀ data ∈ document, ∀ path, (CoercedFieldValuesArray (data path)).Nodup

def Write.Distinct : Write φ α → Prop
  | setData data => Firestore.Distinct (some data)
  | updateData d => ∀ path v, d.lookup path = some (.value v) → (CoercedFieldValuesArray (some v)).Nodup

section Distinct
variable {previous : Option (FieldValue α)} {document : Option (ObjectValue φ α)} {w : Write φ α}
  {server : Server φ α}

theorem apply_eq_commit (h : (CoercedFieldValuesArray previous).Nodup) (u : Update α) :
    u.apply previous = server.update u previous := by
  cases u with
  | value v => rfl
  | delete => rfl
  | transform transformation =>
    refine congrArg some ?_
    cases transformation with
    | ArrayUnion elements => exact (server.arrayUnion elements previous).symm
    | ArrayRemove elements =>
      rw [server.arrayRemove, ← removals_of_nodup h]
      rfl
    | Increment operand => exact (server.increment operand previous).symm

omit [DecidableEq φ] in
theorem nodup_apply (h : (CoercedFieldValuesArray previous).Nodup) {u : Update α}
    (hu : ∀ v, u = .value v → (CoercedFieldValuesArray (some v)).Nodup) :
    (CoercedFieldValuesArray (u.apply previous)).Nodup := by
  cases u with
  | value v => exact hu v rfl
  | delete => exact List.nodup_nil
  | transform transformation =>
    cases transformation with
    | ArrayUnion elements => exact nodup_unions h
    | ArrayRemove elements =>
      change (elements.foldl List.erase (CoercedFieldValuesArray previous)).Nodup
      rw [removals_of_nodup h]
      exact h.filter _
    | Increment operand => exact List.nodup_nil

omit [DecidableEq φ] [DecidableEq α] in
theorem nodup_recorded (h : (CoercedFieldValuesArray previous).Nodup) (base : Option (FieldValue α))
    (u : Update α) : (CoercedFieldValuesArray ((u.recorded base).or previous)).Nodup := by
  cases u with
  | value v => exact h
  | delete => exact h
  | transform transformation =>
    cases transformation with
    | ArrayUnion elements => exact h
    | ArrayRemove elements => exact h
    | Increment operand => exact List.nodup_nil

theorem Distinct.view (h : Distinct document) (hw : w.Distinct) (base : Option (MaybeDocument φ α)) :
    Distinct (w.view base document) := by
  cases w with
  | setData data => exact hw
  | updateData d =>
    intro data hdata path
    obtain ⟨data', hdata', rfl⟩ := Option.map_eq_some_iff.mp hdata
    dsimp only
    cases hlookup : d.lookup path with
    | none => exact h data' hdata' path
    | some u =>
      refine nodup_apply (nodup_recorded (h data' hdata' path) _ u) ?_
      rintro v rfl
      exact hw path v hlookup

theorem Distinct.commit (h : Distinct document) (hw : w.Distinct) :
    Distinct (server.commit w document) := by
  cases w with
  | setData data =>
    rw [server.setData]
    exact hw
  | updateData d =>
    intro data hdata path
    rw [server.updateData] at hdata
    obtain ⟨data', hdata', rfl⟩ := Option.map_eq_some_iff.mp hdata
    dsimp only
    cases hlookup : d.lookup path with
    | none => exact h data' hdata' path
    | some u =>
      rw [Option.elim_some, ← apply_eq_commit (h data' hdata' path)]
      refine nodup_apply (h data' hdata' path) ?_
      rintro v rfl
      exact hw path v hlookup

end Distinct

/-- A field of the cached document after the backend has answered from the value `held` that it
holds. -/
def Server.acknowledged (server : Server φ α) (held previous : Option (FieldValue α)) :
    Update α → Option (FieldValue α)
  | .value v => some v
  | .delete => none
  | .transform transformation =>
    some (transformation.ApplyToRemoteDocument previous (server.transform transformation held))

theorem acknowledged_self {server : Server φ α} {v : Option (FieldValue α)}
    (h : (CoercedFieldValuesArray v).Nodup) (u : Update α) :
    server.acknowledged v v u = server.update u v := by
  cases u with
  | value v => rfl
  | delete => rfl
  | transform transformation =>
    cases transformation with
    | ArrayUnion elements => exact apply_eq_commit h (.transform (ArrayUnion elements))
    | ArrayRemove elements => exact apply_eq_commit h (.transform (ArrayRemove elements))
    | Increment operand => rfl

section Acknowledged
variable [DecidableEq κ] {d : UpdateData φ α} {key : κ} {version : ℕ} {held data : ObjectValue φ α}
  {document_state : DocumentState} {server : Server φ α}

/-- A batch of one mutation. -/
theorem acknowledge_one {batch_id : ℕ} {base_mutations : List (Mutation κ φ α)} (m : Mutation κ φ α)
    (hm : m.key = key) (maybe_doc : Option (MaybeDocument φ α)) (r : MutationResult α) :
    MutationBatch.ApplyToRemoteDocument ⟨batch_id, base_mutations, [m]⟩ maybe_doc key [r] =
      (m.ApplyToRemoteDocument maybe_doc r).map some := by
  simp [MutationBatch.ApplyToRemoteDocument, hm]

/-- A batch of two mutations. -/
theorem acknowledge_two {batch_id : ℕ} {base_mutations : List (Mutation κ φ α)}
    (m m' : Mutation κ φ α) (hm : m.key = key) (hm' : m'.key = key)
    (maybe_doc : Option (MaybeDocument φ α)) (r r' : MutationResult α) :
    MutationBatch.ApplyToRemoteDocument ⟨batch_id, base_mutations, [m, m']⟩ maybe_doc key [r, r'] =
      (m.ApplyToRemoteDocument maybe_doc r).bind fun doc =>
        (m'.ApplyToRemoteDocument (some doc) r').map some := by
  cases hdoc : m.ApplyToRemoteDocument maybe_doc r with
  | none => simp [MutationBatch.ApplyToRemoteDocument, hm, hdoc]
  | some doc => simp [MutationBatch.ApplyToRemoteDocument, hm, hm', hdoc]

/-- A cached document takes the update in and is then known to be committed. -/
theorem acknowledge_document (batch_id cached : ℕ) (base_mutations : List (Mutation κ φ α)) :
    MutationBatch.ApplyToRemoteDocument
        ⟨batch_id, base_mutations, (Write.updateData d).ToMutations key⟩
        (some (.Document data cached document_state)) key
        (server.results (.updateData d) version held) =
      some (some (.Document (fun path =>
        (d.lookup path).elim (data path) fun u => server.acknowledged (held path) (data path) u)
        version .kCommittedMutations)) := by
  let patched : MaybeDocument φ α := .Document (Mutation.PatchObject d.data d.field_mask data) version
    .kCommittedMutations
  let result : FieldTransform φ α → FieldValue α := fun t =>
    t.transformation.ApplyToRemoteDocument (data t.path)
      (server.transform t.transformation (held t.path))
  have hdata : (fun path => (d.lookup path).elim (data path) fun u =>
      server.acknowledged (held path) (data path) u) =
      Mutation.TransformObject d.field_transforms (d.field_transforms.map result)
        (Mutation.PatchObject d.data d.field_mask data) := by
    funext path
    rw [patch_transform_apply]
    cases d.lookup path with
    | none => rfl
    | some u => cases u <;> rfl
  rw [hdata]
  have hpatch : (Mutation.Patch key d.data d.field_mask (.Exists true)).ApplyToRemoteDocument
      (some (.Document data cached document_state)) ⟨version, none⟩ = some patched := rfl
  have htransform : (Mutation.Transform key d.field_transforms).ApplyToRemoteDocument
      (some patched)
        ⟨version, some (d.field_transforms.map fun t => server.transform t.transformation (held t.path))⟩ =
        some (.Document (Mutation.TransformObject d.field_transforms (d.field_transforms.map result)
          (Mutation.PatchObject d.data d.field_mask data)) version .kCommittedMutations) := by
    have hresults : Mutation.ServerTransformResults d.field_transforms (some patched)
        (d.field_transforms.map fun t => server.transform t.transformation (held t.path)) =
          d.field_transforms.map result := by
      unfold Mutation.ServerTransformResults
      rw [List.zipWith_map_right, List.zipWith_self]
      refine List.map_congr_left fun t ht => ?_
      have hfield : field (some patched) t.path = data t.path := patched_field (mem_field_transforms.mp ht)
      rw [hfield]
    rw [← hresults]
    exact if_pos (List.length_map _).symm
  rw [server.results_updateData]
  unfold Write.ToMutations
  dsimp only
  by_cases hnil : d.field_transforms = []
  · simp only [if_pos hnil]
    refine (acknowledge_one (.Patch key d.data d.field_mask (.Exists true)) rfl _ _).trans ?_
    rw [hpatch, hnil]
    rfl
  · simp only [if_neg hnil]
    refine (acknowledge_two (.Patch key d.data d.field_mask (.Exists true))
      (.Transform key d.field_transforms) rfl rfl _ _ _).trans ?_
    rw [hpatch, Option.bind_some, htransform]
    rfl

/-- Any other cached state is then known to be behind the backend. -/
theorem acknowledge_missing (batch_id : ℕ) (base_mutations : List (Mutation κ φ α))
    {maybe_doc : Option (MaybeDocument φ α)} (hdoc : contents maybe_doc = none) :
    MutationBatch.ApplyToRemoteDocument
        ⟨batch_id, base_mutations, (Write.updateData d).ToMutations key⟩ maybe_doc key
        (server.results (.updateData d) version held) = some (some (.UnknownDocument version)) := by
  have hpatch : (Mutation.Patch key d.data d.field_mask (.Exists true)).ApplyToRemoteDocument
      maybe_doc ⟨version, none⟩ = some (.UnknownDocument version) := by
    cases maybe_doc with
    | none => rfl
    | some doc =>
      cases doc with
      | Document data version' document_state => cases hdoc
      | NoDocument version' has_committed_mutations => rfl
      | UnknownDocument version' => rfl
  rw [server.results_updateData]
  unfold Write.ToMutations
  dsimp only
  by_cases hnil : d.field_transforms = []
  · simp only [if_pos hnil]
    refine (acknowledge_one (.Patch key d.data d.field_mask (.Exists true)) rfl _ _).trans ?_
    rw [hpatch]
    rfl
  · simp only [if_neg hnil]
    refine (acknowledge_two (.Patch key d.data d.field_mask (.Exists true))
      (.Transform key d.field_transforms) rfl rfl _ _ _).trans ?_
    rw [hpatch]
    rfl

theorem acknowledge_setData (batch_id : ℕ) (base_mutations : List (Mutation κ φ α))
    (maybe_doc : Option (MaybeDocument φ α)) :
    MutationBatch.ApplyToRemoteDocument
        ⟨batch_id, base_mutations, (Write.setData data).ToMutations key⟩ maybe_doc key
        (server.results (.setData data) version held) =
      some (some (.Document data version .kCommittedMutations)) := by
  rw [server.results_setData]
  exact acknowledge_one (.Set key data .None) rfl maybe_doc ⟨version, none⟩

omit [DecidableEq κ] in
def Server.acknowledge (server : Server φ α) (version : ℕ) (held : ObjectValue φ α) (w : Write φ α)
    (maybe_doc : Option (MaybeDocument φ α)) : MaybeDocument φ α :=
  match w, maybe_doc with
  | .setData data, _ => .Document data version .kCommittedMutations
  | .updateData d, some (.Document data _ _) => .Document (fun path =>
      (d.lookup path).elim (data path) fun u => server.acknowledged (held path) (data path) u)
      version .kCommittedMutations
  | .updateData _, _ => .UnknownDocument version

theorem ApplyToRemoteDocument_results (w : Write φ α) (batch_id : ℕ)
    (base_mutations : List (Mutation κ φ α)) (maybe_doc : Option (MaybeDocument φ α)) :
    MutationBatch.ApplyToRemoteDocument ⟨batch_id, base_mutations, w.ToMutations key⟩ maybe_doc key
      (server.results w version held) = some (some (server.acknowledge version held w maybe_doc)) := by
  cases w with
  | setData data => exact acknowledge_setData batch_id base_mutations maybe_doc
  | updateData d =>
    cases maybe_doc with
    | none => exact acknowledge_missing batch_id base_mutations rfl
    | some doc =>
      cases doc with
      | Document data cached document_state =>
        exact acknowledge_document batch_id cached base_mutations
      | NoDocument cached has_committed_mutations =>
        exact acknowledge_missing batch_id base_mutations rfl
      | UnknownDocument cached => exact acknowledge_missing batch_id base_mutations rfl

omit [DecidableEq κ] in
/-- A document that the backend has too is brought to the state that the backend has committed. -/
theorem acknowledge_exact (server : Server φ α) (w : Write φ α) (version cached : ℕ)
    (document_state : DocumentState)
    (h : Distinct (some data)) :
    some (server.acknowledge version data w (some (.Document data cached document_state))) =
      (server.commit w (some data)).map fun data => .Document data version .kCommittedMutations := by
  cases w with
  | setData data' =>
    rw [server.setData]
    rfl
  | updateData d =>
    rw [server.updateData]
    refine congrArg (fun data => some (MaybeDocument.Document data version .kCommittedMutations))
      (funext fun path => ?_)
    dsimp only
    cases d.lookup path with
    | none => rfl
    | some u => exact acknowledged_self (h data rfl path) u

end Acknowledged

/-- What a field is, or whether a value is an element of it. -/
def look (v : Option (FieldValue α)) : Option (Primitive α) → Option (Option (Primitive α))
  | none => v.map fun v =>
    match v with
    | .primitive value => some value
    | .array _ => none
  | some e => if e ∈ CoercedFieldValuesArray v then some none else none

abbrev Cell (φ α : Type) := φ × Option (Primitive α)

def cells (data : ObjectValue φ α) (c : Cell φ α) : Option (Option (Primitive α)) :=
  look (data c.1) c.2

def Update.put (base : Option (FieldValue α)) (u : Update α) (c : Option (Primitive α)) :
    Option (Option (Option (Primitive α))) :=
  match u, c with
  | .value v, c => some (look (some v) c)
  | .delete, c => some (look none c)
  | .transform (ArrayUnion _), none => some (some none)
  | .transform (ArrayUnion elements), some e => if e ∈ elements then some (some none) else none
  | .transform (ArrayRemove _), none => some (some none)
  | .transform (ArrayRemove elements), some e => if e ∈ elements then some none else none
  | .transform (Increment operand), c =>
    some (look (some (.primitive (.integer (SafeIncrement (TransformOperation.base base) operand)))) c)

def Write.put (base : Option (MaybeDocument φ α)) :
    Write φ α → Replay.Write (Cell φ α) (Option (Option (Primitive α)))
  | setData data => .replace (some (cells data))
  | updateData d => .put fun c => (d.lookup c.1).bind fun u => u.put (field base c.1) c.2

section Cells
variable {previous base : Option (FieldValue α)} {document : Option (ObjectValue φ α)} {w : Write φ α}
  {server : Server φ α}

omit [DecidableEq φ] in
theorem look_apply (h : (CoercedFieldValuesArray previous).Nodup) (u : Update α)
    (c : Option (Primitive α)) :
    look (u.apply ((u.recorded base).or previous)) c = (u.put base c).getD (look previous c) := by
  cases u with
  | value v => rfl
  | delete => rfl
  | transform transformation =>
    cases transformation with
    | ArrayUnion elements =>
      cases c with
      | none => rfl
      | some e =>
        simp only [look, Update.apply, Update.recorded, ComputeBaseValue, Option.none_or,
          ApplyToLocalView, coerced_array, mem_unions, Update.put]
        split_ifs <;> simp_all
    | ArrayRemove elements =>
      cases c with
      | none => rfl
      | some e =>
        simp only [look, Update.apply, Update.recorded, ComputeBaseValue, Option.none_or,
          ApplyToLocalView, removals_of_nodup h, coerced_array, List.mem_filter, Update.put]
        split_ifs <;> simp_all
    | Increment operand => rfl

theorem cells_view (h : Distinct document) (base : Option (MaybeDocument φ α)) :
    (w.view base document).map cells = (w.put base).apply (document.map cells) := by
  cases w with
  | setData data => rfl
  | updateData d =>
    cases document with
    | none => rfl
    | some data =>
      refine congrArg some (funext fun c => ?_)
      unfold cells
      dsimp only
      cases hlookup : d.lookup c.1 with
      | none => rfl
      | some u => exact look_apply (h data rfl c.1) u c.2

/-- The increments of a write start from the numbers of this document. -/
def Write.Based (base : Option (MaybeDocument φ α)) (document : Option (ObjectValue φ α)) :
    Write φ α → Prop
  | setData _ => True
  | updateData d => ∀ data ∈ document, ∀ path operand,
    d.lookup path = some (.transform (Increment operand)) →
      TransformOperation.base (field base path) = TransformOperation.base (data path)

theorem apply_recorded (h : (CoercedFieldValuesArray previous).Nodup) (u : Update α)
    (hbase : ∀ operand, u = .transform (Increment operand) →
      TransformOperation.base base = TransformOperation.base previous) :
    u.apply ((u.recorded base).or previous) = server.update u previous := by
  rw [← apply_eq_commit h]
  cases u with
  | value v => rfl
  | delete => rfl
  | transform transformation =>
    cases transformation with
    | ArrayUnion elements => rfl
    | ArrayRemove elements => rfl
    | Increment operand =>
      have hsame := hbase operand rfl
      simp only [Update.apply, Update.recorded, ComputeBaseValue, ApplyToLocalView, Option.some_or,
        hsame]
      rfl

/-- The backend puts the same values into the cells as the local view does. -/
theorem cells_commit (h : Distinct document) {base : Option (MaybeDocument φ α)}
    (hbase : w.Based base document) :
    (server.commit w document).map cells = (w.put base).apply (document.map cells) := by
  rw [← cells_view h]
  cases w with
  | setData data =>
    rw [server.setData]
    rfl
  | updateData d =>
    rw [server.updateData]
    cases document with
    | none => rfl
    | some data =>
      refine congrArg (Option.map cells) (congrArg some (funext fun path => ?_))
      dsimp only
      cases hlookup : d.lookup path with
      | none => rfl
      | some u =>
        refine (apply_recorded (h data rfl path) u ?_).symm
        rintro operand rfl
        exact hbase data rfl path operand hlookup

end Cells

/-- The values are equal, or arrays of the same elements. -/
def Same (v v' : Option (FieldValue α)) : Prop :=
  v = v' ∨ ∃ values values', v = some (.array values) ∧ v' = some (.array values') ∧
    values.Perm values'

def SameDocument (document document' : Option (ObjectValue φ α)) : Prop :=
  Option.Rel (fun data data' => ∀ path, Same (data path) (data' path)) document document'

section Same
variable {v v' : Option (FieldValue α)} {document document' : Option (ObjectValue φ α)}

omit [DecidableEq φ] in
theorem mem_coerced {e : Primitive α} : e ∈ CoercedFieldValuesArray v ↔ look v (some e) = some none := by
  simp [look]

omit [DecidableEq φ] in
theorem same_of_look (hv : (CoercedFieldValuesArray v).Nodup) (hv' : (CoercedFieldValuesArray v').Nodup)
    (h : ∀ c, look v c = look v' c) : Same v v' := by
  have hmem (e : Primitive α) : e ∈ CoercedFieldValuesArray v ↔ e ∈ CoercedFieldValuesArray v' := by
    rw [mem_coerced, mem_coerced, h]
  have hshape := h none
  cases v with
  | none =>
    cases v' with
    | none => exact .inl rfl
    | some v' => cases hshape
  | some v =>
    cases v' with
    | none => cases hshape
    | some v' =>
      cases v with
      | primitive value =>
        cases v' with
        | primitive value' =>
          obtain rfl := Option.some.inj (Option.some.inj hshape)
          exact .inl rfl
        | array values' => cases Option.some.inj hshape
      | array values =>
        cases v' with
        | primitive value' => cases Option.some.inj hshape
        | array values' =>
          exact .inr ⟨values, values', rfl, rfl, (List.perm_ext_iff_of_nodup hv hv').mpr hmem⟩

omit [DecidableEq φ] in
theorem sameDocument_of_cells (hdocument : Distinct document) (hdocument' : Distinct document')
    (h : document.map cells = document'.map cells) : SameDocument document document' := by
  cases document with
  | none =>
    cases document' with
    | none => exact .none
    | some data' => cases h
  | some data =>
    cases document' with
    | none => cases h
    | some data' =>
      have hcells := Option.some.inj h
      exact .some fun path => same_of_look (hdocument data rfl path) (hdocument' data' rfl path)
        fun c => congrFun hcells (path, c)

end Same

end ComicApp.Firestore
