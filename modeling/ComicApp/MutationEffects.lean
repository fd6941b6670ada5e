import ComicApp.Mutations
import ComicApp.Replay

/-!
# What mutations do to the fields of a document

The local view of a write, field by field: each field is overwritten, deleted or transformed as the data
of the write tell. An array is transformed as it is by then; an increment starts from the number that the
field held when the write was made, which the client has recorded with it.
-/

namespace ComicApp.Firestore
open TransformOperation
variable {κ φ α : Type}

section Arrays
variable [DecidableEq α] {elements values : List (Primitive α)} {e : Primitive α}

theorem mem_unions : e ∈ elements.foldl arrayUnion values ↔ e ∈ values ∨ e ∈ elements := by
  induction elements generalizing values with
  | nil => simp
  | cons a elements ih => simp [ih, mem_arrayUnion, or_assoc]

theorem nodup_unions (h : values.Nodup) : (elements.foldl arrayUnion values).Nodup := by
  induction elements generalizing values with
  | nil => exact h
  | cons a elements ih => exact ih (nodup_arrayUnion h)

theorem unions_of_subset (h : elements ⊆ values) : elements.foldl arrayUnion values = values := by
  induction elements with
  | nil => rfl
  | cons a elements ih =>
    obtain ⟨ha, helements⟩ := List.cons_subset.mp h
    rw [List.foldl_cons, arrayUnion, if_pos ha, ih helements]

/-- Each removal takes one occurrence away. -/
theorem count_removals :
    (elements.foldl List.erase values).count e = values.count e - elements.count e := by
  rw [← List.diff_eq_foldl, List.count_diff]

theorem removals_of_not_mem (h : ∀ a ∈ elements, a ∉ values) :
    elements.foldl List.erase values = values := by
  induction elements with
  | nil => rfl
  | cons a elements ih =>
    obtain ⟨ha, helements⟩ := List.forall_mem_cons.mp h
    rw [List.foldl_cons, List.erase_of_not_mem ha, ih helements]

/-- In an array without duplicates all occurrences are removed. -/
theorem removals_of_nodup (h : values.Nodup) :
    elements.foldl List.erase values = values.filter (· ∉ elements) := by
  rw [← List.diff_eq_foldl, h.sdiff_eq_filter]

/-- An array transform that is applied twice does the same as once, for a removal exactly where the
array holds each of its elements no more often than the removal names it. -/
theorem array_transform_idempotent_iff (previous_value : Option (FieldValue α))
    (elements : List (Primitive α)) :
    (ArrayUnion elements).ApplyToLocalView (some ((ArrayUnion elements).ApplyToLocalView previous_value)) =
        (ArrayUnion elements).ApplyToLocalView previous_value ∧
      ((ArrayRemove elements).ApplyToLocalView
            (some ((ArrayRemove elements).ApplyToLocalView previous_value)) =
          (ArrayRemove elements).ApplyToLocalView previous_value ↔
        ∀ e ∈ elements, (CoercedFieldValuesArray previous_value).count e ≤ elements.count e) := by
  simp only [ApplyToLocalView, FieldValue.array.injEq, CoercedFieldValuesArray]
  generalize CoercedFieldValuesArray previous_value = values
  constructor
  · exact unions_of_subset fun e he => mem_unions.mpr (.inr he)
  · constructor
    · intro h e he
      have hcount := congrArg (List.count e) h
      simp only [count_removals] at hcount
      have hpos : 0 < elements.count e := List.count_pos_iff.mpr he
      omega
    · intro h
      refine removals_of_not_mem fun e he hmem => ?_
      have hcount := List.count_pos_iff.mpr hmem
      rw [count_removals] at hcount
      have := h e he
      omega

end Arrays

section Fields
variable {data : ObjectValue φ α} {d : UpdateData φ α} {path : φ}

theorem nodup_field_transforms : (d.field_transforms.map FieldTransform.path).Nodup := by
  have hsublist : (d.field_transforms.map FieldTransform.path).Sublist d.keys := by
    unfold UpdateData.field_transforms AList.keys List.keys
    generalize d.entries = entries
    induction entries with
    | nil => exact .slnil
    | cons entry entries ih =>
      rcases entry with ⟨path, u⟩
      cases u with
      | value value => exact ih.cons path
      | delete => exact ih.cons path
      | transform transformation => exact ih.cons_cons path
  exact d.keys_nodup.sublist hsublist

variable [DecidableEq φ]

theorem foldl_update_of_not_mem {γ β : Type} {p : γ → φ} {g : γ → β} {cs : List γ}
    (h : ∀ c ∈ cs, p c ≠ path) (obj : φ → β) :
    cs.foldl (fun obj c => Function.update obj (p c) (g c)) obj path = obj path := by
  induction cs generalizing obj with
  | nil => rfl
  | cons c cs ih =>
    obtain ⟨hc, hcs⟩ := List.forall_mem_cons.mp h
    rw [List.foldl_cons, ih hcs, Function.update_of_ne hc.symm]

/-- Writes to different fields do not touch each other. -/
theorem foldl_update_of_mem {γ β : Type} {p : γ → φ} {g : γ → β} {cs : List γ}
    (h : (cs.map p).Nodup) {c : γ} (hc : c ∈ cs) (obj : φ → β) :
    cs.foldl (fun obj c => Function.update obj (p c) (g c)) obj (p c) = g c := by
  induction cs generalizing obj with
  | nil => cases hc
  | cons c' cs ih =>
    obtain ⟨hnew, hcs⟩ := List.nodup_cons.mp h
    rw [List.foldl_cons]
    rcases List.mem_cons.mp hc with rfl | hc
    · have hother : ∀ a ∈ cs, p a ≠ p c :=
        fun a ha hpath => hnew (List.mem_map.mpr ⟨a, ha, hpath⟩)
      rw [foldl_update_of_not_mem hother, Function.update_self]
    · exact ih hcs hc _

theorem PatchObject_apply (value : ObjectValue φ α) (mask : List φ) :
    Mutation.PatchObject value mask data path = if path ∈ mask then value path else data path := by
  unfold Mutation.PatchObject
  induction mask generalizing data with
  | nil => rfl
  | cons path' mask ih =>
    rw [List.foldl_cons, ih]
    by_cases hpath : path = path'
    · subst hpath
      simp
    · simp [hpath]

theorem mem_field_mask : path ∈ d.field_mask ↔
    ∃ u, d.lookup path = some u ∧ ∀ transformation, u ≠ .transform transformation := by
  unfold UpdateData.field_mask
  rw [List.mem_filterMap]
  constructor
  · rintro ⟨⟨path', u⟩, hmem, hu⟩
    cases u with
    | value value =>
      obtain rfl : path' = path := Option.some.inj hu
      exact ⟨_, AList.mem_lookup_iff.mpr hmem, by simp⟩
    | delete =>
      obtain rfl : path' = path := Option.some.inj hu
      exact ⟨_, AList.mem_lookup_iff.mpr hmem, by simp⟩
    | transform transformation => cases hu
  · rintro ⟨u, hlookup, hu⟩
    refine ⟨⟨path, u⟩, AList.mem_lookup_iff.mp hlookup, ?_⟩
    cases u with
    | value value => rfl
    | delete => rfl
    | transform transformation => exact absurd rfl (hu transformation)

theorem mem_field_transforms {t : FieldTransform φ α} :
    t ∈ d.field_transforms ↔ d.lookup t.path = some (.transform t.transformation) := by
  unfold UpdateData.field_transforms
  rw [List.mem_filterMap]
  constructor
  · rintro ⟨⟨path', u⟩, hmem, hu⟩
    cases u with
    | value value => cases hu
    | delete => cases hu
    | transform transformation =>
      obtain rfl := Option.some.inj hu
      exact AList.mem_lookup_iff.mpr hmem
  · intro hlookup
    exact ⟨⟨t.path, .transform t.transformation⟩, AList.mem_lookup_iff.mp hlookup, rfl⟩

/-- The fields after transforms with results that are computed from the transforms. -/
theorem TransformObject_apply (result : FieldTransform φ α → FieldValue α) :
    Mutation.TransformObject d.field_transforms (d.field_transforms.map result) data path =
      match d.lookup path with
      | some (.transform transformation) => some (result ⟨path, transformation⟩)
      | _ => data path := by
  have hzip : Mutation.TransformObject d.field_transforms (d.field_transforms.map result) data =
      d.field_transforms.foldl
        (fun (obj : ObjectValue φ α) t => Function.update obj t.path (some (result t))) data := by
    have hpairs := List.zip_map' (f := id) (g := result) (l := d.field_transforms)
    rw [List.map_id] at hpairs
    rw [Mutation.TransformObject, hpairs, List.foldl_map]
    rfl
  rw [hzip]
  split
  · rename_i transformation hlookup
    have hmem : (⟨path, transformation⟩ : FieldTransform φ α) ∈ d.field_transforms :=
      mem_field_transforms.mpr hlookup
    exact foldl_update_of_mem (g := fun t => some (result t)) nodup_field_transforms hmem data
  · rename_i hother
    refine foldl_update_of_not_mem (fun t ht hpath => ?_) data
    subst hpath
    exact hother _ (mem_field_transforms.mp ht)

/-- A field that is to be transformed is not patched. -/
theorem patched_field {transformation : TransformOperation α}
    (h : d.lookup path = some (.transform transformation)) :
    Mutation.PatchObject d.data d.field_mask data path = data path := by
  rw [PatchObject_apply, if_neg]
  simp [mem_field_mask, h]

/-- The fields after the patch and the transforms of an update. -/
theorem patch_transform_apply (result : FieldTransform φ α → FieldValue α) :
    Mutation.TransformObject d.field_transforms (d.field_transforms.map result)
        (Mutation.PatchObject d.data d.field_mask data) path =
      (d.lookup path).elim (data path) fun u =>
        match u with
        | .value v => some v
        | .delete => none
        | .transform transformation => some (result ⟨path, transformation⟩) := by
  rw [TransformObject_apply, PatchObject_apply]
  cases hlookup : d.lookup path with
  | none =>
    have hmask : path ∉ d.field_mask := by simp [mem_field_mask, hlookup]
    exact if_neg hmask
  | some u =>
    cases u with
    | value v =>
      have hmask : path ∈ d.field_mask := by simp [mem_field_mask, hlookup]
      simp only [if_pos hmask, UpdateData.data, hlookup]
      rfl
    | delete =>
      have hmask : path ∈ d.field_mask := by simp [mem_field_mask, hlookup]
      simp only [if_pos hmask, UpdateData.data, hlookup]
      rfl
    | transform transformation => rfl

end Fields

def Update.recorded (base : Option (FieldValue α)) : Update α → Option (FieldValue α)
  | .value _ | .delete => none
  | .transform transformation => transformation.ComputeBaseValue base

def Update.apply [DecidableEq α] (previous : Option (FieldValue α)) : Update α → Option (FieldValue α)
  | .value v => some v
  | .delete => none
  | .transform transformation => some (transformation.ApplyToLocalView previous)

/-- The data of the local view after a write that was made over the document `base`. -/
def Write.view [DecidableEq φ] [DecidableEq α] (base : Option (MaybeDocument φ α)) :
    Write φ α → Option (ObjectValue φ α) → Option (ObjectValue φ α)
  | setData data, _ => some data
  | updateData d, document => document.map fun data path =>
    (d.lookup path).elim (data path) fun u => u.apply ((u.recorded (field base path)).or (data path))

section View
variable [DecidableEq φ] [DecidableEq α] {d : UpdateData φ α} {path : φ}
  {maybe_doc base_doc : Option (MaybeDocument φ α)}

theorem contents_patch (maybe_doc base_doc : Option (MaybeDocument φ α)) (key : κ)
    (value : ObjectValue φ α) (mask : List φ) :
    contents ((Mutation.Patch key value mask (.Exists true)).ApplyToLocalView maybe_doc base_doc) =
      (contents maybe_doc).map (Mutation.PatchObject value mask) := by
  cases maybe_doc with
  | none => rfl
  | some doc => cases doc <;> rfl

theorem contents_transform (key : κ) (field_transforms : List (FieldTransform φ α)) :
    contents ((Mutation.Transform key field_transforms).ApplyToLocalView maybe_doc base_doc) =
      (contents maybe_doc).map (Mutation.TransformObject field_transforms
        (Mutation.LocalTransformResults field_transforms maybe_doc base_doc)) := by
  cases maybe_doc with
  | none => rfl
  | some doc => cases doc <;> rfl

omit [DecidableEq α] in
/-- The base values of an update, over the document `base`. -/
theorem mem_ExtractBaseValue {key : κ} {base : Option (MaybeDocument φ α)} {value : FieldValue α} :
    (path, value) ∈ (Mutation.Transform key d.field_transforms).ExtractBaseValue base ↔
      ∃ transformation, d.lookup path = some (.transform transformation) ∧
        transformation.ComputeBaseValue (field base path) = some value := by
  unfold Mutation.ExtractBaseValue
  rw [List.mem_filterMap]
  constructor
  · rintro ⟨t, ht, hvalue⟩
    obtain ⟨value', hcompute, heq⟩ := Option.map_eq_some_iff.mp hvalue
    obtain ⟨rfl, rfl⟩ := Prod.mk.inj heq
    exact ⟨t.transformation, mem_field_transforms.mp ht, hcompute⟩
  · rintro ⟨transformation, hlookup, hcompute⟩
    exact ⟨⟨path, transformation⟩, mem_field_transforms.mpr hlookup, by rw [hcompute]; rfl⟩

omit [DecidableEq φ] [DecidableEq α] in
theorem nodup_ExtractBaseValue {key : κ} {field_transforms : List (FieldTransform φ α)}
    {base : Option (MaybeDocument φ α)} (h : (field_transforms.map FieldTransform.path).Nodup) :
    (((Mutation.Transform key field_transforms).ExtractBaseValue base).map Prod.fst).Nodup := by
  have hsublist : (((Mutation.Transform key field_transforms).ExtractBaseValue base).map
      Prod.fst).Sublist (field_transforms.map FieldTransform.path) := by
    unfold Mutation.ExtractBaseValue
    induction field_transforms with
    | nil => exact .slnil
    | cons t ts ih =>
      have ih := ih (List.nodup_cons.mp h).2
      dsimp only at ih ⊢
      rw [List.filterMap_cons]
      cases hvalue : t.transformation.ComputeBaseValue (field base t.path) with
      | none => exact ih.cons t.path
      | some value => exact ih.cons_cons t.path
  exact h.sublist hsublist

omit [DecidableEq α] in
theorem object_of_mem {fields : List (φ × FieldValue α)} (h : (fields.map Prod.fst).Nodup)
    {value : FieldValue α} (hmem : (path, value) ∈ fields) : object fields path = some value :=
  foldl_update_of_mem (p := Prod.fst) (g := fun p => some p.2) h hmem _

omit [DecidableEq α] in
/-- The fields after the base values of an update have been put in. -/
theorem PatchObject_base (key : κ) (base : Option (MaybeDocument φ α)) (data : ObjectValue φ α) :
    Mutation.PatchObject (object ((Mutation.Transform key d.field_transforms).ExtractBaseValue base))
        (((Mutation.Transform key d.field_transforms).ExtractBaseValue base).map Prod.fst) data path =
      ((d.lookup path).bind fun u => u.recorded (field base path)).or (data path) := by
  rw [PatchObject_apply]
  split_ifs with hmem
  · obtain ⟨⟨path', value⟩, hfield, rfl⟩ := List.mem_map.mp hmem
    rw [object_of_mem (nodup_ExtractBaseValue nodup_field_transforms) hfield]
    obtain ⟨transformation, hlookup, hcompute⟩ := mem_ExtractBaseValue.mp hfield
    rw [hlookup, Option.bind_some, Update.recorded, hcompute, Option.some_or]
  · have hnone : ((d.lookup path).bind fun u => u.recorded (field base path)) = none := by
      rw [Option.eq_none_iff_forall_ne_some]
      intro value hvalue
      obtain ⟨u, hlookup, hu⟩ := Option.bind_eq_some_iff.mp hvalue
      cases u with
      | transform transformation =>
        exact hmem (List.mem_map.mpr
          ⟨(path, value), mem_ExtractBaseValue.mpr ⟨transformation, hlookup, hu⟩, rfl⟩)
      | value _ => cases hu
      | delete => cases hu
    rw [hnone, Option.none_or]

variable [DecidableEq κ] {key : κ} {base : Option (MaybeDocument φ α)}

omit [DecidableEq κ] [DecidableEq α] in
/-- An update has one base mutation or none. -/
theorem baseMutations_updateData (existing : κ → Option (MaybeDocument φ α)) :
    baseMutations existing ((Write.updateData d).ToMutations key) =
      match (Mutation.Transform key d.field_transforms).ExtractBaseValue (existing key) with
      | [] => []
      | fields => [.Patch key (object fields) (fields.map Prod.fst) (.Exists true)] := by
  unfold baseMutations Write.ToMutations
  dsimp only
  split_ifs with htransforms
  · rw [htransforms]
    rfl
  · rw [List.filterMap_cons, List.filterMap_cons]
    cases hfields : (Mutation.Transform key d.field_transforms).ExtractBaseValue (existing key) with
    | nil =>
      dsimp only [Mutation.key]
      rw [hfields]
      rfl
    | cons p fields =>
      dsimp only [Mutation.key]
      rw [hfields]
      rfl

section Keys
omit [DecidableEq φ] [DecidableEq α]
variable {f : Option (MaybeDocument φ α) → Mutation κ φ α → Option (MaybeDocument φ α)}
  {mutations : List (Mutation κ φ α)}

theorem foldl_own (h : ∀ m ∈ mutations, m.key = key) :
    mutations.foldl (fun doc m => if m.key = key then f doc m else doc) maybe_doc =
      mutations.foldl f maybe_doc := by
  induction mutations generalizing maybe_doc with
  | nil => rfl
  | cons m mutations ih =>
    obtain ⟨hm, hmutations⟩ := List.forall_mem_cons.mp h
    rw [List.foldl_cons, List.foldl_cons, if_pos hm, ih hmutations]

theorem foldl_others (h : ∀ m ∈ mutations, m.key ≠ key) :
    mutations.foldl (fun doc m => if m.key = key then f doc m else doc) maybe_doc = maybe_doc := by
  induction mutations with
  | nil => rfl
  | cons m mutations ih =>
    obtain ⟨hm, hmutations⟩ := List.forall_mem_cons.mp h
    rw [List.foldl_cons, if_neg hm, ih hmutations]

end Keys

omit [DecidableEq α] [DecidableEq κ] in
theorem key_of_mem_ToMutations {w : Write φ α} {m : Mutation κ φ α} (h : m ∈ w.ToMutations key) :
    m.key = key := by
  cases w with
  | setData data =>
    obtain rfl := List.mem_singleton.mp h
    rfl
  | updateData d =>
    rcases List.mem_cons.mp h with rfl | h
    · rfl
    · split_ifs at h
      · cases h
      · obtain rfl := List.mem_singleton.mp h
        rfl

omit [DecidableEq α] [DecidableEq κ] in
theorem key_of_mem_baseMutations {existing : κ → Option (MaybeDocument φ α)}
    {mutations : List (Mutation κ φ α)} (h : ∀ m ∈ mutations, m.key = key) {m : Mutation κ φ α}
    (hm : m ∈ baseMutations existing mutations) : m.key = key := by
  obtain ⟨m', hm', hfields⟩ := List.mem_filterMap.mp hm
  rw [← h m' hm']
  split at hfields
  · cases hfields
  · obtain rfl := Option.some.inj hfields
    rfl

/-- The document that the mutations of an update start from. -/
def baseDocument (d : UpdateData φ α) (key : κ) (existing : κ → Option (MaybeDocument φ α))
    (maybe_doc : Option (MaybeDocument φ α)) : Option (MaybeDocument φ α) :=
  (baseMutations existing ((Write.updateData d).ToMutations key)).foldl
    (fun maybe_doc mutation => mutation.ApplyToLocalView maybe_doc maybe_doc) maybe_doc

omit [DecidableEq κ] in
theorem contents_baseDocument (d : UpdateData φ α) (key : κ)
    (existing : κ → Option (MaybeDocument φ α)) (maybe_doc : Option (MaybeDocument φ α)) :
    contents (baseDocument d key existing maybe_doc) = (contents maybe_doc).map fun data path =>
      ((d.lookup path).bind fun u => u.recorded (field (existing key) path)).or (data path) := by
  let fields := (Mutation.Transform key d.field_transforms).ExtractBaseValue (existing key)
  have hpatch : contents (baseDocument d key existing maybe_doc) = (contents maybe_doc).map
      (Mutation.PatchObject (object fields) (fields.map Prod.fst)) := by
    rw [baseDocument, baseMutations_updateData]
    change contents (List.foldl _ _ (match fields with
      | [] => []
      | fields => [_])) = _
    cases fields with
    | nil => exact Option.map_id.symm ▸ rfl
    | cons p fields => exact contents_patch maybe_doc maybe_doc key _ _
  rw [hpatch]
  exact congrArg (fun f => (contents maybe_doc).map f)
    (funext fun data => funext fun path => PatchObject_base key (existing key) data)

omit [DecidableEq κ] in
/-- The mutations of an update, after its base values. -/
theorem contents_updateData (base_doc : Option (MaybeDocument φ α)) :
    contents (((Write.updateData d).ToMutations key).foldl
        (fun doc m => m.ApplyToLocalView doc base_doc) base_doc) =
      (contents base_doc).map fun data path =>
        (d.lookup path).elim (data path) fun u => u.apply (data path) := by
  let patched := (Mutation.Patch key d.data d.field_mask (.Exists true)).ApplyToLocalView base_doc base_doc
  let result : FieldTransform φ α → FieldValue α := fun t =>
    t.transformation.ApplyToLocalView ((field patched t.path).or (field base_doc t.path))
  have hpatched : contents patched =
      (contents base_doc).map (Mutation.PatchObject d.data d.field_mask) := contents_patch base_doc base_doc key _ _
  have htransforms : contents (((Write.updateData d).ToMutations key).foldl
        (fun doc m => m.ApplyToLocalView doc base_doc) base_doc) =
      (contents patched).map
        (Mutation.TransformObject d.field_transforms (d.field_transforms.map result)) := by
    unfold Write.ToMutations
    dsimp only
    split_ifs with hnil
    · rw [hnil]
      exact Option.map_id.symm ▸ rfl
    · exact contents_transform key d.field_transforms
  rw [htransforms, hpatched]
  cases hbase : contents base_doc with
  | none => rfl
  | some data =>
    refine congrArg some (funext fun path => ?_)
    rw [patch_transform_apply]
    dsimp only
    cases hlookup : d.lookup path with
    | none => rfl
    | some u =>
      cases u with
      | value v => rfl
      | delete => rfl
      | transform transformation =>
        have hdata : field base_doc path = data path := by rw [field, hbase, Option.bind_some]
        have hfield : field patched path = data path := by
          rw [field, hpatched, hbase]
          exact patched_field hlookup
        simp only [result, hfield, hdata, Option.or_self]
        rfl

/-- Applied to any document, the batch of a write has the effect of its view. -/
theorem contents_ApplyToLocalDocument (w : Write φ α) (key : κ) (batch_id : ℕ)
    (existing : κ → Option (MaybeDocument φ α)) (maybe_doc : Option (MaybeDocument φ α)) :
    contents (MutationBatch.ApplyToLocalDocument
        ⟨batch_id, baseMutations existing (w.ToMutations key), w.ToMutations key⟩ maybe_doc key) =
      w.view (existing key) (contents maybe_doc) := by
  have hkeys : ∀ m ∈ w.ToMutations key, m.key = key := fun m => key_of_mem_ToMutations
  unfold MutationBatch.ApplyToLocalDocument
  dsimp only
  rw [foldl_own fun m => key_of_mem_baseMutations hkeys, foldl_own hkeys]
  cases w with
  | setData data => rfl
  | updateData d =>
    rw [contents_updateData]
    have hbase := contents_baseDocument d key existing maybe_doc
    unfold baseDocument at hbase
    rw [hbase]
    cases contents maybe_doc with
    | none => rfl
    | some data =>
      refine congrArg some (funext fun path => ?_)
      cases hlookup : d.lookup path with
      | none => simp only [hlookup, Option.bind_none, Option.elim_none, Option.none_or]
      | some u => simp only [hlookup, Option.bind_some, Option.elim_some]

end View

end ComicApp.Firestore
