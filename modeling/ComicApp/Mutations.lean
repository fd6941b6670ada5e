import ComicApp.Objects
import Mathlib.Data.List.AList
import Mathlib.Logic.Function.Basic
import Mathlib.Data.List.Count

/-!
# The mutations of documents

The part of the vendored Firestore client that turns the data of `setData` and `updateData` into
mutations and applies these to a document: to the local view while the backend has not answered, and
to the cached document when it has. A document lies under its key, a field under a single name, and
the values are integers, arrays and values of a type `α` that are neither. A failed `HARD_ASSERT` is
`none`.
-/

namespace ComicApp.Firestore

inductive Primitive (α : Type) where
  | integer (value : ℤ)
  | other (value : α)
  deriving DecidableEq, Repr

inductive FieldValue (α : Type) where
  | primitive (value : Primitive α)
  | array (values : List (Primitive α))
  deriving DecidableEq, Repr

abbrev ObjectValue (φ α : Type) := φ → Option (FieldValue α)

variable {κ φ α : Type} [DecidableEq κ] [DecidableEq φ] [DecidableEq α]

inductive TransformOperation (α : Type) where
  | ArrayUnion (elements : List (Primitive α))
  | ArrayRemove (elements : List (Primitive α))
  | Increment (operand : ℤ)
  deriving DecidableEq, Repr

def CoercedFieldValuesArray : Option (FieldValue α) → List (Primitive α)
  | some (.array values) => values
  | _ => []

@[simp] theorem coerced_array {β : Type} (values : List (Primitive β)) :
    CoercedFieldValuesArray (some (.array values)) = values := rfl

def LONG_MAX : ℤ := 2 ^ 63 - 1

def LONG_MIN : ℤ := -2 ^ 63

def SafeIncrement (x y : ℤ) : ℤ :=
  if 0 < x ∧ LONG_MAX - x < y then LONG_MAX
  else if x < 0 ∧ y < LONG_MIN - x then LONG_MIN
  else x + y

namespace TransformOperation

def base : Option (FieldValue α) → ℤ
  | some (.primitive (.integer value)) => value
  | _ => 0

def ComputeBaseValue (previous_value : Option (FieldValue α)) :
    TransformOperation α → Option (FieldValue α)
  | ArrayUnion _ | ArrayRemove _ => none
  | Increment _ => some (.primitive (.integer (base previous_value)))

def ApplyToLocalView (previous_value : Option (FieldValue α)) :
    TransformOperation α → FieldValue α
  | ArrayUnion elements => .array (elements.foldl arrayUnion (CoercedFieldValuesArray previous_value))
  | ArrayRemove elements => .array (elements.foldl List.erase (CoercedFieldValuesArray previous_value))
  | Increment operand => .primitive (.integer (SafeIncrement (base previous_value) operand))

/-- Only the result of an increment is taken from the backend. -/
def ApplyToRemoteDocument (previous_value : Option (FieldValue α)) (transform_result : FieldValue α) :
    TransformOperation α → FieldValue α
  | ArrayUnion elements => (ArrayUnion elements).ApplyToLocalView previous_value
  | ArrayRemove elements => (ArrayRemove elements).ApplyToLocalView previous_value
  | Increment _ => transform_result

end TransformOperation

inductive DocumentState where
  | kLocalMutations
  | kCommittedMutations
  | kSynced
  deriving DecidableEq, Repr

/-- The version `0` is `SnapshotVersion::None()`. -/
inductive MaybeDocument (φ α : Type) where
  | Document (data : ObjectValue φ α) (version : ℕ) (document_state : DocumentState)
  | NoDocument (version : ℕ) (has_committed_mutations : Bool)
  | UnknownDocument (version : ℕ)

namespace MaybeDocument

def version : MaybeDocument φ α → ℕ
  | Document _ version _ | NoDocument version _ | UnknownDocument version => version

def has_pending_writes : MaybeDocument φ α → Bool
  | Document _ _ document_state => document_state ≠ .kSynced
  | NoDocument _ has_committed_mutations => has_committed_mutations
  | UnknownDocument _ => true

def is_document : MaybeDocument φ α → Bool
  | Document _ _ _ => true
  | NoDocument _ _ | UnknownDocument _ => false

def data : MaybeDocument φ α → Option (ObjectValue φ α)
  | Document data _ _ => some data
  | NoDocument _ _ | UnknownDocument _ => none

end MaybeDocument

def contents (maybe_doc : Option (MaybeDocument φ α)) : Option (ObjectValue φ α) :=
  maybe_doc.bind MaybeDocument.data

def field (maybe_doc : Option (MaybeDocument φ α)) (path : φ) : Option (FieldValue α) :=
  (contents maybe_doc).bind fun data => data path

inductive Precondition where
  | None
  | Exists (isThere : Bool)
  | UpdateTime (update_time : ℕ)
  deriving DecidableEq, Repr

def Precondition.IsValidFor (maybe_doc : Option (MaybeDocument φ α)) : Precondition → Bool
  | UpdateTime update_time =>
    maybe_doc.any fun doc => doc.is_document && doc.version = update_time
  | Exists isThere => isThere = maybe_doc.any MaybeDocument.is_document
  | None => true

structure FieldTransform (φ α : Type) where
  path : φ
  transformation : TransformOperation α
  deriving DecidableEq, Repr

inductive Mutation (κ φ α : Type) where
  | Set (key : κ) (value : ObjectValue φ α) (precondition : Precondition)
  | Patch (key : κ) (value : ObjectValue φ α) (mask : List φ) (precondition : Precondition)
  | Transform (key : κ) (field_transforms : List (FieldTransform φ α))
  | Delete (key : κ) (precondition : Precondition)

/-- `transform_results` is `none` where the backend sends no results. -/
structure MutationResult (α : Type) where
  version : ℕ
  transform_results : Option (List (FieldValue α))
  deriving DecidableEq, Repr

namespace Mutation

def key : Mutation κ φ α → κ
  | Set key _ _ | Patch key _ _ _ | Transform key _ | Delete key _ => key

def GetPostMutationVersion : Option (MaybeDocument φ α) → ℕ
  | some (.Document _ version _) => version
  | _ => 0

def PatchObject (value : ObjectValue φ α) (mask : List φ) (obj : ObjectValue φ α) : ObjectValue φ α :=
  mask.foldl (fun obj path => Function.update obj path (value path)) obj

def PatchDocument (value : ObjectValue φ α) (mask : List φ) (maybe_doc : Option (MaybeDocument φ α)) :
    ObjectValue φ α :=
  PatchObject value mask ((contents maybe_doc).getD fun _ => none)

/-- Where the document has lost the field within its batch, the value before the batch is taken. -/
def LocalTransformResults (field_transforms : List (FieldTransform φ α))
    (maybe_doc base_doc : Option (MaybeDocument φ α)) : List (FieldValue α) :=
  field_transforms.map fun t =>
    t.transformation.ApplyToLocalView ((field maybe_doc t.path).or (field base_doc t.path))

def ServerTransformResults (field_transforms : List (FieldTransform φ α))
    (base_doc : Option (MaybeDocument φ α)) (server_transform_results : List (FieldValue α)) :
    List (FieldValue α) :=
  field_transforms.zipWith
    (fun t result => t.transformation.ApplyToRemoteDocument (field base_doc t.path) result)
    server_transform_results

def TransformObject (field_transforms : List (FieldTransform φ α))
    (transform_results : List (FieldValue α)) (object_value : ObjectValue φ α) : ObjectValue φ α :=
  (field_transforms.zip transform_results).foldl
    (fun object_value p => Function.update object_value p.1.path (some p.2)) object_value

def ApplyToLocalView (maybe_doc base_doc : Option (MaybeDocument φ α)) :
    Mutation κ φ α → Option (MaybeDocument φ α)
  | Set _ value precondition =>
    if precondition.IsValidFor maybe_doc then
      some (.Document value (GetPostMutationVersion maybe_doc) .kLocalMutations)
    else maybe_doc
  | Patch _ value mask precondition =>
    if precondition.IsValidFor maybe_doc then
      some (.Document (PatchDocument value mask maybe_doc) (GetPostMutationVersion maybe_doc)
        .kLocalMutations)
    else maybe_doc
  | Transform _ field_transforms =>
    -- the precondition of a transform is that the document exists
    match maybe_doc with
    | some (.Document data version _) =>
      let transform_results := LocalTransformResults field_transforms maybe_doc base_doc
      some (.Document (TransformObject field_transforms transform_results data) version
        .kLocalMutations)
    | _ => maybe_doc
  | Delete _ precondition =>
    if precondition.IsValidFor maybe_doc then some (.NoDocument 0 false) else maybe_doc

/-- A document that the precondition is not met by is not the one that the backend has. -/
def ApplyToRemoteDocument (maybe_doc : Option (MaybeDocument φ α)) (result : MutationResult α) :
    Mutation κ φ α → Option (MaybeDocument φ α)
  | Set _ value _ =>
    if result.transform_results = none then
      some (.Document value result.version .kCommittedMutations)
    else none
  | Patch _ value mask precondition =>
    if result.transform_results = none then
      if precondition.IsValidFor maybe_doc then
        some (.Document (PatchDocument value mask maybe_doc) result.version .kCommittedMutations)
      else some (.UnknownDocument result.version)
    else none
  | Transform _ field_transforms =>
    match result.transform_results with
    | none => none
    | some server_results =>
      match maybe_doc with
      | some (.Document data _ _) =>
        if field_transforms.length = server_results.length then
          let transform_results := ServerTransformResults field_transforms maybe_doc server_results
          some (.Document (TransformObject field_transforms transform_results data) result.version
            .kCommittedMutations)
        else none
      | _ => some (.UnknownDocument result.version)
  | Delete _ _ =>
    if result.transform_results = none then some (.NoDocument result.version true) else none

/-- The fields that the local view is to start from, with their values. -/
def ExtractBaseValue (maybe_doc : Option (MaybeDocument φ α)) :
    Mutation κ φ α → List (φ × FieldValue α)
  | Transform _ field_transforms => field_transforms.filterMap fun t =>
    (t.transformation.ComputeBaseValue (field maybe_doc t.path)).map fun value => (t.path, value)
  | Set _ _ _ | Patch _ _ _ _ | Delete _ _ => []

end Mutation

def object (fields : List (φ × FieldValue α)) : ObjectValue φ α :=
  fields.foldl (fun object p => Function.update object p.1 (some p.2)) fun _ => none

def baseMutations (existing_documents : κ → Option (MaybeDocument φ α)) (mutations : List (Mutation κ φ α)) :
    List (Mutation κ φ α) :=
  mutations.filterMap fun mutation =>
    match mutation.ExtractBaseValue (existing_documents mutation.key) with
    | [] => none
    | fields => some (.Patch mutation.key (object fields) (fields.map Prod.fst) (.Exists true))

structure MutationBatch (κ φ α : Type) where
  batch_id : ℕ
  base_mutations : List (Mutation κ φ α)
  mutations : List (Mutation κ φ α)

namespace MutationBatch

def keys (batch : MutationBatch κ φ α) : List κ := batch.mutations.map Mutation.key

/-- First the base values are applied, then the mutations of the user. -/
def ApplyToLocalDocument (batch : MutationBatch κ φ α) (maybe_doc : Option (MaybeDocument φ α))
    (document_key : κ) : Option (MaybeDocument φ α) :=
  let base_doc := batch.base_mutations.foldl (fun maybe_doc mutation =>
    if mutation.key = document_key then mutation.ApplyToLocalView maybe_doc maybe_doc
    else maybe_doc) maybe_doc
  batch.mutations.foldl (fun maybe_doc mutation =>
    if mutation.key = document_key then mutation.ApplyToLocalView maybe_doc base_doc
    else maybe_doc) base_doc

def ApplyToRemoteDocument (batch : MutationBatch κ φ α) (maybe_doc : Option (MaybeDocument φ α))
    (document_key : κ) (mutation_results : List (MutationResult α)) :
    Option (Option (MaybeDocument φ α)) :=
  if mutation_results.length = batch.mutations.length then
    (batch.mutations.zip mutation_results).foldlM (fun maybe_doc p =>
      if p.1.key = document_key then (p.1.ApplyToRemoteDocument maybe_doc p.2).map some
      else some maybe_doc) maybe_doc
  else none

end MutationBatch

inductive Update (α : Type) where
  | value (value : FieldValue α)
  | delete
  | transform (transformation : TransformOperation α)
  deriving DecidableEq, Repr

abbrev UpdateData (φ α : Type) := AList fun _ : φ => Update α

namespace UpdateData

def data (d : UpdateData φ α) : ObjectValue φ α := fun path =>
  match d.lookup path with
  | some (.value value) => some value
  | _ => none

def field_mask (d : UpdateData φ α) : List φ :=
  d.entries.filterMap fun entry =>
    match entry.2 with
    | .value _ | .delete => some entry.1
    | .transform _ => none

def field_transforms (d : UpdateData φ α) : List (FieldTransform φ α) :=
  d.entries.filterMap fun entry =>
    match entry.2 with
    | .value _ | .delete => none
    | .transform transformation => some ⟨entry.1, transformation⟩

end UpdateData

/-- A write to one document. The value of `setData` holds no sentinels. -/
inductive Write (φ α : Type) where
  | setData (data : ObjectValue φ α)
  | updateData (data : UpdateData φ α)

def Write.ToMutations (key : κ) : Write φ α → List (Mutation κ φ α)
  | setData data => [.Set key data .None]
  | updateData data =>
    .Patch key data.data data.field_mask (.Exists true) ::
      if data.field_transforms = [] then [] else [.Transform key data.field_transforms]

end ComicApp.Firestore
