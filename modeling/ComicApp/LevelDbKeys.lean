import ComicApp.SignedNumbers
import Mathlib.Data.List.TakeWhile
import Mathlib.Data.Prod.Lex

/-!
# Keys of the LevelDB tables

The keys of the rows that the Firestore client keeps in LevelDB, written and read as sequences of labelled
components. A key is the code of its components, so keys compare as the lists of their components do: the
mutations of a user stand together in the order of their batches, and so do the index rows of a document,
before the rows of the documents below it.
-/

namespace ComicApp.Firestore
open BigEndian OrderedCodes OrderedCode

inductive ComponentLabel where
  | Terminator
  | TableName
  | BatchId
  | CanonicalId
  | TargetId
  | UserId
  | CollectionId
  | PathSegment
  deriving DecidableEq, Repr

def ComponentLabel.value : ComponentLabel → ℤ
  | Terminator => 0
  | TableName => 5
  | BatchId => 10
  | CanonicalId => 11
  | TargetId => 12
  | UserId => 13
  | CollectionId => 14
  | PathSegment => 62

def INT32_MIN : ℤ := -2 ^ 31

def INT32_MAX : ℤ := 2 ^ 31 - 1

/-- What has been written, unless an assertion has failed. -/
abbrev Writer := Option (List Byte)

namespace Writer

def new : Writer := some []

def WriteComponentLabel (label : ComponentLabel) (writer : Writer) : Writer :=
  writer.bind fun dest => (WriteSignedNumIncreasing (BitVec.ofInt 64 label.value)).map (dest ++ ·)

def WriteLabeledInt32 (label : ComponentLabel) (value : ℤ) (writer : Writer) : Writer :=
  (writer.WriteComponentLabel label).bind fun dest =>
    (WriteSignedNumIncreasing (BitVec.ofInt 64 value)).map (dest ++ ·)

def WriteLabeledString (label : ComponentLabel) (value : List Byte) (writer : Writer) : Writer :=
  (writer.WriteComponentLabel label).bind fun dest => (WriteString value).map (dest ++ ·)

def WriteTerminator (writer : Writer) : Writer := writer.WriteComponentLabel .Terminator

def WriteTableName (table_name : List Byte) (writer : Writer) : Writer :=
  writer.WriteLabeledString .TableName table_name

def WriteBatchId (batch_id : ℤ) (writer : Writer) : Writer := writer.WriteLabeledInt32 .BatchId batch_id

def WriteUserId (user_id : List Byte) (writer : Writer) : Writer :=
  writer.WriteLabeledString .UserId user_id

def WriteResourcePath (path : List (List Byte)) (writer : Writer) : Writer :=
  path.foldl (fun writer segment => writer.WriteLabeledString .PathSegment segment) writer

end Writer

structure Reader where
  src : List Byte
  ok : Bool

namespace Reader

def Fail (r : Reader) : Reader := { r with ok := false }

def empty (r : Reader) : Bool := !r.ok || r.src.isEmpty

def ReadSignedNumIncreasing (r : Reader) : Option (ℤ × Reader) :=
  if r.ok then
    (OrderedCode.ReadSignedNumIncreasing r.src).map fun result =>
      match result with
      | some (result, tmp) => (result.toInt, { r with src := tmp })
      | none => (0, r.Fail)
  else some (0, r.Fail)

def ReadString (r : Reader) : Option (List Byte × Reader) :=
  if r.ok then
    (OrderedCode.ReadString r.src).map fun result =>
      match result with
      | some (result, tmp) => (result, { r with src := tmp })
      | none => ([], r.Fail)
  else some ([], r.Fail)

def ReadComponentLabelMatching (expected_label : ComponentLabel) (r : Reader) : Option (Bool × Reader) :=
  if r.ok then
    r.ReadSignedNumIncreasing.map fun result =>
      if result.2.ok then (result.1 == expected_label.value, result.2) else (false, result.2.Fail)
  else some (false, r.Fail)

/-- `if (!ReadComponentLabelMatching(expected_label)) Fail();`. -/
def expectLabel (expected_label : ComponentLabel) (r : Reader) : Option Reader :=
  (r.ReadComponentLabelMatching expected_label).map fun result =>
    if result.1 then result.2 else result.2.Fail

def ReadInt32 (r : Reader) : Option (ℤ × Reader) :=
  if r.ok then
    r.ReadSignedNumIncreasing.map fun result =>
      if result.2.ok ∧ INT32_MIN ≤ result.1 ∧ result.1 ≤ INT32_MAX then result else (0, result.2.Fail)
  else some (0, r.Fail)

def ReadLabeledInt32 (expected_label : ComponentLabel) (r : Reader) : Option (ℤ × Reader) :=
  (r.expectLabel expected_label).bind ReadInt32

def ReadLabeledString (expected_label : ComponentLabel) (r : Reader) : Option (List Byte × Reader) :=
  (r.expectLabel expected_label).bind ReadString

def ReadLabeledStringMatching (expected_label : ComponentLabel) (expected_value : List Byte) (r : Reader) :
    Option (Bool × Reader) :=
  (r.ReadLabeledString expected_label).map fun result =>
    if result.2.ok then (result.1 == expected_value, result.2) else (false, result.2.Fail)

def ReadTableNameMatching (expected_table_name : List Byte) (r : Reader) : Option Reader :=
  (r.ReadLabeledStringMatching .TableName expected_table_name).map fun result =>
    if result.1 then result.2 else result.2.Fail

def ReadBatchId (r : Reader) : Option (ℤ × Reader) := r.ReadLabeledInt32 .BatchId

def ReadUserId (r : Reader) : Option (List Byte × Reader) := r.ReadLabeledString .UserId

def ReadTerminator (r : Reader) : Option Reader := r.expectLabel .Terminator

end Reader

def labelCode (label : ComponentLabel) : List Byte := signedCode label.value

theorem toInt_label (label : ComponentLabel) : (BitVec.ofInt 64 label.value).toInt = label.value := by
  cases label <;> rfl

theorem value_injective : Function.Injective ComponentLabel.value := by
  intro label label' h
  cases label <;> cases label' <;> first | rfl | exact absurd h (by decide)

theorem toInt_int32 {x : ℤ} (hle : INT32_MIN ≤ x) (hle' : x ≤ INT32_MAX) :
    (BitVec.ofInt 64 x).toInt = x := by
  unfold INT32_MIN at hle
  unfold INT32_MAX at hle'
  exact BitVec.toInt_ofInt_eq_self (by norm_num) (by omega) (by omega)

namespace Reader
variable {src rest : List Byte} {label : ComponentLabel} {x : ℤ} {s t : List Byte} {r r₁ : Reader}

theorem readSigned_iff : (⟨src, true⟩ : Reader).ReadSignedNumIncreasing = some (x, ⟨rest, true⟩) ↔
    src = signedCode x ++ rest ∧ ∃ v : BitVec 64, v.toInt = x := by
  unfold ReadSignedNumIncreasing
  rw [if_pos rfl, Option.map_eq_some_iff]
  constructor
  · rintro ⟨_ | ⟨v, tmp⟩, hread, heq⟩
    · have hok : false = true := congrArg (fun p => p.2.ok) heq
      exact absurd hok Bool.false_ne_true
    · obtain ⟨rfl, hr⟩ := Prod.mk.inj heq
      obtain ⟨rfl, -⟩ := Reader.mk.inj hr
      exact ⟨(OrderedCode.readSigned_iff src tmp v).mp hread, v, rfl⟩
  · rintro ⟨hsrc, v, rfl⟩
    exact ⟨some (v, rest), (OrderedCode.readSigned_iff src rest v).mpr hsrc, rfl⟩

theorem readString_iff : (⟨src, true⟩ : Reader).ReadString = some (s, ⟨rest, true⟩) ↔
    src = stringCode s ++ rest := by
  unfold ReadString OrderedCode.ReadString
  rw [if_pos rfl, readStringInternal_eq, Option.map_some, ← reads_readSymbols src s rest]
  cases readSymbols src with
  | none => exact iff_of_false (fun h => by cases h) (Option.some_ne_none _).symm
  | some p =>
    constructor
    · rintro h
      cases h
      rfl
    · rintro h
      cases h
      rfl

theorem matching_iff : (⟨src, true⟩ : Reader).ReadComponentLabelMatching label = some (true, ⟨rest, true⟩) ↔
    src = labelCode label ++ rest := by
  unfold ReadComponentLabelMatching
  rw [if_pos rfl, Option.map_eq_some_iff]
  constructor
  · rintro ⟨⟨x, src', ok⟩, hread, heq⟩
    cases ok with
    | false =>
      have hmatching : false = true := congrArg Prod.fst heq
      exact absurd hmatching Bool.false_ne_true
    | true =>
      obtain ⟨hx, hr⟩ := Prod.mk.inj heq
      obtain rfl := beq_iff_eq.mp hx
      obtain ⟨rfl, -⟩ := Reader.mk.inj hr
      exact (readSigned_iff.mp hread).1
  · intro hsrc
    refine ⟨(label.value, ⟨rest, true⟩), readSigned_iff.mpr ⟨hsrc, _, toInt_label label⟩, ?_⟩
    simp

/-- Another label is read and does not match. -/
theorem matching_other {label' : ComponentLabel} (hne : label' ≠ label) :
    (⟨labelCode label' ++ rest, true⟩ : Reader).ReadComponentLabelMatching label =
      some (false, ⟨rest, true⟩) := by
  have hread : (⟨labelCode label' ++ rest, true⟩ : Reader).ReadSignedNumIncreasing =
      some (label'.value, ⟨rest, true⟩) := readSigned_iff.mpr ⟨rfl, _, toInt_label label'⟩
  have hvalue : (label'.value == label.value) = false := beq_false_of_ne fun h => hne (value_injective h)
  unfold ReadComponentLabelMatching
  rw [if_pos rfl, hread, Option.map_some]
  simp [hvalue]

theorem expectLabel_iff : (⟨src, true⟩ : Reader).expectLabel label = some ⟨rest, true⟩ ↔
    src = labelCode label ++ rest := by
  unfold expectLabel
  rw [Option.map_eq_some_iff, ← matching_iff]
  constructor
  · rintro ⟨⟨matching, r⟩, hread, heq⟩
    cases matching with
    | false =>
      have hok : false = true := congrArg Reader.ok heq
      exact absurd hok Bool.false_ne_true
    | true =>
      rw [hread]
      exact congrArg (fun r => some (true, r)) heq
  · exact fun h => ⟨(true, ⟨rest, true⟩), h, rfl⟩

theorem readInt32_iff : (⟨src, true⟩ : Reader).ReadInt32 = some (x, ⟨rest, true⟩) ↔
    INT32_MIN ≤ x ∧ x ≤ INT32_MAX ∧ src = signedCode x ++ rest := by
  unfold ReadInt32
  rw [if_pos rfl, Option.map_eq_some_iff]
  constructor
  · rintro ⟨⟨x', src', ok⟩, hread, heq⟩
    split_ifs at heq with h
    · obtain ⟨rfl, hr⟩ := Prod.mk.inj heq
      obtain ⟨rfl, rfl⟩ := Reader.mk.inj hr
      exact ⟨h.2.1, h.2.2, (readSigned_iff.mp hread).1⟩
    · have hok : false = true := congrArg (fun p => p.2.ok) heq
      exact absurd hok Bool.false_ne_true
  · rintro ⟨hle, hle', hsrc⟩
    refine ⟨(x, ⟨rest, true⟩), readSigned_iff.mpr ⟨hsrc, _, toInt_int32 hle hle'⟩, ?_⟩
    exact if_pos ⟨rfl, hle, hle'⟩

/-- A reader that has failed before reads nothing. -/
theorem ok_of_readInt32 {r : Reader} (h : r.ReadInt32 = some (x, ⟨rest, true⟩)) : r.ok = true := by
  rcases r with ⟨src, _ | _⟩
  · have hok : false = true := congrArg (fun p : ℤ × Reader => p.2.ok) (Option.some.inj h)
    exact hok
  · rfl

theorem ok_of_readString {r : Reader} (h : r.ReadString = some (s, ⟨rest, true⟩)) : r.ok = true := by
  rcases r with ⟨src, _ | _⟩
  · have hok : false = true := congrArg (fun p : List Byte × Reader => p.2.ok) (Option.some.inj h)
    exact hok
  · rfl

theorem ok_of_expectLabel {r : Reader} (h : r.expectLabel label = some ⟨rest, true⟩) : r.ok = true := by
  rcases r with ⟨src, _ | _⟩
  · have hok : false = true := congrArg Reader.ok (Option.some.inj h)
    exact hok
  · rfl

theorem readLabeledInt32_iff :
    (⟨src, true⟩ : Reader).ReadLabeledInt32 label = some (x, ⟨rest, true⟩) ↔
      INT32_MIN ≤ x ∧ x ≤ INT32_MAX ∧ src = labelCode label ++ (signedCode x ++ rest) := by
  unfold ReadLabeledInt32
  rw [Option.bind_eq_some_iff]
  constructor
  · rintro ⟨⟨src', ok⟩, hlabel, hread⟩
    obtain rfl : ok = true := ok_of_readInt32 hread
    obtain ⟨hle, hle', rfl⟩ := readInt32_iff.mp hread
    exact ⟨hle, hle', expectLabel_iff.mp hlabel⟩
  · rintro ⟨hle, hle', hsrc⟩
    exact ⟨⟨signedCode x ++ rest, true⟩, expectLabel_iff.mpr hsrc, readInt32_iff.mpr ⟨hle, hle', rfl⟩⟩

theorem readLabeledString_iff :
    (⟨src, true⟩ : Reader).ReadLabeledString label = some (s, ⟨rest, true⟩) ↔
      src = labelCode label ++ (stringCode s ++ rest) := by
  unfold ReadLabeledString
  rw [Option.bind_eq_some_iff]
  constructor
  · rintro ⟨⟨src', ok⟩, hlabel, hread⟩
    obtain rfl : ok = true := ok_of_readString hread
    rw [readString_iff.mp hread] at hlabel
    exact expectLabel_iff.mp hlabel
  · intro hsrc
    exact ⟨⟨stringCode s ++ rest, true⟩, expectLabel_iff.mpr hsrc, readString_iff.mpr rfl⟩

theorem ok_of_readLabeledInt32 {r : Reader} (h : r.ReadLabeledInt32 label = some (x, ⟨rest, true⟩)) :
    r.ok = true := by
  obtain ⟨⟨src', ok⟩, hlabel, hread⟩ := Option.bind_eq_some_iff.mp h
  obtain rfl : ok = true := ok_of_readInt32 hread
  exact ok_of_expectLabel hlabel

theorem ok_of_readLabeledString {r : Reader} (h : r.ReadLabeledString label = some (s, ⟨rest, true⟩)) :
    r.ok = true := by
  obtain ⟨⟨src', ok⟩, hlabel, hread⟩ := Option.bind_eq_some_iff.mp h
  obtain rfl : ok = true := ok_of_readString hread
  exact ok_of_expectLabel hlabel

theorem readTableNameMatching_iff :
    (⟨src, true⟩ : Reader).ReadTableNameMatching t = some ⟨rest, true⟩ ↔
      src = labelCode .TableName ++ (stringCode t ++ rest) := by
  unfold ReadTableNameMatching ReadLabeledStringMatching
  rw [Option.map_map, Option.map_eq_some_iff]
  constructor
  · rintro ⟨⟨s, src', ok⟩, hread, heq⟩
    cases ok with
    | false =>
      have hok : false = true := congrArg Reader.ok heq
      exact absurd hok Bool.false_ne_true
    | true =>
      by_cases hs : s = t
      · subst hs
        simp only [Function.comp_apply, if_true, beq_self_eq_true] at heq
        obtain ⟨rfl, -⟩ := Reader.mk.inj heq
        exact readLabeledString_iff.mp hread
      · simp only [Function.comp_apply, if_true, beq_false_of_ne hs] at heq
        have hok : false = true := congrArg Reader.ok heq
        exact absurd hok Bool.false_ne_true
  · intro hsrc
    refine ⟨(t, ⟨rest, true⟩), readLabeledString_iff.mpr hsrc, ?_⟩
    simp

/-- The name of another table fails the reader. -/
theorem readTableNameMatching_other (hne : s ≠ t) :
    (⟨labelCode .TableName ++ (stringCode s ++ rest), true⟩ : Reader).ReadTableNameMatching t =
      some ⟨rest, false⟩ := by
  have hread : (⟨labelCode .TableName ++ (stringCode s ++ rest), true⟩ : Reader).ReadLabeledString .TableName =
      some (s, ⟨rest, true⟩) := readLabeledString_iff.mpr rfl
  unfold ReadTableNameMatching ReadLabeledStringMatching
  rw [hread]
  simp [beq_false_of_ne hne, Fail]

theorem length_lt_of_matching (h : r.ReadComponentLabelMatching label = some (true, r₁)) :
    r₁.src.length < r.src.length := by
  rcases r with ⟨src, _ | _⟩
  · exact absurd (congrArg Prod.fst (Option.some.inj h)) Bool.false_ne_true
  rcases r₁ with ⟨rest, _ | _⟩
  · unfold ReadComponentLabelMatching at h
    rw [if_pos rfl, Option.map_eq_some_iff] at h
    obtain ⟨⟨x, r'⟩, -, heq⟩ := h
    split_ifs at heq with hok
    · have hfalse : r'.ok = false := congrArg (fun p => p.2.ok) heq
      rw [hfalse] at hok
      exact absurd hok Bool.false_ne_true
    · exact absurd (congrArg Prod.fst heq) Bool.false_ne_true
  · rw [matching_iff.mp h, List.length_append]
    exact Nat.lt_add_of_pos_left (length_signedCode _ ▸ encodingLength_pos _)

theorem length_le_of_readString (h : r.ReadString = some (s, r₁)) : r₁.src.length ≤ r.src.length := by
  rcases r with ⟨src, _ | _⟩
  · rw [← (Prod.mk.inj (Option.some.inj h)).2]
    exact le_rfl
  rcases r₁ with ⟨rest, _ | _⟩
  · unfold ReadString OrderedCode.ReadString at h
    rw [if_pos rfl, readStringInternal_eq, Option.map_some] at h
    cases hread : readSymbols src with
    | none =>
      rw [hread] at h
      rw [← (Prod.mk.inj (Option.some.inj h)).2]
      exact le_rfl
    | some p =>
      rw [hread] at h
      have hok : true = false := congrArg (fun p => p.2.ok) (Option.some.inj h)
      exact absurd hok.symm Bool.false_ne_true
  · have hsrc : src = stringCode s ++ rest := readString_iff.mp h
    rw [hsrc, List.length_append]
    exact Nat.le_add_left _ _

/-- The segments up to another label, which is not read. -/
def ReadResourcePath (r : Reader) : Option (List (List Byte) × Reader) :=
  if r.empty then some ([], r)
  else
    match _h : r.ReadComponentLabelMatching .PathSegment with
    | none => none
    | some (false, r₁) => some ([], { r₁ with src := r.src })
    | some (true, r₁) =>
      match _h₁ : r₁.ReadString with
      | none => none
      | some (segment, r₂) =>
        if r₂.ok then (ReadResourcePath r₂).map fun p => (segment :: p.1, p.2) else some ([], r₂)
termination_by r.src.length
decreasing_by exact (length_le_of_readString _h₁).trans_lt (length_lt_of_matching _h)

def segmentCode (segment : List Byte) : List Byte := labelCode .PathSegment ++ stringCode segment

theorem readResourcePath_sound {path : List (List Byte)} (hr : r.ok = true)
    (h : r.ReadResourcePath = some (path, ⟨rest, true⟩)) :
    r.src = path.flatMap segmentCode ++ rest := by
  fun_induction ReadResourcePath r generalizing path with
  | case1 r hempty =>
    obtain ⟨rfl, rfl⟩ := Prod.mk.inj (Option.some.inj h)
    rfl
  | case3 r hempty r₁ hmatching =>
    obtain ⟨rfl, heq⟩ := Prod.mk.inj (Option.some.inj h)
    exact (Reader.mk.inj heq).1
  | case5 r hempty r₁ hmatching segment r₂ hread hok ih =>
    obtain ⟨⟨path', r₃⟩, hpath, heq⟩ := Option.map_eq_some_iff.mp h
    obtain ⟨rfl, rfl⟩ := Prod.mk.inj heq
    have hrest := ih hok hpath
    rcases r with ⟨src, ok⟩
    rcases r₂ with ⟨src₂, ok₂⟩
    obtain rfl : ok = true := hr
    obtain rfl : ok₂ = true := hok
    rcases r₁ with ⟨src₁, ok₁⟩
    obtain rfl : ok₁ = true := ok_of_readString hread
    have hsrc₁ : src₁ = stringCode segment ++ src₂ := readString_iff.mp hread
    have hsrc : src = labelCode .PathSegment ++ src₁ := matching_iff.mp hmatching
    change src = _
    rw [hsrc, hsrc₁, List.flatMap_cons, List.append_assoc, ← hrest, segmentCode, List.append_assoc]
  | case6 r hempty r₁ hmatching segment r₂ hread hok =>
    obtain ⟨rfl, rfl⟩ := Prod.mk.inj (Option.some.inj h)
    exact absurd rfl hok
  | _ => exact absurd h (Option.some_ne_none _).symm

theorem not_empty_labelCode (label : ComponentLabel) (rest : List Byte) :
    (⟨labelCode label ++ rest, true⟩ : Reader).empty = false := by
  have hne : labelCode label ++ rest ≠ [] :=
    List.append_ne_nil_of_left_ne_nil (separating_signedCode.ne_nil label.value) rest
  unfold empty
  rw [List.isEmpty_eq_false_iff.mpr hne]
  rfl

theorem readResourcePath_complete (hne : label ≠ .PathSegment) (path : List (List Byte)) :
    (⟨path.flatMap segmentCode ++ (labelCode label ++ rest), true⟩ : Reader).ReadResourcePath =
      some (path, ⟨labelCode label ++ rest, true⟩) := by
  induction path with
  | nil =>
    change (⟨labelCode label ++ rest, true⟩ : Reader).ReadResourcePath = _
    have hmatching := @matching_other rest .PathSegment label hne
    rw [ReadResourcePath, not_empty_labelCode, if_neg Bool.false_ne_true]
    split
    next h => cases hmatching.symm.trans h
    next h =>
      cases hmatching.symm.trans h
      rfl
    next h => cases hmatching.symm.trans h
  | cons segment path ih =>
    have hsrc : (segment :: path).flatMap segmentCode ++ (labelCode label ++ rest) =
        labelCode .PathSegment ++
          (stringCode segment ++ (path.flatMap segmentCode ++ (labelCode label ++ rest))) := by
      rw [List.flatMap_cons, segmentCode, List.append_assoc, List.append_assoc]
    have hmatching := (@matching_iff _ _ .PathSegment).mpr hsrc
    rw [ReadResourcePath, hsrc, not_empty_labelCode, if_neg Bool.false_ne_true]
    rw [hsrc] at hmatching
    split
    next h => cases hmatching.symm.trans h
    next h => cases hmatching.symm.trans h
    next h =>
      cases hmatching.symm.trans h
      split
      next h => cases (readString_iff.mpr rfl).symm.trans h
      next h =>
        cases (readString_iff.mpr rfl).symm.trans h
        rw [if_pos rfl, ih, Option.map_some]

end Reader

structure DocumentKey where
  path : List (List Byte)
  even : path.length % 2 = 0
  ne_nil : path ≠ []
  deriving DecidableEq

def Reader.ReadDocumentKey (r : Reader) : Option (Option DocumentKey × Reader) :=
  r.ReadResourcePath.map fun p =>
    if h : p.2.ok = true ∧ p.1 ≠ [] ∧ p.1.length % 2 = 0 then (some ⟨p.1, h.2.2, h.2.1⟩, p.2)
    else (none, p.2.Fail)

def ascii (s : String) : List Byte := s.toList.map fun c => BitVec.ofNat 8 c.toNat

def kMutationsTable : List Byte := ascii "mutation"

def kDocumentMutationsTable : List Byte := ascii "document_mutation"

namespace LevelDbMutationKey

def KeyPrefix (user_id : List Byte) : Writer :=
  (Writer.new.WriteTableName kMutationsTable).WriteUserId user_id

def Key (user_id : List Byte) (batch_id : ℤ) : Writer :=
  (((Writer.new.WriteTableName kMutationsTable).WriteUserId user_id).WriteBatchId
    batch_id).WriteTerminator

def Decode (key : List Byte) : Option (Option (List Byte × ℤ)) := do
  let reader ← (⟨key, true⟩ : Reader).ReadTableNameMatching kMutationsTable
  let (user_id, reader) ← reader.ReadUserId
  let (batch_id, reader) ← reader.ReadBatchId
  let reader ← reader.ReadTerminator
  return if reader.ok then some (user_id, batch_id) else none

end LevelDbMutationKey

namespace LevelDbDocumentMutationKey

def KeyPrefix (user_id : List Byte) (resource_path : List (List Byte)) : Writer :=
  ((Writer.new.WriteTableName kDocumentMutationsTable).WriteUserId user_id).WriteResourcePath
    resource_path

def Key (user_id : List Byte) (document_key : DocumentKey) (batch_id : ℤ) : Writer :=
  ((((Writer.new.WriteTableName kDocumentMutationsTable).WriteUserId user_id).WriteResourcePath
    document_key.path).WriteBatchId batch_id).WriteTerminator

def Decode (key : List Byte) : Option (Option (List Byte × DocumentKey × ℤ)) := do
  let reader ← (⟨key, true⟩ : Reader).ReadTableNameMatching kDocumentMutationsTable
  let (user_id, reader) ← reader.ReadUserId
  let (document_key, reader) ← reader.ReadDocumentKey
  let (batch_id, reader) ← reader.ReadBatchId
  let reader ← reader.ReadTerminator
  return if reader.ok then document_key.map fun document_key => (user_id, document_key, batch_id) else none

end LevelDbDocumentMutationKey

inductive Component where
  | Terminator
  | TableName (table_name : List Byte)
  | BatchId (batch_id : ℤ)
  | CanonicalId (canonical_id : List Byte)
  | TargetId (target_id : ℤ)
  | UserId (user_id : List Byte)
  | CollectionId (collection_id : List Byte)
  | PathSegment (segment : List Byte)
  deriving DecidableEq

namespace Component

def label : Component → ComponentLabel
  | Terminator => .Terminator
  | TableName _ => .TableName
  | BatchId _ => .BatchId
  | CanonicalId _ => .CanonicalId
  | TargetId _ => .TargetId
  | UserId _ => .UserId
  | CollectionId _ => .CollectionId
  | PathSegment _ => .PathSegment

def values : Component → List Byte ×ₗ ℤ
  | Terminator => toLex ([], 0)
  | BatchId n | TargetId n => toLex ([], n)
  | TableName s | CanonicalId s | UserId s | CollectionId s | PathSegment s => toLex (s, 0)

def make (v : List Byte ×ₗ ℤ) : ComponentLabel → Component
  | .Terminator => Terminator
  | .TableName => TableName (ofLex v).1
  | .BatchId => BatchId (ofLex v).2
  | .CanonicalId => CanonicalId (ofLex v).1
  | .TargetId => TargetId (ofLex v).2
  | .UserId => UserId (ofLex v).1
  | .CollectionId => CollectionId (ofLex v).1
  | .PathSegment => PathSegment (ofLex v).1

theorem make_values (c : Component) : make c.values c.label = c := by cases c <;> rfl

def rank (c : Component) : ℤ ×ₗ (List Byte ×ₗ ℤ) := toLex (c.label.value, c.values)

theorem rank_injective : Function.Injective rank := by
  intro c c' h
  obtain ⟨hlabel, hvalues⟩ := Prod.mk.inj (toLex.injective h)
  rw [← make_values c, ← make_values c', value_injective hlabel, hvalues]

/-- Components compare by their labels, and then by their values. -/
instance : LinearOrder Component := LinearOrder.lift' rank rank_injective

theorem lt_iff {c c' : Component} : c < c' ↔
    c.label.value < c'.label.value ∨ c.label = c'.label ∧ c.values < c'.values := by
  change rank c < rank c' ↔ _
  rw [Prod.Lex.lt_iff]
  exact or_congr_right (and_congr_left' value_injective.eq_iff)

theorem values_lt_iff {s s' : List Byte} {n n' : ℤ} :
    (toLex (s, n) : List Byte ×ₗ ℤ) < toLex (s', n') ↔ s < s' ∨ s = s' ∧ n < n' := Prod.Lex.lt_iff

theorem userId_lt_iff {s s' : List Byte} : UserId s < UserId s' ↔ s < s' := by
  rw [lt_iff]
  change (13 : ℤ) < 13 ∨ _ ∧ (toLex (s, 0) : List Byte ×ₗ ℤ) < toLex (s', 0) ↔ _
  rw [values_lt_iff]
  simp [label]

theorem pathSegment_lt_iff {s s' : List Byte} : PathSegment s < PathSegment s' ↔ s < s' := by
  rw [lt_iff]
  change (62 : ℤ) < 62 ∨ _ ∧ (toLex (s, 0) : List Byte ×ₗ ℤ) < toLex (s', 0) ↔ _
  rw [values_lt_iff]
  simp [label]

theorem batchId_lt_iff {n n' : ℤ} : BatchId n < BatchId n' ↔ n < n' := by
  rw [lt_iff]
  change (10 : ℤ) < 10 ∨ _ ∧ (toLex ([], n) : List Byte ×ₗ ℤ) < toLex ([], n') ↔ _
  rw [values_lt_iff]
  simp [label]

def payload : Component → List Byte
  | Terminator => []
  | BatchId n | TargetId n => signedCode n
  | TableName s | CanonicalId s | UserId s | CollectionId s | PathSegment s => stringCode s

def code (c : Component) : List Byte := labelCode c.label ++ c.payload

theorem apart_payload {c c' : Component} (hlabel : c.label = c'.label) (hvalues : c.values < c'.values) :
    Apart c.payload c'.payload := by
  have hstring {s s' : List Byte} (h : (toLex (s, 0) : List Byte ×ₗ ℤ) < toLex (s', 0)) :
      Apart (stringCode s) (stringCode s') := by
    rcases Prod.Lex.lt_iff.mp h with h | ⟨-, h⟩
    · exact separating_stringCode.apart h
    · exact absurd h (lt_irrefl 0)
  have hnumber {n n' : ℤ} (h : (toLex ([], n) : List Byte ×ₗ ℤ) < toLex ([], n')) :
      Apart (signedCode n) (signedCode n') := by
    rcases Prod.Lex.lt_iff.mp h with h | ⟨-, h⟩
    · exact absurd h (lt_irrefl _)
    · exact separating_signedCode.apart h
  cases c <;> cases c' <;> first
    | exact hstring hvalues
    | exact hnumber hvalues
    | exact absurd hvalues (lt_irrefl _)
    | (simp only [label, reduceCtorEq] at hlabel)

theorem separating_code : Separating code where
  ne_nil c := List.append_ne_nil_of_left_ne_nil (separating_signedCode.ne_nil _) _
  apart {c c'} hlt := by
    rcases lt_iff.mp hlt with hlabel | ⟨hlabel, hvalues⟩
    · exact (separating_signedCode.apart hlabel).append _ _
    · rw [code, code, hlabel]
      exact (apart_payload hlabel hvalues).prepend _

end Component

def keyCode (l : List Component) : List Byte := l.flatMap Component.code

theorem keyCode_append (l l' : List Component) : keyCode (l ++ l') = keyCode l ++ keyCode l' :=
  List.flatMap_append

theorem keyCode_strictMono : StrictMono keyCode := Component.separating_code.flatMap_strictMono

theorem keyCode_prefix_iff {l l' : List Component} : keyCode l <+: keyCode l' ↔ l <+: l' :=
  Component.separating_code.flatMap_prefix_iff

namespace Writer
variable {l : List Component}

theorem writeLabel_eq (label : ComponentLabel) :
    Writer.WriteComponentLabel label (some (keyCode l)) = some (keyCode l ++ labelCode label) := by
  rw [WriteComponentLabel, Option.bind_some, writeSignedNumIncreasing_eq, toInt_label]
  rfl

theorem writeLabeledString_eq (label : ComponentLabel) (s : List Byte) :
    Writer.WriteLabeledString label s (some (keyCode l)) =
      some (keyCode l ++ (labelCode label ++ stringCode s)) := by
  rw [WriteLabeledString, writeLabel_eq, Option.bind_some, writeString_eq, Option.map_some,
    List.append_assoc]

theorem writeLabeledInt32_eq (label : ComponentLabel) {n : ℤ} (hle : INT32_MIN ≤ n) (hle' : n ≤ INT32_MAX) :
    Writer.WriteLabeledInt32 label n (some (keyCode l)) =
      some (keyCode l ++ (labelCode label ++ signedCode n)) := by
  rw [WriteLabeledInt32, writeLabel_eq, Option.bind_some, writeSignedNumIncreasing_eq,
    toInt_int32 hle hle', Option.map_some, List.append_assoc]

theorem writes (c : Component) : keyCode l ++ c.code = keyCode (l ++ [c]) := by
  rw [keyCode_append, keyCode, keyCode, List.flatMap_singleton]

theorem writeTerminator_eq :
    Writer.WriteTerminator (some (keyCode l)) = some (keyCode (l ++ [.Terminator])) := by
  rw [WriteTerminator, writeLabel_eq, ← writes, Component.code, Component.payload, List.append_nil]
  rfl

theorem writeTableName_eq (s : List Byte) :
    Writer.WriteTableName s (some (keyCode l)) = some (keyCode (l ++ [.TableName s])) := by
  rw [WriteTableName, writeLabeledString_eq, ← writes]
  rfl

theorem writeUserId_eq (s : List Byte) :
    Writer.WriteUserId s (some (keyCode l)) = some (keyCode (l ++ [.UserId s])) := by
  rw [WriteUserId, writeLabeledString_eq, ← writes]
  rfl

theorem writeBatchId_eq {n : ℤ} (hle : INT32_MIN ≤ n) (hle' : n ≤ INT32_MAX) :
    Writer.WriteBatchId n (some (keyCode l)) = some (keyCode (l ++ [.BatchId n])) := by
  rw [WriteBatchId, writeLabeledInt32_eq _ hle hle', ← writes]
  rfl

theorem writeResourcePath_eq (path : List (List Byte)) :
    Writer.WriteResourcePath path (some (keyCode l)) = some (keyCode (l ++ path.map .PathSegment)) := by
  induction path generalizing l with
  | nil => rw [List.map_nil, List.append_nil]; rfl
  | cons segment path ih =>
    have hsegment : Writer.WriteLabeledString .PathSegment segment (some (keyCode l)) =
        some (keyCode (l ++ [.PathSegment segment])) := by
      rw [writeLabeledString_eq, ← writes]
      rfl
    change Writer.WriteResourcePath path (Writer.WriteLabeledString .PathSegment segment _) = _
    rw [hsegment, ih, List.append_assoc]
    rfl

theorem new_eq : new = some (keyCode []) := rfl

end Writer

namespace LevelDbMutationKey

def components (user_id : List Byte) (batch_id : ℤ) : List Component :=
  [.TableName kMutationsTable, .UserId user_id, .BatchId batch_id, .Terminator]

variable {user_id user_id' : List Byte} {batch_id batch_id' : ℤ}

theorem key_eq (hle : INT32_MIN ≤ batch_id) (hle' : batch_id ≤ INT32_MAX) :
    Key user_id batch_id = some (keyCode (components user_id batch_id)) := by
  rw [Key, Writer.new_eq, Writer.writeTableName_eq, Writer.writeUserId_eq, Writer.writeBatchId_eq hle hle',
    Writer.writeTerminator_eq]
  rfl

theorem keyPrefix_eq : KeyPrefix user_id =
    some (keyCode [.TableName kMutationsTable, .UserId user_id]) := by
  rw [KeyPrefix, Writer.new_eq, Writer.writeTableName_eq, Writer.writeUserId_eq]
  rfl

theorem components_lt_iff : components user_id batch_id < components user_id' batch_id' ↔
    user_id < user_id' ∨ user_id = user_id' ∧ batch_id < batch_id' := by
  unfold components
  rw [List.cons_lt_cons_iff, List.cons_lt_cons_iff, List.cons_lt_cons_iff, Component.userId_lt_iff,
    Component.batchId_lt_iff]
  simp

/-- A key is decoded exactly where it starts the input. -/
theorem decode_iff (key : List Byte) : Decode key = some (some (user_id, batch_id)) ↔
    INT32_MIN ≤ batch_id ∧ batch_id ≤ INT32_MAX ∧
      ∃ rest, key = keyCode (components user_id batch_id) ++ rest := by
  have hcode (rest : List Byte) : keyCode (components user_id batch_id) ++ rest =
      labelCode .TableName ++ (stringCode kMutationsTable ++ (labelCode .UserId ++ (stringCode user_id ++
        (labelCode .BatchId ++ (signedCode batch_id ++ (labelCode .Terminator ++ rest)))))) := by
    simp only [keyCode, components, List.flatMap_cons, List.flatMap_nil, Component.code, Component.label,
      Component.payload, List.append_assoc, List.append_nil]
  unfold Decode
  simp only [Option.bind_eq_bind, Option.bind_eq_some_iff, Option.pure_def, Option.some.injEq]
  constructor
  · rintro ⟨r₁, h₁, ⟨u, r₂⟩, h₂, ⟨n, r₃⟩, h₃, ⟨rest, ok⟩, h₄, heq⟩
    split_ifs at heq with hok
    obtain rfl : ok = true := hok
    obtain ⟨rfl, rfl⟩ := Prod.mk.inj (Option.some.inj heq)
    obtain ⟨src₃, ok₃⟩ := r₃
    obtain rfl : ok₃ = true := Reader.ok_of_expectLabel h₄
    obtain ⟨src₂, ok₂⟩ := r₂
    obtain rfl : ok₂ = true := Reader.ok_of_readLabeledInt32 h₃
    obtain ⟨src₁, ok₁⟩ := r₁
    obtain rfl : ok₁ = true := Reader.ok_of_readLabeledString h₂
    obtain ⟨hle, hle', rfl⟩ := Reader.readLabeledInt32_iff.mp h₃
    refine ⟨hle, hle', rest, ?_⟩
    rw [Reader.readTableNameMatching_iff.mp h₁, Reader.readLabeledString_iff.mp h₂,
      Reader.expectLabel_iff.mp h₄, hcode]
  · rintro ⟨hle, hle', rest, rfl⟩
    rw [hcode]
    refine ⟨_, Reader.readTableNameMatching_iff.mpr rfl, _, Reader.readLabeledString_iff.mpr rfl, _,
      Reader.readLabeledInt32_iff.mpr ⟨hle, hle', rfl⟩, _, Reader.expectLabel_iff.mpr rfl, ?_⟩
    exact if_pos rfl

/-- The key of a row of another table is not decoded. -/
theorem decode_other {table_name : List Byte} (hne : table_name ≠ kMutationsTable) (l : List Component) :
    Decode (keyCode (.TableName table_name :: l)) = some none := by
  have hcode : keyCode (.TableName table_name :: l) =
      labelCode .TableName ++ (stringCode table_name ++ keyCode l) := by
    rw [keyCode, List.flatMap_cons, Component.code, List.append_assoc]
    rfl
  rw [Decode, hcode, Reader.readTableNameMatching_other hne]
  rfl

theorem keyPrefix_iff : keyCode [.TableName kMutationsTable, .UserId user_id] <+:
    keyCode (components user_id' batch_id') ↔ user_id = user_id' := by
  rw [keyCode_prefix_iff, components, List.cons_prefix_cons, List.cons_prefix_cons, Component.UserId.injEq]
  simp

/-- No assertion fails in the writer. A key is decoded exactly where it starts the input, the prefix of
a user starts exactly the keys of that user, and keys compare by their users and then by their
batches. -/
theorem mutation_keys (input : List Byte) (hle : INT32_MIN ≤ batch_id) (hle' : batch_id ≤ INT32_MAX)
    (hge : INT32_MIN ≤ batch_id') (hge' : batch_id' ≤ INT32_MAX) :
    ∃ key key' user_key, Key user_id batch_id = some key ∧ Key user_id' batch_id' = some key' ∧
      KeyPrefix user_id = some user_key ∧
      (Decode input = some (some (user_id, batch_id)) ↔ key <+: input) ∧
      (user_key <+: key' ↔ user_id = user_id') ∧
      (key < key' ↔ user_id < user_id' ∨ user_id = user_id' ∧ batch_id < batch_id') := by
  refine ⟨_, _, _, key_eq hle hle', key_eq hge hge', keyPrefix_eq, ?_, keyPrefix_iff, ?_⟩
  · rw [decode_iff]
    constructor
    · rintro ⟨-, -, rest, rfl⟩
      exact List.prefix_append _ _
    · rintro ⟨rest, rfl⟩
      exact ⟨hle, hle', rest, rfl⟩
  · rw [keyCode_strictMono.lt_iff_lt, components_lt_iff]

/-- The second batch of a user comes before the batch 300. -/
theorem mutation_keys_batches : ∃ key key', Key (ascii "ab") 2 = some key ∧
    Key (ascii "ab") 300 = some key' ∧ key < key' := by
  obtain ⟨key, key', -, hkey, hkey', -, -, -, hlt⟩ := @mutation_keys (ascii "ab") (ascii "ab") 2 300 []
    (by decide) (by decide) (by decide) (by decide)
  exact ⟨key, key', hkey, hkey', hlt.mpr (.inr ⟨rfl, by decide⟩)⟩

end LevelDbMutationKey

namespace LevelDbDocumentMutationKey

def components (user_id : List Byte) (path : List (List Byte)) (batch_id : ℤ) : List Component :=
  .TableName kDocumentMutationsTable :: .UserId user_id ::
    (path.map .PathSegment ++ [.BatchId batch_id, .Terminator])

variable {user_id user_id' : List Byte} {document_key document_key' : DocumentKey} {batch_id batch_id' : ℤ}

theorem key_eq (hle : INT32_MIN ≤ batch_id) (hle' : batch_id ≤ INT32_MAX) :
    Key user_id document_key batch_id = some (keyCode (components user_id document_key.path batch_id)) := by
  rw [Key, Writer.new_eq, Writer.writeTableName_eq, Writer.writeUserId_eq, Writer.writeResourcePath_eq,
    Writer.writeBatchId_eq hle hle', Writer.writeTerminator_eq]
  simp [components]

theorem keyPrefix_eq (path : List (List Byte)) : KeyPrefix user_id path =
    some (keyCode (.TableName kDocumentMutationsTable :: .UserId user_id :: path.map .PathSegment)) := by
  rw [KeyPrefix, Writer.new_eq, Writer.writeTableName_eq, Writer.writeUserId_eq,
    Writer.writeResourcePath_eq]
  rfl

/-- A batch comes before every segment, so that a document stands before the ones below it. -/
theorem path_lt_iff (path path' : List (List Byte)) :
    path.map Component.PathSegment ++ [.BatchId batch_id, .Terminator] <
        path'.map Component.PathSegment ++ [.BatchId batch_id', .Terminator] ↔
      path < path' ∨ path = path' ∧ batch_id < batch_id' := by
  have hsegment (segment : List Byte) (n : ℤ) : Component.BatchId n < .PathSegment segment :=
    Component.lt_iff.mpr (.inl (by decide : (10 : ℤ) < 62))
  induction path generalizing path' with
  | nil =>
    cases path' with
    | nil =>
      rw [List.map_nil, List.nil_append, List.nil_append, List.cons_lt_cons_iff, Component.batchId_lt_iff]
      simp
    | cons segment path' => exact iff_of_true (List.Lex.rel (hsegment segment batch_id)) (.inl List.Lex.nil)
  | cons segment path ih =>
    cases path' with
    | nil =>
      refine iff_of_false (fun h => ?_) (by simp)
      exact absurd h (not_lt.mpr (le_of_lt (List.Lex.rel (hsegment segment batch_id'))))
    | cons segment' path' =>
      rw [List.map_cons, List.map_cons, List.cons_append, List.cons_append, List.cons_lt_cons_iff,
        Component.pathSegment_lt_iff, List.cons_lt_cons_iff, Component.PathSegment.injEq, List.cons.injEq]
      have hrest := ih path'
      tauto

theorem components_lt_iff (path path' : List (List Byte)) :
    components user_id path batch_id < components user_id' path' batch_id' ↔
      user_id < user_id' ∨
        user_id = user_id' ∧ (path < path' ∨ path = path' ∧ batch_id < batch_id') := by
  unfold components
  rw [List.cons_lt_cons_iff, List.cons_lt_cons_iff, Component.userId_lt_iff, path_lt_iff]
  simp

theorem readDocumentKey_sound {src rest : List Byte} {key : Option DocumentKey}
    (h : (⟨src, true⟩ : Reader).ReadDocumentKey = some (key, ⟨rest, true⟩)) :
    ∃ document_key, key = some document_key ∧
      src = document_key.path.flatMap Reader.segmentCode ++ rest := by
  obtain ⟨⟨path, r⟩, hpath, heq⟩ := Option.map_eq_some_iff.mp h
  split_ifs at heq with hvalid
  · obtain ⟨rfl, rfl⟩ := Prod.mk.inj heq
    exact ⟨_, rfl, Reader.readResourcePath_sound rfl hpath⟩
  · have hok : false = true := congrArg (fun p => p.2.ok) heq
    exact absurd hok Bool.false_ne_true

theorem readDocumentKey_complete {label : ComponentLabel} (hne : label ≠ .PathSegment) (rest : List Byte)
    (document_key : DocumentKey) :
    (⟨document_key.path.flatMap Reader.segmentCode ++ (labelCode label ++ rest), true⟩ :
      Reader).ReadDocumentKey = some (some document_key, ⟨labelCode label ++ rest, true⟩) := by
  rw [Reader.ReadDocumentKey, Reader.readResourcePath_complete hne, Option.map_some,
    dif_pos ⟨rfl, document_key.ne_nil, document_key.even⟩]

theorem ok_of_readDocumentKey {r : Reader} {rest : List Byte} {key : Option DocumentKey}
    (h : r.ReadDocumentKey = some (key, ⟨rest, true⟩)) : r.ok = true := by
  obtain ⟨src, _ | _⟩ := r
  · have hpath : (⟨src, false⟩ : Reader).ReadResourcePath = some ([], ⟨src, false⟩) := by
      rw [Reader.ReadResourcePath]
      rfl
    rw [Reader.ReadDocumentKey, hpath] at h
    have hok : false = true := congrArg (fun p : Option DocumentKey × Reader => p.2.ok) (Option.some.inj h)
    exact absurd hok Bool.false_ne_true
  · rfl

/-- A key is decoded exactly where it starts the input. -/
theorem decode_iff (key : List Byte) :
    Decode key = some (some (user_id, document_key, batch_id)) ↔ INT32_MIN ≤ batch_id ∧
      batch_id ≤ INT32_MAX ∧ ∃ rest, key = keyCode (components user_id document_key.path batch_id) ++ rest := by
  have hcode (rest : List Byte) : keyCode (components user_id document_key.path batch_id) ++ rest =
      labelCode .TableName ++ (stringCode kDocumentMutationsTable ++ (labelCode .UserId ++
        (stringCode user_id ++ (document_key.path.flatMap Reader.segmentCode ++ (labelCode .BatchId ++
          (signedCode batch_id ++ (labelCode .Terminator ++ rest))))))) := by
    have hpath : (document_key.path.map Component.PathSegment).flatMap Component.code =
        document_key.path.flatMap Reader.segmentCode := by
      rw [List.flatMap_map]
      rfl
    simp only [keyCode, components, List.flatMap_cons, List.flatMap_append, List.flatMap_nil, hpath,
      Component.code, Component.label, Component.payload, List.append_assoc, List.append_nil]
  unfold Decode
  simp only [Option.bind_eq_bind, Option.bind_eq_some_iff, Option.pure_def, Option.some.injEq]
  constructor
  · rintro ⟨r₁, h₁, ⟨u, r₂⟩, h₂, ⟨d, r₃⟩, h₃, ⟨n, r₄⟩, h₄, ⟨rest, ok⟩, h₅, heq⟩
    split_ifs at heq with hok
    obtain rfl : ok = true := hok
    obtain ⟨d, rfl, htriple⟩ := Option.map_eq_some_iff.mp heq
    obtain ⟨rfl, hpair⟩ := Prod.mk.inj htriple
    obtain ⟨rfl, rfl⟩ := Prod.mk.inj hpair
    obtain ⟨src₄, ok₄⟩ := r₄
    obtain rfl : ok₄ = true := Reader.ok_of_expectLabel h₅
    obtain ⟨src₃, ok₃⟩ := r₃
    obtain rfl : ok₃ = true := Reader.ok_of_readLabeledInt32 h₄
    obtain ⟨src₂, ok₂⟩ := r₂
    obtain rfl : ok₂ = true := ok_of_readDocumentKey h₃
    obtain ⟨src₁, ok₁⟩ := r₁
    obtain rfl : ok₁ = true := Reader.ok_of_readLabeledString h₂
    obtain ⟨hle, hle', rfl⟩ := Reader.readLabeledInt32_iff.mp h₄
    obtain ⟨d', hd, rfl⟩ := readDocumentKey_sound h₃
    obtain rfl := Option.some.inj hd
    refine ⟨hle, hle', rest, ?_⟩
    rw [Reader.readTableNameMatching_iff.mp h₁, Reader.readLabeledString_iff.mp h₂,
      Reader.expectLabel_iff.mp h₅, hcode]
  · rintro ⟨hle, hle', rest, rfl⟩
    rw [hcode]
    refine ⟨_, Reader.readTableNameMatching_iff.mpr rfl, _, Reader.readLabeledString_iff.mpr rfl, _,
      readDocumentKey_complete (by decide) _ document_key, _,
      Reader.readLabeledInt32_iff.mpr ⟨hle, hle', rfl⟩, _, Reader.expectLabel_iff.mpr rfl, ?_⟩
    exact if_pos rfl

theorem pathPrefix_iff (path path' : List (List Byte)) : path.map Component.PathSegment <+:
    path'.map Component.PathSegment ++ [.BatchId batch_id', .Terminator] ↔ path <+: path' := by
  induction path generalizing path' with
  | nil => exact iff_of_true List.nil_prefix List.nil_prefix
  | cons segment path ih =>
    cases path' with
    | nil => simp
    | cons segment' path' =>
      rw [List.map_cons, List.map_cons, List.cons_append, List.cons_prefix_cons, List.cons_prefix_cons,
        Component.PathSegment.injEq, ih]

theorem keyPrefix_iff (path path' : List (List Byte)) :
    keyCode (.TableName kDocumentMutationsTable :: .UserId user_id :: path.map .PathSegment) <+:
      keyCode (components user_id' path' batch_id') ↔ user_id = user_id' ∧ path <+: path' := by
  rw [keyCode_prefix_iff, components, List.cons_prefix_cons, List.cons_prefix_cons,
    Component.UserId.injEq, pathPrefix_iff]
  simp

/-- No assertion fails in the writer. A key is decoded exactly where it starts the input, the prefix of
a path starts exactly the keys of that user at this path or below it, and keys compare by their users,
then by their paths and then by their batches. -/
theorem document_mutation_keys (input : List Byte) (path : List (List Byte))
    (hle : INT32_MIN ≤ batch_id) (hle' : batch_id ≤ INT32_MAX)
    (hge : INT32_MIN ≤ batch_id') (hge' : batch_id' ≤ INT32_MAX) :
    ∃ key key' path_key, Key user_id document_key batch_id = some key ∧
      Key user_id' document_key' batch_id' = some key' ∧ KeyPrefix user_id path = some path_key ∧
      (Decode input = some (some (user_id, document_key, batch_id)) ↔ key <+: input) ∧
      (path_key <+: key' ↔ user_id = user_id' ∧ path <+: document_key'.path) ∧
      (key < key' ↔ user_id < user_id' ∨ user_id = user_id' ∧ (document_key.path < document_key'.path ∨
        document_key.path = document_key'.path ∧ batch_id < batch_id')) := by
  refine ⟨_, _, _, key_eq hle hle', key_eq hge hge', keyPrefix_eq path, ?_, keyPrefix_iff path _, ?_⟩
  · rw [decode_iff]
    constructor
    · rintro ⟨-, -, rest, rfl⟩
      exact List.prefix_append _ _
    · rintro ⟨rest, rfl⟩
      exact ⟨hle, hle', rest, rfl⟩
  · rw [keyCode_strictMono.lt_iff_lt, components_lt_iff]

/-- A row of a document comes before the rows of a document below it, whatever their batches are. -/
theorem document_mutation_keys_below : ∃ key key',
    Key (ascii "ab") ⟨[ascii "User", ascii "ab"], rfl, List.cons_ne_nil _ _⟩ 300 = some key ∧
      Key (ascii "ab") ⟨[ascii "User", ascii "ab", ascii "Comic", ascii "x"], rfl, List.cons_ne_nil _ _⟩
        2 = some key' ∧ key < key' := by
  obtain ⟨key, key', -, hkey, hkey', -, -, -, hlt⟩ := @document_mutation_keys (ascii "ab")
    (ascii "ab") ⟨[ascii "User", ascii "ab"], rfl, List.cons_ne_nil _ _⟩
    ⟨[ascii "User", ascii "ab", ascii "Comic", ascii "x"], rfl, List.cons_ne_nil _ _⟩ 300 2 [] []
    (by decide) (by decide) (by decide) (by decide)
  refine ⟨key, key', hkey, hkey', hlt.mpr (.inr ⟨rfl, .inl ?_⟩)⟩
  exact List.Lex.cons (List.Lex.cons List.Lex.nil)

end LevelDbDocumentMutationKey

end ComicApp.Firestore
