import ComicApp.SpecialBytes

/-!
# Strings in keys

The strings of `OrderedCode`: the special bytes are escaped and an end is written. The encoding of a
string keeps the order of strings whatever follows it, and the reader takes exactly such encodings. The
search for special bytes jumps; what it writes and reads is the same byte by byte.
-/

namespace ComicApp.Firestore.OrderedCode
open BigEndian OrderedCodes

def kEscape1 : Byte := 0
def kNullCharacter : Byte := 0xff
def kSeparator : Byte := 1
def kEscape2 : Byte := 0xff
def kFFCharacter : Byte := 0

def EncodeStringFragment (s : List Byte) : Option (List Byte) :=
  match SkipToNextSpecialByte s with
  | none => none
  | some p =>
    match _h : s.drop p with
    | [] => some s
    | c :: rest =>
      if IsSpecialByte c then
        if c = kEscape1 then
          (EncodeStringFragment rest).map (s.take p ++ [kEscape1, kNullCharacter] ++ ·)
        else if c = kEscape2 then
          (EncodeStringFragment rest).map (s.take p ++ [kEscape2, kFFCharacter] ++ ·)
        else none
      else none
termination_by s.length
decreasing_by
  all_goals
    have hlen := congrArg List.length _h
    rw [List.length_drop, List.length_cons] at hlen
    omega

def WriteString (s : List Byte) : Option (List Byte) :=
  (EncodeStringFragment s).map (· ++ [kEscape1, kSeparator])

/-- The string and what follows its encoding, or no string where the input does not start with one. -/
def ReadStringInternal (src : List Byte) : Option (Option (List Byte × List Byte)) :=
  match SkipToNextSpecialByte src.dropLast with
  | none => none
  | some start =>
    match h : src.drop start with
    | c :: next :: rest =>
      if IsSpecialByte c then
        if c = kEscape1 then
          if next = kSeparator then some (some (src.take start, rest))
          else if next = kNullCharacter then
            (ReadStringInternal rest).map <| Option.map fun p => (src.take start ++ 0 :: p.1, p.2)
          else some none
        else if c = kEscape2 then
          if next = kFFCharacter then
            (ReadStringInternal rest).map <| Option.map fun p => (src.take start ++ 0xff :: p.1, p.2)
          else some none
        else none
      else none
    | _ => some none
termination_by src.length
decreasing_by
  all_goals
    have hlen := congrArg List.length h
    rw [List.length_drop, List.length_cons, List.length_cons] at hlen
    omega

def ReadString (src : List Byte) : Option (Option (List Byte × List Byte)) := ReadStringInternal src

def escape (b : Byte) : List Byte :=
  if b = 0 then [kEscape1, kNullCharacter] else if b = 0xff then [kEscape2, kFFCharacter] else [b]

def symbol : WithBot Byte → List Byte
  | ⊥ => [kEscape1, kSeparator]
  | (b : Byte) => escape b

def stringCode (s : List Byte) : List Byte := (terminated s).flatMap symbol

theorem escape_of_not_special {b : Byte} (h : IsSpecialByte b = false) : escape b = [b] := by
  have hnot : ¬ (b = 0 ∨ b = 0xff) := fun hb => by
    rw [(isSpecialByte_iff b).mpr hb] at h
    exact Bool.noConfusion h
  rw [not_or] at hnot
  rw [escape, if_neg hnot.1, if_neg hnot.2]

/-- The escape of a byte starts with the byte. -/
theorem escape_eq_cons (b : Byte) : ∃ tail, escape b = b :: tail := by
  unfold escape
  split_ifs with h0 hff
  · exact ⟨[kNullCharacter], by rw [h0]; rfl⟩
  · exact ⟨[kFFCharacter], by rw [hff]; rfl⟩
  · exact ⟨[], rfl⟩

/-- The end is smaller than the escape of any byte. -/
theorem apart_end (b : Byte) : Apart (symbol ⊥) (escape b) := by
  by_cases h0 : b = 0
  · subst h0
    exact .cons _ (.head _ _ (by decide))
  · obtain ⟨tail, htail⟩ := escape_eq_cons b
    rw [htail]
    exact .head _ _ (Nat.pos_of_ne_zero fun hzero => h0 (BitVec.eq_of_toNat_eq hzero))

theorem separating_symbol : Separating symbol where
  ne_nil a := by
    cases a with
    | bot => exact List.cons_ne_nil _ _
    | coe b =>
      obtain ⟨tail, htail⟩ := escape_eq_cons b
      change escape b ≠ []
      rw [htail]
      exact List.cons_ne_nil _ _
  apart {a a'} hlt := by
    cases a' with
    | bot => exact absurd hlt not_lt_bot
    | coe b' =>
      cases a with
      | bot => exact apart_end b'
      | coe b =>
        obtain ⟨tail, htail⟩ := escape_eq_cons b
        obtain ⟨tail', htail'⟩ := escape_eq_cons b'
        change Apart (escape b) (escape b')
        rw [htail, htail']
        exact .head _ _ (WithBot.coe_lt_coe.mp hlt)

theorem separating_stringCode : Separating stringCode := separating_symbol.terminated

theorem stringCode_eq (s : List Byte) : stringCode s = s.flatMap escape ++ [kEscape1, kSeparator] := by
  rw [stringCode, terminated, List.flatMap_append, List.flatMap_map]
  rfl

theorem stringCode_cons (b : Byte) (s : List Byte) : stringCode (b :: s) = escape b ++ stringCode s := rfl

theorem flatMap_escape {front : List Byte} (h : ∀ p ∈ front, IsSpecialByte p = false) :
    front.flatMap escape = front := by
  induction front with
  | nil => rfl
  | cons p front ih =>
    obtain ⟨hp, hfront⟩ := List.forall_mem_cons.mp h
    rw [List.flatMap_cons, escape_of_not_special hp, ih hfront]
    rfl

/-- What the search stops at, and what stands before it. -/
theorem skip_spec {s : List Byte} {p : ℕ} (h : SkipToNextSpecialByte s = some p) :
    (∀ b ∈ s.take p, IsSpecialByte b = false) ∧ ∀ c rest, s.drop p = c :: rest → IsSpecialByte c = true := by
  rw [skip_eq] at h
  obtain rfl := Option.some.inj h
  refine ⟨take_findIdx s, fun c rest hdrop => ?_⟩
  have hlt : s.findIdx IsSpecialByte < s.length := by
    rw [← List.drop_eq_nil_iff.not.trans not_le, hdrop]
    exact List.cons_ne_nil c rest
  rw [List.drop_eq_getElem_cons hlt] at hdrop
  rw [← (List.cons.inj hdrop).1]
  exact List.findIdx_getElem

theorem flatMap_escape_of_drop {s : List Byte} {p : ℕ} (h : SkipToNextSpecialByte s = some p) {c : Byte}
    {rest : List Byte} (hdrop : s.drop p = c :: rest) :
    s.flatMap escape = s.take p ++ escape c ++ rest.flatMap escape := by
  conv_lhs => rw [← List.take_append_drop p s, hdrop]
  rw [List.flatMap_append, flatMap_escape (skip_spec h).1, List.flatMap_cons, List.append_assoc]

theorem encodeStringFragment_eq (s : List Byte) : EncodeStringFragment s = some (s.flatMap escape) := by
  fun_induction EncodeStringFragment s with
  | case1 s hnone =>
    rw [skip_eq] at hnone
    exact absurd hnone (Option.some_ne_none _)
  | case2 s p hp hdrop =>
    have hall := (skip_spec hp).1
    rw [List.take_of_length_le (List.drop_eq_nil_iff.mp hdrop)] at hall
    rw [flatMap_escape hall]
  | case3 s p hp rest hdrop hspecial ih =>
    rw [ih, flatMap_escape_of_drop hp hdrop]
    rfl
  | case4 s p hp rest hdrop hspecial hne ih =>
    rw [ih, flatMap_escape_of_drop hp hdrop]
    rfl
  | case5 s p hp c rest hdrop hspecial hne hne' =>
    rcases (isSpecialByte_iff c).mp hspecial with rfl | rfl
    · exact absurd rfl hne
    · exact absurd rfl hne'
  | case6 s p hp c rest hdrop hnot => exact absurd ((skip_spec hp).2 c rest hdrop) hnot

theorem writeString_eq (s : List Byte) : WriteString s = some (stringCode s) := by
  rw [WriteString, encodeStringFragment_eq, stringCode_eq]
  rfl

def readSymbols : List Byte → Option (List Byte × List Byte)
  | b :: src =>
    if b = kEscape1 then
      match src with
      | [] => none
      | next :: src =>
        if next = kSeparator then some ([], src)
        else if next = kNullCharacter then (readSymbols src).map fun p => (0 :: p.1, p.2)
        else none
    else if b = kEscape2 then
      match src with
      | [] => none
      | next :: src =>
        if next = kFFCharacter then (readSymbols src).map fun p => (0xff :: p.1, p.2)
        else none
    else (readSymbols src).map fun p => (b :: p.1, p.2)
  | [] => none

theorem readSymbols_cons {b : Byte} (h : IsSpecialByte b = false) (src : List Byte) :
    readSymbols (b :: src) = (readSymbols src).map fun p => (b :: p.1, p.2) := by
  have hne : b ≠ kEscape1 := by rintro rfl; exact absurd h (by decide)
  have hne' : b ≠ kEscape2 := by rintro rfl; exact absurd h (by decide)
  rw [readSymbols.eq_def]
  dsimp only
  rw [if_neg hne, if_neg hne']

theorem readSymbols_append {front : List Byte} (h : ∀ b ∈ front, IsSpecialByte b = false)
    (src : List Byte) :
    readSymbols (front ++ src) = (readSymbols src).map fun p => (front ++ p.1, p.2) := by
  induction front with
  | nil => exact (congrFun Option.map_id _).symm
  | cons b front ih =>
    obtain ⟨hb, hfront⟩ := List.forall_mem_cons.mp h
    rw [List.cons_append, readSymbols_cons hb, ih hfront, Option.map_map]
    rfl

/-- The last byte of the input cannot start an escape. -/
theorem read_spec {src : List Byte} {start : ℕ} (h : SkipToNextSpecialByte src.dropLast = some start) :
    (∀ b ∈ src.take start, IsSpecialByte b = false) ∧
      ∀ c next rest, src.drop start = c :: next :: rest → IsSpecialByte c = true := by
  have hle : start ≤ src.length - 1 := by
    rw [skip_eq] at h
    obtain rfl := Option.some.inj h
    exact List.findIdx_le_length.trans_eq List.length_dropLast
  obtain ⟨hfront, hspecial⟩ := skip_spec h
  rw [List.dropLast_eq_take] at hfront hspecial
  rw [List.take_take, Nat.min_eq_left hle] at hfront
  refine ⟨hfront, fun c next rest hdrop => ?_⟩
  have hlen := congrArg List.length hdrop
  rw [List.length_drop, List.length_cons, List.length_cons] at hlen
  obtain ⟨k, hk⟩ : ∃ k, src.length - 1 - start = k + 1 := ⟨rest.length, by omega⟩
  refine hspecial c ((next :: rest).take k) ?_
  rw [List.drop_take, hdrop, hk, List.take_succ_cons]

theorem readSymbols_of_drop {src : List Byte} {start : ℕ}
    (h : SkipToNextSpecialByte src.dropLast = some start) :
    readSymbols src = (readSymbols (src.drop start)).map fun p => (src.take start ++ p.1, p.2) := by
  conv_lhs => rw [← List.take_append_drop start src]
  exact readSymbols_append (read_spec h).1 _

/-- The jumping reader reads as the one that goes byte by byte. -/
theorem readStringInternal_eq (src : List Byte) : ReadStringInternal src = some (readSymbols src) := by
  fun_induction ReadStringInternal src with
  | case1 src hnone =>
    rw [skip_eq] at hnone
    exact absurd hnone (Option.some_ne_none _)
  | case2 src p hp rest hspecial hdrop =>
    rw [readSymbols_of_drop hp, hdrop]
    change _ = some (some (src.take p ++ [], rest))
    rw [List.append_nil]
  | case3 src p hp rest hspecial hne hdrop ih | case5 src p hp rest hspecial hne hdrop ih =>
    rw [readSymbols_of_drop hp, hdrop, ih]
    change _ = some (((readSymbols rest).map _).map _)
    rw [Option.map_map]
    rfl
  | case4 src p hp next rest hne hne' hdrop hspecial =>
    rw [readSymbols_of_drop hp, hdrop, readSymbols.eq_def]
    dsimp only
    rw [if_pos rfl, if_neg hne, if_neg hne']
    rfl
  | case6 src p hp next rest hne hdrop hspecial hne' =>
    rw [readSymbols_of_drop hp, hdrop, readSymbols.eq_def]
    dsimp only
    rw [if_neg hne', if_pos rfl, if_neg hne]
    rfl
  | case7 src p hp c next rest hdrop hspecial hne hne' =>
    rcases (isSpecialByte_iff c).mp hspecial with rfl | rfl
    · exact absurd rfl hne
    · exact absurd rfl hne'
  | case8 src p hp c next rest hdrop hnot => exact absurd ((read_spec hp).2 c next rest hdrop) hnot
  | case9 src p hp hshort =>
    rw [readSymbols_of_drop hp]
    rcases hdrop : src.drop p with _ | ⟨c, _ | ⟨next, rest⟩⟩
    · rfl
    · cases hc : IsSpecialByte c with
      | false =>
        rw [readSymbols_cons hc]
        rfl
      | true =>
        rcases (isSpecialByte_iff c).mp hc with rfl | rfl
        · rfl
        · rfl
    · exact absurd hdrop (hshort c next rest)

theorem readSymbols_stringCode (s rest : List Byte) :
    readSymbols (stringCode s ++ rest) = some (s, rest) := by
  induction s with
  | nil => rfl
  | cons b s ih =>
    rw [stringCode_cons, List.append_assoc]
    by_cases h0 : b = 0
    · subst h0
      change (readSymbols (stringCode s ++ rest)).map _ = _
      rw [ih]
      rfl
    · by_cases hff : b = 0xff
      · subst hff
        change (readSymbols (stringCode s ++ rest)).map _ = _
        rw [ih]
        rfl
      · have hb : IsSpecialByte b = false :=
          Bool.eq_false_iff.mpr fun h => ((isSpecialByte_iff b).mp h).elim h0 hff
        rw [escape_of_not_special hb, List.singleton_append, readSymbols_cons hb, ih]
        rfl

theorem reads_readSymbols : Reads readSymbols stringCode := by
  intro src s rest
  constructor
  · intro h
    fun_induction readSymbols src generalizing s with
    | case2 src =>
      obtain ⟨rfl, rfl⟩ := Prod.mk.inj (Option.some.inj h)
      rfl
    | case3 src hne ih | case6 src hne ih =>
      obtain ⟨⟨s', rest'⟩, hread, heq⟩ := Option.map_eq_some_iff.mp h
      obtain ⟨rfl, rfl⟩ := Prod.mk.inj heq
      rw [ih s' hread]
      rfl
    | case8 b src hne hne' ih =>
      obtain ⟨⟨s', rest'⟩, hread, heq⟩ := Option.map_eq_some_iff.mp h
      obtain ⟨rfl, rfl⟩ := Prod.mk.inj heq
      have hb : IsSpecialByte b = false :=
        Bool.eq_false_iff.mpr fun h => ((isSpecialByte_iff b).mp h).elim hne hne'
      rw [ih s' hread, stringCode_cons, escape_of_not_special hb]
      rfl
    | _ => exact absurd h.symm (Option.some_ne_none _)
  · rintro rfl
    exact readSymbols_stringCode s rest

/-- No assertion fails. The reader takes exactly the encodings of strings, each for its string, and
encodings compare as their strings do, whatever follows them. -/
theorem string_encoding (src s s' rest rest' : List Byte) :
    (∃ result, ReadString src = some result ∧
      (result = some (s, rest) ↔ ∃ w, WriteString s = some w ∧ src = w ++ rest)) ∧
      ∃ w w', WriteString s = some w ∧ WriteString s' = some w' ∧
        (s < s' → w ++ rest < w' ++ rest') := by
  refine ⟨⟨readSymbols src, readStringInternal_eq src, ?_⟩, ?_⟩
  · rw [reads_readSymbols src s rest]
    constructor
    · exact fun h => ⟨stringCode s, writeString_eq s, h⟩
    · rintro ⟨w, hw, hsrc⟩
      rw [writeString_eq] at hw
      rw [hsrc, ← Option.some.inj hw]
  · refine ⟨stringCode s, stringCode s', writeString_eq s, writeString_eq s', fun hlt => ?_⟩
    exact ((separating_stringCode.apart hlt).append rest rest').lt

end ComicApp.Firestore.OrderedCode
