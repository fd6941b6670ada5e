import ComicApp.BigEndian

/-!
# The search for special bytes

`OrderedCode` escapes the bytes 0 and 255. It looks for them in words of eight and of four bytes, with a
test of all bytes of a word at once. The words are loaded in little-endian order, as on every device of
the app. A failed `HARD_ASSERT` is `none`; none fails, and the search finds the first special byte.
-/

namespace ComicApp.Firestore.OrderedCode
open BigEndian

def IsSpecialByte (c : Byte) : Bool := c + 1 < 2

def UNALIGNED_LOAD32 (p₀ p₁ p₂ p₃ : Byte) : BitVec 32 := p₃ ++ p₂ ++ p₁ ++ p₀

def UNALIGNED_LOAD64 (p₀ p₁ p₂ p₃ p₄ p₅ p₆ p₇ : Byte) : BitVec 64 :=
  p₇ ++ p₆ ++ p₅ ++ p₄ ++ p₃ ++ p₂ ++ p₁ ++ p₀

/-- `(v - 0x01…) & ~(v + 0x01…) & 0x80…`. -/
def specialBits {w : ℕ} (ones highs v : BitVec w) : BitVec w := (v - ones) &&& ~~~(v + ones) &&& highs

/-- How far to go on, when no special byte is among the next four. -/
def AdvanceIfNoSpecialBytes (v_32 : BitVec 32) (p₀ p₁ p₂ p₃ : Byte) : Option ℕ :=
  if UNALIGNED_LOAD32 p₀ p₁ p₂ p₃ = v_32 then
    if specialBits 0x01010101 0x80808080 v_32 ≠ 0 then
      if IsSpecialByte p₀ || IsSpecialByte p₁ || IsSpecialByte p₂ || IsSpecialByte p₃ then some 0
      else none
    else if !IsSpecialByte p₀ && !IsSpecialByte p₁ && !IsSpecialByte p₂ && !IsSpecialByte p₃ then
      some 4
    else none
  else none

def specialOfFour (p₀ p₁ p₂ p₃ : Byte) : Option ℕ :=
  if IsSpecialByte p₀ then some 0
  else if IsSpecialByte p₁ then some 1
  else if IsSpecialByte p₂ then some 2
  else if IsSpecialByte p₃ then some 3
  else none

def skipBytes : List Byte → ℕ
  | [] => 0
  | p :: rest => if IsSpecialByte p then 0 else skipBytes rest + 1

def skipRest : List Byte → Option ℕ
  | p₀ :: p₁ :: p₂ :: p₃ :: rest =>
    (AdvanceIfNoSpecialBytes (UNALIGNED_LOAD32 p₀ p₁ p₂ p₃) p₀ p₁ p₂ p₃).map fun n =>
      n + skipBytes ((p₀ :: p₁ :: p₂ :: p₃ :: rest).drop n)
  | bytes => some (skipBytes bytes)

/-- How many bytes stand before the first special one, or before `limit`. -/
def SkipToNextSpecialByte : List Byte → Option ℕ
  | p₀ :: p₁ :: p₂ :: p₃ :: p₄ :: p₅ :: p₆ :: p₇ :: rest =>
    let v := UNALIGNED_LOAD64 p₀ p₁ p₂ p₃ p₄ p₅ p₆ p₇
    if specialBits 0x0101010101010101 0x8080808080808080 v = 0 then
      (SkipToNextSpecialByte rest).map (8 + ·)
    else
      (AdvanceIfNoSpecialBytes (v.setWidth 32) p₀ p₁ p₂ p₃).bind fun n =>
        if n = 0 then specialOfFour p₀ p₁ p₂ p₃
        else (specialOfFour p₄ p₅ p₆ p₇).map (4 + ·)
  | bytes => skipRest bytes

theorem isSpecialByte_iff (b : Byte) : IsSpecialByte b = true ↔ b = 0 ∨ b = 0xff := by
  revert b
  decide

section Word
variable {m : ℕ} {y o : BitVec m} {x : Byte}

theorem toNat_append_byte (y : BitVec m) (x : Byte) : (y ++ x).toNat = 256 * y.toNat + x.toNat := by
  rw [BitVec.toNat_append, ← Nat.shiftLeft_add_eq_or_of_lt x.isLt, Nat.shiftLeft_eq, Nat.mul_comm]

/-- No borrow leaves a byte that is not 0. -/
theorem append_sub_one (hx : x ≠ 0) : (y ++ x) - (o ++ 1#8) = (y - o) ++ (x - 1#8) := by
  have hpos : 1 ≤ x.toNat := Nat.one_le_iff_ne_zero.mpr fun h => hx (BitVec.eq_of_toNat_eq h)
  have hlt := x.isLt
  have hpow : 2 ^ (m + 8) = 2 ^ m * 256 := pow_add 2 m 8
  have hy := y.isLt
  have ho := o.isLt
  refine BitVec.eq_of_toNat_eq ?_
  rw [BitVec.toNat_sub, toNat_append_byte, toNat_append_byte, toNat_append_byte, BitVec.toNat_sub,
    BitVec.toNat_sub, hpow]
  change (2 ^ m * 256 - (256 * o.toNat + 1) + (256 * y.toNat + x.toNat)) % (2 ^ m * 256) =
    256 * ((2 ^ m - o.toNat + y.toNat) % 2 ^ m) + (256 - 1 + x.toNat) % 256
  rw [show 256 - 1 + x.toNat = x.toNat - 1 + 256 by omega, Nat.add_mod_right,
    Nat.mod_eq_of_lt (by omega : x.toNat - 1 < 256), Nat.mul_comm (2 ^ m) 256, Nat.mod_mul]
  have hsum : 256 * 2 ^ m - (256 * o.toNat + 1) + (256 * y.toNat + x.toNat) =
      (x.toNat - 1) + 256 * (2 ^ m - o.toNat + y.toNat) := by omega
  rw [hsum, Nat.add_mul_mod_self_left, Nat.add_mul_div_left _ _ (by norm_num),
    Nat.mod_eq_of_lt (by omega : x.toNat - 1 < 256), Nat.div_eq_of_lt (by omega : x.toNat - 1 < 256),
    Nat.zero_add, Nat.add_comm]

/-- No carry leaves a byte that is not 255. -/
theorem append_add_one (hx : x ≠ 255) : (y ++ x) + (o ++ 1#8) = (y + o) ++ (x + 1#8) := by
  have hle : x.toNat < 255 := by
    have hne : x.toNat ≠ 255 := fun h => hx (BitVec.eq_of_toNat_eq h)
    have hlt : x.toNat < 256 := x.isLt
    omega
  have hpow : 2 ^ (m + 8) = 256 * 2 ^ m := (pow_add 2 m 8).trans (Nat.mul_comm _ _)
  refine BitVec.eq_of_toNat_eq ?_
  rw [BitVec.toNat_add, toNat_append_byte, toNat_append_byte, toNat_append_byte, BitVec.toNat_add,
    BitVec.toNat_add, hpow, Nat.mod_mul]
  change (256 * y.toNat + x.toNat + (256 * o.toNat + 1)) % 256 +
      256 * ((256 * y.toNat + x.toNat + (256 * o.toNat + 1)) / 256 % 2 ^ m) =
    256 * ((y.toNat + o.toNat) % 2 ^ m) + (x.toNat + 1) % 256
  have hsum : 256 * y.toNat + x.toNat + (256 * o.toNat + 1) =
      (x.toNat + 1) + 256 * (y.toNat + o.toNat) := by omega
  rw [hsum, Nat.add_mul_mod_self_left, Nat.add_mul_div_left _ _ (by norm_num),
    Nat.div_eq_of_lt (by omega : x.toNat + 1 < 256), Nat.zero_add, Nat.add_comm]

/-- The lowest byte of the test is the test of the lowest byte, whatever borrows and carries. -/
theorem setWidth_specialBits (o h y : BitVec m) (x : Byte) :
    (specialBits (o ++ 1#8) (h ++ 0x80#8) (y ++ x)).setWidth 8 = specialBits 1#8 0x80#8 x := by
  have hle : 8 ≤ m + 8 := Nat.le_add_left 8 m
  unfold specialBits
  rw [BitVec.setWidth_and, BitVec.setWidth_and, BitVec.setWidth_not hle, BitVec.setWidth_add _ _ hle,
    BitVec.sub_eq_add_neg, BitVec.setWidth_add _ _ hle, BitVec.setWidth_neg_of_le hle,
    BitVec.setWidth_append_eq_right, BitVec.setWidth_append_eq_right, BitVec.setWidth_append_eq_right,
    BitVec.sub_eq_add_neg]

theorem specialBits_byte (x : Byte) : specialBits 1#8 0x80#8 x = 0#8 ↔ IsSpecialByte x = false := by
  revert x
  decide

theorem specialBits_append (o h y : BitVec m) (x : Byte) :
    specialBits (o ++ 1#8) (h ++ 0x80#8) (y ++ x) = 0#(m + 8) ↔
      specialBits o h y = 0#m ∧ IsSpecialByte x = false := by
  cases hx : IsSpecialByte x with
  | true =>
    refine iff_of_false (fun hzero => ?_) (by simp)
    have hbyte := setWidth_specialBits o h y x
    rw [hzero, BitVec.setWidth_zero, eq_comm, specialBits_byte, hx] at hbyte
    exact Bool.noConfusion hbyte
  | false =>
    have hzero : x ≠ 0 := by rintro rfl; exact absurd hx (by decide)
    have hfull : x ≠ 255 := by rintro rfl; exact absurd hx (by decide)
    have hbyte : (x - 1#8) &&& ~~~(x + 1#8) &&& 0x80#8 = 0#8 := (specialBits_byte x).mpr hx
    unfold specialBits
    rw [append_sub_one hzero, append_add_one hfull, BitVec.not_append, BitVec.and_append,
      BitVec.and_append, hbyte]
    constructor
    · intro h0
      exact ⟨(BitVec.append_left_inj 0#8).mp (h0.trans BitVec.zero_append_zero.symm), rfl⟩
    · rintro ⟨h0, -⟩
      rw [h0]
      exact BitVec.zero_append_zero

end Word

section Search
variable (p₀ p₁ p₂ p₃ p₄ p₅ p₆ p₇ : Byte)

theorem specialBits_load32 :
    specialBits 0x01010101 0x80808080 (UNALIGNED_LOAD32 p₀ p₁ p₂ p₃) = 0 ↔
      ∀ p ∈ [p₀, p₁, p₂, p₃], IsSpecialByte p = false := by
  have h : specialBits (1#8 ++ 1#8 ++ 1#8 ++ 1#8) (0x80#8 ++ 0x80#8 ++ 0x80#8 ++ 0x80#8)
      (p₃ ++ p₂ ++ p₁ ++ p₀) = 0#(8 + 8 + 8 + 8) ↔ ∀ p ∈ [p₀, p₁, p₂, p₃], IsSpecialByte p = false := by
    rw [specialBits_append, specialBits_append, specialBits_append, specialBits_byte]
    simp only [List.forall_mem_cons, List.not_mem_nil, false_implies, implies_true, and_true]
    tauto
  exact h

theorem specialBits_load64 :
    specialBits 0x0101010101010101 0x8080808080808080 (UNALIGNED_LOAD64 p₀ p₁ p₂ p₃ p₄ p₅ p₆ p₇) = 0 ↔
      ∀ p ∈ [p₀, p₁, p₂, p₃, p₄, p₅, p₆, p₇], IsSpecialByte p = false := by
  have h : specialBits (1#8 ++ 1#8 ++ 1#8 ++ 1#8 ++ 1#8 ++ 1#8 ++ 1#8 ++ 1#8)
      (0x80#8 ++ 0x80#8 ++ 0x80#8 ++ 0x80#8 ++ 0x80#8 ++ 0x80#8 ++ 0x80#8 ++ 0x80#8)
      (p₇ ++ p₆ ++ p₅ ++ p₄ ++ p₃ ++ p₂ ++ p₁ ++ p₀) = 0#(8 + 8 + 8 + 8 + 8 + 8 + 8 + 8) ↔
      ∀ p ∈ [p₀, p₁, p₂, p₃, p₄, p₅, p₆, p₇], IsSpecialByte p = false := by
    rw [specialBits_append, specialBits_append, specialBits_append, specialBits_append,
      specialBits_append, specialBits_append, specialBits_append, specialBits_byte]
    simp only [List.forall_mem_cons, List.not_mem_nil, false_implies, implies_true, and_true]
    tauto
  exact h

theorem advance_eq : AdvanceIfNoSpecialBytes (UNALIGNED_LOAD32 p₀ p₁ p₂ p₃) p₀ p₁ p₂ p₃ =
    some (if ∀ p ∈ [p₀, p₁, p₂, p₃], IsSpecialByte p = false then 4 else 0) := by
  rw [AdvanceIfNoSpecialBytes, if_pos rfl]
  have hor : (IsSpecialByte p₀ || IsSpecialByte p₁ || IsSpecialByte p₂ || IsSpecialByte p₃) = true ↔
      ¬ ∀ p ∈ [p₀, p₁, p₂, p₃], IsSpecialByte p = false := by
    simp only [List.forall_mem_cons, List.not_mem_nil, false_implies, implies_true, and_true]
    cases IsSpecialByte p₀ <;> cases IsSpecialByte p₁ <;> cases IsSpecialByte p₂ <;>
      cases IsSpecialByte p₃ <;> decide
  have hand : (!IsSpecialByte p₀ && !IsSpecialByte p₁ && !IsSpecialByte p₂ && !IsSpecialByte p₃) = true ↔
      ∀ p ∈ [p₀, p₁, p₂, p₃], IsSpecialByte p = false := by
    simp
    tauto
  by_cases h : ∀ p ∈ [p₀, p₁, p₂, p₃], IsSpecialByte p = false
  · rw [if_neg (not_not.mpr ((specialBits_load32 _ _ _ _).mpr h)), if_pos (hand.mpr h), if_pos h]
  · rw [if_pos (fun hzero => h ((specialBits_load32 _ _ _ _).mp hzero)), if_pos (hor.mpr h), if_neg h]

theorem setWidth_load64 : (UNALIGNED_LOAD64 p₀ p₁ p₂ p₃ p₄ p₅ p₆ p₇).setWidth 32 =
    UNALIGNED_LOAD32 p₀ p₁ p₂ p₃ := by
  have h64 : (UNALIGNED_LOAD64 p₀ p₁ p₂ p₃ p₄ p₅ p₆ p₇).toNat =
      2 ^ 32 * (p₇ ++ p₆ ++ p₅ ++ p₄).toNat + (UNALIGNED_LOAD32 p₀ p₁ p₂ p₃).toNat := by
    simp only [UNALIGNED_LOAD64, UNALIGNED_LOAD32, toNat_append_byte]
    ring
  refine BitVec.eq_of_toNat_eq ?_
  rw [BitVec.toNat_setWidth, h64, Nat.mul_add_mod, Nat.mod_eq_of_lt (BitVec.isLt _)]

theorem specialOfFour_eq (h : ¬ ∀ p ∈ [p₀, p₁, p₂, p₃], IsSpecialByte p = false) :
    specialOfFour p₀ p₁ p₂ p₃ = some ([p₀, p₁, p₂, p₃].findIdx IsSpecialByte) := by
  unfold specialOfFour
  split_ifs with h₀ h₁ h₂ h₃
  · simp [List.findIdx_cons, h₀]
  · simp [List.findIdx_cons, h₀, h₁]
  · simp [List.findIdx_cons, h₀, h₁, h₂]
  · simp [List.findIdx_cons, h₀, h₁, h₂, h₃]
  · exact absurd (by simp [h₀, h₁, h₂, h₃]) h

end Search

theorem skipBytes_eq (bytes : List Byte) : skipBytes bytes = bytes.findIdx IsSpecialByte := by
  induction bytes with
  | nil => rfl
  | cons p rest ih =>
    rw [skipBytes, ih, List.findIdx_cons]
    cases IsSpecialByte p <;> rfl

/-- Bytes that are not special are passed. -/
theorem findIdx_append {front : List Byte} (h : ∀ p ∈ front, IsSpecialByte p = false) (rest : List Byte) :
    (front ++ rest).findIdx IsSpecialByte = front.length + rest.findIdx IsSpecialByte := by
  rw [List.findIdx_append, if_neg, Nat.add_comm]
  intro hlt
  obtain ⟨p, hp, hspecial⟩ := List.findIdx_lt_length.mp hlt
  rw [h p hp] at hspecial
  exact Bool.noConfusion hspecial

theorem findIdx_front {front : List Byte} (h : ¬ ∀ p ∈ front, IsSpecialByte p = false)
    (rest : List Byte) : (front ++ rest).findIdx IsSpecialByte = front.findIdx IsSpecialByte := by
  rw [List.findIdx_append, if_pos]
  refine List.findIdx_lt_length.mpr ?_
  simpa only [not_forall, exists_prop, Bool.not_eq_false] using h

theorem skipRest_eq (bytes : List Byte) : skipRest bytes = some (bytes.findIdx IsSpecialByte) := by
  unfold skipRest
  split
  · rename_i p₀ p₁ p₂ p₃ rest
    rw [advance_eq, Option.map_some]
    congr 1
    split_ifs with h
    · change 4 + skipBytes rest = ([p₀, p₁, p₂, p₃] ++ rest).findIdx IsSpecialByte
      rw [findIdx_append h, skipBytes_eq]
      rfl
    · rw [List.drop_zero, Nat.zero_add, skipBytes_eq]
  · rw [skipBytes_eq]

theorem skip_eq (bytes : List Byte) :
    SkipToNextSpecialByte bytes = some (bytes.findIdx IsSpecialByte) := by
  fun_induction SkipToNextSpecialByte bytes with
  | case1 p₀ p₁ p₂ p₃ p₄ p₅ p₆ p₇ rest v hv ih =>
    have hall := (specialBits_load64 p₀ p₁ p₂ p₃ p₄ p₅ p₆ p₇).mp hv
    change _ = some (([p₀, p₁, p₂, p₃, p₄, p₅, p₆, p₇] ++ rest).findIdx IsSpecialByte)
    rw [ih, findIdx_append hall, Option.map_some]
    rfl
  | case2 p₀ p₁ p₂ p₃ p₄ p₅ p₆ p₇ rest v hv =>
    have hsome := fun h => hv ((specialBits_load64 p₀ p₁ p₂ p₃ p₄ p₅ p₆ p₇).mpr h)
    rw [setWidth_load64, advance_eq, Option.bind_some]
    by_cases h : ∀ p ∈ [p₀, p₁, p₂, p₃], IsSpecialByte p = false
    · have hrest : ¬ ∀ p ∈ [p₄, p₅, p₆, p₇], IsSpecialByte p = false :=
        fun hrest => hsome (List.forall_mem_append.mpr ⟨h, hrest⟩)
      change _ = some (([p₀, p₁, p₂, p₃] ++ ([p₄, p₅, p₆, p₇] ++ rest)).findIdx IsSpecialByte)
      rw [if_pos h, if_neg (by decide), specialOfFour_eq _ _ _ _ hrest, findIdx_append h,
        findIdx_front hrest]
      rfl
    · change _ = some (([p₀, p₁, p₂, p₃] ++ ([p₄, p₅, p₆, p₇] ++ rest)).findIdx IsSpecialByte)
      rw [if_neg h, if_pos rfl, specialOfFour_eq _ _ _ _ h, findIdx_front h]
  | case3 bytes hbytes => exact skipRest_eq bytes

/-- Nothing special stands before the place that the search finds. -/
theorem take_findIdx (s : List Byte) :
    ∀ p ∈ s.take (s.findIdx IsSpecialByte), IsSpecialByte p = false := by
  intro p hp
  obtain ⟨i, hi, rfl⟩ := List.getElem_of_mem hp
  rw [List.length_take] at hi
  rw [List.getElem_take]
  exact List.not_of_lt_findIdx (hi.trans_le (Nat.min_le_left _ _))

/-- No assertion of the search fails, and it stops at the first special byte or at `limit`. -/
theorem skip_to_next_special_byte (bytes : List Byte) :
    ∃ p, SkipToNextSpecialByte bytes = some p ∧ p ≤ bytes.length ∧
      (∀ b ∈ bytes.take p, b ≠ 0 ∧ b ≠ 0xff) ∧ ∀ b ∈ bytes[p]?, b = 0 ∨ b = 0xff := by
  have hnot : ∀ b : Byte, IsSpecialByte b = false → b ≠ 0 ∧ b ≠ 0xff := by
    intro b hb
    rw [← not_or, ← isSpecialByte_iff, hb]
    exact Bool.noConfusion
  refine ⟨_, skip_eq bytes, List.findIdx_le_length, fun b hb => hnot b (take_findIdx bytes b hb), ?_⟩
  intro b hb
  obtain ⟨hlt, rfl⟩ := List.getElem?_eq_some_iff.mp hb
  exact (isSpecialByte_iff _).mp List.findIdx_getElem

end ComicApp.Firestore.OrderedCode
