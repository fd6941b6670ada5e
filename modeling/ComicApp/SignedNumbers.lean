import ComicApp.OrderedStrings
import Mathlib.Algebra.Order.Ring.Int
import Mathlib.Data.Nat.Size
import Mathlib.Tactic.IntervalCases
import Mathlib.Tactic.Linarith
import Mathlib.Tactic.Positivity

/-!
# Signed numbers in keys

The signed numbers of `OrderedCode`: a sign bit, size bits that count the bytes after the first one, and
the number in as many bits as it needs. The encodings keep the order of the numbers, whatever their
lengths and whatever follows them, and the reader takes exactly the shortest encodings.
-/

namespace ComicApp.Firestore.OrderedCode
open BigEndian OrderedCodes

def kLengthToHeaderBits : List (Byte × Byte) :=
  [(0, 0), (0x80, 0), (0xc0, 0), (0xe0, 0), (0xf0, 0), (0xf8, 0), (0xfc, 0), (0xfe, 0), (0xff, 0),
    (0xff, 0x80), (0xff, 0xc0)]

def kLengthToMask : List (BitVec 64) :=
  [0, 0x80, 0xc000, 0xe00000, 0xf0000000, 0xf800000000, 0xfc0000000000, 0xfe000000000000,
    0xff00000000000000, 0x8000000000000000, 0]

def kBitsToLength : List ℕ :=
  [1, 1, 1, 1, 1, 1, 1, 2, 2, 2, 2, 2, 2, 2, 3, 3, 3, 3, 3, 3, 3, 4, 4, 4, 4, 4, 4, 4, 5, 5, 5, 5, 5, 5, 5,
    6, 6, 6, 6, 6, 6, 6, 7, 7, 7, 7, 7, 7, 7, 8, 8, 8, 8, 8, 8, 8, 9, 9, 9, 9, 9, 9, 9, 10]

/-- `Bits::Log2Floor64` and one: 0 for 0. -/
def bits (n : BitVec 64) : ℕ := if n = 0 then 0 else n.toNat.log2 + 1

def magnitude (n : BitVec 64) : BitVec 64 := if n.slt 0 then ~~~n else n

def SignedEncodingLength (n : BitVec 64) : ℕ := kBitsToLength.getD (bits (magnitude n)) 0

def WriteSignedNumIncreasing (val : BitVec 64) : Option (List Byte) :=
  let x := magnitude val
  if x.slt 64 then some [(kLengthToHeaderBits.getD 1 (0, 0)).1 ^^^ val.setWidth 8]
  else
    let sign_byte : Byte := if val.slt 0 then 0xff else 0
    -- in network byte order, sign extended to ten bytes
    let buf := sign_byte :: sign_byte :: bigEndian 8 val.toNat
    let len := kBitsToLength.getD (bits x) 0
    if 2 ≤ len then
      match buf.drop (buf.length - len) with
      | b₀ :: b₁ :: rest =>
        let header := kLengthToHeaderBits.getD len (0, 0)
        some ((b₀ ^^^ header.1) :: (b₁ ^^^ header.2) :: rest)
      | _ => none
    else none

def readLength (xor_mask : Byte) (src : List Byte) : Option ℕ :=
  match src with
  | [] => none
  | b₀ :: src' =>
    let first_byte := b₀ ^^^ xor_mask
    if first_byte ≠ 0xff then
      let len := 7 - (first_byte ^^^ 0xff).toNat.log2
      if src.length < len then none else some len
    else if src.length < 8 then none
    else
      match src' with
      | b₁ :: b₂ :: _ =>
        let second_byte := b₁ ^^^ xor_mask
        if second_byte < 0x80 then some 8
        else if second_byte < 0xc0 then
          if src.length < 9 then none else some 9
        else if second_byte = 0xc0 ∧ b₂ ^^^ xor_mask < 0x80 then
          if src.length < 10 then none else some 10
        else none
      | _ => none

/-- The number and what follows its encoding, or no number where the input does not start with one. -/
def ReadSignedNumIncreasing (src : List Byte) : Option (Option (BitVec 64 × List Byte)) :=
  let xor_mask : BitVec 64 := if src.headD 0 &&& 0x80 = 0 then ~~~0 else 0
  match readLength (xor_mask.setWidth 8) src with
  | none => some none
  | some len =>
    let raw : BitVec 64 :=
      if len < 8 then (src.take len).foldl (fun x b => (x <<< 8) ||| b.setWidth 64) xor_mask
      else BitVec.ofNat 64 (value ((src.take len).drop (len - 8)))
    let x := raw ^^^ kLengthToMask.getD len 0
    if len = SignedEncodingLength x then some (some (x, src.drop len)) else none

def Fits (n : ℕ) (v : ℤ) : Prop := -2 ^ (7 * n) ≤ 2 * v ∧ 2 * v < 2 ^ (7 * n)

def encodingLength (v : ℤ) : ℕ := (if v < 0 then (-v - 1).toNat else v.toNat).size / 7 + 1

def signedValue (n : ℕ) (v : ℤ) : ℕ :=
  (v % 2 ^ (7 * n)).toNat + if 0 ≤ v then 2 ^ (8 * n) - 2 ^ (7 * n) else 0

def signedCode (v : ℤ) : List Byte := bigEndian (encodingLength v) (signedValue (encodingLength v) v)

section Format
variable {n m : ℕ} {v v' : ℤ}

theorem fits_iff (hn : 0 < n) : Fits n v ↔ encodingLength v ≤ n := by
  obtain ⟨k, hk⟩ : ∃ k, 7 * n = k + 1 := ⟨7 * n - 1, by omega⟩
  have hsize (x : ℕ) : x.size / 7 + 1 ≤ n ↔ x < 2 ^ k := by
    rw [← Nat.size_le]
    omega
  have hpow : (2 : ℤ) ^ (7 * n) = 2 * 2 ^ k := by rw [hk, pow_succ']
  have hcast (x : ℕ) : x < 2 ^ k ↔ (x : ℤ) < 2 ^ k := by exact_mod_cast Iff.rfl
  have hpos : (0 : ℤ) < 2 ^ k := by positivity
  unfold Fits encodingLength
  rw [hsize, hcast, hpow]
  split_ifs with hv
  · rw [Int.toNat_of_nonneg (by omega)]
    omega
  · rw [Int.toNat_of_nonneg (by omega)]
    omega

theorem fits_encodingLength (v : ℤ) : Fits (encodingLength v) v :=
  (fits_iff (Nat.succ_pos _)).mpr le_rfl

theorem two_mul_pow_le (hn : 0 < n) : 2 * (2 : ℤ) ^ (7 * n) ≤ 2 ^ (8 * n) := by
  rw [← pow_succ']
  exact pow_le_pow_right₀ (by norm_num) (by omega)

theorem signedValue_of_nonneg (h : Fits n v) (hv : 0 ≤ v) :
    (signedValue n v : ℤ) = 2 ^ (8 * n) - 2 ^ (7 * n) + v := by
  have hpow : 2 ^ (7 * n) ≤ 2 ^ (8 * n) := Nat.pow_le_pow_right (by norm_num) (by omega)
  have hlt := h.2
  rw [signedValue, if_pos hv, Int.emod_eq_of_lt hv (by omega)]
  push_cast [hpow]
  rw [Int.toNat_of_nonneg hv]
  ring

theorem signedValue_of_neg (h : Fits n v) (hv : v < 0) : (signedValue n v : ℤ) = 2 ^ (7 * n) + v := by
  have hle := h.1
  have hmod : v % 2 ^ (7 * n) = 2 ^ (7 * n) + v := by
    rw [← Int.add_emod_left]
    exact Int.emod_eq_of_lt (by omega) (by omega)
  rw [signedValue, if_neg (not_le.mpr hv), hmod, Nat.add_zero, Int.toNat_of_nonneg (by omega)]

theorem signedValue_lt (h : Fits n v) : signedValue n v < 256 ^ n := by
  have hpow : (2 : ℤ) ^ (7 * n) ≤ 2 ^ (8 * n) := pow_le_pow_right₀ (by norm_num) (by omega)
  have h256 : (256 : ℤ) ^ n = 2 ^ (8 * n) := by rw [pow_mul]; norm_num
  have hlt := h.2
  have hpos : (0 : ℤ) < 2 ^ (7 * n) := by positivity
  zify
  rw [h256]
  rcases le_or_gt 0 v with hv | hv
  · rw [signedValue_of_nonneg h hv]
    omega
  · rw [signedValue_of_neg h hv]
    omega

/-- The sign bit is the highest bit. -/
theorem signedValue_sign (hn : 0 < n) (h : Fits n v) :
    (v < 0 → 2 * signedValue n v < 256 ^ n) ∧ (0 ≤ v → 256 ^ n ≤ 2 * signedValue n v) := by
  have hpow := two_mul_pow_le hn
  have h256 : (256 : ℤ) ^ n = 2 ^ (8 * n) := by rw [pow_mul]; norm_num
  have hpos : (0 : ℤ) < 2 ^ (7 * n) := by positivity
  zify
  rw [h256]
  constructor
  · intro hv
    rw [signedValue_of_neg h hv]
    omega
  · intro hv
    rw [signedValue_of_nonneg h hv]
    omega

/-- The size bits of a longer numeral are worth more than the payload of a shorter one. -/
theorem size_bits_le (d : ℕ) (hd : 0 < d) (n : ℕ) :
    2 * (2 : ℤ) ^ (7 * (n + d)) ≤ 2 ^ (7 * n) * 256 ^ d := by
  have h256 : (256 : ℤ) ^ d = 2 ^ (8 * d) := by rw [pow_mul]; norm_num
  rw [h256, ← pow_succ', ← pow_add]
  exact pow_le_pow_right₀ (by norm_num) (by omega)

theorem pow_eight_add (n d : ℕ) : (2 : ℤ) ^ (8 * (n + d)) = 2 ^ (8 * n) * 256 ^ d := by
  have h256 : (256 : ℤ) ^ d = 2 ^ (8 * d) := by rw [pow_mul]; norm_num
  rw [h256, ← pow_add]
  ring_nf

theorem apart_of_neg_of_nonneg (hn : 0 < n) (hm : 0 < m) (h : Fits n v) (h' : Fits m v') (hv : v < 0)
    (hv' : 0 ≤ v') : Apart (bigEndian n (signedValue n v)) (bigEndian m (signedValue m v')) := by
  have hlow := (signedValue_sign hn h).1 hv
  have hhigh := (signedValue_sign hm h').2 hv'
  rcases le_total n m with hnm | hmn
  · obtain ⟨d, rfl⟩ := Nat.exists_eq_add_of_le hnm
    refine apart_of_lt_div hnm ?_ (signedValue_lt h')
    rw [Nat.add_sub_cancel_left, Nat.lt_iff_add_one_le, Nat.le_div_iff_mul_le (by positivity)]
    rw [pow_add] at hhigh
    have heven : 2 * (signedValue n v + 1) ≤ 256 ^ n := by
      obtain ⟨k, rfl⟩ : ∃ k, n = k + 1 := ⟨n - 1, by omega⟩
      rw [pow_succ] at hlow ⊢
      omega
    nlinarith [Nat.mul_le_mul_right (256 ^ d) heven]
  · obtain ⟨d, rfl⟩ := Nat.exists_eq_add_of_le hmn
    refine apart_of_div_lt hmn ?_ (signedValue_lt h')
    rw [Nat.add_sub_cancel_left, Nat.div_lt_iff_lt_mul (by positivity)]
    rw [pow_add] at hlow
    nlinarith [Nat.mul_le_mul_right (256 ^ d) hhigh]

theorem apart_of_same_length (h : Fits n v) (h' : Fits n v') (hsign : 0 ≤ v ↔ 0 ≤ v') (hlt : v < v') :
    Apart (bigEndian n (signedValue n v)) (bigEndian n (signedValue n v')) := by
  refine apart_bigEndian ?_ (signedValue_lt h')
  zify
  rcases le_or_gt 0 v with hv | hv
  · rw [signedValue_of_nonneg h hv, signedValue_of_nonneg h' (hsign.mp hv)]
    omega
  · rw [signedValue_of_neg h hv, signedValue_of_neg h' (not_le.mp (mt hsign.mpr (not_le.mpr hv)))]
    omega

theorem apart_of_nonneg {d : ℕ} (hd : 0 < d) (hn : 0 < n) (h : Fits n v) (h' : Fits (n + d) v')
    (hv : 0 ≤ v) (hv' : 0 ≤ v') :
    Apart (bigEndian n (signedValue n v)) (bigEndian (n + d) (signedValue (n + d) v')) := by
  refine apart_of_lt_div (Nat.le_add_right n d) ?_ (signedValue_lt h')
  rw [Nat.add_sub_cancel_left, Nat.lt_iff_add_one_le, Nat.le_div_iff_mul_le (by positivity)]
  zify
  rw [signedValue_of_nonneg h hv, signedValue_of_nonneg h' hv', pow_eight_add]
  have hsize := size_bits_le d hd n
  have hpos : (0 : ℤ) < 256 ^ d := by positivity
  have heven : 2 * (v + 1) ≤ 2 ^ (7 * n) := by
    have hlt := h.2
    obtain ⟨k, hk⟩ : ∃ k, 7 * n = k + 1 := ⟨7 * n - 1, by omega⟩
    rw [hk, pow_succ'] at hlt ⊢
    omega
  nlinarith [mul_le_mul_of_nonneg_right heven hpos.le]

theorem apart_of_neg {d : ℕ} (hd : 0 < d) (h : Fits (n + d) v) (h' : Fits n v') (hv : v < 0)
    (hv' : v' < 0) :
    Apart (bigEndian (n + d) (signedValue (n + d) v)) (bigEndian n (signedValue n v')) := by
  refine apart_of_div_lt (Nat.le_add_right n d) ?_ (signedValue_lt h')
  rw [Nat.add_sub_cancel_left, Nat.div_lt_iff_lt_mul (by positivity)]
  zify
  rw [signedValue_of_neg h hv, signedValue_of_neg h' hv']
  have hsize := size_bits_le d hd n
  have hpos : (0 : ℤ) < 256 ^ d := by positivity
  have hle := h'.1
  nlinarith [mul_le_mul_of_nonneg_right hle hpos.le]

end Format

theorem encodingLength_pos (v : ℤ) : 0 < encodingLength v := Nat.succ_pos _

/-- Numbers of one sign need more bytes the farther they are from zero. -/
theorem encodingLength_mono {v v' : ℤ} (hlt : v < v') :
    (0 ≤ v → encodingLength v ≤ encodingLength v') ∧
      (v' < 0 → encodingLength v' ≤ encodingLength v) := by
  have h := fits_encodingLength v
  have h' := fits_encodingLength v'
  constructor
  · intro hv
    have hpos : (0 : ℤ) < 2 ^ (7 * encodingLength v') := by positivity
    exact (fits_iff (encodingLength_pos v')).mp ⟨by omega, by have := h'.2; omega⟩
  · intro hv'
    have hpos : (0 : ℤ) < 2 ^ (7 * encodingLength v) := by positivity
    exact (fits_iff (encodingLength_pos v)).mp ⟨by have := h.1; omega, by omega⟩

theorem separating_signedCode : Separating signedCode where
  ne_nil v := by
    refine List.ne_nil_of_length_pos ?_
    rw [signedCode, length_bigEndian]
    exact encodingLength_pos v
  apart {v v'} hlt := by
    have h := fits_encodingLength v
    have h' := fits_encodingLength v'
    unfold signedCode
    rcases le_or_gt 0 v with hv | hv
    · have hv' : 0 ≤ v' := hv.trans hlt.le
      obtain ⟨d, hd⟩ := Nat.exists_eq_add_of_le ((encodingLength_mono hlt).1 hv)
      rw [hd] at h' ⊢
      rcases Nat.eq_zero_or_pos d with rfl | hpos
      · exact apart_of_same_length h h' (iff_of_true hv hv') hlt
      · exact apart_of_nonneg hpos (encodingLength_pos v) h h' hv hv'
    · rcases le_or_gt 0 v' with hv' | hv'
      · exact apart_of_neg_of_nonneg (encodingLength_pos v) (encodingLength_pos v') h h' hv hv'
      · obtain ⟨d, hd⟩ := Nat.exists_eq_add_of_le ((encodingLength_mono hlt).2 hv')
        rw [hd] at h ⊢
        rcases Nat.eq_zero_or_pos d with rfl | hpos
        · exact apart_of_same_length h h' (iff_of_false (not_le.mpr hv) (not_le.mpr hv')) hlt
        · exact apart_of_neg hpos h h' hv hv'

theorem kBitsToLength_getD : ∀ k < 64, kBitsToLength.getD k 0 = k / 7 + 1 := by decide

theorem bits_eq_size (n : BitVec 64) : bits n = n.toNat.size := by
  unfold bits
  split_ifs with h
  · rw [h]
    rfl
  · have hne : n.toNat ≠ 0 := fun hzero => h (BitVec.eq_of_toNat_eq hzero)
    refine eq_of_forall_ge_iff fun k => ?_
    rw [Nat.size_le, ← Nat.log2_lt hne]
    exact Nat.succ_le_iff

theorem toNat_magnitude (val : BitVec 64) :
    (magnitude val).toNat = if val.toInt < 0 then (-val.toInt - 1).toNat else val.toInt.toNat := by
  have hlt := val.isLt
  have hslt : val.slt 0 = true ↔ val.toInt < 0 := by rw [BitVec.slt_iff_toInt_lt]; rfl
  unfold magnitude
  rw [if_congr hslt rfl rfl]
  split_ifs with h
  · rw [BitVec.toNat_not]
    rw [BitVec.toInt_eq_toNat_cond] at h ⊢
    split_ifs at h ⊢ <;> omega
  · rw [BitVec.toInt_eq_toNat_cond] at h ⊢
    split_ifs at h ⊢ <;> omega

theorem toNat_magnitude_lt (val : BitVec 64) : (magnitude val).toNat < 2 ^ 63 := by
  have hle := BitVec.le_toInt val
  have hlt := BitVec.toInt_lt (x := val)
  rw [toNat_magnitude]
  split_ifs <;> omega

theorem kBitsToLength_bits (val : BitVec 64) :
    kBitsToLength.getD (bits (magnitude val)) 0 = encodingLength val.toInt := by
  have hsize : (magnitude val).toNat.size < 64 :=
    Nat.lt_succ_of_le (Nat.size_le.mpr (toNat_magnitude_lt val))
  rw [bits_eq_size, kBitsToLength_getD _ hsize, toNat_magnitude]
  rfl

theorem signedEncodingLength_eq (n : BitVec 64) : SignedEncodingLength n = encodingLength n.toInt :=
  kBitsToLength_bits n

theorem encodingLength_le (val : BitVec 64) : encodingLength val.toInt ≤ 10 := by
  have hsize : (magnitude val).toNat.size ≤ 63 := Nat.size_le.mpr (toNat_magnitude_lt val)
  rw [toNat_magnitude] at hsize
  unfold encodingLength
  omega

/-- Bits that one of the numbers does not have are put by the other. -/
theorem xor_eq_add {k a b : ℕ} (h : b < 2 ^ k) : (2 ^ k * a) ^^^ b = 2 ^ k * a + b := by
  have hdiv : ((2 ^ k * a) ^^^ b) / 2 ^ k = a := by
    rw [Nat.xor_div_two_pow, Nat.mul_div_cancel_left _ (Nat.two_pow_pos k), Nat.div_eq_of_lt h, Nat.xor_zero]
  have hmod : ((2 ^ k * a) ^^^ b) % 2 ^ k = b := by
    rw [Nat.xor_mod_two_pow, Nat.mul_mod_right, Nat.mod_eq_of_lt h, Nat.zero_xor]
  conv_lhs => rw [← Nat.div_add_mod ((2 ^ k * a) ^^^ b) (2 ^ k), hdiv, hmod]

theorem header_eq (n : ℕ) : 2 ^ (8 * n) - 2 ^ (7 * n) = 2 ^ (7 * n) * (2 ^ n - 1) := by
  rw [Nat.mul_sub_one, ← pow_add]
  congr 2
  omega

/-- The header bits are put into the number in two-complement. -/
theorem xor_header {n : ℕ} {v : ℤ} (h : Fits n v) :
    (v % 2 ^ (8 * n)).toNat ^^^ (2 ^ (8 * n) - 2 ^ (7 * n)) = signedValue n v := by
  have hpow : (2 : ℤ) ^ (7 * n) ≤ 2 ^ (8 * n) := pow_le_pow_right₀ (by norm_num) (by omega)
  have hpowNat : 2 ^ (7 * n) ≤ 2 ^ (8 * n) := Nat.pow_le_pow_right (by norm_num) (by omega)
  have hpos : (0 : ℤ) < 2 ^ (7 * n) := by positivity
  obtain ⟨hle, hlt⟩ := h
  rcases le_or_gt 0 v with hv | hv
  · have hpayload : v.toNat < 2 ^ (7 * n) := by
      zify
      rw [Int.toNat_of_nonneg hv]
      omega
    rw [Int.emod_eq_of_lt hv (by omega), header_eq, Nat.xor_comm, xor_eq_add hpayload, ← header_eq]
    zify [hpowNat]
    rw [signedValue_of_nonneg ⟨hle, hlt⟩ hv, Int.toNat_of_nonneg hv]
  · have hmod : v % 2 ^ (8 * n) = 2 ^ (8 * n) + v := by
      rw [← Int.add_emod_left]
      exact Int.emod_eq_of_lt (by omega) (by omega)
    have hsigned := signedValue_of_neg ⟨hle, hlt⟩ hv
    have hpayload : signedValue n v < 2 ^ (7 * n) := by
      zify
      omega
    have hsum : (v % 2 ^ (8 * n)).toNat = 2 ^ (7 * n) * (2 ^ n - 1) + signedValue n v := by
      rw [← header_eq, hmod]
      zify [hpowNat]
      rw [Int.toNat_of_nonneg (by omega), hsigned]
      ring
    rw [hsum, header_eq, ← xor_eq_add hpayload, Nat.xor_comm, ← Nat.xor_assoc, Nat.xor_self, Nat.zero_xor]

theorem bigEndian_xor (n x y : ℕ) :
    bigEndian n (x ^^^ y) = List.zipWith (· ^^^ ·) (bigEndian n x) (bigEndian n y) := by
  induction n with
  | zero => rfl
  | succ n ih =>
    have h256 : 256 ^ n = 2 ^ (8 * n) := by rw [pow_mul]; norm_num
    rw [bigEndian, bigEndian, bigEndian, List.zipWith_cons_cons, ih, h256, Nat.xor_div_two_pow,
      BitVec.ofNat_xor]

theorem zipWith_xor_replicate (bs : List Byte) :
    List.zipWith (· ^^^ ·) bs (List.replicate bs.length (0 : Byte)) = bs := by
  induction bs with
  | nil => rfl
  | cons b bs ih =>
    rw [List.length_cons, List.replicate_succ, List.zipWith_cons_cons, ih]
    congr 1
    exact BitVec.xor_zero

/-- The header bits as bytes. -/
theorem bigEndian_header : ∀ n ∈ List.range' 2 9, bigEndian n (2 ^ (8 * n) - 2 ^ (7 * n)) =
    (kLengthToHeaderBits.getD n (0, 0)).1 :: (kLengthToHeaderBits.getD n (0, 0)).2 ::
      List.replicate (n - 2) 0 := by
  decide

theorem pow_256 (n : ℕ) : 256 ^ n = 2 ^ (8 * n) := by rw [pow_mul]; norm_num

/-- A number in two-complement, cut to its lowest bytes. -/
theorem toNat_emod_mod {n m : ℕ} (h : n ≤ m) (v : ℤ) :
    (v % 2 ^ (8 * m)).toNat % 2 ^ (8 * n) = (v % 2 ^ (8 * n)).toNat := by
  have hdvd : (2 : ℤ) ^ (8 * n) ∣ 2 ^ (8 * m) := pow_dvd_pow 2 (by omega)
  have hpos (k : ℕ) : (0 : ℤ) < 2 ^ (8 * k) := by positivity
  have hnonneg (k : ℕ) := Int.emod_nonneg v (hpos k).ne'
  zify
  rw [Int.toNat_of_nonneg (hnonneg m), Int.toNat_of_nonneg (hnonneg n), Int.emod_emod_of_dvd _ hdvd]

theorem toNat_toInt_emod (val : BitVec 64) : (val.toInt % 2 ^ (8 * 8)).toNat = val.toNat := by
  have hlt := val.isLt
  rw [BitVec.toInt_eq_toNat_cond]
  split_ifs <;> omega

theorem slt_zero_iff (val : BitVec 64) : val.slt 0 = true ↔ val.toInt < 0 := by
  rw [BitVec.slt_iff_toInt_lt]
  rfl

/-- The ten bytes that `WriteSignedNumIncreasing` starts from. -/
theorem buf_eq (val : BitVec 64) :
    (if val.slt 0 then 0xff else 0 : Byte) :: (if val.slt 0 then 0xff else 0 : Byte) ::
      bigEndian 8 val.toNat = bigEndian 10 (val.toInt % 2 ^ (8 * 10)).toNat := by
  have hle := BitVec.le_toInt val
  have hlt := BitVec.toInt_lt (x := val)
  generalize hX : (val.toInt % 2 ^ (8 * 10)).toNat = X
  have hlow : X % 256 ^ 8 = val.toNat := by
    rw [pow_256, ← hX, toNat_emod_mod (by norm_num), toNat_toInt_emod]
  rw [bigEndian_append 2 8, ← bigEndian_mod 8 8 X le_rfl, hlow, if_congr (slt_zero_iff val) rfl rfl]
  split_ifs with hneg
  · have htop : X / 256 ^ 8 = 65535 := by omega
    rw [htop]
    rfl
  · have htop : X / 256 ^ 8 = 0 := by omega
    rw [htop]
    rfl

theorem encodingLength_eq_one (val : BitVec 64) :
    encodingLength val.toInt = 1 ↔ (magnitude val).toNat < 64 := by
  have hsize : (magnitude val).toNat.size ≤ 6 ↔ (magnitude val).toNat < 2 ^ 6 := Nat.size_le
  unfold encodingLength
  rw [← toNat_magnitude]
  change _ ↔ (magnitude val).toNat < 2 ^ 6
  rw [← hsize]
  omega

theorem toNat_toInt_emod_byte (val : BitVec 64) :
    BitVec.ofNat 8 (val.toInt % 2 ^ (8 * 1)).toNat = val.setWidth 8 := by
  refine BitVec.eq_of_toNat_eq ?_
  rw [← toNat_emod_mod (by norm_num : 1 ≤ 8), toNat_toInt_emod, BitVec.toNat_ofNat, Nat.mod_mod,
    BitVec.toNat_setWidth]

/-- The header bits in front of a payload. -/
theorem xor_header_bytes {n : ℕ} {v : ℤ} (hn : n ∈ List.range' 2 9) (h : Fits n v) :
    ∃ b₀ b₁ rest, bigEndian n (v % 2 ^ (8 * 10)).toNat = b₀ :: b₁ :: rest ∧
      (b₀ ^^^ (kLengthToHeaderBits.getD n (0, 0)).1) ::
        (b₁ ^^^ (kLengthToHeaderBits.getD n (0, 0)).2) :: rest = bigEndian n (signedValue n v) := by
  have hrange := List.mem_range'_1.mp hn
  obtain ⟨k, rfl⟩ : ∃ k, n = k + 2 := ⟨n - 2, by omega⟩
  have hcut := bigEndian_mod (k + 2) (k + 2) (v % 2 ^ (8 * 10)).toNat le_rfl
  rw [pow_256, toNat_emod_mod (by omega)] at hcut
  have hsigned := bigEndian_xor (k + 2) (v % 2 ^ (8 * (k + 2))).toNat
    (2 ^ (8 * (k + 2)) - 2 ^ (7 * (k + 2)))
  rw [xor_header h, bigEndian_header _ hn, hcut] at hsigned
  refine ⟨_, _, _, rfl, ?_⟩
  rw [hsigned, bigEndian, bigEndian, List.zipWith_cons_cons, List.zipWith_cons_cons]
  congr 2
  have hrest := zipWith_xor_replicate (bigEndian k (v % 2 ^ (8 * 10)).toNat)
  rw [length_bigEndian] at hrest
  exact hrest.symm

theorem writeSignedNumIncreasing_eq (val : BitVec 64) :
    WriteSignedNumIncreasing val = some (signedCode val.toInt) := by
  have hfits := fits_encodingLength val.toInt
  have hslt : (magnitude val).slt 64 = true ↔ (magnitude val).toNat < 64 := by
    have hlt := toNat_magnitude_lt val
    rw [BitVec.slt_iff_toInt_lt, BitVec.toInt_eq_toNat_of_lt (by omega)]
    exact @Nat.cast_lt ℤ _ _ _ _ _ _ 64
  unfold WriteSignedNumIncreasing
  simp only [buf_eq, kBitsToLength_bits, length_bigEndian]
  by_cases h : (magnitude val).toNat < 64
  · have hone := (encodingLength_eq_one val).mpr h
    rw [hone] at hfits
    rw [if_pos (hslt.mpr h), signedCode, hone, ← xor_header hfits]
    change _ = some [BitVec.ofNat 8 ((_ ^^^ 128) / 256 ^ 0)]
    rw [pow_zero, Nat.div_one, BitVec.ofNat_xor, toNat_toInt_emod_byte, BitVec.xor_comm]
    rfl
  · have hle := encodingLength_le val
    have htwo : 2 ≤ encodingLength val.toInt := by
      have hpos := encodingLength_pos val.toInt
      have hne := (encodingLength_eq_one val).not.mpr h
      omega
    obtain ⟨b₀, b₁, rest, hbytes, hheader⟩ :=
      xor_header_bytes (List.mem_range'_1.mpr ⟨htwo, by omega⟩) hfits
    have hdrop : (bigEndian 10 (val.toInt % 2 ^ (8 * 10)).toNat).drop (10 - encodingLength val.toInt) =
        b₀ :: b₁ :: rest := by
      obtain ⟨k, hk⟩ := Nat.exists_eq_add_of_le' hle
      generalize (val.toInt % 2 ^ (8 * 10)).toNat = X at hbytes ⊢
      rw [hk, bigEndian_append, Nat.add_sub_cancel, List.drop_left' (length_bigEndian _ _), hbytes]
    rw [if_neg (fun hx => h (hslt.mp hx)), if_pos htwo, hdrop]
    exact congrArg some hheader

/-- The bytes with all bits turned over. -/
theorem value_map_not (bs : List Byte) :
    value (bs.map (· ^^^ 0xff)) + value bs + 1 = 256 ^ bs.length := by
  induction bs with
  | nil => rfl
  | cons b bs ih =>
    have hb : (b ^^^ 0xff).toNat = 255 - b.toNat := by
      revert b
      decide
    have hlt : b.toNat < 256 := b.isLt
    rw [List.map_cons, value_cons, value_cons, List.length_map, List.length_cons, hb, pow_succ, ← ih]
    zify [(by omega : b.toNat ≤ 255)]
    ring

theorem readLength_map (xor_mask : Byte) (src : List Byte) :
    readLength xor_mask src = readLength 0 (src.map (· ^^^ xor_mask)) := by
  rcases src with _ | ⟨b₀, _ | ⟨b₁, _ | ⟨b₂, src⟩⟩⟩
  · rfl
  all_goals simp [readLength]

/-- The first byte tells a length of at most seven bytes. -/
theorem first_byte_iff : ∀ b : Byte, 0x80 ≤ b → ∀ n ∈ List.range' 1 7,
    (b ≠ 0xff ∧ 7 - (b ^^^ 0xff).toNat.log2 = n ↔
      256 - 2 ^ (8 - n) ≤ b.toNat ∧ b.toNat < 256 - 2 ^ (7 - n)) := by
  decide +kernel

theorem first_byte_length : ∀ b : Byte, 0x80 ≤ b → b ≠ 0xff →
    7 - (b ^^^ 0xff).toNat.log2 ∈ List.range' 1 7 := by
  decide +kernel

theorem value_take_cons (b : Byte) {n : ℕ} {bs : List Byte} (h : n ≤ bs.length) :
    value ((b :: bs).take (n + 1)) = b.toNat * 256 ^ n + value (bs.take n) ∧
      value (bs.take n) < 256 ^ n := by
  have hlt := value_lt (bs.take n)
  rw [List.take_succ_cons, value_cons]
  rw [List.length_take, Nat.min_eq_left h] at hlt ⊢
  exact ⟨rfl, hlt⟩

/-- The numerals of so many bytes that start with a sign bit, their size bits and a clear bit, and whose
payload has room in 64 bits. -/
def Headed (n R : ℕ) : Prop :=
  2 ^ (8 * n) - 2 ^ (7 * n) ≤ R ∧ R < 2 ^ (8 * n) - 2 ^ (7 * n) + 2 ^ min (7 * n - 1) 63

theorem headed_short {b₀ : Byte} {src : List Byte} (hb₀ : 0x80 ≤ b₀) {n : ℕ} (hn : n ∈ List.range' 1 7)
    (hlen : n ≤ (b₀ :: src).length) : Headed n (value ((b₀ :: src).take n)) ↔
      b₀ ≠ 0xff ∧ 7 - (b₀ ^^^ 0xff).toNat.log2 = n := by
  rw [first_byte_iff b₀ hb₀ n hn, Headed]
  obtain ⟨hpos, hlt⟩ := List.mem_range'_1.mp hn
  obtain ⟨k, rfl⟩ : ∃ k, n = k + 1 := ⟨n - 1, by omega⟩
  obtain ⟨hvalue, htail⟩ := value_take_cons b₀ (Nat.le_of_succ_le_succ hlen)
  rw [hvalue]
  generalize value (src.take k) = t at htail
  have hk : k < 7 := by omega
  interval_cases k <;> norm_num at htail ⊢ <;> omega

theorem headed_long {b₀ b₁ b₂ : Byte} {src : List Byte} {n : ℕ} (hn : n ∈ List.range' 8 3)
    (hlen : n ≤ (b₀ :: b₁ :: b₂ :: src).length) :
    Headed n (value ((b₀ :: b₁ :: b₂ :: src).take n)) ↔ b₀ = 0xff ∧
      ((n = 8 ∧ b₁ < 0x80) ∨ (n = 9 ∧ 0x80 ≤ b₁ ∧ b₁ < 0xc0) ∨ (n = 10 ∧ b₁ = 0xc0 ∧ b₂ < 0x80)) := by
  obtain ⟨hpos, hlt⟩ := List.mem_range'_1.mp hn
  obtain ⟨k, rfl⟩ : ∃ k, n = k + 3 := ⟨n - 3, by omega⟩
  have hlen' : k ≤ src.length := Nat.le_of_add_le_add_right hlen
  have hlen₀ : k + 2 ≤ (b₁ :: b₂ :: src).length := Nat.add_le_add_right hlen' 2
  have hlen₁ : k + 1 ≤ (b₂ :: src).length := Nat.add_le_add_right hlen' 1
  obtain ⟨hvalue₀, -⟩ := value_take_cons b₀ hlen₀
  obtain ⟨hvalue₁, -⟩ := value_take_cons b₁ hlen₁
  obtain ⟨hvalue₂, htail⟩ := value_take_cons b₂ hlen'
  have heq (b c : Byte) : b = c ↔ b.toNat = c.toNat := BitVec.toNat_inj.symm
  have hlt (b c : Byte) : b < c ↔ b.toNat < c.toNat := Iff.rfl
  have hle (b c : Byte) : b ≤ c ↔ b.toNat ≤ c.toNat := Iff.rfl
  have hb₀ : b₀.toNat < 256 := b₀.isLt
  have hb₁ : b₁.toNat < 256 := b₁.isLt
  have hb₂ : b₂.toNat < 256 := b₂.isLt
  rw [hvalue₀, hvalue₁, hvalue₂, heq b₀, heq b₁, hlt b₁, hlt b₁, hlt b₂, hle]
  generalize value (src.take k) = t at htail
  change Headed _ _ ↔ b₀.toNat = 255 ∧ ((k + 3 = 8 ∧ b₁.toNat < 128) ∨
    (k + 3 = 9 ∧ 128 ≤ b₁.toNat ∧ b₁.toNat < 192) ∨ (k + 3 = 10 ∧ b₁.toNat = 192 ∧ b₂.toNat < 128))
  unfold Headed
  have hk : k < 8 := by omega
  have hk' : 5 ≤ k := by omega
  interval_cases k <;> norm_num at htail ⊢ <;> omega

theorem xor_zero_byte (b : Byte) : b ^^^ 0 = b := BitVec.xor_zero

theorem readLength_short {b₀ : Byte} (hff : b₀ ≠ 0xff) (src : List Byte) :
    readLength 0 (b₀ :: src) =
      if (b₀ :: src).length < 7 - (b₀ ^^^ 0xff).toNat.log2 then none
      else some (7 - (b₀ ^^^ 0xff).toNat.log2) := by
  simp only [readLength, xor_zero_byte, ne_eq, hff, not_false_eq_true, if_true]

theorem readLength_cut {src : List Byte} (hlen : (0xff :: src).length < 8) :
    readLength 0 (0xff :: src) = none := by
  simp only [readLength, xor_zero_byte, ne_eq, not_true_eq_false, if_false, if_pos hlen]

theorem readLength_long {b₁ b₂ : Byte} {src : List Byte}
    (hlen : ¬ (0xff :: b₁ :: b₂ :: src).length < 8) :
    readLength 0 (0xff :: b₁ :: b₂ :: src) =
      if b₁ < 0x80 then some 8
      else if b₁ < 0xc0 then if (0xff :: b₁ :: b₂ :: src).length < 9 then none else some 9
      else if b₁ = 0xc0 ∧ b₂ < 0x80 then
        if (0xff :: b₁ :: b₂ :: src).length < 10 then none else some 10
      else none := by
  simp only [readLength, xor_zero_byte, ne_eq, not_true_eq_false, if_false, if_neg hlen]

theorem readLength_long_iff {b₁ b₂ : Byte} {src : List Byte} {n : ℕ}
    (hlen : ¬ (0xff :: b₁ :: b₂ :: src).length < 8) :
    readLength 0 (0xff :: b₁ :: b₂ :: src) = some n ↔ n ∈ List.range' 8 3 ∧
      n ≤ (0xff :: b₁ :: b₂ :: src).length ∧ Headed n (value ((0xff :: b₁ :: b₂ :: src).take n)) := by
  rw [readLength_long hlen]
  constructor
  · intro h
    split_ifs at h with h80 hc0 h9 hcc h10
    · obtain rfl := Option.some.inj h
      have hle := not_lt.mp hlen
      exact ⟨by decide, hle, (headed_long (by decide) hle).mpr ⟨rfl, .inl ⟨rfl, h80⟩⟩⟩
    · obtain rfl := Option.some.inj h
      have hle := not_lt.mp h9
      exact ⟨by decide, hle,
        (headed_long (by decide) hle).mpr ⟨rfl, .inr (.inl ⟨rfl, not_lt.mp h80, hc0⟩)⟩⟩
    · obtain rfl := Option.some.inj h
      have hle := not_lt.mp h10
      exact ⟨by decide, hle, (headed_long (by decide) hle).mpr ⟨rfl, .inr (.inr ⟨rfl, hcc⟩)⟩⟩
  · rintro ⟨hn, hle, hheaded⟩
    obtain ⟨-, ⟨rfl, hb⟩ | ⟨rfl, hb, hb'⟩ | ⟨rfl, rfl, hb'⟩⟩ := (headed_long hn hle).mp hheaded
    · rw [if_pos hb]
    · rw [if_neg (not_lt.mpr hb), if_pos hb', if_neg (not_lt.mpr hle)]
    · rw [if_neg (by decide), if_neg (by decide), if_pos ⟨rfl, hb'⟩, if_neg (not_lt.mpr hle)]

/-- The reader finds a length exactly where a numeral of this length starts. -/
theorem readLength_iff_headed {src : List Byte} {n : ℕ} (h : 0x80 ≤ src.headD 0) :
    readLength 0 src = some n ↔
      n ∈ List.range' 1 10 ∧ n ≤ src.length ∧ Headed n (value (src.take n)) := by
  have hsplit : n ∈ List.range' 1 10 ↔ n ∈ List.range' 1 7 ∨ n ∈ List.range' 8 3 := by
    simp only [List.mem_range'_1]
    omega
  rw [hsplit]
  rcases src with _ | ⟨b₀, src⟩
  · exact absurd h (by decide)
  have hb₀ : 0x80 ≤ b₀ := h
  have hlong (hn : n ∈ List.range' 8 3) (hle : n ≤ (b₀ :: src).length) : ¬ (b₀ :: src).length < 8 := by
    rw [List.mem_range'_1] at hn
    omega
  by_cases hff : b₀ = 0xff
  · subst hff
    by_cases hlen : (0xff :: src).length < 8
    · rw [readLength_cut hlen]
      refine iff_of_false (Option.some_ne_none n).symm ?_
      rintro ⟨hn | hn, hle, hheaded⟩
      · exact ((headed_short hb₀ hn hle).mp hheaded).1 rfl
      · exact hlong hn hle hlen
    · obtain ⟨b₁, b₂, src, rfl⟩ : ∃ b₁ b₂ src', src = b₁ :: b₂ :: src' := by
        rcases src with _ | ⟨b₁, _ | ⟨b₂, src⟩⟩
        · exact absurd (by decide) hlen
        · exact absurd (by simp) hlen
        · exact ⟨b₁, b₂, src, rfl⟩
      rw [readLength_long_iff hlen]
      refine and_congr_left fun ⟨hle, hheaded⟩ => (or_iff_right fun hn => ?_).symm
      exact ((headed_short hb₀ hn hle).mp hheaded).1 rfl
  · rw [readLength_short hff]
    constructor
    · intro h
      split_ifs at h with hlen
      obtain rfl := Option.some.inj h
      have hn := first_byte_length b₀ hb₀ hff
      exact ⟨.inl hn, not_lt.mp hlen, (headed_short hb₀ hn (not_lt.mp hlen)).mpr ⟨hff, rfl⟩⟩
    · rintro ⟨hn | hn, hle, hheaded⟩
      · rw [((headed_short hb₀ hn hle).mp hheaded).2, if_neg (not_lt.mpr hle)]
      · rcases src with _ | ⟨b₁, _ | ⟨b₂, src⟩⟩
        · exact absurd (by simp) (hlong hn hle)
        · exact absurd (by simp) (hlong hn hle)
        · exact absurd ((headed_long hn hle).mp hheaded).1 hff

theorem lt_pow_min {x a b : ℕ} : x < 2 ^ min a b ↔ x < 2 ^ a ∧ x < 2 ^ b := by
  rcases le_total a b with h | h
  · rw [Nat.min_eq_left h]
    exact (and_iff_left_of_imp fun hx => hx.trans_le (Nat.pow_le_pow_right (by norm_num) h)).symm
  · rw [Nat.min_eq_right h]
    exact (and_iff_right_of_imp fun hx => hx.trans_le (Nat.pow_le_pow_right (by norm_num) h)).symm

theorem headed_iff {n R : ℕ} (hn : 0 < n) :
    Headed n R ↔ ∃ v : ℤ, 0 ≤ v ∧ Fits n v ∧ v < 2 ^ 63 ∧ R = signedValue n v := by
  obtain ⟨k, hk⟩ : ∃ k, 7 * n = k + 1 := ⟨7 * n - 1, by omega⟩
  have hpow : 2 ^ (7 * n) ≤ 2 ^ (8 * n) := Nat.pow_le_pow_right (by norm_num) (by omega)
  have hhalf : (2 : ℤ) ^ (7 * n) = 2 * 2 ^ k := by rw [hk, pow_succ']
  have hpos : (0 : ℤ) < 2 ^ k := by positivity
  have hpayload : Headed n R ↔ 2 ^ (8 * n) - 2 ^ (7 * n) ≤ R ∧
      R - (2 ^ (8 * n) - 2 ^ (7 * n)) < 2 ^ min (7 * n - 1) 63 := by
    unfold Headed
    omega
  rw [hpayload, lt_pow_min, show 7 * n - 1 = k by omega]
  constructor
  · rintro ⟨hle, hlt, hlt'⟩
    have hfits : Fits n (R - (2 ^ (8 * n) - 2 ^ (7 * n)) : ℕ) := by
      zify at hlt
      exact ⟨by omega, by omega⟩
    refine ⟨(R - (2 ^ (8 * n) - 2 ^ (7 * n)) : ℕ), Int.natCast_nonneg _, hfits, by exact_mod_cast hlt', ?_⟩
    zify
    rw [signedValue_of_nonneg hfits (Int.natCast_nonneg _)]
    push_cast [hle, hpow]
    ring
  · rintro ⟨v, hv, hfits, hlt, rfl⟩
    have hvalue := signedValue_of_nonneg hfits hv
    have hfit := hfits.2
    have hle : 2 ^ (8 * n) - 2 ^ (7 * n) ≤ signedValue n v := by
      zify [hpow]
      omega
    refine ⟨hle, ?_, ?_⟩
    · zify [hle, hpow]
      omega
    · zify [hle, hpow]
      omega

theorem fits_not {n : ℕ} {v : ℤ} (hn : 0 < n) (h : Fits n v) : Fits n (-v - 1) := by
  obtain ⟨hle, hlt⟩ := h
  obtain ⟨k, hk⟩ : ∃ k, 7 * n = k + 1 := ⟨7 * n - 1, by omega⟩
  unfold Fits
  rw [hk, pow_succ'] at hle hlt ⊢
  omega

/-- The numeral of a negative number is the one of a number that is not, with all bits turned over. -/
theorem signedValue_not {n : ℕ} {v : ℤ} (hn : 0 < n) (h : Fits n v) (hv : 0 ≤ v) :
    signedValue n v + signedValue n (-v - 1) + 1 = 256 ^ n := by
  zify
  rw [signedValue_of_nonneg h hv, signedValue_of_neg (fits_not hn h) (by omega),
    show (256 : ℤ) ^ n = 2 ^ (8 * n) by rw [pow_mul]; norm_num]
  ring

def signMask (src : List Byte) : BitVec 64 := if src.headD 0 &&& 0x80 = 0 then ~~~0 else 0

theorem high_bit_iff : ∀ b : Byte, b &&& 0x80 = 0 ↔ ¬ 0x80 ≤ b := by decide

structure Starts (src : List Byte) (n : ℕ) (v : ℤ) : Prop where
  le_length : n ≤ src.length
  fits : Fits n v
  lower : -2 ^ 63 ≤ v
  upper : v < 2 ^ 63
  sign : 0 ≤ v ↔ 0x80 ≤ src.headD 0
  value : value (src.take n) = signedValue n v

theorem readLength_iff {src : List Byte} {n : ℕ} :
    readLength ((signMask src).setWidth 8) src = some n ↔ n ∈ List.range' 1 10 ∧ ∃ v, Starts src n v := by
  unfold signMask
  rw [if_congr (high_bit_iff _) rfl rfl]
  split_ifs with hsign
  · change readLength 0 src = _ ↔ _
    rw [readLength_iff_headed hsign]
    refine and_congr_right fun hn => ?_
    rw [headed_iff (List.mem_range'_1.mp hn).1]
    constructor
    · rintro ⟨hle, v, hv, hfits, hlt, hvalue⟩
      exact ⟨v, hle, hfits, by omega, hlt, iff_of_true hv hsign, hvalue⟩
    · rintro ⟨v, h⟩
      exact ⟨h.le_length, v, h.sign.mpr hsign, h.fits, h.upper, h.value⟩
  · change readLength 0xff src = _ ↔ _
    rcases src with _ | ⟨b₀, src⟩
    · refine iff_of_false (Option.some_ne_none n).symm ?_
      rintro ⟨hn, v, h⟩
      have hpos := (List.mem_range'_1.mp hn).1
      exact absurd h.le_length (by simp; omega)
    have hhead : 0x80 ≤ ((b₀ :: src).map (· ^^^ 0xff)).headD 0 := by
      change 0x80 ≤ b₀ ^^^ 0xff
      revert hsign
      change ¬ 0x80 ≤ b₀ → _
      revert b₀
      decide
    rw [readLength_map, readLength_iff_headed hhead, List.length_map]
    refine and_congr_right fun hn => ?_
    have hpos : 0 < n := (List.mem_range'_1.mp hn).1
    rw [headed_iff hpos]
    have hvalue (hle : n ≤ (b₀ :: src).length) := value_map_not ((b₀ :: src).take n)
    constructor
    · rintro ⟨hle, v, hv, hfits, hlt, heq⟩
      refine ⟨-v - 1, hle, fits_not hpos hfits, by omega, by omega, iff_of_false (by omega) hsign, ?_⟩
      have hnot := signedValue_not hpos hfits hv
      have hmap := hvalue hle
      rw [List.map_take, List.length_take, Nat.min_eq_left hle, heq] at hmap
      omega
    · rintro ⟨v, h⟩
      have hv : v < 0 := not_le.mp fun hv => hsign (h.sign.mp hv)
      have hfits := fits_not hpos h.fits
      refine ⟨h.le_length, -v - 1, by omega, hfits, by have := h.lower; omega, ?_⟩
      have hnot := signedValue_not hpos hfits (by omega)
      have hmap := hvalue h.le_length
      rw [show -(-v - 1) - 1 = v by ring, ← h.value] at hnot
      rw [List.map_take, List.length_take, Nat.min_eq_left h.le_length] at hmap
      omega

theorem ofInt_congr {a b : ℤ} (h : a % 2 ^ 64 = b % 2 ^ 64) : BitVec.ofInt 64 a = BitVec.ofInt 64 b := by
  refine BitVec.eq_of_toNat_eq ?_
  rw [BitVec.toNat_ofInt, BitVec.toNat_ofInt]
  exact congrArg Int.toNat h

theorem value_append (bs cs : List Byte) : value (bs ++ cs) = value bs * 256 ^ cs.length + value cs := by
  rw [value, List.foldl_append, foldl_value]
  rfl

theorem shift_or (a : ℤ) (b : Byte) :
    (BitVec.ofInt 64 a <<< 8) ||| b.setWidth 64 = BitVec.ofInt 64 (a * 256 + b.toNat) := by
  have hb : b.toNat < 2 ^ 8 := b.isLt
  have hcut : (a % (2 ^ 64 : ℕ)).toNat * 2 ^ 8 % 2 ^ 64 = 2 ^ 8 * (a % 2 ^ 56).toNat := by omega
  refine BitVec.eq_of_toNat_eq ?_
  rw [BitVec.toNat_or, BitVec.toNat_shiftLeft, BitVec.toNat_setWidth,
    Nat.mod_eq_of_lt (by omega : b.toNat < 2 ^ 64), Nat.shiftLeft_eq, BitVec.toNat_ofInt,
    BitVec.toNat_ofInt, hcut, ← Nat.two_pow_add_eq_or_of_lt hb]
  omega

theorem foldl_shift_or (a : ℤ) (bs : List Byte) :
    bs.foldl (fun (x : BitVec 64) b => (x <<< 8) ||| b.setWidth 64) (BitVec.ofInt 64 a) =
      BitVec.ofInt 64 (a * 256 ^ bs.length + value bs) := by
  induction bs generalizing a with
  | nil => simp [value]
  | cons b bs ih =>
    rw [List.foldl_cons, shift_or, ih, value_cons, List.length_cons]
    congr 1
    push_cast
    ring

theorem kLengthToMask_eq : ∀ n ∈ List.range' 1 10,
    kLengthToMask.getD n 0 = BitVec.ofNat 64 (2 ^ (8 * n) - 2 ^ (7 * n)) := by
  decide

def raw (src : List Byte) (len : ℕ) : BitVec 64 :=
  if len < 8 then (src.take len).foldl (fun x b => (x <<< 8) ||| b.setWidth 64) (signMask src)
  else BitVec.ofNat 64 (value ((src.take len).drop (len - 8)))

theorem raw_eq {src : List Byte} {n : ℕ} {v : ℤ} (h : Starts src n v) :
    raw src n = BitVec.ofInt 64 ((if 0 ≤ v then 0 else -256 ^ n) + signedValue n v) := by
  have hlen : (src.take n).length = n := by rw [List.length_take, Nat.min_eq_left h.le_length]
  unfold raw
  split_ifs with hn hv hv
  · have hmask : signMask src = BitVec.ofInt 64 0 := by
      rw [signMask, if_neg (by rw [high_bit_iff, not_not]; exact h.sign.mp hv)]
      rfl
    rw [hmask, foldl_shift_or, h.value, zero_mul]
  · have hmask : signMask src = BitVec.ofInt 64 (-1) := by
      rw [signMask, if_pos (by rw [high_bit_iff]; exact mt h.sign.mpr hv)]
      rfl
    rw [hmask, foldl_shift_or, h.value, hlen, neg_one_mul]
  all_goals
    -- from eight bytes on the highest bytes have no room
    obtain ⟨k, rfl⟩ : ∃ k, n = k + 8 := ⟨n - 8, by omega⟩
    have hsplit := value_append ((src.take (k + 8)).take k) ((src.take (k + 8)).drop k)
    rw [List.take_append_drop, h.value, List.length_drop, hlen, Nat.add_sub_cancel_left] at hsplit
    rw [Nat.add_sub_cancel, ← BitVec.ofInt_natCast]
    refine ofInt_congr ?_
    rw [hsplit]
    push_cast
  · omega
  · rw [pow_add]
    omega

/-- The header bits are taken out of the sign extended bytes. -/
theorem raw_xor {src : List Byte} {n : ℕ} {v : ℤ} (hn : n ∈ List.range' 1 10) (h : Starts src n v) :
    raw src n ^^^ kLengthToMask.getD n 0 = BitVec.ofInt 64 v := by
  have hxor := xor_header h.fits
  have hcancel : signedValue n v ^^^ (2 ^ (8 * n) - 2 ^ (7 * n)) = (v % 2 ^ (8 * n)).toNat := by
    rw [← hxor, Nat.xor_assoc, Nat.xor_self, Nat.xor_zero]
  have hpow : (2 : ℤ) ^ (7 * n) ≤ 2 ^ (8 * n) := pow_le_pow_right₀ (by norm_num) (by omega)
  have hfit := h.fits
  rw [raw_eq h, kLengthToMask_eq n hn]
  split_ifs with hv
  · have hmod : v % 2 ^ (8 * n) = v := Int.emod_eq_of_lt hv (by have := hfit.2; omega)
    rw [zero_add, BitVec.ofInt_natCast, ← BitVec.ofNat_xor, hcancel, hmod, ← BitVec.ofInt_natCast,
      Int.toNat_of_nonneg hv]
  · have hle : 8 * n ≤ 80 := by
      have hlt := (List.mem_range'_1.mp hn).2
      omega
    have hlow := signedValue_lt h.fits
    rw [pow_256] at hlow
    have hmod : v % 2 ^ (8 * n) = 2 ^ (8 * n) + v := by
      rw [← Int.add_emod_left]
      exact Int.emod_eq_of_lt (by have := hfit.1; omega) (by omega)
    have hnot : (v % 2 ^ (8 * n)).toNat < 2 ^ (8 * n) := by
      zify
      rw [Int.toNat_of_nonneg (by rw [hmod]; have := hfit.1; omega), hmod]
      omega
    -- the bits above the payload, all set
    obtain ⟨ones, hones, hcast⟩ : ∃ ones : ℕ, 2 ^ (8 * n) * (2 ^ (80 - 8 * n) - 1) = ones ∧
        (ones : ℤ) = 2 ^ 80 - 2 ^ (8 * n) := by
      refine ⟨_, rfl, ?_⟩
      rw [Nat.mul_sub_one, ← pow_add, Nat.add_sub_cancel' hle,
        Nat.cast_sub (Nat.pow_le_pow_right (by norm_num) hle)]
      norm_num
    have hraw : BitVec.ofInt 64 (-256 ^ n + signedValue n v) = BitVec.ofNat 64 (ones + signedValue n v) := by
      rw [← BitVec.ofInt_natCast]
      refine ofInt_congr ?_
      rw [Nat.cast_add, hcast, show (256 : ℤ) ^ n = 2 ^ (8 * n) by rw [pow_mul]; norm_num]
      omega
    rw [hraw, ← hones, ← xor_eq_add hlow, ← BitVec.ofNat_xor, Nat.xor_assoc, hcancel, xor_eq_add hnot,
      hones, ← BitVec.ofInt_natCast]
    refine ofInt_congr ?_
    rw [Nat.cast_add, hcast, Int.toNat_of_nonneg (by rw [hmod]; have := hfit.1; omega), hmod]
    omega

theorem readSignedNumIncreasing_eq (src : List Byte) : ReadSignedNumIncreasing src =
    match readLength ((signMask src).setWidth 8) src with
    | none => some none
    | some len =>
      let x := raw src len ^^^ kLengthToMask.getD len 0
      if len = SignedEncodingLength x then some (some (x, src.drop len)) else none := rfl

theorem head_iff {n x : ℕ} (hx : x < 256 ^ (n + 1)) (rest : List Byte) :
    0x80 ≤ (bigEndian (n + 1) x ++ rest).headD 0 ↔ 256 ^ (n + 1) ≤ 2 * x := by
  have htop : x / 256 ^ n < 256 := Nat.div_lt_of_lt_mul (by rwa [← pow_succ])
  change 128 ≤ (BitVec.ofNat 8 (x / 256 ^ n)).toNat ↔ _
  rw [BitVec.toNat_ofNat, Nat.mod_eq_of_lt htop, Nat.le_div_iff_mul_le (by positivity), pow_succ]
  omega

theorem length_signedCode (v : ℤ) : (signedCode v).length = encodingLength v := length_bigEndian _ _

theorem starts_signedCode (x : BitVec 64) (rest : List Byte) :
    Starts (signedCode x.toInt ++ rest) (encodingLength x.toInt) x.toInt where
  le_length := by
    rw [List.length_append, length_signedCode]
    exact Nat.le_add_right _ _
  fits := fits_encodingLength _
  lower := BitVec.le_toInt x
  upper := BitVec.toInt_lt
  sign := by
    have hfits := fits_encodingLength x.toInt
    have hpos := encodingLength_pos x.toInt
    unfold signedCode
    generalize encodingLength x.toInt = n at hfits hpos
    obtain ⟨k, rfl⟩ : ∃ k, n = k + 1 := ⟨n - 1, by omega⟩
    rw [head_iff (signedValue_lt hfits)]
    constructor
    · exact (signedValue_sign hpos hfits).2
    · exact fun hle => not_lt.mp fun hv => absurd ((signedValue_sign hpos hfits).1 hv) (not_lt.mpr hle)
  value := by
    rw [List.take_left' (length_signedCode _), signedCode, value_bigEndian,
      Nat.mod_eq_of_lt (signedValue_lt (fits_encodingLength _))]

/-- The reader takes exactly the encodings. -/
theorem readSigned_iff (src rest : List Byte) (x : BitVec 64) :
    ReadSignedNumIncreasing src = some (some (x, rest)) ↔ src = signedCode x.toInt ++ rest := by
  rw [readSignedNumIncreasing_eq]
  constructor
  · intro h
    cases hlength : readLength ((signMask src).setWidth 8) src with
    | none =>
      rw [hlength] at h
      exact absurd (Option.some.inj h) (Option.some_ne_none _).symm
    | some n =>
      rw [hlength] at h
      obtain ⟨hn, v, hstarts⟩ := readLength_iff.mp hlength
      have htoInt := BitVec.toInt_ofInt_eq_self (w := 64) (by norm_num) hstarts.lower hstarts.upper
      dsimp only at h
      rw [raw_xor hn hstarts, signedEncodingLength_eq, htoInt] at h
      split_ifs at h with hshort
      obtain ⟨rfl, rfl⟩ := Prod.mk.inj (Option.some.inj (Option.some.inj h))
      have hbytes := bigEndian_value (src.take n)
      rw [List.length_take, Nat.min_eq_left hstarts.le_length, hstarts.value] at hbytes
      rw [htoInt, signedCode, ← hshort, hbytes, List.take_append_drop]
  · rintro rfl
    have hstarts := starts_signedCode x rest
    have hn : encodingLength x.toInt ∈ List.range' 1 10 :=
      List.mem_range'_1.mpr ⟨encodingLength_pos _, Nat.lt_succ_of_le (encodingLength_le x)⟩
    rw [readLength_iff.mpr ⟨hn, _, hstarts⟩]
    dsimp only
    rw [raw_xor hn hstarts, BitVec.ofInt_toInt, signedEncodingLength_eq, if_pos rfl,
      List.drop_left' (length_signedCode _)]

/-- No assertion of the writer fails. The reader takes exactly the encodings of numbers, each for its
number, every encoding has at most ten bytes, and encodings compare as their numbers do, whatever follows
them. -/
theorem signed_number_encoding (src rest rest' : List Byte) (x x' : BitVec 64) :
    ∃ w w', WriteSignedNumIncreasing x = some w ∧ WriteSignedNumIncreasing x' = some w' ∧
      1 ≤ w.length ∧ w.length ≤ 10 ∧
      (ReadSignedNumIncreasing src = some (some (x, rest)) ↔ src = w ++ rest) ∧
      (x.toInt < x'.toInt → w ++ rest < w' ++ rest') := by
  refine ⟨_, _, writeSignedNumIncreasing_eq x, writeSignedNumIncreasing_eq x', ?_, ?_,
    readSigned_iff src rest x, fun hlt => ?_⟩
  · rw [length_signedCode]
    exact encodingLength_pos _
  · rw [length_signedCode]
    exact encodingLength_le x
  · exact ((separating_signedCode.apart hlt).append rest rest').lt

end ComicApp.Firestore.OrderedCode
