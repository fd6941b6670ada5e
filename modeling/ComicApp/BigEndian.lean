import ComicApp.OrderedCodes
import Mathlib.Data.Nat.Log
import Mathlib.Tactic.Ring

/-!
# Big-endian numerals

The bytes of a number, the most significant one first. Numerals of one length compare as the numbers do,
and a numeral compares with a longer one as with the front of it.
-/

namespace ComicApp.BigEndian
open OrderedCodes

abbrev Byte := BitVec 8

instance : LinearOrder Byte where
  le_refl b := Nat.le_refl b.toNat
  le_trans b c d := Nat.le_trans
  le_antisymm b c h h' := BitVec.eq_of_toNat_eq (Nat.le_antisymm h h')
  le_total b c := Nat.le_total b.toNat c.toNat
  lt_iff_le_not_ge b c := Nat.lt_iff_le_and_not_ge
  toDecidableLE b c := inferInstanceAs (Decidable (b.toNat ≤ c.toNat))
  toDecidableLT b c := inferInstanceAs (Decidable (b.toNat < c.toNat))

def bigEndian : ℕ → ℕ → List Byte
  | 0, _ => []
  | n + 1, x => BitVec.ofNat 8 (x / 256 ^ n) :: bigEndian n x

def value (bs : List Byte) : ℕ := bs.foldl (fun x b => x * 256 + b.toNat) 0

section
variable {n m x y : ℕ} {b : Byte} {bs bs' : List Byte}

@[simp] theorem length_bigEndian (n x : ℕ) : (bigEndian n x).length = n := by
  induction n with
  | zero => rfl
  | succ n ih => rw [bigEndian, List.length_cons, ih]

theorem bigEndian_append (n m x : ℕ) :
    bigEndian (n + m) x = bigEndian n (x / 256 ^ m) ++ bigEndian m x := by
  induction n with
  | zero => rw [Nat.zero_add, bigEndian, List.nil_append]
  | succ n ih => rw [Nat.succ_add_eq_add_succ, Nat.add_succ, bigEndian, ih, bigEndian, List.cons_append,
      Nat.div_div_eq_div_mul, ← pow_add, Nat.add_comm m n]

theorem bigEndian_mod (n m x : ℕ) (h : n ≤ m) : bigEndian n (x % 256 ^ m) = bigEndian n x := by
  induction n with
  | zero => rfl
  | succ n ih =>
    have hdvd : 256 ^ m = 256 ^ n * (256 * 256 ^ (m - (n + 1))) := by
      rw [← pow_succ', ← pow_add]
      congr 1
      omega
    have hdigit : x % 256 ^ m / 256 ^ n % 256 = x / 256 ^ n % 256 := by
      rw [hdvd, Nat.mod_mul_right_div_self, Nat.mod_mul_right_mod]
    rw [bigEndian, bigEndian, ih (Nat.le_of_succ_le h)]
    congr 1
    exact BitVec.eq_of_toNat_eq (by simpa only [BitVec.toNat_ofNat] using hdigit)

/-- Numerals of one length compare as the numbers do. -/
theorem apart_bigEndian (hlt : x < y) (hy : y < 256 ^ n) : Apart (bigEndian n x) (bigEndian n y) := by
  induction n generalizing x y with
  | zero => exact absurd (hlt.trans_le (Nat.le_of_lt_succ hy)) (Nat.not_lt_zero x)
  | succ n ih =>
    have hpos : 0 < 256 ^ n := Nat.pow_pos (by norm_num)
    have hdiv : x / 256 ^ n ≤ y / 256 ^ n := Nat.div_le_div_right hlt.le
    have htop : y / 256 ^ n < 256 := Nat.div_lt_of_lt_mul (by rwa [← pow_succ])
    rw [bigEndian, bigEndian]
    rcases hdiv.lt_or_eq with hdiv | hdiv
    · refine .head _ _ ?_
      change (BitVec.ofNat 8 _).toNat < (BitVec.ofNat 8 _).toNat
      rw [BitVec.toNat_ofNat, BitVec.toNat_ofNat, Nat.mod_eq_of_lt (hdiv.trans htop),
        Nat.mod_eq_of_lt htop]
      exact hdiv
    · rw [hdiv, ← bigEndian_mod n n x le_rfl, ← bigEndian_mod n n y le_rfl]
      refine .cons _ (ih ?_ (Nat.mod_lt y hpos))
      have hx := Nat.div_add_mod x (256 ^ n)
      have hy := Nat.div_add_mod y (256 ^ n)
      rw [hdiv] at hx
      omega

/-- A numeral compares with the front of a longer one. -/
theorem apart_of_lt_div (hnm : n ≤ m) (hlt : x < y / 256 ^ (m - n)) (hy : y < 256 ^ m) :
    Apart (bigEndian n x) (bigEndian m y) := by
  obtain ⟨k, rfl⟩ := Nat.exists_eq_add_of_le hnm
  rw [Nat.add_sub_cancel_left] at hlt
  have htop : y / 256 ^ k < 256 ^ n := Nat.div_lt_of_lt_mul (by rwa [← pow_add, Nat.add_comm k n])
  rw [bigEndian_append]
  simpa only [List.append_nil] using (apart_bigEndian hlt htop).append [] (bigEndian k y)

theorem apart_of_div_lt (hnm : n ≤ m) (hlt : y / 256 ^ (m - n) < x) (hx : x < 256 ^ n) :
    Apart (bigEndian m y) (bigEndian n x) := by
  obtain ⟨k, rfl⟩ := Nat.exists_eq_add_of_le hnm
  rw [Nat.add_sub_cancel_left] at hlt
  rw [bigEndian_append]
  simpa only [List.append_nil] using (apart_bigEndian hlt hx).append (bigEndian k y) []

theorem foldl_value (x : ℕ) (bs : List Byte) :
    bs.foldl (fun x b => x * 256 + b.toNat) x = x * 256 ^ bs.length + value bs := by
  induction bs generalizing x with
  | nil => simp [value]
  | cons b bs ih =>
    have hvalue : value (b :: bs) = b.toNat * 256 ^ bs.length + value bs := by
      rw [value, List.foldl_cons, ih, Nat.zero_mul, Nat.zero_add]
    rw [List.foldl_cons, ih, hvalue, List.length_cons, pow_succ]
    ring

theorem value_cons : value (b :: bs) = b.toNat * 256 ^ bs.length + value bs := by
  rw [value, List.foldl_cons, foldl_value, Nat.zero_mul, Nat.zero_add]

theorem value_lt (bs : List Byte) : value bs < 256 ^ bs.length := by
  induction bs with
  | nil => exact Nat.one_pos
  | cons b bs ih =>
    have hb : b.toNat < 256 := b.isLt
    calc value (b :: bs) = b.toNat * 256 ^ bs.length + value bs := value_cons
      _ < b.toNat * 256 ^ bs.length + 256 ^ bs.length := Nat.add_lt_add_left ih _
      _ = (b.toNat + 1) * 256 ^ bs.length := (Nat.succ_mul _ _).symm
      _ ≤ 256 * 256 ^ bs.length := Nat.mul_le_mul_right _ hb
      _ = 256 ^ (b :: bs).length := (pow_succ' 256 bs.length).symm

theorem value_bigEndian (n x : ℕ) : value (bigEndian n x) = x % 256 ^ n := by
  induction n with
  | zero => rw [bigEndian, pow_zero, Nat.mod_one]; rfl
  | succ n ih =>
    rw [bigEndian, value_cons, ih, length_bigEndian, BitVec.toNat_ofNat, pow_succ 256 n, Nat.mod_mul,
      Nat.mul_comm (256 ^ n), Nat.add_comm]

theorem bigEndian_value (bs : List Byte) : bigEndian bs.length (value bs) = bs := by
  induction bs with
  | nil => rfl
  | cons b bs ih =>
    have hpos : 0 < 256 ^ bs.length := Nat.pow_pos (by norm_num)
    have hdiv : value (b :: bs) / 256 ^ bs.length = b.toNat := by
      rw [value_cons, Nat.mul_comm, Nat.mul_add_div hpos, Nat.div_eq_of_lt (value_lt bs), Nat.add_zero]
    have hmod : value (b :: bs) % 256 ^ bs.length = value bs := by
      rw [value_cons, Nat.mul_comm, Nat.mul_add_mod, Nat.mod_eq_of_lt (value_lt bs)]
    rw [List.length_cons, bigEndian, hdiv, BitVec.ofNat_toNat, BitVec.setWidth_eq,
      ← bigEndian_mod _ _ _ le_rfl, hmod, ih]

end

end ComicApp.BigEndian
