import Mathlib

/-!
# Decimal numerals of a fixed width

`padded k n` is the decimal numeral of `n` with zeros on the left up to `k` characters. It is as long
as the wider of the two, consists of digits, and is read back as `n`; so numerals of one width are
equal only for equal numbers, whether or not the number outgrows the width.
-/

namespace ComicApp.PaddedNumeral

def padded (k n : ℕ) : String := n.repr.leftpad k '0'

theorem toList_padded (k n : ℕ) :
    (padded k n).toList = List.replicate (k - n.repr.length) '0' ++ Nat.toDigits 10 n := by
  simp [padded, String.leftpad, List.leftpad, ← String.length_toList]

@[simp] theorem length_padded (k n : ℕ) : (padded k n).length = max k n.repr.length :=
  String.length_leftpad k '0' n.repr

/-- Zeros that fill the width exactly. -/
theorem padded_eq_append {k j n : ℕ} (h : j + n.repr.length = k) :
    padded k n = String.ofList (List.replicate j '0') ++ n.repr := by
  rw [← String.toList_inj, toList_padded, String.toList_append, String.toList_ofList,
    Nat.toList_repr, ← h, Nat.add_sub_cancel]

theorem padded_eq_repr {k n : ℕ} (h : k ≤ n.repr.length) : padded k n = n.repr := by
  rw [← String.toList_inj, toList_padded, Nat.toList_repr, Nat.sub_eq_zero_of_le h]
  rfl

theorem isDigit_of_mem_padded {k n : ℕ} {c : Char} (hc : c ∈ (padded k n).toList) : c.isDigit := by
  rw [toList_padded, List.mem_append] at hc
  rcases hc with hzero | hdigit
  · rw [List.eq_of_mem_replicate hzero]
    rfl
  · exact Nat.isDigit_of_mem_toDigits (by decide) (by decide) hdigit

theorem padded_ne_empty (k n : ℕ) : padded k n ≠ "" := by
  intro h
  have hlist := congrArg String.toList h
  rw [toList_padded] at hlist
  exact Nat.toDigits_ne_nil (List.append_eq_nil_iff.mp hlist).2

theorem ofDigitChars_padded (k n : ℕ) : Nat.ofDigitChars 10 (padded k n).toList 0 = n := by
  rw [toList_padded, Nat.ofDigitChars_append, Nat.ofDigitChars_replicate_zero, Nat.mul_zero,
    Nat.ofDigitChars_ten_toDigits]

/-- The zeros do not change the number that is read. -/
@[simp] theorem toNat?_padded (k n : ℕ) : (padded k n).toNat? = some n := by
  have hnat : (padded k n).isNat = true :=
    String.isNat_of_isDigit (padded_ne_empty k n) fun _ hc => isDigit_of_mem_padded hc
  have hdigits : (padded k n).toList.filter (· != '_') = (padded k n).toList := by
    rw [List.filter_eq_self]
    intro c hc
    have hdigit := isDigit_of_mem_padded hc
    rw [bne_iff_ne]
    rintro rfl
    cases hdigit
  rw [String.toNat?_eq_some_ofDigitChars hnat, hdigits, ofDigitChars_padded]

theorem padded_injective (k : ℕ) : Function.Injective (padded k) := by
  intro m n h
  have hread := congrArg String.toNat? h
  rw [toNat?_padded, toNat?_padded] at hread
  exact Option.some.inj hread

/-- The numeral of a number between `10 ^ k` and `10 ^ (k + 1)` has `k + 1` digits. -/
theorem length_repr {k n : ℕ} (hlow : 10 ^ k ≤ n) (hhigh : n < 10 ^ (k + 1)) :
    n.repr.length = k + 1 := by
  have hle : n.repr.length ≤ k + 1 := (Nat.length_repr_le_iff (by omega)).mpr hhigh
  rcases Nat.eq_zero_or_pos k with rfl | hk
  · have hpos : 0 < n.repr.length := Nat.length_repr_pos
    omega
  · have hgt : ¬ n.repr.length ≤ k := by
      rw [Nat.length_repr_le_iff hk]
      omega
    omega

theorem lt_length_repr {k n : ℕ} (hlow : 10 ^ k ≤ n) : k < n.repr.length := by
  rcases Nat.eq_zero_or_pos k with rfl | hk
  · exact Nat.length_repr_pos
  · by_contra hle
    rw [not_lt, Nat.length_repr_le_iff hk] at hle
    omega

end ComicApp.PaddedNumeral
