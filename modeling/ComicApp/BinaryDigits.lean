import Mathlib.Algebra.BigOperators.Group.List.Basic
import Mathlib.Tactic.Common
import Mathlib.Tactic.Ring

/-!
# Weights switched on by the binary digits of a number

`lowBits k n` is the list of the `k` lowest binary digits of `n`, the units first, and
`total weights digits` the sum of the weights whose digit is on. With the weights
`w, 2 * w, 4 * w, …` the total of the digits of `n` is `w * (n % 2 ^ k)`.
-/

namespace ComicApp.BinaryDigits

def lowBits : ℕ → ℕ → List Bool
  | 0, _ => []
  | k + 1, n => decide (n % 2 = 1) :: lowBits k (n / 2)

def value : List Bool → ℕ
  | [] => 0
  | digit :: digits => digit.toNat + 2 * value digits

def total (weights : List ℕ) (digits : List Bool) : ℕ :=
  (List.zipWith (fun weight digit => if digit then weight else 0) weights digits).sum

/-- The first `k` weights of the sequence that starts with `w` and doubles. -/
def doubling : ℕ → ℕ → List ℕ
  | 0, _ => []
  | k + 1, w => w :: doubling k (2 * w)

@[simp] theorem length_lowBits (k n : ℕ) : (lowBits k n).length = k := by
  induction k generalizing n with
  | zero => rfl
  | succ k ih => rw [lowBits, List.length_cons, ih]

@[simp] theorem length_doubling (k w : ℕ) : (doubling k w).length = k := by
  induction k generalizing w with
  | zero => rfl
  | succ k ih => rw [doubling, List.length_cons, ih]

theorem doubling_eq_map (k w : ℕ) : doubling k w = (List.range k).map fun i => w * 2 ^ i := by
  induction k generalizing w with
  | zero => rfl
  | succ k ih =>
    rw [doubling, ih, List.range_succ_eq_map, List.map_cons, List.map_map, pow_zero, mul_one]
    congr 1
    apply List.map_congr_left
    intro i _
    rw [Function.comp_apply, pow_succ]
    ring

/-- The digits of `n` stand for what is left of `n` below `2 ^ k`. -/
theorem value_lowBits (k n : ℕ) : value (lowBits k n) = n % 2 ^ k := by
  induction k generalizing n with
  | zero => rw [pow_zero, Nat.mod_one]; rfl
  | succ k ih =>
    have hdigit : (decide (n % 2 = 1)).toNat = n % 2 := by
      rcases Nat.mod_two_eq_zero_or_one n with h | h <;> rw [h] <;> rfl
    rw [lowBits, value, ih, hdigit, pow_succ', Nat.mod_mul]

theorem total_doubling (w : ℕ) (digits : List Bool) :
    total (doubling digits.length w) digits = w * value digits := by
  induction digits generalizing w with
  | nil => rfl
  | cons digit digits ih =>
    have htail : (List.zipWith (fun weight digit => if digit then weight else 0)
        (doubling digits.length (2 * w)) digits).sum = 2 * w * value digits := ih (2 * w)
    rw [total, List.length_cons, doubling, List.zipWith_cons_cons, List.sum_cons, htail, value]
    cases digit
    · simp only [Bool.false_eq_true, if_false, Bool.toNat_false]
      ring
    · simp only [if_true, Bool.toNat_true]
      ring

theorem total_lowBits (k w n : ℕ) : total (doubling k w) (lowBits k n) = w * (n % 2 ^ k) := by
  have h := total_doubling w (lowBits k n)
  rwa [length_lowBits, value_lowBits] at h

@[simp] theorem lowBits_zero (k : ℕ) : lowBits k 0 = List.replicate k false := by
  induction k with
  | zero => rfl
  | succ k ih => rw [lowBits, Nat.zero_div, ih]; rfl

end ComicApp.BinaryDigits
