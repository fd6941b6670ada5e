import Mathlib.Algebra.BigOperators.Group.List.Basic
import Mathlib.Algebra.Order.BigOperators.Group.List
import Mathlib.Tactic.Common

/-!
# Blocks stacked one after another

`stack size y l` gives every block of `l` the offset at which it starts when the blocks are laid one
after another from `y`, `size` being the extent of a block. The offsets are the prefix sums of the
sizes, so each block starts where the one before it ends and no two of them overlap.
-/

namespace ComicApp.StackedLayout
variable {α M : Type*} [AddCommMonoid M] (size : α → M)

def stack : M → List α → List (M × α)
  | _, [] => []
  | y, a :: l => (y, a) :: stack (y + size a) l

def finish (y : M) (l : List α) : M := y + (l.map size).sum

@[simp] theorem stack_nil (y : M) : stack size y [] = [] := rfl

@[simp] theorem finish_nil (y : M) : finish size y [] = y := by simp [finish]

theorem finish_cons (y : M) (a : α) (l : List α) :
    finish size y (a :: l) = finish size (y + size a) l := by
  simp [finish, add_assoc]

theorem finish_concat (y : M) (l : List α) (a : α) :
    finish size y (l ++ [a]) = finish size y l + size a := by
  simp [finish, add_assoc]

theorem stack_append (y : M) (l m : List α) :
    stack size y (l ++ m) = stack size y l ++ stack size (finish size y l) m := by
  induction l generalizing y with
  | nil => simp
  | cons a l ih => rw [List.cons_append, stack, stack, ih, finish_cons, List.cons_append]

theorem stack_concat (y : M) (l : List α) (a : α) :
    stack size y (l ++ [a]) = stack size y l ++ [(finish size y l, a)] :=
  stack_append size y l [a]

@[simp] theorem map_snd_stack (y : M) (l : List α) : (stack size y l).map Prod.snd = l := by
  induction l generalizing y with
  | nil => rfl
  | cons a l ih => rw [stack, List.map_cons, ih]

@[simp] theorem length_stack (y : M) (l : List α) : (stack size y l).length = l.length := by
  rw [← List.length_map Prod.snd, map_snd_stack]

/-- A block starts after the blocks before it. -/
theorem getElem?_stack (y : M) (l : List α) (k : ℕ) :
    (stack size y l)[k]? = l[k]?.map fun a => (finish size y (l.take k), a) := by
  induction l generalizing y k with
  | nil => simp
  | cons a l ih =>
    cases k with
    | zero => simp [stack]
    | succ k => rw [stack, List.getElem?_cons_succ, ih, List.getElem?_cons_succ, List.take_succ_cons,
        finish_cons]

/-- A block starts where the one before it ends. -/
theorem isChain_stack (y : M) (l : List α) :
    (stack size y l).IsChain fun p q => q.1 = p.1 + size p.2 := by
  induction l generalizing y with
  | nil => exact .nil
  | cons a l ih =>
    cases l with
    | nil => exact .singleton _
    | cons b l => exact List.isChain_cons_cons.mpr ⟨rfl, ih (y + size a)⟩

section Order
variable [PartialOrder M] [IsOrderedAddMonoid M]

theorem le_of_mem_stack (hsize : ∀ a, 0 ≤ size a) {y : M} {l : List α} {p : M × α}
    (hp : p ∈ stack size y l) : y ≤ p.1 := by
  induction l generalizing y with
  | nil => cases hp
  | cons a l ih =>
    rcases List.mem_cons.mp hp with rfl | hp
    · exact le_rfl
    · exact (le_add_of_nonneg_right (hsize a)).trans (ih hp)

/-- No two blocks overlap: every later block starts beyond the end of the earlier one. -/
theorem pairwise_stack (hsize : ∀ a, 0 ≤ size a) (y : M) (l : List α) :
    (stack size y l).Pairwise fun p q => p.1 + size p.2 ≤ q.1 := by
  induction l generalizing y with
  | nil => exact .nil
  | cons a l ih => exact .cons (fun q hq => le_of_mem_stack size hsize hq) (ih (y + size a))

end Order
end ComicApp.StackedLayout
