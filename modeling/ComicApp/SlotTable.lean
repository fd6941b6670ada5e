import Mathlib.Algebra.BigOperators.Group.List.Lemmas
import Mathlib.Algebra.Order.BigOperators.Group.List
import Mathlib.Data.List.Nodup
import Mathlib.Data.List.Perm.Basic
import Mathlib.Data.List.Range
import Mathlib.Tactic.Common

/-!
# Counters in the cells of a growing array

Groups of counters share one array. A group that joins late takes the next free cells, one for each of
its members, and every member keeps the number of its cell and writes there. While the numbers given
out are those of the cells, each given once, the members do not disturb one another and the sum of the
cells is the sum of all counters.
-/

namespace ComicApp.SlotTable
open scoped List
variable {M : Type*}

structure Table (M : Type*) where
  slots : List (List ℕ)
  cells : List M

namespace Table

def slot (t : Table M) (i j : ℕ) : Option ℕ := t.slots[i]?.bind fun row => row[j]?

def allocate (t : Table M) (zero : M) (i n : ℕ) : Table M where
  slots := t.slots.set i (List.range' t.cells.length n)
  cells := t.cells ++ List.replicate n zero

def write (t : Table M) (k : ℕ) (m : M) : Table M := { t with cells := t.cells.set k m }

/-- The numbers given out are those of the cells, each given once. -/
def Exact (t : Table M) : Prop := t.slots.flatten.Perm (List.range t.cells.length)

def Holds (t : Table M) (value : ℕ → ℕ → M) : Prop :=
  ∀ i j k, t.slot i j = some k → t.cells[k]? = some (value i j)

theorem slot_eq_some {t : Table M} {i j k : ℕ} :
    t.slot i j = some k ↔ ∃ row, t.slots[i]? = some row ∧ row[j]? = some k :=
  Option.bind_eq_some_iff

theorem Exact.nodup {t : Table M} (h : t.Exact) : t.slots.flatten.Nodup :=
  h.nodup_iff.mpr List.nodup_range

theorem mem_flatten_of_slot {t : Table M} {i j k : ℕ} (h : t.slot i j = some k) :
    k ∈ t.slots.flatten := by
  obtain ⟨row, hi, hj⟩ := slot_eq_some.mp h
  exact List.mem_flatten.mpr ⟨row, List.mem_of_getElem? hi, List.mem_of_getElem? hj⟩

theorem Exact.lt_of_slot {t : Table M} (h : t.Exact) {i j k : ℕ} (hs : t.slot i j = some k) :
    k < t.cells.length :=
  List.mem_range.mp (h.mem_iff.mp (mem_flatten_of_slot hs))

/-- No two counters share a cell. -/
theorem Exact.slot_inj {t : Table M} (h : t.Exact) {i j i' j' k : ℕ} (hs : t.slot i j = some k)
    (hs' : t.slot i' j' = some k) : i = i' ∧ j = j' := by
  obtain ⟨hrows, hdisjoint⟩ := List.nodup_flatten.mp h.nodup
  obtain ⟨row, hi, hj⟩ := slot_eq_some.mp hs
  obtain ⟨row', hi', hj'⟩ := slot_eq_some.mp hs'
  obtain ⟨hlt, rfl⟩ := List.getElem?_eq_some_iff.mp hi
  obtain ⟨hlt', rfl⟩ := List.getElem?_eq_some_iff.mp hi'
  have hii : i = i' := by
    by_contra hne
    have hsep := List.pairwise_iff_getElem.mp hdisjoint
    rcases Nat.lt_or_gt_of_ne hne with hl | hl
    · exact hsep i i' hlt hlt' hl (List.mem_of_getElem? hj) (List.mem_of_getElem? hj')
    · exact hsep i' i hlt' hlt hl (List.mem_of_getElem? hj') (List.mem_of_getElem? hj)
  subst hii
  refine ⟨rfl, ?_⟩
  have hrow := hrows _ (List.getElem_mem hlt)
  obtain ⟨hjlt, hjk⟩ := List.getElem?_eq_some_iff.mp hj
  obtain ⟨hjlt', hjk'⟩ := List.getElem?_eq_some_iff.mp hj'
  exact (hrow.getElem_inj_iff).mp (hjk.trans hjk'.symm)

theorem Exact.write {t : Table M} (h : t.Exact) (k : ℕ) (m : M) : (t.write k m).Exact := by
  unfold Exact Table.write
  rwa [List.length_set]

theorem Holds.write {t : Table M} {value : ℕ → ℕ → M} (h : t.Holds value) (hE : t.Exact)
    {i j k : ℕ} (hs : t.slot i j = some k) {value' : ℕ → ℕ → M} {m : M} (hm : value' i j = m)
    (hother : ∀ i' j', (i', j') ≠ (i, j) → value' i' j' = value i' j') :
    (t.write k m).Holds value' := by
  intro i' j' k' hs'
  change t.slot i' j' = some k' at hs'
  change (t.cells.set k m)[k']? = _
  by_cases hk : k' = k
  · subst hk
    obtain ⟨rfl, rfl⟩ := hE.slot_inj hs' hs
    rw [List.getElem?_set_self (hE.lt_of_slot hs), hm]
  · rw [List.getElem?_set_ne (Ne.symm hk), h i' j' k' hs', hother i' j']
    rintro heq
    obtain ⟨rfl, rfl⟩ := Prod.mk.inj heq
    exact hk (Option.some.inj (hs'.symm.trans hs))

/-- A group that had no cells gets new ones. -/
theorem Exact.allocate {t : Table M} (h : t.Exact) {i : ℕ} (hi : t.slots[i]? = some []) (zero : M)
    (n : ℕ) : (t.allocate zero i n).Exact := by
  obtain ⟨hlt, hnil⟩ := List.getElem?_eq_some_iff.mp hi
  have hsplit : t.slots = t.slots.take i ++ [] :: t.slots.drop (i + 1) := by
    rw [← hnil, List.getElem_cons_drop, List.take_append_drop]
  have hset : t.slots.set i (List.range' t.cells.length n) =
      t.slots.take i ++ List.range' t.cells.length n :: t.slots.drop (i + 1) := by
    rw [List.set_eq_take_append_cons_drop, if_pos hlt]
  have hold : ((t.slots.take i).flatten ++ (t.slots.drop (i + 1)).flatten).Perm
      (List.range t.cells.length) := by
    have hE := h
    rw [Exact, hsplit, List.flatten_append, List.flatten_cons, List.nil_append] at hE
    exact hE
  unfold Exact Table.allocate
  dsimp only
  rw [hset, List.flatten_append, List.flatten_cons, List.length_append, List.length_replicate]
  calc (t.slots.take i).flatten ++
        (List.range' t.cells.length n ++ (t.slots.drop (i + 1)).flatten)
      _ = (t.slots.take i).flatten ++ List.range' t.cells.length n ++
            (t.slots.drop (i + 1)).flatten := (List.append_assoc _ _ _).symm
      _ ~ (t.slots.take i).flatten ++ (t.slots.drop (i + 1)).flatten ++
            List.range' t.cells.length n := by
          rw [List.append_assoc, List.append_assoc]
          exact List.Perm.append_left _ List.perm_append_comm
      _ ~ List.range t.cells.length ++ List.range' t.cells.length n := hold.append_right _
      _ = List.range (t.cells.length + n) := by
          rw [List.range_eq_range', List.range_eq_range', ← List.range'_append_1, Nat.zero_add]

theorem Holds.allocate {t : Table M} {value : ℕ → ℕ → M} (h : t.Holds value) {i : ℕ}
    (hi : t.slots[i]? = some []) {zero : M} (hzero : ∀ j, value i j = zero) (n : ℕ) :
    (t.allocate zero i n).Holds value := by
  have hlt : i < t.slots.length := (List.getElem?_eq_some_iff.mp hi).1
  intro i' j k hs
  obtain ⟨row, hrow, hj⟩ := slot_eq_some.mp hs
  change (t.slots.set i (List.range' t.cells.length n))[i']? = some row at hrow
  change (t.cells ++ List.replicate n zero)[k]? = _
  by_cases hii : i' = i
  · subst hii
    rw [List.getElem?_set_self hlt] at hrow
    obtain rfl := Option.some.inj hrow
    obtain ⟨hjn, rfl⟩ := List.getElem?_eq_some_iff.mp hj
    rw [List.length_range'] at hjn
    rw [List.getElem_range', hzero, one_mul, List.getElem?_append_right (Nat.le_add_right _ _),
      Nat.add_sub_cancel_left, List.getElem?_replicate, if_pos hjn]
  · rw [List.getElem?_set_ne (Ne.symm hii)] at hrow
    have hold := h i' j k (slot_eq_some.mpr ⟨row, hrow, hj⟩)
    rw [List.getElem?_append_left (List.getElem?_eq_some_iff.mp hold).1, hold]

section Sum
variable [AddCommMonoid M]

def total (t : Table M) (value : ℕ → ℕ → M) : M :=
  (t.slots.mapIdx fun i row => (row.mapIdx fun j _ => value i j).sum).sum

theorem map_range_getD (l : List M) : (List.range l.length).map (fun k => l[k]?.getD 0) = l := by
  apply List.ext_getElem
  · simp
  · intro k h₁ h₂
    simp [h₂]

/-- The sum of the cells is the sum of the counters. -/
theorem sum_cells {t : Table M} {value : ℕ → ℕ → M} (hE : t.Exact) (hV : t.Holds value) :
    t.cells.sum = t.total value := by
  have hrow (i : ℕ) (row : List ℕ) (hi : t.slots[i]? = some row) :
      (row.map fun k => t.cells[k]?.getD 0) = row.mapIdx fun j _ => value i j := by
    apply List.ext_getElem?
    intro j
    rw [List.getElem?_map, List.getElem?_mapIdx]
    cases hj : row[j]? with
    | none => rfl
    | some k => rw [Option.map_some, Option.map_some, hV i j k (slot_eq_some.mpr ⟨row, hi, hj⟩)]; rfl
  have hrows : (t.slots.map fun row => (row.map fun k => t.cells[k]?.getD 0).sum) =
      t.slots.mapIdx fun i row => (row.mapIdx fun j _ => value i j).sum := by
    apply List.ext_getElem?
    intro i
    rw [List.getElem?_map, List.getElem?_mapIdx]
    cases hi : t.slots[i]? with
    | none => rfl
    | some row => rw [Option.map_some, Option.map_some, hrow i row hi]
  calc t.cells.sum
      _ = ((List.range t.cells.length).map fun k => t.cells[k]?.getD 0).sum := by
          rw [map_range_getD]
      _ = (t.slots.flatten.map fun k => t.cells[k]?.getD 0).sum := (hE.map _).sum_eq.symm
      _ = (t.slots.map fun row => (row.map fun k => t.cells[k]?.getD 0).sum).sum := by
          rw [List.map_flatten, List.sum_flatten, List.map_map]
          rfl
      _ = t.total value := by rw [hrows, total]

end Sum

/-- A cell that is not lowered does not lower the sum. -/
theorem sum_write_le {M : Type*} [AddCommMonoid M] [PartialOrder M] [IsOrderedAddMonoid M]
    {t : Table M} {k : ℕ} {old m : M} (hk : t.cells[k]? = some old) (hle : old ≤ m) :
    t.cells.sum ≤ (t.write k m).cells.sum := by
  obtain ⟨hlt, rfl⟩ := List.getElem?_eq_some_iff.mp hk
  have hcells : t.cells = t.cells.take k ++ t.cells[k] :: t.cells.drop (k + 1) := by
    rw [List.getElem_cons_drop, List.take_append_drop]
  change _ ≤ (t.cells.set k m).sum
  rw [List.set_eq_take_append_cons_drop, if_pos hlt]
  nth_rewrite 1 [hcells]
  simp only [List.sum_append, List.sum_cons]
  gcongr

end Table
end ComicApp.SlotTable
