import Mathlib.Data.List.Induction
import Mathlib.Tactic.Common
import Mathlib.Tactic.ByContra

/-!
# Late writers

Every writer is engaged for one place and writes its value there once, at any time after. The places
are settled when each one shows the value of the writer that was engaged for it last, if that writer
has written. They stay settled as long as no writer writes to a place that shows another value of the
last writer engaged for it.
-/

namespace ComicApp.Overwrite
variable {β γ ν : Type*} (place : β → ℕ)

/-- `b` is the `i`th writer, and no later one is engaged for its place. -/
def IsLast (bs : List β) (i : ℕ) (b : β) : Prop :=
  bs[i]? = some b ∧ ∀ b' ∈ bs.drop (i + 1), place b' ≠ place b

instance [DecidableEq β] (bs : List β) (i : ℕ) (b : β) : Decidable (IsLast place bs i b) :=
  inferInstanceAs (Decidable (_ ∧ _))

variable {place}

theorem isLast_iff {bs : List β} {i : ℕ} {b : β} : IsLast place bs i b ↔
    bs[i]? = some b ∧ ∀ j b', i < j → bs[j]? = some b' → place b' ≠ place b := by
  refine and_congr_right fun _ => ⟨fun h j b' hij hj => ?_, fun h b' hb' => ?_⟩
  · apply h
    apply List.mem_of_getElem? (i := j - (i + 1))
    rw [List.getElem?_drop, Nat.add_sub_cancel' hij, hj]
  · obtain ⟨k, hk⟩ := List.mem_iff_getElem?.mp hb'
    rw [List.getElem?_drop] at hk
    exact h _ _ (by omega) hk

theorem IsLast.unique {bs : List β} {i j : ℕ} {b c : β} (hb : IsLast place bs i b)
    (hc : IsLast place bs j c) (h : place b = place c) : i = j ∧ b = c := by
  rw [isLast_iff] at hb hc
  have hij : i = j := by
    by_contra hne
    rcases Nat.lt_or_gt_of_ne hne with hlt | hlt
    · exact hb.2 j c hlt hc.1 h.symm
    · exact hc.2 i b hlt hb.1 h
  subst hij
  exact ⟨rfl, Option.some.inj (hb.1.symm.trans hc.1)⟩

theorem isLast_concat {bs : List β} {b c : β} {j : ℕ} : IsLast place (bs ++ [b]) j c ↔
    (j = bs.length ∧ c = b) ∨ (IsLast place bs j c ∧ place b ≠ place c) := by
  constructor
  · rintro ⟨hj, hlast⟩
    rcases Nat.lt_or_ge j bs.length with hlt | hge
    · rw [List.getElem?_append_left hlt] at hj
      rw [List.drop_append_of_le_length hlt, List.forall_mem_append] at hlast
      exact .inr ⟨⟨hj, hlast.1⟩, hlast.2 b (List.mem_singleton_self b)⟩
    · rw [List.getElem?_append_right hge] at hj
      obtain ⟨hlt, heq⟩ := List.getElem?_eq_some_iff.mp hj
      have hlen : j = bs.length := by
        rw [List.length_singleton] at hlt
        omega
      exact .inl ⟨hlen, heq.symm.trans (List.getElem_singleton _)⟩
  · rintro (⟨rfl, rfl⟩ | ⟨⟨hj, hlast⟩, hne⟩)
    · refine ⟨List.getElem?_concat_length, fun b' hb' => ?_⟩
      rw [List.drop_eq_nil_of_le (by simp)] at hb'
      cases hb'
    · have hlt := (List.getElem?_eq_some_iff.mp hj).1
      refine ⟨by rw [List.getElem?_append_left hlt, hj], ?_⟩
      rw [List.drop_append_of_le_length hlt, List.forall_mem_append]
      exact ⟨hlast, List.forall_mem_singleton.mpr hne⟩

/-- A writer keeps its place whatever it does. -/
theorem isLast_set {bs : List β} {i j : ℕ} {b b' c : β} (hi : bs[i]? = some b)
    (hplace : place b' = place b) : IsLast place (bs.set i b') j c ↔
      (j = i ∧ c = b' ∧ IsLast place bs i b) ∨ (j ≠ i ∧ IsLast place bs j c) := by
  have hlt := (List.getElem?_eq_some_iff.mp hi).1
  have hplaces : ∀ k : ℕ, ((bs.set i b')[k]?).map place = (bs[k]?).map place := by
    intro k
    by_cases hk : i = k
    · rw [← hk, List.getElem?_set_self hlt, hi, Option.map_some, Option.map_some, hplace]
    · rw [List.getElem?_set_ne hk]
  have hlater : ∀ p : ℕ, (∀ (k : ℕ) (d : β), j < k → (bs.set i b')[k]? = some d → place d ≠ p) ↔
      ∀ (k : ℕ) (d : β), j < k → bs[k]? = some d → place d ≠ p := by
    intro p
    refine ⟨fun h k d hk hd => ?_, fun h k d hk hd => ?_⟩
    · have hmap := hplaces k
      rw [hd, Option.map_some, Option.map_eq_some_iff] at hmap
      obtain ⟨d', hd', heq⟩ := hmap
      exact heq ▸ h k d' hk hd'
    · have hmap := hplaces k
      rw [hd, Option.map_some, eq_comm, Option.map_eq_some_iff] at hmap
      obtain ⟨d', hd', heq⟩ := hmap
      exact heq ▸ h k d' hk hd'
  rw [isLast_iff, hlater]
  by_cases hj : i = j
  · subst hj
    rw [List.getElem?_set_self hlt, isLast_iff, Option.some.injEq]
    constructor
    · rintro ⟨rfl, h⟩
      exact .inl ⟨rfl, rfl, hi, hplace ▸ h⟩
    · rintro (⟨-, rfl, -, h⟩ | ⟨hne, -⟩)
      · exact ⟨rfl, hplace ▸ h⟩
      · exact absurd rfl hne
  · rw [List.getElem?_set_ne hj, ← isLast_iff]
    constructor
    · exact fun h => .inr ⟨Ne.symm hj, h⟩
    · rintro (⟨rfl, -⟩ | ⟨-, h⟩)
      · exact absurd rfl hj
      · exact h

/-- A place for which a writer is engaged has a last one. -/
theorem exists_isLast {bs : List β} {b : β} (hb : b ∈ bs) :
    ∃ i l, IsLast place bs i l ∧ place l = place b := by
  induction bs using List.reverseRecOn with
  | nil => cases hb
  | append_singleton bs c ih =>
    by_cases hc : place c = place b
    · exact ⟨bs.length, c, isLast_concat.mpr (.inl ⟨rfl, rfl⟩), hc⟩
    · rcases List.mem_append.mp hb with hb | hb
      · obtain ⟨i, l, hl, hplace⟩ := ih hb
        exact ⟨i, l, isLast_concat.mpr (.inr ⟨hl, hplace ▸ hc⟩), hplace⟩
      · exact absurd (congrArg place (List.mem_singleton.mp hb)).symm hc

variable (place) (value : β → ν) (written : β → Prop) (get : γ → ν)

def Settled (cells : List γ) (bs : List β) : Prop :=
  ∀ i b, IsLast place bs i b → written b → (cells[place b]?).map get = some (value b)

/-- The last writer engaged for the place of `b` has not written yet, or its value is that of `b`. -/
def Harmless (bs : List β) (b : β) : Prop :=
  ∀ i l, IsLast place bs i l → place l = place b → written l → value l = value b

instance [DecidableEq β] [DecidableEq ν] [DecidablePred written] (bs : List β) (b : β) :
    Decidable (Harmless place value written bs b) :=
  decidable_of_iff (∀ i < bs.length, ∀ l ∈ bs[i]?, IsLast place bs i l → place l = place b →
    written l → value l = value b)
    ⟨fun h i l hl => h i (List.getElem?_eq_some_iff.mp hl.1).1 l hl.1 hl, fun h i _ l _ => h i l⟩

variable {place value written get}

theorem Settled.concat {cells : List γ} {bs : List β} (h : Settled place value written get cells bs)
    {b : β} (hb : ¬ written b) : Settled place value written get cells (bs ++ [b]) := by
  intro i l hl hw
  rcases isLast_concat.mp hl with ⟨-, rfl⟩ | ⟨hl, -⟩
  · exact absurd hw hb
  · exact h i l hl hw

theorem Settled.grow {cells : List γ} {bs : List β} (h : Settled place value written get cells bs)
    (cs : List γ) : Settled place value written get (cells ++ cs) bs := by
  intro i l hl hw
  have hcell := h i l hl hw
  obtain ⟨c, hc, -⟩ := Option.map_eq_some_iff.mp hcell
  rw [List.getElem?_append_left (List.getElem?_eq_some_iff.mp hc).1, hcell]

/-- A writer that does not write now leaves the places settled. -/
theorem Settled.keep {cells cells' : List γ} {bs : List β}
    (h : Settled place value written get cells bs) {i : ℕ} {b b' : β} (hi : bs[i]? = some b)
    (hplace : place b' = place b) (hvalue : value b' = value b) (hw : written b' → written b)
    (hcells : ∀ p : ℕ, (cells'[p]?).map get = (cells[p]?).map get) :
    Settled place value written get cells' (bs.set i b') := by
  intro j l hl hwl
  rw [hcells]
  rcases (isLast_set hi hplace).mp hl with ⟨-, rfl, hb⟩ | ⟨-, hl⟩
  · rw [hplace, hvalue]
    exact h i b hb (hw hwl)
  · exact h j l hl hwl

/-- A writer leaves the places settled exactly where it is harmless. -/
theorem settled_write_iff {cells cells' : List γ} {bs : List β}
    (h : Settled place value written get cells bs) {i : ℕ} {b b' : β} (hi : bs[i]? = some b)
    (hplace : place b' = place b) (hvalue : value b' = value b) (hnot : ¬ written b)
    (hw : written b') (hcell : (cells'[place b]?).map get = some (value b))
    (hother : ∀ p, p ≠ place b → (cells'[p]?).map get = (cells[p]?).map get) :
    Settled place value written get cells' (bs.set i b') ↔
      Harmless place value written bs b := by
  constructor
  · intro hs j l hl hp hwl
    have hne : j ≠ i := by
      rintro rfl
      exact hnot (Option.some.inj (hl.1.symm.trans hi) ▸ hwl)
    have hshown := hs j l ((isLast_set hi hplace).mpr (.inr ⟨hne, hl⟩)) hwl
    rw [hp, hcell, Option.some.injEq] at hshown
    exact hshown.symm
  · intro hb j l hl hwl
    rcases (isLast_set hi hplace).mp hl with ⟨-, rfl, -⟩ | ⟨-, hl⟩
    · rw [hplace, hvalue, hcell]
    · by_cases hp : place l = place b
      · rw [hp, hcell, hb j l hl hp hwl]
      · rw [hother _ hp]
        exact h j l hl hwl

end ComicApp.Overwrite
