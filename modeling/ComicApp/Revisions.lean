import Mathlib.Data.List.Basic
import Mathlib.Data.Nat.Basic
import Mathlib.Order.Basic

/-!
# Revisions of a state

A server keeps the revisions of a state under growing versions. A commit makes the next revision at a
newer version, or changes nothing at the same version. `stateAt` is the state that the commits up to a
version lead to; one who has seen only the first commits computes the same from the rest.
-/

namespace ComicApp.Revisions
variable {σ ω : Type*}

structure Revision (σ : Type*) where
  version : ℕ
  state : σ

structure History (σ : Type*) where
  newest : Revision σ
  older : List (Revision σ)

namespace History

def revisions (h : History σ) : List (Revision σ) := h.newest :: h.older

def push (h : History σ) (r : Revision σ) : History σ := ⟨r, h.revisions⟩

def at_version (h : History σ) (v : ℕ) : Option (Revision σ) :=
  h.revisions.find? fun r => r.version ≤ v

variable {h : History σ} {r r' : Revision σ} {v : ℕ}

theorem version_le (hr : h.at_version v = some r) : r.version ≤ v :=
  of_decide_eq_true (List.find?_some hr :)

theorem mem_of_at_version (hr : h.at_version v = some r) : r ∈ h.revisions := List.mem_of_find?_eq_some hr

theorem at_version_newest (hv : h.newest.version ≤ v) : h.at_version v = some h.newest :=
  List.find?_cons_of_pos (decide_eq_true hv)

theorem at_version_push (hv : v < r.version) : (h.push r).at_version v = h.at_version v :=
  List.find?_cons_of_neg fun hle => absurd (of_decide_eq_true hle) (Nat.not_le_of_lt hv)

/-- The revision at a version is also the one at its own version. -/
theorem at_version_self (hr : h.at_version v = some r) : h.at_version r.version = some r := by
  obtain ⟨hle, older, newer, heq, hbefore⟩ := List.find?_eq_some_iff_append.mp hr
  unfold at_version
  rw [heq, List.find?_append, List.find?_eq_none.mpr, Option.none_or]
  · exact List.find?_cons_of_pos (decide_eq_true (Nat.le_refl _))
  · intro r' hr' hle'
    have hnot : v < r'.version := by simpa using hbefore r' hr'
    have hle := of_decide_eq_true hle
    have hle' := of_decide_eq_true hle'
    omega

end History

structure Commit (σ ω : Type*) where
  version : ℕ
  write : ω
  previous : σ

variable (effect : ω → σ → σ)

def Revision.next (r : Revision σ) (c : Commit σ ω) : Revision σ :=
  ⟨c.version, effect c.write r.state⟩

def last (r : Revision σ) (cs : List (Commit σ ω)) : Revision σ := cs.foldl (Revision.next effect) r

structure Next (r : Revision σ) (c : Commit σ ω) : Prop where
  previous : c.previous = r.state
  version : r.version < c.version ∨ r.version = c.version ∧ effect c.write r.state = r.state

def Follow : Revision σ → List (Commit σ ω) → Prop
  | _, [] => True
  | r, c :: cs => Next effect r c ∧ Follow (r.next effect c) cs

def stateAt (r : Revision σ) (cs : List (Commit σ ω)) (v : ℕ) : σ :=
  (last effect r (cs.filter fun c => c.version ≤ v)).state

variable {effect} {r : Revision σ} {c : Commit σ ω} {cs : List (Commit σ ω)} {v : ℕ}

theorem last_append : last effect r (cs ++ [c]) = (last effect r cs).next effect c := List.foldl_concat ..

theorem last_state : (last effect r cs).state =
    cs.foldl (fun s c => effect c.write s) r.state := by
  induction cs generalizing r with
  | nil => rfl
  | cons c cs ih => exact ih

theorem Next.le (h : Next effect r c) : r.version ≤ c.version := by
  rcases h.version with hlt | ⟨heq, -⟩
  · exact hlt.le
  · exact heq.le

theorem Follow.concat (h : Follow effect r cs) (hc : Next effect (last effect r cs) c) :
    Follow effect r (cs ++ [c]) := by
  induction cs generalizing r with
  | nil => exact ⟨hc, trivial⟩
  | cons c' cs ih => exact ⟨h.1, ih h.2 hc⟩

theorem Follow.le_last (h : Follow effect r cs) : r.version ≤ (last effect r cs).version := by
  induction cs generalizing r with
  | nil => exact Nat.le_refl _
  | cons c cs ih => exact h.1.le.trans (ih h.2)

theorem Follow.version_le (h : Follow effect r cs) : ∀ c ∈ cs,
    r.version ≤ c.version ∧ c.version ≤ (last effect r cs).version := by
  induction cs generalizing r with
  | nil => simp
  | cons c cs ih =>
    refine List.forall_mem_cons.mpr ⟨⟨h.1.le, h.2.le_last⟩, fun c' hc' => ?_⟩
    obtain ⟨hle, hlast⟩ := ih h.2 c' hc'
    exact ⟨h.1.le.trans hle, hlast⟩

theorem stateAt_of_lt (h : ∀ c ∈ cs, v < c.version) : stateAt effect r cs v = r.state := by
  unfold stateAt
  rw [List.filter_eq_nil_iff.mpr fun c hc => by simpa using h c hc]
  rfl

theorem stateAt_of_le (h : ∀ c ∈ cs, c.version ≤ v) :
    stateAt effect r cs v = (last effect r cs).state := by
  unfold stateAt
  rw [List.filter_eq_self.mpr fun c hc => decide_eq_true (h c hc)]

theorem stateAt_cons (hv : c.version ≤ v) :
    stateAt effect r (c :: cs) v = stateAt effect (r.next effect c) cs v := by
  unfold stateAt
  rw [List.filter_cons, if_pos (decide_eq_true hv)]
  rfl

/-- What comes at the version of the revision changes nothing. -/
theorem Follow.stateAt_self (h : Follow effect r cs) : stateAt effect r cs r.version = r.state := by
  induction cs generalizing r with
  | nil => rfl
  | cons c cs ih =>
    obtain ⟨hc, hcs⟩ := h
    rcases hc.version with hlt | ⟨heq, hsame⟩
    · refine stateAt_of_lt (List.forall_mem_cons.mpr ⟨hlt, fun c' hc' => ?_⟩)
      exact hlt.trans_le (hcs.version_le c' hc').1
    · rw [stateAt_cons heq.ge, heq]
      exact (ih hcs).trans hsame

/-- Before the first commit the revision is the state. -/
theorem Follow.stateAt_before (h : Follow effect r (c :: cs)) (hv : v < c.version) :
    stateAt effect r (c :: cs) v = r.state :=
  stateAt_of_lt (List.forall_mem_cons.mpr
    ⟨hv, fun c' hc' => hv.trans_le (h.2.version_le c' hc').1⟩)

/-- A commit shows from its version on. -/
theorem stateAt_concat_of_lt (hv : v < c.version) :
    stateAt effect r (cs ++ [c]) v = stateAt effect r cs v := by
  unfold stateAt
  rw [List.filter_append, List.filter_cons_of_neg (by simpa using hv), List.filter_nil, List.append_nil]

/-- A commit that changes nothing never shows. -/
theorem Follow.stateAt_concat_same (h : Follow effect r cs)
    (hversion : (last effect r cs).version = c.version)
    (hsame : effect c.write (last effect r cs).state = (last effect r cs).state) (v : ℕ) :
    stateAt effect r (cs ++ [c]) v = stateAt effect r cs v := by
  by_cases hv : v < c.version
  · exact stateAt_concat_of_lt hv
  · have hle : ∀ c ∈ cs, c.version ≤ v := by
      intro c' hc'
      have := (h.version_le c' hc').2
      omega
    rw [stateAt_of_le hle, stateAt_of_le, last_append]
    · exact hsame
    · intro c' hc'
      rcases List.mem_append.mp hc' with hc' | hc'
      · exact hle c' hc'
      · obtain rfl := List.mem_singleton.mp hc'
        omega

end ComicApp.Revisions
