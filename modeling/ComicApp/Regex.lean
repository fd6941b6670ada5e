import Mathlib.Data.List.Basic
import Mathlib.Logic.Relation
import Mathlib.Tactic.Common

/-!
# Regular expressions with lookahead

A cursor is a position in a text, with what stands before it (backwards) and what stands after it.
`Matches r` relates the cursor where a match of `r` begins to the cursors where it can end, and `ends`
computes these; the two agree (`mem_ends`). A repeated class matches the words over the class, which
gives the matches of the expressions built from classes a description in words.
-/

namespace ComicApp
open Relation

structure Cursor (α : Type*) where
  before : List α
  after : List α
  deriving DecidableEq, Repr

/-- `atLeast n r` is `r{n,}`, `look r` is `(?=r)`, and `test` is an anchor. -/
inductive Regex (α : Type*) where
  | one (p : α → Bool)
  | seq (r s : Regex α)
  | atLeast (n : ℕ) (r : Regex α)
  | look (r : Regex α)
  | test (p : Cursor α → Bool)

namespace Regex
variable {α γ : Type*}

def Times (R : γ → γ → Prop) : ℕ → γ → γ → Prop
  | 0, c, d => d = c
  | n + 1, c, d => ∃ m, R c m ∧ Times R n m d

def iterate (f : γ → List γ) : ℕ → γ → List γ
  | 0, c => [c]
  | n + 1, c => (f c).flatMap (iterate f n)

/-- What `f` reaches from a cursor in any number of steps. Only steps that get nearer to the end of the
text can reach anything new. -/
def closure (f : γ → List γ) (size : γ → ℕ) : ℕ → γ → List γ
  | 0, c => [c]
  | k + 1, c => c :: ((f c).filter fun d => size d < size c).flatMap (closure f size k)

section Repetition
variable {f : γ → List γ} {R : γ → γ → Prop} (hf : ∀ c d, d ∈ f c ↔ R c d)
include hf

theorem mem_iterate (n : ℕ) (c d : γ) : d ∈ iterate f n c ↔ Times R n c d := by
  induction n generalizing c with
  | zero => simp [iterate, Times]
  | succ n ih => simp [iterate, Times, hf, ih]

theorem mem_closure {size : γ → ℕ} (hR : ∀ c d, R c d → d = c ∨ size d < size c) {k : ℕ} {c d : γ}
    (hk : size c ≤ k) : d ∈ closure f size k c ↔ ReflTransGen R c d := by
  have hself : ∀ (k : ℕ) (c : γ), c ∈ closure f size k c := by
    intro k c
    cases k <;> simp [closure]
  constructor
  · intro hd
    induction k generalizing c with
    | zero =>
      obtain rfl := List.mem_singleton.mp hd
      exact .refl
    | succ k ih =>
      rcases List.mem_cons.mp hd with rfl | hd
      · exact .refl
      · obtain ⟨m, hm, hd⟩ := List.mem_flatMap.mp hd
        obtain ⟨hm, hlt⟩ := List.mem_filter.mp hm
        have hlt : size m < size c := of_decide_eq_true hlt
        exact .head ((hf c m).mp hm) (ih (by omega) hd)
  · intro hd
    induction hd using ReflTransGen.head_induction_on generalizing k with
    | refl => exact hself k d
    | @head c m hm _ ih =>
      rcases hR c m hm with rfl | hlt
      · exact ih hk
      · obtain ⟨k, rfl⟩ : ∃ k', k = k' + 1 := ⟨k - 1, by omega⟩
        apply List.mem_cons_of_mem
        apply List.mem_flatMap.mpr
        exact ⟨m, List.mem_filter.mpr ⟨(hf c m).mpr hm, decide_eq_true hlt⟩, ih (by omega)⟩

end Repetition

def Matches : Regex α → Cursor α → Cursor α → Prop
  | one p, c, d => ∃ a, p a = true ∧ c.after = a :: d.after ∧ d.before = a :: c.before
  | seq r s, c, d => ∃ m, r.Matches c m ∧ s.Matches m d
  | atLeast n r, c, d => ∃ m, Times r.Matches n c m ∧ ReflTransGen r.Matches m d
  | look r, c, d => d = c ∧ ∃ m, r.Matches c m
  | test p, c, d => d = c ∧ p c = true

def step (p : α → Bool) (c : Cursor α) : List (Cursor α) :=
  match c.after with
  | [] => []
  | a :: after => if p a then [⟨a :: c.before, after⟩] else []

def ends : Regex α → Cursor α → List (Cursor α)
  | one p => step p
  | seq r s => fun c => (r.ends c).flatMap s.ends
  | atLeast n r => fun c => (iterate r.ends n c).flatMap fun m =>
      closure r.ends (fun d => d.after.length) m.after.length m
  | look r => fun c => if (r.ends c).isEmpty then [] else [c]
  | test p => fun c => if p c then [c] else []

theorem mem_step {p : α → Bool} {c d : Cursor α} : d ∈ step p c ↔ (one p).Matches c d := by
  obtain ⟨before, after⟩ := c
  obtain ⟨before', after'⟩ := d
  cases after with
  | nil => simp [step, Matches]
  | cons a after =>
    simp only [step, Matches]
    split_ifs with hp
    · constructor
      · rintro heq
        obtain ⟨rfl, rfl⟩ := Cursor.mk.inj (List.mem_singleton.mp heq)
        exact ⟨a, hp, rfl, rfl⟩
      · rintro ⟨b, -, hafter, rfl⟩
        obtain ⟨rfl, rfl⟩ := List.cons.inj hafter
        exact List.mem_singleton_self _
    · refine iff_of_false List.not_mem_nil ?_
      rintro ⟨b, hb, hafter, -⟩
      obtain ⟨rfl, -⟩ := List.cons.inj hafter
      exact hp hb

/-- A match that does not end where it began ends nearer to the end of the text. -/
theorem forward (r : Regex α) (c d : Cursor α) (h : r.Matches c d) :
    d = c ∨ d.after.length < c.after.length := by
  have htrans : ∀ {c m d : Cursor α}, (m = c ∨ m.after.length < c.after.length) →
      (d = m ∨ d.after.length < m.after.length) → d = c ∨ d.after.length < c.after.length := by
    rintro c m d (rfl | hm) (rfl | hd)
    · exact .inl rfl
    · exact .inr hd
    · exact .inr hm
    · exact .inr (Nat.lt_trans hd hm)
  induction r generalizing c d with
  | one p =>
    obtain ⟨a, -, hafter, -⟩ := h
    exact .inr (by rw [hafter]; exact Nat.lt_succ_self _)
  | seq r s ihr ihs =>
    obtain ⟨m, hr, hs⟩ := h
    exact htrans (ihr c m hr) (ihs m d hs)
  | atLeast n r ih =>
    obtain ⟨m, htimes, hstar⟩ := h
    have hm : m = c ∨ m.after.length < c.after.length := by
      induction n generalizing c with
      | zero => exact .inl htimes
      | succ n ihn =>
        obtain ⟨l, hl, htimes⟩ := htimes
        exact htrans (ih c l hl) (ihn l htimes)
    refine htrans hm ?_
    induction hstar with
    | refl => exact .inl rfl
    | tail _ hd ih' => exact htrans ih' (ih _ _ hd)
  | look r _ => exact .inl h.1
  | test p => exact .inl h.1

theorem mem_ends (r : Regex α) (c d : Cursor α) : d ∈ r.ends c ↔ r.Matches c d := by
  induction r generalizing c d with
  | one p => exact mem_step
  | seq r s ihr ihs => simp only [ends, Matches, List.mem_flatMap, ihr, ihs]
  | atLeast n r ih =>
    simp only [ends, Matches, List.mem_flatMap, mem_iterate ih]
    exact exists_congr fun m => and_congr_right fun _ => mem_closure ih r.forward (Nat.le_refl _)
  | look r ih =>
    have hempty : (r.ends c).isEmpty = true ↔ ¬ ∃ m, r.Matches c m := by
      rw [List.isEmpty_iff, List.eq_nil_iff_forall_not_mem]
      simp only [ih, not_exists]
    simp only [ends, Matches]
    split_ifs with h
    · simp [hempty.mp h]
    · simpa using fun _ => not_not.mp (fun hn => h (hempty.mpr hn))
  | test p =>
    simp only [ends, Matches]
    split_ifs with h <;> simp [h]

def fullMatch (r : Regex α) (text : List α) : Bool :=
  (r.ends ⟨[], text⟩).any fun d => d.after.isEmpty

theorem fullMatch_iff {r : Regex α} {text : List α} :
    r.fullMatch text = true ↔ ∃ before, r.Matches ⟨[], text⟩ ⟨before, []⟩ := by
  simp only [fullMatch, List.any_eq_true, List.isEmpty_iff, mem_ends]
  constructor
  · rintro ⟨⟨before, after⟩, h, rfl⟩
    exact ⟨before, h⟩
  · rintro ⟨before, h⟩
    exact ⟨_, h, rfl⟩

def Spans (w : List α) (c d : Cursor α) : Prop :=
  c.after = w ++ d.after ∧ d.before = w.reverse ++ c.before

theorem spans_cons {a : α} {w : List α} {c d : Cursor α} : Spans (a :: w) c d ↔
    ∃ m, (c.after = a :: m.after ∧ m.before = a :: c.before) ∧ Spans w m d := by
  constructor
  · rintro ⟨hafter, hbefore⟩
    exact ⟨⟨a :: c.before, w ++ d.after⟩, ⟨hafter, rfl⟩, rfl, by rw [hbefore]; simp⟩
  · rintro ⟨m, ⟨hc, hm⟩, hafter, hbefore⟩
    refine ⟨by rw [hc, hafter]; rfl, ?_⟩
    rw [hbefore, hm]
    simp

theorem times_one {p : α → Bool} {n : ℕ} {c d : Cursor α} : Times (one p).Matches n c d ↔
    ∃ w, w.length = n ∧ (∀ a ∈ w, p a = true) ∧ Spans w c d := by
  induction n generalizing c with
  | zero =>
    constructor
    · rintro rfl
      exact ⟨[], rfl, nofun, rfl, rfl⟩
    · rintro ⟨w, hlen, -, hafter, hbefore⟩
      obtain rfl := List.length_eq_zero_iff.mp hlen
      obtain ⟨before, after⟩ := d
      obtain ⟨before', after'⟩ := c
      obtain rfl : after' = after := hafter
      obtain rfl : before = before' := hbefore
      rfl
  | succ n ih =>
    constructor
    · rintro ⟨m, ⟨a, ha, hcm⟩, hd⟩
      obtain ⟨w, hlen, hw, hspan⟩ := ih.mp hd
      refine ⟨a :: w, by rw [List.length_cons, hlen], ?_, spans_cons.mpr ⟨m, hcm, hspan⟩⟩
      exact List.forall_mem_cons.mpr ⟨ha, hw⟩
    · rintro ⟨w, hlen, hw, hspan⟩
      obtain ⟨a, w, rfl⟩ := List.exists_cons_of_length_eq_add_one hlen
      obtain ⟨ha, hw⟩ := List.forall_mem_cons.mp hw
      obtain ⟨m, hcm, hspan⟩ := spans_cons.mp hspan
      exact ⟨m, ⟨a, ha, hcm⟩, ih.mpr ⟨w, Nat.succ.inj hlen, hw, hspan⟩⟩

theorem times_of_reflTransGen {R : γ → γ → Prop} {c d : γ} (h : ReflTransGen R c d) :
    ∃ n, Times R n c d := by
  induction h using ReflTransGen.head_induction_on with
  | refl => exact ⟨0, rfl⟩
  | @head c m hm _ ih =>
    obtain ⟨n, hn⟩ := ih
    exact ⟨n + 1, m, hm, hn⟩

theorem Times.reflTransGen {R : γ → γ → Prop} {n : ℕ} {c d : γ} (h : Times R n c d) :
    ReflTransGen R c d := by
  induction n generalizing c with
  | zero => exact h ▸ .refl
  | succ n ih =>
    obtain ⟨m, hm, hd⟩ := h
    exact .head hm (ih hd)

theorem times_add {R : γ → γ → Prop} {n k : ℕ} {c d : γ} :
    Times R (n + k) c d ↔ ∃ m, Times R n c m ∧ Times R k m d := by
  induction n generalizing c with
  | zero => simp [Times]
  | succ n ih =>
    rw [Nat.succ_add]
    simp only [Times, ih]
    tauto

/-- A repeated class matches the words over the class that are long enough. -/
theorem matches_atLeast_one {p : α → Bool} {n : ℕ} {c d : Cursor α} :
    (atLeast n (one p)).Matches c d ↔
      ∃ w, n ≤ w.length ∧ (∀ a ∈ w, p a = true) ∧ Spans w c d := by
  constructor
  · rintro ⟨m, hm, hd⟩
    obtain ⟨k, hk⟩ := times_of_reflTransGen hd
    obtain ⟨w, hlen, hw⟩ := times_one.mp (times_add.mpr ⟨m, hm, hk⟩)
    exact ⟨w, by omega, hw⟩
  · rintro ⟨w, hlen, hw⟩
    obtain ⟨k, hk⟩ := Nat.exists_eq_add_of_le hlen
    obtain ⟨m, hm, hd⟩ := times_add.mp (times_one.mpr ⟨w, hk, hw⟩)
    exact ⟨m, hm, hd.reflTransGen⟩

/-- `(?=p*q)` for two classes: the first characters of the rest are in `p`, and the next one in `q`. -/
theorem matches_look_one {p q : α → Bool} {c d : Cursor α} :
    (look (seq (atLeast 0 (one p)) (one q))).Matches c d ↔
      d = c ∧ ∃ w a rest, c.after = w ++ a :: rest ∧ (∀ b ∈ w, p b = true) ∧ q a = true := by
  refine and_congr_right fun _ => ⟨?_, ?_⟩
  · rintro ⟨m, e, he, a, ha, hafter, -⟩
    obtain ⟨w, -, hw, hspan, -⟩ := matches_atLeast_one.mp he
    exact ⟨w, a, m.after, by rw [hspan, hafter], hw, ha⟩
  · rintro ⟨w, a, rest, hafter, hw, ha⟩
    have he : (atLeast 0 (one p)).Matches c ⟨w.reverse ++ c.before, a :: rest⟩ :=
      matches_atLeast_one.mpr ⟨w, Nat.zero_le _, hw, hafter, rfl⟩
    exact ⟨⟨a :: (w.reverse ++ c.before), rest⟩, _, he, a, ha, rfl, rfl⟩

end Regex
end ComicApp
