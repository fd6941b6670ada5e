import Mathlib.Data.List.Induction
import Mathlib.Tactic.Common
import Mathlib.Tactic.ByContra

/-!
# Runs of an event machine

An event machine answers an event with its next state, or with `none` where the event cannot
happen. `run` feeds it a list of events. `Along C` asks that every step of a run meets the
condition `C` on the state before the step and the event; `Throughout P` asks that `P` holds in
every state a run passes. The induction rules reach a property of whole runs from one step. `logged`
keeps, beside the state, what a condition has to know of the run so far.
-/

namespace ComicApp.EventMachine
variable {σ ε : Type*} (step : σ → ε → Option σ)

def run : σ → List ε → Option σ
  | s, [] => some s
  | s, e :: es => (step s e).bind fun s' => run s' es

def Along (C : σ → ε → Prop) : σ → List ε → Prop
  | _, [] => True
  | s, e :: es => C s e ∧ ∀ s', step s e = some s' → Along C s' es

def Throughout (P : σ → Prop) : σ → List ε → Prop
  | s, [] => P s
  | s, e :: es => P s ∧ ∀ s', step s e = some s' → Throughout P s' es

instance decidableAlong {C : σ → ε → Prop} [∀ s e, Decidable (C s e)] :
    ∀ s es, Decidable (Along step C s es)
  | _, [] => .isTrue trivial
  | s, e :: es =>
    have : Decidable (∀ s' ∈ step s e, Along step C s' es) :=
      match step s e with
      | none => .isTrue nofun
      | some t => @decidable_of_iff _ (Along step C t es) (by simp) (decidableAlong t es)
    inferInstanceAs (Decidable (C s e ∧ ∀ s' ∈ step s e, Along step C s' es))

@[simp] theorem run_nil (s : σ) : run step s [] = some s := rfl

theorem run_cons_eq_some {s s' : σ} {e : ε} {es : List ε} :
    run step s (e :: es) = some s' ↔ ∃ t, step s e = some t ∧ run step t es = some s' := by
  simp [run, Option.bind_eq_some_iff]

theorem run_append (s : σ) (es fs : List ε) :
    run step s (es ++ fs) = (run step s es).bind fun t => run step t fs := by
  induction es generalizing s with
  | nil => rfl
  | cons e es ih =>
    rw [List.cons_append, run, run]
    cases step s e with
    | none => rfl
    | some t => exact ih t

theorem run_concat_eq_some {s s' : σ} {es : List ε} {e : ε} :
    run step s (es ++ [e]) = some s' ↔ ∃ t, run step s es = some t ∧ step t e = some s' := by
  rw [run_append, Option.bind_eq_some_iff]
  simp [run]

theorem along_append {C : σ → ε → Prop} {s : σ} {es fs : List ε} :
    Along step C s (es ++ fs) ↔
      Along step C s es ∧ ∀ t, run step s es = some t → Along step C t fs := by
  induction es generalizing s with
  | nil => simp [Along, run]
  | cons e es ih =>
    simp only [List.cons_append, Along, ih, run_cons_eq_some]
    constructor
    · rintro ⟨hc, h⟩
      exact ⟨⟨hc, fun t ht => (h t ht).1⟩, fun u ⟨t, ht, hu⟩ => (h t ht).2 u hu⟩
    · rintro ⟨⟨hc, h⟩, h'⟩
      exact ⟨hc, fun t ht => ⟨h t ht, fun u hu => h' u ⟨t, ht, hu⟩⟩⟩

theorem along_concat {C : σ → ε → Prop} {s : σ} {es : List ε} {e : ε} :
    Along step C s (es ++ [e]) ↔
      Along step C s es ∧ ∀ t, run step s es = some t → C t e := by
  rw [along_append]
  simp [Along]

theorem Along.mono {C D : σ → ε → Prop} (hCD : ∀ s e, C s e → D s e) {s : σ} {es : List ε}
    (h : Along step C s es) : Along step D s es := by
  induction es generalizing s with
  | nil => trivial
  | cons e es ih => exact ⟨hCD s e h.1, fun t ht => ih (h.2 t ht)⟩

theorem Along.and {C D : σ → ε → Prop} {s : σ} {es : List ε} (h : Along step C s es)
    (h' : Along step D s es) : Along step (fun s e => C s e ∧ D s e) s es := by
  induction es generalizing s with
  | nil => trivial
  | cons e es ih => exact ⟨⟨h.1, h'.1⟩, fun t ht => ih (h.2 t ht) (h'.2 t ht)⟩

theorem along_true (s : σ) (es : List ε) : Along step (fun _ _ => True) s es := by
  induction es generalizing s with
  | nil => trivial
  | cons e es ih => exact ⟨trivial, fun t _ => ih t⟩

/-- A condition on the events alone is met along a run when every event of it meets it. -/
theorem along_of_forall_mem {C : ε → Prop} {s : σ} {es : List ε} (h : ∀ e ∈ es, C e) :
    Along step (fun _ e => C e) s es := by
  induction es generalizing s with
  | nil => trivial
  | cons e es ih =>
    obtain ⟨he, hes⟩ := List.forall_mem_cons.mp h
    exact ⟨he, fun t _ => ih hes⟩

/-- A property of the events so far and the state they led to, kept by every step that meets
`C`, holds at the end of every run along `C`. -/
theorem run_induction {C : σ → ε → Prop} {I : List ε → σ → Prop} {s₀ : σ} (hinit : I [] s₀)
    (hstep : ∀ es s e s', run step s₀ es = some s → Along step C s₀ es → I es s → C s e →
      step s e = some s' → I (es ++ [e]) s')
    {es : List ε} {s : σ} (hC : Along step C s₀ es) (hrun : run step s₀ es = some s) :
    I es s := by
  induction es using List.reverseRecOn generalizing s with
  | nil => rw [← Option.some.inj hrun]; exact hinit
  | append_singleton es e ih =>
    obtain ⟨t, ht, hs⟩ := (run_concat_eq_some step).mp hrun
    obtain ⟨hes, he⟩ := (along_concat step).mp hC
    exact hstep es t e s ht hes (ih hes ht) (he t ht) hs

/-- The same rule for a property of the state alone. -/
theorem run_invariant {C : σ → ε → Prop} {I : σ → Prop} {s₀ : σ} (hinit : I s₀)
    (hstep : ∀ s e s', I s → C s e → step s e = some s' → I s') {es : List ε} {s : σ}
    (hC : Along step C s₀ es) (hrun : run step s₀ es = some s) : I s :=
  run_induction step (I := fun _ s => I s) hinit
    (fun _ s e s' _ _ hI hc hs => hstep s e s' hI hc hs) hC hrun

/-- What an invariant says of each step that meets `C` holds along the whole run. -/
theorem along_of_invariant {C D : σ → ε → Prop} {I : σ → Prop}
    (hkeep : ∀ s e s', I s → C s e → step s e = some s' → I s')
    (hD : ∀ s e, I s → C s e → D s e) {s : σ} {es : List ε} (hI : I s)
    (hC : Along step C s es) : Along step D s es := by
  induction es generalizing s with
  | nil => trivial
  | cons e es ih =>
    obtain ⟨hc, hrest⟩ := hC
    exact ⟨hD s e hI hc, fun t ht => ih (hkeep s e t hI hc ht) (hrest t ht)⟩

/-- Among the runs along `A`, when steps meeting `C` keep an invariant that implies `P`, and every
other step breaks `P`, the runs on which `P` never fails are exactly the runs along `C`. -/
theorem throughout_iff_along_of {A C : σ → ε → Prop} {I P : σ → Prop} (hIP : ∀ s, I s → P s)
    (hkeep : ∀ s e s', I s → A s e → C s e → step s e = some s' → I s')
    (hbreak : ∀ s e s', I s → A s e → ¬ C s e → step s e = some s' → ¬ P s')
    {s s' : σ} {es : List ε} (hI : I s) (hA : Along step A s es) (hrun : run step s es = some s') :
    Throughout step P s es ↔ Along step C s es := by
  induction es generalizing s with
  | nil => exact ⟨fun _ => trivial, fun _ => hIP s hI⟩
  | cons e es ih =>
    obtain ⟨t, ht, hrun'⟩ := (run_cons_eq_some step).mp hrun
    obtain ⟨ha, hA'⟩ := hA
    have hhead : Throughout step P t es → P t := by
      cases es with
      | nil => exact id
      | cons _ _ => exact And.left
    constructor
    · rintro ⟨_, h⟩
      have hc : C s e := by
        by_contra hc
        exact hbreak s e t hI ha hc ht (hhead (h t ht))
      refine ⟨hc, fun u hu => ?_⟩
      obtain rfl : t = u := Option.some.inj (ht.symm.trans hu)
      exact (ih (hkeep s e t hI ha hc ht) (hA' t ht) hrun').mp (h t ht)
    · rintro ⟨hc, h⟩
      refine ⟨hIP s hI, fun u hu => ?_⟩
      obtain rfl : t = u := Option.some.inj (ht.symm.trans hu)
      exact (ih (hkeep s e t hI ha hc ht) (hA' t ht) hrun').mpr (h t ht)

/-- When steps meeting `C` keep an invariant that implies `P`, and every other step breaks `P`,
the runs on which `P` never fails are exactly the runs along `C`. -/
theorem throughout_iff_along {C : σ → ε → Prop} {I P : σ → Prop} (hIP : ∀ s, I s → P s)
    (hkeep : ∀ s e s', I s → C s e → step s e = some s' → I s')
    (hbreak : ∀ s e s', I s → ¬ C s e → step s e = some s' → ¬ P s')
    {s s' : σ} {es : List ε} (hI : I s) (hrun : run step s es = some s') :
    Throughout step P s es ↔ Along step C s es :=
  throughout_iff_along_of step hIP (fun s e s' hI _ => hkeep s e s' hI)
    (fun s e s' hI _ => hbreak s e s' hI) hI (along_true step s es) hrun

/-- The same where, under an invariant of all steps, `C` is exactly what a step needs to keep `P`. -/
theorem throughout_iff_along_of_step_iff {C : σ → ε → Prop} {I P : σ → Prop}
    (hkeep : ∀ s e s', I s → step s e = some s' → I s')
    (hiff : ∀ s e s', I s → P s → step s e = some s' → (P s' ↔ C s e)) {s s' : σ} {es : List ε}
    (hI : I s) (hP : P s) (hrun : run step s es = some s') :
    Throughout step P s es ↔ Along step C s es := by
  refine throughout_iff_along step (I := fun s => I s ∧ P s) (fun s => And.right) ?_ ?_ ⟨hI, hP⟩ hrun
  · rintro s e s' ⟨hI, hP⟩ hc hs
    exact ⟨hkeep s e s' hI hs, (hiff s e s' hI hP hs).mpr hc⟩
  · rintro s e s' ⟨hI, hP⟩ hc hs hP'
    exact hc ((hiff s e s' hI hP hs).mp hP')

/-- What an invariant of the steps that meet `C` says of the states holds throughout a run along
`C`. -/
theorem throughout_of_invariant {C : σ → ε → Prop} {I P : σ → Prop} (hIP : ∀ s, I s → P s)
    (hkeep : ∀ s e s', I s → C s e → step s e = some s' → I s') {s : σ} {es : List ε} (hI : I s)
    (hC : Along step C s es) : Throughout step P s es := by
  induction es generalizing s with
  | nil => exact hIP s hI
  | cons e es ih =>
    obtain ⟨hc, hrest⟩ := hC
    exact ⟨hIP s hI, fun t ht => ih (hkeep s e t hI hc ht) (hrest t ht)⟩

section Logged
variable {η : Type*} (log : σ → η → ε → η)

/-- The machine together with a log, which reads the run and does not touch it. -/
def logged (p : σ × η) (e : ε) : Option (σ × η) := (step p.1 e).map fun s => (s, log p.1 p.2 e)

theorem logged_eq_some {p q : σ × η} {e : ε} :
    logged step log p e = some q ↔ step p.1 e = some q.1 ∧ q.2 = log p.1 p.2 e := by
  rw [logged, Option.map_eq_some_iff]
  constructor
  · rintro ⟨s, hs, rfl⟩
    exact ⟨hs, rfl⟩
  · rintro ⟨hs, hq⟩
    exact ⟨q.1, hs, by rw [← hq]⟩

theorem run_logged {s t : σ} {es : List ε} (h : run step s es = some t) (l : η) :
    ∃ m, run (logged step log) (s, l) es = some (t, m) := by
  induction es generalizing s l with
  | nil =>
    obtain rfl := Option.some.inj h
    exact ⟨l, rfl⟩
  | cons e es ih =>
    obtain ⟨u, hu, hrun⟩ := (run_cons_eq_some step).mp h
    obtain ⟨m, hm⟩ := ih hrun (log s l e)
    exact ⟨m, (run_cons_eq_some _).mpr ⟨(u, log s l e), (logged_eq_some step log).mpr ⟨hu, rfl⟩, hm⟩⟩

theorem along_logged {C : σ → ε → Prop} {s : σ} {l : η} {es : List ε} :
    Along (logged step log) (fun p e => C p.1 e) (s, l) es ↔ Along step C s es := by
  induction es generalizing s l with
  | nil => exact Iff.rfl
  | cons e es ih =>
    refine and_congr_right fun _ => ⟨fun h t ht => ?_, fun h p hp => ?_⟩
    · exact ih.mp (h (t, log s l e) ((logged_eq_some step log).mpr ⟨ht, rfl⟩))
    · obtain ⟨ht, -⟩ := (logged_eq_some step log).mp hp
      exact ih.mpr (h p.1 ht)

theorem throughout_logged {P : σ → Prop} {s : σ} {l : η} {es : List ε} :
    Throughout (logged step log) (fun p => P p.1) (s, l) es ↔ Throughout step P s es := by
  induction es generalizing s l with
  | nil => exact Iff.rfl
  | cons e es ih =>
    refine and_congr_right fun _ => ⟨fun h t ht => ?_, fun h p hp => ?_⟩
    · exact ih.mp (h (t, log s l e) ((logged_eq_some step log).mpr ⟨ht, rfl⟩))
    · obtain ⟨ht, -⟩ := (logged_eq_some step log).mp hp
      exact ih.mpr (h p.1 ht)

end Logged
end ComicApp.EventMachine
