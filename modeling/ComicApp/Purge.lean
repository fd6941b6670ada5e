import ComicApp.EventMachine

/-!
# Runs with the events nobody sees taken out

A view of the state of one event machine is followed by a second machine that is given only the
events kept by `low`: a kept event moves the view as the second machine does, and any other event
leaves it alone. A run is then seen as the run of the second machine on what is kept of its events,
so two runs that agree on these agree on what is seen.
-/

namespace ComicApp.EventMachine
variable {σ τ ε : Type*} {step : σ → ε → Option σ} {next : τ → ε → Option τ} {view : σ → τ}
  {low : ε → Bool} {C : σ → ε → Prop} {I : σ → Prop}

/-- `next` follows `view` along the steps that meet `C`, as long as the invariant `I` holds. -/
structure Follows (step : σ → ε → Option σ) (next : τ → ε → Option τ) (view : σ → τ)
    (low : ε → Bool) (C : σ → ε → Prop) (I : σ → Prop) : Prop where
  keeps : ∀ {s e s'}, I s → C s e → step s e = some s' → I s'
  seen : ∀ {s e s'}, I s → C s e → low e = true → step s e = some s' →
    next (view s) e = some (view s')
  unseen : ∀ {s e s'}, I s → C s e → low e = false → step s e = some s' → view s' = view s

theorem Follows.run (h : Follows step next view low C I) {s t : σ} {es : List ε} (hI : I s)
    (hC : Along step C s es) (hrun : EventMachine.run step s es = some t) :
    EventMachine.run next (view s) (es.filter low) = some (view t) := by
  induction es generalizing s with
  | nil =>
    obtain rfl := Option.some.inj hrun
    rfl
  | cons e es ih =>
    obtain ⟨u, hu, hrun'⟩ := (run_cons_eq_some step).mp hrun
    obtain ⟨hc, hrest⟩ := hC
    have htail := ih (h.keeps hI hc hu) (hrest u hu) hrun'
    cases hlow : low e with
    | true =>
      rw [List.filter_cons_of_pos hlow]
      exact (run_cons_eq_some next).mpr ⟨view u, h.seen hI hc hlow hu, htail⟩
    | false =>
      rw [List.filter_cons_of_neg (by rw [hlow]; exact Bool.false_ne_true),
        ← h.unseen hI hc hlow hu]
      exact htail

/-- Two runs from states that look the same, on events that agree where they are kept, end in
states that look the same. -/
theorem Follows.view_eq (h : Follows step next view low C I) {s₁ s₂ t₁ t₂ : σ} {es₁ es₂ : List ε}
    (hI₁ : I s₁) (hI₂ : I s₂) (hview : view s₁ = view s₂) (hes : es₁.filter low = es₂.filter low)
    (hC₁ : Along step C s₁ es₁) (hC₂ : Along step C s₂ es₂)
    (h₁ : EventMachine.run step s₁ es₁ = some t₁) (h₂ : EventMachine.run step s₂ es₂ = some t₂) :
    view t₁ = view t₂ := by
  have hrun₁ := h.run hI₁ hC₁ h₁
  have hrun₂ := h.run hI₂ hC₂ h₂
  rw [hview, hes, hrun₂] at hrun₁
  exact (Option.some.inj hrun₁).symm

end ComicApp.EventMachine
