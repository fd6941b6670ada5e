import ComicApp.CallSteps

/-!
# The refresh loop of the shelf

While something is downloaded, the shelf draws its rows anew every quarter of a second: a block handed
to `asyncAfter` reloads the table and calls `sleepAndReload`, which hands over the next one as long as
`Comic.isDowloading` is positive. `viewWillAppear` starts such a chain. `pending` lists the blocks
that have not run yet, each as the number of the chain it belongs to; their delays may end in any
order. Reloading the table changes nothing that the loop reads and is left out.
-/

namespace ComicApp.ShelfRefresh
open EventMachine
open scoped List

structure State where
  session : DownloadSession.State
  selectedSegmentIndex : ℤ
  pending : List ℕ
  chains : ℕ

inductive Event where
  | session (e : DownloadSession.Event)
  | reLoad (selectedSegmentIndex : ℤ)
  | viewWillAppear
  | expire (t : ℕ)
  deriving DecidableEq, Repr

def launch (session : DownloadSession.State) : State := ⟨session, 0, [], 0⟩

namespace State

def Downloading (s : State) : Prop := 0 < s.session.isDowloading

instance (s : State) : Decidable s.Downloading := inferInstanceAs (Decidable (_ < _))

/-- What `viewWillAppear` asks before it starts a chain. -/
def Starts (s : State) : Prop := s.selectedSegmentIndex = 0 ∧ s.Downloading

instance (s : State) : Decidable s.Starts := inferInstanceAs (Decidable (_ ∧ _))

def asyncAfter (s : State) (chain : ℕ) : State := { s with pending := s.pending ++ [chain] }

def viewWillAppear (s : State) : State :=
  if s.Starts then { s.asyncAfter s.chains with chains := s.chains + 1 } else s

def sleepAndReload (s : State) (chain : ℕ) : State :=
  if s.Downloading then s.asyncAfter chain else s

def onSession (s : State) (session : DownloadSession.State) : DownloadSession.Event → State
  | .relaunch => launch session
  | _ => { s with session }

end State

def step (s : State) : Event → Option State
  | .session e => (DownloadSession.step s.session e).map fun session => s.onSession session e
  | .reLoad selectedSegmentIndex =>
    if s.session.running then some { s with selectedSegmentIndex } else none
  | .viewWillAppear => if s.session.running then some s.viewWillAppear else none
  | .expire t =>
    if s.session.running then
      s.pending[t]?.map fun chain =>
        { s with pending := s.pending.eraseIdx t }.sleepAndReload chain
    else none

inductive Transition (s : State) : Event → State → Prop where
  | relaunch (session : DownloadSession.State) :
      Transition s (.session .relaunch) (launch session)
  | session (e : DownloadSession.Event) (session : DownloadSession.State) (he : e ≠ .relaunch) :
      Transition s (.session e) { s with session }
  | reLoad (selectedSegmentIndex : ℤ) :
      Transition s (.reLoad selectedSegmentIndex) { s with selectedSegmentIndex }
  | start (h : s.Starts) :
      Transition s .viewWillAppear { s.asyncAfter s.chains with chains := s.chains + 1 }
  | appear (h : ¬ s.Starts) : Transition s .viewWillAppear s
  | again (t chain : ℕ) (ht : s.pending[t]? = some chain) (h : s.Downloading) :
      Transition s (.expire t) ({ s with pending := s.pending.eraseIdx t }.asyncAfter chain)
  | stop (t chain : ℕ) (ht : s.pending[t]? = some chain) (h : ¬ s.Downloading) :
      Transition s (.expire t) { s with pending := s.pending.eraseIdx t }

theorem Transition.of_step {s s' : State} {e : Event} (h : step s e = some s') :
    Transition s e s' := by
  cases e with
  | session e =>
    obtain ⟨session, -, rfl⟩ := Option.map_eq_some_iff.mp h
    cases e with
    | relaunch => exact .relaunch session
    | _ => exact .session _ session nofun
  | reLoad selectedSegmentIndex =>
    unfold step at h
    split_ifs at h
    obtain rfl := Option.some.inj h
    exact .reLoad selectedSegmentIndex
  | viewWillAppear =>
    unfold step State.viewWillAppear at h
    split_ifs at h with _ hstarts
    · obtain rfl := Option.some.inj h
      exact .start hstarts
    · obtain rfl := Option.some.inj h
      exact .appear hstarts
  | expire t =>
    unfold step at h
    split_ifs at h
    obtain ⟨chain, ht, hs⟩ := Option.map_eq_some_iff.mp h
    unfold State.sleepAndReload at hs
    split_ifs at hs with hdownloading
    · subst hs
      exact .again t chain ht hdownloading
    · subst hs
      exact .stop t chain ht hdownloading

/-- A block that runs again goes to the back of the queue. -/
theorem again_perm {s : State} {t chain : ℕ} (ht : s.pending[t]? = some chain) :
    s.pending.eraseIdx t ++ [chain] ~ s.pending := by
  obtain ⟨hlt, rfl⟩ := List.getElem?_eq_some_iff.mp ht
  exact (List.perm_append_singleton _ _).trans (List.getElem_cons_eraseIdx_perm hlt)

structure Counted (s : State) : Prop where
  nodup : s.pending.Nodup
  started : ∀ chain ∈ s.pending, chain < s.chains

theorem counted_launch (session : DownloadSession.State) : Counted (launch session) :=
  ⟨List.nodup_nil, fun _ h => by cases h⟩

theorem Transition.counted {s s' : State} {e : Event} (h : Transition s e s') (hc : Counted s) :
    Counted s' := by
  cases h with
  | relaunch session => exact counted_launch session
  | session e session he => exact ⟨hc.nodup, hc.started⟩
  | reLoad selectedSegmentIndex => exact ⟨hc.nodup, hc.started⟩
  | start h =>
    have hnew : s.chains ∉ s.pending := fun hm => lt_irrefl _ (hc.started _ hm)
    refine ⟨(List.perm_append_singleton _ _).nodup_iff.mpr (List.nodup_cons.mpr ⟨hnew, hc.nodup⟩),
      fun chain hm => ?_⟩
    rcases List.mem_append.mp hm with hold | hlast
    · exact Nat.lt_succ_of_lt (hc.started chain hold)
    · exact List.mem_singleton.mp hlast ▸ Nat.lt_succ_self s.chains
  | appear h => exact hc
  | again t chain ht h =>
    have hperm := again_perm ht
    exact ⟨hperm.nodup_iff.mpr hc.nodup, fun chain hm => hc.started chain (hperm.mem_iff.mp hm)⟩
  | stop t chain ht h =>
    have hsub := List.eraseIdx_sublist s.pending t
    exact ⟨hc.nodup.sublist hsub, fun chain hm => hc.started chain (hsub.subset hm)⟩

def OneChain (s : State) : Prop := ∀ i ∈ s.pending, ∀ j ∈ s.pending, i = j

instance (s : State) : Decidable (OneChain s) := inferInstanceAs (Decidable (∀ i ∈ s.pending, _))

/-- An appearance that starts a chain finds none in waiting. -/
def StartsAlone (s : State) : Event → Prop
  | .viewWillAppear => s.Starts → s.pending = []
  | _ => True

instance (s : State) : ∀ e, Decidable (StartsAlone s e)
  | .viewWillAppear => inferInstanceAs (Decidable (s.Starts → s.pending = []))
  | .session _ | .reLoad _ | .expire _ => .isTrue trivial

theorem Transition.oneChain_iff {s s' : State} {e : Event} (h : Transition s e s') (hc : Counted s)
    (hone : OneChain s) : OneChain s' ↔ StartsAlone s e := by
  cases h with
  | relaunch session => exact iff_of_true (fun _ h => by cases h) trivial
  | session e session he => exact iff_of_true hone trivial
  | reLoad selectedSegmentIndex => exact iff_of_true hone trivial
  | start h =>
    constructor
    · intro hone' _
      by_contra hne
      obtain ⟨chain, hm⟩ := List.exists_mem_of_ne_nil _ hne
      have heq : chain = s.chains :=
        hone' chain (List.mem_append_left _ hm) s.chains (List.mem_append_right _ List.mem_cons_self)
      exact lt_irrefl _ (heq ▸ hc.started chain hm)
    · intro halone i hi j hj
      change i ∈ s.pending ++ [s.chains] at hi
      change j ∈ s.pending ++ [s.chains] at hj
      rw [halone h, List.nil_append, List.mem_singleton] at hi hj
      exact hi.trans hj.symm
  | appear h => exact iff_of_true hone fun hstarts => absurd hstarts h
  | again t chain ht h =>
    have hperm := again_perm ht
    exact iff_of_true (fun i hi j hj => hone i (hperm.mem_iff.mp hi) j (hperm.mem_iff.mp hj)) trivial
  | stop t chain ht h =>
    have hsub := (List.eraseIdx_sublist s.pending t).subset
    exact iff_of_true (fun i hi j hj => hone i (hsub hi) j (hsub hj)) trivial

theorem Counted.pending_of_oneChain {s : State} (hc : Counted s) (hone : OneChain s) {t chain : ℕ}
    (ht : s.pending[t]? = some chain) : s.pending.eraseIdx t = [] := by
  have hperm := again_perm ht
  have hnodup := hperm.nodup_iff.mpr hc.nodup
  rw [List.eq_nil_iff_forall_not_mem]
  intro other hother
  have heq : other = chain := hone other (hperm.mem_iff.mp (List.mem_append_left _ hother)) chain
    (List.mem_of_getElem? ht)
  exact List.disjoint_of_nodup_append hnodup (heq ▸ hother) List.mem_cons_self

/-- Whether no delay has ended at a time without a download since an appearance last started a
chain. -/
def goesOn (s : State) (before : Bool) : Event → Bool
  | .viewWillAppear => if s.Starts then true else before
  | .expire _ => if s.Downloading then before else false
  | .session .relaunch => false
  | _ => before

/-- An appearance starts a chain only after a delay that ended without a download. -/
def StartsAfterEnd (p : State × Bool) : Event → Prop
  | .viewWillAppear => p.1.Starts → p.2 = false
  | _ => True

instance (p : State × Bool) : ∀ e, Decidable (StartsAfterEnd p e)
  | .viewWillAppear => inferInstanceAs (Decidable (p.1.Starts → p.2 = false))
  | .session _ | .reLoad _ | .expire _ => .isTrue trivial

/-- There is at most one chain in waiting, and there is one as long as it is said to go on. -/
structure Followed (p : State × Bool) : Prop where
  counted : Counted p.1
  one : OneChain p.1
  going : p.2 = false ↔ p.1.pending = []

theorem Followed.startsAlone_iff {p : State × Bool} (h : Followed p) (e : Event) :
    StartsAlone p.1 e ↔ StartsAfterEnd p e := by
  cases e with
  | viewWillAppear => exact imp_congr_right fun _ => h.going.symm
  | _ => exact Iff.rfl

theorem Followed.step {p : State × Bool} (h : Followed p) {e : Event} (hc : StartsAfterEnd p e)
    {s' : State} (ht : Transition p.1 e s') : Followed (s', goesOn p.1 p.2 e) := by
  refine ⟨ht.counted h.counted,
    (ht.oneChain_iff h.counted h.one).mpr ((h.startsAlone_iff e).mpr hc), ?_⟩
  cases ht with
  | relaunch session => exact iff_of_true rfl rfl
  | session e session he =>
    have hsame : goesOn p.1 p.2 (.session e) = p.2 := by
      cases e with
      | relaunch => exact absurd rfl he
      | _ => rfl
    rw [hsame]
    exact h.going
  | reLoad selectedSegmentIndex => exact h.going
  | start hs =>
    dsimp only
    rw [goesOn, if_pos hs]
    exact iff_of_false nofun (List.append_ne_nil_of_right_ne_nil _ (List.cons_ne_nil _ _))
  | appear hs =>
    dsimp only
    rw [goesOn, if_neg hs]
    exact h.going
  | again t chain ht hd =>
    dsimp only
    rw [goesOn, if_pos hd, h.going]
    refine iff_of_false (fun hnil => ?_)
      (List.append_ne_nil_of_right_ne_nil _ (List.cons_ne_nil _ _))
    rw [hnil] at ht
    cases ht
  | stop t chain ht hd =>
    dsimp only
    rw [goesOn, if_neg hd]
    exact iff_of_true rfl (h.counted.pending_of_oneChain h.one ht)

/-- Never more than one chain is in waiting along a run exactly when every appearance that starts a
chain is the first one, or follows a delay that ended, since the last one that did, while nothing was
downloaded. -/
theorem oneRefreshLoop_iff (realm : Realm) (es : List Event) (s : State)
    (hrun : run step (launch (DownloadSession.launch realm)) es = some s) :
    Throughout step OneChain (launch (DownloadSession.launch realm)) es ↔
      Along (logged step goesOn) StartsAfterEnd (launch (DownloadSession.launch realm), false) es := by
  obtain ⟨going, hlogged⟩ := run_logged step goesOn hrun false
  have hinit : Followed (launch (DownloadSession.launch realm), false) :=
    ⟨counted_launch _, fun _ h => (List.not_mem_nil h).elim, iff_of_true rfl rfl⟩
  rw [← throughout_logged step goesOn]
  refine throughout_iff_along (logged step goesOn) (I := Followed) (fun p h => h.one) ?_ ?_ hinit
    hlogged
  · rintro p e ⟨s', going'⟩ h hc hs
    obtain ⟨ht, rfl⟩ := (logged_eq_some step goesOn).mp hs
    exact h.step hc (Transition.of_step ht)
  · rintro p e ⟨s', going'⟩ h hc hs hone
    obtain ⟨ht, -⟩ := (logged_eq_some step goesOn).mp hs
    exact hc ((h.startsAlone_iff e).mp
      (((Transition.of_step ht).oneChain_iff h.counted h.one).mp hone))

def openedTwice : List Event :=
  [.session (.select (some "a")), .session .viewDidLoad, .session (.download 0), .viewWillAppear,
    .expire 0, .viewWillAppear]

def afterOpenedTwice : State :=
  (run step (launch (DownloadSession.launch [])) openedTwice).get (by decide +kernel)

theorem oneRefreshLoop_iff_openedTwice :
    Throughout step OneChain (launch (DownloadSession.launch [])) openedTwice ↔
      Along (logged step goesOn) StartsAfterEnd (launch (DownloadSession.launch []), false)
        openedTwice :=
  oneRefreshLoop_iff [] openedTwice afterOpenedTwice (Option.some_get _).symm

theorem not_oneRefreshLoop : ¬ ∀ (realm : Realm) (es : List Event) (s : State),
    run step (launch (DownloadSession.launch realm)) es = some s → OneChain s := by
  intro h
  have hone := h [] openedTwice afterOpenedTwice (Option.some_get _).symm
  exact absurd hone (by decide +kernel)

section chains
variable {s t : State}

/-- Every appearance during a download starts one more chain: there is no bound on their number. -/
theorem pending_of_appearances (n : ℕ) (hr : s.session.running = true) (h : s.Starts) :
    ∃ t, run step s (List.replicate n .viewWillAppear) = some t ∧
      t.pending = s.pending ++ List.range' s.chains n := by
  induction n generalizing s with
  | zero => exact ⟨s, rfl, (List.append_nil _).symm⟩
  | succ n ih =>
    have hs : step s .viewWillAppear =
        some { s.asyncAfter s.chains with chains := s.chains + 1 } := by
      rw [step, if_pos hr, State.viewWillAppear, if_pos h]
    obtain ⟨t, ht, hpending⟩ :=
      ih (s := { s.asyncAfter s.chains with chains := s.chains + 1 }) hr h
    refine ⟨t, (run_cons_eq_some step).mpr ⟨_, hs, ht⟩, hpending.trans ?_⟩
    rw [List.range'_succ, State.asyncAfter, List.append_assoc]
    rfl

def WhileDownloading (s : State) : Event → Prop
  | .expire _ => s.Downloading
  | .session e => e ≠ .relaunch
  | _ => True

/-- No chain ends as long as something is downloaded. -/
theorem mem_pending_of_downloading {es : List Event} {chain : ℕ}
    (hC : Along step WhileDownloading s es) (hrun : run step s es = some t)
    (hm : chain ∈ s.pending) : chain ∈ t.pending := by
  refine run_invariant step (I := fun s => chain ∈ s.pending) hm ?_ hC hrun
  intro s e s' hm hc hs
  cases Transition.of_step hs with
  | relaunch session => exact absurd rfl hc
  | start h => exact List.mem_append_left _ hm
  | again t chain' ht h => exact (again_perm ht).mem_iff.mpr hm
  | stop t chain' ht h => exact absurd hc h
  | _ => exact hm

/-- When nothing is downloaded any more, every chain ends with its next delay. -/
theorem pending_nil_of_expired (hr : s.session.running = true) (h : ¬ s.Downloading) :
    run step s (List.replicate s.pending.length (.expire 0)) = some { s with pending := [] } := by
  obtain ⟨session, index, pending, chains⟩ := s
  induction pending with
  | nil => rfl
  | cons chain pending ih =>
    have hs : step ⟨session, index, chain :: pending, chains⟩ (.expire 0) =
        some ⟨session, index, pending, chains⟩ := by
      have hstop : ¬ State.Downloading ⟨session, index, pending, chains⟩ := h
      rw [step, if_pos hr, List.getElem?_cons_zero, Option.map_some, List.eraseIdx_cons_zero,
        State.sleepAndReload, if_neg hstop]
    exact (run_cons_eq_some step).mpr ⟨_, hs, ih hr h⟩

end chains

end ComicApp.ShelfRefresh
