import ComicApp.NewestSnapshot

/-!
# The unanswered writes can be answered

The network and the backend can always go on until no write waits: the client has sent the first of
them as soon as the network is enabled, and takes the answer to it. Then a snapshot shows the document
of the backend.
-/

namespace ComicApp.Firestore
open ComicApp.EventMachine ComicApp.Revisions
variable {κ φ α : Type} [DecidableEq κ] [DecidableEq φ] [DecidableEq α] {server : Server φ α}

/-- The event brings no write and no refusal, and the client stays connected. -/
def SessionEvent.Settles : SessionEvent κ φ α → Prop
  | .commit _ | .reply | .watch _ _ | .enableNetwork => True
  | .write _ _ | .deny | .elsewhere _ _ _ | .disableNetwork | .restart => False

namespace SessionState
variable {key : κ} {w : Write φ α} {s : SessionState κ φ α} {writes : List (κ × Write φ α)}

omit [DecidableEq κ] [DecidableEq φ] [DecidableEq α] in
theorem after_writes (s : SessionState κ φ α) (client : Option (Client κ φ α)) :
    (s.after client).writes = s.writes := by
  cases client <;> rfl

omit [DecidableEq κ] [DecidableEq α] in
/-- What waits is sent while the network is enabled. -/
theorem Sound.pipeline_ne_nil (h : s.Sound) (hwrites : s.writes = (key, w) :: writes)
    (henabled : s.client.is_network_enabled = true) : s.client.write_pipeline ≠ [] := by
  have hbatches := h.holds.batches
  have hpipeline := h.holds.pipeline
  rw [hwrites] at hbatches
  rw [henabled, if_pos rfl] at hpipeline
  cases hqueue : s.client.local_store.mutation_queue with
  | nil =>
    rw [hqueue] at hbatches
    cases hbatches
  | cons b bs =>
    rw [hpipeline, hqueue]
    exact List.cons_ne_nil _ _

/-- An answer that waits is taken. -/
theorem exists_reply (hwrites : s.writes = (key, w) :: writes)
    (hpipeline : s.client.write_pipeline ≠ []) (hanswers : s.answers ≠ []) :
    ∃ t, s.reply server = some t ∧ t.writes = writes := by
  unfold SessionState.reply
  cases hcons : s.answers with
  | nil => exact absurd hcons hanswers
  | cons a answers =>
    dsimp only
    rw [if_neg hpipeline]
    cases a.committed with
    | none => exact ⟨_, rfl, (after_writes _ _).trans (by rw [hwrites, List.tail_cons])⟩
    | some commit => exact ⟨_, rfl, (after_writes _ _).trans (by rw [hwrites, List.tail_cons])⟩

section Run
variable [DecidableEq (ObjectValue φ α)]

/-- The backend commits a write at some version, or refuses to. -/
theorem exists_commit (server : Server φ α) (s : SessionState κ φ α) (key : κ) (w : Write φ α) :
    ∃ version t, s.commit server version key w = some t := by
  unfold SessionState.commit
  dsimp only
  cases server.commit w (s.documents key).newest.state with
  | none => exact ⟨0, _, rfl⟩
  | some data =>
    dsimp only
    by_cases hsame : (s.documents key).newest.state = some data
    · exact ⟨(s.documents key).newest.version, _, by rw [if_pos hsame, if_pos rfl]⟩
    · exact ⟨s.clock + 1, _, by rw [if_neg hsame, if_pos (Nat.lt_succ_self _)]⟩

theorem commit_kept {version : ℕ} {t : SessionState κ φ α} (h : s.commit server version key w = some t) :
    t.client = s.client ∧ t.writes = s.writes ∧ t.answers ≠ [] := by
  have hne (a : Answer κ φ α) : s.answers ++ [a] ≠ [] := List.append_ne_nil_of_right_ne_nil _ (by simp)
  unfold SessionState.commit at h
  dsimp only at h
  cases hcommit : server.commit w (s.documents key).newest.state with
  | none =>
    rw [hcommit] at h
    obtain rfl := Option.some.inj h
    exact ⟨rfl, rfl, hne _⟩
  | some data =>
    rw [hcommit] at h
    dsimp only at h
    split_ifs at h <;> obtain rfl := Option.some.inj h <;> exact ⟨rfl, rfl, hne _⟩

/-- The first write that waits can be answered. -/
theorem Sound.answer_first (h : s.Sound) {write : κ × Write φ α} (hwrites : s.writes = write :: writes) :
    ∃ es t, (∀ e ∈ es, SessionEvent.Settles e) ∧ run (SessionState.step server) s es = some t ∧
      t.writes = writes := by
  obtain ⟨key, w⟩ := write
  let online := s.after (some s.client.EnableNetwork)
  have honline : s.step server .enableNetwork = some online := by
    rw [SessionState.step, if_pos h.running]
  have hsound := (h.step honline).1
  have hwrites' : online.writes = (key, w) :: writes := hwrites
  have hpipeline := hsound.pipeline_ne_nil hwrites' rfl
  by_cases hanswers : online.answers = []
  · have hnext : online.next = some (key, w) := by
      have hsent := hsound.sent
      have hpos := List.length_pos_iff.mpr hpipeline
      unfold SessionState.next
      rw [hanswers, hwrites', if_pos (by rw [List.length_nil]; omega)]
      rfl
    obtain ⟨version, t, hcommit⟩ := exists_commit server online key w
    obtain ⟨hclient, hqueue, hanswered⟩ := commit_kept hcommit
    obtain ⟨u, hreply, hrest⟩ :=
      exists_reply (hqueue.trans hwrites') (hclient ▸ hpipeline) hanswered
    have hstep : online.step server (.commit version) = some t := by
      rw [SessionState.step, hnext, Option.bind_some, hcommit]
    have hsound' := (hsound.step hstep).1
    have hstep' : t.step server .reply = some u := by rw [SessionState.step, if_pos hsound'.running, hreply]
    refine ⟨[.enableNetwork, .commit version, .reply], u, ?_, ?_, hrest⟩
    · simp [SessionEvent.Settles]
    · simp [run, honline, hstep, hstep']
  · obtain ⟨u, hreply, hrest⟩ := exists_reply hwrites' hpipeline hanswers
    have hstep' : online.step server .reply = some u := by
      rw [SessionState.step, if_pos hsound.running, hreply]
    refine ⟨[.enableNetwork, .reply], u, ?_, ?_, hrest⟩
    · simp [SessionEvent.Settles]
    · simp [run, honline, hstep']

theorem Sound.drains (h : s.Sound) :
    ∃ es t, (∀ e ∈ es, SessionEvent.Settles e) ∧ run (SessionState.step server) s es = some t ∧
      t.writes = [] := by
  obtain ⟨writes, hwrites⟩ : ∃ writes, s.writes = writes := ⟨_, rfl⟩
  induction writes generalizing s with
  | nil => exact ⟨[], s, by simp, rfl, hwrites⟩
  | cons write writes ih =>
    obtain ⟨es, t, hes, hrun, hrest⟩ := h.answer_first hwrites
    obtain ⟨fs, u, hfs, hrun', hempty⟩ := ih (h.reached hrun) hrest
    refine ⟨es ++ fs, u, fun e he => ?_, ?_, hempty⟩
    · rcases List.mem_append.mp he with he | he
      · exact hes e he
      · exact hfs e he
    · rw [run_append, hrun, Option.bind_some, hrun']

/-- A snapshot can always show the last revision. -/
theorem Sound.exists_watch (h : s.Sound) (key : κ) :
    ∃ time t, (s.documents key).newest.version ≤ time ∧ s.step server (.watch key time) = some t ∧
      t.writes = s.writes ∧ t.documents = s.documents := by
  have htime := Nat.le_max_left (s.documents key).newest.version 1
  have hpos := Nat.lt_of_lt_of_le Nat.one_pos (Nat.le_max_right (s.documents key).newest.version 1)
  refine ⟨max (s.documents key).newest.version 1, ?_⟩
  unfold SessionState.step SessionState.watch
  dsimp only
  rw [if_pos h.running, if_pos hpos, History.at_version_newest htime]
  exact ⟨_, htime, rfl, rfl, rfl⟩

/-- From every state that a session reaches, the network and the backend alone can bring it to a state
in which no write waits and the document is shown as the backend has it. -/
theorem writes_drain {backend : Backend κ φ α} {es : List (SessionEvent κ φ α)}
    (hrun : run (step server) (launch backend) es = some s) (key : κ) :
    ∃ fs t, (∀ e ∈ fs, SessionEvent.Settles e) ∧ run (step server) s fs = some t ∧
      t.client.local_store.mutation_queue = [] ∧
      ∃ doc, t.client.local_store.GetDocument key = some doc ∧
        contents doc = (t.documents key).newest.state := by
  have hsound := sound_of_run hrun
  obtain ⟨fs, t, hfs, hdrained, hempty⟩ := hsound.drains
  have htotal : run (step server) (launch backend) (es ++ fs) = some t := by
    rw [run_append, hrun, Option.bind_some, hdrained]
  have hsound' := hsound.reached hdrained
  obtain ⟨time, u, htime, hwatch, hwrites, hdocuments⟩ := hsound'.exists_watch key
  obtain ⟨doc, hdoc, -, hidle⟩ := view_watch hsound' (behind_of_run htotal key) htime hwatch
  have hnone : u.writes = [] := hwrites.trans hempty
  have hbatches := (hsound'.step hwatch).1.holds.batches
  rw [hnone] at hbatches
  refine ⟨fs ++ [.watch key time], u, fun e he => ?_, ?_, ?_, doc, hidle ?_, ?_⟩
  · rcases List.mem_append.mp he with he | he
    · exact hfs e he
    · obtain rfl := List.mem_singleton.mp he
      trivial
  · rw [run_append, hdrained, Option.bind_some, run, hwatch, Option.bind_some, run_nil]
  · cases hqueue : u.client.local_store.mutation_queue with
    | nil => rfl
    | cons b bs =>
      rw [hqueue] at hbatches
      cases hbatches
  · rw [hnone]
    rfl
  · rw [hdoc, hdocuments]

end Run

/-- One write is committed but not answered and another has not been sent. -/
theorem writes_drain_offline :
    let backend : Backend ℕ Bool ℕ := ⟨7, fun _ => ⟨5, some fun _ => none⟩, fun _ => by decide⟩
    let union : Write Bool ℕ := .updateData
      (AList.singleton true (.transform (.ArrayUnion [.other 4])))
    let es : List (SessionEvent ℕ Bool ℕ) := [.write 1 union, .commit 9, .disableNetwork,
      .write 1 union, .elsewhere 1 (some fun _ => none) 10]
    ∃ s, run (step .documented) (launch backend) es = some s ∧ s.writes.length = 2 ∧
      ∃ fs t, (∀ e ∈ fs, SessionEvent.Settles e) ∧ run (step .documented) s fs = some t ∧
        t.client.local_store.mutation_queue = [] ∧
        ∃ doc, t.client.local_store.GetDocument 1 = some doc ∧
          contents doc = (t.documents 1).newest.state := by
  intro backend union es
  have hreached : (run (step .documented) (launch backend) es).map (fun s => s.writes.length) = some 2 := by
    decide +kernel
  obtain ⟨s, hrun, hlength⟩ := Option.map_eq_some_iff.mp hreached
  exact ⟨s, hrun, hlength, writes_drain hrun 1⟩

end SessionState

end ComicApp.Firestore
