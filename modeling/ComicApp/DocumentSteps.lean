import ComicApp.DocumentSession

/-!
# One document of a session

What the session is for a single document: its writes, the commits whose answers are on their way,
its revisions and the cached copy. Every step of the session is one step of this, or leaves it as it is
while time passes.
-/

namespace ComicApp.Firestore
open ComicApp.EventMachine ComicApp.Revisions
variable {κ φ α : Type} [DecidableEq κ]

def own (key : κ) (writes : List (κ × Write φ α)) : List (Write φ α) :=
  writes.filterMap fun write => if write.1 = key then some write.2 else none

def commits (key : κ) (answers : List (Answer κ φ α)) :
    List (Commit (Option (ObjectValue φ α)) (Write φ α)) :=
  answers.filterMap fun a =>
    if a.key = key then a.committed.map fun commit => ⟨commit.1, a.write, commit.2⟩ else none

section Lists
variable {key key' : κ} {w : Write φ α} {writes writes' : List (κ × Write φ α)}
  {answers answers' : List (Answer κ φ α)}

theorem own_nil : own key ([] : List (κ × Write φ α)) = [] := rfl

theorem own_append : own key (writes ++ writes') = own key writes ++ own key writes' :=
  List.filterMap_append

theorem own_cons_self : own key ((key, w) :: writes) = w :: own key writes := by simp [own]

theorem own_cons_other (h : key' ≠ key) : own key ((key', w) :: writes) = own key writes := by
  simp [own, h]

theorem commits_nil : commits key ([] : List (Answer κ φ α)) = [] := rfl

theorem commits_append : commits key (answers ++ answers') = commits key answers ++ commits key answers' :=
  List.filterMap_append

theorem commits_cons_self {version : ℕ} {previous : Option (ObjectValue φ α)} :
    commits key (⟨key, w, some (version, previous)⟩ :: answers) =
      ⟨version, w, previous⟩ :: commits key answers := by
  simp [commits]

theorem commits_cons_other {committed : Option (ℕ × Option (ObjectValue φ α))} (h : key' ≠ key) :
    commits key (⟨key', w, committed⟩ :: answers) = commits key answers := by
  simp [commits, h]

theorem commits_cons_none : commits key (⟨key', w, none⟩ :: answers) = commits key answers := by
  simp [commits]

theorem mem_own : w ∈ own key writes ↔ (key, w) ∈ writes := by
  unfold own
  rw [List.mem_filterMap]
  constructor
  · rintro ⟨⟨key', w'⟩, hmem, hw⟩
    dsimp only at hw
    split_ifs at hw with hkey
    obtain rfl := Option.some.inj hw
    exact hkey ▸ hmem
  · exact fun hmem => ⟨_, hmem, if_pos rfl⟩

/-- The commits are of the writes that are answered. -/
theorem write_of_mem_commits {c : Commit (Option (ObjectValue φ α)) (Write φ α)}
    (h : c ∈ commits key answers) : (key, c.write) ∈ answers.map fun a => (a.key, a.write) := by
  obtain ⟨a, ha, hc⟩ := List.mem_filterMap.mp h
  split_ifs at hc with hkey
  obtain ⟨commit, -, rfl⟩ := Option.map_eq_some_iff.mp hc
  exact List.mem_map.mpr ⟨a, ha, Prod.ext hkey rfl⟩

end Lists

structure Replica (φ α : Type) where
  writes : List (Write φ α)
  confirmed : List (Write φ α)
  commits : List (Commit (Option (ObjectValue φ α)) (Write φ α))
  history : History (Option (ObjectValue φ α))
  clock : ℕ
  cached : Option (MaybeDocument φ α)

def SessionState.replica (key : κ) (s : SessionState κ φ α) : Replica φ α where
  writes := own key s.writes
  confirmed := own key s.confirmed
  commits := Firestore.commits key s.answers
  history := s.documents key
  clock := s.clock
  cached := s.cache key

variable [DecidableEq φ] [DecidableEq α] (server : Server φ α)

inductive ReplicaStep (key : κ) (e : SessionEvent κ φ α) (d : Replica φ α) :
    Replica φ α → Prop where
  | later (clock : ℕ) (hclock : d.clock ≤ clock) : ReplicaStep key e d { d with clock := clock }
  | written (w : Write φ α) (he : e = .write key w) :
      ReplicaStep key e d { d with writes := d.writes ++ [w] }
  | unchanged (w : Write φ α) (hsame : server.commit w d.history.newest.state = d.history.newest.state) :
      ReplicaStep key e d { d with
        commits := d.commits ++ [⟨d.history.newest.version, w, d.history.newest.state⟩] }
  | changed (version : ℕ) (w : Write φ α) (hclock : d.clock < version) :
      ReplicaStep key e d { d with
        commits := d.commits ++ [⟨version, w, d.history.newest.state⟩]
        history := d.history.push ⟨version, server.commit w d.history.newest.state⟩
        clock := version }
  | rejected (w : Write φ α) (writes : List (Write φ α)) (hwrites : d.writes = w :: writes) :
      ReplicaStep key e d { d with writes := writes }
  | acknowledged (c : Commit (Option (ObjectValue φ α)) (Write φ α)) (writes : List (Write φ α))
      (commits : List (Commit (Option (ObjectValue φ α)) (Write φ α)))
      (hwrites : d.writes = c.write :: writes) (hcommits : d.commits = c :: commits) :
      ReplicaStep key e d { d with
        writes := writes
        confirmed := d.confirmed ++ [c.write]
        commits := commits
        cached := server.answered c.version (c.previous.getD fun _ => none) c.write d.cached }
  | found (time version : ℕ) (data : ObjectValue φ α)
      (hrevision : d.history.at_version time = some ⟨version, some data⟩) :
      ReplicaStep key e d { d with
        clock := max d.clock time
        cached := received (.Document data version .kSynced) d.cached }
  | missing (time version : ℕ) (hrevision : d.history.at_version time = some ⟨version, none⟩) :
      ReplicaStep key e d { d with
        clock := max d.clock time
        cached := received (.NoDocument time false) d.cached }
  | elsewhere (document : Option (ObjectValue φ α)) (version : ℕ)
      (he : e = .elsewhere key document version) (hclock : d.clock < version) :
      ReplicaStep key e d { d with
        history := d.history.push ⟨version, document⟩
        clock := version }

variable {server}

omit [DecidableEq κ] in
/-- What is confirmed or waits has been written. -/
theorem ReplicaStep.forall_written {key : κ} {e : SessionEvent κ φ α} {d d' : Replica φ α}
    {C : Write φ α → Prop} (h : ∀ w ∈ d.confirmed ++ d.writes, C w)
    (he : ∀ w, e = .write key w → C w) (hstep : ReplicaStep server key e d d') :
    ∀ w ∈ d'.confirmed ++ d'.writes, C w := by
  cases hstep with
  | written w heq =>
    intro w' hw'
    rw [← List.append_assoc] at hw'
    rcases List.mem_append.mp hw' with hw' | hw'
    · exact h w' hw'
    · obtain rfl := List.mem_singleton.mp hw'
      exact he _ heq
  | rejected w writes hwrites =>
    intro w' hw'
    refine h w' ?_
    rw [hwrites]
    rcases List.mem_append.mp hw' with hw' | hw'
    · exact List.mem_append_left _ hw'
    · exact List.mem_append_right _ (List.mem_cons_of_mem _ hw')
  | acknowledged c writes commits hwrites hcommits =>
    rw [hwrites] at h
    rw [List.append_assoc]
    exact h
  | later clock hclock => exact h
  | unchanged w hsame => exact h
  | changed version w hclock => exact h
  | found time version data hrevision => exact h
  | missing time version hrevision => exact h
  | elsewhere document version heq hclock => exact h

omit [DecidableEq κ] in
/-- Nothing happens to the document. -/
theorem ReplicaStep.same {key : κ} {e : SessionEvent κ φ α} {d : Replica φ α} :
    ReplicaStep server key e d d := .later d.clock (Nat.le_refl _)

namespace SessionState
variable {key : κ} {s s' : SessionState κ φ α} {e : SessionEvent κ φ α}

section Effects
variable {key' : κ} {w : Write φ α} {c : Client κ φ α} {sent : ℕ}

theorem replica_written (hcache : c.local_store.remote_document_cache = s.cache) (key : κ) :
    ReplicaStep server key (.write key' w) (s.replica key) (SessionState.replica key { s with
      client := c
      sent := sent
      writes := s.writes ++ [(key', w)] }) := by
  have hcached : c.local_store.remote_document_cache key = s.cache key := by rw [hcache]
  by_cases hkey : key' = key
  · subst hkey
    have hstep : ReplicaStep server key' (.write key' w) (s.replica key') _ := .written w rfl
    simpa only [SessionState.replica, cache, own_append, own_cons_self, own_nil, hcached] using hstep
  · have hsame : ReplicaStep server key (.write key' w) (s.replica key) _ := .same
    simpa only [SessionState.replica, cache, own_append, own_cons_other hkey, own_nil,
      List.append_nil, hcached] using hsame

theorem replica_changed {version : ℕ} (hclock : s.clock < version) (key : κ) :
    ReplicaStep server key (.commit version) (s.replica key) (SessionState.replica key { s with
      documents := Function.update s.documents key'
        ((s.documents key').push ⟨version, server.commit w (s.documents key').newest.state⟩)
      clock := version
      answers := s.answers ++ [⟨key', w, some (version, (s.documents key').newest.state)⟩] }) := by
  by_cases hkey : key' = key
  · subst hkey
    have hstep : ReplicaStep server key' (.commit version) (s.replica key') _ :=
      .changed version w hclock
    simpa only [SessionState.replica, cache, commits_append, commits_cons_self, commits_nil,
      Function.update_self] using hstep
  · have hlater : ReplicaStep server key (.commit version) (s.replica key) _ :=
      .later version hclock.le
    simpa only [SessionState.replica, cache, commits_append, commits_cons_other hkey, commits_nil,
      List.append_nil, Function.update_of_ne (Ne.symm hkey)] using hlater

theorem replica_rejected {answers : List (Answer κ φ α)} {writes : List (κ × Write φ α)}
    (hanswers : s.answers = ⟨key', w, none⟩ :: answers) (hwrites : s.writes = (key', w) :: writes)
    (hcache : c.local_store.remote_document_cache = s.cache) (key : κ) :
    ReplicaStep server key .reply (s.replica key) (SessionState.replica key { s with
      client := c
      sent := sent
      writes := writes
      answers := answers }) := by
  have hcached : c.local_store.remote_document_cache key = s.cache key := by rw [hcache]
  by_cases hkey : key' = key
  · subst hkey
    have hqueue : (s.replica key').writes = w :: own key' writes := by
      rw [SessionState.replica, hwrites, own_cons_self]
    have hstep : ReplicaStep server key' .reply (s.replica key') _ := .rejected w _ hqueue
    simpa only [SessionState.replica, cache, hanswers, commits_cons_none, hcached] using hstep
  · have hsame : ReplicaStep server key .reply (s.replica key) _ := .same
    simpa only [SessionState.replica, cache, hanswers, hwrites, own_cons_other hkey,
      commits_cons_none, hcached] using hsame

theorem replica_acknowledged {version : ℕ} {previous : Option (ObjectValue φ α)}
    {answers : List (Answer κ φ α)} {writes : List (κ × Write φ α)}
    (hanswers : s.answers = ⟨key', w, some (version, previous)⟩ :: answers)
    (hwrites : s.writes = (key', w) :: writes)
    (hcache : c.local_store.remote_document_cache = Function.update s.cache key'
      (server.answered version (previous.getD fun _ => none) w (s.cache key'))) (key : κ) :
    ReplicaStep server key .reply (s.replica key) (SessionState.replica key { s with
      client := c
      sent := sent
      writes := writes
      confirmed := s.confirmed ++ [(key', w)]
      answers := answers }) := by
  by_cases hkey : key' = key
  · subst hkey
    have hqueue : (s.replica key').writes = w :: own key' writes := by
      rw [SessionState.replica, hwrites, own_cons_self]
    have hcommits : (s.replica key').commits = ⟨version, w, previous⟩ :: commits key' answers := by
      rw [SessionState.replica, hanswers, commits_cons_self]
    have hstep : ReplicaStep server key' .reply (s.replica key') _ :=
      .acknowledged ⟨version, w, previous⟩ _ _ hqueue hcommits
    have hcached : c.local_store.remote_document_cache key' =
        server.answered version (previous.getD fun _ => none) w (s.cache key') := by
      rw [hcache, Function.update_self]
    simpa only [SessionState.replica, cache, own_append, own_cons_self, own_nil, hcached] using hstep
  · have hcached : c.local_store.remote_document_cache key = s.cache key := by
      rw [hcache, Function.update_of_ne (Ne.symm hkey)]
    have hsame : ReplicaStep server key .reply (s.replica key) _ := .same
    simpa only [SessionState.replica, cache, hanswers, hwrites, own_append, own_cons_other hkey,
      own_nil, List.append_nil, commits_cons_other hkey, hcached] using hsame

/-- A snapshot shows in its own document only. -/
theorem replica_watched {time : ℕ} {doc : MaybeDocument φ α}
    (hcache : c.local_store.remote_document_cache =
      Function.update s.cache key' (received doc (s.cache key'))) (key : κ)
    (hown : key' = key → ReplicaStep server key e (s.replica key) { s.replica key with
      clock := max s.clock time
      cached := received doc (s.cache key) }) :
    ReplicaStep server key e (s.replica key) (SessionState.replica key { s with
      client := c
      clock := max s.clock time }) := by
  by_cases hkey : key' = key
  · have hcached : c.local_store.remote_document_cache key = received doc (s.cache key) := by
      rw [hcache, hkey, Function.update_self]
    simpa only [SessionState.replica, cache, hcached] using hown hkey
  · have hcached : c.local_store.remote_document_cache key = s.cache key := by
      rw [hcache, Function.update_of_ne (Ne.symm hkey)]
    have hlater : ReplicaStep server key e (s.replica key) _ :=
      .later _ (Nat.le_max_left s.clock time)
    simpa only [SessionState.replica, cache, hcached] using hlater

theorem replica_elsewhere {document : Option (ObjectValue φ α)} {version : ℕ}
    (hclock : s.clock < version) (key : κ) :
    ReplicaStep server key (.elsewhere key' document version) (s.replica key)
      (SessionState.replica key { s with
        documents := Function.update s.documents key' ((s.documents key').push ⟨version, document⟩)
        clock := version }) := by
  by_cases hkey : key' = key
  · subst hkey
    have hstep : ReplicaStep server key' (.elsewhere key' document version) (s.replica key') _ :=
      .elsewhere document version rfl hclock
    simpa only [SessionState.replica, cache, Function.update_self] using hstep
  · have hlater : ReplicaStep server key (.elsewhere key' document version) (s.replica key) _ :=
      .later version hclock.le
    simpa only [SessionState.replica, cache, Function.update_of_ne (Ne.symm hkey)] using hlater

end Effects

/-- A step of the session is a step of each document. -/
theorem Effect.replica (h : Effect server s e s') (key : κ) :
    ReplicaStep server key e (s.replica key) (s'.replica key) := by
  have hsame : ReplicaStep server key e (s.replica key) (s.replica key) := .same
  cases h with
  | write key' w c sent hcache => exact replica_written hcache key
  | unchanged key' w hnext hcommit =>
    by_cases hkey : key' = key
    · subst hkey
      have hstep : ReplicaStep server key' (.commit (s.documents key').newest.version)
        (s.replica key') _ := .unchanged w hcommit
      simpa only [SessionState.replica, cache, commits_append, commits_cons_self, commits_nil] using hstep
    · simpa only [SessionState.replica, cache, commits_append, commits_cons_other hkey, commits_nil,
        List.append_nil] using hsame
  | changed version key' w hnext hclock => exact replica_changed hclock key
  | refused e key' w hnext =>
    simpa only [SessionState.replica, cache, commits_append, commits_cons_none, commits_nil,
      List.append_nil] using hsame
  | rejected key' w answers writes c sent hanswers hwrites hcache =>
    exact replica_rejected hanswers hwrites hcache key
  | acknowledged key' w version previous answers writes c sent hanswers hwrites hcache =>
    exact replica_acknowledged hanswers hwrites hcache key
  | found key' time version data c hrevision hcache =>
    refine replica_watched hcache key ?_
    rintro rfl
    exact .found time version data hrevision
  | missing key' time version c hrevision hcache =>
    refine replica_watched hcache key ?_
    rintro rfl
    exact .missing time version hrevision
  | elsewhere key' document version hclock => exact replica_elsewhere hclock key
  | network e c sent hcache =>
    have hcached : c.local_store.remote_document_cache key = s.cache key := by rw [hcache]
    simpa only [SessionState.replica, cache, hcached] using hsame

theorem written_of_run [DecidableEq (ObjectValue φ α)] {backend : Backend κ φ α}
    {es : List (SessionEvent κ φ α)} {C : Write φ α → Prop}
    (hwrites : ∀ w, .write key w ∈ es → C w) (hrun : run (step server) (launch backend) es = some s) :
    ∀ w ∈ own key s.confirmed ++ own key s.writes, C w := by
  have hevents : ∀ e ∈ es, ∀ w, e = .write key w → C w := by
    rintro e he w rfl
    exact hwrites w he
  refine (run_invariant (step server)
    (I := fun s => s.Sound ∧ ∀ w ∈ (s.replica key).confirmed ++ (s.replica key).writes, C w)
    ⟨sound_launch backend, by rintro w ⟨⟩⟩ (fun s e s' h he hs => ?_)
    (along_of_forall_mem (step server) hevents) hrun).2
  obtain ⟨hsound', heffect⟩ := h.1.step hs
  exact ⟨hsound', (heffect.replica key).forall_written h.2 he⟩

end SessionState

end ComicApp.Firestore
