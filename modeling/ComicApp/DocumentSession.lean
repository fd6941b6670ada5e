import ComicApp.ClientSteps
import ComicApp.EventMachine
import ComicApp.Revisions
import Mathlib.Data.Fintype.Basic

/-!
# The client and the backend

The machine of the client, the backend and what is on the way between them. The backend takes the
writes that have been sent in their order, each once, and answers in this order; an answer waits while
the network is off. It may refuse a write, other devices may change a document, and a snapshot of a
document may come late. Where an assertion of the client fails, the client stops running; this never
happens.
-/

namespace ComicApp.Firestore
open ComicApp.EventMachine ComicApp.Revisions
variable {κ φ α : Type}

structure Backend (κ φ α : Type) where
  clock : ℕ
  documents : κ → Revision (Option (ObjectValue φ α))
  before_clock : ∀ key, (documents key).version ≤ clock

/-- An answer to a write: the version of its commit and the document before, or a permanent error. -/
structure Answer (κ φ α : Type) where
  key : κ
  write : Write φ α
  committed : Option (ℕ × Option (ObjectValue φ α))

structure SessionState (κ φ α : Type) where
  client : Client κ φ α
  running : Bool
  /-- The writes that the client has no answer to. -/
  writes : List (κ × Write φ α)
  /-- How many of these have been sent. -/
  sent : ℕ
  /-- The writes that the client knows to be committed. -/
  confirmed : List (κ × Write φ α)
  documents : κ → History (Option (ObjectValue φ α))
  clock : ℕ
  answers : List (Answer κ φ α)

inductive SessionEvent (κ φ α : Type) where
  | write (key : κ) (w : Write φ α)
  | commit (version : ℕ)
  | deny
  | reply
  | watch (key : κ) (time : ℕ)
  | elsewhere (key : κ) (document : Option (ObjectValue φ α)) (version : ℕ)
  | disableNetwork
  | enableNetwork
  | restart

namespace SessionState

def launch (backend : Backend κ φ α) : SessionState κ φ α where
  client := ⟨⟨[], [], 1, fun _ => none⟩, [], true⟩
  running := true
  writes := []
  sent := 0
  confirmed := []
  documents key := ⟨backend.documents key, []⟩
  clock := backend.clock
  answers := []

def after (s : SessionState κ φ α) : Option (Client κ φ α) → SessionState κ φ α
  | none => { s with running := false }
  | some client => { s with
      client := client
      sent := max s.sent client.write_pipeline.length }

def next (s : SessionState κ φ α) : Option (κ × Write φ α) :=
  if s.answers.length < s.sent then s.writes[s.answers.length]? else none

variable [DecidableEq κ] [DecidableEq φ] [DecidableEq α] (server : Server φ α)

/-- The backend commits a write at a new version, or at the old one if it changes nothing, or refuses
to update a missing document. -/
def commit [DecidableEq (ObjectValue φ α)] (s : SessionState κ φ α) (version : ℕ) (key : κ)
    (w : Write φ α) : Option (SessionState κ φ α) :=
  let newest := (s.documents key).newest
  let answers := s.answers ++ [⟨key, w, some (version, newest.state)⟩]
  match server.commit w newest.state with
  | none => some { s with answers := s.answers ++ [⟨key, w, none⟩] }
  | some data =>
    if newest.state = some data then
      if version = newest.version then some { s with answers := answers } else none
    else if s.clock < version then
      some { s with
        documents := Function.update s.documents key ((s.documents key).push ⟨version, some data⟩)
        clock := version
        answers := answers }
    else none

def reply (s : SessionState κ φ α) : Option (SessionState κ φ α) :=
  match s.answers with
  | [] => none
  | answer :: answers =>
    if s.client.write_pipeline = [] then none
    else
      let s' := { s with answers := answers, writes := s.writes.tail, sent := s.sent - 1 }
      match answer.committed with
      | none => some (s'.after s.client.HandleWriteError)
      | some (version, previous) =>
        let results := server.results answer.write version (previous.getD fun _ => none)
        some ({ s' with confirmed := s.confirmed ++ [(answer.key, answer.write)] }.after
          (s.client.OnWriteStreamMutationResult results))

def ApplyRemoteEvent (s : SessionState κ φ α) (key : κ) (doc : MaybeDocument φ α) : SessionState κ φ α :=
  { s with client := { s.client with local_store := s.client.local_store.applyDocumentUpdate key doc } }

/-- A snapshot of some time shows the revision of a document at this time. A missing document has the
version of the snapshot. -/
def watch (s : SessionState κ φ α) (key : κ) (time : ℕ) : Option (SessionState κ φ α) :=
  if 0 < time then
    ((s.documents key).at_version time).map fun revision =>
      let doc := match revision.state with
        | some data => .Document data revision.version .kSynced
        | none => .NoDocument time false
      { s.ApplyRemoteEvent key doc with clock := max s.clock time }
  else none

/-- Nothing happens any more once the client has stopped. -/
def step [DecidableEq (ObjectValue φ α)] (s : SessionState κ φ α) :
    SessionEvent κ φ α → Option (SessionState κ φ α)
  | .write key w =>
    if s.running then
      some ({ s with writes := s.writes ++ [(key, w)] }.after
        (s.client.WriteMutations (w.ToMutations key)))
    else none
  | .commit version => s.next.bind fun write => s.commit server version write.1 write.2
  | .deny => s.next.map fun write =>
      { s with answers := s.answers ++ [⟨write.1, write.2, none⟩] }
  | .reply => if s.running then s.reply server else none
  | .watch key time => if s.running then s.watch key time else none
  | .elsewhere key document version =>
    if s.clock < version then
      some { s with
        documents := Function.update s.documents key ((s.documents key).push ⟨version, document⟩)
        clock := version }
    else none
  | .disableNetwork => if s.running then some (s.after (some s.client.DisableNetwork)) else none
  | .enableNetwork => if s.running then some (s.after (some s.client.EnableNetwork)) else none
  | .restart => if s.running then some (s.after (some s.client.restart)) else none

def cache (s : SessionState κ φ α) : κ → Option (MaybeDocument φ α) :=
  s.client.local_store.remote_document_cache

/-- The client runs, its queue holds the writes, the answers on their way are for the first of these,
and the pipeline has been sent. -/
structure Sound (s : SessionState κ φ α) : Prop where
  running : s.running = true
  holds : s.client.Holds s.writes
  answered : (s.answers.map fun a => (a.key, a.write)) <+: s.writes
  sent : s.client.write_pipeline.length ≤ s.sent

inductive Effect (s : SessionState κ φ α) : SessionEvent κ φ α → SessionState κ φ α → Prop where
  | write (key : κ) (w : Write φ α) (c : Client κ φ α) (sent : ℕ)
      (hcache : c.local_store.remote_document_cache = s.cache) :
      Effect s (.write key w) { s with
        client := c
        sent := sent
        writes := s.writes ++ [(key, w)] }
  | unchanged (key : κ) (w : Write φ α) (hnext : s.next = some (key, w))
      (hsame : server.commit w (s.documents key).newest.state = (s.documents key).newest.state) :
      Effect s (.commit (s.documents key).newest.version) { s with
        answers := s.answers ++
          [⟨key, w, some ((s.documents key).newest.version, (s.documents key).newest.state)⟩] }
  | changed (version : ℕ) (key : κ) (w : Write φ α) (hnext : s.next = some (key, w))
      (hclock : s.clock < version) :
      Effect s (.commit version) { s with
        documents := Function.update s.documents key
          ((s.documents key).push ⟨version, server.commit w (s.documents key).newest.state⟩)
        clock := version
        answers := s.answers ++ [⟨key, w, some (version, (s.documents key).newest.state)⟩] }
  | refused (e : SessionEvent κ φ α) (key : κ) (w : Write φ α) (hnext : s.next = some (key, w)) :
      Effect s e { s with answers := s.answers ++ [⟨key, w, none⟩] }
  | rejected (key : κ) (w : Write φ α) (answers : List (Answer κ φ α)) (writes : List (κ × Write φ α))
      (c : Client κ φ α) (sent : ℕ) (hanswers : s.answers = ⟨key, w, none⟩ :: answers)
      (hwrites : s.writes = (key, w) :: writes)
      (hcache : c.local_store.remote_document_cache = s.cache) :
      Effect s .reply { s with
        client := c
        sent := sent
        writes := writes
        answers := answers }
  | acknowledged (key : κ) (w : Write φ α) (version : ℕ) (previous : Option (ObjectValue φ α))
      (answers : List (Answer κ φ α)) (writes : List (κ × Write φ α)) (c : Client κ φ α) (sent : ℕ)
      (hanswers : s.answers = ⟨key, w, some (version, previous)⟩ :: answers)
      (hwrites : s.writes = (key, w) :: writes)
      (hcache : c.local_store.remote_document_cache = Function.update s.cache key
        (server.answered version (previous.getD fun _ => none) w (s.cache key))) :
      Effect s .reply { s with
        client := c
        sent := sent
        writes := writes
        confirmed := s.confirmed ++ [(key, w)]
        answers := answers }
  | found (key : κ) (time : ℕ) (version : ℕ) (data : ObjectValue φ α) (c : Client κ φ α)
      (hrevision : (s.documents key).at_version time = some ⟨version, some data⟩)
      (hcache : c.local_store.remote_document_cache = Function.update s.cache key
        (received (.Document data version .kSynced) (s.cache key))) :
      Effect s (.watch key time) { s with
        client := c
        clock := max s.clock time }
  | missing (key : κ) (time : ℕ) (version : ℕ) (c : Client κ φ α)
      (hrevision : (s.documents key).at_version time = some ⟨version, none⟩)
      (hcache : c.local_store.remote_document_cache = Function.update s.cache key
        (received (.NoDocument time false) (s.cache key))) :
      Effect s (.watch key time) { s with
        client := c
        clock := max s.clock time }
  | elsewhere (key : κ) (document : Option (ObjectValue φ α)) (version : ℕ) (hclock : s.clock < version) :
      Effect s (.elsewhere key document version) { s with
        documents := Function.update s.documents key ((s.documents key).push ⟨version, document⟩)
        clock := version }
  | network (e : SessionEvent κ φ α) (c : Client κ φ α) (sent : ℕ)
      (hcache : c.local_store.remote_document_cache = s.cache) :
      Effect s e { s with
        client := c
        sent := sent }

variable {server} {s s' : SessionState κ φ α} {e : SessionEvent κ φ α}

omit [DecidableEq κ] [DecidableEq φ] [DecidableEq α] in
theorem mem_of_next {write : κ × Write φ α} (h : s.next = some write) :
    s.writes[s.answers.length]? = some write := by
  unfold next at h
  split_ifs at h
  exact h

omit [DecidableEq κ] [DecidableEq α] in
/-- One more write is answered. -/
theorem Sound.answer (h : s.Sound) {key : κ} {w : Write φ α} (hnext : s.next = some (key, w))
    (committed : Option (ℕ × Option (ObjectValue φ α))) :
    ((s.answers ++ [Answer.mk key w committed]).map fun a => (a.key, a.write)) <+: s.writes := by
  obtain ⟨rest, hrest⟩ := h.answered
  have hget := mem_of_next hnext
  rw [← hrest, List.getElem?_append_right (by simp), List.length_map, Nat.sub_self] at hget
  rw [← hrest, List.map_append]
  cases rest with
  | nil => cases hget
  | cons write rest =>
    obtain rfl := Option.some.inj hget
    exact ⟨rest, by simp⟩

omit [DecidableEq κ] [DecidableEq α] in
/-- The first answer is for the first write. -/
theorem Sound.first (h : s.Sound) {a : Answer κ φ α} {answers : List (Answer κ φ α)}
    (hanswers : s.answers = a :: answers) : ∃ writes, s.writes = (a.key, a.write) :: writes ∧
      (answers.map fun a => (a.key, a.write)) <+: writes := by
  obtain ⟨rest, hrest⟩ := h.answered
  rw [hanswers] at hrest
  exact ⟨_, hrest.symm, List.prefix_append _ _⟩

theorem Sound.reply (h : s.Sound) (hs : s.reply server = some s') : s'.Sound ∧ Effect server s .reply s' := by
  unfold SessionState.reply at hs
  cases hanswers : s.answers with
  | nil => rw [hanswers] at hs; cases hs
  | cons answer answers =>
    obtain ⟨writes, hwrites, hanswered⟩ := h.first hanswers
    have hholds := h.holds
    rw [hwrites] at hholds
    rw [hanswers] at hs
    dsimp only at hs
    split_ifs at hs with hpipeline
    obtain ⟨key, w, committed⟩ := answer
    cases committed with
    | none =>
      obtain ⟨c, hc, hholds, hcache⟩ := hholds.rejected hpipeline
      simp only [hc, hwrites, Option.some.injEq] at hs
      subst hs
      exact ⟨⟨h.running, hholds, hanswered, Nat.le_max_right _ _⟩,
        .rejected key w answers writes c _ hanswers hwrites hcache⟩
    | some commit =>
      obtain ⟨version, previous⟩ := commit
      obtain ⟨c, hc, hholds, hcache⟩ :=
        hholds.acknowledged hpipeline server version (previous.getD fun _ => none)
      simp only [hc, hwrites, Option.some.injEq] at hs
      subst hs
      exact ⟨⟨h.running, hholds, hanswered, Nat.le_max_right _ _⟩,
        .acknowledged key w version previous answers writes c _ hanswers hwrites hcache⟩

theorem Sound.watch (h : s.Sound) {key : κ} {time : ℕ} (hs : s.watch key time = some s') :
    s'.Sound ∧ Effect server s (.watch key time) s' := by
  unfold SessionState.watch at hs
  split_ifs at hs with htime
  obtain ⟨⟨version, document⟩, hrevision, rfl⟩ := Option.map_eq_some_iff.mp hs
  cases document with
  | none =>
    have hdoc : ∀ b, MaybeDocument.NoDocument (φ := φ) (α := α) time false ≠ .NoDocument 0 b := by
      rintro b heq
      cases heq
      exact absurd htime (Nat.lt_irrefl 0)
    refine ⟨⟨h.running, h.holds.update key hdoc, h.answered, h.sent⟩, .missing key time version _ hrevision ?_⟩
    exact congrArg _ (applyDocumentUpdate_eq s.client.local_store key hdoc)
  | some data =>
    have hdoc : ∀ b, MaybeDocument.Document data version .kSynced ≠ .NoDocument 0 b := by
      rintro b ⟨⟩
    refine ⟨⟨h.running, h.holds.update key hdoc, h.answered, h.sent⟩, .found key time version data _ hrevision ?_⟩
    exact congrArg _ (applyDocumentUpdate_eq s.client.local_store key hdoc)

section Step
variable [DecidableEq (ObjectValue φ α)]

theorem Sound.commit (h : s.Sound) {version : ℕ} {key : κ} {w : Write φ α}
    (hnext : s.next = some (key, w)) (hs : s.commit server version key w = some s') :
    s'.Sound ∧ Effect server s (.commit version) s' := by
  unfold SessionState.commit at hs
  dsimp only at hs
  cases hcommit : server.commit w (s.documents key).newest.state with
  | none =>
    rw [hcommit] at hs
    obtain rfl := Option.some.inj hs
    exact ⟨⟨h.running, h.holds, h.answer hnext none, h.sent⟩, .refused _ key w hnext⟩
  | some data =>
    rw [hcommit] at hs
    dsimp only at hs
    split_ifs at hs with hsame hversion hclock
    · obtain rfl := Option.some.inj hs
      subst hversion
      exact ⟨⟨h.running, h.holds, h.answer hnext _, h.sent⟩, .unchanged key w hnext (hcommit.trans hsame.symm)⟩
    · obtain rfl := Option.some.inj hs
      refine ⟨⟨h.running, h.holds, h.answer hnext _, h.sent⟩, ?_⟩
      rw [← hcommit]
      exact .changed version key w hnext hclock

/-- A step keeps the client sound and has one of the effects. -/
theorem Sound.step (h : s.Sound) (hs : s.step server e = some s') : s'.Sound ∧ Effect server s e s' := by
  cases e with
  | write key w =>
    obtain ⟨c, hc, hholds, hcache⟩ := h.holds.write key w
    rw [SessionState.step, if_pos h.running, hc] at hs
    obtain rfl := Option.some.inj hs
    have hanswered := h.answered.trans (List.prefix_append s.writes [(key, w)])
    exact ⟨⟨h.running, hholds, hanswered, Nat.le_max_right _ _⟩, .write key w c _ hcache⟩
  | commit version =>
    obtain ⟨⟨key, w⟩, hnext, hs⟩ := Option.bind_eq_some_iff.mp hs
    exact h.commit hnext hs
  | deny =>
    obtain ⟨⟨key, w⟩, hnext, rfl⟩ := Option.map_eq_some_iff.mp hs
    exact ⟨⟨h.running, h.holds, h.answer hnext none, h.sent⟩, .refused _ key w hnext⟩
  | reply =>
    rw [SessionState.step, if_pos h.running] at hs
    exact h.reply hs
  | watch key time =>
    rw [SessionState.step, if_pos h.running] at hs
    exact h.watch hs
  | elsewhere key document version =>
    unfold SessionState.step at hs
    dsimp only at hs
    split_ifs at hs with hclock
    obtain rfl := Option.some.inj hs
    exact ⟨⟨h.running, h.holds, h.answered, h.sent⟩, .elsewhere key document version hclock⟩
  | disableNetwork =>
    rw [SessionState.step, if_pos h.running] at hs
    obtain rfl := Option.some.inj hs
    exact ⟨⟨h.running, h.holds.disabled, h.answered, Nat.le_max_right _ _⟩, .network _ _ _ rfl⟩
  | enableNetwork =>
    rw [SessionState.step, if_pos h.running] at hs
    obtain rfl := Option.some.inj hs
    exact ⟨⟨h.running, h.holds.enabled, h.answered, Nat.le_max_right _ _⟩, .network _ _ _ rfl⟩
  | restart =>
    rw [SessionState.step, if_pos h.running] at hs
    obtain rfl := Option.some.inj hs
    exact ⟨⟨h.running, h.holds.restart, h.answered, Nat.le_max_right _ _⟩, .network _ _ _ rfl⟩

omit [DecidableEq κ] [DecidableEq α] [DecidableEq (ObjectValue φ α)] in
theorem sound_launch (backend : Backend κ φ α) : (launch backend).Sound where
  running := rfl
  holds := ⟨⟨.nil, by simp [launch], by simp [launch]⟩, .nil, rfl⟩
  answered := List.prefix_refl _
  sent := Nat.zero_le _

theorem Sound.reached (h : s.Sound) {es : List (SessionEvent κ φ α)}
    (hrun : run (SessionState.step server) s es = some s') : s'.Sound :=
  run_invariant (SessionState.step server) h (fun _ _ _ h _ hs => (h.step hs).1) (along_true _ _ _) hrun

theorem sound_of_run {backend : Backend κ φ α} {es : List (SessionEvent κ φ α)}
    (hrun : run (step server) (launch backend) es = some s) : s.Sound := (sound_launch backend).reached hrun

/-- No assertion of the client ever fails and every document can be read. Its queue holds the writes
that are not answered in their order, the first ten of them are sent while the network is enabled, and
each answer is for the write that the client takes it for. -/
theorem writes_sent_in_order {backend : Backend κ φ α} {es : List (SessionEvent κ φ α)}
    (hrun : run (step server) (launch backend) es = some s) :
    s.running = true ∧ s.client.Holds s.writes ∧
      (s.answers.map fun a => (a.key, a.write)) <+: s.writes ∧
      ∀ key, (s.client.local_store.GetDocument key).isSome := by
  have h := sound_of_run hrun
  refine ⟨h.running, h.holds, h.answered, fun key => ?_⟩
  rw [h.holds.view key]
  rfl

end Step

/-- Three writes to two documents, with an answer that comes after a restart. -/
theorem writes_sent_in_order_restarted :
    let backend : Backend ℕ Bool ℕ := ⟨7, fun _ => ⟨5, some fun _ => none⟩, fun _ => by decide⟩
    let like : Write Bool ℕ := .updateData
      (AList.singleton true (.transform (.ArrayUnion [.other 3])))
    let es : List (SessionEvent ℕ Bool ℕ) := [.write 1 like, .commit 9, .disableNetwork,
      .write 2 (.setData fun _ => none), .restart, .reply, .write 1 like, .watch 1 9]
    let s := (run (step .documented) (launch backend) es).get (by decide +kernel)
    s.running = true ∧ s.client.Holds s.writes ∧
      (s.answers.map fun a => (a.key, a.write)) <+: s.writes ∧
      ∀ key, (s.client.local_store.GetDocument key).isSome :=
  writes_sent_in_order (Option.some_get _).symm

end SessionState

end ComicApp.Firestore
