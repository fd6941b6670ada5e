import ComicApp.OwnWrites

/-!
# Snapshots of the newest revision

Other devices may write the document too. What the cache takes from an answer is never newer than the
document of the backend, so the newest document is never turned away.
-/

namespace ComicApp.Firestore
open ComicApp.EventMachine ComicApp.Revisions
variable {κ φ α : Type} [DecidableEq κ] [DecidableEq φ] [DecidableEq α] {server : Server φ α}

/-- The answers and the cached documents are not newer than the document of the backend, except where
a snapshot has shown that it is still the same. -/
structure Behind (cs : List (Commit (Option (ObjectValue φ α)) (Write φ α)))
    (h : History (Option (ObjectValue φ α))) (clock : ℕ) (cached : Option (MaybeDocument φ α)) : Prop where
  in_time : h.newest.version ≤ clock
  answers : ∀ c ∈ cs, c.version ≤ h.newest.version
  pending : ∀ doc ∈ cached, doc.has_pending_writes = true → doc.version ≤ h.newest.version
  synced : ∀ doc ∈ cached, doc.has_pending_writes = false → doc.version ≤ clock ∧
    ∃ r, h.at_version doc.version = some r ∧ r.state = contents (some doc)

namespace Behind
variable {c : Commit (Option (ObjectValue φ α)) (Write φ α)}
  {cs cs' : List (Commit (Option (ObjectValue φ α)) (Write φ α))}
  {h : History (Option (ObjectValue φ α))} {clock : ℕ} {cached : Option (MaybeDocument φ α)}

section Steps
variable (hb : Behind cs h clock cached)
include hb

omit [DecidableEq φ] [DecidableEq α] in
theorem later {time : ℕ} (htime : clock ≤ time) : Behind cs h time cached where
  in_time := hb.in_time.trans htime
  answers := hb.answers
  pending := hb.pending
  synced doc hdoc hsynced := by
    obtain ⟨hclock, hr⟩ := hb.synced doc hdoc hsynced
    exact ⟨hclock.trans htime, hr⟩

omit [DecidableEq φ] [DecidableEq α] in
theorem answer (hcs' : ∀ c ∈ cs', c.version ≤ h.newest.version) : Behind cs' h clock cached :=
  ⟨hb.in_time, hcs', hb.pending, hb.synced⟩

omit [DecidableEq φ] [DecidableEq α] in
/-- A new revision leaves the older ones where they are. -/
theorem push {r : Revision (Option (ObjectValue φ α))} (hr : clock < r.version) :
    Behind cs (h.push r) r.version cached where
  in_time := Nat.le_refl _
  answers c hc := ((hb.answers c hc).trans hb.in_time).trans hr.le
  pending doc hdoc hpending := ((hb.pending doc hdoc hpending).trans hb.in_time).trans hr.le
  synced doc hdoc hsynced := by
    obtain ⟨hclock, hrevision⟩ := hb.synced doc hdoc hsynced
    rw [History.at_version_push (hclock.trans_lt hr)]
    exact ⟨hclock.trans hr.le, hrevision⟩

theorem answered (hc : c ∈ cs) : Behind cs h clock
    (server.answered c.version (c.previous.getD fun _ => none) c.write cached) := by
  unfold Server.answered
  split_ifs with hold
  · have hversion : (server.acknowledge c.version (c.previous.getD fun _ => none) c.write cached).version =
        c.version ∧ (server.acknowledge c.version (c.previous.getD fun _ => none) c.write cached).has_pending_writes =
        true := by
      unfold Server.acknowledge
      split <;> exact ⟨rfl, rfl⟩
    refine ⟨hb.in_time, hb.answers, fun doc hdoc _ => ?_, fun doc hdoc hsynced => ?_⟩
    · obtain rfl := Option.some.inj hdoc
      rw [hversion.1]
      exact hb.answers c hc
    · obtain rfl := Option.some.inj hdoc
      rw [hversion.2] at hsynced
      cases hsynced
  · exact hb

omit [DecidableEq φ] [DecidableEq α] in
theorem received {doc : MaybeDocument φ α} (hclock : doc.version ≤ clock)
    {r : Revision (Option (ObjectValue φ α))} (hr : h.at_version doc.version = some r)
    (hstate : r.state = contents (some doc)) (hsynced : doc.has_pending_writes = false) :
    Behind cs h clock (received doc cached) := by
  unfold Firestore.received
  split_ifs with hnewer
  · refine ⟨hb.in_time, hb.answers, fun doc' hdoc' hpending => ?_, fun doc' hdoc' _ => ?_⟩
    · obtain rfl := Option.some.inj hdoc'
      rw [hsynced] at hpending
      cases hpending
    · obtain rfl := Option.some.inj hdoc'
      exact ⟨hclock, r, hr, hstate⟩
  · exact hb

omit [DecidableEq φ] [DecidableEq α] in
/-- A document of a snapshot that is as new as the newest revision is not turned away for another. -/
theorem contents_received {doc : MaybeDocument φ α} (hdoc : h.newest.version ≤ doc.version)
    (hstate : contents (some doc) = h.newest.state) :
    contents (Firestore.received doc cached) = h.newest.state := by
  unfold Firestore.received
  split_ifs with hnewer
  · exact hstate
  · cases hcached : cached with
    | none => exact absurd (by rw [hcached]; rfl) hnewer
    | some existing_doc =>
      rw [hcached] at hnewer
      have hnot : ¬ (existing_doc.version < doc.version ∨
          (doc.version = existing_doc.version ∧ existing_doc.has_pending_writes = true)) :=
        fun hor => hnewer (decide_eq_true hor)
      have hge : doc.version ≤ existing_doc.version := Nat.le_of_not_lt fun hlt => hnot (.inl hlt)
      cases hpending : existing_doc.has_pending_writes with
      | true =>
        have hle := hb.pending existing_doc hcached hpending
        exact absurd (.inr ⟨by omega, hpending⟩) hnot
      | false =>
        obtain ⟨-, r, hr, hr'⟩ := hb.synced existing_doc hcached hpending
        rw [History.at_version_newest (hdoc.trans hge)] at hr
        obtain rfl := Option.some.inj hr
        exact hr'.symm

end Steps
end Behind

def Replica.IsBehind (d : Replica φ α) : Prop := Behind d.commits d.history d.clock d.cached

omit [DecidableEq κ] in
theorem Replica.IsBehind.step {key : κ} {e : SessionEvent κ φ α} {d d' : Replica φ α}
    (h : d.IsBehind) (hstep : ReplicaStep server key e d d') : d'.IsBehind := by
  unfold IsBehind at h ⊢
  cases hstep with
  | later clock hclock => exact h.later hclock
  | written w heq => exact h
  | unchanged w hsame =>
    refine h.answer fun c hc => ?_
    rcases List.mem_append.mp hc with hc | hc
    · exact h.answers c hc
    · obtain rfl := List.mem_singleton.mp hc
      exact Nat.le_refl _
  | changed version w hclock =>
    have hpush := h.push (r := ⟨version, server.commit w d.history.newest.state⟩) hclock
    refine hpush.answer fun c hc => ?_
    rcases List.mem_append.mp hc with hc | hc
    · exact hpush.answers c hc
    · obtain rfl := List.mem_singleton.mp hc
      exact Nat.le_refl _
  | rejected w writes hqueue => exact h
  | acknowledged c writes commits hqueue hcommits =>
    rw [hcommits] at h
    obtain ⟨-, hrest⟩ := List.forall_mem_cons.mp h.answers
    exact (h.answered List.mem_cons_self).answer hrest
  | found time version data hrevision =>
    have hlater := h.later (Nat.le_max_left d.clock time)
    exact hlater.received ((History.version_le hrevision).trans (Nat.le_max_right _ _))
      (History.at_version_self hrevision) rfl rfl
  | missing time version hrevision =>
    have hlater := h.later (Nat.le_max_left d.clock time)
    exact hlater.received (Nat.le_max_right _ _) hrevision rfl rfl
  | elsewhere document version heq hclock => exact h.push (r := ⟨version, document⟩) hclock

namespace SessionState
variable {key : κ} {s s' : SessionState κ φ α} {e : SessionEvent κ φ α}

section Run
variable [DecidableEq (ObjectValue φ α)]

theorem behind_of_run {backend : Backend κ φ α} {es : List (SessionEvent κ φ α)}
    (hrun : run (step server) (launch backend) es = some s) (key : κ) : (s.replica key).IsBehind := by
  have hlaunch : ((launch backend).replica key).IsBehind :=
    ⟨backend.before_clock key, by rintro c ⟨⟩, by rintro doc ⟨⟩, by rintro doc ⟨⟩⟩
  refine (run_invariant (step server) (I := fun s => s.Sound ∧ (s.replica key).IsBehind)
    ⟨sound_launch backend, hlaunch⟩ (fun s e s' h _ hs => ?_) (along_true _ _ _) hrun).2
  obtain ⟨hsound', heffect⟩ := h.1.step hs
  exact ⟨hsound', h.2.step (heffect.replica key)⟩

omit [DecidableEq φ] [DecidableEq α] [DecidableEq (ObjectValue φ α)] in
/-- A snapshot that is as new as the last revision brings this revision into the cache. -/
theorem contents_watch (h : (s.replica key).IsBehind) {time : ℕ}
    (htime : (s.documents key).newest.version ≤ time) (hs : s.watch key time = some s') :
    contents (s'.cache key) = (s.documents key).newest.state := by
  unfold SessionState.watch at hs
  rw [History.at_version_newest htime, Option.map_some] at hs
  split_ifs at hs with hpos
  obtain rfl := Option.some.inj hs
  cases hstate : (s.documents key).newest.state with
  | none =>
    have hdoc : ∀ b, MaybeDocument.NoDocument (φ := φ) (α := α) time false ≠ .NoDocument 0 b := by
      rintro b heq
      cases heq
      exact absurd hpos (Nat.lt_irrefl 0)
    change contents ((s.client.local_store.applyDocumentUpdate key (.NoDocument time false)
      ).remote_document_cache key) = none
    rw [applyDocumentUpdate_eq s.client.local_store key hdoc]
    dsimp only
    rw [Function.update_self, ← hstate]
    exact h.contents_received htime hstate.symm
  | some data =>
    have hdoc : ∀ b, MaybeDocument.Document data (s.documents key).newest.version .kSynced ≠
        .NoDocument 0 b := by
      rintro b ⟨⟩
    change contents ((s.client.local_store.applyDocumentUpdate key
      (.Document data (s.documents key).newest.version .kSynced)).remote_document_cache key) = some data
    rw [applyDocumentUpdate_eq s.client.local_store key hdoc]
    dsimp only
    rw [Function.update_self, ← hstate]
    exact h.contents_received (Nat.le_refl _) hstate.symm

omit [DecidableEq (ObjectValue φ α)] in
/-- Writes to other documents leave the view of a document alone. -/
theorem foldl_of_own_eq_nil {writes : List (κ × Write φ α)} {bs : List (MutationBatch κ φ α)}
    (hbs : List.Forall₂ MadeBy writes bs) (hown : own key writes = [])
    (maybe_doc : Option (MaybeDocument φ α)) :
    bs.foldl (fun document b => b.ApplyToLocalDocument document key) maybe_doc = maybe_doc := by
  induction hbs with
  | nil => rfl
  | @cons write b writes bs hb _ ih =>
    obtain ⟨key', w⟩ := write
    have hb : w.Makes key' b := hb
    by_cases hkey : key' = key
    · subst hkey
      rw [own_cons_self] at hown
      cases hown
    · rw [own_cons_other hkey] at hown
      rw [List.foldl_cons, hb.other (Ne.symm hkey)]
      exact ih hown

theorem view_watch (hsound : s.Sound) (h : (s.replica key).IsBehind) {time : ℕ}
    (htime : (s.documents key).newest.version ≤ time) (hs : s.step server (.watch key time) = some s') :
    ∃ doc, contents doc = (s.documents key).newest.state ∧
      s'.client.local_store.GetDocument key = some (s'.client.local_store.mutation_queue.foldl
        (fun document b => b.ApplyToLocalDocument document key) doc) ∧
      (own key s'.writes = [] → s'.client.local_store.GetDocument key = some doc) := by
  have hsound' := (hsound.step hs).1
  rw [SessionState.step, if_pos hsound.running] at hs
  have hview := hsound'.holds.view key
  refine ⟨s'.cache key, contents_watch h htime hs, hview, fun hown => ?_⟩
  rw [hview]
  exact congrArg some (foldl_of_own_eq_nil hsound'.holds.batches hown _)

/-- A snapshot that is as new as the last revision of a document shows it, with the writes on top that
are not answered, whatever other devices have written and whatever has been shown before. -/
theorem newest_snapshot_shown {backend : Backend κ φ α} {es : List (SessionEvent κ φ α)} {time : ℕ}
    (hrun : run (step server) (launch backend) es = some s)
    (htime : (s.documents key).newest.version ≤ time)
    (hs : s.step server (.watch key time) = some s') :
    ∃ doc, contents doc = (s.documents key).newest.state ∧
      s'.client.local_store.GetDocument key = some (s'.client.local_store.mutation_queue.foldl
        (fun document b => b.ApplyToLocalDocument document key) doc) ∧
      (own key s'.writes = [] → s'.client.local_store.GetDocument key = some doc) :=
  view_watch (sound_of_run hrun) (behind_of_run hrun key) htime hs

end Run

/-- Another device has written the document before a write of this one is committed and answered. -/
theorem newest_snapshot_shown_elsewhere :
    let backend : Backend ℕ Bool ℕ :=
      ⟨7, fun _ => ⟨5, some fun _ => some (.array [.other 3])⟩, fun _ => by decide⟩
    let union : Write Bool ℕ := .updateData
      (AList.singleton true (.transform (.ArrayUnion [.other 4])))
    let es : List (SessionEvent ℕ Bool ℕ) := [.watch 1 7, .write 1 union,
      .elsewhere 1 (some fun _ => some (.array [.other 6])) 8, .commit 9, .reply, .watch 1 8]
    let s := (run (step .documented) (launch backend) es).get (by decide +kernel)
    let s' := (s.step .documented (.watch 1 10)).get (by decide +kernel)
    ∃ doc, contents doc = (s.documents 1).newest.state ∧
      s'.client.local_store.GetDocument 1 = some (s'.client.local_store.mutation_queue.foldl
        (fun document b => b.ApplyToLocalDocument document 1) doc) ∧
      (own 1 s'.writes = [] → s'.client.local_store.GetDocument 1 = some doc) :=
  newest_snapshot_shown (Option.some_get _).symm (by decide +kernel) (Option.some_get _).symm

end SessionState

end ComicApp.Firestore
