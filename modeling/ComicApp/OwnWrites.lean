import ComicApp.DocumentSteps
import ComicApp.SettledDocument
import ComicApp.Replay

/-!
# A document that only this device writes

The local view is what the confirmed writes and then the unanswered writes lead to, whatever
snapshots and answers have come meanwhile: where the cache already holds some of the unanswered
writes, making them again comes to the same.
-/

namespace ComicApp.Firestore
open ComicApp.EventMachine ComicApp.Revisions ComicApp.Replay
variable {κ φ α : Type} [DecidableEq κ] [DecidableEq φ] [DecidableEq α] {server : Server φ α}

def committed (server : Server φ α) (ws : List (Write φ α)) (document : Option (ObjectValue φ α)) :
    Option (ObjectValue φ α) :=
  ws.foldl (fun document w => server.commit w document) document

def Write.Plain : Write φ α → Prop
  | setData _ => True
  | updateData d => ∀ path operand, d.lookup path ≠ some (.transform (.Increment operand))

section Plain
variable {w : Write φ α} {ws : List (Write φ α)} {document : Option (ObjectValue φ α)}

omit [DecidableEq κ] in
/-- The values that a plain write puts do not depend on a base. -/
theorem Write.Plain.put_eq (h : w.Plain) (base : Option (MaybeDocument φ α)) :
    w.put base = w.put none := by
  cases w with
  | setData data => rfl
  | updateData d =>
    refine congrArg Replay.Write.put (funext fun c => Option.bind_congr fun u hlookup => ?_)
    cases u with
    | value v => rfl
    | delete => rfl
    | transform transformation =>
      cases transformation with
      | ArrayUnion elements => cases c.2 <;> rfl
      | ArrayRemove elements => cases c.2 <;> rfl
      | Increment operand => exact absurd hlookup (h c.1 operand)

omit [DecidableEq κ] [DecidableEq α] in
theorem Write.Plain.based (h : w.Plain) (document : Option (ObjectValue φ α)) :
    w.Based none document := by
  cases w with
  | setData data => trivial
  | updateData d => exact fun _ _ path operand hlookup => absurd hlookup (h path operand)

/-- The backend puts the values of the writes into the cells. -/
theorem cells_committed (hws : ∀ w ∈ ws, w.Distinct ∧ w.Plain) (h : Distinct document) :
    Distinct (committed server ws document) ∧ (committed server ws document).map cells =
      replay (ws.map (Write.put none)) (document.map cells) := by
  induction ws generalizing document with
  | nil => exact ⟨h, rfl⟩
  | cons w ws ih =>
    obtain ⟨⟨hdistinct, hplain⟩, hws⟩ := List.forall_mem_cons.mp hws
    obtain ⟨hcommitted, hcells⟩ := ih hws (h.commit hdistinct)
    refine ⟨hcommitted, hcells.trans ?_⟩
    rw [cells_commit h (hplain.based document)]
    rfl

/-- So does the local view. -/
theorem cells_foldl {key : κ} {writes : List (κ × Write φ α)} {bs : List (MutationBatch κ φ α)}
    (hbs : List.Forall₂ MadeBy writes bs) (hwrites : ∀ w ∈ own key writes, w.Distinct ∧ w.Plain)
    (maybe_doc : Option (MaybeDocument φ α)) (h : Distinct (contents maybe_doc)) :
    let view := bs.foldl (fun document b => b.ApplyToLocalDocument document key) maybe_doc
    Distinct (contents view) ∧ (contents view).map cells =
      replay ((own key writes).map (Write.put none)) ((contents maybe_doc).map cells) := by
  induction hbs generalizing maybe_doc with
  | nil => exact ⟨h, rfl⟩
  | @cons write b writes bs hb _ ih =>
    obtain ⟨key', w⟩ := write
    have hb : w.Makes key' b := hb
    by_cases hkey : key' = key
    · subst hkey
      rw [own_cons_self] at hwrites ⊢
      obtain ⟨⟨hdistinct, hplain⟩, hwrites⟩ := List.forall_mem_cons.mp hwrites
      obtain ⟨base, hview⟩ := hb.contents
      have hdoc : Distinct (contents (b.ApplyToLocalDocument maybe_doc key')) := by
        rw [hview]
        exact h.view hdistinct base
      obtain ⟨hdoc, hcells⟩ := ih hwrites _ hdoc
      refine ⟨hdoc, hcells.trans ?_⟩
      rw [hview, cells_view h base, hplain.put_eq base]
      rfl
    · rw [own_cons_other hkey] at hwrites ⊢
      dsimp only [List.foldl_cons]
      rw [hb.other (Ne.symm hkey)]
      exact ih hwrites maybe_doc h

end Plain

/-- No other device writes the document, and this one writes it without increments. -/
def SessionEvent.Owns (key : κ) : SessionEvent κ φ α → Prop
  | .write key' w => key' = key → w.Distinct ∧ w.Plain
  | .elsewhere key' _ _ => key' ≠ key
  | _ => True

omit [DecidableEq κ] in
theorem committed_append {ws ws' : List (Write φ α)} {document : Option (ObjectValue φ α)} :
    committed server (ws ++ ws') document = committed server ws' (committed server ws document) := List.foldl_append

omit [DecidableEq κ] in
theorem stateAt_eq_committed (r : Revision (Option (ObjectValue φ α)))
    (cs : List (Commit (Option (ObjectValue φ α)) (Write φ α))) (v : ℕ) :
    stateAt server.commit r cs v =
      committed server ((cs.filter fun c => c.version ≤ v).map Commit.write) r.state := by
  unfold stateAt committed
  rw [last_state, List.foldl_map]

namespace Replica

structure Owned (server : Server φ α) (initial : Option (ObjectValue φ α)) (d : Replica φ α) : Prop where
  writes : ∀ w ∈ d.writes, w.Distinct ∧ w.Plain
  settled : ∃ r : Revision (Option (ObjectValue φ α)),
    r.state = committed server d.confirmed initial ∧ Distinct r.state ∧
      Settled server r d.commits d.history d.clock d.cached

variable {initial : Option (ObjectValue φ α)} {key : κ} {d d' : Replica φ α} {e : SessionEvent κ φ α}

omit [DecidableEq κ] in
theorem Owned.step (h : d.Owned server initial) (he : e.Owns key) (hstep : ReplicaStep server key e d d') :
    d'.Owned server initial := by
  obtain ⟨hwrites, r, hr, hdistinct, hs⟩ := h
  cases hstep with
  | later clock hclock => exact ⟨hwrites, r, hr, hdistinct, hs.later hclock⟩
  | written w heq =>
    subst heq
    refine ⟨fun w' hw' => ?_, r, hr, hdistinct, hs⟩
    rcases List.mem_append.mp hw' with hw' | hw'
    · exact hwrites w' hw'
    · obtain rfl := List.mem_singleton.mp hw'
      exact he rfl
  | unchanged w hsame => exact ⟨hwrites, r, hr, hdistinct, hs.unchanged hsame⟩
  | changed version w hclock => exact ⟨hwrites, r, hr, hdistinct, hs.changed hclock w⟩
  | rejected w writes hqueue =>
    rw [hqueue] at hwrites
    exact ⟨(List.forall_mem_cons.mp hwrites).2, r, hr, hdistinct, hs⟩
  | acknowledged c writes commits hqueue hcommits =>
    rw [hqueue] at hwrites
    rw [hcommits] at hs
    obtain ⟨hw, hwrites⟩ := List.forall_mem_cons.mp hwrites
    refine ⟨hwrites, r.next server.commit c, ?_, hdistinct.commit hw.1, hs.acknowledged hdistinct⟩
    rw [committed_append, ← hr]
    rfl
  | found time version data hrevision =>
    have hlater := hs.later (Nat.le_max_left d.clock time)
    exact ⟨hwrites, r, hr, hdistinct, hlater.found (Nat.le_max_right _ _) hrevision⟩
  | missing time version hrevision =>
    have hlater := hs.later (Nat.le_max_left d.clock time)
    exact ⟨hwrites, r, hr, hdistinct, hlater.missing (Nat.le_max_right _ _) hrevision⟩
  | elsewhere document version heq hclock =>
    subst heq
    exact absurd rfl he

/-- Making the unanswered writes again over what the cache holds comes to the same. -/
theorem Owned.replay_cached (h : d.Owned server initial) (hanswered : d.commits.map Commit.write ⊆ d.writes)
    {doc : MaybeDocument φ α} (hcached : d.cached = some doc)
    (hknown : ∀ version, doc ≠ .UnknownDocument version) :
    Distinct (contents d.cached) ∧
      replay (d.writes.map (Write.put none)) ((contents d.cached).map cells) =
        (committed server (d.confirmed ++ d.writes) initial).map cells := by
  obtain ⟨hwrites, r, hr, hdistinct, hs⟩ := h
  let made := (d.commits.filter fun c => c.version ≤ doc.version).map Commit.write
  have hcontents : contents d.cached = committed server made r.state := by
    rw [← stateAt_eq_committed]
    obtain ⟨-, -, hshows⟩ := hs.cached doc hcached
    rw [hcached]
    cases doc with
    | Document data version document_state => exact hshows.symm
    | NoDocument version has_committed_mutations => exact hshows.symm
    | UnknownDocument version => exact absurd rfl (hknown version)
  have hmade : made ⊆ d.writes := by
    intro w hw
    obtain ⟨c, hc, rfl⟩ := List.mem_map.mp hw
    exact hanswered (List.mem_map_of_mem (List.mem_of_mem_filter hc))
  obtain ⟨hcache, hcells⟩ := cells_committed (fun w hw => hwrites w (hmade hw)) hdistinct
  rw [hcontents]
  refine ⟨hcache, ?_⟩
  rw [committed_append, ← hr, (cells_committed hwrites hdistinct).2, hcells]
  exact replay_of_subset (List.map_subset _ hmade) _

/-- The unanswered writes make a document out of nothing that they make out of every document. -/
theorem Owned.replay_none (h : d.Owned server initial)
    (hsome : replay (d.writes.map (Write.put none)) none ≠ none) :
    replay (d.writes.map (Write.put none)) none =
      (committed server (d.confirmed ++ d.writes) initial).map cells := by
  obtain ⟨hwrites, r, hr, hdistinct, -⟩ := h
  rw [committed_append, ← hr, (cells_committed hwrites hdistinct).2]
  exact (replay_eq_of_none hsome _).symm

theorem Owned.distinct (h : d.Owned server initial) :
    Distinct (committed server (d.confirmed ++ d.writes) initial) := by
  obtain ⟨hwrites, r, hr, hdistinct, -⟩ := h
  rw [committed_append, ← hr]
  exact (cells_committed hwrites hdistinct).1

end Replica

namespace SessionState
variable {key : κ} {s s' : SessionState κ φ α} {e : SessionEvent κ φ α}

omit [DecidableEq α] in
theorem Sound.commits_subset (h : s.Sound) (key : κ) :
    (s.replica key).commits.map Commit.write ⊆ (s.replica key).writes := by
  intro w hw
  obtain ⟨c, hc, rfl⟩ := List.mem_map.mp hw
  exact mem_own.mpr (h.answered.subset (write_of_mem_commits hc))

section Run
variable [DecidableEq (ObjectValue φ α)]

theorem owned_of_run {backend : Backend κ φ α} {es : List (SessionEvent κ φ α)}
    (hevents : ∀ e ∈ es, e.Owns key) (hdocument : Distinct (backend.documents key).state)
    (hrun : run (step server) (launch backend) es = some s) :
    (s.replica key).Owned server (backend.documents key).state := by
  have hlaunch : ((launch backend).replica key).Owned server (backend.documents key).state :=
    ⟨by rintro w ⟨⟩, backend.documents key, rfl, hdocument, Settled.launch (backend.before_clock key)⟩
  refine (run_invariant (step server)
    (I := fun s => s.Sound ∧ (s.replica key).Owned server (backend.documents key).state)
    ⟨sound_launch backend, hlaunch⟩ (fun s e s' h he hs => ?_)
    (along_of_forall_mem (step server) hevents) hrun).2
  obtain ⟨hsound', heffect⟩ := h.1.step hs
  exact ⟨hsound', h.2.step he (heffect.replica key)⟩

omit [DecidableEq (ObjectValue φ α)] in
theorem own_view {initial : Option (ObjectValue φ α)} {maybe_doc : Option (MaybeDocument φ α)}
    (hsound : s.Sound) (howned : (s.replica key).Owned server initial)
    (hview : s.client.local_store.GetDocument key = some maybe_doc)
    (hknown : contents maybe_doc ≠ none ∨
      ∃ doc, s.cache key = some doc ∧ ∀ version, doc ≠ .UnknownDocument version) :
    SameDocument (contents maybe_doc) (committed server (own key s.confirmed ++ own key s.writes) initial) := by
  have hfold := hsound.holds.view key
  rw [hview] at hfold
  rw [Option.some.inj hfold] at hknown ⊢
  by_cases hcached : ∃ doc, s.cache key = some doc ∧ ∀ version, doc ≠ .UnknownDocument version
  · obtain ⟨doc, hdoc, hnot⟩ := hcached
    obtain ⟨hcache, hreplay⟩ := howned.replay_cached (hsound.commits_subset key) hdoc hnot
    obtain ⟨hdistinct, hcells⟩ := cells_foldl hsound.holds.batches howned.writes (s.cache key) hcache
    exact sameDocument_of_cells hdistinct howned.distinct (hcells.trans hreplay)
  · -- the unanswered writes make the document, whatever was there
    have hnone : contents (s.cache key) = none := by
      cases hdoc : s.cache key with
      | none => rfl
      | some doc =>
        cases doc with
        | UnknownDocument version => rfl
        | Document data version document_state => exact absurd ⟨_, hdoc, by rintro _ ⟨⟩⟩ hcached
        | NoDocument version b => exact absurd ⟨_, hdoc, by rintro _ ⟨⟩⟩ hcached
    have hsome := hknown.resolve_right hcached
    obtain ⟨hdistinct, hcells⟩ := cells_foldl hsound.holds.batches howned.writes (s.cache key)
      (by rw [hnone]; rintro _ ⟨⟩)
    rw [hnone, Option.map_none] at hcells
    refine sameDocument_of_cells hdistinct howned.distinct (hcells.trans (howned.replay_none ?_))
    exact fun hreplay => hsome (Option.map_eq_none_iff.mp (hcells.trans hreplay))

/-- The local view of a document that no other device writes is what the confirmed writes and then the
unanswered ones lead to, as soon as the view or the cache knows the document. -/
theorem own_document {backend : Backend κ φ α} {es : List (SessionEvent κ φ α)}
    {maybe_doc : Option (MaybeDocument φ α)} (hevents : ∀ e ∈ es, e.Owns key)
    (hdocument : Distinct (backend.documents key).state)
    (hrun : run (step server) (launch backend) es = some s)
    (hview : s.client.local_store.GetDocument key = some maybe_doc)
    (hknown : contents maybe_doc ≠ none ∨
      ∃ doc, s.cache key = some doc ∧ ∀ version, doc ≠ .UnknownDocument version) :
    SameDocument (contents maybe_doc)
      (committed server (own key s.confirmed ++ own key s.writes) (backend.documents key).state) :=
  own_view (sound_of_run hrun) (owned_of_run hevents hdocument hrun) hview hknown

end Run

/-- A snapshot already holds the first of two writes when the answer to it comes. -/
theorem own_document_snapshotFirst :
    let backend : Backend ℕ Bool ℕ :=
      ⟨7, fun _ => ⟨5, some fun _ => some (.array [.other 3])⟩, fun _ => by decide⟩
    let union : Write Bool ℕ := .updateData
      (AList.singleton true (.transform (.ArrayUnion [.other 4])))
    let remove : Write Bool ℕ := .updateData
      (AList.singleton true (.transform (.ArrayRemove [.other 3])))
    let es : List (SessionEvent ℕ Bool ℕ) := [.watch 1 7, .write 1 union, .write 1 remove, .commit 9,
      .deny, .watch 1 9, .restart, .reply]
    ∃ s maybe_doc, run (step .documented) (launch backend) es = some s ∧
      s.client.local_store.GetDocument 1 = some maybe_doc ∧
      SameDocument (contents maybe_doc)
        (committed .documented (own 1 s.confirmed ++ own 1 s.writes) (some fun _ => some (.array [.other 3]))) := by
  intro backend union remove es
  have hmild (t : TransformOperation ℕ) (ht : ∀ operand, t ≠ .Increment operand) :
      (Write.updateData (AList.singleton true (.transform t)) : Write Bool ℕ).Distinct ∧
        (Write.updateData (AList.singleton true (.transform t)) : Write Bool ℕ).Plain := by
    refine ⟨fun path v hlookup => ?_, fun path operand hlookup => ?_⟩
    · cases path <;> simp [AList.lookup] at hlookup
    · cases path <;> simp [AList.lookup] at hlookup
      exact ht operand hlookup
  have hevents : ∀ e ∈ es, e.Owns 1 := by
    simp only [es, List.forall_mem_cons, List.not_mem_nil, SessionEvent.Owns]
    exact ⟨trivial, fun _ => hmild _ (by rintro _ ⟨⟩), fun _ => hmild _ (by rintro _ ⟨⟩), trivial,
      trivial, trivial, trivial, trivial, by simp⟩
  have hdocument : Distinct (backend.documents 1).state := by
    rintro data ⟨⟩ path
    exact List.nodup_singleton _
  have hreached : ((run (step .documented) (launch backend) es).bind fun s =>
      (s.client.local_store.GetDocument 1).bind contents).isSome := by
    decide +kernel
  obtain ⟨shown, hshown⟩ := Option.isSome_iff_exists.mp hreached
  obtain ⟨s, hrun, hshown⟩ := Option.bind_eq_some_iff.mp hshown
  obtain ⟨maybe_doc, hview, hshown⟩ := Option.bind_eq_some_iff.mp hshown
  have hknown : contents maybe_doc ≠ none := by
    rw [hshown]
    exact Option.some_ne_none _
  exact ⟨s, maybe_doc, hrun, hview, own_document hevents hdocument hrun hview (.inl hknown)⟩

end SessionState

end ComicApp.Firestore
