import ComicApp.UserLists

/-!
# The history of the app and of the server

Two chains put comics in `Shelf.listHistory`: opening a comic looks for it in the list first,
`Shelf.DownloadList` does not, and it may run more than once. So the list stays free of duplicates
as long as `Shelf.DownloadList` brings its posters first. The ids that are in the list, on their way
there or still to be brought are always those of the array, because the array only grows.
-/

namespace ComicApp.CloudSession
open EventMachine AccountSession

def historyPoster : Link → Option ℕ
  | .poster .comicHistory comic => some comic
  | _ => none

theorem historyPoster_eq_some {link : Link} {comic : ℕ} :
    historyPoster link = some comic ↔ link = .poster .comicHistory comic := by
  unfold historyPoster
  split <;> simp_all

/-- A comic whose poster arrives for `Shelf.DownloadList` is not in `Shelf.listHistory`. -/
def Unlisted (s : State) : Event → Prop
  | .app (.reply n k (.data _)) => ∀ comic ∈ (s.app.link n k).bind historyPoster,
    s.app.idComic (n, comic) ∉ s.app.shelf.listHistory
  | _ => True

instance decidableUnlisted (s : State) : ∀ e, Decidable (Unlisted s e)
  | .app (.reply n k (.data _)) => inferInstanceAs
      (Decidable (∀ comic ∈ (s.app.link n k).bind historyPoster,
        s.app.idComic (n, comic) ∉ s.app.shelf.listHistory))
  | .app (.reply _ _ .error) | .app (.reply _ _ (.comic _)) | .app (.reply _ _ (.listing _))
  | .app (.reply _ _ (.user _)) | .app (.reply _ _ (.uid _)) | .app (.reply _ _ .metadata)
  | .app (.reply _ _ (.url _)) | .app (.action _) | .read _ _ | .setData _ _ => .isTrue trivial

def onePoster : Event → Bool
  | .app (.reply _ _ (.listing reply)) => reply.listed.2 = 1
  | _ => true

def LogsIn (UserID : String) (s : State) : Event → Prop
  | .app (.action .loginTapped) | .app (.action .CancelLogin) => True
  | .app (.reply n k reply) => s.app.link n k = some .signIn ∧ reply = .uid UserID
  | _ => False

instance decidableLogsIn (UserID : String) (s : State) : ∀ e, Decidable (LogsIn UserID s e)
  | .app (.action .loginTapped) | .app (.action .CancelLogin) => .isTrue trivial
  | .app (.reply n k reply) =>
    inferInstanceAs (Decidable (s.app.link n k = some .signIn ∧ reply = .uid UserID))
  | .app (.action .login) | .app (.action .signUpTapped) | .app (.action .accountDidLoad)
  | .app (.action .accountWillAppear) | .app (.action (.Save _)) | .app (.action (.select _))
  | .app (.action .viewDidLoad)
  | .app (.action (.Like _ _)) | .app (.action (.pathUpdate _)) | .app (.action .relaunch)
  | .read _ _ | .setData _ _ => .isFalse id

/-- What happens to one user who opens comics, each with one poster, and logs in. -/
def OpensOrLogsIn (UserID : String) (s : State) (e : Event) : Prop :=
  Browses s e ∧ onePoster e = true ∨ LogsIn UserID s e

instance (UserID : String) (s : State) (e : Event) : Decidable (OpensOrLogsIn UserID s e) :=
  inferInstanceAs (Decidable (Browses s e ∧ onePoster e = true ∨ LogsIn UserID s e))

/-- `Shelf.listHistory` holds each comic once, and once no request is in flight it holds the comics of
the array. -/
def HistoryAgrees (UserID : String) (s : State) : Prop :=
  s.app.shelf.listHistory.Nodup ∧ (s.app.Idle →
    ∀ id, id ∈ s.app.shelf.listHistory ↔ id ∈ (s.comicHistory UserID).map some)

/-- The comics that are in the list, on their way there or still to be brought by a request are those
of the array. -/
structure Tracks (UserID : String) (s : State) : Prop extends Serves UserID s where
  nodup : s.app.shelf.listHistory.Nodup
  sound : ∀ id ∈ s.app.shelf.histories, id ∈ (s.comicHistory UserID).map some
  stale : ∀ n k, s.app.asked n k = some UserID →
    ids Profile.comicHistory (s.snapshot UserID (n, k)) ⊆ s.comicHistory UserID
  complete : ∀ id ∈ s.comicHistory UserID, some id ∈ s.app.shelf.histories ∨
    ∃ n k, s.app.asked n k = some UserID ∧
      id ∈ ids Profile.comicHistory (s.snapshot UserID (n, k))

theorem Fresh.tracks {UserID : String} {r : Ref} {s : State} (h : Fresh UserID r s) :
    Tracks UserID s where
  toServes := h.toServes
  nodup := by
    rw [h.shelf]
    exact List.nodup_nil
  sound id hid := by
    rw [h.shelf] at hid
    exact absurd hid (Multiset.notMem_zero id)
  stale n k hasked := by
    rw [((h.asked_iff n k UserID).mp hasked).1, State.snapshot, h.unread]
    exact List.Subset.refl _
  complete id hid := by
    refine .inr ⟨r.1, r.2, (h.asked_iff r.1 r.2 UserID).mpr ⟨rfl, rfl⟩, ?_⟩
    rw [State.snapshot, h.unread]
    exact hid

theorem comicHistory_addToHistory (p : Profile) (id : String) :
    ids Profile.comicHistory (some (p.addToHistory id)) =
      arrayUnion (ids Profile.comicHistory (some p)) id := by
  rw [← ids_getD Profile.comicHistory p]
  rfl

theorem comicHistory_touch (document : Option Profile) :
    ids Profile.comicHistory ([.touchHistory, .touchLike].foldl ArrayWrite.perform document) =
      ids Profile.comicHistory document := by
  cases document with
  | none => rfl
  | some p =>
    rw [← ids_getD Profile.comicHistory p]
    rfl

structure Restarts (UserID : String) (s t : State) : Prop where
  serves : Serves UserID t
  shelf : t.app.shelf = s.app.shelf
  users : t.comicHistory UserID = s.comicHistory UserID
  answers : t.answers = s.answers
  kept : ∀ n k, s.app.asked n k = some UserID → t.app.asked n k = some UserID
  asked : ∀ n k, t.app.asked n k = some UserID →
    s.app.asked n k = some UserID ∨ s.answers.lookup (n, k) = none

theorem Selects.restarts {s t : State} {UserID : String} (h : Selects UserID s t) :
    Restarts UserID s t where
  serves := h.serves
  shelf := h.shelf
  users := by rw [State.comicHistory, State.comicHistory, h.users]
  answers := h.answers
  kept n k hasked := by rwa [h.asked]
  asked n k hasked := .inl (by rwa [← h.asked])

theorem Serves.logsIn {s t : State} {UserID : String} {e : AccountSession.Event}
    (h : Serves UserID s) (he : LogsIn UserID s (.app e)) (hstep : step s (.app e) = some t) :
    Restarts UserID s t := by
  obtain ⟨hadmits, app, happ, rfl⟩ := step_app hstep
  have hrestarts (hrelaunch : e ≠ .action .relaunch) (huser : app.UserID = s.app.UserID)
      (hshelf : app.shelf = s.app.shelf)
      (hstarted : ∀ user ∈ s.app.started e, user = UserID)
      (hwritten : s.app.started e = none → written s.app e = none)
      (hreply : ∀ n k reply, e = .reply n k reply → s.app.asked n k = none) :
      Restarts UserID s (s.onApp e app) := by
    refine ⟨h.app hadmits happ hrelaunch huser hstarted, hshelf, ?_, if_neg hrelaunch, fun n k hasked => ?_,
      fun n k hasked => h.asked_or_unread happ hrelaunch hasked⟩
    · cases hstart : s.app.started e with
      | none =>
        exact congrArg _ (onApp_users_of_ne (by simp [hwritten hstart]))
      | some user =>
        obtain rfl := hstarted user hstart
        rw [State.comicHistory, onApp_users (written_of_started hstart), comicHistory_touch]
        rfl
    · refine step_asked_kept happ hrelaunch hasked fun reply hreplied => ?_
      rw [hreply n k reply hreplied] at hasked
      cases hasked
  cases e with
  | action a =>
    have hact := (step_action happ).2
    cases a with
    | loginTapped =>
      obtain rfl := Option.some.inj hact
      exact hrestarts (by simp) rfl (State.shelf_send_other h.identified _ (by simp))
        (by simp [State.started]) (fun _ => rfl) (by simp)
    | CancelLogin =>
      obtain rfl := Option.some.inj hact
      have hstart : s.app.started (.action .CancelLogin) = some UserID := h.signedIn
      refine hrestarts (by simp) ?_ (State.shelf_DownloadList h.identified _) ?_ ?_ (by simp)
      · exact congrArg Prod.fst (State.screen_DownloadList s.app s.app.current)
      · exact fun user huser => Option.some.inj (huser.symm.trans hstart)
      · exact fun hnone => absurd (hstart.symm.trans hnone) (Option.some_ne_none UserID)
    | _ => cases he
  | reply n k reply =>
    obtain ⟨hlink, rfl⟩ := he
    obtain ⟨-, link, hlink', hcallback⟩ := step_reply happ
    obtain rfl : link = .signIn := Option.some.inj (hlink'.symm.trans hlink)
    have hstart : s.app.started (.reply n k (.uid UserID)) = some UserID := if_pos hlink
    cases hcallback with
    | signIn uid =>
      have hid : State.Identified { s.app.answer n k with UserID := some UserID } :=
        State.apart_shaped.UserID _ _ (h.identified.answer n k)
      have hanswered : s.app.shelf = (s.app.answer n k).shelf :=
        (State.shelf_answer hlink).trans (Shelf.expect_zero _)
      refine hrestarts (by simp) ?_ ?_ ?_ (fun hnone =>
        absurd (hstart.symm.trans hnone) (Option.some_ne_none UserID)) ?_
      · exact (congrArg Prod.fst (State.screen_DownloadList _ n)).trans h.signedIn.symm
      · exact (State.shelf_DownloadList hid n).trans hanswered.symm
      · rw [hstart]
        exact fun user huser => (Option.some.inj huser).symm
      · rintro m j reply heq
        obtain ⟨rfl, rfl, -⟩ := AccountSession.Event.reply.inj heq
        rw [State.asked, hlink]
        rfl

namespace Tracks
variable {s t : State} {UserID : String} (h : Tracks UserID s)
include h

theorem restarts (hr : Restarts UserID s t) : Tracks UserID t where
  toServes := hr.serves
  nodup := by
    rw [hr.shelf]
    exact h.nodup
  sound := by
    rw [hr.shelf, hr.users]
    exact h.sound
  stale n k hasked := by
    rw [ids_snapshot hr.answers hr.users, hr.users]
    rcases hr.asked n k hasked with hasked | hunread
    · exact h.stale n k hasked
    · rw [State.snapshot, hunread]
      exact List.Subset.refl _
  complete id hid := by
    rw [hr.users] at hid
    rw [hr.shelf]
    rcases h.complete id hid with hin | ⟨n, k, hasked, hin⟩
    · exact .inl hin
    · refine .inr ⟨n, k, hr.kept n k hasked, ?_⟩
      rwa [ids_snapshot hr.answers hr.users]

theorem opens {id : String} (ho : Opens UserID id s t) : Tracks UserID t := by
  obtain ⟨p, hp, -⟩ := h.full
  have hhistory : t.comicHistory UserID = arrayUnion (s.comicHistory UserID) id := by
    rw [State.comicHistory, ho.users, hp, Option.map_some, comicHistory_addToHistory, ← hp]
    rfl
  have hgrows : s.comicHistory UserID ⊆ t.comicHistory UserID := by
    intro comic hcomic
    rw [hhistory, mem_arrayUnion]
    exact .inl hcomic
  -- A write reaches the requests for which the client has not taken the document yet.
  have hsnapshot (r : Ref) (hstale : ids Profile.comicHistory (s.snapshot UserID r) ⊆
      s.comicHistory UserID) :
      ids Profile.comicHistory (s.snapshot UserID r) ⊆ ids Profile.comicHistory (t.snapshot UserID r) ∧
        ids Profile.comicHistory (t.snapshot UserID r) ⊆ t.comicHistory UserID := by
    unfold State.snapshot at hstale ⊢
    rw [ho.answers]
    cases ha : s.answers.lookup r with
    | none => exact ⟨hgrows, List.Subset.refl _⟩
    | some a =>
      rw [ha] at hstale
      exact ⟨List.Subset.refl _, List.Subset.trans hstale hgrows⟩
  refine ⟨ho.serves, ?_, ?_, ?_, ?_⟩
  · rw [ho.shelf]
    exact h.nodup
  · intro comic hcomic
    rw [ho.shelf, Shelf.histories_expect, Multiset.mem_add, Multiset.mem_singleton] at hcomic
    rcases hcomic with hcomic | rfl
    · exact List.map_subset some hgrows (h.sound comic hcomic)
    · rw [hhistory]
      exact List.mem_map_of_mem (mem_arrayUnion.mpr (.inr rfl))
  · intro n k hasked
    rw [ho.asked] at hasked
    exact (hsnapshot (n, k) (h.stale n k hasked)).2
  · intro comic hcomic
    rw [ho.shelf, Shelf.histories_expect, Multiset.mem_add, Multiset.mem_singleton]
    rw [hhistory, mem_arrayUnion] at hcomic
    rcases hcomic with hcomic | rfl
    · rcases h.complete comic hcomic with hin | ⟨n, k, hasked, hin⟩
      · exact .inl (.inl hin)
      · exact .inr ⟨n, k, ho.asked ▸ hasked, (hsnapshot (n, k) (h.stale n k hasked)).1 hin⟩
    · exact .inl (.inr rfl)

theorem receives {n k : ℕ} {link : Link} {reply : Reply}
    (hr : Receives UserID n k link reply s t) (hlink : s.app.link n k = some link)
    (hitems : ∀ listing, reply = .listing listing → listing.listed.2 = 1)
    (hnew : ∀ comic, link = .poster .comicHistory comic →
      s.app.idComic (n, comic) ∉ s.app.shelf.listHistory) : Tracks UserID t := by
  have hhistory : t.comicHistory UserID = s.comicHistory UserID := by
    rw [State.comicHistory, hr.users]
    rfl
  have hsnapshot (r : Ref) : ids Profile.comicHistory (t.snapshot UserID r) =
      ids Profile.comicHistory (s.snapshot UserID r) := ids_snapshot hr.answers hhistory r
  have hasked : s.app.asked n k = link.lists := by
    rw [State.asked, hlink, Option.bind_some]
  have hkept (m j : ℕ) (huser : s.app.asked m j = some UserID) :
      (m, j) = (n, k) ∨ t.app.asked m j = some UserID := by
    by_cases hmj : (m, j) = (n, k)
    · exact .inl hmj
    · rw [hr.asked, State.asked_answer_of_ne s.app hmj]
      exact .inr huser
  refine ⟨hr.serves, hr.shelf.nodup_listHistory h.nodup hnew, ?_, ?_, ?_⟩
  · rw [hhistory]
    intro id hid
    cases hlists : link.lists with
    | none => exact h.sound id ((hr.shelf.mem_histories hlists hitems id).mp hid)
    | some user =>
      obtain rfl := h.asked n k user (hasked.trans hlists)
      obtain ⟨data, history, like, hl, hreply, hhistory, hlike, hshelf⟩ := hr.shelf.lists_arrive hlists
      have hperm := (hr.arrays user data history like hl hreply hhistory hlike).1
      rw [hshelf, Shelf.histories_expect, Multiset.mem_add, Multiset.mem_coe,
        (hperm.map some).mem_iff] at hid
      rcases hid with hid | hid
      · exact h.sound id hid
      · exact List.map_subset some (h.stale n k (hasked.trans hlists)) hid
  · intro m j huser
    rw [hr.asked] at huser
    rw [hsnapshot, hhistory]
    exact h.stale m j (State.asked_of_answer huser)
  · intro id hid
    rw [hhistory] at hid
    cases hlists : link.lists with
    | none =>
      refine (h.complete id hid).imp (hr.shelf.mem_histories hlists hitems (some id)).mpr ?_
      rintro ⟨m, j, huser, hin⟩
      refine ⟨m, j, (hkept m j huser).resolve_left fun hmj => ?_, hsnapshot (m, j) ▸ hin⟩
      obtain ⟨rfl, rfl⟩ := Prod.mk.inj hmj
      rw [hasked, hlists] at huser
      cases huser
    | some user =>
      obtain ⟨data, history, like, hl, hreply, hhistory, hlike, hshelf⟩ := hr.shelf.lists_arrive hlists
      have hperm := (hr.arrays user data history like hl hreply hhistory hlike).1
      rw [hshelf, Shelf.histories_expect, Multiset.mem_add, Multiset.mem_coe, (hperm.map some).mem_iff]
      rcases h.complete id hid with hin | ⟨m, j, huser, hin⟩
      · exact .inl (.inl hin)
      · rcases hkept m j huser with hmj | huser
        · rw [hmj] at hin
          exact .inl (.inr (List.mem_map_of_mem hin))
        · exact .inr ⟨m, j, huser, hsnapshot (m, j) ▸ hin⟩

theorem read {n k : ℕ} (hlookup : s.answers.lookup (n, k) = none)
    (hasked : s.app.asked n k = some UserID) : Tracks UserID (s.onRead n k UserID) where
  toServes := h.toServes.read hlookup hasked
  nodup := h.nodup
  sound := h.sound
  stale m j huser := by
    rw [snapshot_onRead hlookup]
    exact h.stale m j huser
  complete id hid := by
    simp only [snapshot_onRead hlookup]
    exact h.complete id hid

/-- A poster that arrives for a comic of the list puts it there once more. -/
theorem not_nodup {e : Event} (hscope : OpensOrLogsIn UserID s e) (hsucceeds : Succeeds s e)
    (hlisted : ¬ Unlisted s e) (hstep : CloudSession.step s e = some t) :
    ¬ t.app.shelf.listHistory.Nodup := by
  intro hnodup
  apply hlisted
  unfold Unlisted
  split
  · rename_i n k data
    intro comic hcomic hin
    obtain ⟨link, hlink, hposter⟩ := Option.bind_eq_some_iff.mp hcomic
    have hposter := historyPoster_eq_some.mp hposter
    have hshelf : link.comic ≠ none := by
      rw [hposter]
      nofun
    have hreceives := h.toServes.receives hstep hlink (.inl hshelf) (hsucceeds link hlink)
    rw [(hreceives.shelf.poster_arrives hposter).2] at hnodup
    exact List.disjoint_of_nodup_append hnodup hin (List.mem_singleton_self _)
  · trivial

theorem step {e : Event} (hscope : OpensOrLogsIn UserID s e) (hsucceeds : Succeeds s e)
    (hunlisted : Unlisted s e) (hstep : step s e = some t) : Tracks UserID t := by
  rcases hscope with ⟨hbrowses, hposter⟩ | hlogs
  · cases h.toServes.browses hbrowses hsucceeds hstep with
    | selects id t hselects => exact h.restarts hselects.restarts
    | opens id t hid hopens => exact h.opens hopens
    | read n k hlookup hasked => exact h.read hlookup hasked
    | receives n k link reply t hlink hreceives =>
      refine h.receives hreceives hlink ?_ ?_
      · rintro listing rfl
        exact of_decide_eq_true hposter
      · intro comic hcomic
        obtain ⟨⟨data, rfl⟩, -⟩ := hreceives.shelf.poster_arrives hcomic
        refine hunlisted comic ?_
        rw [hlink, Option.bind_some]
        exact historyPoster_eq_some.mpr hcomic
  · cases e with
    | app e => exact h.restarts (h.toServes.logsIn hlogs hstep)
    | _ => cases hlogs

theorem historyAgrees : HistoryAgrees UserID s := by
  refine ⟨h.nodup, fun hidle id => ?_⟩
  have hlink (n k : ℕ) (l : Link) : s.app.link n k ≠ some l :=
    fun hl => State.not_idle_of_link hl hidle
  have hcoming : s.app.shelf.history = 0 :=
    State.coming_eq_zero (fun n k l hl => absurd hl (hlink n k l)) _
  have hhistories : id ∈ s.app.shelf.histories ↔ id ∈ s.app.shelf.listHistory := by
    rw [Shelf.histories, hcoming, add_zero, Multiset.mem_coe]
  rw [← hhistories]
  refine ⟨h.sound id, fun hid => ?_⟩
  obtain ⟨comic, hcomic, rfl⟩ := List.mem_map.mp hid
  refine (h.complete comic hcomic).resolve_right ?_
  rintro ⟨n, k, hasked, -⟩
  obtain ⟨link, hl, -⟩ := Option.bind_eq_some_iff.mp hasked
  exact hlink n k link hl

end Tracks

/-- In the runs of one user the history has no duplicates, and agrees with the server once no request
is in flight, exactly if no poster arrives for `Shelf.DownloadList` whose comic is already listed. -/
theorem history_agrees {UserID : String} {s t : State} {es : List Event} (hbegun : Begun UserID s)
    (hscope : Along step (OpensOrLogsIn UserID) s es) (hsucceeds : Along step Succeeds s es)
    (hrun : run step s es = some t) :
    Throughout step (HistoryAgrees UserID) s es ↔ Along step Unlisted s es := by
  obtain ⟨r, hfresh⟩ := hbegun.fresh
  exact throughout_iff_along_of step (I := Tracks UserID) (fun _ h => h.historyAgrees)
    (fun _ _ _ h hA hC => h.step hA.1 hA.2 hC)
    (fun _ _ _ h hA hC hstep hP => h.not_nodup hA.1 hA.2 hC hstep hP.1)
    hfresh.tracks (hscope.and step hsucceeds) hrun

def openedWhileLoading (order : List ℕ) : List Event :=
  [.app (.action (.select (some "c"))), .app (.action .viewDidLoad), .read 1 1,
    .app (.reply 1 1 (.user (some { newDocument with comicHistory := some ["c"] }))),
    .app (.reply 1 2 (.comic (some comicDocument))), .app (.reply 1 4 (.comic (some comicDocument))),
    .app (.reply 1 3 (.listing (.success (1, 1))))] ++
  order.map fun k => .app (.reply 1 k (.data []))

theorem history_agrees_openedWhileLoading :
    Throughout step (HistoryAgrees "a") signedIn (openedWhileLoading [5, 6]) ↔
      Along step Unlisted signedIn (openedWhileLoading [5, 6]) :=
  history_agrees begun_signedIn (by decide +kernel) (by decide +kernel)
    (Option.some_get (x := run step signedIn (openedWhileLoading [5, 6])) (by decide +kernel)).symm

theorem not_history_agrees : ¬ ∀ (UserID : String) (s t : State) (es : List Event), Begun UserID s →
    Along step (OpensOrLogsIn UserID) s es → Along step Succeeds s es → run step s es = some t →
    HistoryAgrees UserID t := by
  intro h
  have hrun := (Option.some_get (x := run step signedIn (openedWhileLoading [6, 5]))
    (by decide +kernel)).symm
  have hagrees := h "a" signedIn _ (openedWhileLoading [6, 5]) begun_signedIn (by decide +kernel)
    (by decide +kernel) hrun
  have hnodup := hagrees.1
  revert hnodup
  decide +kernel

end ComicApp.CloudSession
