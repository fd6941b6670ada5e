import ComicApp.CloudSession
import ComicApp.ShelfRequests

/-!
# The lists of one user

`Shelf.DownloadList` is started for a user whose document exists, when the app starts or by a login,
while the shelf is empty. From then on the app serves this user. A request for the lists brings the
document as the client takes it at some time between the request and the reply: until then a write to
the document still changes what the request brings.
-/

namespace ComicApp.CloudSession
open EventMachine AccountSession

def ids (field : Profile → Option IdArray) (document : Option Profile) : List String :=
  (document.bind field).elim [] IdArray.ids

theorem nodup_ids (field : Profile → Option IdArray) (document : Option Profile) :
    (ids field document).Nodup := by
  unfold ids
  cases document.bind field with
  | none => exact List.nodup_nil
  | some array => exact array.nodup

theorem ids_getD (field : Profile → Option IdArray) (p : Profile) :
    ((field p).getD .empty).ids = ids field (some p) := by
  unfold ids
  rw [Option.bind_some]
  cases field p <;> rfl

namespace State
variable (s : State) (UserID : String)

def comicHistory : List String := ids Profile.comicHistory (s.users UserID)

def comicLike : List String := ids Profile.comicLike (s.users UserID)

/-- What a request for the lists of the user brings as things stand. -/
def snapshot (r : Ref) : Option Profile := (s.answers.lookup r).getD (s.users UserID)

end State

structure Regular (s : State) : Prop where
  identified : s.app.Identified
  sessions : 0 < s.app.sessions.length
  issued : ∀ a ∈ s.answers, s.app.Issued a.1.1 a.1.2

theorem regular_launch (users : String → Option Profile) (accounts : List String) :
    Regular (launch users accounts) where
  identified := State.shaped_start _ [] (by simp)
  sessions := Nat.one_pos
  issued := by simp [launch]

theorem lookup_onRead (s : State) (n k : ℕ) (UserID : String) (r : Ref) :
    (s.onRead n k UserID).answers.lookup r =
      if r = (n, k) then some (s.users UserID) else s.answers.lookup r := by
  rw [State.onRead, List.lookup_cons]
  by_cases hr : r = (n, k)
  · simp [hr]
  · rw [if_neg hr, beq_false_of_ne hr]

namespace Regular
variable {s t : State} (h : Regular s)
include h

theorem issued_of_lookup {r : Ref} {a : Option Profile} (ha : s.answers.lookup r = some a) :
    s.app.Issued r.1 r.2 := by
  obtain ⟨l₁, l₂, hl, -⟩ := List.lookup_eq_some_iff.mp ha
  exact h.issued (r, a) (by simp [hl])

theorem app {e : AccountSession.Event} {app : AccountSession.State}
    (hstep : AccountSession.step s.app e = some app) : Regular (s.onApp e app) where
  identified := h.identified.step State.kept_identified (by unfold Event.Accepts; split <;> trivial)
    hstep
  sessions := (step_opened h.sessions hstep).1
  issued a ha := by
    unfold State.onApp at ha
    dsimp only at ha
    split_ifs at ha with he
    · cases ha
    · exact (step_placed hstep he (h.issued a ha)).1

theorem read {n k : ℕ} {UserID : String} (hasked : s.app.asked n k = some UserID) :
    Regular (s.onRead n k UserID) where
  identified := h.identified
  sessions := h.sessions
  issued a ha := by
    rcases List.mem_cons.mp ha with rfl | ha
    · obtain ⟨link, hlink, -⟩ := Option.bind_eq_some_iff.mp hasked
      exact State.issued_of_link hlink
    · exact h.issued a ha

theorem step {e : Event} (hstep : step s e = some t) : Regular t := by
  cases e with
  | app e =>
    obtain ⟨-, app, happ, rfl⟩ := step_app hstep
    exact h.app happ
  | read n k =>
    obtain ⟨-, UserID, hasked, rfl⟩ := step_read hstep
    exact h.read hasked
  | setData i succeeds =>
    obtain ⟨uid, -, rfl⟩ := Option.map_eq_some_iff.mp hstep
    exact ⟨h.identified, h.sessions, h.issued⟩

/-- For a request that an event sends, nothing has been taken yet. -/
theorem asked_or_unread {e : AccountSession.Event} {app : AccountSession.State}
    (hstep : AccountSession.step s.app e = some app) (he : e ≠ .action .relaunch) {n k : ℕ}
    {user : String} (hasked : app.asked n k = some user) :
    s.app.asked n k = some user ∨ s.answers.lookup (n, k) = none := by
  cases ha : s.answers.lookup (n, k) with
  | none => exact .inr rfl
  | some a =>
    obtain ⟨-, hlink⟩ := step_placed hstep he (h.issued_of_lookup ha)
    unfold State.asked at hasked ⊢
    rcases hlink with hlink | hlink
    · exact .inl (hlink ▸ hasked)
    · rw [hlink] at hasked
      cases hasked

end Regular

def Reachable (s : State) : Prop :=
  ∃ (users : String → Option Profile) (accounts : List String) (es : List Event),
    run step (launch users accounts) es = some s

theorem Reachable.regular {s : State} (h : Reachable s) : Regular s := by
  obtain ⟨users, accounts, es, hrun⟩ := h
  exact run_invariant step (regular_launch users accounts) (fun _ _ _ hregular _ => hregular.step)
    (along_true step _ es) hrun

structure Serves (UserID : String) (s : State) : Prop extends Regular s where
  signedIn : s.app.UserID = some UserID
  full : s.Full UserID
  asked : ∀ n k user, s.app.asked n k = some user → user = UserID
  snapshots : ∀ n k, s.app.asked n k = some UserID →
    ∃ p, s.snapshot UserID (n, k) = some p ∧ p.Full

/-- As long as the client has not taken the document for a request, taking it changes nothing. -/
theorem snapshot_onRead {s : State} {n k : ℕ} (hlookup : s.answers.lookup (n, k) = none)
    (UserID : String) (r : Ref) :
    (s.onRead n k UserID).snapshot UserID r = s.snapshot UserID r := by
  unfold State.snapshot
  rw [lookup_onRead]
  split_ifs with hr
  · rw [hr, hlookup]
    rfl
  · rfl

/-- The requests bring the same as long as what the client has taken for them and the array do not
change. -/
theorem ids_snapshot {s t : State} {UserID : String} {field : Profile → Option IdArray}
    (hanswers : t.answers = s.answers)
    (husers : ids field (t.users UserID) = ids field (s.users UserID)) (r : Ref) :
    ids field (t.snapshot UserID r) = ids field (s.snapshot UserID r) := by
  unfold State.snapshot
  rw [hanswers]
  cases s.answers.lookup r with
  | none => exact husers
  | some a => rfl

namespace Serves
variable {s t : State} {UserID : String} (h : Serves UserID s)
include h

theorem app {e : AccountSession.Event} {app : AccountSession.State} (hadmits : s.Admits e)
    (hstep : AccountSession.step s.app e = some app) (he : e ≠ .action .relaunch)
    (huser : app.UserID = s.app.UserID) (hstarted : ∀ user ∈ s.app.started e, user = UserID) :
    Serves UserID (s.onApp e app) where
  toRegular := h.toRegular.app hstep
  signedIn := huser.trans h.signedIn
  full := h.full.onApp fun _ huid => (hadmits.created huid).2
  asked n k user hasked := by
    rcases step_asked hstep hasked with hasked | hasked
    · exact h.asked n k user hasked
    · exact hstarted user hasked
  snapshots n k hasked := by
    obtain ⟨p, hp, hfull⟩ : (s.onApp e app).Full UserID :=
      h.full.onApp fun _ huid => (hadmits.created huid).2
    have hanswers : (s.onApp e app).answers = s.answers := if_neg he
    unfold State.snapshot
    rw [hanswers]
    cases ha : s.answers.lookup (n, k) with
    | none => exact ⟨p, hp, hfull⟩
    | some a =>
      rcases h.asked_or_unread hstep he hasked with hasked | hunread
      · obtain ⟨q, hq, hfull⟩ := h.snapshots n k hasked
        rw [State.snapshot, ha] at hq
        exact ⟨q, hq, hfull⟩
      · rw [hunread] at ha
        cases ha

theorem read {n k : ℕ} (hlookup : s.answers.lookup (n, k) = none)
    (hasked : s.app.asked n k = some UserID) : Serves UserID (s.onRead n k UserID) where
  toRegular := h.toRegular.read hasked
  signedIn := h.signedIn
  full := h.full
  asked := h.asked
  snapshots m j hasked := by
    rw [snapshot_onRead hlookup]
    exact h.snapshots m j hasked

end Serves

structure Selects (UserID : String) (s t : State) : Prop where
  serves : Serves UserID t
  shelf : t.app.shelf = s.app.shelf
  openPage : t.app.openPage = s.app.openPage
  asked : t.app.asked = s.app.asked
  users : t.users = s.users
  answers : t.answers = s.answers

structure Opens (UserID id : String) (s t : State) : Prop where
  serves : Serves UserID t
  shelf : t.app.shelf = s.app.shelf.expect {some id} 0
  openPage : t.app.openPage = some ⟨some id, decide (some id ∈ s.app.shelf.listLike)⟩
  asked : t.app.asked = s.app.asked
  users : t.users UserID = (s.users UserID).map (.addToHistory id)
  answers : t.answers = s.answers

structure Receives (UserID : String) (n k : ℕ) (link : Link) (reply : Reply) (s t : State) :
    Prop where
  serves : Serves UserID t
  shelf : Shelf.Moves (fun comic => s.app.idComic (n, comic)) link reply s.app.shelf t.app.shelf
  screen : t.app.screen = s.app.screen
  asked : t.app.asked = (s.app.answer n k).asked
  users : t.users = s.users
  answers : t.answers = s.answers
  arrays : ∀ user data history like, link = .userDocument user → reply = .user (some data) →
    data.comicHistory = some history → data.comicLike = some like →
    history.Perm (ids Profile.comicHistory (s.snapshot UserID (n, k))) ∧
      like.Perm (ids Profile.comicLike (s.snapshot UserID (n, k)))

namespace Serves
variable {s t : State} {UserID : String} (h : Serves UserID s)
include h

theorem selects {id : Option String} (hstep : step s (.app (.action (.select id))) = some t) :
    Selects UserID s t := by
  obtain ⟨hadmits, app, happ, rfl⟩ := step_app hstep
  obtain rfl := Option.some.inj (step_action happ).2
  exact ⟨h.app hadmits happ nofun rfl nofun, rfl, rfl, rfl, rfl, rfl⟩

theorem opens {id : String} (hstep : step s (.app (.action .viewDidLoad)) = some t)
    (hid : s.app.id = some id) : Opens UserID id s t := by
  obtain ⟨hadmits, app, happ, rfl⟩ := step_app hstep
  obtain rfl := Option.some.inj (step_action happ).2
  have hscreen := State.screen_onViewDidLoad h.identified h.sessions hid
  refine ⟨h.app hadmits happ nofun (congrArg Prod.fst hscreen) nofun, ?_, ?_, ?_, ?_, rfl⟩
  · exact State.shelf_onViewDidLoad h.identified h.sessions hid
  · exact State.openPage_onViewDidLoad h.identified h.sessions hid
  · exact State.settled_asked.toShelved.onViewDidLoad s.app
  · have hwritten : written s.app (.action .viewDidLoad) = some (UserID, [.addToHistory id]) := by
      rw [written, hid, h.signedIn]
      rfl
    exact onApp_users hwritten

/-- The document that arrives is what the request brings. -/
theorem arrays_snapshot {n k : ℕ} {document : Option UserDocument}
    (hasked : s.app.asked n k = some UserID) (hadmits : s.Admits (.reply n k (.user document))) :
    ∃ data history like, document = some data ∧ data.comicHistory = some history ∧
      data.comicLike = some like ∧
      history.Perm (ids Profile.comicHistory (s.snapshot UserID (n, k))) ∧
      like.Perm (ids Profile.comicLike (s.snapshot UserID (n, k))) := by
  have hne : s.app.asked n k ≠ none := by
    rw [hasked]
    nofun
  obtain ⟨answer, hanswer, hshown⟩ := hadmits hne
  obtain ⟨p, hp, hfull⟩ := h.snapshots n k hasked
  have hanswer : answer = some p := by
    rw [State.snapshot, Option.mem_def.mp hanswer] at hp
    exact hp
  subst hanswer
  cases hshown with
  | some hshows =>
    obtain ⟨⟨history, hhistory, hhistoryPerm⟩, like, hlike, hlikePerm⟩ := hfull.shown hshows
    rw [hp]
    exact ⟨_, history, like, rfl, hhistory, hlike, hhistoryPerm, hlikePerm⟩

theorem receives {n k : ℕ} {link : Link} {reply : Reply}
    (hstep : step s (.app (.reply n k reply)) = some t) (hlink : s.app.link n k = some link)
    (hshelf : link.comic ≠ none ∨ link.lists ≠ none) (hsucceeds : link.succeeds reply = true) :
    Receives UserID n k link reply s t := by
  obtain ⟨hadmits, app, happ, rfl⟩ := step_app hstep
  obtain ⟨-, link', hlink', hcallback⟩ := step_reply happ
  obtain rfl : link = link' := Option.some.inj (hlink.symm.trans hlink')
  have hstarted : s.app.started (.reply n k reply) = none := by
    cases reply with
    | uid uid =>
      refine if_neg fun hsignIn => ?_
      obtain rfl : link = .signIn := Option.some.inj (hlink.symm.trans hsignIn)
      simp at hshelf
    | _ => rfl
  have hcreated : s.app.created (.reply n k reply) = none := by
    cases reply with
    | uid uid =>
      refine if_neg fun hcreateUser => ?_
      obtain rfl : link = .createUser := Option.some.inj (hlink.symm.trans hcreateUser)
      simp at hshelf
    | _ => rfl
  have hwritten : written s.app (.reply n k reply) = none := by
    simp only [written, hcreated, hstarted, Option.map_none]
  have harrays (user : String) (document : Option UserDocument) (hl : link = .userDocument user)
      (hreply : reply = .user document) : ∃ data history like, document = some data ∧
        data.comicHistory = some history ∧ data.comicLike = some like ∧
        history.Perm (ids Profile.comicHistory (s.snapshot UserID (n, k))) ∧
        like.Perm (ids Profile.comicLike (s.snapshot UserID (n, k))) := by
    subst hl hreply
    have hasked : s.app.asked n k = some user := by
      rw [State.asked, hlink]
      rfl
    obtain rfl := h.asked n k user hasked
    exact h.arrays_snapshot hasked hadmits
  have hscreen := (State.fed_screen.callback hcallback hshelf).trans (State.screen_answer s.app n k)
  refine ⟨h.app hadmits happ (by simp) (congrArg Prod.fst hscreen) (by simp [hstarted]), ?_, hscreen, ?_, ?_,
    rfl, fun user data history like hl hreply hhistory hlike => ?_⟩
  · refine State.Callback.moves h.identified hlink hcallback hsucceeds hshelf ?_
    intro user document hl hreply
    obtain ⟨data, history, like, hdata, hhistory, hlike, -⟩ := harrays user document hl hreply
    exact ⟨data, history, like, hdata, hhistory, hlike⟩
  · exact State.settled_asked.toFed.callback hcallback hshelf
  · simp only [State.onApp, hwritten, Option.elim_none]
  · obtain ⟨data', history', like', hdata, hhistory', hlike', harrays⟩ :=
      harrays user (some data) hl hreply
    obtain rfl := Option.some.inj hdata
    obtain rfl := Option.some.inj (hhistory.symm.trans hhistory')
    obtain rfl := Option.some.inj (hlike.symm.trans hlike')
    exact harrays

end Serves

structure Fresh (UserID : String) (r : Ref) (s : State) : Prop extends Serves UserID s where
  shelf : s.app.shelf = ⟨[], [], 0, 0⟩
  openPage : s.app.openPage = none
  asked_iff : ∀ n k user, s.app.asked n k = some user ↔ (n, k) = r ∧ user = UserID
  unread : s.answers.lookup r = none

/-- `Shelf.DownloadList` is started for a user who has a document: at the start of the app, or by the
reply to a login while the shelf is empty and only logins are waited for. -/
inductive Begun (UserID : String) : State → Prop where
  | startUp {s t : State} (hreach : Reachable s) (hstep : step s (.app (.action .relaunch)) = some t)
      (huser : t.app.UserID = some UserID) (hdocument : s.users UserID ≠ none) : Begun UserID t
  | login {s t : State} {n k : ℕ} (hreach : Reachable s)
      (hwaits : ∀ m j l, s.app.link m j = some l → l = .signIn)
      (hempty : s.app.listHistory = [] ∧ s.app.listLike = []) (hpage : s.app.openPage = none)
      (hstep : step s (.app (.reply n k (.uid UserID))) = some t)
      (hdocument : s.users UserID ≠ none) : Begun UserID t

section Begin
variable {UserID : String}

structure Ready (UserID : String) (n : ℕ) (app : AccountSession.State) : Prop where
  identified : app.Identified
  signedIn : app.UserID = some UserID
  session : n < app.sessions.length
  lists : app.listHistory = [] ∧ app.listLike = []
  links : ∀ m j l, app.link m j = some l → l = .signIn
  openPage : app.openPage = none

theorem Ready.asked {n : ℕ} {app : AccountSession.State} (h : Ready UserID n app) (m j : ℕ) :
    app.asked m j = none := by
  unfold State.asked
  cases hl : app.link m j with
  | none => rfl
  | some l =>
    rw [h.links m j l hl]
    rfl

theorem Ready.shelf {n : ℕ} {app : AccountSession.State} (h : Ready UserID n app) :
    app.shelf = ⟨[], [], 0, 0⟩ := by
  have hcomic (m j : ℕ) (l : Link) (hl : app.link m j = some l) : l.comic = none := by
    rw [h.links m j l hl]
    rfl
  unfold State.shelf
  rw [h.lists.1, h.lists.2, State.coming_eq_zero hcomic, State.coming_eq_zero hcomic]
  rfl

/-- One request is sent then, and nothing else changes. -/
theorem Ready.fresh {n : ℕ} {app : AccountSession.State} (h : Ready UserID n app) :
    ∃ r, ¬ app.Issued r.1 r.2 ∧ ∀ t : State, Regular t → t.Full UserID → t.answers.lookup r = none →
      t.app.shelf = (app.DownloadList n).shelf → t.app.screen = (app.DownloadList n).screen →
      t.app.asked = (app.DownloadList n).asked → Fresh UserID r t := by
  obtain ⟨S, hS⟩ : ∃ S, app.sessions[n]? = some S := ⟨_, List.getElem?_eq_getElem h.session⟩
  have hnew : ¬ app.Issued n S.links.length := by
    rintro ⟨S', hS', hlt⟩
    rw [hS] at hS'
    obtain rfl := Option.some.inj hS'
    exact hlt.false
  refine ⟨(n, S.links.length), hnew, fun t hregular hfull hunread hshelf hscreen hasked => ?_⟩
  rw [State.screen_DownloadList] at hscreen
  have hasked_iff (m j : ℕ) (user : String) :
      t.app.asked m j = some user ↔ (m, j) = (n, S.links.length) ∧ user = UserID := by
    rw [hasked, State.DownloadList, h.signedIn]
    dsimp only
    rw [State.asked_send hS, h.asked m j]
    split_ifs with hmj
    · simp [hmj, eq_comm]
    · simp [hmj]
  refine ⟨⟨hregular, ?_, hfull, fun m j user huser => ((hasked_iff m j user).mp huser).2, ?_⟩, ?_,
    ?_, hasked_iff, hunread⟩
  · exact (congrArg Prod.fst hscreen).trans h.signedIn
  · intro m j huser
    obtain ⟨p, hp, hprofile⟩ := hfull
    exact ⟨p, by rw [State.snapshot, ((hasked_iff m j UserID).mp huser).1, hunread]; exact hp, hprofile⟩
  · rw [hshelf, State.shelf_DownloadList h.identified, h.shelf]
  · rw [State.openPage, hscreen]
    exact h.openPage

/-- A new process is ready in its last session. -/
theorem ready_boot {luser : List LUser} {sessions : List Session} (hpos : 0 < sessions.length)
    (huser : (State.boot luser (sessions.map fun _ => {})).UserID = some UserID) :
    Ready UserID ((sessions.map fun _ => ({} : Session)).length - 1)
      (State.boot luser (sessions.map fun _ => {})) where
  identified := ⟨by simp [State.boot, Session.shaped_empty], by simp [State.boot], by simp [State.boot]⟩
  signedIn := huser
  session := by
    simp only [State.boot, List.length_map]
    omega
  lists := ⟨rfl, rfl⟩
  links m j l hl := by
    simp only [State.link, State.boot, List.getElem?_map] at hl
    cases hS : sessions[m]? <;> simp [hS] at hl
  openPage := by
    have hpages (pages : List Page) (h : (List.replicate sessions.length []).getLast? = some pages) :
        pages = [] := List.eq_of_mem_replicate (List.mem_of_getLast? h)
    simpa [State.openPage, State.screen, State.boot] using hpages

theorem ready_signIn {app : AccountSession.State} {n k : ℕ} {l : Link} (hid : app.Identified)
    (hlink : app.link n k = some l) (hwaits : ∀ m j l, app.link m j = some l → l = .signIn)
    (hempty : app.listHistory = [] ∧ app.listLike = []) (hpage : app.openPage = none) :
    Ready UserID n { app.answer n k with UserID := some UserID } where
  identified := State.apart_shaped.UserID _ _ (hid.answer n k)
  signedIn := rfl
  session := by
    have hlt := State.link_lt hlink
    rwa [← State.modify_length] at hlt
  lists := hempty
  links m j l hl := by
    have hl : (app.answer n k).link m j = some l := hl
    by_cases hmj : (m, j) = (n, k)
    · obtain ⟨rfl, rfl⟩ := Prod.mk.inj hmj
      rw [State.link_answer_self] at hl
      cases hl
    · rw [State.link_answer app hmj] at hl
      exact hwaits m j l hl
  openPage := by
    have hscreen : (app.answer n k).openPage = app.openPage :=
      congrArg (fun screen => screen.2.2.getLast?.bind List.getLast?) (State.screen_answer app n k)
    exact hscreen.trans hpage

theorem Begun.fresh {s : State} (h : Begun UserID s) : ∃ r, Fresh UserID r s := by
  cases h with
  | @startUp s t hreach hstep huser hdocument =>
    obtain ⟨-, app, happ, rfl⟩ := step_app hstep
    obtain rfl := Option.some.inj (step_action happ).2
    have hboot : (State.boot s.app.luser (s.app.sessions.map fun _ => {})).UserID = some UserID :=
      (congrArg Prod.fst (State.screen_DownloadList _ _)).symm.trans huser
    obtain ⟨r, -, hfresh⟩ := (ready_boot hreach.regular.sessions hboot).fresh
    exact ⟨r, hfresh _ (hreach.regular.app happ) (.started (e := .action .relaunch) hboot hdocument)
      rfl rfl rfl rfl⟩
  | @login s t n k hreach hwaits hempty hpage hstep hdocument =>
    obtain ⟨-, app, happ, rfl⟩ := step_app hstep
    obtain ⟨-, link, hlink, hcallback⟩ := step_reply happ
    obtain rfl := hwaits n k link hlink
    have hready : Ready UserID n { s.app.answer n k with UserID := some UserID } :=
      ready_signIn hreach.regular.identified hlink hwaits hempty hpage
    obtain ⟨r, hnew, hfresh⟩ := hready.fresh
    have hunread : s.answers.lookup r = none := by
      by_contra ha
      obtain ⟨a, ha⟩ := Option.ne_none_iff_exists'.mp ha
      exact hnew (State.issued_answer (hreach.regular.issued_of_lookup ha) n k)
    have hstarted : s.app.started (.reply n k (.uid UserID)) = some UserID := if_pos hlink
    cases hcallback with
    | signIn uid =>
      exact ⟨r, hfresh _ (hreach.regular.app happ) (.started hstarted hdocument) hunread rfl rfl rfl⟩

end Begin

def Browses (s : State) : Event → Prop
  | .app (.action (.select _)) => True
  | .app (.action .viewDidLoad) => s.app.id ≠ none
  | .app (.reply n k _) => ∃ link ∈ s.app.link n k, link.comic ≠ none ∨ link.lists ≠ none
  | .read _ _ => True
  | _ => False

instance decidableBrowses (s : State) : ∀ e, Decidable (Browses s e)
  | .app (.action .viewDidLoad) => inferInstanceAs (Decidable (s.app.id ≠ none))
  | .app (.reply n k _) => inferInstanceAs
      (Decidable (∃ link ∈ s.app.link n k, link.comic ≠ none ∨ link.lists ≠ none))
  | .app (.action (.select _)) | .read _ _ => .isTrue trivial
  | .app (.action .login) | .app (.action .loginTapped) | .app (.action .CancelLogin)
  | .app (.action .signUpTapped) | .app (.action .accountDidLoad)
  | .app (.action .accountWillAppear) | .app (.action (.Save _)) | .app (.action (.Like _ _))
  | .app (.action (.pathUpdate _)) | .app (.action .relaunch) | .setData _ _ => .isFalse id

def Succeeds (s : State) : Event → Prop
  | .app (.reply n k reply) => ∀ link ∈ s.app.link n k, link.succeeds reply = true
  | _ => True

instance decidableSucceeds (s : State) : ∀ e, Decidable (Succeeds s e)
  | .app (.reply n k reply) =>
    inferInstanceAs (Decidable (∀ link ∈ s.app.link n k, link.succeeds reply = true))
  | .app (.action _) | .read _ _ | .setData _ _ => .isTrue trivial

inductive Browsed (UserID : String) (s : State) : Event → State → Prop where
  | selects (id : Option String) (t : State) (h : Selects UserID s t) :
      Browsed UserID s (.app (.action (.select id))) t
  | opens (id : String) (t : State) (hid : s.app.id = some id) (h : Opens UserID id s t) :
      Browsed UserID s (.app (.action .viewDidLoad)) t
  | receives (n k : ℕ) (link : Link) (reply : Reply) (t : State)
      (hlink : s.app.link n k = some link) (h : Receives UserID n k link reply s t) :
      Browsed UserID s (.app (.reply n k reply)) t
  | read (n k : ℕ) (hlookup : s.answers.lookup (n, k) = none)
      (hasked : s.app.asked n k = some UserID) :
      Browsed UserID s (.read n k) (s.onRead n k UserID)

theorem Serves.browses {s t : State} {UserID : String} {e : Event} (h : Serves UserID s)
    (hbrowses : Browses s e) (hsucceeds : Succeeds s e) (hstep : step s e = some t) :
    Browsed UserID s e t := by
  cases e with
  | read n k =>
    obtain ⟨hlookup, user, hasked, rfl⟩ := step_read hstep
    obtain rfl := h.asked n k user hasked
    exact .read n k hlookup hasked
  | setData i succeeds => cases hbrowses
  | app e =>
    cases e with
    | reply n k reply =>
      obtain ⟨link, hlink, hshelf⟩ := hbrowses
      exact .receives n k link reply t hlink (h.receives hstep hlink hshelf (hsucceeds link hlink))
    | action a =>
      cases a with
      | select id => exact .selects id t (h.selects hstep)
      | viewDidLoad =>
        obtain ⟨id, hid⟩ := Option.ne_none_iff_exists'.mp hbrowses
        exact .opens id t hid (h.opens hstep hid)
      | _ => cases hbrowses

def waiting : State :=
  (run step (launch (fun _ => some ⟨some .empty, some .empty⟩) ["a"])
    [.app (.action .login), .app (.action .loginTapped)]).get (by decide +kernel)

def signedIn : State := (step waiting (.app (.reply 1 0 (.uid "a")))).get (by decide +kernel)

theorem begun_signedIn : Begun "a" signedIn := by
  have hsessions : waiting.app.sessions = [{}, { links := [some .signIn] }] := by decide +kernel
  have hwaits (m j : ℕ) (l : Link) (hl : waiting.app.link m j = some l) : l = .signIn := by
    rw [State.link, hsessions] at hl
    rcases m with _ | _ | m
    · simp at hl
    · rcases j with _ | j
      · exact (Option.some.inj hl).symm
      · simp at hl
    · simp at hl
  have hreach : Reachable waiting := ⟨_, _, _, (Option.some_get _).symm⟩
  exact .login hreach hwaits ⟨by decide +kernel, by decide +kernel⟩ (by decide +kernel)
    (Option.some_get _).symm (by decide +kernel)

def comicDocument : ComicDocument where
  name := some "c"
  totalChap := some 1
  posterPath := some "c.jpg"
  author := some "An"
  category := some "Action"

end ComicApp.CloudSession
