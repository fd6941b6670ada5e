import ComicApp.ListRequests

/-!
# Sessions over the remote user documents

The documents of the `Users` collection as far as the two shelf arrays go, and the accounts of the
sign-in service. A document is what this device sees of it: the client puts the writes that it has
queued over what the backend holds, and no other device writes the document. The app writes the arrays
with `arrayUnion` and `arrayRemove` only; the client sees such a write at once, where there is a
document. Between a request of `Shelf.DownloadList` and its reply the client takes the document as it
sees it then. The document of a new account is created by `setData`, which may still be refused after
the app has moved on; the writes queued behind it are then lost as well.
-/

namespace ComicApp.CloudSession
open EventMachine AccountSession

instance decidableRel {α β : Type} {r : α → β → Prop} [DecidableRel r] : DecidableRel (Option.Rel r)
  | none, none => .isTrue .none
  | some a, some b => decidable_of_iff (r a b) Option.rel_some_some.symm
  | some _, none | none, some _ => .isFalse nofun

structure IdArray where
  ids : List String
  nodup : ids.Nodup
  deriving DecidableEq, Repr

namespace IdArray

def empty : IdArray := ⟨[], List.nodup_nil⟩

def union (array : IdArray) (id : String) : IdArray :=
  ⟨arrayUnion array.ids id, nodup_arrayUnion array.nodup⟩

def remove (array : IdArray) (id : String) : IdArray :=
  ⟨array.ids.filter (· ≠ id), array.nodup.filter _⟩

end IdArray

structure Profile where
  comicHistory : Option IdArray
  comicLike : Option IdArray
  deriving DecidableEq, Repr

namespace Profile

def addToHistory (id : String) (profile : Profile) : Profile :=
  { profile with comicHistory := some ((profile.comicHistory.getD .empty).union id) }

def toggleLike (tag : Bool) (id : String) (profile : Profile) : Profile :=
  let comicLike := profile.comicLike.getD .empty
  { profile with
    comicLike := some (if tag then comicLike.remove id else comicLike.union id) }

def Full (profile : Profile) : Prop := profile.comicHistory ≠ none ∧ profile.comicLike ≠ none

/-- The document shows these arrays; the ids may stand in another order. -/
def Shows (profile : Profile) (data : UserDocument) : Prop :=
  Option.Rel List.Perm data.comicHistory (profile.comicHistory.map IdArray.ids) ∧
    Option.Rel List.Perm data.comicLike (profile.comicLike.map IdArray.ids)

instance : DecidableRel Shows := fun _ _ => inferInstanceAs (Decidable (_ ∧ _))

end Profile

/-- A write to the arrays of a document: its creation by `setData`, one of the two updates with which
`Shelf.DownloadList` begins, or the update of an info page. -/
inductive ArrayWrite where
  | create
  | touchHistory
  | touchLike
  | addToHistory (id : String)
  | Like (tag : Bool) (id : String)
  deriving DecidableEq, Repr

/-- What becomes of the arrays; an update needs a document. -/
def ArrayWrite.perform (profile : Option Profile) : ArrayWrite → Option Profile
  | create => some ⟨none, none⟩
  | touchHistory => profile.map fun profile =>
    { profile with comicHistory := some (profile.comicHistory.getD .empty) }
  | touchLike => profile.map fun profile =>
    { profile with comicLike := some (profile.comicLike.getD .empty) }
  | addToHistory id => profile.map (.addToHistory id)
  | Like tag id => profile.map (.toggleLike tag id)

/-- `setData` lists the new accounts for whose documents the backend has no answer yet, and `answers`
what the client has taken for the requests of `Shelf.DownloadList`. -/
structure State where
  app : AccountSession.State
  users : String → Option Profile
  accounts : List String
  setData : List String
  answers : List (Ref × Option Profile)

inductive Event where
  | app (e : AccountSession.Event)
  | read (n k : ℕ)
  | setData (i : ℕ) (succeeds : Bool)
  deriving DecidableEq, Repr

/-- What an event writes to the document of which user. -/
def written (s : AccountSession.State) (e : AccountSession.Event) :
    Option (String × List ArrayWrite) :=
  match e with
  | .action .viewDidLoad => s.id.bind fun id =>
    s.UserID.map fun UserID => (UserID, [.addToHistory id])
  | .action (.Like n p) => (s.tag n p).bind fun tag =>
    s.UserID.map fun UserID => (UserID, [.Like tag (s.id.getD "")])
  | _ => match s.created e with
    | some uid => some (uid, [.create])
    | none => (s.started e).map fun UserID => (UserID, [.touchHistory, .touchLike])

namespace State

def update (s : State) (UserID : String) (ws : List ArrayWrite) : String → Option Profile :=
  Function.update s.users UserID (ws.foldl ArrayWrite.perform (s.users UserID))

/-- A reply with a document brings what was taken for the request, and only an account that exists
can sign in. -/
def Admits (s : State) : AccountSession.Event → Prop
  | .reply n k (.user document) => s.app.asked n k ≠ none →
    ∃ answer ∈ s.answers.lookup (n, k), Option.Rel Profile.Shows answer document
  | .reply n k (.uid uid) => if s.app.link n k = some .signIn then uid ∈ s.accounts
    else uid ∉ s.accounts ∧ s.users uid = none
  | _ => True

instance decidableAdmits (s : State) : ∀ e, Decidable (s.Admits e)
  | .reply n k (.user document) => inferInstanceAs (Decidable (s.app.asked n k ≠ none →
      ∃ answer ∈ s.answers.lookup (n, k), Option.Rel Profile.Shows answer document))
  | .reply n k (.uid uid) => inferInstanceAs (Decidable (if s.app.link n k = some .signIn then
      uid ∈ s.accounts else uid ∉ s.accounts ∧ s.users uid = none))
  | .reply _ _ .error | .reply _ _ (.comic _) | .reply _ _ (.listing _) | .reply _ _ (.data _)
  | .reply _ _ .metadata | .reply _ _ (.url _) | .action _ => .isTrue trivial

def onApp (s : State) (e : AccountSession.Event) (app : AccountSession.State) : State where
  app := app
  users := (written s.app e).elim s.users fun w => s.update w.1 w.2
  accounts := s.accounts ++ (s.app.created e).toList
  setData := s.setData ++ (s.app.created e).toList
  answers := if e = .action .relaunch then [] else s.answers

/-- The client takes the document that a request of `Shelf.DownloadList` asks for. -/
def onRead (s : State) (n k : ℕ) (UserID : String) : State :=
  { s with answers := ((n, k), s.users UserID) :: s.answers }

/-- The backend creates the document of a new account or refuses to, and then refuses the updates
behind it. -/
def onSetData (s : State) (i : ℕ) (uid : String) (succeeds : Bool) : State :=
  { s with
    users := if succeeds then s.users else Function.update s.users uid none
    setData := s.setData.eraseIdx i }

end State

def step (s : State) : Event → Option State
  | .app e => if s.Admits e then (AccountSession.step s.app e).map (s.onApp e) else none
  | .read n k =>
    if s.answers.lookup (n, k) = none then (s.app.asked n k).map (s.onRead n k) else none
  | .setData i succeeds => s.setData[i]?.map fun uid => s.onSetData i uid succeeds

theorem step_app {s t : State} {e : AccountSession.Event} (h : step s (.app e) = some t) :
    s.Admits e ∧ ∃ app, AccountSession.step s.app e = some app ∧ t = s.onApp e app := by
  unfold step at h
  dsimp only at h
  split_ifs at h with hadmits
  obtain ⟨app, happ, rfl⟩ := Option.map_eq_some_iff.mp h
  exact ⟨hadmits, app, happ, rfl⟩

theorem step_read {s t : State} {n k : ℕ} (h : step s (.read n k) = some t) :
    s.answers.lookup (n, k) = none ∧
      ∃ UserID, s.app.asked n k = some UserID ∧ t = s.onRead n k UserID := by
  unfold step at h
  dsimp only at h
  split_ifs at h with hlookup
  obtain ⟨UserID, hasked, rfl⟩ := Option.map_eq_some_iff.mp h
  exact ⟨hlookup, UserID, hasked, rfl⟩

def launch (users : String → Option Profile) (accounts : List String) : State where
  app := AccountSession.launch []
  users := users
  accounts := accounts
  setData := []
  answers := []

/-- `Shelf.DownloadList` is started only for users whose document is on the server. -/
def Documented (s : State) : Event → Prop
  | .app e => ∀ UserID ∈ s.app.started e, s.users UserID ≠ none ∧ UserID ∉ s.setData
  | _ => True

instance decidableDocumented (s : State) : ∀ e, Decidable (Documented s e)
  | .app e => inferInstanceAs
      (Decidable (∀ UserID ∈ s.app.started e, s.users UserID ≠ none ∧ UserID ∉ s.setData))
  | .read _ _ | .setData _ _ => .isTrue trivial

def Found (s : State) : Event → Prop
  | .app (.reply n k (.user document)) => s.app.asked n k ≠ none →
    s.Admits (.reply n k (.user document)) →
      document.bind UserDocument.comicHistory ≠ none ∧ document.bind UserDocument.comicLike ≠ none
  | _ => True

instance decidableFound (s : State) : ∀ e, Decidable (Found s e)
  | .app (.reply n k (.user document)) => inferInstanceAs (Decidable (s.app.asked n k ≠ none →
      s.Admits (.reply n k (.user document)) →
        document.bind UserDocument.comicHistory ≠ none ∧
          document.bind UserDocument.comicLike ≠ none))
  | .app (.reply _ _ .error) | .app (.reply _ _ (.comic _)) | .app (.reply _ _ (.listing _))
  | .app (.reply _ _ (.data _)) | .app (.reply _ _ (.uid _)) | .app (.reply _ _ .metadata)
  | .app (.reply _ _ (.url _)) | .app (.action _) | .read _ _ | .setData _ _ => .isTrue trivial

theorem exists_ids {shown : Option (List String)} {array : Option IdArray}
    (h : Option.Rel List.Perm shown (array.map IdArray.ids)) (harray : array ≠ none) :
    ∃ l, shown = some l ∧ l.Perm (array.elim [] IdArray.ids) := by
  obtain ⟨array, rfl⟩ := Option.ne_none_iff_exists'.mp harray
  cases h with
  | some hperm => exact ⟨_, rfl, hperm⟩

/-- Both arrays are in a document that shows them. -/
theorem Profile.Full.shown {profile : Profile} {data : UserDocument} (h : profile.Full)
    (hshows : profile.Shows data) :
    (∃ l, data.comicHistory = some l ∧ l.Perm (profile.comicHistory.elim [] IdArray.ids)) ∧
      ∃ l, data.comicLike = some l ∧ l.Perm (profile.comicLike.elim [] IdArray.ids) :=
  ⟨exists_ids hshows.1 h.1, exists_ids hshows.2 h.2⟩

/-- A new account has a new name. -/
theorem State.Admits.created {s : State} {e : AccountSession.Event} {uid : String}
    (h : s.Admits e) (hcreated : uid ∈ s.app.created e) : uid ∉ s.accounts ∧ s.users uid = none := by
  unfold AccountSession.State.created at hcreated
  split at hcreated
  · rename_i n k uid'
    split_ifs at hcreated with hlink
    · obtain rfl := Option.some.inj hcreated
      have hsignIn : ¬ s.app.link n k = some .signIn := by
        rw [hlink]
        nofun
      unfold State.Admits at h
      dsimp only at h
      rwa [if_neg hsignIn] at h
    · cases hcreated
  · cases hcreated

section Update
variable {s : State} {e : AccountSession.Event} {app : AccountSession.State} {UserID : String}

def State.Full (s : State) (UserID : String) : Prop := ∃ p, s.users UserID = some p ∧ p.Full

theorem written_of_started (h : s.app.started e = some UserID) :
    written s.app e = some (UserID, [.touchHistory, .touchLike]) := by
  have hcreated : s.app.created e = none := by
    unfold AccountSession.State.started at h
    unfold AccountSession.State.created
    split at h
    · rfl
    · rfl
    · rename_i n k uid
      split_ifs at h with hlink
      exact if_neg (by rw [hlink]; nofun)
    · cases h
  unfold written
  split
  · cases h
  · cases h
  · rw [hcreated, h]
    rfl

theorem onApp_users {ws : List ArrayWrite} (hw : written s.app e = some (UserID, ws)) :
    (s.onApp e app).users UserID = ws.foldl ArrayWrite.perform (s.users UserID) := by
  simp [State.onApp, hw, State.update]

theorem onApp_users_of_ne (hw : ∀ w ∈ written s.app e, w.1 ≠ UserID) :
    (s.onApp e app).users UserID = s.users UserID := by
  unfold State.onApp
  cases h : written s.app e with
  | none => rfl
  | some w => exact Function.update_of_ne (hw w h).symm _ _

theorem Profile.full_perform {p : Profile} (h : p.Full) {w : ArrayWrite} (hw : w ≠ .create) :
    ∃ q, w.perform (some p) = some q ∧ q.Full := by
  cases w with
  | create => exact absurd rfl hw
  | touchHistory => exact ⟨_, rfl, Option.some_ne_none _, h.2⟩
  | touchLike => exact ⟨_, rfl, h.1, Option.some_ne_none _⟩
  | addToHistory id => exact ⟨_, rfl, Option.some_ne_none _, h.2⟩
  | Like tag id => exact ⟨_, rfl, h.1, Option.some_ne_none _⟩

theorem Profile.full_foldl {p : Profile} (h : p.Full) {ws : List ArrayWrite}
    (hws : ArrayWrite.create ∉ ws) : ∃ q, ws.foldl ArrayWrite.perform (some p) = some q ∧ q.Full := by
  induction ws generalizing p with
  | nil => exact ⟨p, rfl, h⟩
  | cons w ws ih =>
    rw [List.mem_cons, not_or] at hws
    obtain ⟨hw, hws⟩ := hws
    obtain ⟨q, hq, hfull⟩ := full_perform h (Ne.symm hw)
    rw [List.foldl_cons, hq]
    exact ih hfull hws

/-- Only the callback of a sign-up creates a document. -/
theorem created_of_written {ws : List ArrayWrite} (hw : written s.app e = some (UserID, ws))
    (hcreate : ArrayWrite.create ∈ ws) : s.app.created e = some UserID := by
  unfold written at hw
  split at hw
  · obtain ⟨id, -, hw⟩ := Option.bind_eq_some_iff.mp hw
    obtain ⟨user, -, hw⟩ := Option.map_eq_some_iff.mp hw
    obtain ⟨rfl, rfl⟩ := Prod.mk.inj hw
    simp at hcreate
  · obtain ⟨tag, -, hw⟩ := Option.bind_eq_some_iff.mp hw
    obtain ⟨user, -, hw⟩ := Option.map_eq_some_iff.mp hw
    obtain ⟨rfl, rfl⟩ := Prod.mk.inj hw
    simp at hcreate
  · split at hw
    · rename_i uid hcreated
      obtain ⟨rfl, rfl⟩ := Prod.mk.inj (Option.some.inj hw)
      exact hcreated
    · obtain ⟨user, -, hw⟩ := Option.map_eq_some_iff.mp hw
      obtain ⟨rfl, rfl⟩ := Prod.mk.inj hw
      simp at hcreate

theorem State.Full.onApp (h : s.Full UserID) (hcreated : ∀ uid ∈ s.app.created e, s.users uid = none) :
    (s.onApp e app).Full UserID := by
  obtain ⟨p, hp, hfull⟩ := h
  cases hw : written s.app e with
  | none => exact ⟨p, (onApp_users_of_ne (by simp [hw])).trans hp, hfull⟩
  | some w =>
    obtain ⟨user, ws⟩ := w
    by_cases huser : user = UserID
    · subst huser
      have hws : ArrayWrite.create ∉ ws := by
        intro hcreate
        have hnone := hcreated user (created_of_written hw hcreate)
        rw [hp] at hnone
        cases hnone
      obtain ⟨q, hq, hfull⟩ := Profile.full_foldl hfull hws
      exact ⟨q, by rw [onApp_users hw, hp, hq], hfull⟩
    · refine ⟨p, (onApp_users_of_ne fun w hmem => ?_).trans hp, hfull⟩
      obtain rfl := Option.some.inj (hw.symm.trans hmem)
      exact huser

/-- A user for whom `Shelf.DownloadList` is started has both arrays if there is a document. -/
theorem State.Full.started (he : s.app.started e = some UserID) (hp : s.users UserID ≠ none) :
    (s.onApp e app).Full UserID := by
  obtain ⟨p, hp⟩ := Option.ne_none_iff_exists'.mp hp
  refine ⟨⟨some (p.comicHistory.getD .empty), some (p.comicLike.getD .empty)⟩, ?_,
    Option.some_ne_none _, Option.some_ne_none _⟩
  rw [onApp_users (written_of_started he), hp]
  rfl

end Update

/-- Whoever's lists are asked for has a document with both arrays that the backend has created, and the
client has taken only such documents. -/
structure Sound (s : State) : Prop where
  asked : ∀ n k UserID, s.app.asked n k = some UserID → s.Full UserID ∧ UserID ∉ s.setData
  answers : ∀ a ∈ s.answers, ∃ p, a.2 = some p ∧ p.Full

theorem sound_launch (users : String → Option Profile) (accounts : List String) :
    Sound (launch users accounts) where
  asked n k UserID h := by
    have hnone : (launch users accounts).app.asked n k = none := by
      cases n with
      | zero => rfl
      | succ n => rfl
    rw [hnone] at h
    cases h
  answers := by simp [launch]

namespace Sound
variable {s : State} (h : Sound s)
include h

theorem app {e : AccountSession.Event} {app : AccountSession.State} (hadmits : s.Admits e)
    (hdocumented : Documented s (.app e)) (hstep : AccountSession.step s.app e = some app) :
    Sound (s.onApp e app) where
  asked n k UserID hasked := by
    have hnone (uid : String) (huid : uid ∈ s.app.created e) : s.users uid = none :=
      (hadmits.created huid).2
    obtain ⟨hbefore, hfull, hpending⟩ : s.users UserID ≠ none ∧ (s.onApp e app).Full UserID ∧
        UserID ∉ s.setData := by
      rcases step_asked hstep hasked with hasked | hstarted
      · obtain ⟨hfull, hpending⟩ := h.asked n k UserID hasked
        obtain ⟨p, hp, -⟩ := id hfull
        exact ⟨by rw [hp]; nofun, hfull.onApp hnone, hpending⟩
      · obtain ⟨hbefore, hpending⟩ := hdocumented UserID hstarted
        exact ⟨hbefore, .started hstarted hbefore, hpending⟩
    refine ⟨hfull, fun hmem => ?_⟩
    rcases List.mem_append.mp hmem with hmem | hmem
    · exact hpending hmem
    · exact hbefore (hnone UserID (Option.mem_toList.mp hmem))
  answers a ha := by
    unfold State.onApp at ha
    dsimp only at ha
    split_ifs at ha
    · cases ha
    · exact h.answers a ha

theorem read {n k : ℕ} {UserID : String} (hasked : s.app.asked n k = some UserID) :
    Sound (s.onRead n k UserID) where
  asked := h.asked
  answers a ha := by
    rcases List.mem_cons.mp ha with rfl | ha
    · exact (h.asked n k UserID hasked).1
    · exact h.answers a ha

theorem created {i : ℕ} {uid : String} (huid : s.setData[i]? = some uid) (succeeds : Bool) :
    Sound (s.onSetData i uid succeeds) where
  asked n k UserID hasked := by
    obtain ⟨⟨p, hp, hfull⟩, hpending⟩ := h.asked n k UserID hasked
    refine ⟨⟨p, ?_, hfull⟩, fun hmem => hpending (List.mem_of_mem_eraseIdx hmem)⟩
    cases succeeds with
    | true => exact hp
    | false =>
      have hne : UserID ≠ uid := by
        rintro rfl
        exact hpending (List.mem_of_getElem? huid)
      exact (Function.update_of_ne hne _ _).trans hp
  answers := h.answers

theorem step {t : State} {e : Event} (hdocumented : Documented s e) (hstep : step s e = some t) :
    Sound t := by
  cases e with
  | app e =>
    obtain ⟨hadmits, app, happ, rfl⟩ := step_app hstep
    exact h.app hadmits hdocumented happ
  | read n k =>
    obtain ⟨-, UserID, hasked, rfl⟩ := step_read hstep
    exact h.read hasked
  | setData i succeeds =>
    obtain ⟨uid, huid, rfl⟩ := Option.map_eq_some_iff.mp hstep
    exact h.created huid succeeds

theorem found (e : Event) : Found s e := by
  unfold Found
  split
  · rename_i n k document
    intro hasked hadmits
    obtain ⟨answer, hanswer, hshown⟩ := hadmits hasked
    obtain ⟨l₁, l₂, hl, -⟩ := List.lookup_eq_some_iff.mp hanswer
    obtain ⟨p, hp, hfull⟩ := h.answers ((n, k), answer) (by simp [hl])
    dsimp only at hp
    subst hp
    cases hshown with
    | some hshows =>
      obtain ⟨⟨history, hhistory, -⟩, like, hlike, -⟩ := hfull.shown hshows
      rw [Option.bind_some, Option.bind_some, hhistory, hlike]
      exact ⟨Option.some_ne_none _, Option.some_ne_none _⟩
  · trivial

end Sound

/-- As long as `Shelf.DownloadList` is started for users with a document only, every document that
arrives for it exists and holds both arrays. -/
theorem profile_found (users : String → Option Profile) (accounts : List String) (es : List Event)
    (hdocumented : Along step Documented (launch users accounts) es) :
    Along step Found (launch users accounts) es :=
  along_of_invariant step (fun _ _ _ hsound hC => hsound.step hC) (fun _ e hsound _ => hsound.found e)
    (sound_launch users accounts) hdocumented

def signUpAndIn (created : Bool) (document : Option UserDocument) : List Event :=
  [.app (.action .login), .app (.action .signUpTapped), .app (.reply 1 0 (.uid "a")),
    .setData 0 created, .app (.action .login), .app (.action .loginTapped),
    .app (.reply 2 0 (.uid "a")), .read 2 1, .app (.reply 2 1 (.user document))]

def newDocument : UserDocument where
  fullName := some "An"
  gender := some "Other"
  birthday := some "01/01/2000"
  email := some "a@gmail.com"
  avatarUrl := some ""
  comicHistory := some []
  comicLike := some []

theorem profile_found_signUpAndIn :
    Along step Found (launch (fun _ => none) []) (signUpAndIn true (some newDocument)) :=
  profile_found (fun _ => none) [] (signUpAndIn true (some newDocument)) (by decide +kernel)

theorem not_profile_found :
    ¬ ∀ (users : String → Option Profile) (accounts : List String) (es : List Event),
      Along step Found (launch users accounts) es := by
  intro h
  have hmissing : ¬ Along step Found (launch (fun _ => none) []) (signUpAndIn false none) := by
    decide +kernel
  exact hmissing (h (fun _ => none) [] (signUpAndIn false none))

end ComicApp.CloudSession
