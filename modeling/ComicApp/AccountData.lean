import ComicApp.AccountForms
import ComicApp.AccountSteps
import ComicApp.AvatarUpload

/-!
# The data of the account

The account in memory and the stored users. The shelf and its requests never touch them; a profile
that arrives is copied into the account, the account into the store, and the store back into the
account. So as long as every profile that arrives is filled in, every copy is.
-/

namespace ComicApp.AccountSession
open EventMachine

namespace State

def data (s : State) : User × List LUser := (s.localAccount, s.luser)

section Frame
variable (s : State) (n : ℕ)

theorem data_downloadComics (chain : Chain) (listString : List String) :
    (s.downloadComics n chain listString).data = s.data := by
  induction listString generalizing s with
  | nil => rfl
  | cons idComic listString ih => exact ih _

theorem data_onUserDocument (document : Option UserDocument) :
    (s.onUserDocument n document).data = s.data := by
  unfold onUserDocument
  split
  · rfl
  · dsimp only
    split
    · exact data_downloadComics s n _ _
    · exact (data_downloadComics _ n _ _).trans (data_downloadComics s n _ _)

theorem data_onComicDocument (chain : Chain) (comic : ℕ) (document : Option ComicDocument) :
    (s.onComicDocument n chain comic document).data = s.data := by
  unfold onComicDocument
  split_ifs
  · rfl
  · dsimp only
    split <;> rfl

theorem data_onPoster (chain : Chain) (comic : ℕ) (data : Data) :
    (s.onPoster n chain comic data).data = s.data := by
  unfold onPoster
  cases chain <;> rfl

theorem data_onInfoDocument (tmp : ℕ) (document : Option ComicDocument) :
    (s.onInfoDocument n tmp document).data = s.data := by
  unfold onInfoDocument
  dsimp only
  split <;> rfl

theorem data_onListAll (tmp prefixes items : ℕ) :
    (s.onListAll n tmp prefixes items).data = s.data := by
  unfold onListAll
  dsimp only
  split_ifs <;> rfl

theorem data_onItem (tmp : ℕ) (data : Data) : (s.onItem n tmp data).data = s.data := by
  unfold onItem
  dsimp only
  split_ifs <;> rfl

theorem data_DownloadList : (s.DownloadList n).data = s.data := by
  unfold DownloadList
  split <;> rfl

theorem data_userFirebaseToRam : (s.userFirebaseToRam n).data = s.data := by
  unfold userFirebaseToRam
  split <;> rfl

theorem data_downAccount : (s.downAccount n).data = s.data := by
  unfold downAccount
  split
  · rfl
  · split_ifs <;> rfl

theorem data_setAccount : (s.setAccount n).data = s.data := by
  unfold setAccount
  split
  · rfl
  · split_ifs
    · exact data_downAccount s n
    · rfl

theorem data_accountWillAppear : s.accountWillAppear.data = s.data := by
  unfold accountWillAppear
  dsimp only
  split_ifs
  · exact (data_downAccount _ _).trans (data_setAccount s _)
  · exact data_downAccount s _

theorem data_askAvatar (onPage : Bool) : (s.askAvatar n onPage).data = s.data := by
  unfold askAvatar
  split <;> rfl

theorem data_onDownloadURL (picture url : String) :
    (s.onDownloadURL n picture url).data = s.data := by
  unfold onDownloadURL
  split <;> rfl

theorem data_onLike (p : ℕ) (tag : Bool) : (s.onLike n p tag).data = s.data := by
  unfold onLike
  split
  · rfl
  · dsimp only
    split_ifs
    · rfl
    · unfold addLike
      split <;> rfl

theorem data_onViewDidLoad : s.onViewDidLoad.data = s.data := by
  unfold onViewDidLoad
  split <;> rfl

end Frame

structure Filled (s : State) : Prop where
  user : s.localAccount.Filled
  luser : ∀ user ∈ s.luser, user.Filled ∧ user.userID ≠ none

namespace Filled
variable {s t : State}

theorem congr (h : s.Filled) (hdata : t.data = s.data) : t.Filled := by
  obtain ⟨huser, hluser⟩ := Prod.mk.inj hdata
  exact ⟨by rw [huser]; exact h.user, by rw [hluser]; exact h.luser⟩

theorem setDownAvatar (h : s.Filled) (isDownAvatar : Bool) : (s.setDownAvatar isDownAvatar).Filled :=
  ⟨h.user, h.luser⟩

theorem setAvatar (h : s.Filled) (avatar : Option Data) : (s.setAvatar avatar).Filled :=
  ⟨h.user, h.luser⟩

theorem setFields (h : s.Filled) {data : UserDocument} (hdata : data.account.Filled) :
    (s.setFields data).Filled :=
  ⟨hdata.1, h.luser⟩

theorem userRamToRealm (h : s.Filled) : s.userRamToRealm.Filled := by
  have huser := h.user
  obtain ⟨⟨fullName, hname, hname'⟩, ⟨g, hgender⟩, ⟨birthday, hbirthday, hbirthday'⟩,
    ⟨email, hemail, hemail'⟩⟩ := huser
  unfold State.userRamToRealm
  split
  · rename_i user users hluser
    have hstored := h.luser
    rw [hluser] at hstored
    obtain ⟨⟨-, hid⟩, husers⟩ := List.forall_mem_cons.mp hstored
    exact ⟨h.user, List.forall_mem_cons.mpr ⟨⟨h.user, hid⟩, husers⟩⟩
  · refine ⟨h.user, List.forall_mem_singleton.mpr ⟨⟨?_, ?_, ?_, ?_⟩, Option.some_ne_none _⟩⟩
    · exact ⟨fullName, by rw [hname]; rfl, hname'⟩
    · exact ⟨g, by rw [hgender]; rfl⟩
    · exact ⟨birthday, by rw [hbirthday]; rfl, hbirthday'⟩
    · exact ⟨email, by rw [hemail]; rfl, hemail'⟩

theorem userRealmToRam (h : s.Filled) : s.userRealmToRam.Filled := by
  unfold State.userRealmToRam
  split
  · rename_i user users hluser
    have huser := (h.luser user (by rw [hluser]; exact List.mem_cons_self)).1
    exact ⟨huser, h.luser⟩
  · exact h

theorem pathUpdateHandler (h : s.Filled) (satisfied : Bool) :
    (s.pathUpdateHandler satisfied).Filled := by
  unfold State.pathUpdateHandler
  split_ifs
  · exact h.congr (data_userFirebaseToRam s _)
  · exact h
  · exact h.userRealmToRam.setDownAvatar false

theorem downloaded (h : s.Filled) (n : ℕ) (onPage : Bool) : (s.downloaded n onPage).Filled := by
  have hpage : (if onPage then s.setAccount n else s).Filled := by
    split_ifs
    · exact h.congr (data_setAccount s n)
    · exact h
  unfold State.downloaded
  dsimp only
  split_ifs at hpage ⊢
  · exact hpage.userRamToRealm
  · exact hpage
  · exact hpage.userRamToRealm
  · exact hpage

theorem onProfile (h : s.Filled) (n : ℕ) (onPage : Bool) {document : Option UserDocument}
    (hdocument : ∀ data ∈ document, data.account.Filled) :
    (s.onProfile n onPage document).Filled := by
  cases document with
  | none => exact h
  | some data =>
    have hfields := h.setFields (hdocument data rfl)
    unfold State.onProfile State.downAvatar
    dsimp only
    split_ifs
    · exact (hfields.setAvatar none).downloaded n onPage
    · exact hfields.congr (data_askAvatar _ n onPage)
    · exact (hfields.setDownAvatar true).congr (data_askAvatar _ n onPage)

theorem onAvatar (h : s.Filled) (n : ℕ) (onPage : Bool) (data : Data) :
    (s.onAvatar n onPage data).Filled :=
  ((h.setAvatar (some data)).setDownAvatar false).downloaded n onPage

theorem start {luser : List LUser} (hluser : ∀ user ∈ luser, user.Filled ∧ user.userID ≠ none)
    (sessions : List Session) : (State.start luser sessions).Filled :=
  Filled.congr (s := boot luser sessions) ⟨filled_guest, hluser⟩ (data_DownloadList _ _)

theorem act (h : s.Filled) {a : Action} (ha : s.act a = some t) : t.Filled := by
  cases a with
  | Like n p =>
    obtain ⟨tag, -, rfl⟩ := Option.map_eq_some_iff.mp ha
    exact h.congr (data_onLike s n p tag)
  | login =>
    obtain rfl := Option.some.inj ha
    exact ⟨filled_guest, by simp [setElement]⟩
  | loginTapped =>
    obtain rfl := Option.some.inj ha
    exact ⟨h.user, h.luser⟩
  | CancelLogin =>
    obtain rfl := Option.some.inj ha
    exact (h.congr (data_DownloadList s _)).setDownAvatar true
  | signUpTapped =>
    obtain rfl := Option.some.inj ha
    exact ⟨h.user, h.luser⟩
  | accountDidLoad =>
    obtain rfl := Option.some.inj ha
    exact h.congr (data_setAccount s _)
  | accountWillAppear =>
    obtain rfl := Option.some.inj ha
    exact h.congr (data_accountWillAppear s)
  | Save hasImage =>
    obtain rfl := Option.some.inj ha
    unfold onSave
    split
    · exact ⟨h.user, h.luser⟩
    · split_ifs
      · exact ⟨h.user, h.luser⟩
      · exact h.setDownAvatar true
  | select id =>
    obtain rfl := Option.some.inj ha
    exact ⟨h.user, h.luser⟩
  | viewDidLoad =>
    obtain rfl := Option.some.inj ha
    exact h.congr (data_onViewDidLoad s)
  | pathUpdate satisfied =>
    obtain rfl := Option.some.inj ha
    exact h.pathUpdateHandler satisfied
  | relaunch =>
    obtain rfl := Option.some.inj ha
    exact start h.luser _

/-- A callback keeps the account filled in when the profile it is given is. -/
theorem callback (h : s.Filled) {n : ℕ} {link : Link} {reply : Reply}
    (hc : Callback s n link reply t)
    (hprofile : ∀ onPage UserID data, link = .profile onPage UserID → reply = .user (some data) →
      data.account.Filled) : t.Filled := by
  cases hc with
  | failed link hlink => exact h
  | profileFailed onPage UserID => exact h.setDownAvatar false
  | userDocument UserID document => exact h.congr (data_onUserDocument s n document)
  | comicDocument chain comic document => exact h.congr (data_onComicDocument s n chain comic document)
  | poster chain comic data => exact h.congr (data_onPoster s n chain comic data)
  | infoDocument tmp document => exact h.congr (data_onInfoDocument s n tmp document)
  | listAll tmp reply => exact h.congr (data_onListAll s n tmp _ _)
  | item tmp data => exact h.congr (data_onItem s n tmp data)
  | profile onPage UserID document =>
    refine h.onProfile n onPage fun data hdata => hprofile onPage UserID data rfl ?_
    rw [Option.mem_def.mp hdata]
  | avatar onPage UserID data => exact h.onAvatar n onPage data
  | signIn uid =>
    have huid : State.Filled { s with UserID := some uid } := ⟨h.user, h.luser⟩
    exact (huid.congr (data_DownloadList _ n)).setDownAvatar true
  | createUser uid => exact ⟨h.user, h.luser⟩
  | putData UserID => exact ⟨h.user, h.luser⟩
  | downloadURL UserID url => exact h.congr (data_onDownloadURL s n UserID url)

end Filled
end State

/-- The actions on the pages of the account, and the news of the network. -/
def Action.OnAccount : Action → Prop
  | .select _ | .viewDidLoad | .Like _ _ | .relaunch => False
  | _ => True

namespace State.Filled
variable {s t : State} (h : s.Filled)
include h

theorem fullName_isSome : s.localAccount.fullName.isSome = true := by
  obtain ⟨fullName, hname, -⟩ := h.user.fullName
  rw [hname]
  rfl

theorem running_setAccount (hrun : s.running = true) (n : ℕ) : (s.setAccount n).running = true :=
  (State.running_setAccount s n hrun).trans h.fullName_isSome

theorem running_downloaded (hrun : s.running = true) (n : ℕ) (onPage : Bool) :
    (s.downloaded n onPage).running = true := by
  have hpage : (if onPage then s.setAccount n else s).running = true := by
    split_ifs
    · exact h.running_setAccount hrun n
    · exact hrun
  unfold State.downloaded
  dsimp only
  rw [if_pos hpage]
  unfold State.userRamToRealm
  split
  · exact hpage
  · exact hpage

/-- No action on the pages stops the app, as long as `Save` finds a user. -/
theorem running_act (hrun : s.running = true) {a : Action} (hpage : a.OnAccount)
    (hsave : ∀ hasImage, a = .Save hasImage → s.UserID ≠ none) (ha : s.act a = some t) :
    t.running = true := by
  have hlist (s : State) (hrun : s.running = true) : (s.DownloadList s.current).running = true := by
    unfold DownloadList
    split
    · exact hrun
    · exact hrun
  cases a with
  | select | viewDidLoad | Like | relaunch => exact hpage.elim
  | login | loginTapped | signUpTapped =>
    obtain rfl := Option.some.inj ha
    exact hrun
  | CancelLogin =>
    obtain rfl := Option.some.inj ha
    exact hlist s hrun
  | accountDidLoad =>
    obtain rfl := Option.some.inj ha
    exact h.running_setAccount hrun _
  | accountWillAppear =>
    obtain rfl := Option.some.inj ha
    unfold accountWillAppear
    dsimp only
    rw [running_downAccount]
    split_ifs
    · exact h.running_setAccount hrun _
    · exact hrun
  | Save hasImage =>
    obtain rfl := Option.some.inj ha
    obtain ⟨UserID, hUserID⟩ := Option.ne_none_iff_exists'.mp (hsave hasImage rfl)
    unfold onSave
    rw [hUserID]
    dsimp only
    split_ifs
    · exact hrun
    · exact hrun
  | pathUpdate satisfied =>
    obtain rfl := Option.some.inj ha
    unfold State.pathUpdateHandler
    split_ifs with hsatisfied hUserID
    · obtain ⟨UserID, hUserID⟩ := Option.ne_none_iff_exists'.mp hUserID
      unfold userFirebaseToRam
      rw [hUserID]
      exact hrun
    · exact hrun
    · unfold State.userRealmToRam
      split
      · exact hrun
      · exact hrun

/-- A callback of the account does not stop the app, as long as it finds the user it unwraps. -/
theorem running_callback (hrun : s.running = true) {n : ℕ} {link : Link} {reply : Reply}
    (hc : Callback s n link reply t) (hcomic : link.comic = none) (hlists : link.lists = none)
    (hprofile : ∀ onPage UserID data, link = .profile onPage UserID → reply = .user (some data) →
      data.account.Filled)
    (hfound : unwrapsUserID link reply = true → s.UserID ≠ none) : t.running = true := by
  cases hc with
  | failed | profileFailed | createUser | putData => exact hrun
  | comicDocument | poster | infoDocument | listAll | item => simp at hcomic
  | userDocument => simp at hlists
  | profile onPage UserID document =>
    cases document with
    | none => exact hrun
    | some data =>
      have hfields := h.setFields (hprofile onPage UserID data rfl rfl)
      unfold State.onProfile
      dsimp only
      split_ifs with hempty
      · exact (hfields.setAvatar none).running_downloaded hrun n onPage
      · obtain ⟨UserID, hUserID⟩ := Option.ne_none_iff_exists'.mp (hfound (decide_eq_true hempty))
        have hsigned : (if onPage then s.setFields data
            else (s.setFields data).setDownAvatar true).UserID = some UserID := by
          split_ifs <;> exact hUserID
        unfold State.downAvatar askAvatar
        rw [hsigned]
        dsimp only
        split_ifs <;> exact hrun
  | avatar onPage UserID data =>
    exact ((h.setAvatar (some data)).setDownAvatar false).running_downloaded hrun n onPage
  | signIn uid =>
    unfold transitionToHome DownloadList
    exact hrun
  | downloadURL UserID url =>
    obtain ⟨UserID, hUserID⟩ := Option.ne_none_iff_exists'.mp (hfound rfl)
    unfold onDownloadURL
    rw [hUserID]
    exact hrun

end State.Filled
end ComicApp.AccountSession
