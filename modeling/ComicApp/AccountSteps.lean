import ComicApp.AccountSession

/-!
# The account without older sessions

`since N` forgets what the sessions before `N` hold. A callback of a later session, and an action
that is not a tap on an older info page, do the same with and without it.
-/

namespace ComicApp.AccountSession
open EventMachine

namespace State

/-- The state without what the sessions before `N` hold. -/
def since (N : ℕ) (s : State) : State :=
  { s with sessions := s.sessions.mapIdx fun n S => if n < N then {} else S }

structure Recent (N : ℕ) (s : State) : Prop where
  lt : N < s.sessions.length
  listHistory : ∀ r ∈ s.listHistory, N ≤ r.1
  listLike : ∀ r ∈ s.listLike, N ≤ r.1

structure Grows (n : ℕ) (s t : State) : Prop where
  length : t.sessions.length = s.sessions.length
  id : t.id = s.id
  listHistory : ∀ r ∈ t.listHistory, r ∈ s.listHistory ∨ r.1 = n
  listLike : ∀ r ∈ t.listLike, r ∈ s.listLike ∨ r.1 = n

section Modify
variable (s : State) (n : ℕ) (f : Session → Session)

@[simp] theorem modify_length : (s.modify n f).sessions.length = s.sessions.length := by
  simp [modify]

@[simp] theorem modify_current : (s.modify n f).current = s.current := by
  simp [current]

end Modify

section Since
variable {N n : ℕ} (s : State)

@[simp] theorem since_UserID : (s.since N).UserID = s.UserID := rfl
@[simp] theorem since_localAccount : (s.since N).localAccount = s.localAccount := rfl
@[simp] theorem since_luser : (s.since N).luser = s.luser := rfl
@[simp] theorem since_listHistory : (s.since N).listHistory = s.listHistory := rfl
@[simp] theorem since_listLike : (s.since N).listLike = s.listLike := rfl
@[simp] theorem since_id : (s.since N).id = s.id := rfl
@[simp] theorem since_running : (s.since N).running = s.running := rfl

@[simp] theorem since_length : (s.since N).sessions.length = s.sessions.length := by
  simp [since]

@[simp] theorem since_current : (s.since N).current = s.current := by
  simp [current]

theorem since_sessions (h : N ≤ n) : (s.since N).sessions[n]? = s.sessions[n]? := by
  have hlt : ¬ n < N := by omega
  simp [since, hlt]

theorem since_link (h : N ≤ n) (k : ℕ) : (s.since N).link n k = s.link n k := by
  simp only [link, since_sessions s h]

theorem since_tag (h : N ≤ n) (p : ℕ) : (s.since N).tag n p = s.tag n p := by
  simp only [tag, page, since_sessions s h]

theorem since_comic {r : Ref} (h : N ≤ r.1) : (s.since N).comic r = s.comic r := by
  simp only [comic, since_sessions s h]

theorem since_idComic {r : Ref} (h : N ≤ r.1) : (s.since N).idComic r = s.idComic r := by
  simp only [idComic, since_comic s h]

theorem since_modify (h : N ≤ n) (f : Session → Session) :
    (s.modify n f).since N = (s.since N).modify n f := by
  have hlt : ¬ n < N := by omega
  have hsessions := mapIdx_modify s.sessions (n := n) (f := f)
    (g := fun n S => if n < N then ({} : Session) else S) f fun S => by simp only [if_neg hlt]
  simp only [since, modify, hsessions]

theorem since_modify_of_lt (h : n < N) (f : Session → Session) :
    (s.modify n f).since N = s.since N := by
  have hsessions := mapIdx_modify s.sessions (n := n) (f := f)
    (g := fun n S => if n < N then ({} : Session) else S) (fun S => S)
    fun S => by simp only [if_pos h]
  have hsame (l : List Session) : l.modify n (fun S => S) = l := List.modify_id n l
  simp only [since, modify, hsessions, hsame]

end Since

section Grows
variable {s t u : State} {n : ℕ}

theorem Grows.of_eq (hlength : t.sessions.length = s.sessions.length) (hid : t.id = s.id)
    (hhistory : t.listHistory = s.listHistory) (hlike : t.listLike = s.listLike) : Grows n s t where
  length := hlength
  id := hid
  listHistory r hr := .inl (by rwa [hhistory] at hr)
  listLike r hr := .inl (by rwa [hlike] at hr)

theorem Grows.refl (s : State) : Grows n s s := .of_eq rfl rfl rfl rfl

theorem Grows.trans (h : Grows n s t) (h' : Grows n t u) : Grows n s u where
  length := h'.length.trans h.length
  id := h'.id.trans h.id
  listHistory r hr := (h'.listHistory r hr).elim (h.listHistory r) .inr
  listLike r hr := (h'.listLike r hr).elim (h.listLike r) .inr

theorem Recent.of_grows {N : ℕ} (h : Recent N s) (hn : N ≤ n) (hg : Grows n s t) : Recent N t where
  lt := by rw [hg.length]; exact h.lt
  listHistory r hr := by
    rcases hg.listHistory r hr with hr | rfl
    · exact h.listHistory r hr
    · exact hn
  listLike r hr := by
    rcases hg.listLike r hr with hr | rfl
    · exact h.listLike r hr
    · exact hn

end Grows

/-- What a callback of session `n` does to the state shows what it does to the state without the
sessions before `N`. -/
def Local (N n : ℕ) (h : State → State) (s : State) : Prop :=
  Grows n s (h s) ∧ (h s).since N = h (s.since N)

section Local
variable {N n : ℕ} {h k : State → State}

theorem Local.comp {s : State} (hh : Local N n h s) (hk : Local N n k (h s)) :
    Local N n (fun s => k (h s)) s :=
  ⟨hh.1.trans hk.1, by rw [hk.2, hh.2]⟩

theorem Local.ite {s : State} {p : State → Prop} [DecidablePred p] (hp : p (s.since N) ↔ p s)
    (hh : Local N n h s) (hk : Local N n k s) : Local N n (fun s => if p s then h s else k s) s := by
  unfold Local
  by_cases hs : p s
  · simp only [if_pos hs, if_pos (hp.mpr hs)]
    exact hh
  · simp only [if_neg hs, if_neg (mt hp.mp hs)]
    exact hk

theorem local_id (s : State) : Local N n (fun s => s) s := ⟨.refl s, rfl⟩

theorem local_trap (s : State) : Local N n trap s := ⟨.of_eq rfl rfl rfl rfl, rfl⟩

theorem local_setDownAvatar (s : State) (isDownAvatar : Bool) :
    Local N n (fun s => s.setDownAvatar isDownAvatar) s :=
  ⟨.of_eq rfl rfl rfl rfl, rfl⟩

theorem local_setAvatar (s : State) (avatar : Option Data) :
    Local N n (fun s => s.setAvatar avatar) s :=
  ⟨.of_eq rfl rfl rfl rfl, rfl⟩

theorem local_setFields (s : State) (data : UserDocument) :
    Local N n (fun s => s.setFields data) s :=
  ⟨.of_eq rfl rfl rfl rfl, rfl⟩

theorem local_setUserID (s : State) (UserID : Option String) :
    Local N n (fun s => { s with UserID := UserID }) s :=
  ⟨.of_eq rfl rfl rfl rfl, rfl⟩

theorem local_toHistory (s : State) (comic : ℕ) :
    Local N n (fun s => { s with listHistory := s.listHistory ++ [(n, comic)] }) s := by
  refine ⟨⟨rfl, rfl, fun r hr => ?_, fun r hr => .inl hr⟩, rfl⟩
  rcases List.mem_append.mp hr with hr | hr
  · exact .inl hr
  · obtain rfl := List.mem_singleton.mp hr
    exact .inr rfl

theorem local_toLike (s : State) (comic : ℕ) :
    Local N n (fun s => { s with listLike := s.listLike ++ [(n, comic)] }) s := by
  refine ⟨⟨rfl, rfl, fun r hr => .inl hr, fun r hr => ?_⟩, rfl⟩
  rcases List.mem_append.mp hr with hr | hr
  · exact .inl hr
  · obtain rfl := List.mem_singleton.mp hr
    exact .inr rfl

theorem local_userRamToRealm (s : State) : Local N n userRamToRealm s := by
  unfold Local userRamToRealm
  simp only [since_luser]
  cases s.luser with
  | nil => exact ⟨.of_eq rfl rfl rfl rfl, rfl⟩
  | cons user users => exact ⟨.of_eq rfl rfl rfl rfl, rfl⟩

theorem local_userRealmToRam (s : State) : Local N n userRealmToRam s := by
  unfold Local userRealmToRam
  simp only [since_luser]
  cases s.luser with
  | nil => exact local_id s
  | cons user users => exact ⟨.of_eq rfl rfl rfl rfl, rfl⟩

variable (hN : N ≤ n) (s : State)
include hN

theorem local_modify (f : Session → Session) : Local N n (fun s => s.modify n f) s :=
  ⟨.of_eq (modify_length s n f) rfl rfl rfl, since_modify s hN f⟩

theorem local_answer (k : ℕ) : Local N n (fun s => s.answer n k) s := local_modify hN s _

theorem local_send (links : List Link) : Local N n (fun s => s.send n links) s :=
  local_modify hN s _

theorem local_write (comic : ℕ) (f : DComic → DComic) :
    Local N n (fun s => s.write n comic f) s := local_modify hN s _

theorem local_userFirebaseToRam : Local N n (fun s => s.userFirebaseToRam n) s := by
  unfold Local userFirebaseToRam
  simp only [since_UserID]
  cases s.UserID with
  | none => exact local_trap s
  | some UserID => exact local_send hN s [.profile false UserID]

theorem local_downAccount : Local N n (fun s => s.downAccount n) s := by
  unfold Local downAccount
  simp only [since_UserID]
  cases s.UserID with
  | none => exact local_id s
  | some UserID =>
    have hask : Local N n
        (fun s => if s.localAccount.isDownAvatar then s.send n [.profile true UserID] else s) s :=
      .ite Iff.rfl (local_send hN s _) (local_id s)
    exact hask

theorem local_setAccount : Local N n (fun s => s.setAccount n) s := by
  have hdown : Local N n
      (fun s => if s.localAccount.isDownAvatar ∧ s.UserID ≠ none then s.downAccount n else s) s :=
    .ite Iff.rfl (local_downAccount hN s) (local_id s)
  unfold Local setAccount
  simp only [since_localAccount]
  cases s.localAccount.fullName with
  | none => exact local_trap s
  | some fullName => exact hdown

theorem local_downloaded (onPage : Bool) : Local N n (fun s => s.downloaded n onPage) s := by
  have hpage : Local N n (fun s => if onPage then s.setAccount n else s) s := by
    cases onPage with
    | false => exact local_id s
    | true => exact local_setAccount hN s
  have hstore (s : State) : Local N n (fun s => if s.running then s.userRamToRealm else s) s :=
    .ite Iff.rfl (local_userRamToRealm s) (local_id s)
  exact hpage.comp (hstore _)

theorem local_askAvatar (onPage : Bool) : Local N n (fun s => s.askAvatar n onPage) s := by
  unfold Local askAvatar
  simp only [since_UserID]
  cases s.UserID with
  | none => exact local_trap s
  | some UserID => exact local_send hN s [.avatar onPage UserID]

theorem local_downAvatar (onPage : Bool) : Local N n (fun s => s.downAvatar n onPage) s := by
  have hmark : Local N n (fun s => if onPage then s else s.setDownAvatar true) s := by
    cases onPage with
    | false => exact local_setDownAvatar s true
    | true => exact local_id s
  exact hmark.comp (local_askAvatar hN _ onPage)

theorem local_onProfile (onPage : Bool) (document : Option UserDocument) :
    Local N n (fun s => s.onProfile n onPage document) s := by
  cases document with
  | none => exact local_id s
  | some data =>
    unfold onProfile Local
    dsimp only
    split_ifs
    · exact ((local_setFields s data).comp (local_setAvatar _ none)).comp
        (local_downloaded hN _ onPage)
    · exact (local_setFields s data).comp (local_downAvatar hN _ onPage)

theorem local_onAvatar (onPage : Bool) (data : Data) :
    Local N n (fun s => s.onAvatar n onPage data) s :=
  ((local_setAvatar s (some data)).comp (local_setDownAvatar _ false)).comp
    (local_downloaded hN _ onPage)

theorem local_DownloadList : Local N n (fun s => s.DownloadList n) s := by
  unfold Local DownloadList
  simp only [since_UserID]
  cases s.UserID with
  | none => exact local_id s
  | some UserID => exact local_send hN s [.userDocument UserID]

theorem local_transitionToHome : Local N n (fun s => s.transitionToHome n) s :=
  (local_DownloadList hN s).comp (local_setDownAvatar _ true)

theorem local_downloadComics (chain : Chain) (listString : List String) :
    Local N n (fun s => s.downloadComics n chain listString) s := by
  induction listString generalizing s with
  | nil => exact local_id s
  | cons idComic listString ih => exact (local_modify hN s _).comp (ih _)

theorem local_onUserDocument (document : Option UserDocument) :
    Local N n (fun s => s.onUserDocument n document) s := by
  unfold Local onUserDocument
  cases document.bind UserDocument.comicHistory with
  | none => exact local_trap s
  | some listString =>
    have hhistory := local_downloadComics hN s .comicHistory listString
    dsimp only
    cases document.bind UserDocument.comicLike with
    | none => exact hhistory.comp (local_trap _)
    | some listString2 => exact hhistory.comp (local_downloadComics hN _ .comicLike listString2)

theorem local_onComicDocument (chain : Chain) (comic : ℕ) (document : Option ComicDocument) :
    Local N n (fun s => s.onComicDocument n chain comic document) s := by
  unfold Local onComicDocument
  dsimp only
  split_ifs
  · exact local_id s
  · cases document.bind ComicDocument.posterPath with
    | none => exact (local_write hN s comic _).comp (local_trap _)
    | some posterPath => exact (local_write hN s comic _).comp (local_send hN _ [.poster chain comic])

theorem local_onPoster (chain : Chain) (comic : ℕ) (data : Data) :
    Local N n (fun s => s.onPoster n chain comic data) s := by
  have hwrite := local_write hN s comic fun comic => { comic with poster := some data }
  cases chain with
  | comicHistory => exact hwrite.comp (local_toHistory _ comic)
  | comicLike => exact hwrite.comp (local_toLike _ comic)
  | Like => exact hwrite.comp (local_toLike _ comic)

theorem local_onInfoDocument (tmp : ℕ) (document : Option ComicDocument) :
    Local N n (fun s => s.onInfoDocument n tmp document) s := by
  have hwrite := local_write hN s tmp fun tmp => { tmp with name := document.bind ComicDocument.name }
  unfold Local onInfoDocument
  cases document.bind ComicDocument.author with
  | none => exact hwrite.comp (local_trap _)
  | some author =>
    cases document.bind ComicDocument.category with
    | none => exact hwrite.comp (local_trap _)
    | some category => exact hwrite

theorem local_onListAll (tmp prefixes items : ℕ) :
    Local N n (fun s => s.onListAll n tmp prefixes items) s := by
  unfold Local onListAll
  dsimp only
  split_ifs
  · exact local_send hN s _
  · exact (local_write hN s tmp _).comp (local_send hN _ _)

theorem local_onItem (hrecent : Recent N s) (tmp : ℕ) (data : Data) :
    Local N n (fun s => s.onItem n tmp data) s := by
  have hwrite := local_write hN s tmp fun tmp => { tmp with poster := some data }
  have hadd {s : State} (hrecent : Recent N s) : Local N n (fun s =>
      if ∃ r ∈ s.listHistory, s.idComic r = s.idComic (n, tmp) then s
      else { s with listHistory := s.listHistory ++ [(n, tmp)] }) s := by
    have hsame : (∃ r ∈ s.listHistory, (s.since N).idComic r = (s.since N).idComic (n, tmp)) ↔
        ∃ r ∈ s.listHistory, s.idComic r = s.idComic (n, tmp) := by
      refine exists_congr fun r => and_congr_right fun hr => ?_
      rw [since_idComic s (hrecent.listHistory r hr), since_idComic s hN]
    exact .ite hsame (local_id s) (local_toHistory s tmp)
  exact hwrite.comp (hadd (hrecent.of_grows hN hwrite.1))

theorem local_onPutData (UserID : String) : Local N n (fun s => s.onPutData n UserID) s :=
  (local_send hN s _).comp (local_setDownAvatar _ true)

theorem local_onDownloadURL (picture url : String) :
    Local N n (fun s => s.onDownloadURL n picture url) s := by
  unfold Local onDownloadURL
  simp only [since_UserID]
  cases s.UserID with
  | none => exact local_trap s
  | some UserID => exact local_modify hN s _

end Local

/-- A callback of session `N` or a later one does not see the sessions before `N`. -/
theorem Callback.since {s t : State} {N n : ℕ} {link : Link} {reply : Reply}
    (h : Callback s n link reply t) (hN : N ≤ n) (hrecent : Recent N s) :
    Grows n s t ∧ Callback (s.since N) n link reply (t.since N) := by
  cases h with
  | failed link hlink => exact ⟨.refl s, .failed link hlink⟩
  | profileFailed onPage UserID =>
    exact ⟨(local_setDownAvatar (N := N) s false).1, .profileFailed onPage UserID⟩
  | userDocument UserID document =>
    obtain ⟨hgrows, hsince⟩ := local_onUserDocument hN s document
    exact ⟨hgrows, hsince ▸ .userDocument UserID document⟩
  | comicDocument chain comic document =>
    obtain ⟨hgrows, hsince⟩ := local_onComicDocument hN s chain comic document
    exact ⟨hgrows, hsince ▸ .comicDocument chain comic document⟩
  | poster chain comic data =>
    obtain ⟨hgrows, hsince⟩ := local_onPoster hN s chain comic data
    exact ⟨hgrows, hsince ▸ .poster chain comic data⟩
  | infoDocument tmp document =>
    obtain ⟨hgrows, hsince⟩ := local_onInfoDocument hN s tmp document
    exact ⟨hgrows, hsince ▸ .infoDocument tmp document⟩
  | listAll tmp reply =>
    obtain ⟨hgrows, hsince⟩ := local_onListAll hN s tmp reply.listed.1 reply.listed.2
    exact ⟨hgrows, hsince ▸ .listAll tmp reply⟩
  | item tmp data =>
    obtain ⟨hgrows, hsince⟩ := local_onItem hN s hrecent tmp data
    exact ⟨hgrows, hsince ▸ .item tmp data⟩
  | profile onPage UserID document =>
    obtain ⟨hgrows, hsince⟩ := local_onProfile hN s onPage document
    exact ⟨hgrows, hsince ▸ .profile onPage UserID document⟩
  | avatar onPage UserID data =>
    obtain ⟨hgrows, hsince⟩ := local_onAvatar hN s onPage data
    exact ⟨hgrows, hsince ▸ .avatar onPage UserID data⟩
  | signIn uid =>
    obtain ⟨hgrows, hsince⟩ := (local_setUserID s (some uid)).comp (local_transitionToHome hN _)
    exact ⟨hgrows, hsince ▸ .signIn uid⟩
  | createUser uid =>
    exact ⟨.of_eq rfl rfl rfl rfl, .createUser uid⟩
  | putData UserID =>
    obtain ⟨hgrows, hsince⟩ := local_onPutData hN s UserID
    exact ⟨hgrows, hsince ▸ .putData UserID⟩
  | downloadURL UserID url =>
    obtain ⟨hgrows, hsince⟩ := local_onDownloadURL hN s UserID url
    exact ⟨hgrows, hsince ▸ .downloadURL UserID url⟩

section Action
variable {N : ℕ} {s : State}

theorem Recent.le_current (h : Recent N s) : N ≤ s.current := by
  have := h.lt
  unfold current
  omega

theorem local_pathUpdateHandler (hN : N ≤ s.current) (satisfied : Bool) :
    Local N s.current (fun s => s.pathUpdateHandler satisfied) s := by
  unfold Local pathUpdateHandler
  simp only [since_UserID, since_current]
  cases satisfied with
  | false => exact (local_userRealmToRam s).comp (local_setDownAvatar _ false)
  | true =>
    have hask : Local N s.current
        (fun t => if t.UserID ≠ none then t.userFirebaseToRam s.current else t) s :=
      .ite Iff.rfl (local_userFirebaseToRam hN s) (local_id s)
    exact hask

theorem local_accountWillAppear (hN : N ≤ s.current) :
    Local N s.current accountWillAppear s := by
  have hset : Local N s.current
      (fun t => if t.UserID = none then t.setAccount s.current else t) s :=
    .ite Iff.rfl (local_setAccount hN s) (local_id s)
  unfold Local accountWillAppear
  simp only [since_UserID, since_current]
  exact hset.comp (local_downAccount hN _)

theorem local_onSave (hN : N ≤ s.current) (hasImage : Bool) :
    Local N s.current (fun s => s.onSave hasImage) s := by
  unfold Local onSave
  simp only [since_UserID, since_current]
  cases s.UserID with
  | none => exact local_trap s
  | some UserID =>
    cases hasImage with
    | false => exact local_setDownAvatar s true
    | true => exact local_send hN s [.putData UserID]

theorem since_setElement (s : State) : s.setElement.since N = (s.since N).setElement := by
  simp [since, setElement, List.mapIdx_append]

theorem since_start (luser : List LUser) {sessions : List Session} (h : N < sessions.length)
    (hempty : ∀ S ∈ sessions, S = {}) : (start luser sessions).since N = start luser sessions := by
  have hsessions : (sessions.mapIdx fun n S => if n < N then ({} : Session) else S) = sessions := by
    apply List.ext_getElem?
    intro m
    rw [List.getElem?_mapIdx]
    cases hm : sessions[m]? with
    | none => rfl
    | some S =>
      obtain rfl := hempty S (List.mem_of_getElem? hm)
      simp
  unfold start
  rw [(local_DownloadList (by omega : N ≤ sessions.length - 1) _).2]
  simp only [State.since, boot, hsessions]

theorem grows_start (luser : List LUser) (sessions : List Session) :
    Grows (sessions.length - 1) (boot luser sessions) (start luser sessions) :=
  (local_DownloadList (le_refl _) _).1

theorem recent_start (luser : List LUser) {sessions : List Session} (h : N < sessions.length) :
    Recent N (start luser sessions) :=
  .of_grows ⟨h, by simp [boot], by simp [boot]⟩ (by omega) (grows_start luser sessions)

theorem since_relaunch (s : State) :
    ((s.since N).sessions.map fun _ => ({} : Session)) = s.sessions.map fun _ => {} := by
  simp [List.map_const']

theorem local_upLoad (hN : N ≤ s.current) (id : String) :
    Local N s.current (fun s => s.upLoad id) s := by
  unfold Local upLoad
  simp only [since_current]
  exact local_modify hN s _

theorem since_liked (hrecent : Recent N s) : (s.since N).liked = s.liked :=
  any_congr fun r hr => decide_eq_decide.mpr (by
    rw [since_idComic s (hrecent.listLike r hr), since_id])

theorem local_checkLike (hrecent : Recent N s) : Local N s.current checkLike s := by
  unfold Local checkLike
  simp only [since_current, since_liked hrecent]
  exact local_modify hrecent.le_current s _

theorem local_removeLike (hrecent : Recent N s) : Local N s.current removeLike s := by
  have hsame : (s.listLike.eraseP fun r => (s.since N).idComic r = s.id) =
      s.listLike.eraseP fun r => s.idComic r = s.id :=
    eraseP_congr fun r hr => by rw [since_idComic s (hrecent.listLike r hr)]
  refine ⟨⟨rfl, rfl, fun r hr => .inl hr, fun r hr => .inl (List.mem_of_mem_eraseP hr)⟩, ?_⟩
  exact congrArg (fun list => { s.since N with listLike := list }) hsame.symm

theorem local_addLike (hN : N ≤ s.current) : Local N s.current addLike s := by
  unfold Local addLike
  simp only [since_id, since_current]
  cases s.id with
  | none => exact local_trap s
  | some id => exact local_modify hN s _

theorem local_onLike (hrecent : Recent N s) {n : ℕ} (hN : N ≤ n) (p : ℕ) (tag : Bool) :
    Local N s.current (fun s => s.onLike n p tag) s := by
  have hpage : Local N s.current
      (fun s => s.modify n fun S => { S with pages := S.pages.modify p (·.setTag !tag) }) s :=
    ⟨.of_eq (modify_length s n _) rfl rfl rfl, since_modify s hN _⟩
  have hrecent' := hrecent.of_grows hrecent.le_current hpage.1
  have hcurrent : (s.modify n fun S => { S with pages := S.pages.modify p (·.setTag !tag) }).current =
      s.current :=
    modify_current s n _
  unfold Local onLike
  simp only [since_UserID]
  cases s.UserID with
  | none => exact local_id s
  | some UserID =>
    cases tag with
    | true => exact hpage.comp (hcurrent ▸ local_removeLike hrecent')
    | false => exact hpage.comp (hcurrent ▸ local_addLike hrecent'.le_current)

theorem local_onViewDidLoad (hrecent : Recent N s) : Local N s.current onViewDidLoad s := by
  unfold Local onViewDidLoad
  simp only [since_id]
  cases s.id with
  | none => exact local_trap s
  | some id =>
    have hload := local_upLoad hrecent.le_current id
    have hloaded := hrecent.of_grows hrecent.le_current hload.1
    have hcurrent : (s.upLoad id).current = s.current := modify_current _ _ _
    exact hload.comp (hcurrent ▸ local_checkLike hloaded)

end Action

end State

/-- The event belongs to session `N` or a later one: it is not the reply to a link of an older chain
and not a tap on the like button of an older info page. -/
def Event.since (N : ℕ) : Event → Bool
  | .reply n _ _ => decide (N ≤ n)
  | .action (.Like n _) => decide (N ≤ n)
  | .action _ => true

def opened : ℕ × Option String → Event → Option (ℕ × Option String)
  | (n, id), .action .login => some (n + 1, id)
  | (n, _), .action (.select id) => some (n, id)
  | (n, _), .action .relaunch => some (n, none)
  | (n, id), _ => some (n, id)

namespace State
variable {N : ℕ} {s t : State}

theorem act_local {h : State → State} (hrecent : Recent N s) (hl : Local N s.current h s)
    (ht : some (h s) = some t) :
    Recent N t ∧ some (h (s.since N)) = some (t.since N) ∧
      some (s.sessions.length, s.id) = some (t.sessions.length, t.id) := by
  obtain rfl := Option.some.inj ht
  exact ⟨hrecent.of_grows hrecent.le_current hl.1, by rw [hl.2], by rw [hl.1.length, hl.1.id]⟩

/-- An action that is not a tap on an older info page does not see the sessions before `N`. -/
theorem act_since {a : Action} (hrecent : Recent N s) (ha : (Event.action a).since N = true)
    (h : s.act a = some t) :
    Recent N t ∧ (s.since N).act a = some (t.since N) ∧
      opened (s.sessions.length, s.id) (.action a) = some (t.sessions.length, t.id) := by
  have hN := hrecent.le_current
  have hlt := hrecent.lt
  cases a with
  | login =>
    obtain rfl := Option.some.inj h
    refine ⟨⟨?_, by simp [setElement], by simp [setElement]⟩, ?_, ?_⟩
    · simp only [setElement, List.length_append, List.length_singleton]
      omega
    · exact congrArg some (since_setElement s).symm
    · simp [opened, setElement]
  | loginTapped =>
    obtain ⟨hrecent', hsince, hopened⟩ := act_local hrecent (local_send hN s [.signIn]) h
    exact ⟨hrecent', by simp only [act, since_current, hsince], hopened⟩
  | CancelLogin =>
    obtain ⟨hrecent', hsince, hopened⟩ := act_local hrecent (local_transitionToHome hN s) h
    exact ⟨hrecent', by simp only [act, since_current, hsince], hopened⟩
  | signUpTapped =>
    obtain ⟨hrecent', hsince, hopened⟩ := act_local hrecent (local_send hN s [.createUser]) h
    exact ⟨hrecent', by simp only [act, since_current, hsince], hopened⟩
  | accountDidLoad =>
    obtain ⟨hrecent', hsince, hopened⟩ := act_local hrecent (local_setAccount hN s) h
    exact ⟨hrecent', by simp only [act, since_current, hsince], hopened⟩
  | accountWillAppear => exact act_local hrecent (local_accountWillAppear hN) h
  | Save hasImage => exact act_local hrecent (local_onSave hN hasImage) h
  | select id =>
    obtain rfl := Option.some.inj h
    exact ⟨⟨hrecent.lt, hrecent.listHistory, hrecent.listLike⟩, rfl, rfl⟩
  | viewDidLoad => exact act_local hrecent (local_onViewDidLoad hrecent) h
  | Like n p =>
    have hn : N ≤ n := of_decide_eq_true ha
    obtain ⟨tag, htag, ht⟩ := Option.map_eq_some_iff.mp h
    obtain ⟨hrecent', hsince, hopened⟩ :=
      act_local hrecent (local_onLike hrecent hn p tag) (congrArg some ht)
    refine ⟨hrecent', ?_, hopened⟩
    rw [act, since_tag s hn, htag]
    exact hsince
  | pathUpdate satisfied => exact act_local hrecent (local_pathUpdateHandler hN satisfied) h
  | relaunch =>
    obtain rfl := Option.some.inj h
    have hlength : N < (s.sessions.map fun _ => ({} : Session)).length := by
      rw [List.length_map]
      exact hlt
    have hempty : ∀ S ∈ s.sessions.map fun _ => ({} : Session), S = {} := by simp
    refine ⟨recent_start s.luser hlength, ?_, ?_⟩
    · rw [since_start s.luser hlength hempty, act, since_relaunch, since_luser]
    · rw [opened, (grows_start s.luser _).length, (grows_start s.luser _).id]
      simp [boot]

end State

section Step
open State
variable {N : ℕ} {s t : State} {e : Event}

theorem step_reply {n k : ℕ} {reply : Reply} (h : step s (.reply n k reply) = some t) :
    s.running = true ∧ ∃ link, s.link n k = some link ∧ Callback (s.answer n k) n link reply t := by
  unfold step at h
  dsimp only at h
  split_ifs at h with hrun
  obtain ⟨link, hlink, ht⟩ := Option.bind_eq_some_iff.mp h
  exact ⟨hrun, link, hlink, .of_onReply ht⟩

theorem step_action {a : Action} (h : step s (.action a) = some t) :
    (s.running ∨ a = .relaunch) ∧ s.act a = some t := by
  unfold step at h
  dsimp only at h
  split_ifs at h with hrun
  exact ⟨hrun, h⟩

/-- An event of session `N` or a later one does the same without the sessions before `N`. -/
theorem step_since (hrecent : Recent N s) (he : e.since N = true) (h : step s e = some t) :
    Recent N t ∧ step (s.since N) e = some (t.since N) := by
  cases e with
  | action a =>
    obtain ⟨hrun, ha⟩ := step_action h
    obtain ⟨hrecent', hsince, -⟩ := act_since hrecent he ha
    exact ⟨hrecent', by rw [step, since_running, if_pos hrun, hsince]⟩
  | reply n k reply =>
    have hN : N ≤ n := of_decide_eq_true he
    obtain ⟨hrun, link, hlink, hcallback⟩ := step_reply h
    obtain ⟨hgrows, hanswer⟩ := local_answer hN s k
    have hrecent' := hrecent.of_grows hN hgrows
    obtain ⟨hgrows', hsince⟩ := hcallback.since hN hrecent'
    refine ⟨hrecent'.of_grows hN hgrows', ?_⟩
    rw [hanswer] at hsince
    rw [step, since_running, if_pos hrun, since_link s hN, hlink]
    exact hsince.onReply

/-- The number of sessions and `Comic.id` are what the actions make them. -/
theorem step_opened (hlt : 0 < s.sessions.length) (h : step s e = some t) :
    0 < t.sessions.length ∧
      opened (s.sessions.length, s.id) e = some (t.sessions.length, t.id) := by
  have hrecent : Recent 0 s := ⟨hlt, by simp, by simp⟩
  cases e with
  | action a =>
    have ha : (Event.action a).since 0 = true := by cases a <;> rfl
    obtain ⟨hrecent', -, hopened⟩ := act_since hrecent ha (step_action h).2
    exact ⟨hrecent'.lt, hopened⟩
  | reply n k reply =>
    obtain ⟨-, link, -, hcallback⟩ := step_reply h
    have hgrows := (local_answer (Nat.zero_le n) s k).1
    have hrecent' := hrecent.of_grows (Nat.zero_le n) hgrows
    have hgrows' := hgrows.trans (hcallback.since (Nat.zero_le n) hrecent').1
    refine ⟨(hrecent.of_grows (Nat.zero_le n) hgrows').lt, ?_⟩
    rw [hgrows'.length, hgrows'.id]
    rfl

end Step
end ComicApp.AccountSession
