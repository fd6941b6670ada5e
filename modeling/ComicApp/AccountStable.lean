import ComicApp.AccountSteps

/-!
# What callbacks keep

Most callbacks only issue requests, write to the comics they hold and fill the shelf lists and the
profile. A relation between states that each of these keeps is kept by the whole callback, so it need
only be compared with the few callbacks that do something else. The relations are graded by what they
are kept by: the requests of the account, what these write, the shelf, and the request of
`Shelf.DownloadList`.
-/

namespace ComicApp.AccountSession

@[simp] def Link.comic : Link → Option ℕ
  | .comicDocument _ comic | .poster _ comic | .infoDocument comic | .listAll comic | .item comic =>
    some comic
  | _ => none

@[simp] def Link.lists : Link → Option String
  | .userDocument UserID => some UserID
  | _ => none

structure Session.Keeps (S T : Session) : Prop where
  updates : T.updates = S.updates
  pages : T.pages = S.pages
  links : ∃ new : List Link, T.links = S.links ++ new.map some ∧ ∀ l ∈ new, l.lists = none

namespace State

/-- A relation that callbacks keep as long as they only issue requests of the account and change the
profile. -/
structure Aside (R : State → State → Prop) : Prop where
  refl : ∀ s, R s s
  trans : ∀ {s t u}, R s t → R t u → R s u
  send : ∀ (s : State) (n : ℕ) (links : List Link),
    (∀ l ∈ links, l.comic = none ∧ l.lists = none) → R s (s.send n links)
  trap : ∀ s, R s s.trap
  localAccount : ∀ s user, R s { s with localAccount := user }

structure Apart (R : State → State → Prop) : Prop extends Aside R where
  UserID : ∀ s UserID, R s { s with UserID := UserID }
  luser : ∀ s luser, R s { s with luser := luser }

/-- A relation that is also kept by requests for comics, writes to comics and changes of the shelf
lists. -/
structure Fed (R : State → State → Prop) : Prop extends Aside R where
  modify : ∀ (s : State) (n : ℕ) (f : Session → Session),
    (∀ S : Session, S.Keeps (f S)) → R s (s.modify n f)
  listHistory : ∀ s list, R s { s with listHistory := list }
  listLike : ∀ s list, R s { s with listLike := list }

structure Shelved (R : State → State → Prop) : Prop extends Fed R where
  pages : ∀ (s : State) (n : ℕ) (pages : List Page → List Page),
    R s (s.modify n fun S => { S with pages := pages S.pages })
  id : ∀ s id, R s { s with id := id }

structure Stable (R : State → State → Prop) : Prop extends Shelved R where
  ask : ∀ (s : State) (n : ℕ) (UserID : String), R s (s.send n [.userDocument UserID])

structure Settled (R : State → State → Prop) : Prop extends Shelved R, Apart R

structure Lasting (R : State → State → Prop) : Prop extends Settled R, Stable R

namespace Aside
variable {R : State → State → Prop} (h : Aside R) (s : State) (n : ℕ)
include h

theorem setDownAvatar (isDownAvatar : Bool) : R s (s.setDownAvatar isDownAvatar) :=
  h.localAccount s _

theorem userFirebaseToRam : R s (s.userFirebaseToRam n) := by
  unfold State.userFirebaseToRam
  split
  · exact h.trap s
  · exact h.send s n _ (by simp)

theorem downAccount : R s (s.downAccount n) := by
  unfold State.downAccount
  split
  · exact h.refl s
  · split_ifs
    · exact h.send s n _ (by simp)
    · exact h.refl s

theorem setAccount : R s (s.setAccount n) := by
  unfold State.setAccount
  split
  · exact h.trap s
  · split_ifs
    · exact h.downAccount s n
    · exact h.refl s

theorem accountWillAppear : R s s.accountWillAppear := by
  unfold State.accountWillAppear
  dsimp only
  split_ifs
  · exact h.trans (h.setAccount s _) (h.downAccount _ _)
  · exact h.downAccount s _

theorem askAvatar (onPage : Bool) : R s (s.askAvatar n onPage) := by
  unfold State.askAvatar
  split
  · exact h.trap s
  · exact h.send s n _ (by simp)

theorem downAvatar (onPage : Bool) : R s (s.downAvatar n onPage) := by
  cases onPage with
  | false => exact h.trans (h.setDownAvatar s true) (h.askAvatar _ n false)
  | true => exact h.askAvatar s n true

theorem onPutData (UserID : String) : R s (s.onPutData n UserID) :=
  h.trans (h.send s n _ (by simp)) (h.setDownAvatar _ true)

theorem onSave (hasImage : Bool) : R s (s.onSave hasImage) := by
  unfold State.onSave
  split
  · exact h.trap s
  · split_ifs
    · exact h.send s _ _ (by simp)
    · exact h.setDownAvatar s true

end Aside

namespace Apart
variable {R : State → State → Prop} (h : Apart R) (s : State) (n : ℕ)
include h

theorem userRamToRealm : R s s.userRamToRealm := by
  unfold State.userRamToRealm
  split
  · exact h.luser s _
  · exact h.luser s _

theorem userRealmToRam : R s s.userRealmToRam := by
  unfold State.userRealmToRam
  split
  · exact h.trans (h.UserID s _) (h.localAccount _ _)
  · exact h.refl s

theorem pathUpdateHandler (satisfied : Bool) : R s (s.pathUpdateHandler satisfied) := by
  unfold State.pathUpdateHandler
  split_ifs
  · exact h.userFirebaseToRam s _
  · exact h.refl s
  · exact h.trans (h.userRealmToRam s) (h.setDownAvatar _ false)

theorem downloaded (onPage : Bool) : R s (s.downloaded n onPage) := by
  have hpage : R s (if onPage then s.setAccount n else s) := by
    cases onPage with
    | false => exact h.refl s
    | true => exact h.setAccount s n
  have hstore (s : State) : R s (if s.running then s.userRamToRealm else s) := by
    split_ifs
    · exact h.userRamToRealm s
    · exact h.refl s
  exact h.trans hpage (hstore _)

theorem onProfile (onPage : Bool) (document : Option UserDocument) :
    R s (s.onProfile n onPage document) := by
  cases document with
  | none => exact h.refl s
  | some data =>
    have hfields : R s (s.setFields data) := h.localAccount s _
    unfold State.onProfile
    dsimp only
    split_ifs
    · exact h.trans (h.trans hfields (h.localAccount _ _)) (h.downloaded _ n onPage)
    · exact h.trans hfields (h.downAvatar _ n onPage)

theorem onAvatar (onPage : Bool) (data : Data) : R s (s.onAvatar n onPage data) :=
  h.trans (h.trans (h.localAccount s _) (h.setDownAvatar _ false)) (h.downloaded _ n onPage)

theorem onDownloadURL (picture url : String)
    (hupdates : ∀ u, R s (s.modify n fun S => { S with updates := S.updates ++ [u] })) :
    R s (s.onDownloadURL n picture url) := by
  unfold State.onDownloadURL
  split
  · exact h.trap s
  · exact hupdates _

end Apart

namespace Fed
variable {R : State → State → Prop} (h : Fed R) (s : State) (n : ℕ)
include h

theorem write (comic : ℕ) (f : DComic → DComic) : R s (s.write n comic f) :=
  h.modify s n _ fun _ => ⟨rfl, rfl, [], by simp, nofun⟩

theorem request (links : List Link) (hlinks : ∀ l ∈ links, l.lists = none) :
    R s (s.send n links) :=
  h.modify s n _ fun _ => ⟨rfl, rfl, links, rfl, hlinks⟩

theorem fetch (comic : DComic) (links : ℕ → List Link)
    (hlinks : ∀ j, ∀ l ∈ links j, l.lists = none) : R s (s.modify n fun S => S.fetch comic links) :=
  h.modify s n _ fun S => ⟨rfl, rfl, links S.objects.length, rfl, hlinks _⟩

theorem downloadComics (chain : Chain) (listString : List String) :
    R s (s.downloadComics n chain listString) := by
  induction listString generalizing s with
  | nil => exact h.refl s
  | cons idComic listString ih => exact h.trans (h.fetch s n _ _ (by simp)) (ih _)

theorem onUserDocument (document : Option UserDocument) : R s (s.onUserDocument n document) := by
  unfold State.onUserDocument
  split
  · exact h.trap s
  · have hhistory (listString : List String) := h.downloadComics s n .comicHistory listString
    dsimp only
    split
    · exact h.trans (hhistory _) (h.trap _)
    · exact h.trans (hhistory _) (h.downloadComics _ n .comicLike _)

theorem onComicDocument (chain : Chain) (comic : ℕ) (document : Option ComicDocument) :
    R s (s.onComicDocument n chain comic document) := by
  unfold State.onComicDocument
  split_ifs
  · exact h.refl s
  · dsimp only
    split
    · exact h.trans (h.write s n comic _) (h.trap _)
    · exact h.trans (h.write s n comic _) (h.request _ n _ (by simp))

theorem onPoster (chain : Chain) (comic : ℕ) (data : Data) : R s (s.onPoster n chain comic data) := by
  have hwrite := h.write s n comic fun comic => { comic with poster := some data }
  cases chain with
  | comicHistory => exact h.trans hwrite (h.listHistory _ _)
  | comicLike => exact h.trans hwrite (h.listLike _ _)
  | Like => exact h.trans hwrite (h.listLike _ _)

theorem onInfoDocument (tmp : ℕ) (document : Option ComicDocument) :
    R s (s.onInfoDocument n tmp document) := by
  unfold State.onInfoDocument
  dsimp only
  split
  · exact h.write s n tmp _
  · exact h.trans (h.write s n tmp _) (h.trap _)

theorem onListAll (tmp prefixes items : ℕ) : R s (s.onListAll n tmp prefixes items) := by
  have hask (s : State) : R s (s.send n (List.replicate items (.item tmp))) :=
    h.request s n _ fun l hl => by rw [List.eq_of_mem_replicate hl]; rfl
  unfold State.onListAll
  dsimp only
  split_ifs
  · exact hask s
  · exact h.trans (h.write s n tmp _) (hask _)

theorem onItem (tmp : ℕ) (data : Data) : R s (s.onItem n tmp data) := by
  unfold State.onItem
  dsimp only
  split_ifs
  · exact h.write s n tmp _
  · exact h.trans (h.write s n tmp _) (h.listHistory _ _)

theorem addLike : R s s.addLike := by
  unfold State.addLike
  split
  · exact h.trap s
  · exact h.fetch s _ _ _ (by simp)

end Fed

namespace Shelved
variable {R : State → State → Prop} (h : Shelved R) (s : State) (n : ℕ)
include h

theorem onLike (p : ℕ) (tag : Bool) : R s (s.onLike n p tag) := by
  unfold State.onLike
  split
  · exact h.refl s
  · have hpage := h.pages s n fun pages => pages.modify p (·.setTag !tag)
    cases tag with
    | true => exact h.trans hpage (h.listLike _ _)
    | false => exact h.trans hpage (h.addLike _)

theorem upLoad (id : String) : R s (s.upLoad id) := h.fetch s _ _ _ (by simp)

theorem checkLike : R s s.checkLike := h.pages s _ fun pages => pages ++ [Page.mk s.id s.liked]

theorem onViewDidLoad : R s s.onViewDidLoad := by
  unfold State.onViewDidLoad
  split
  · exact h.trap s
  · exact h.trans (h.upLoad s _) (h.checkLike _)

end Shelved

namespace Stable
variable {R : State → State → Prop} (h : Stable R) (s : State) (n : ℕ)
include h

theorem DownloadList : R s (s.DownloadList n) := by
  unfold State.DownloadList
  split
  · exact h.refl s
  · exact h.ask s n _

theorem transitionToHome : R s (s.transitionToHome n) :=
  h.trans (h.DownloadList s n) (h.setDownAvatar _ true)

end Stable

/-- A callback for a comic or the lists of a user keeps what requests for comics and changes of the
shelf lists keep. -/
theorem Fed.callback {R : State → State → Prop} (h : Fed R) {s t : State} {n : ℕ} {link : Link}
    {reply : Reply} (hc : Callback s n link reply t) (hlink : link.comic ≠ none ∨ link.lists ≠ none) :
    R s t := by
  cases hc with
  | failed link hfailed => exact h.refl s
  | userDocument UserID document => exact h.onUserDocument s n document
  | comicDocument chain comic document => exact h.onComicDocument s n chain comic document
  | poster chain comic data => exact h.onPoster s n chain comic data
  | infoDocument tmp document => exact h.onInfoDocument s n tmp document
  | listAll tmp reply => exact h.onListAll s n tmp _ _
  | item tmp data => exact h.onItem s n tmp data
  | _ => simp at hlink

namespace Settled
variable {R : State → State → Prop} (h : Settled R) {s t : State}
include h

theorem callback {n : ℕ} {link : Link} {reply : Reply} (hc : Callback s n link reply t)
    (hsignIn : link ≠ .signIn) (hurl : ∀ url, reply = .url url →
      ∀ (s : State) u, R s (s.modify n fun S => { S with updates := S.updates ++ [u] })) : R s t := by
  by_cases hlink : link.comic ≠ none ∨ link.lists ≠ none
  · exact h.toFed.callback hc hlink
  · cases hc with
    | failed link hfailed => exact h.refl s
    | profileFailed onPage UserID => exact h.setDownAvatar s false
    | profile onPage UserID document => exact h.toApart.onProfile s n onPage document
    | avatar onPage UserID data => exact h.toApart.onAvatar s n onPage data
    | signIn uid => exact absurd rfl hsignIn
    | createUser uid => exact h.trans (h.UserID s (some uid)) (h.setDownAvatar _ true)
    | putData UserID => exact h.onPutData s n UserID
    | downloadURL picture url => exact h.toApart.onDownloadURL s n picture url (hurl url rfl s)
    | _ => simp at hlink

theorem act {a : Action} (ha : s.act a = some t) (hlogin : a ≠ .login) (hcancel : a ≠ .CancelLogin)
    (hrelaunch : a ≠ .relaunch) : R s t := by
  cases a with
  | login => exact absurd rfl hlogin
  | CancelLogin => exact absurd rfl hcancel
  | relaunch => exact absurd rfl hrelaunch
  | Like n p =>
    obtain ⟨tag, -, rfl⟩ := Option.map_eq_some_iff.mp ha
    exact h.toShelved.onLike s n p tag
  | loginTapped =>
    obtain rfl := Option.some.inj ha
    exact h.send s _ _ (by simp)
  | signUpTapped =>
    obtain rfl := Option.some.inj ha
    exact h.send s _ _ (by simp)
  | accountDidLoad =>
    obtain rfl := Option.some.inj ha
    exact h.setAccount s _
  | accountWillAppear =>
    obtain rfl := Option.some.inj ha
    exact h.accountWillAppear s
  | Save hasImage =>
    obtain rfl := Option.some.inj ha
    exact h.onSave s hasImage
  | select id =>
    obtain rfl := Option.some.inj ha
    exact h.id s id
  | viewDidLoad =>
    obtain rfl := Option.some.inj ha
    exact h.toShelved.onViewDidLoad s
  | pathUpdate satisfied =>
    obtain rfl := Option.some.inj ha
    exact h.toApart.pathUpdateHandler s satisfied

end Settled

namespace Lasting
variable {R : State → State → Prop} (h : Lasting R) {s t : State}
include h

theorem callback {n : ℕ} {link : Link} {reply : Reply} (hc : Callback s n link reply t)
    (hurl : ∀ url, reply = .url url →
      ∀ (s : State) u, R s (s.modify n fun S => { S with updates := S.updates ++ [u] })) : R s t := by
  by_cases hsignIn : link = .signIn
  · subst hsignIn
    cases hc with
    | failed link hfailed => exact h.refl s
    | signIn uid => exact h.trans (h.UserID s (some uid)) (h.toStable.transitionToHome _ n)
  · exact h.toSettled.callback hc hsignIn hurl

theorem act {a : Action} (ha : s.act a = some t) (hlogin : a ≠ .login) (hrelaunch : a ≠ .relaunch) :
    R s t := by
  by_cases hcancel : a = .CancelLogin
  · subst hcancel
    obtain rfl := Option.some.inj ha
    exact h.toStable.transitionToHome s _
  · exact h.toSettled.act ha hlogin hcancel hrelaunch

end Lasting

theorem link_lt {s : State} {n k : ℕ} {link : Link} (h : s.link n k = some link) :
    n < s.sessions.length := by
  by_contra hn
  rw [State.link, List.getElem?_eq_none (not_lt.mp hn)] at h
  cases h

/-- A request that is sent is out. -/
theorem link_send {s : State} {n : ℕ} (hn : n < s.sessions.length) (l : Link) :
    ∃ k, (s.send n [l]).link n k = some l := by
  refine ⟨s.sessions[n].links.length, ?_⟩
  simp [link, send, modify, hn]

/-- The arrival of a reply leaves the other requests as they are. -/
theorem link_answer (s : State) {n k m j : ℕ} (h : (m, j) ≠ (n, k)) :
    (s.answer n k).link m j = s.link m j := by
  simp only [link, answer, modify, List.getElem?_modify]
  cases s.sessions[m]? with
  | none => rfl
  | some S =>
    by_cases hm : n = m
    · have hj : k ≠ j := fun hj => h (by rw [hm, hj])
      simp [hm, List.getElem?_set_ne hj]
    · simp [hm]

def LinksKept (s t : State) : Prop := ∀ m j link, s.link m j = some link → t.link m j = some link

def Issued (s : State) (n k : ℕ) : Prop := ∃ S, s.sessions[n]? = some S ∧ k < S.links.length

def Placed (s t : State) : Prop :=
  ∀ m j, s.Issued m j → t.Issued m j ∧ t.link m j = s.link m j

theorem issued_of_link {s : State} {n k : ℕ} {l : Link} (h : s.link n k = some l) :
    s.Issued n k := by
  obtain ⟨S, hS, hk⟩ := Option.bind_eq_some_iff.mp (Option.join_eq_some_iff.mp h)
  exact ⟨S, hS, (List.getElem?_eq_some_iff.mp hk).1⟩

theorem placed_modify (s : State) (n : ℕ) {f : Session → Session}
    (hf : ∀ S, S.links <+: (f S).links) : Placed s (s.modify n f) := by
  rintro m j ⟨S, hS, hj⟩
  by_cases hm : n = m
  · subst hm
    have hfS : (s.modify n f).sessions[n]? = some (f S) := by simp [modify, hS]
    refine ⟨⟨f S, hfS, hj.trans_le (hf S).length_le⟩, ?_⟩
    rw [link, link, hfS, hS, Option.bind_some, Option.bind_some,
      List.prefix_iff_getElem?.mp (hf S) j hj, List.getElem?_eq_getElem hj]
  · have hsame : (s.modify n f).sessions[m]? = s.sessions[m]? := by simp [modify, hm]
    exact ⟨⟨S, hsame.trans hS, hj⟩, by rw [link, link, hsame]⟩

theorem placed_of_sessions {s t : State} (h : t.sessions = s.sessions) : Placed s t := by
  intro m j hj
  unfold Issued link at *
  rw [h]
  exact ⟨hj, rfl⟩

theorem lasting_placed : Lasting Placed where
  refl s := placed_of_sessions rfl
  trans h h' m j hj :=
    have hj' := h m j hj
    have hj'' := h' m j hj'.1
    ⟨hj''.1, hj''.2.trans hj'.2⟩
  send s n links _ := placed_modify s n fun _ => List.prefix_append _ _
  trap _ := placed_of_sessions rfl
  localAccount _ _ := placed_of_sessions rfl
  modify s n _ hf := placed_modify s n fun S => by
    obtain ⟨new, hnew, -⟩ := (hf S).links
    exact ⟨_, hnew.symm⟩
  listHistory _ _ := placed_of_sessions rfl
  listLike _ _ := placed_of_sessions rfl
  pages s n _ := placed_modify s n fun _ => List.prefix_rfl
  id _ _ := placed_of_sessions rfl
  ask s n _ := placed_modify s n fun _ => List.prefix_append _ _
  UserID _ _ := placed_of_sessions rfl
  luser _ _ := placed_of_sessions rfl

theorem Callback.placed {s t : State} {n : ℕ} {link : Link} {reply : Reply}
    (h : Callback s n link reply t) : Placed s t :=
  lasting_placed.callback h fun _ _ s _ => placed_modify s n fun _ => List.prefix_rfl

theorem Placed.linksKept {s t : State} (h : Placed s t) : LinksKept s t :=
  fun m j _ hl => (h m j (issued_of_link hl)).2.trans hl

end State
end ComicApp.AccountSession
