import ComicApp.EventMachine
import ComicApp.Objects

/-!
# Sessions of the account

The account of the app, the shelf lists filled for it and the requests that fill them. Every request
is a link of a chain of nested callbacks; the reply to a link may issue the next ones. Opening the
login page starts a new session, and each session keeps the links of the chains that were started in
it, the comics these chains hold and the info pages opened in it. The replies carry the contents of
the remote documents and files.
-/

namespace ComicApp.AccountSession
open EventMachine

structure User where
  email : Option String := some "guest@gmail.com"
  fullName : Option String := some "Guest"
  gender : Option String := some "Other"
  birthday : Option String := some "01/01/2000"
  avatar : Option Data := none
  isDownAvatar : Bool := false
  deriving DecidableEq, Repr

structure LUser where
  name : Option String
  gender : Option String
  email : Option String
  birthday : Option String
  avatar : Option Data
  userID : Option String
  deriving DecidableEq, Repr

structure UserDocument where
  fullName : Option String
  gender : Option String
  birthday : Option String
  email : Option String
  avatarUrl : Option String
  comicHistory : Option (List String)
  comicLike : Option (List String)
  deriving DecidableEq, Repr

structure ComicDocument where
  name : Option String
  totalChap : Option ℤ
  posterPath : Option String
  author : Option String
  category : Option String
  deriving DecidableEq, Repr

/-- The three places that fetch a comic for a shelf list: the two loops of `Shelf.DownloadList` and
`InfoViewController.Like`. -/
inductive Chain where
  | comicHistory
  | comicLike
  | Like
  deriving DecidableEq, Repr

/-- A request, with the comic or the account its callback captures. `profile` and `avatar` are issued
by `AccountViewController.downAccount` if `onPage`, else by `UserLocal.userFirebaseToRam`. -/
inductive Link where
  | userDocument (UserID : String)
  | comicDocument (chain : Chain) (comic : ℕ)
  | poster (chain : Chain) (comic : ℕ)
  | infoDocument (tmp : ℕ)
  | listAll (tmp : ℕ)
  | item (tmp : ℕ)
  | profile (onPage : Bool) (UserID : String)
  | avatar (onPage : Bool) (UserID : String)
  | signIn
  | createUser
  | putData (UserID : String)
  | downloadURL (UserID : String)
  deriving DecidableEq, Repr

inductive Reply where
  | error
  | user (document : Option UserDocument)
  | comic (document : Option ComicDocument)
  | listing (reply : ListAllReply (ℕ × ℕ))
  | data (data : Data)
  | uid (uid : String)
  | metadata
  | url (url : String)
  deriving DecidableEq, Repr

structure AvatarUpdate where
  picture : String
  document : String
  avatarUrl : String
  deriving DecidableEq, Repr

/-- An info page: the comic it was opened for, and the `tag` of its `likeButton`. -/
structure Page where
  comic : Option String
  tag : Bool
  deriving DecidableEq, Repr

/-- `links` is `none` where the reply has arrived. `updates` lists what the uploads of this session
wrote to the remote documents. -/
structure Session where
  objects : List DComic := []
  links : List (Option Link) := []
  pages : List Page := []
  updates : List AvatarUpdate := []
  deriving DecidableEq, Repr

/-- A comic by its session and its place there; the shelf lists hold objects that callbacks may
still write to. -/
abbrev Ref := ℕ × ℕ

structure State where
  UserID : Option String
  localAccount : User
  luser : List LUser
  listHistory : List Ref
  listLike : List Ref
  id : Option String
  sessions : List Session
  running : Bool
  deriving DecidableEq, Repr

inductive Action where
  | login
  | loginTapped
  | CancelLogin
  | signUpTapped
  | accountDidLoad
  | accountWillAppear
  | Save (hasImage : Bool)
  | select (id : Option String)
  | viewDidLoad
  | Like (n p : ℕ)
  | pathUpdate (satisfied : Bool)
  | relaunch
  deriving DecidableEq, Repr

inductive Event where
  | action (a : Action)
  | reply (n k : ℕ) (reply : Reply)
  deriving DecidableEq, Repr

def Page.setTag (page : Page) (tag : Bool) : Page := { page with tag := tag }

def Session.fetch (S : Session) (comic : DComic) (links : ℕ → List Link) : Session :=
  { S with
    objects := S.objects ++ [comic]
    links := S.links ++ (links S.objects.length).map some }

namespace State

def trap (s : State) : State := { s with running := false }

def current (s : State) : ℕ := s.sessions.length - 1

def modify (s : State) (n : ℕ) (f : Session → Session) : State :=
  { s with sessions := s.sessions.modify n f }

def send (s : State) (n : ℕ) (links : List Link) : State :=
  s.modify n fun S => { S with links := S.links ++ links.map some }

def answer (s : State) (n k : ℕ) : State := s.modify n fun S => { S with links := S.links.set k none }

def write (s : State) (n k : ℕ) (f : DComic → DComic) : State :=
  s.modify n fun S => { S with objects := S.objects.modify k f }

def link (s : State) (n k : ℕ) : Option Link :=
  (s.sessions[n]?.bind fun S => S.links[k]?).join

def comic (s : State) (r : Ref) : Option DComic := s.sessions[r.1]?.bind fun S => S.objects[r.2]?

def page (s : State) (n p : ℕ) : Option Page := s.sessions[n]?.bind fun S => S.pages[p]?

def tag (s : State) (n p : ℕ) : Option Bool := (s.page n p).map Page.tag

def idComic (s : State) (r : Ref) : Option String := (s.comic r).bind DComic.idComic

/-- `UserLocal.userRamToRealm`, which leaves the `userID` of a stored user alone. -/
def userRamToRealm (s : State) : State :=
  match s.luser with
  | user :: users => { s with
      luser := { user with
        avatar := s.localAccount.avatar
        birthday := s.localAccount.birthday
        email := s.localAccount.email
        gender := s.localAccount.gender
        name := s.localAccount.fullName } :: users }
  | [] => { s with
      luser := [{
        name := some (s.localAccount.fullName.getD "")
        email := some (s.localAccount.email.getD "")
        gender := some (s.localAccount.gender.getD "")
        birthday := some (s.localAccount.birthday.getD "")
        avatar := some (s.localAccount.avatar.getD [])
        userID := some (s.UserID.getD "") }] }

def userRealmToRam (s : State) : State :=
  match s.luser with
  | user :: _ => { s with
      UserID := user.userID
      localAccount := { s.localAccount with
        fullName := user.name
        gender := user.gender
        birthday := user.birthday
        email := user.email
        avatar := user.avatar } }
  | [] => s

def setDownAvatar (s : State) (isDownAvatar : Bool) : State :=
  { s with localAccount := { s.localAccount with isDownAvatar := isDownAvatar } }

def userFirebaseToRam (s : State) (n : ℕ) : State :=
  match s.UserID with
  | none => s.trap
  | some UserID => s.send n [.profile false UserID]

/-- The handler that `UserLocal.downAccount` gives to its path monitor. -/
def pathUpdateHandler (s : State) (satisfied : Bool) : State :=
  if satisfied then
    if s.UserID ≠ none then s.userFirebaseToRam s.current else s
  else s.userRealmToRam.setDownAvatar false

def downAccount (s : State) (n : ℕ) : State :=
  match s.UserID with
  | none => s
  | some UserID => if s.localAccount.isDownAvatar then s.send n [.profile true UserID] else s

/-- `AccountViewController.setAccount`, which unwraps the name. -/
def setAccount (s : State) (n : ℕ) : State :=
  match s.localAccount.fullName with
  | none => s.trap
  | some _ => if s.localAccount.isDownAvatar ∧ s.UserID ≠ none then s.downAccount n else s

def accountWillAppear (s : State) : State :=
  let n := s.current
  (if s.UserID = none then s.setAccount n else s).downAccount n

/-- The end of a download of the account: on the account page the labels are set first. -/
def downloaded (s : State) (n : ℕ) (onPage : Bool) : State :=
  let s := if onPage then s.setAccount n else s
  if s.running then s.userRamToRealm else s

def setFields (s : State) (data : UserDocument) : State :=
  { s with
    localAccount := { s.localAccount with
      fullName := data.fullName
      gender := data.gender
      birthday := data.birthday
      email := data.email } }

def setAvatar (s : State) (avatar : Option Data) : State :=
  { s with localAccount := { s.localAccount with avatar := avatar } }

/-- The request for the avatar of the user who is signed in by now. -/
def askAvatar (s : State) (n : ℕ) (onPage : Bool) : State :=
  match s.UserID with
  | none => s.trap
  | some UserID => s.send n [.avatar onPage UserID]

/-- The branch for an account with an avatar: only `UserLocal.userFirebaseToRam` marks it as being
downloaded. -/
def downAvatar (s : State) (n : ℕ) (onPage : Bool) : State :=
  (if onPage then s else s.setDownAvatar true).askAvatar n onPage

def onProfile (s : State) (n : ℕ) (onPage : Bool) (document : Option UserDocument) : State :=
  match document with
  | none => s
  | some data =>
    let s := s.setFields data
    if data.avatarUrl = some "" then (s.setAvatar none).downloaded n onPage
    else s.downAvatar n onPage

def onAvatar (s : State) (n : ℕ) (onPage : Bool) (data : Data) : State :=
  ((s.setAvatar (some data)).setDownAvatar false).downloaded n onPage

def DownloadList (s : State) (n : ℕ) : State :=
  match s.UserID with
  | none => s
  | some UserID => s.send n [.userDocument UserID]

def downloadComics (s : State) (n : ℕ) (chain : Chain) : List String → State
  | [] => s
  | idComic :: listString =>
    (s.modify n fun S => S.fetch
      { idComic := some idComic
        totalSize := some 1
        Dsize := some 0
        finish := true }
      fun comic => [.comicDocument chain comic]).downloadComics n chain listString

/-- The document of the account arrives for `Shelf.DownloadList`, which unwraps its two lists. -/
def onUserDocument (s : State) (n : ℕ) (document : Option UserDocument) : State :=
  match document.bind UserDocument.comicHistory with
  | none => s.trap
  | some listString =>
    let s := s.downloadComics n .comicHistory listString
    match document.bind UserDocument.comicLike with
    | none => s.trap
    | some listString2 => s.downloadComics n .comicLike listString2

/-- The document of a comic arrives. `InfoViewController.Like` does not ask whether it exists. -/
def onComicDocument (s : State) (n : ℕ) (chain : Chain) (comic : ℕ)
    (document : Option ComicDocument) : State :=
  if chain ≠ .Like ∧ document = none then s
  else
    let s := s.write n comic fun comic =>
      { comic with
        name := document.bind ComicDocument.name
        totalChap := document.bind ComicDocument.totalChap }
    match document.bind ComicDocument.posterPath with
    | none => s.trap
    | some _ => s.send n [.poster chain comic]

def onPoster (s : State) (n : ℕ) (chain : Chain) (comic : ℕ) (data : Data) : State :=
  let s := s.write n comic fun comic => { comic with poster := some data }
  match chain with
  | .comicHistory => { s with listHistory := s.listHistory ++ [(n, comic)] }
  | .comicLike | .Like => { s with listLike := s.listLike ++ [(n, comic)] }

/-- The document of a comic arrives for `InfoViewController.upLoad`, which unwraps the author and
the category. -/
def onInfoDocument (s : State) (n tmp : ℕ) (document : Option ComicDocument) : State :=
  let s := s.write n tmp fun tmp => { tmp with name := document.bind ComicDocument.name }
  match document.bind ComicDocument.author, document.bind ComicDocument.category with
  | some _, some _ => s
  | _, _ => s.trap

/-- The listing of a comic's folder arrives for `InfoViewController.upLoad`, which returns from the
callback with the error. -/
def onListAll (s : State) (n tmp prefixes items : ℕ) : State :=
  let s := if prefixes = 0 then s
    else s.write n tmp fun tmp => { tmp with totalChap := some prefixes }
  s.send n (List.replicate items (.item tmp))

def onItem (s : State) (n tmp : ℕ) (data : Data) : State :=
  let s := s.write n tmp fun tmp => { tmp with poster := some data }
  if ∃ r ∈ s.listHistory, s.idComic r = s.idComic (n, tmp) then s
  else { s with listHistory := s.listHistory ++ [(n, tmp)] }

def upLoad (s : State) (id : String) : State :=
  s.modify s.current fun S => S.fetch
    { idComic := some id
      finish := true }
    fun tmp => [.infoDocument tmp, .listAll tmp]

def liked (s : State) : Bool := s.listLike.any fun r => s.idComic r = s.id

/-- A new info page, whose button shows whether the comic is in the list. -/
def checkLike (s : State) : State :=
  s.modify s.current fun S => { S with pages := S.pages ++ [⟨s.id, s.liked⟩] }

def onViewDidLoad (s : State) : State :=
  match s.id with
  | none => s.trap
  | some id => (s.upLoad id).checkLike

def removeLike (s : State) : State :=
  { s with listLike := s.listLike.eraseP fun r => s.idComic r = s.id }

def addLike (s : State) : State :=
  match s.id with
  | none => s.trap
  | some id => s.modify s.current fun S => S.fetch
      { idComic := some id
        finish := true }
      fun comictmp => [.comicDocument .Like comictmp]

def onLike (s : State) (n p : ℕ) (tag : Bool) : State :=
  match s.UserID with
  | none => s
  | some _ =>
    let s := s.modify n fun S => { S with pages := S.pages.modify p (·.setTag !tag) }
    if tag then s.removeLike else s.addLike

def setElement (s : State) : State :=
  { s with
    UserID := none
    localAccount := {}
    luser := []
    listHistory := []
    listLike := []
    sessions := s.sessions ++ [{}] }

def transitionToHome (s : State) (n : ℕ) : State := (s.DownloadList n).setDownAvatar true

/-- `EditAccountViewController.Save`; without an image it returns home at once. -/
def onSave (s : State) (hasImage : Bool) : State :=
  match s.UserID with
  | none => s.trap
  | some UserID => if hasImage then s.send s.current [.putData UserID] else s.setDownAvatar true

def onPutData (s : State) (n : ℕ) (UserID : String) : State :=
  (s.send n [.downloadURL UserID]).setDownAvatar true

/-- The URL of an uploaded picture arrives and is stored for the user who is signed in by now. -/
def onDownloadURL (s : State) (n : ℕ) (picture url : String) : State :=
  match s.UserID with
  | none => s.trap
  | some UserID => s.modify n fun S => { S with updates := S.updates ++ [⟨picture, UserID, url⟩] }

/-- A fresh process, which `UserLocal.downAccount` signs in with the stored user. -/
def boot (luser : List LUser) (sessions : List Session) : State where
  UserID := luser.head?.bind LUser.userID
  localAccount := {}
  luser := luser
  listHistory := []
  listLike := []
  id := none
  sessions := sessions
  running := true

def start (luser : List LUser) (sessions : List Session) : State :=
  (boot luser sessions).DownloadList (sessions.length - 1)

def act (s : State) : Action → Option State
  | .login => some s.setElement
  | .loginTapped => some (s.send s.current [.signIn])
  | .CancelLogin => some (s.transitionToHome s.current)
  | .signUpTapped => some (s.send s.current [.createUser])
  | .accountDidLoad => some (s.setAccount s.current)
  | .accountWillAppear => some s.accountWillAppear
  | .Save hasImage => some (s.onSave hasImage)
  | .select id => some { s with id := id }
  | .viewDidLoad => some s.onViewDidLoad
  | .Like n p => (s.tag n p).map (s.onLike n p)
  | .pathUpdate satisfied => some (s.pathUpdateHandler satisfied)
  | .relaunch => some (start s.luser (s.sessions.map fun _ => {}))

def onReply (s : State) (n : ℕ) : Link → Reply → Option State
  | .profile _ _, .error => some (s.setDownAvatar false)
  | _, .error => some s
  | .userDocument _, .user document => some (s.onUserDocument n document)
  | .comicDocument chain comic, .comic document => some (s.onComicDocument n chain comic document)
  | .poster chain comic, .data data => some (s.onPoster n chain comic data)
  | .infoDocument tmp, .comic document => some (s.onInfoDocument n tmp document)
  | .listAll tmp, .listing reply => some (s.onListAll n tmp reply.listed.1 reply.listed.2)
  | .item tmp, .data data => some (s.onItem n tmp data)
  | .profile onPage _, .user document => some (s.onProfile n onPage document)
  | .avatar onPage _, .data data => some (s.onAvatar n onPage data)
  | .signIn, .uid uid => some ({ s with UserID := some uid }.transitionToHome n)
  | .createUser, .uid uid => some ({ s with UserID := some uid }.setDownAvatar true)
  | .putData UserID, .metadata => some (s.onPutData n UserID)
  | .downloadURL UserID, .url url => some (s.onDownloadURL n UserID url)
  | _, _ => none

inductive Callback (s : State) (n : ℕ) : Link → Reply → State → Prop where
  | failed (link : Link) (h : ∀ onPage UserID, link ≠ .profile onPage UserID) :
      Callback s n link .error s
  | profileFailed (onPage : Bool) (UserID : String) :
      Callback s n (.profile onPage UserID) .error (s.setDownAvatar false)
  | userDocument (UserID : String) (document : Option UserDocument) :
      Callback s n (.userDocument UserID) (.user document) (s.onUserDocument n document)
  | comicDocument (chain : Chain) (comic : ℕ) (document : Option ComicDocument) :
      Callback s n (.comicDocument chain comic) (.comic document)
        (s.onComicDocument n chain comic document)
  | poster (chain : Chain) (comic : ℕ) (data : Data) :
      Callback s n (.poster chain comic) (.data data) (s.onPoster n chain comic data)
  | infoDocument (tmp : ℕ) (document : Option ComicDocument) :
      Callback s n (.infoDocument tmp) (.comic document) (s.onInfoDocument n tmp document)
  | listAll (tmp : ℕ) (reply : ListAllReply (ℕ × ℕ)) :
      Callback s n (.listAll tmp) (.listing reply)
        (s.onListAll n tmp reply.listed.1 reply.listed.2)
  | item (tmp : ℕ) (data : Data) : Callback s n (.item tmp) (.data data) (s.onItem n tmp data)
  | profile (onPage : Bool) (UserID : String) (document : Option UserDocument) :
      Callback s n (.profile onPage UserID) (.user document) (s.onProfile n onPage document)
  | avatar (onPage : Bool) (UserID : String) (data : Data) :
      Callback s n (.avatar onPage UserID) (.data data) (s.onAvatar n onPage data)
  | signIn (uid : String) :
      Callback s n .signIn (.uid uid) ({ s with UserID := some uid }.transitionToHome n)
  | createUser (uid : String) :
      Callback s n .createUser (.uid uid) ({ s with UserID := some uid }.setDownAvatar true)
  | putData (UserID : String) : Callback s n (.putData UserID) .metadata (s.onPutData n UserID)
  | downloadURL (UserID url : String) :
      Callback s n (.downloadURL UserID) (.url url) (s.onDownloadURL n UserID url)

theorem Callback.of_onReply {s t : State} {n : ℕ} {link : Link} {reply : Reply}
    (h : s.onReply n link reply = some t) : Callback s n link reply t := by
  cases reply with
  | error =>
    cases link with
    | profile onPage UserID =>
      obtain rfl := Option.some.inj h
      exact .profileFailed onPage UserID
    | _ =>
      obtain rfl := Option.some.inj h
      exact .failed _ nofun
  | user document =>
    cases link with
    | userDocument UserID =>
      obtain rfl := Option.some.inj h
      exact .userDocument UserID document
    | profile onPage UserID =>
      obtain rfl := Option.some.inj h
      exact .profile onPage UserID document
    | _ => cases h
  | comic document =>
    cases link with
    | comicDocument chain comic =>
      obtain rfl := Option.some.inj h
      exact .comicDocument chain comic document
    | infoDocument tmp =>
      obtain rfl := Option.some.inj h
      exact .infoDocument tmp document
    | _ => cases h
  | listing reply =>
    cases link with
    | listAll tmp =>
      obtain rfl := Option.some.inj h
      exact .listAll tmp reply
    | _ => cases h
  | data data =>
    cases link with
    | poster chain comic =>
      obtain rfl := Option.some.inj h
      exact .poster chain comic data
    | item tmp =>
      obtain rfl := Option.some.inj h
      exact .item tmp data
    | avatar onPage UserID =>
      obtain rfl := Option.some.inj h
      exact .avatar onPage UserID data
    | _ => cases h
  | uid uid =>
    cases link with
    | signIn =>
      obtain rfl := Option.some.inj h
      exact .signIn uid
    | createUser =>
      obtain rfl := Option.some.inj h
      exact .createUser uid
    | _ => cases h
  | metadata =>
    cases link with
    | putData UserID =>
      obtain rfl := Option.some.inj h
      exact .putData UserID
    | _ => cases h
  | url url =>
    cases link with
    | downloadURL UserID =>
      obtain rfl := Option.some.inj h
      exact .downloadURL UserID url
    | _ => cases h

theorem Callback.onReply {s t : State} {n : ℕ} {link : Link} {reply : Reply}
    (h : Callback s n link reply t) : s.onReply n link reply = some t := by
  cases h with
  | failed link hlink =>
    cases link with
    | profile onPage UserID => exact absurd rfl (hlink onPage UserID)
    | _ => rfl
  | _ => rfl

end State

/-- After a trap there is no process until the app is launched again. -/
def step (s : State) : Event → Option State
  | .action a => if s.running ∨ a = .relaunch then s.act a else none
  | .reply n k reply =>
    if s.running then (s.link n k).bind fun link => (s.answer n k).onReply n link reply else none

def launch (luser : List LUser) : State := State.start luser [{}]

end ComicApp.AccountSession
