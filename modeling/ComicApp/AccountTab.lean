import ComicApp.AccountData
import ComicApp.AccountPage
import ComicApp.AvatarUpload

/-!
# The tab of the account

The account page with its buttons, and over it the login, sign-up, edit and change-password pages,
beside the account and what has been written to the documents of the `Users` collection. The client
shows its own writes at once and sends them later, and the other devices write with the same forms in
between; so a request for a profile may be answered with the texts and the picture of any two writes.
A page that returns home is followed by an appearance of the account page, at once or later.
-/

namespace ComicApp.AccountTab
open EventMachine AccountSession
open EditAccountViewController (Edit)

structure AccountViewController where
  btnLoginLogout : String
  btnEditIsHidden : Bool
  btnChangePasswordIsHidden : Bool
  lblFullName : Option String
  lblMyAccount : Option String
  lblGender : Option String
  lblBirthday : Option String
  lblEmail : Option String
  imgAvatar : Option Data
  deriving DecidableEq, Repr

namespace AccountViewController

def setElement : AccountViewController where
  btnLoginLogout := "Login"
  btnEditIsHidden := true
  btnChangePasswordIsHidden := true
  lblFullName := none
  lblMyAccount := none
  lblGender := none
  lblBirthday := none
  lblEmail := none
  imgAvatar := none

/-- What `setAccount` shows; without a name it stops after the first label. -/
def setAccount (c : AccountViewController) (s : AccountSession.State) (isNetworkConnect : Bool) :
    AccountViewController :=
  let c := { c with lblFullName := s.localAccount.fullName }
  match s.localAccount.fullName with
  | none => c
  | some fullName =>
    let c := { c with
      lblMyAccount := some ("  " ++ fullName ++ "  ")
      lblGender := s.localAccount.gender
      lblBirthday := s.localAccount.birthday
      lblEmail := s.localAccount.email
      imgAvatar := s.localAccount.avatar }
    if s.UserID ≠ none then
      let c := { c with btnLoginLogout := "Logout" }
      if isNetworkConnect then
        { c with
          btnEditIsHidden := false
          btnChangePasswordIsHidden := false }
      else c
    else { c with
      btnLoginLogout := "Login"
      btnEditIsHidden := true
      btnChangePasswordIsHidden := true }

/-- The page shows that somebody is signed in, or lets the account be changed. -/
def Offers (c : AccountViewController) : Prop :=
  c.btnLoginLogout ≠ "Login" ∨ c.btnEditIsHidden = false ∨ c.btnChangePasswordIsHidden = false

end AccountViewController

inductive Screen where
  | account
  | login
  | signUp
  | edit (c : EditAccountViewController)
  | changePassword
  deriving DecidableEq, Repr

def Screen.NeedsUser : Screen → Prop
  | .edit _ | .changePassword => True
  | .account | .login | .signUp => False

def Screen.SignsIn : Screen → Prop
  | .login | .signUp => True
  | .account | .edit _ | .changePassword => False

theorem Screen.SignsIn.not_needsUser {screen : Screen} (h : screen.SignsIn) :
    ¬ screen.NeedsUser := by
  cases screen with
  | login | signUp => exact id
  | account | edit | changePassword => exact h.elim

inductive Write where
  | setData (document : AccountFields)
  | updateData (update : AccountUpdate)
  | avatarUrl (url : String)
  deriving DecidableEq, Repr

/-- A form filled in on another device, or a picture uploaded there. -/
inductive Form where
  | signUpTapped (c : SignUpViewController)
  | Save (localAccount : User) (edits : List Edit)
  | picture (url : String)
  deriving DecidableEq, Repr

structure Written where
  setData : List AccountFields := []
  updateData : List AccountUpdate := []
  avatarUrl : List String := []
  deriving DecidableEq, Repr

/-- `signUps` holds what each `createUser` request has captured, by the place of the request, and
`setData` the documents of new accounts that are still to be created. -/
structure State where
  app : AccountSession.State
  account : Option AccountViewController
  screen : Screen
  isNetworkConnect : Bool
  users : String → Written
  signUps : List ((ℕ × ℕ) × NewAccount)
  setData : List (String × AccountFields)

/-- What the user does on the pages, and what the system tells the account page. -/
inductive PageEvent where
  | viewDidLoad
  | viewWillAppear
  | login
  | signUp
  | back
  | edit
  | changePassword
  | loginTapped (c : LoginViewController)
  | CancelLogin
  | signUpTapped (c : SignUpViewController)
  | change (e : Edit)
  | Save
  | Send (c : ChangePasswordViewController)
  deriving DecidableEq, Repr

inductive Event where
  | page (e : PageEvent)
  | app (e : AccountSession.Event)
  | setData (i : ℕ) (succeeds : Bool)
  | elsewhere (UserID : String) (form : Form)
  deriving DecidableEq, Repr

def Written.add (written : Written) : Write → Written
  | .setData document => { written with setData := document :: written.setData }
  | .updateData update => { written with updateData := update :: written.updateData }
  | .avatarUrl url => { written with avatarUrl := url :: written.avatarUrl }

/-- The fields after an update and a picture, where there are such. -/
def overwrite (fields : AccountFields) (update : Option AccountUpdate) (avatarUrl : Option String) :
    AccountFields :=
  let fields := update.elim fields fields.update
  { fields with avatarUrl := avatarUrl <|> fields.avatarUrl }

/-- A read may show these fields, whichever of the writes it has seen and in whichever order. -/
def Written.Shows (written : Written) (fields : AccountFields) : Prop :=
  ∃ document ∈ written.setData, ∃ update ∈ none :: written.updateData.map some,
    ∃ url ∈ none :: written.avatarUrl.map some, fields = overwrite document update url

instance (written : Written) (fields : AccountFields) : Decidable (written.Shows fields) :=
  inferInstanceAs (Decidable (∃ document ∈ _, _))

def Form.write (u : Unicode) : Form → Option Write
  | .signUpTapped c =>
    match c.signUpTapped u with
    | .error _ => none
    | .ok account => some (.setData account.fields)
  | .Save localAccount edits =>
    let c := edits.foldl .edit (EditAccountViewController.setElement localAccount)
    (c.Save u).2.map .updateData
  | .picture url => some (.avatarUrl url)

def offPage : AccountSession.Event → Bool
  | .action (.select _) | .action .viewDidLoad | .action (.Like _ _) | .action (.pathUpdate _)
  | .action .relaunch => true
  | .action _ => false
  | .reply _ _ _ => true

namespace State
variable (u : Unicode)

def asks (s : State) (n k : ℕ) : Option String :=
  match s.app.link n k with
  | some (.profile _ UserID) => some UserID
  | _ => none

/-- A profile that arrives is what a read of the document that was asked for may show. -/
def Admits (s : State) : AccountSession.Event → Prop
  | .reply n k (.user (some data)) => ∀ UserID ∈ s.asks n k, (s.users UserID).Shows data.account
  | _ => True

instance decidableAdmits (s : State) : ∀ e, Decidable (s.Admits e)
  | .reply n k (.user (some data)) =>
    inferInstanceAs (Decidable (∀ UserID ∈ s.asks n k, (s.users UserID).Shows data.account))
  | .reply _ _ .error | .reply _ _ (.user none) | .reply _ _ (.comic _) | .reply _ _ (.listing _)
  | .reply _ _ (.data _) | .reply _ _ (.uid _) | .reply _ _ .metadata | .reply _ _ (.url _)
  | .action _ => .isTrue trivial

def setsAccount (s : State) : AccountSession.Event → Bool
  | .action .accountDidLoad => true
  | .action .accountWillAppear => s.app.UserID = none
  | .reply n k (.user (some data)) =>
    (s.app.link n k).any fun link => AccountPage.onPage link && data.avatarUrl = some ""
  | .reply n k (.data _) => (s.app.link n k).any fun link => AccountPage.onPage link
  | _ => false

def created (s : State) : AccountSession.Event → Option (String × AccountFields)
  | .reply n k (.uid uid) =>
    match s.app.link n k with
    | some .createUser => (s.signUps.lookup (n, k)).map fun account => (uid, account.fields)
    | _ => none
  | _ => none

/-- The write of an event of the app, with its document: the new account, or the URL of an uploaded
picture. -/
def writes (s : State) (e : AccountSession.Event) : Option (String × Write) :=
  match e with
  | .reply n k (.url url) =>
    match s.app.link n k with
    | some (.downloadURL _) => s.app.UserID.map fun UserID => (UserID, .avatarUrl url)
    | _ => none
  | e => (s.created e).map fun document => (document.1, .setData document.2)

def write (s : State) : Option (String × Write) → String → Written
  | none => s.users
  | some (UserID, write) => Function.update s.users UserID ((s.users UserID).add write)

def onApp (s : State) (e : AccountSession.Event) (app : AccountSession.State) : State where
  app := app
  account :=
    if e = .action .relaunch then none
    else if s.setsAccount e then s.account.map fun page => page.setAccount app s.isNetworkConnect
    else s.account
  screen := if e = .action .relaunch then .account else s.screen
  isNetworkConnect :=
    match e with
    | .action (.pathUpdate satisfied) => satisfied
    | .action .relaunch => true
    | _ => s.isNetworkConnect
  users := s.write (s.writes e)
  signUps := if e = .action .relaunch then [] else s.signUps
  setData := s.setData ++ (s.created e).toList

def perform (s : State) (e : AccountSession.Event) : Option State :=
  (AccountSession.step s.app e).map (s.onApp e)

def next (s : State) : ℕ × ℕ :=
  (s.app.current, (s.app.sessions[s.app.current]?.map fun S => S.links.length).getD 0)

/-- The writes after `Save`, which unwraps the user. -/
def saved (s : State) (update : AccountUpdate) : String → Written :=
  s.write (s.app.UserID.map fun UserID => (UserID, .updateData update))

def onPage (s : State) : PageEvent → Option State
  | .viewDidLoad =>
    if s.account = none then
      { s with account := some .setElement }.perform (.action .accountDidLoad)
    else none
  | .viewWillAppear =>
    if s.account ≠ none then { s with screen := .account }.perform (.action .accountWillAppear)
    else none
  | .login =>
    if s.screen = .account ∧ s.account ≠ none then { s with screen := .login }.perform (.action .login)
    else none
  | .signUp => if s.screen = .login then some { s with screen := .signUp } else none
  | .back => if s.screen = .signUp then some { s with screen := .login } else none
  | .edit =>
    if s.screen = .account ∧ s.account.any (fun page => !page.btnEditIsHidden) then
      some { s with screen := .edit (.setElement s.app.localAccount) }
    else none
  | .changePassword =>
    if s.screen = .account ∧ s.account.any (fun page => !page.btnChangePasswordIsHidden) then
      some { s with screen := .changePassword }
    else none
  | .loginTapped c =>
    if s.screen = .login then
      match c.loginTapped u with
      | .error _ => some s
      | .ok _ => s.perform (.action .loginTapped)
    else none
  | .CancelLogin => if s.screen = .login then s.perform (.action .CancelLogin) else none
  | .signUpTapped c =>
    if s.screen = .signUp then
      match c.signUpTapped u with
      | .error _ => some s
      | .ok account =>
        { s with signUps := (s.next, account) :: s.signUps }.perform (.action .signUpTapped)
    else none
  | .change e =>
    match s.screen with
    | .edit c => some { s with screen := .edit (c.edit e) }
    | _ => none
  | .Save =>
    match s.screen with
    | .edit c =>
      match (c.Save u).2 with
      | none => some { s with screen := .edit (c.Save u).1 }
      | some update =>
        { s with
          screen := .edit (c.Save u).1
          users := s.saved update }.perform (.action (.Save c.imageAvatar.isSome))
    | _ => none
  | .Send c =>
    if s.screen = .changePassword then
      match c.Send u, s.app.localAccount.email with
      | .ok _, none => some { s with app := s.app.trap }
      | _, _ => some s
    else none

end State

def step (u : Unicode) (s : State) : Event → Option State
  | .page e => if s.app.running then s.onPage u e else none
  | .app e => if offPage e ∧ s.Admits e then s.perform e else none
  | .setData i _ =>
    if i < s.setData.length then some { s with setData := s.setData.eraseIdx i } else none
  | .elsewhere UserID form =>
    some { s with users := s.write ((form.write u).map fun write => (UserID, write)) }

/-- The first start of the app, over a `Users` collection that is still empty. -/
def launch : State where
  app := AccountSession.launch []
  account := none
  screen := .account
  isNetworkConnect := true
  users := fun _ => {}
  signUps := []
  setData := []

/-- What an event of the pages does: it opens the account or the login page, turns between the login and
the sign-up page, opens a page from a button of the account page, shows an error, goes on to the
account, or changes the form of the edit page. -/
inductive PageStep (u : Unicode) (s : State) : PageEvent → State → Prop where
  | viewDidLoad (t : State)
      (ht : { s with account := some .setElement }.perform (.action .accountDidLoad) = some t) :
      PageStep u s .viewDidLoad t
  | viewWillAppear (t : State)
      (ht : { s with screen := .account }.perform (.action .accountWillAppear) = some t) :
      PageStep u s .viewWillAppear t
  | login (t : State) (ht : { s with screen := .login }.perform (.action .login) = some t) :
      PageStep u s .login t
  | turns (e : PageEvent) (screen : Screen) (hscreen : screen.SignsIn) :
      PageStep u s e { s with screen := screen }
  | opens (e : PageEvent) (screen : Screen) (page : AccountViewController)
      (haccount : s.screen = .account) (hpage : page ∈ s.account) (hoffers : page.Offers)
      (hform : ∀ c, screen = .edit c → ∃ g, c.Selected g) :
      PageStep u s e { s with screen := screen }
  | shows (e : PageEvent) : PageStep u s e s
  | acts (e : PageEvent) (a : Action) (t : State) (ha : a = .loginTapped ∨ a = .CancelLogin)
      (ht : s.perform (.action a) = some t) : PageStep u s e t
  | signUpTapped (c : SignUpViewController) (account : NewAccount) (t : State)
      (haccount : c.signUpTapped u = .ok account)
      (ht : { s with signUps := (s.next, account) :: s.signUps }.perform (.action .signUpTapped) =
        some t) : PageStep u s (.signUpTapped c) t
  | changes (e : PageEvent) (c c' : EditAccountViewController) (hscreen : s.screen = .edit c)
      (hform : ∀ g, c.Selected g → ∃ g', c'.Selected g') :
      PageStep u s e { s with screen := .edit c' }
  | Save (c : EditAccountViewController) (update : AccountUpdate) (t : State)
      (hscreen : s.screen = .edit c) (hupdate : (c.Save u).2 = some update)
      (ht : { s with
          screen := .edit (c.Save u).1
          users := s.saved update }.perform (.action (.Save c.imageAvatar.isSome)) = some t) :
      PageStep u s .Save t
  | Send (c : ChangePasswordViewController) (hemail : s.app.localAccount.email = none) :
      PageStep u s (.Send c) { s with app := s.app.trap }

/-- The button that opens a page is offered. -/
theorem offers_of_any {page : Option AccountViewController} {isHidden : AccountViewController → Bool}
    (h : page.any (fun page => !isHidden page)) (hoffers : ∀ page, isHidden page = false → page.Offers) :
    ∃ page' ∈ page, page'.Offers := by
  obtain ⟨page', hpage, hshown⟩ := (Option.any_eq_true _ _).mp h
  exact ⟨page', hpage, hoffers page' (by simpa using hshown)⟩

theorem PageStep.of_onPage {u : Unicode} {s t : State} {e : PageEvent} (h : s.onPage u e = some t) :
    PageStep u s e t := by
  unfold State.onPage at h
  cases e with
  | viewDidLoad =>
    dsimp only at h
    split_ifs at h
    exact .viewDidLoad t h
  | viewWillAppear =>
    dsimp only at h
    split_ifs at h
    exact .viewWillAppear t h
  | login =>
    dsimp only at h
    split_ifs at h
    exact .login t h
  | signUp | back =>
    dsimp only at h
    split_ifs at h
    obtain rfl := Option.some.inj h
    exact .turns _ _ trivial
  | edit =>
    dsimp only at h
    split_ifs at h with hedit
    obtain rfl := Option.some.inj h
    obtain ⟨page, hpage, hoffers⟩ := offers_of_any hedit.2 fun _ hshown => .inr (.inl hshown)
    refine .opens _ _ page hedit.1 hpage hoffers fun c hc => ?_
    obtain rfl := Screen.edit.inj hc
    exact ⟨_, EditAccountViewController.selected_button s.app.localAccount⟩
  | changePassword =>
    dsimp only at h
    split_ifs at h with hchange
    obtain rfl := Option.some.inj h
    obtain ⟨page, hpage, hoffers⟩ := offers_of_any hchange.2 fun _ hshown => .inr (.inr hshown)
    exact .opens _ _ page hchange.1 hpage hoffers nofun
  | loginTapped c =>
    dsimp only at h
    split_ifs at h
    split at h
    · obtain rfl := Option.some.inj h
      exact .shows _
    · exact .acts _ .loginTapped t (.inl rfl) h
  | CancelLogin =>
    dsimp only at h
    split_ifs at h
    exact .acts _ .CancelLogin t (.inr rfl) h
  | signUpTapped c =>
    dsimp only at h
    split_ifs at h
    split at h
    · obtain rfl := Option.some.inj h
      exact .shows _
    · rename_i account haccount
      exact .signUpTapped c account t haccount h
  | change e =>
    dsimp only at h
    split at h
    · rename_i c hc
      obtain rfl := Option.some.inj h
      exact .changes _ c _ hc fun g hg => hg.edit e
    · cases h
  | Save =>
    dsimp only at h
    split at h
    · rename_i c hc
      split at h
      · obtain rfl := Option.some.inj h
        exact .changes _ c _ hc fun g hg => ⟨g, hg.saved u⟩
      · rename_i update hupdate
        exact .Save c update t hc hupdate h
    · cases h
  | Send c =>
    dsimp only at h
    split_ifs at h
    split at h
    · rename_i hemail
      obtain rfl := Option.some.inj h
      exact .Send c hemail
    · obtain rfl := Option.some.inj h
      exact .shows _

def signUpAn : List Event :=
  [.page .viewDidLoad, .page .viewWillAppear, .page .login, .page .signUp,
    .page (.signUpTapped ⟨"An", "an@x.y", "abcd1234"⟩), .app (.reply 1 0 (.uid "a")),
    .setData 0 true, .page .viewWillAppear, .app (.reply 1 1 (.user (some
      ⟨some "An", some "Other", some "01/01/2000", some "an@x.y", some "", some [], some []⟩)))]

def editAn : List Event := signUpAn ++ [.page .edit]

def pictureAn : List Event :=
  editAn ++ [.page (.change (.didFinishPicking [7])), .page .Save, .app (.reply 1 3 .metadata),
    .page .viewWillAppear, .page .login]

def pictureURL : Event := .app (.reply 1 4 (.url "a.png"))

def afterEditAn : State :=
  (run (step PasswordFields.ascii) launch editAn).get (by decide +kernel)

def afterPictureAn : State :=
  (run (step PasswordFields.ascii) launch pictureAn).get (by decide +kernel)

def afterPictureURL : State :=
  (step PasswordFields.ascii afterPictureAn pictureURL).get (by decide +kernel)

end ComicApp.AccountTab
