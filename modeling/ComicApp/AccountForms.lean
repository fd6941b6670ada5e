import ComicApp.AccountSession
import ComicApp.PasswordFields

/-!
# The forms of the account

The forms for signing in, for signing up and for editing the account, with what they write to a
document of the `Users` collection. A text is written trimmed, and only where it is not blank; the
gender is the title of the button that was selected last.
-/

namespace ComicApp
open AccountSession

inductive Gender where
  | Male
  | Female
  | Other
  deriving DecidableEq, Repr

def Gender.title : Gender → String
  | .Male => "Male"
  | .Female => "Female"
  | .Other => "Other"

structure AccountFields where
  fullName : Option String
  gender : Option String
  birthday : Option String
  email : Option String
  avatarUrl : Option String
  deriving DecidableEq, Repr

def AccountSession.UserDocument.account (data : UserDocument) : AccountFields :=
  ⟨data.fullName, data.gender, data.birthday, data.email, data.avatarUrl⟩

structure Filled (fullName gender birthday email : Option String) : Prop where
  fullName : ∃ text, fullName = some text ∧ text ≠ ""
  gender : ∃ g : Gender, gender = some g.title
  birthday : ∃ text, birthday = some text ∧ text ≠ ""
  email : ∃ text, email = some text ∧ text ≠ ""

def AccountFields.Filled (fields : AccountFields) : Prop :=
  ComicApp.Filled fields.fullName fields.gender fields.birthday fields.email ∧
    fields.avatarUrl ≠ none

def AccountSession.User.Filled (user : User) : Prop :=
  ComicApp.Filled user.fullName user.gender user.birthday user.email

def AccountSession.LUser.Filled (user : LUser) : Prop :=
  ComicApp.Filled user.name user.gender user.birthday user.email

/-- The account of a guest. -/
theorem filled_guest : User.Filled {} :=
  ⟨⟨_, rfl, by decide⟩, ⟨.Other, rfl⟩, ⟨_, rfl, by decide⟩, ⟨_, rfl, by decide⟩⟩

structure AccountUpdate where
  fullName : String
  birthday : String
  gender : String
  deriving DecidableEq, Repr

def AccountFields.update (fields : AccountFields) (update : AccountUpdate) : AccountFields :=
  { fields with
    fullName := some update.fullName
    birthday := some update.birthday
    gender := some update.gender }

structure AccountUpdate.Filled (update : AccountUpdate) : Prop where
  fullName : update.fullName ≠ ""
  birthday : update.birthday ≠ ""
  gender : ∃ g : Gender, update.gender = g.title

/-- The document it goes to has a name, a gender and a birthday afterwards. -/
theorem AccountUpdate.Filled.update {update : AccountUpdate} (h : update.Filled)
    {fields : AccountFields} (hfields : fields.Filled) : (fields.update update).Filled := by
  obtain ⟨g, hg⟩ := h.gender
  exact ⟨⟨⟨_, rfl, h.fullName⟩, ⟨g, congrArg some hg⟩, ⟨_, rfl, h.birthday⟩, hfields.1.email⟩,
    hfields.2⟩

/-- The edit page. A button is `true` while its circle is filled, `imageAvatar` is the picked picture
as PNG data, and `lblError` is the text of the label once it is shown. -/
structure EditAccountViewController where
  txtName : String := ""
  txtBirthday : String := ""
  btnMale : Bool := true
  btnFemale : Bool := false
  btnOther : Bool := false
  gender : Option String := none
  imgAvatar : Option Data := none
  imageAvatar : Option Data := none
  lblError : Option String := none
  lblPersenIsHidden : Bool := true
  deriving DecidableEq, Repr

namespace EditAccountViewController

inductive Edit where
  | txtName (text : String)
  | txtBirthday (text : String)
  | gender (btnGender : Gender)
  | didFinishPicking (image : Data)
  deriving DecidableEq, Repr

def SelectGender (c : EditAccountViewController) (btnGender : Gender) : EditAccountViewController :=
  let c := { c with
    btnMale := false
    btnFemale := false
    btnOther := false }
  let c := match btnGender with
    | .Male => { c with btnMale := true }
    | .Female => { c with btnFemale := true }
    | .Other => { c with btnOther := true }
  { c with gender := some btnGender.title }

/-- The button that `setElement` selects for the gender of the account. -/
def button (gender : Option String) : Gender :=
  match gender with
  | some "Other" => .Other
  | some "Male" => .Male
  | some "Female" => .Female
  | _ => .Other

def setElement (localAccount : User) : EditAccountViewController :=
  let c : EditAccountViewController := { gender := localAccount.gender }
  { c.SelectGender (button c.gender) with
    txtBirthday := localAccount.birthday.getD ""
    txtName := localAccount.fullName.getD ""
    imgAvatar := localAccount.avatar }

def edit (c : EditAccountViewController) : Edit → EditAccountViewController
  | .txtName text => { c with txtName := text }
  | .txtBirthday text => { c with txtBirthday := text }
  | .gender btnGender => c.SelectGender btnGender
  | .didFinishPicking image => { c with imgAvatar := some image, imageAvatar := some image }

variable (u : Unicode)

def Save (c : EditAccountViewController) : EditAccountViewController × Option AccountUpdate :=
  if u.Blank c.txtName ∨ u.Blank c.txtBirthday then
    ({ c with lblError := some "Please fill all fields." }, none)
  else
    ({ c with lblPersenIsHidden := false }, some {
      fullName := u.trimmed c.txtName
      birthday := u.trimmed c.txtBirthday
      gender := c.gender.getD "Other" })

structure Selected (c : EditAccountViewController) (g : Gender) : Prop where
  buttons : (c.btnMale, c.btnFemale, c.btnOther) =
    (decide (g = .Male), decide (g = .Female), decide (g = .Other))
  gender : c.gender = some g.title

theorem selected_SelectGender (c : EditAccountViewController) (g : Gender) :
    (c.SelectGender g).Selected g := by
  cases g <;> exact ⟨rfl, rfl⟩

theorem selected_button (localAccount : User) :
    (setElement localAccount).Selected (button localAccount.gender) :=
  have hselected := selected_SelectGender { gender := localAccount.gender } (button localAccount.gender)
  ⟨hselected.buttons, hselected.gender⟩

theorem Selected.edit {c : EditAccountViewController} {g : Gender} (h : c.Selected g) (e : Edit) :
    ∃ g', (c.edit e).Selected g' := by
  cases e with
  | gender btnGender => exact ⟨btnGender, selected_SelectGender c btnGender⟩
  | txtName text => exact ⟨g, h.buttons, h.gender⟩
  | txtBirthday text => exact ⟨g, h.buttons, h.gender⟩
  | didFinishPicking image => exact ⟨g, h.buttons, h.gender⟩

theorem Selected.saved {c : EditAccountViewController} {g : Gender} (h : c.Selected g) :
    (c.Save u).1.Selected g := by
  unfold Save
  split_ifs
  · exact ⟨h.buttons, h.gender⟩
  · exact ⟨h.buttons, h.gender⟩

theorem Selected.filled_update {c : EditAccountViewController} {g : Gender} (h : c.Selected g)
    {update : AccountUpdate} (hupdate : (c.Save u).2 = some update) : update.Filled := by
  unfold Save at hupdate
  split_ifs at hupdate with hblank
  obtain ⟨hname, hbirthday⟩ := not_or.mp hblank
  obtain rfl := Option.some.inj hupdate
  refine ⟨?_, ?_, ⟨g, ?_⟩⟩
  · exact fun hempty => hname (PasswordFields.blank_iff.mpr hempty)
  · exact fun hempty => hbirthday (PasswordFields.blank_iff.mpr hempty)
  · simp [h.gender]

end EditAccountViewController

/-- What `signUpTapped` captures for its callback when the fields pass the check. -/
structure NewAccount where
  fullName : String
  email : String
  deriving DecidableEq, Repr

/-- The document that `signUpTapped` creates with `setData`. -/
def NewAccount.fields (account : NewAccount) : AccountFields where
  fullName := some account.fullName
  gender := some "Other"
  birthday := some "01/01/2000"
  email := some account.email
  avatarUrl := some ""

def SignUpViewController.signUpTapped (u : Unicode) (c : SignUpViewController) :
    Except String NewAccount :=
  match c.validateFields u with
  | some error => .error error
  | none => .ok ⟨u.trimmed c.txtFullName, u.trimmed c.txtEmail⟩

structure LoginViewController where
  txtEmail : String
  txtPassword : String
  deriving DecidableEq, Repr

/-- `LoginViewController.loginTapped`: the error shown, or the email and password to sign in with. -/
def LoginViewController.loginTapped (u : Unicode) (c : LoginViewController) :
    Except String (String × String) :=
  if u.Blank c.txtEmail ∨ u.Blank c.txtPassword then .error "Please fill all fields."
  else .ok (u.trimmed c.txtEmail, u.trimmed c.txtPassword)

def ChangePasswordViewController.Send (u : Unicode) (c : ChangePasswordViewController) :
    Except String String :=
  match c.validateFields u with
  | some error => .error error
  | none => .ok (u.trimmed c.txtCurrentPassword)

theorem filled_newAccount {account : NewAccount} (hname : account.fullName ≠ "")
    (hemail : account.email ≠ "") : account.fields.Filled :=
  ⟨⟨⟨_, rfl, hname⟩, ⟨.Other, rfl⟩, ⟨_, rfl, by decide⟩, ⟨_, rfl, hemail⟩⟩, Option.some_ne_none _⟩

/-- A form that passes the check makes a filled document. -/
theorem filled_signUpTapped {u : Unicode} {c : SignUpViewController} {account : NewAccount}
    (h : c.signUpTapped u = .ok account) : account.fields.Filled := by
  unfold SignUpViewController.signUpTapped at h
  split at h
  · cases h
  · rename_i hvalid
    obtain ⟨hname, hemail, -⟩ := (PasswordFields.signUp_iff c).mp hvalid
    cases h
    refine filled_newAccount ?_ ?_
    · exact fun hempty => hname (PasswordFields.blank_iff.mpr hempty)
    · exact fun hempty => hemail (PasswordFields.blank_iff.mpr hempty)

end ComicApp
