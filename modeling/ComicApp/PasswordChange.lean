import ComicApp.EventMachine
import ComicApp.PasswordFields
import ComicApp.RequestBatch

/-!
# Changing the password

`ChangePasswordViewController.Send` checks the fields and signs in with the current password. The reply
to the sign-in reads the field of the new password again and passes what stands there now to
`updatePassword`; when that succeeds, all fields are cleared. Each request keeps the texts that
`validateFields` checked for it.
-/

namespace ComicApp.PasswordChange
open EventMachine
variable (u : Unicode)

/-- One tap on Send that passed the check: the trimmed texts of the two new-password fields at the tap,
the sign-in, what its reply passed to `updatePassword`, and that request. -/
structure SendRequest where
  email : String
  password : String
  newPassword : String
  retypeNewPassword : String
  signIn : Request
  passed : Option String
  update : Request
  deriving DecidableEq, Repr

structure State where
  form : ChangePasswordViewController
  lblError : Option String
  email : Option String
  requests : List SendRequest
  running : Bool
  deriving DecidableEq, Repr

inductive Event where
  | txtCurrentPassword (text : String)
  | txtNewPassword (text : String)
  | txtRetypeNewPassword (text : String)
  | email (email : Option String)
  | Send
  | signIn (i : ℕ) (error : Option String)
  | updatePassword (i : ℕ) (succeeds : Bool)
  deriving DecidableEq, Repr

def viewDidLoad (email : Option String) : State := ⟨⟨"", "", ""⟩, none, email, [], true⟩

namespace State

def showError (s : State) (error : String) : State := { s with lblError := some error }

def onSend (s : State) : State :=
  match s.form.validateFields u, s.email with
  | some error, _ => s.showError error
  | none, none => { s with running := false }
  | none, some email =>
    { s with requests := s.requests ++ [{
        email := email
        password := u.trimmed s.form.txtCurrentPassword
        newPassword := u.trimmed s.form.txtNewPassword
        retypeNewPassword := u.trimmed s.form.txtRetypeNewPassword
        signIn := .waiting
        passed := none
        update := .idle }] }

def onSignIn (s : State) (i : ℕ) (request : SendRequest) : Option String → State
  | some error =>
    { s.showError error with requests := s.requests.set i { request with signIn := .failed } }
  | none =>
    { s with requests := s.requests.set i { request with
        signIn := .arrived
        passed := some (u.trimmed s.form.txtNewPassword)
        update := .waiting } }

def onUpdatePassword (s : State) (i : ℕ) (request : SendRequest) : Bool → State
  | false =>
    { s.showError "Faild" with requests := s.requests.set i { request with update := .failed } }
  | true =>
    { s.showError "Successful!" with
      form := ⟨"", "", ""⟩
      requests := s.requests.set i { request with update := .arrived } }

end State

def step (s : State) (e : Event) : Option State :=
  if s.running then
    match e with
    | .txtCurrentPassword text => some { s with form := { s.form with txtCurrentPassword := text } }
    | .txtNewPassword text => some { s with form := { s.form with txtNewPassword := text } }
    | .txtRetypeNewPassword text =>
      some { s with form := { s.form with txtRetypeNewPassword := text } }
    | .email email => some { s with email := email }
    | .Send => some (s.onSend u)
    | .signIn i error =>
      match s.requests[i]? with
      | none => none
      | some request =>
        if request.signIn = .waiting then some (s.onSignIn u i request error) else none
    | .updatePassword i succeeds =>
      match s.requests[i]? with
      | none => none
      | some request =>
        if request.update = .waiting then some (s.onUpdatePassword i request succeeds) else none
  else none

inductive Transition (s : State) : Event → State → Prop where
  | still (e : Event) (s' : State) (he : ∀ i error, e ≠ .signIn i error)
      (hrequests : s'.requests = s.requests) : Transition s e s'
  | send (s' : State) (request : SendRequest)
      (hvalid : s.form.validateFields u = none) (hpassed : request.passed = none)
      (hnew : request.newPassword = u.trimmed s.form.txtNewPassword)
      (hretype : request.retypeNewPassword = u.trimmed s.form.txtRetypeNewPassword)
      (hrequests : s'.requests = s.requests ++ [request]) : Transition s .Send s'
  | signIn (i : ℕ) (error : Option String) (request : SendRequest)
      (hi : s.requests[i]? = some request) (hw : request.signIn = .waiting) :
      Transition s (.signIn i error) (s.onSignIn u i request error)
  | updatePassword (i : ℕ) (succeeds : Bool) (request : SendRequest)
      (hi : s.requests[i]? = some request) :
      Transition s (.updatePassword i succeeds) (s.onUpdatePassword i request succeeds)

theorem Transition.of_step {s s' : State} {e : Event} (h : step u s e = some s') :
    Transition u s e s' := by
  unfold step at h
  split_ifs at h
  cases e with
  | txtCurrentPassword text =>
    obtain rfl := Option.some.inj h
    exact .still _ _ nofun rfl
  | txtNewPassword text =>
    obtain rfl := Option.some.inj h
    exact .still _ _ nofun rfl
  | txtRetypeNewPassword text =>
    obtain rfl := Option.some.inj h
    exact .still _ _ nofun rfl
  | email email =>
    obtain rfl := Option.some.inj h
    exact .still _ _ nofun rfl
  | Send =>
    obtain rfl := Option.some.inj h
    unfold State.onSend
    split
    · exact .still _ _ nofun rfl
    · exact .still _ _ nofun rfl
    · rename_i hvalid _
      exact .send _ _ hvalid rfl rfl rfl rfl
  | signIn i error =>
    dsimp only at h
    split at h
    · cases h
    · rename_i request hi
      split_ifs at h with hw
      obtain rfl := Option.some.inj h
      exact .signIn i error request hi hw
  | updatePassword i succeeds =>
    dsimp only at h
    split at h
    · cases h
    · rename_i request hi
      split_ifs at h
      obtain rfl := Option.some.inj h
      exact .updatePassword i succeeds request hi

/-- A password that was passed on is valid and equals both texts that were checked for it. -/
def SendRequest.Validated (request : SendRequest) (password : String) : Prop :=
  u.isPasswordValid password = true ∧ u.Equal password request.newPassword ∧
    u.Equal password request.retypeNewPassword

def State.Validated (s : State) : Prop :=
  ∀ request ∈ s.requests, ∀ password ∈ request.passed, request.Validated u password

/-- When a sign-in succeeds, the field of the new password still holds a valid password that equals
the one that was checked. -/
def State.Kept (s : State) : Event → Prop
  | .signIn i none => ∀ request ∈ s.requests[i]?,
      u.isPasswordValid (u.trimmed s.form.txtNewPassword) = true ∧
        u.Equal (u.trimmed s.form.txtNewPassword) request.newPassword
  | _ => True

instance (s : State) : (e : Event) → Decidable (s.Kept u e)
  | .signIn _ none => inferInstanceAs (Decidable (∀ request ∈ _, _ ∧ _))
  | .signIn _ (some _) | .txtCurrentPassword _ | .txtNewPassword _ | .txtRetypeNewPassword _
  | .email _ | .Send | .updatePassword _ _ => .isTrue trivial

structure SendRequest.Checked (request : SendRequest) : Prop where
  equal : u.Equal request.newPassword request.retypeNewPassword
  passed : request.signIn = .waiting → request.passed = none

variable {u}

theorem Checked.step {s s' : State} {e : Event} (h : ∀ request ∈ s.requests, request.Checked u)
    (hs : PasswordChange.step u s e = some s') : ∀ request ∈ s'.requests, request.Checked u := by
  cases Transition.of_step u hs with
  | still e s' he hrequests => rwa [hrequests]
  | send s' request hvalid hpassed hnew hretype hrequests =>
    obtain ⟨-, hequal, -⟩ := (PasswordFields.changePassword_iff s.form).mp hvalid
    rw [hrequests]
    exact forall_mem_concat h ⟨by rwa [hnew, hretype], fun _ => hpassed⟩
  | signIn i error request hi hw =>
    have hrequest := h request (List.mem_of_getElem? hi)
    cases error with
    | some error => exact forall_mem_set h i ⟨hrequest.equal, nofun⟩
    | none => exact forall_mem_set h i ⟨hrequest.equal, nofun⟩
  | updatePassword i succeeds request hi =>
    have hrequest := h request (List.mem_of_getElem? hi)
    cases succeeds with
    | false => exact forall_mem_set h i ⟨hrequest.equal, hrequest.passed⟩
    | true => exact forall_mem_set h i ⟨hrequest.equal, hrequest.passed⟩

/-- Replacing a request keeps the passwords that were passed on validated exactly where the new
request's password is. -/
theorem validated_set_iff {s : State} {i : ℕ} {request request' : SendRequest}
    (h : s.Validated u) (hi : s.requests[i]? = some request) :
    (∀ r ∈ s.requests.set i request', ∀ password ∈ r.passed, r.Validated u password) ↔
      ∀ password ∈ request'.passed, request'.Validated u password := by
  constructor
  · intro hall
    exact hall request' (List.mem_set (List.getElem?_eq_some_iff.mp hi).1 _)
  · exact forall_mem_set h i

theorem kept_of_ne {s : State} {e : Event} (he : ∀ i error, e ≠ .signIn i error) : s.Kept u e := by
  cases e with
  | signIn i error => exact absurd rfl (he i error)
  | _ => trivial

/-- A step leaves the passwords that were passed on validated exactly where the field was kept. -/
theorem validated_step_iff {s s' : State} {e : Event}
    (hchecked : ∀ request ∈ s.requests, request.Checked u) (h : s.Validated u)
    (hs : step u s e = some s') : s'.Validated u ↔ s.Kept u e := by
  cases Transition.of_step u hs with
  | still e s' he hrequests =>
    refine iff_of_true ?_ (kept_of_ne he)
    unfold State.Validated
    rwa [hrequests]
  | send s' request hvalid hpassed hnew hretype hrequests =>
    refine iff_of_true ?_ trivial
    unfold State.Validated
    rw [hrequests]
    refine forall_mem_concat h fun password hp => ?_
    rw [hpassed] at hp
    cases hp
  | signIn i error request hi hw =>
    have hrequest := hchecked request (List.mem_of_getElem? hi)
    cases error with
    | some error =>
      exact iff_of_true ((validated_set_iff h hi).mpr (h request (List.mem_of_getElem? hi))) trivial
    | none =>
      refine (validated_set_iff h hi).trans ⟨fun hv => ?_, fun hkept password hp => ?_⟩
      · rintro request' hi'
        obtain rfl := Option.some.inj (hi.symm.trans hi')
        obtain ⟨hvalid, hnew, -⟩ := hv _ rfl
        exact ⟨hvalid, hnew⟩
      · obtain rfl := Option.some.inj hp
        obtain ⟨hvalid, hnew⟩ := hkept request hi
        exact ⟨hvalid, hnew, hnew.trans hrequest.equal⟩
  | updatePassword i succeeds request hi =>
    have hrequest := h request (List.mem_of_getElem? hi)
    cases succeeds with
    | false => exact iff_of_true ((validated_set_iff h hi).mpr hrequest) trivial
    | true => exact iff_of_true ((validated_set_iff h hi).mpr hrequest) trivial

/-- Only validated passwords are passed on exactly in the runs in which the field of the new password
is kept from every tap to the reply to its sign-in. -/
theorem validated_iff (u : Unicode) (email : Option String) (es : List Event) (s : State)
    (hrun : run (step u) (viewDidLoad email) es = some s) :
    Throughout (step u) (State.Validated u) (viewDidLoad email) es ↔
      Along (step u) (State.Kept u) (viewDidLoad email) es :=
  throughout_iff_along_of_step_iff (step u)
    (I := fun s => ∀ request ∈ s.requests, request.Checked u) (fun _ _ _ => Checked.step)
    (fun _ _ _ => validated_step_iff) nofun nofun hrun

def changed : List Event :=
  [.txtCurrentPassword "old", .txtNewPassword "abcd1234", .txtRetypeNewPassword "abcd1234 ", .Send,
    .signIn 0 none, .updatePassword 0 true]

def sentTwice : List Event :=
  [.txtCurrentPassword "old", .txtNewPassword "abcd1234", .txtRetypeNewPassword "abcd1234 ", .Send,
    .Send, .signIn 0 none, .updatePassword 0 true, .signIn 1 none]

def opened : State := viewDidLoad (some "an@x.y")

def afterChanged : State :=
  (run (step PasswordFields.ascii) opened changed).get (by decide +kernel)

def afterSentTwice : State :=
  (run (step PasswordFields.ascii) opened sentTwice).get (by decide +kernel)

theorem validated_iff_changed :
    Throughout (step PasswordFields.ascii) (State.Validated PasswordFields.ascii) opened changed :=
  (validated_iff PasswordFields.ascii (some "an@x.y") changed afterChanged
    (Option.some_get _).symm).mpr (by decide +kernel)

theorem not_validated :
    ¬ ∀ (u : Unicode) (email : Option String) (es : List Event) (s : State),
      run (step u) (viewDidLoad email) es = some s → s.Validated u := by
  intro h
  have hall := h PasswordFields.ascii (some "an@x.y") sentTwice afterSentTwice
    (Option.some_get _).symm
  have hempty : afterSentTwice.requests[1]?.bind SendRequest.passed = some "" := by decide +kernel
  obtain ⟨request, hi, hpassed⟩ := Option.bind_eq_some_iff.mp hempty
  have hvalid := (hall request (List.mem_of_getElem? hi) "" hpassed).1
  exact absurd hvalid (by decide +kernel)

end ComicApp.PasswordChange
