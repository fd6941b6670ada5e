import ComicApp.AccountSession

/-!
# Saving the account and reading it back

`userRamToRealm` has two ways to store the account. Where no user is stored it adds a record, in which
an absent field is the empty value; where one is stored it overwrites the five fields as they are and
leaves the `userID`. What `userRealmToRam` reads back after a restart is the account that was saved
only where the way taken loses nothing of it.
-/

namespace ComicApp.AccountSession

def User.fields (user : User) :
    Option String × Option String × Option String × Option String × Option Data :=
  (user.fullName, user.gender, user.birthday, user.email, user.avatar)

def LUser.fields (user : LUser) :
    Option String × Option String × Option String × Option String × Option Data :=
  (user.name, user.gender, user.birthday, user.email, user.avatar)

def User.Full (user : User) : Prop :=
  user.fullName.isSome ∧ user.gender.isSome ∧ user.birthday.isSome ∧ user.email.isSome ∧
    user.avatar.isSome

instance (user : User) : Decidable user.Full := inferInstanceAs (Decidable (_ ∧ _))

namespace State

/-- The app starts again with what is stored, and the account is read back. -/
def restored (s : State) (sessions : List Session) : State := (boot s.luser sessions).userRealmToRam

def addedUser (s : State) : LUser where
  name := some (s.localAccount.fullName.getD "")
  gender := some (s.localAccount.gender.getD "")
  email := some (s.localAccount.email.getD "")
  birthday := some (s.localAccount.birthday.getD "")
  avatar := some (s.localAccount.avatar.getD [])
  userID := some (s.UserID.getD "")

def updatedUser (s : State) (user : LUser) : LUser where
  name := s.localAccount.fullName
  gender := s.localAccount.gender
  email := s.localAccount.email
  birthday := s.localAccount.birthday
  avatar := s.localAccount.avatar
  userID := user.userID

theorem luser_of_nil {s : State} (h : s.luser = []) : s.userRamToRealm.luser = [s.addedUser] := by
  rw [userRamToRealm, h]
  rfl

theorem luser_of_cons {s : State} {user : LUser} {users : List LUser} (h : s.luser = user :: users) :
    s.userRamToRealm.luser = s.updatedUser user :: users := by
  rw [userRamToRealm, h]
  rfl

@[simp] theorem userRamToRealm_localAccount (s : State) :
    s.userRamToRealm.localAccount = s.localAccount := by
  unfold userRamToRealm
  split <;> rfl

theorem restored_of_cons {s : State} {user : LUser} {users : List LUser}
    (h : s.luser = user :: users) (sessions : List Session) :
    (s.restored sessions).UserID = user.userID ∧
      (s.restored sessions).localAccount.fields = user.fields := by
  rw [restored, boot, h]
  exact ⟨rfl, rfl⟩

theorem fields_updatedUser (s : State) (user : LUser) :
    (s.updatedUser user).fields = s.localAccount.fields := rfl

theorem getD_eq_iff {α : Type} {o : Option α} {a : α} : some (o.getD a) = o ↔ o.isSome := by
  cases o <;> simp

theorem fields_addedUser_iff (s : State) :
    s.addedUser.fields = s.localAccount.fields ↔ s.localAccount.Full := by
  simp only [LUser.fields, addedUser, User.fields, User.Full, Prod.mk.injEq, getD_eq_iff]

def RoundTrip (s : State) (sessions : List Session) : Prop :=
  (s.userRamToRealm.restored sessions).UserID = s.UserID ∧
    (s.userRamToRealm.restored sessions).localAccount.fields = s.localAccount.fields

def SavedOnce (s : State) : Prop := s.userRamToRealm.userRamToRealm.luser = s.userRamToRealm.luser

/-- The way in which the account is stored loses nothing of it: a record is added and no value is
absent, or the record of the same user is updated. -/
def Encodable (s : State) : Prop :=
  (s.luser = [] ∧ s.UserID.isSome ∧ s.localAccount.Full) ∨
    ∃ user ∈ s.luser.head?, user.userID = s.UserID

theorem roundTrip_iff (s : State) (sessions : List Session) :
    s.RoundTrip sessions ↔ s.Encodable := by
  unfold RoundTrip Encodable
  cases h : s.luser with
  | nil =>
    obtain ⟨hid, hfields⟩ := restored_of_cons (luser_of_nil h) sessions
    rw [hid, hfields, fields_addedUser_iff]
    simp [addedUser, getD_eq_iff]
  | cons user users =>
    obtain ⟨hid, hfields⟩ := restored_of_cons (luser_of_cons h) sessions
    rw [hid, hfields, fields_updatedUser]
    simp [updatedUser]

/-- Only the first save of an account with an absent field is undone by the next one. -/
theorem savedOnce_iff (s : State) : s.SavedOnce ↔ s.luser = [] → s.localAccount.Full := by
  unfold SavedOnce
  cases h : s.luser with
  | nil =>
    have hfirst := luser_of_nil h
    have hsame : s.userRamToRealm.updatedUser s.addedUser = s.addedUser ↔
        s.addedUser.fields = s.localAccount.fields := by
      simp only [updatedUser, addedUser, LUser.fields, User.fields, userRamToRealm_localAccount,
        LUser.mk.injEq, Prod.mk.injEq, and_true, eq_comm]
      tauto
    rw [luser_of_cons hfirst, hfirst, List.singleton_inj, hsame, fields_addedUser_iff]
    simp
  | cons user users =>
    have hfirst := luser_of_cons h
    rw [luser_of_cons hfirst, hfirst]
    simp [updatedUser]

/-- The account is restored after every save, and saving it again changes nothing, exactly where it
is stored without loss. -/
theorem saved_iff (s : State) (sessions : List Session) :
    s.RoundTrip sessions ∧ s.SavedOnce ↔ s.Encodable := by
  rw [roundTrip_iff, savedOnce_iff]
  refine ⟨And.left, fun h => ⟨h, fun hnil => ?_⟩⟩
  rcases h with ⟨-, -, hfull⟩ | ⟨user, huser, -⟩
  · exact hfull
  · simp [hnil] at huser

def otherUserStored : State :=
  { boot [⟨some "A", some "Other", some "a@x.y", some "01/01/2000", none, some "a"⟩] [] with
    UserID := some "b" }

theorem not_saved : ¬ ∀ (s : State) (sessions : List Session), s.luser.length ≤ 1 →
    s.RoundTrip sessions ∧ s.SavedOnce := by
  intro h
  have hid := (h otherUserStored [] (by decide)).1.1
  exact absurd hid (by decide)

end State
end ComicApp.AccountSession
