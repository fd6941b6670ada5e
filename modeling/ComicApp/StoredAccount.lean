import ComicApp.AccountStable

/-!
# The stored account

`UserLocal.userRamToRealm` stores the account under whatever `UserID` is current when a profile has
been loaded, and leaves the `userID` of a stored user alone. The login page deletes the stored user,
and every start of the app and every loss of the network read it back. So the store names the user
who signed in last only as long as nothing is stored after the login page was opened and no second
user signs in while the first one is stored.
-/

namespace ComicApp.AccountSession
open EventMachine

namespace State

def accounts (s : State) : Option String × List (Option String) :=
  (s.UserID, s.luser.map LUser.userID)

/-- The reply ends a download of the account, which is then stored. On the account page the name is
unwrapped before. -/
def stores (s : State) : Link → Reply → Bool
  | .profile onPage _, .user (some data) =>
    data.avatarUrl = some "" && (!onPage || data.fullName.isSome)
  | .avatar onPage _, .data _ => !onPage || s.localAccount.fullName.isSome
  | _, _ => false

def storedUser (s : State) : List (Option String) :=
  if s.accounts.2 = [] then [some (s.accounts.1.getD "")] else s.accounts.2

def nextAccounts (s : State) : Event → Option String × List (Option String)
  | .action .login => (none, [])
  | .action (.pathUpdate false) =>
    (if s.luser = [] then s.UserID else s.luser.head?.bind LUser.userID, s.luser.map LUser.userID)
  | .action .relaunch => (s.luser.head?.bind LUser.userID, s.luser.map LUser.userID)
  | .reply _ _ (.uid uid) => (some uid, s.luser.map LUser.userID)
  | .reply n k reply =>
    (s.UserID, if (s.link n k).any fun link => s.stores link reply then s.storedUser
      else s.luser.map LUser.userID)
  | .action _ => s.accounts

theorem stable_accounts : Stable fun s t => t.accounts = s.accounts where
  refl _ := rfl
  trans h h' := h'.trans h
  send _ _ _ _ := rfl
  trap _ := rfl
  localAccount _ _ := rfl
  modify _ _ _ _ := rfl
  listHistory _ _ := rfl
  listLike _ _ := rfl
  pages _ _ _ := rfl
  id _ _ := rfl
  ask _ _ _ := rfl

section Accounts
variable (s : State) (n : ℕ)

theorem accounts_userRamToRealm : s.userRamToRealm.accounts = (s.UserID, s.storedUser) := by
  unfold userRamToRealm storedUser accounts
  cases s.luser <;> rfl

theorem storedUser_congr {s t : State} (h : t.accounts = s.accounts) :
    t.storedUser = s.storedUser := by
  rw [storedUser, storedUser, h]

theorem accounts_onDownloadURL (picture url : String) :
    (s.onDownloadURL n picture url).accounts = s.accounts := by
  unfold onDownloadURL
  split <;> rfl

theorem running_downAccount : (s.downAccount n).running = s.running := by
  unfold downAccount
  split
  · rfl
  · split_ifs <;> rfl

theorem running_setAccount (hrun : s.running = true) :
    (s.setAccount n).running = s.localAccount.fullName.isSome := by
  unfold setAccount
  cases s.localAccount.fullName with
  | none => rfl
  | some fullName =>
    dsimp only
    split_ifs
    · exact (running_downAccount s n).trans hrun
    · exact hrun

/-- A download of the account that ends stores it, unless the account page finds no name. -/
theorem accounts_downloaded (hrun : s.running = true) (onPage : Bool) :
    (s.downloaded n onPage).accounts =
      (s.UserID, if !onPage || s.localAccount.fullName.isSome then s.storedUser
        else s.luser.map LUser.userID) := by
  unfold downloaded
  cases onPage with
  | false =>
    rw [if_neg Bool.false_ne_true, if_pos hrun]
    exact accounts_userRamToRealm s
  | true =>
    have hset := stable_accounts.setAccount s n
    dsimp only
    rw [if_pos rfl, running_setAccount s n hrun, Bool.not_true, Bool.false_or]
    split_ifs
    · have huser : (s.setAccount n).UserID = s.UserID := congrArg Prod.fst hset
      rw [accounts_userRamToRealm, storedUser_congr hset, huser]
    · exact hset

theorem accounts_onProfile (hrun : s.running = true) (onPage : Bool)
    (document : Option UserDocument) :
    (s.onProfile n onPage document).accounts =
      (s.UserID, if document.any fun data =>
          data.avatarUrl = some "" && (!onPage || data.fullName.isSome) then s.storedUser
        else s.luser.map LUser.userID) := by
  cases document with
  | none => rfl
  | some data =>
    unfold onProfile
    dsimp only
    by_cases hempty : data.avatarUrl = some ""
    · have hended := accounts_downloaded ((s.setFields data).setAvatar none) n hrun onPage
      simp only [Option.any_some, hempty, decide_true, Bool.true_and]
      exact hended
    · rw [if_neg hempty]
      simp only [Option.any_some, hempty, decide_false, Bool.false_and, if_neg Bool.false_ne_true]
      exact stable_accounts.downAvatar _ n onPage

theorem accounts_onAvatar (hrun : s.running = true) (onPage : Bool) (data : Data) :
    (s.onAvatar n onPage data).accounts =
      (s.UserID, if !onPage || s.localAccount.fullName.isSome then s.storedUser
        else s.luser.map LUser.userID) :=
  accounts_downloaded ((s.setAvatar (some data)).setDownAvatar false) n hrun onPage

theorem accounts_pathUpdateHandler (satisfied : Bool) :
    (s.pathUpdateHandler satisfied).accounts = s.nextAccounts (.action (.pathUpdate satisfied)) := by
  unfold pathUpdateHandler
  cases satisfied with
  | true =>
    rw [if_pos rfl]
    split_ifs
    · exact stable_accounts.userFirebaseToRam s s.current
    · rfl
  | false =>
    rw [if_neg Bool.false_ne_true, stable_accounts.setDownAvatar]
    unfold userRealmToRam accounts nextAccounts
    cases hluser : s.luser <;> simp [hluser]

end Accounts

theorem act_accounts {s t : State} {a : Action} (h : s.act a = some t) :
    t.accounts = s.nextAccounts (.action a) := by
  cases a with
  | Like n p =>
    obtain ⟨tag, -, rfl⟩ := Option.map_eq_some_iff.mp h
    exact stable_accounts.onLike s n p tag
  | login =>
    obtain rfl := Option.some.inj h
    rfl
  | loginTapped =>
    obtain rfl := Option.some.inj h
    rfl
  | CancelLogin =>
    obtain rfl := Option.some.inj h
    exact stable_accounts.transitionToHome s s.current
  | signUpTapped =>
    obtain rfl := Option.some.inj h
    rfl
  | accountDidLoad =>
    obtain rfl := Option.some.inj h
    exact stable_accounts.setAccount s s.current
  | accountWillAppear =>
    obtain rfl := Option.some.inj h
    exact stable_accounts.accountWillAppear s
  | Save hasImage =>
    obtain rfl := Option.some.inj h
    exact stable_accounts.onSave s hasImage
  | select id =>
    obtain rfl := Option.some.inj h
    rfl
  | viewDidLoad =>
    obtain rfl := Option.some.inj h
    exact stable_accounts.onViewDidLoad s
  | pathUpdate satisfied =>
    obtain rfl := Option.some.inj h
    exact accounts_pathUpdateHandler s satisfied
  | relaunch =>
    obtain rfl := Option.some.inj h
    exact stable_accounts.DownloadList _ _

/-- What the callback of the reply to a link makes of the accounts. -/
theorem Callback.accounts {s t : State} {n k : ℕ} {link : Link} {reply : Reply}
    (hrun : s.running = true) (hlink : s.link n k = some link)
    (h : Callback (s.answer n k) n link reply t) :
    t.accounts = s.nextAccounts (.reply n k reply) := by
  have hstores (hstores : s.stores link reply = false) (huid : ∀ uid, reply ≠ .uid uid) :
      s.nextAccounts (.reply n k reply) = s.accounts := by
    cases reply with
    | uid uid => exact absurd rfl (huid uid)
    | _ =>
      simp only [nextAccounts, hlink, Option.any_some, hstores]
      rfl
  cases h with
  | failed link hfailed => exact (hstores (by cases link <;> rfl) nofun).symm
  | profileFailed onPage UserID => exact (hstores rfl nofun).symm
  | userDocument UserID document =>
    rw [hstores rfl nofun, stable_accounts.onUserDocument]
    rfl
  | comicDocument chain comic document =>
    rw [hstores rfl nofun, stable_accounts.onComicDocument]
    rfl
  | poster chain comic data =>
    rw [hstores rfl nofun, stable_accounts.onPoster]
    rfl
  | infoDocument tmp document =>
    rw [hstores rfl nofun, stable_accounts.onInfoDocument]
    rfl
  | listAll tmp reply =>
    rw [hstores rfl nofun, stable_accounts.onListAll]
    rfl
  | item tmp data =>
    rw [hstores rfl nofun, stable_accounts.onItem]
    rfl
  | profile onPage UserID document =>
    simp only [nextAccounts, hlink, Option.any_some]
    rw [accounts_onProfile (s.answer n k) n hrun]
    cases document <;> rfl
  | avatar onPage UserID data =>
    simp only [nextAccounts, hlink, Option.any_some]
    exact accounts_onAvatar (s.answer n k) n hrun onPage data
  | signIn uid => exact stable_accounts.transitionToHome _ n
  | createUser uid => rfl
  | putData UserID => exact (hstores rfl nofun).symm
  | downloadURL picture url =>
    rw [hstores rfl nofun, accounts_onDownloadURL]
    rfl

end State

/-- What an event makes of the accounts. -/
theorem step_accounts {s t : State} {e : Event} (h : step s e = some t) :
    t.accounts = s.nextAccounts e := by
  cases e with
  | action a => exact State.act_accounts (step_action h).2
  | reply n k reply =>
    obtain ⟨hrun, link, hlink, hcallback⟩ := step_reply h
    exact hcallback.accounts hrun hlink

/-- The user who signed in last, or none once the login page has been opened since. -/
def lastLogin (last : Option String) : Event → Option String
  | .action .login => none
  | .reply _ _ (.uid uid) => some uid
  | _ => last

/-- At most one user is stored, under the name of the user who signed in last, and no other user is
signed in or read back from the store. -/
structure Persisted (s : State) (last : Option String) : Prop where
  one : s.luser.length ≤ 1
  stored : ∀ user ∈ s.luser, user.userID = last ∧ last ≠ none ∧ last ≠ some ""
  signedIn : s.UserID = none ∨ s.UserID = last

/-- Nothing is stored while nobody is signed in, and nobody signs in over another stored user. -/
def InTurn (s : State) : Event → Prop
  | .reply _ _ (.uid uid) => ∀ user ∈ s.luser, user.userID = some uid
  | .reply n k reply => (s.link n k).any (fun link => s.stores link reply) = true → s.luser = [] →
      s.UserID ≠ none ∧ s.UserID ≠ some ""
  | .action _ => True

/-- The store in the terms of `accounts`. -/
theorem persisted_iff {s : State} {last : Option String} :
    Persisted s last ↔ s.accounts.2.length ≤ 1 ∧
      (∀ userID ∈ s.accounts.2, userID = last ∧ last ≠ none ∧ last ≠ some "") ∧
      (s.accounts.1 = none ∨ s.accounts.1 = last) := by
  simp only [State.accounts, List.length_map, List.forall_mem_map]
  exact ⟨fun h => ⟨h.one, h.stored, h.signedIn⟩, fun ⟨hone, hstored, hsigned⟩ =>
    ⟨hone, hstored, hsigned⟩⟩

/-- What is read back from the store is nil or the user who signed in last. -/
theorem Persisted.readBack {s : State} {last : Option String} (h : Persisted s last) :
    s.luser.head?.bind LUser.userID = none ∨ s.luser.head?.bind LUser.userID = last := by
  cases hluser : s.luser with
  | nil => exact .inl rfl
  | cons user users => exact .inr (h.stored user (by simp [hluser])).1

theorem Persisted.of_accounts {s t : State} {last : Option String} (h : Persisted s last)
    (hUserID : t.accounts.1 = none ∨ t.accounts.1 = last) (hstored : t.accounts.2 = s.accounts.2) :
    Persisted t last := by
  obtain ⟨hone, hnamed, -⟩ := persisted_iff.mp h
  exact persisted_iff.mpr ⟨by rw [hstored]; exact hone, by rw [hstored]; exact hnamed, hUserID⟩

theorem Persisted.action {s t : State} {last : Option String} {a : Action} (h : Persisted s last)
    (hs : step s (.action a) = some t) : Persisted t (lastLogin last (.action a)) := by
  have hnext := step_accounts hs
  cases a with
  | login =>
    rw [persisted_iff, hnext]
    exact ⟨by simp [State.nextAccounts], by simp [State.nextAccounts], .inl rfl⟩
  | relaunch => exact h.of_accounts (hnext ▸ h.readBack) (hnext ▸ rfl)
  | pathUpdate satisfied =>
    cases satisfied with
    | true => exact h.of_accounts (hnext ▸ h.signedIn) (hnext ▸ rfl)
    | false =>
      refine h.of_accounts ?_ (hnext ▸ rfl)
      simp only [hnext, State.nextAccounts]
      split_ifs
      · exact h.signedIn
      · exact h.readBack
  | _ => exact h.of_accounts (hnext ▸ h.signedIn) (hnext ▸ rfl)

/-- A user who signs in finds an empty store or its own name there. -/
theorem Persisted.uid {s t : State} {last : Option String} {n k : ℕ} {uid : String}
    (h : Persisted s last) (hs : step s (.reply n k (.uid uid)) = some t) :
    Persisted t (some uid) ↔ ∀ user ∈ s.luser, user.userID = some uid := by
  obtain ⟨hone, -, -⟩ := persisted_iff.mp h
  rw [persisted_iff, step_accounts hs]
  simp only [State.nextAccounts, List.forall_mem_map]
  constructor
  · rintro ⟨-, hstored, -⟩ user huser
    exact (hstored user huser).1
  · intro hown
    refine ⟨hone, fun user huser => ⟨hown user huser, Option.some_ne_none uid, ?_⟩, .inr trivial⟩
    obtain ⟨hname, -, hne⟩ := h.stored user huser
    rwa [← hown user huser, hname]

/-- A download of the account that ends while the store is empty stores the user signed in. -/
theorem Persisted.stores {s t : State} {last : Option String} {n k : ℕ} {reply : Reply}
    (h : Persisted s last) (huid : ∀ uid, reply ≠ .uid uid)
    (hs : step s (.reply n k reply) = some t) :
    Persisted t last ↔ ((s.link n k).any (fun link => s.stores link reply) = true → s.luser = [] →
      s.UserID ≠ none ∧ s.UserID ≠ some "") := by
  have hnext := step_accounts hs
  have hnextReply : s.nextAccounts (.reply n k reply) =
      (s.UserID, if (s.link n k).any fun link => s.stores link reply then s.storedUser
        else s.luser.map LUser.userID) := by
    cases reply with
    | uid uid => exact absurd rfl (huid uid)
    | _ => rfl
  rw [hnextReply] at hnext
  by_cases hstores : (s.link n k).any (fun link => s.stores link reply) = true
  · rw [if_pos hstores, State.storedUser] at hnext
    by_cases hempty : s.luser = []
    · have hids : s.accounts.2 = [] := by rw [State.accounts, hempty]; rfl
      rw [if_pos hids] at hnext
      rw [persisted_iff, hnext]
      simp only [hstores, hempty, List.length_singleton, List.mem_singleton, forall_eq,
        forall_true_left, le_refl, true_and, State.accounts]
      constructor
      · rintro ⟨⟨hname, hlast, hne⟩, hsigned⟩
        cases hUserID : s.UserID with
        | none =>
          rw [hUserID] at hname
          exact absurd hname.symm hne
        | some uid =>
          rw [hUserID, Option.getD_some] at hname
          exact ⟨Option.some_ne_none uid, by rwa [hname]⟩
      · rintro ⟨hin, hne⟩
        have hlast := h.signedIn.resolve_left hin
        refine ⟨⟨?_, hlast ▸ hin, hlast ▸ hne⟩, .inr hlast⟩
        obtain ⟨uid, hUserID⟩ := Option.ne_none_iff_exists'.mp hin
        rw [← hlast, hUserID, Option.getD_some]
    · have hids : s.accounts.2 ≠ [] := by simpa [State.accounts] using hempty
      rw [if_neg hids] at hnext
      exact ⟨fun _ _ hnil => absurd hnil hempty,
        fun _ => h.of_accounts (hnext ▸ h.signedIn) (hnext ▸ rfl)⟩
  · rw [if_neg hstores] at hnext
    exact ⟨fun _ hst => absurd hst hstores,
      fun _ => h.of_accounts (hnext ▸ h.signedIn) (hnext ▸ rfl)⟩

/-- An event leaves the store named after the last login exactly when it comes in turn. -/
theorem Persisted.step_iff {s t : State} {last : Option String} {e : Event} (h : Persisted s last)
    (hs : step s e = some t) : Persisted t (lastLogin last e) ↔ InTurn s e := by
  cases e with
  | action a => exact ⟨fun _ => trivial, fun _ => h.action hs⟩
  | reply n k reply =>
    cases reply with
    | uid uid => exact h.uid hs
    | _ => exact h.stores nofun hs

/-- Throughout a run from an empty store, the store names the user who signed in last exactly when
every sign-in and every end of a download of the account comes in turn. -/
theorem persisted_iff_inTurn (es : List Event) (s : State) (hrun : run step (launch []) es = some s) :
    Throughout (logged step fun _ => lastLogin) (fun p => Persisted p.1 p.2) (launch [], none) es ↔
      Along step InTurn (launch []) es := by
  obtain ⟨last, hlogged⟩ := run_logged step (fun _ => lastLogin) hrun none
  have hinit : Persisted (launch []) none := ⟨Nat.zero_le 1, nofun, .inl rfl⟩
  rw [← along_logged step fun _ => lastLogin]
  refine throughout_iff_along_of_step_iff (logged step fun _ => lastLogin) (I := fun _ => True)
    (fun _ _ _ _ _ => trivial) ?_ trivial hinit hlogged
  intro p e q _ h hs
  obtain ⟨hstep, hlast⟩ := (logged_eq_some step _).mp hs
  rw [hlast]
  exact h.step_iff hstep

def usersDocument (avatarUrl : String) : UserDocument where
  fullName := some "An"
  gender := some "Other"
  birthday := some "01/01/2000"
  email := some "a@gmail.com"
  avatarUrl := some avatarUrl
  comicHistory := some []
  comicLike := some []

def askedForProfile : List Event :=
  [.action .login, .action .loginTapped, .reply 1 0 (.uid "a"), .action .accountWillAppear]

def storedProfile : List Event :=
  askedForProfile ++ [.reply 1 2 (.user (some (usersDocument ""))), .action .relaunch]

def storedAfterLogout : List Event :=
  askedForProfile ++ [.action .login, .reply 1 2 (.user (some (usersDocument "")))]

theorem persisted_iff_inTurn_storedProfile :
    Throughout (logged step fun _ => lastLogin) (fun p => Persisted p.1 p.2) (launch [], none)
        storedProfile ↔
      Along step InTurn (launch []) storedProfile :=
  persisted_iff_inTurn storedProfile ((run step (launch []) storedProfile).get (by decide +kernel))
    (Option.some_get _).symm

def afterLateProfile : State × Option String :=
  (run (logged step fun _ => lastLogin) (launch [], none) storedAfterLogout).get (by decide +kernel)

theorem not_persisted :
    ¬ ∀ (es : List Event) (p : State × Option String),
      run (logged step fun _ => lastLogin) (launch [], none) es = some p → Persisted p.1 p.2 := by
  intro h
  have hpersisted := h storedAfterLogout afterLateProfile (Option.some_get _).symm
  have hone : some "" ∈ afterLateProfile.1.luser.map LUser.userID := by decide +kernel
  have hlast : afterLateProfile.2 = none := by decide +kernel
  obtain ⟨user, huser, -⟩ := List.mem_map.mp hone
  exact (hpersisted.stored user huser).2.1 hlast

end ComicApp.AccountSession
