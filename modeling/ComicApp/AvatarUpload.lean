import ComicApp.StoredAccount

/-!
# Callbacks that unwrap the user

The callbacks that load a profile and the ones that upload an avatar unwrap `UserLocal.UserID` when
their reply arrives, not when the request is sent. By then the login page may have closed the
account, or another one may have been opened. So a late reply finds nobody, or stores the picture of
one user for another.
-/

namespace ComicApp.AccountSession
open EventMachine

namespace State

/-- The callback of the link evaluates `UserLocal.UserID!` on this reply. -/
def unwrapsUserID : Link → Reply → Bool
  | .profile _ _, .user (some data) => data.avatarUrl ≠ some ""
  | .downloadURL _, .url _ => true
  | _, _ => false

/-- What the uploads wrote to the remote documents. -/
def updates (s : State) : List AvatarUpdate := (s.sessions.map Session.updates).flatten

theorem updates_modify (s : State) (n : ℕ) {f : Session → Session}
    (hf : ∀ S, (f S).updates = S.updates) : (s.modify n f).updates = s.updates :=
  congrArg List.flatten (map_modify_of_eq hf s.sessions n)

theorem lasting_updates : Lasting fun s t => t.updates = s.updates where
  refl _ := rfl
  trans h h' := h'.trans h
  send s n _ _ := updates_modify s n fun _ => rfl
  trap _ := rfl
  localAccount _ _ := rfl
  modify s n _ hf := updates_modify s n fun S => (hf S).updates
  listHistory _ _ := rfl
  listLike _ _ := rfl
  pages s n _ := updates_modify s n fun _ => rfl
  id _ _ := rfl
  ask s n _ := updates_modify s n fun _ => rfl
  UserID _ _ := rfl
  luser _ _ := rfl

theorem answer_updates (s : State) (n k : ℕ) : (s.answer n k).updates = s.updates :=
  updates_modify s n fun _ => rfl

section Updates
variable (s : State)

theorem updates_setElement : s.setElement.updates = s.updates := by
  simp [updates, setElement]

/-- A new process has uploaded nothing. -/
theorem updates_start (luser : List LUser) (sessions : List Session) :
    (start luser (sessions.map fun _ => {})).updates = [] := by
  rw [start, lasting_updates.toStable.DownloadList]
  simp [boot, updates]

end Updates

theorem act_updates {s t : State} {a : Action} (h : s.act a = some t) {u : AvatarUpdate}
    (hu : u ∈ t.updates) : u ∈ s.updates := by
  by_cases hlogin : a = .login
  · subst hlogin
    obtain rfl := Option.some.inj h
    rwa [updates_setElement] at hu
  · by_cases hrelaunch : a = .relaunch
    · subst hrelaunch
      obtain rfl := Option.some.inj h
      rw [updates_start] at hu
      cases hu
    · rwa [lasting_updates.act h hlogin hrelaunch] at hu

theorem Callback.updates {s t : State} {n : ℕ} {link : Link} {reply : Reply}
    (h : Callback s n link reply t) (hurl : ∀ url, reply ≠ .url url) : t.updates = s.updates :=
  lasting_updates.callback h fun url hreply => absurd hreply (hurl url)

theorem mem_updates {s : State} {u : AvatarUpdate} :
    u ∈ s.updates ↔ ∃ (m : ℕ) (S : Session), s.sessions[m]? = some S ∧ u ∈ S.updates := by
  simp only [updates, List.mem_flatten, List.mem_map]
  constructor
  · rintro ⟨_, ⟨S, hS, rfl⟩, hu⟩
    obtain ⟨m, hm⟩ := List.mem_iff_getElem?.mp hS
    exact ⟨m, S, hm, hu⟩
  · rintro ⟨m, S, hm, hu⟩
    exact ⟨_, ⟨S, List.mem_of_getElem? hm, rfl⟩, hu⟩

/-- The URL of a picture is stored for the user who is signed in. -/
theorem mem_onDownloadURL {s : State} {n : ℕ} (hn : n < s.sessions.length) {picture url : String}
    {u : AvatarUpdate} : u ∈ (s.onDownloadURL n picture url).updates ↔
      u ∈ s.updates ∨ ∃ UserID, s.UserID = some UserID ∧ u = ⟨picture, UserID, url⟩ := by
  unfold onDownloadURL
  cases s.UserID with
  | none => simp only [lasting_updates.trap, reduceCtorEq, false_and, exists_false, or_false]
  | some UserID =>
    simp only [Option.some.injEq, exists_eq_left', mem_updates, modify, List.getElem?_modify]
    constructor
    · rintro ⟨m, S, hS, hu⟩
      cases hm : s.sessions[m]? with
      | none => simp [hm] at hS
      | some S₀ =>
        rw [hm] at hS
        obtain rfl := Option.some.inj hS
        dsimp only at hu
        split_ifs at hu
        · rcases List.mem_append.mp hu with hu | hu
          · exact .inl ⟨m, S₀, hm, hu⟩
          · exact .inr (List.mem_singleton.mp hu)
        · exact .inl ⟨m, S₀, hm, hu⟩
    · rintro (⟨m, S, hS, hu⟩ | rfl)
      · refine ⟨m, _, by rw [hS]; rfl, ?_⟩
        dsimp only
        split_ifs
        · exact List.mem_append_left _ hu
        · exact hu
      · refine ⟨n, _, by rw [List.getElem?_eq_getElem hn]; rfl, ?_⟩
        simp

end State

/-- The user who is signed in: the one who signed in last or was read back since, unless the login
page has been opened. -/
def account (s : State) (account : Option String) : Event → Option String
  | .action .login => none
  | .action (.pathUpdate false) =>
    if s.luser = [] then account else s.luser.head?.bind LUser.userID
  | .action .relaunch => s.luser.head?.bind LUser.userID
  | .reply _ _ (.uid uid) => some uid
  | _ => account

theorem account_eq {s t : State} {e : Event} (h : step s e = some t) :
    t.UserID = account s s.UserID e := by
  have hUserID : t.UserID = (s.nextAccounts e).1 := congrArg Prod.fst (step_accounts h)
  rw [hUserID]
  cases e with
  | action a =>
    cases a with
    | pathUpdate satisfied => cases satisfied <;> rfl
    | _ => rfl
  | reply n k reply => cases reply <;> rfl

/-- The logged account is the user who is signed in. -/
theorem logged_account {p q : State × Option String} {e : Event} (hp : p.1.UserID = p.2)
    (hs : logged step account p e = some q) : q.1.UserID = q.2 := by
  obtain ⟨hstep, hlog⟩ := (logged_eq_some step account).mp hs
  rw [account_eq hstep, hlog, hp]

def launchAccount (luser : List LUser) : State × Option String :=
  (launch luser, luser.head?.bind LUser.userID)

theorem launchAccount_eq (luser : List LUser) : (launch luser).UserID = (launchAccount luser).2 :=
  congrArg Prod.fst (State.stable_accounts.DownloadList (State.boot luser [{}]) _)

/-- The event does not evaluate `UserLocal.UserID!` while it is nil. -/
def UserFound (s : State) : Event → Prop
  | .reply n k reply => ∀ link ∈ s.link n k, State.unwrapsUserID link reply = true → s.UserID ≠ none
  | .action _ => True

def AccountOpen (p : State × Option String) : Event → Prop
  | .reply n k reply => ∀ link ∈ p.1.link n k, State.unwrapsUserID link reply = true → p.2 ≠ none
  | .action _ => True

/-- Evaluating it while it is nil ends the process. -/
theorem trap_of_not_userFound {s t : State} {e : Event} (h : step s e = some t)
    (hnot : ¬ UserFound s e) : t.running = false := by
  cases e with
  | action a => exact absurd trivial hnot
  | reply n k reply =>
    simp only [UserFound, not_forall, not_not] at hnot
    obtain ⟨link, hlink, hunwraps, hout⟩ := hnot
    obtain ⟨-, link', hlink', hcallback⟩ := step_reply h
    obtain rfl : link = link' := Option.some.inj (hlink.symm.trans hlink')
    cases hcallback with
    | profile onPage UserID document =>
      cases document with
      | none => cases hunwraps
      | some data =>
        have hurl : data.avatarUrl ≠ some "" := of_decide_eq_true hunwraps
        have hout' : ((s.answer n k).setFields data).UserID = none := hout
        unfold State.onProfile
        dsimp only
        rw [if_neg hurl, State.downAvatar]
        cases onPage with
        | true => simp only [if_true, State.askAvatar, hout']; rfl
        | false =>
          have hout'' : (((s.answer n k).setFields data).setDownAvatar true).UserID = none := hout
          simp only [if_neg Bool.false_ne_true, State.askAvatar, hout'']
          rfl
    | downloadURL picture url =>
      have hout' : (s.answer n k).UserID = none := hout
      simp only [State.onDownloadURL, hout']
      rfl
    | failed link hfailed => cases link <;> cases hunwraps
    | _ => cases hunwraps

/-- Throughout a run no callback evaluates `UserLocal.UserID!` while it is nil exactly when every
reply on which one evaluates it arrives for an account that is open. -/
theorem userFound_iff (luser : List LUser) (es : List Event) :
    Along step UserFound (launch luser) es ↔
      Along (logged step account) AccountOpen (launchAccount luser) es := by
  have hsame (p : State × Option String) (e : Event) (hp : p.1.UserID = p.2) :
      UserFound p.1 e ↔ AccountOpen p e := by
    cases e with
    | action a => exact Iff.rfl
    | reply n k reply => simp only [UserFound, AccountOpen, hp]
  rw [← along_logged step account]
  constructor
  · exact along_of_invariant _ (fun p e q hp _ => logged_account hp)
      (fun p e hp => (hsame p e hp).mp) (launchAccount_eq luser)
  · exact along_of_invariant _ (fun p e q hp _ => logged_account hp)
      (fun p e hp => (hsame p e hp).mpr) (launchAccount_eq luser)

/-- Every picture whose URL was stored is the picture of the user it was stored for. -/
def OwnPictures (s : State) : Prop := ∀ u ∈ s.updates, u.picture = u.document

/-- The URL of a picture arrives for its owner, or while nobody is signed in. -/
def OwnURL (p : State × Option String) : Event → Prop
  | .reply n k (.url _) => ∀ picture, p.1.link n k = some (.downloadURL picture) →
      p.2 = none ∨ p.2 = some picture
  | _ => True

/-- An event that is not the arrival of a URL stores no picture. -/
theorem step_updates {s t : State} {e : Event} (h : step s e = some t)
    (hurl : ∀ n k url, e ≠ .reply n k (.url url)) {u : AvatarUpdate} (hu : u ∈ t.updates) :
    u ∈ s.updates := by
  cases e with
  | action a => exact State.act_updates (step_action h).2 hu
  | reply n k reply =>
    obtain ⟨-, link, -, hcallback⟩ := step_reply h
    rw [hcallback.updates fun url heq => hurl n k url (by rw [heq])] at hu
    rwa [State.answer_updates] at hu

theorem step_url {s t : State} {n k : ℕ} {url : String}
    (h : step s (.reply n k (.url url)) = some t) :
    ∃ picture, s.link n k = some (.downloadURL picture) ∧ ∀ u, u ∈ t.updates ↔
      u ∈ s.updates ∨ ∃ UserID, s.UserID = some UserID ∧ u = ⟨picture, UserID, url⟩ := by
  obtain ⟨-, link, hlink, hcallback⟩ := step_reply h
  cases hcallback with
  | downloadURL picture url =>
    refine ⟨picture, hlink, fun u => ?_⟩
    have hlt : n < (s.answer n k).sessions.length := by
      rw [State.answer, State.modify_length]
      exact State.link_lt hlink
    rw [State.mem_onDownloadURL hlt, State.answer_updates]
    rfl

/-- What an event stores belongs to its owner exactly when the URL arrives for its owner. -/
theorem OwnPictures.step_iff {s t : State} {e : Event} (h : OwnPictures s)
    (hs : step s e = some t) : OwnPictures t ↔ OwnURL (s, s.UserID) e := by
  cases e with
  | action a => exact ⟨fun _ => trivial, fun _ u hu => h u (step_updates hs nofun hu)⟩
  | reply n k reply =>
    cases reply with
    | url url =>
      obtain ⟨picture, hlink, hmem⟩ := step_url hs
      constructor
      · intro hown picture' hlink'
        obtain rfl : picture = picture' := by simpa [hlink] using hlink'
        cases hUserID : s.UserID with
        | none => exact .inl rfl
        | some UserID =>
          have hnew := hown _ ((hmem ⟨picture, UserID, url⟩).mpr (.inr ⟨UserID, hUserID, rfl⟩))
          exact .inr (congrArg some hnew.symm)
      · intro hurl u hu
        rcases (hmem u).mp hu with hu | ⟨UserID, hUserID, rfl⟩
        · exact h u hu
        · rcases hurl picture hlink with hout | hsame
          · rw [hUserID] at hout
            cases hout
          · exact (Option.some.inj (hUserID.symm.trans hsame)).symm
    | _ => exact ⟨fun _ => trivial, fun _ u hu => h u (step_updates hs nofun hu)⟩

/-- Throughout a run every picture is stored for its owner exactly when no URL arrives while another
account than its owner's is open. -/
theorem ownPictures_iff (luser : List LUser) (es : List Event) (s : State)
    (hrun : run step (launch luser) es = some s) :
    Throughout step OwnPictures (launch luser) es ↔
      Along (logged step account) OwnURL (launchAccount luser) es := by
  obtain ⟨user, hlogged⟩ := run_logged step account hrun (launchAccount luser).2
  have hinit : OwnPictures (launch luser) := fun u hu => by
    rw [launch, State.start, State.lasting_updates.toStable.DownloadList] at hu
    cases hu
  rw [← throughout_logged step account]
  refine throughout_iff_along_of_step_iff (logged step account) (I := fun p => p.1.UserID = p.2)
    (fun _ _ _ => logged_account) ?_ (launchAccount_eq luser) hinit hlogged
  intro p e q hp hown hs
  obtain ⟨hstep, -⟩ := (logged_eq_some step account).mp hs
  rw [hown.step_iff hstep, hp]

def upload : List Event :=
  [.action .login, .action .loginTapped, .reply 1 0 (.uid "a"), .action (.Save true),
    .reply 1 2 .metadata]

def uploadStored : List Event := upload ++ [.reply 1 3 (.url "a.jpg")]

def uploadThenLogout : List Event := upload ++ [.action .login]

def uploadAfterLogout : List Event := uploadThenLogout ++ [.reply 1 3 (.url "a.jpg")]

def uploadAfterSwitch : List Event :=
  upload ++ [.action .login, .action .loginTapped, .reply 2 0 (.uid "b"),
    .reply 1 3 (.url "a.jpg")]

theorem not_userFound : ¬ ∀ (luser : List LUser) (es : List Event) (s : State),
    run step (launch luser) es = some s → Along step UserFound (launch luser) es := by
  intro h
  have halong := h [] uploadAfterLogout
    ((run step (launch []) uploadAfterLogout).get (by decide +kernel)) (Option.some_get _).symm
  have hfound := ((along_concat step).mp halong).2
    ((run step (launch []) uploadThenLogout).get (by decide +kernel)) (Option.some_get _).symm
  exact hfound (.downloadURL "a") (by decide +kernel) rfl (by decide +kernel)

theorem ownPictures_iff_uploadStored :
    Throughout step OwnPictures (launch []) uploadStored ↔
      Along (logged step account) OwnURL (launchAccount []) uploadStored :=
  ownPictures_iff [] uploadStored ((run step (launch []) uploadStored).get (by decide +kernel))
    (Option.some_get _).symm

theorem not_ownPictures : ¬ ∀ (luser : List LUser) (es : List Event) (s : State),
    run step (launch luser) es = some s → OwnPictures s := by
  intro h
  have hown := h [] uploadAfterSwitch
    ((run step (launch []) uploadAfterSwitch).get (by decide +kernel)) (Option.some_get _).symm
  have hstored : ⟨"a", "b", "a.jpg"⟩ ∈
      ((run step (launch []) uploadAfterSwitch).get (by decide +kernel)).updates := by
    decide +kernel
  exact absurd (hown _ hstored) (by decide)

end ComicApp.AccountSession
