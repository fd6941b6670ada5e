import ComicApp.FilledAccounts

/-!
# What the pages of the account unwrap

The pages unwrap `UserLocal.UserID`, the name and the email. The account is filled in, and a page that
unwraps the user lies on top only while `UserLocal.UserID` is set; the login page clears it, and the
replies that arrive afterwards are the only ones that find it nil.
-/

namespace ComicApp.AccountTab
open EventMachine AccountSession

theorem AccountViewController.offers_setAccount {c : AccountViewController}
    {s : AccountSession.State} {isNetworkConnect : Bool} (hname : s.localAccount.fullName ≠ none)
    (h : (c.setAccount s isNetworkConnect).Offers) : s.UserID ≠ none := by
  intro hUserID
  obtain ⟨fullName, hname⟩ := Option.ne_none_iff_exists'.mp hname
  simp [setAccount, hname, hUserID, Offers] at h

/-- Only the login page clears `UserLocal.UserID`. -/
theorem UserID_kept {s t : AccountSession.State} {e : AccountSession.Event} (hfilled : s.Filled)
    (hstep : AccountSession.step s e = some t) (hlogin : e ≠ .action .login)
    (hrelaunch : e ≠ .action .relaunch) (h : s.UserID ≠ none) : t.UserID ≠ none := by
  rw [account_eq hstep]
  unfold account
  split
  · exact absurd rfl hlogin
  · split_ifs with hluser
    · exact h
    · obtain ⟨user, users, hcons⟩ := List.exists_cons_of_ne_nil hluser
      rw [hcons]
      exact (hfilled.luser user (by rw [hcons]; exact List.mem_cons_self)).2
  · exact absurd rfl hrelaunch
  · exact Option.some_ne_none _
  · exact h

/-- The account page offers its buttons, and a page that changes the account is open, only while
`UserLocal.UserID` is set; on the way through the login page the account page may still offer them. -/
structure HasUser (s : State) : Prop where
  buttons : ∀ page ∈ s.account, page.Offers → s.app.UserID ≠ none ∨ s.screen.SignsIn
  screen : s.screen.NeedsUser → s.app.UserID ≠ none

variable {u : Unicode} {s t : State}

theorem hasUser_launch : HasUser launch where
  buttons page hpage := by cases hpage
  screen h := h.elim

/-- What the account goes on to keeps the pages in order, if before it only a page that is set again
was out of order. -/
theorem hasUser_onApp (h : Filled s) {e : AccountSession.Event} {app : AccountSession.State}
    (hadmits : s.Admits e) (hstep : AccountSession.step s.app e = some app)
    (hlogin : e = .action .login → s.screen.SignsIn)
    (hbuttons : s.setsAccount e = false → ∀ page ∈ s.account, page.Offers →
      s.app.UserID ≠ none ∨ s.screen.SignsIn)
    (hscreen : s.screen.NeedsUser → s.app.UserID ≠ none) : HasUser (s.onApp e app) := by
  have hfilled := (h.onApp hadmits hstep).app
  obtain ⟨fullName, hname, -⟩ := hfilled.user.fullName
  by_cases hrelaunch : e = .action .relaunch
  · subst hrelaunch
    exact ⟨fun page hpage => absurd hpage (Option.not_mem_none page), fun hneeds => hneeds.elim⟩
  have hkept (hUserID : s.app.UserID ≠ none) : app.UserID ≠ none ∨ s.screen.SignsIn := by
    by_cases he : e = .action .login
    · exact .inr (hlogin he)
    · exact .inl (UserID_kept h.app hstep he hrelaunch hUserID)
  constructor
  · intro page hpage hoffers
    simp only [State.onApp, if_neg hrelaunch] at hpage ⊢
    split_ifs at hpage with hset
    · obtain ⟨page, -, rfl⟩ := Option.map_eq_some_iff.mp hpage
      refine .inl (AccountViewController.offers_setAccount ?_ hoffers)
      exact hname ▸ Option.some_ne_none fullName
    · rcases hbuttons (eq_false_of_ne_true hset) page hpage hoffers with hUserID | hsigns
      · exact hkept hUserID
      · exact .inr hsigns
  · intro hneeds
    simp only [State.onApp, if_neg hrelaunch] at hneeds ⊢
    rcases hkept (hscreen hneeds) with hUserID | hsigns
    · exact hUserID
    · exact absurd hneeds hsigns.not_needsUser

namespace HasUser
variable (h : HasUser s) (hfilled : Filled s)
include h

/-- The page that is in front has a button to offer. -/
theorem offered {page : AccountViewController} (haccount : s.screen = .account)
    (hpage : page ∈ s.account) (hoffers : page.Offers) : s.app.UserID ≠ none := by
  refine (h.buttons page hpage hoffers).resolve_right fun hsigns => ?_
  rw [haccount] at hsigns
  exact hsigns

theorem edited {c : EditAccountViewController} (hscreen : s.screen = .edit c) : s.app.UserID ≠ none :=
  h.screen (by rw [hscreen]; trivial)

include hfilled

theorem perform {e : AccountSession.Event} (hadmits : s.Admits e)
    (hlogin : e = .action .login → s.screen.SignsIn) (ht : s.perform e = some t) : HasUser t := by
  obtain ⟨app, happ, rfl⟩ := Option.map_eq_some_iff.mp ht
  exact hasUser_onApp hfilled hadmits happ hlogin (fun _ => h.buttons) h.screen

theorem act {a : Action} (hlogin : a ≠ .login) (ht : s.perform (.action a) = some t) : HasUser t := by
  refine h.perform hfilled ?_ ?_ ht
  · exact trivial
  · exact fun ha => absurd (Event.action.inj ha) hlogin

theorem onPage {e : PageEvent} (hpage : PageStep u s e t) : HasUser t := by
  cases hpage with
  | viewDidLoad t ht =>
    obtain ⟨app, happ, rfl⟩ := Option.map_eq_some_iff.mp ht
    refine hasUser_onApp hfilled.openAccount (e := .action .accountDidLoad) trivial happ nofun ?_
      h.screen
    exact fun hset => by cases hset
  | viewWillAppear t ht =>
    obtain ⟨app, happ, rfl⟩ := Option.map_eq_some_iff.mp ht
    refine hasUser_onApp (hfilled.setScreen (by simp)) (e := .action .accountWillAppear) trivial happ nofun
      ?_ False.elim
    exact fun hset page _ _ => .inl (of_decide_eq_false hset)
  | login t ht =>
    obtain ⟨app, happ, rfl⟩ := Option.map_eq_some_iff.mp ht
    exact hasUser_onApp (hfilled.setScreen (by simp)) (e := .action .login) trivial happ (fun _ => trivial)
      (fun _ _ _ _ => .inr trivial) False.elim
  | turns e screen hscreen =>
    exact ⟨fun _ _ _ => .inr hscreen, fun hneeds => absurd hneeds hscreen.not_needsUser⟩
  | opens e screen page haccount hpage hoffers hform =>
    have hUserID := h.offered haccount hpage hoffers
    exact ⟨fun _ _ _ => .inl hUserID, fun _ => hUserID⟩
  | shows e => exact h
  | acts e a t ha ht =>
    refine h.act hfilled ?_ ht
    rcases ha with rfl | rfl <;> nofun
  | signUpTapped c account t haccount ht =>
    have hsignUp : HasUser { s with signUps := (s.next, account) :: s.signUps } := ⟨h.buttons, h.screen⟩
    exact hsignUp.act (hfilled.signUp haccount) (by simp) ht
  | changes e c c' hscreen hform =>
    have hUserID := h.edited hscreen
    exact ⟨fun _ _ _ => .inl hUserID, fun _ => hUserID⟩
  | Save c update t hscreen hupdate ht =>
    have hUserID := h.edited hscreen
    have hsave : HasUser { s with screen := .edit (c.Save u).1, users := s.saved update } :=
      ⟨fun _ _ _ => .inl hUserID, fun _ => hUserID⟩
    exact hsave.act (hfilled.save hscreen hupdate) (by simp) ht
  | Send c hemail => exact ⟨h.buttons, h.screen⟩

theorem step {e : Event} (ht : step u s e = some t) : HasUser t := by
  cases e with
  | page e =>
    unfold AccountTab.step at ht
    dsimp only at ht
    split_ifs at ht
    exact h.onPage hfilled (PageStep.of_onPage ht)
  | app e =>
    unfold AccountTab.step at ht
    dsimp only at ht
    split_ifs at ht with hadmits
    refine h.perform hfilled hadmits.2 ?_ ht
    rintro rfl
    exact absurd hadmits.1 Bool.false_ne_true
  | setData i succeeds =>
    unfold AccountTab.step at ht
    dsimp only at ht
    split_ifs at ht
    obtain rfl := Option.some.inj ht
    exact ⟨h.buttons, h.screen⟩
  | elsewhere UserID form =>
    obtain rfl := Option.some.inj ht
    exact ⟨h.buttons, h.screen⟩

end HasUser

theorem hasUser_of_run {es : List Event} (hrun : run (step u) launch es = some s) :
    Filled s ∧ HasUser s :=
  run_invariant (step u) (I := fun s => Filled s ∧ HasUser s) ⟨filled_launch, hasUser_launch⟩
    (fun _ _ _ h _ ht => ⟨h.1.step ht, h.2.step h.1 ht⟩) (along_true (step u) launch es) hrun

/-- The event belongs to the pages of the account, or its callback loads or changes the account. -/
def OfAccount (s : State) : Event → Prop
  | .page _ | .app (.action (.pathUpdate _)) => True
  | .app (.reply n k _) =>
    ∃ link, s.app.link n k = some link ∧ link.comic = none ∧ link.lists = none
  | _ => False

/-- The reply names a picture of the account: a profile whose `avatarUrl` is not empty, asked for by
`UserLocal.userFirebaseToRam` or `AccountViewController.downAccount`, or the URL of a picture that
`EditAccountViewController.Save` has uploaded. -/
inductive NamesPicture : Link → Reply → Prop where
  | profile (onPage : Bool) (UserID : String) (data : UserDocument) (url : String)
      (hurl : data.avatarUrl = some url) (hempty : url ≠ "") :
      NamesPicture (.profile onPage UserID) (.user (some data))
  | downloadURL (UserID url : String) : NamesPicture (.downloadURL UserID) (.url url)

/-- These are the replies whose callback unwraps the user. -/
theorem namesPicture_iff {link : Link} {reply : Reply}
    (hprofile : ∀ onPage UserID data, link = .profile onPage UserID → reply = .user (some data) →
      data.account.Filled) : NamesPicture link reply ↔ State.unwrapsUserID link reply = true := by
  constructor
  · intro h
    cases h with
    | profile onPage UserID data url hurl hempty =>
      refine decide_eq_true fun h => hempty ?_
      exact Option.some.inj (hurl.symm.trans h)
    | downloadURL UserID url => rfl
  · intro h
    unfold State.unwrapsUserID at h
    split at h
    · rename_i onPage UserID data
      obtain ⟨url, hurl⟩ := Option.ne_none_iff_exists'.mp (hprofile onPage UserID data rfl rfl).2
      refine .profile onPage UserID data url hurl fun hempty => of_decide_eq_true h ?_
      exact hurl.trans (congrArg some hempty)
    · exact .downloadURL _ _
    · cases h

theorem running_perform {a : Action} (ht : s.perform (.action a) = some t)
    (hfilled : s.app.Filled) (hrun : s.app.running = true) (hpage : a.OnAccount)
    (hsave : ∀ hasImage, a = .Save hasImage → s.app.UserID ≠ none) : t.app.running = true := by
  obtain ⟨app, happ, rfl⟩ := Option.map_eq_some_iff.mp ht
  exact hfilled.running_act hrun hpage hsave (step_action happ).2

/-- No page stops the app. -/
theorem running_onPage (hfilled : Filled s) (huser : HasUser s) (hrun : s.app.running = true)
    {e : PageEvent} (hpage : PageStep u s e t) : t.app.running = true := by
  cases hpage with
  | viewDidLoad t ht => exact running_perform ht hfilled.app hrun trivial nofun
  | viewWillAppear t ht => exact running_perform ht hfilled.app hrun trivial nofun
  | login t ht => exact running_perform ht hfilled.app hrun trivial nofun
  | signUpTapped c account t haccount ht => exact running_perform ht hfilled.app hrun trivial nofun
  | turns | opens | shows | changes => exact hrun
  | acts e a t ha ht =>
    rcases ha with rfl | rfl
    · exact running_perform ht hfilled.app hrun trivial nofun
    · exact running_perform ht hfilled.app hrun trivial nofun
  | Save c update t hscreen hupdate ht =>
    exact running_perform ht hfilled.app hrun trivial fun _ _ => huser.edited hscreen
  | Send c hemail =>
    obtain ⟨email, hsome, -⟩ := hfilled.app.user.email
    rw [hsome] at hemail
    cases hemail

/-- A callback of the account stops the app exactly where it names a picture while `UserLocal.UserID` is
nil. -/
theorem stops_reply_iff {n k : ℕ} {reply : Reply} {link : Link} (hfilled : Filled s)
    (hrunning : s.app.running = true) (hadmits : s.Admits (.reply n k reply))
    (hlink : s.app.link n k = some link) (hcomic : link.comic = none) (hlists : link.lists = none)
    {app : AccountSession.State} (happ : AccountSession.step s.app (.reply n k reply) = some app) :
    app.running = false ↔ s.app.UserID = none ∧ NamesPicture link reply := by
  have hprofile : ∀ onPage UserID data, link = .profile onPage UserID → reply = .user (some data) →
      data.account.Filled := by
    rintro onPage UserID data rfl rfl
    exact hfilled.profile hadmits hlink
  rw [namesPicture_iff hprofile]
  constructor
  · intro hstops
    by_contra hnot
    obtain ⟨-, link', hlink', hcallback⟩ := step_reply happ
    obtain rfl : link = link' := Option.some.inj (hlink.symm.trans hlink')
    have hanswer : (s.app.answer n k).Filled := hfilled.app.congr rfl
    have hgoes := hanswer.running_callback hrunning hcallback hcomic hlists hprofile
      fun hunwraps hnone => hnot ⟨hnone, hunwraps⟩
    exact absurd hstops (ne_false_of_eq_true hgoes)
  · rintro ⟨hnone, hunwraps⟩
    exact trap_of_not_userFound happ fun hfound => hfound link hlink hunwraps hnone

/-- In every run the part of the app that handles the account stops in one way only: after the login
page has cleared `UserLocal.UserID`, a reply arrives that names a picture. No page, button or form and
no missing field of a profile stops it. -/
theorem account_stops_iff (u : Unicode) (es : List Event) (s t : State) (e : Event)
    (hrun : run (step u) launch es = some s) (hrunning : s.app.running = true) (he : OfAccount s e)
    (h : step u s e = some t) :
    t.app.running = false ↔ s.app.UserID = none ∧ ∃ n k reply link,
      e = .app (.reply n k reply) ∧ s.app.link n k = some link ∧ NamesPicture link reply := by
  obtain ⟨hfilled, huser⟩ := hasUser_of_run hrun
  have hno {P : Prop} (hgoes : t.app.running = true) (hnot : ¬ P) : t.app.running = false ↔ P :=
    iff_of_false (ne_false_of_eq_true hgoes) hnot
  cases e with
  | page e =>
    unfold step at h
    dsimp only at h
    split_ifs at h
    exact hno (running_onPage hfilled huser hrunning (PageStep.of_onPage h)) (by simp)
  | setData | elsewhere => exact he.elim
  | app e =>
    unfold step at h
    dsimp only at h
    split_ifs at h with hadmits
    cases e with
    | action a =>
      cases a with
      | pathUpdate satisfied =>
        exact hno (running_perform h hfilled.app hrunning trivial nofun) (by simp)
      | _ => exact he.elim
    | reply n k reply =>
      obtain ⟨link, hlink, hcomic, hlists⟩ := he
      obtain ⟨app, happ, rfl⟩ := Option.map_eq_some_iff.mp h
      refine (stops_reply_iff hfilled hrunning hadmits.2 hlink hcomic hlists happ).trans
        (and_congr_right fun _ => ?_)
      constructor
      · intro hnames
        exact ⟨n, k, reply, link, rfl, hlink, hnames⟩
      · rintro ⟨n', k', reply', link', heq, hlink', hnames⟩
        obtain ⟨rfl, rfl, rfl⟩ := AccountSession.Event.reply.inj (Event.app.inj heq)
        obtain rfl : link = link' := Option.some.inj (hlink.symm.trans hlink')
        exact hnames

/-- While the account page lies on top, it shows `Logout` and offers to change the account only while
`UserLocal.UserID` is set, and an edit or change-password page is open only while it is set and the
account has an email. -/
theorem pages_haveUser (u : Unicode) (es : List Event) (s : State)
    (hrun : run (step u) launch es = some s) :
    (s.screen = .account → ∀ page ∈ s.account, page.Offers → s.app.UserID ≠ none) ∧
      (s.screen.NeedsUser → s.app.UserID ≠ none ∧ s.app.localAccount.email ≠ none) := by
  obtain ⟨hfilled, huser⟩ := hasUser_of_run hrun
  constructor
  · intro hscreen page hpage hoffers
    exact huser.offered hscreen hpage hoffers
  · intro hneeds
    obtain ⟨email, hemail, -⟩ := hfilled.app.user.email
    exact ⟨huser.screen hneeds, by rw [hemail]; exact Option.some_ne_none email⟩

theorem account_stops_pictureURL : afterPictureURL.app.running = false := by
  refine (account_stops_iff PasswordFields.ascii pictureAn afterPictureAn afterPictureURL pictureURL
    (Option.some_get _).symm (by decide +kernel) ?_ (Option.some_get _).symm).mpr ⟨?_, ?_⟩
  · exact ⟨.downloadURL "a", by decide +kernel, rfl, rfl⟩
  · decide +kernel
  · exact ⟨1, 4, .url "a.png", .downloadURL "a", rfl, by decide +kernel, .downloadURL "a" "a.png"⟩

theorem pages_haveUser_editAn :
    afterEditAn.app.UserID ≠ none ∧ afterEditAn.app.localAccount.email ≠ none := by
  have hneeds : Screen.edit (.setElement afterEditAn.app.localAccount) = afterEditAn.screen := by
    decide +kernel
  refine (pages_haveUser PasswordFields.ascii editAn afterEditAn (Option.some_get _).symm).2 ?_
  rw [← hneeds]
  exact trivial

end ComicApp.AccountTab
