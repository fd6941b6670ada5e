import ComicApp.AccountStable
import ComicApp.AccountSwitch

/-!
# The account page

`AccountViewController` beside the account: its activity indicator `aivLoad`, and the number of
documents that its `downAccount` has asked for. The reply to a request of `downAccount` calls
`setAccount`, which calls `downAccount` again while the account is marked as being downloaded. The
branches that end without `setAccount` do not stop the indicator.
-/

namespace ComicApp.AccountPage
open EventMachine
open AccountSession (Link Reply LUser User UserDocument Action Event)

structure Page where
  app : AccountSession.State
  aivLoad : Bool
  asked : ℕ
  deriving DecidableEq, Repr

namespace Page

def downAccount (p : Page) (n : ℕ) : Page :=
  if p.app.localAccount.isDownAvatar ∧ p.app.UserID ≠ none then
    { app := p.app.downAccount n
      aivLoad := true
      asked := p.asked + 1 }
  else p

def setAccount (p : Page) (n : ℕ) : Page :=
  match p.app.localAccount.fullName with
  | none => { p with app := p.app.trap }
  | some _ => if p.app.localAccount.isDownAvatar ∧ p.app.UserID ≠ none then p.downAccount n else p

def willAppear (p : Page) : Page :=
  let n := p.app.current
  (if p.app.UserID = none then p.setAccount n else p).downAccount n

/-- The end of a download of the account on the page. -/
def downloaded (p : Page) (n : ℕ) : Page :=
  let p := p.setAccount n
  if p.app.running then
    { p with
      app := p.app.userRamToRealm
      aivLoad := false }
  else p

def onProfile (p : Page) (n : ℕ) (document : Option UserDocument) : Page :=
  match document with
  | none => p
  | some data =>
    if data.avatarUrl = some "" then
      { p with app := (p.app.setFields data).setAvatar none }.downloaded n
    else { p with app := (p.app.setFields data).downAvatar n true }

def onAvatar (p : Page) (n : ℕ) (data : Data) : Page :=
  { p with app := (p.app.setAvatar (some data)).setDownAvatar false }.downloaded n

def setApp (p : Page) (app : AccountSession.State) : Page := { p with app := app }

def onReply (p : Page) (n : ℕ) : Link → Reply → Option Page
  | .profile true _, .user document => some (p.onProfile n document)
  | .avatar true _, .data data => some (p.onAvatar n data)
  | link, reply => (p.app.onReply n link reply).map p.setApp

def act (p : Page) : Action → Option Page
  | .accountDidLoad => some (p.setAccount p.app.current)
  | .accountWillAppear => some p.willAppear
  | .relaunch => (p.app.act .relaunch).map { p with aivLoad := false }.setApp
  | a => (p.app.act a).map p.setApp

def answer (p : Page) (n k : ℕ) : Page := p.setApp (p.app.answer n k)

end Page

def step (p : Page) : Event → Option Page
  | .action a => if p.app.running ∨ a = .relaunch then p.act a else none
  | .reply n k reply =>
    if p.app.running then (p.app.link n k).bind fun link => (p.answer n k).onReply n link reply
    else none

/-- The page over the users that the last process left in the store. -/
def launch (luser : List LUser) : Page where
  app := AccountSession.launch luser
  aivLoad := false
  asked := 0

namespace Page
variable (p : Page) (n : ℕ)

theorem downAccount_app : (p.downAccount n).app = p.app.downAccount n := by
  unfold downAccount AccountSession.State.downAccount
  cases hUserID : p.app.UserID with
  | none => simp
  | some UserID =>
    by_cases hdown : p.app.localAccount.isDownAvatar = true <;> simp [hdown]

theorem setAccount_app : (p.setAccount n).app = p.app.setAccount n := by
  unfold setAccount AccountSession.State.setAccount
  cases p.app.localAccount.fullName with
  | none => rfl
  | some fullName =>
    dsimp only
    split_ifs
    · exact downAccount_app p n
    · rfl

theorem willAppear_app : p.willAppear.app = p.app.accountWillAppear := by
  unfold willAppear AccountSession.State.accountWillAppear
  dsimp only
  rw [downAccount_app]
  split_ifs
  · rw [setAccount_app]
  · rfl

theorem downloaded_app : (p.downloaded n).app = p.app.downloaded n true := by
  unfold downloaded AccountSession.State.downloaded
  dsimp only
  rw [if_pos rfl, ← setAccount_app]
  split_ifs <;> rfl

theorem onProfile_app (document : Option UserDocument) :
    (p.onProfile n document).app = p.app.onProfile n true document := by
  cases document with
  | none => rfl
  | some data =>
    unfold onProfile AccountSession.State.onProfile
    dsimp only
    split_ifs
    · exact downloaded_app _ n
    · rfl

theorem map_setApp (o : Option AccountSession.State) : (o.map p.setApp).map app = o := by
  cases o <;> rfl

theorem onReply_app (link : Link) (reply : Reply) :
    (p.onReply n link reply).map app = p.app.onReply n link reply := by
  unfold onReply
  split
  · rw [Option.map_some, onProfile_app]
    rfl
  · rw [Option.map_some, onAvatar, downloaded_app]
    rfl
  · exact map_setApp p _

theorem act_app (a : Action) : (p.act a).map app = p.app.act a := by
  cases a with
  | accountDidLoad => exact congrArg some (setAccount_app p _)
  | accountWillAppear => exact congrArg some (willAppear_app p)
  | _ => simp only [act, map_setApp]

end Page

/-- The account under the page goes its way as if there were no page. -/
theorem step_app (p : Page) (e : Event) :
    (step p e).map Page.app = AccountSession.step p.app e := by
  cases e with
  | action a =>
    unfold step AccountSession.step
    dsimp only
    split_ifs
    · exact p.act_app a
    · rfl
  | reply n k reply =>
    unfold step AccountSession.step
    dsimp only
    split_ifs
    · cases p.app.link n k with
      | none => rfl
      | some link => exact (p.answer n k).onReply_app n link reply
    · rfl

def onPage : Link → Bool
  | .profile true _ | .avatar true _ => true
  | _ => false

def leavesOn : Link → Reply → Bool
  | .profile true _, .error | .profile true _, .user none | .avatar true _, .error => true
  | _, _ => false

/-- The callback sets the account without clearing the mark first. -/
def setsMarked : Link → Reply → Bool
  | .profile true _, .user (some data) => data.avatarUrl = some ""
  | _, _ => false

def OutBut (s : AccountSession.State) (n k : ℕ) : Prop :=
  ∃ m j link, (m, j) ≠ (n, k) ∧ s.link m j = some link ∧ onPage link = true

/-- A profile without an avatar finds the mark cleared, and a reply that does not stop the indicator
finds it stopped, or another request of the page out. -/
def Settles (p : Page) : Event → Prop
  | .reply n k reply => ∀ link ∈ p.app.link n k,
      (setsMarked link reply = true → p.app.localAccount.isDownAvatar = false) ∧
      (leavesOn link reply = true → p.aivLoad = false ∨ OutBut p.app n k)
  | .action _ => True

/-- While the indicator runs a request of the page is out. -/
def Loading (p : Page) : Prop :=
  p.app.running = true → p.aivLoad = true →
    ∃ m j link, p.app.link m j = some link ∧ onPage link = true

/-- The avatar is asked for, unless nobody is signed in. -/
theorem askAvatar_sent {s : AccountSession.State} {n : ℕ} (hn : n < s.sessions.length)
    (hrunning : (s.askAvatar n true).running = true) :
    ∃ j UserID, (s.askAvatar n true).link n j = some (.avatar true UserID) := by
  unfold AccountSession.State.askAvatar at hrunning ⊢
  cases hUserID : s.UserID with
  | none =>
    rw [hUserID] at hrunning
    cases hrunning
  | some UserID =>
    obtain ⟨j, hj⟩ := AccountSession.State.link_send hn (.avatar true UserID)
    exact ⟨j, UserID, hj⟩

namespace Page
variable {p : Page} {n : ℕ}

theorem setAccount_cleared (hdown : p.app.localAccount.isDownAvatar = false) :
    p.setAccount n = p ∨ p.setAccount n = p.setApp p.app.trap := by
  unfold setAccount
  cases p.app.localAccount.fullName with
  | none => exact .inr rfl
  | some fullName => exact .inl (if_neg (by simp [hdown]))

/-- A download that ends with the mark cleared asks for nothing and stops the indicator. -/
theorem downloaded_cleared (hrunning : p.app.running = true)
    (hdown : p.app.localAccount.isDownAvatar = false) :
    (p.downloaded n).asked = p.asked ∧ Loading (p.downloaded n) := by
  unfold downloaded
  rcases setAccount_cleared (n := n) hdown with hset | hset
  · simp only [hset, if_pos hrunning]
    exact ⟨trivial, nofun⟩
  · simp only [hset]
    exact ⟨rfl, nofun⟩

/-- The reply to a request that is not the page's leaves the page's requests out. -/
theorem loading_kept {t : AccountSession.State} {k : ℕ}
    (hkept : AccountSession.State.LinksKept (p.answer n k).app t)
    (hbut : p.aivLoad = true → OutBut p.app n k) : Loading (p.setApp t) := by
  intro _ hload
  obtain ⟨m, j, link, hne, hlink, hpage⟩ := hbut hload
  exact ⟨m, j, link, hkept m j link
    ((AccountSession.State.link_answer p.app hne).trans hlink), hpage⟩

/-- The replies that the page answers, and the others, of which it only sees errors. -/
theorem onReply_cases {q : Page} {link : Link} {reply : Reply} (h : p.onReply n link reply = some q) :
    (∃ UserID document, link = .profile true UserID ∧ reply = .user document ∧
        q = p.onProfile n document) ∨
      (∃ UserID data, link = .avatar true UserID ∧ reply = .data data ∧ q = p.onAvatar n data) ∨
      ∃ t, p.app.onReply n link reply = some t ∧ q = p.setApp t ∧
        (onPage link = true → reply = .error) := by
  unfold onReply at h
  split at h
  · rename_i UserID document
    exact .inl ⟨UserID, document, rfl, rfl, (Option.some.inj h).symm⟩
  · rename_i UserID data
    exact .inr (.inl ⟨UserID, data, rfl, rfl, (Option.some.inj h).symm⟩)
  · rename_i hprofile havatar
    obtain ⟨t, ht, rfl⟩ := Option.map_eq_some_iff.mp h
    refine .inr (.inr ⟨t, ht, rfl, fun hpage => ?_⟩)
    cases AccountSession.State.Callback.of_onReply ht with
    | failed _ _ => rfl
    | profileFailed _ _ => rfl
    | profile page UserID document =>
      cases page with
      | true => exact absurd rfl (hprofile UserID document rfl)
      | false => cases hpage
    | avatar page UserID data =>
      cases page with
      | true => exact absurd rfl (havatar UserID data rfl)
      | false => cases hpage
    | _ => cases hpage

/-- What a reply that meets `Settles` makes of the page. -/
theorem onReply_settles {q : Page} {k : ℕ} {link : Link} {reply : Reply}
    (hloading : Loading p) (hrunning : p.app.running = true) (hlink : p.app.link n k = some link)
    (hC : Settles p (.reply n k reply)) (h : (p.answer n k).onReply n link reply = some q) :
    q.asked = p.asked ∧ Loading q := by
  obtain ⟨hmarked, hleaves⟩ := hC link hlink
  have hbut (hpage : onPage link = true → leavesOn link reply = true) (hload : p.aivLoad = true) :
      OutBut p.app n k := by
    obtain ⟨m, j, link', hlink', hpage'⟩ := hloading hrunning hload
    by_cases hsame : (m, j) = (n, k)
    · cases hsame
      obtain rfl : link = link' := Option.some.inj (hlink.symm.trans hlink')
      exact (hleaves (hpage hpage')).resolve_left (by simp [hload])
    · exact ⟨m, j, link', hsame, hlink', hpage'⟩
  rcases onReply_cases h with ⟨UserID, document, rfl, rfl, rfl⟩ | ⟨UserID, data, rfl, rfl, rfl⟩ |
    ⟨t, ht, rfl, hpage⟩
  · cases document with
    | none =>
      exact ⟨rfl, loading_kept (fun _ _ _ hl => hl) (hbut fun _ => rfl)⟩
    | some data =>
      unfold onProfile
      dsimp only
      split_ifs with hempty
      · exact downloaded_cleared hrunning (hmarked (decide_eq_true hempty))
      · refine ⟨rfl, fun hrun _ => ?_⟩
        have hlt : n < ((p.answer n k).app.setFields data).sessions.length :=
          (AccountSession.State.modify_length p.app n _).symm ▸ AccountSession.State.link_lt hlink
        obtain ⟨j, UserID', hsent⟩ := askAvatar_sent hlt hrun
        exact ⟨n, j, _, hsent, rfl⟩
  · exact downloaded_cleared hrunning rfl
  · refine ⟨rfl, loading_kept (p := p) (AccountSession.State.Callback.of_onReply ht).placed.linksKept
      (hbut ?_)⟩
    intro hp
    obtain rfl := hpage hp
    cases link with
    | profile page UserID =>
      cases page with
      | true => rfl
      | false => cases hp
    | avatar page UserID =>
      cases page with
      | true => rfl
      | false => cases hp
    | _ => cases hp

end Page

theorem step_settles {p q : Page} {n k : ℕ} {reply : Reply} (hloading : Loading p)
    (hC : Settles p (.reply n k reply)) (h : step p (.reply n k reply) = some q) :
    q.asked = p.asked ∧ Loading q := by
  unfold step at h
  dsimp only at h
  split_ifs at h with hrunning
  obtain ⟨link, hlink, hreply⟩ := Option.bind_eq_some_iff.mp h
  exact Page.onReply_settles hloading hrunning hlink hC hreply

theorem step_action {p q : Page} {a : Action} (h : step p (.action a) = some q) :
    p.act a = some q := by
  unfold step at h
  dsimp only at h
  split_ifs at h
  exact h

/-- Replies that meet `Settles` ask for nothing. -/
theorem replies_settle {p q : Page} {es : List Event} (hreplies : ∀ e ∈ es, e.isAction = false)
    (hloading : Loading p) (hC : Along step Settles p es) (hrun : run step p es = some q) :
    q.asked = p.asked ∧ Loading q := by
  induction es generalizing p with
  | nil =>
    obtain rfl := Option.some.inj hrun
    exact ⟨rfl, hloading⟩
  | cons e es ih =>
    obtain ⟨p', hp', hrun'⟩ := (run_cons_eq_some step).mp hrun
    obtain ⟨he, hrest⟩ := hC
    cases e with
    | action a => cases hreplies _ List.mem_cons_self
    | reply n k reply =>
      obtain ⟨hasked, hloading'⟩ := step_settles hloading he hp'
      obtain ⟨hasked', hq⟩ := ih (fun e he => hreplies e (List.mem_cons_of_mem _ he)) hloading'
        (hrest p' hp') hrun'
      exact ⟨hasked'.trans hasked, hq⟩

/-- An appearance of the page, the first one with the loading of its view. -/
def appearance (first : Bool) : List Event :=
  if first then [.action .accountDidLoad, .action .accountWillAppear]
  else [.action .accountWillAppear]

theorem sessions_pos {luser : List LUser} {es : List Event} {p : Page}
    (hrun : run step (launch luser) es = some p) : 0 < p.app.sessions.length := by
  refine run_invariant step (I := fun p => 0 < p.app.sessions.length) ?_ ?_
    (along_true step (launch luser) es) hrun
  · rw [launch, AccountSession.launch, (AccountSession.State.grows_start luser [{}]).length]
    exact one_pos
  · intro p e q hpos _ hs
    have happ : AccountSession.step p.app e = some q.app := by rw [← step_app, hs, Option.map_some]
    exact (AccountSession.step_opened hpos happ).1

structure Marked (p : Page) : Prop where
  sessions : 0 < p.app.sessions.length
  signedIn : p.app.UserID ≠ none
  down : p.app.localAccount.isDownAvatar = true

namespace Marked
variable {p : Page} (h : Marked p)
include h

theorem downAccount_eq (n : ℕ) : ∃ UserID, p.app.UserID = some UserID ∧
    p.downAccount n = ⟨p.app.send n [.profile true UserID], true, p.asked + 1⟩ := by
  obtain ⟨UserID, hUserID⟩ := Option.ne_none_iff_exists'.mp h.signedIn
  refine ⟨UserID, hUserID, ?_⟩
  rw [Page.downAccount, if_pos ⟨h.down, h.signedIn⟩]
  simp only [AccountSession.State.downAccount, hUserID, h.down, if_true]

/-- `downAccount` asks for the document and leaves the account marked. -/
theorem downAccount : Marked (p.downAccount p.app.current) ∧
    (p.downAccount p.app.current).asked = p.asked + 1 ∧ Loading (p.downAccount p.app.current) := by
  obtain ⟨UserID, hUserID, heq⟩ := h.downAccount_eq p.app.current
  rw [heq]
  have hlt : p.app.current < p.app.sessions.length := Nat.sub_lt h.sessions one_pos
  refine ⟨⟨?_, h.signedIn, h.down⟩, rfl, fun _ _ => ?_⟩
  · exact (AccountSession.State.modify_length p.app p.app.current _).symm ▸ h.sessions
  · obtain ⟨j, hj⟩ := AccountSession.State.link_send hlt (.profile true UserID)
    exact ⟨_, j, _, hj, rfl⟩

theorem willAppear {q : Page} (hq : step p (.action .accountWillAppear) = some q) :
    q.asked = p.asked + 1 ∧ Loading q := by
  obtain rfl := Option.some.inj (step_action hq)
  unfold Page.willAppear
  dsimp only
  rw [if_neg h.signedIn]
  exact h.downAccount.2

/-- An appearance asks for the document once or twice. -/
theorem appears {first : Bool} {q : Page} (hq : run step p (appearance first) = some q) :
    q.asked ≤ p.asked + 2 ∧ Loading q := by
  cases first with
  | false =>
    obtain ⟨q', hq', hrun⟩ := (run_cons_eq_some step).mp hq
    obtain rfl := Option.some.inj hrun
    obtain ⟨hasked, hloading⟩ := h.willAppear hq'
    exact ⟨by omega, hloading⟩
  | true =>
    obtain ⟨p₁, hp₁, hrun⟩ := (run_cons_eq_some step).mp hq
    obtain ⟨q', hq', hrun'⟩ := (run_cons_eq_some step).mp hrun
    obtain rfl := Option.some.inj hrun'
    have hset : p₁ = p.setAccount p.app.current := (Option.some.inj (step_action hp₁)).symm
    unfold Page.setAccount at hset
    cases hname : p.app.localAccount.fullName with
    | none =>
      -- the page has trapped and does not appear
      rw [hname] at hset
      subst hset
      simp [step, AccountSession.State.trap] at hq'
    | some fullName =>
      rw [hname] at hset
      dsimp only at hset
      rw [if_pos ⟨h.down, h.signedIn⟩] at hset
      subst hset
      obtain ⟨hmarked, hasked, -⟩ := h.downAccount
      obtain ⟨hasked', hloading⟩ := hmarked.willAppear hq'
      exact ⟨by omega, hloading⟩

end Marked

/-- From every state in which the account is marked, an appearance whose replies meet `Settles` asks
for at most two documents, and with no request in flight the indicator is off. -/
theorem appearance_settles (luser : List LUser) (es₀ : List Event) (p : Page)
    (hrun₀ : run step (launch luser) es₀ = some p) (hsignedIn : p.app.UserID ≠ none)
    (hdown : p.app.localAccount.isDownAvatar = true) (first : Bool) (es : List Event)
    (hreplies : ∀ e ∈ es, e.isAction = false) (q : Page)
    (hC : Along step Settles p (appearance first ++ es))
    (hrun : run step p (appearance first ++ es) = some q) :
    q.asked ≤ p.asked + 2 ∧ (q.app.Idle → q.app.running = true → q.aivLoad = false) := by
  have hmarked : Marked p := ⟨sessions_pos hrun₀, hsignedIn, hdown⟩
  rw [run_append, Option.bind_eq_some_iff] at hrun
  obtain ⟨q₀, hq₀, hrun⟩ := hrun
  have hC' := ((along_append step).mp hC).2 q₀ hq₀
  obtain ⟨hasked₀, hloading₀⟩ := hmarked.appears hq₀
  obtain ⟨hasked, hloading⟩ := replies_settle hreplies hloading₀ hC' hrun
  refine ⟨by omega, fun hidle hrunning => ?_⟩
  by_contra hload
  obtain ⟨m, j, link, hlink, -⟩ := hloading hrunning (Bool.eq_true_of_not_eq_false hload)
  exact AccountSession.State.not_idle_of_link hlink hidle

def documentWith (avatarUrl : String) : UserDocument where
  fullName := some "An"
  gender := some "Other"
  birthday := some "01/01/2000"
  email := some "a@gmail.com"
  avatarUrl := some avatarUrl
  comicHistory := some []
  comicLike := some []

theorem userRamToRealm_eq (s : AccountSession.State) :
    ∃ luser, s.userRamToRealm = { s with luser := luser } := by
  unfold AccountSession.State.userRamToRealm
  split <;> exact ⟨_, rfl⟩

/-- A download that ends with the account marked asks for the document again. -/
theorem downloaded_marked {p : Page} {n : ℕ} (h : Marked p) (hrunning : p.app.running = true)
    (hname : p.app.localAccount.fullName ≠ none) : ∃ UserID luser, p.downloaded n =
      ⟨{ p.app.send n [.profile true UserID] with luser := luser }, false, p.asked + 1⟩ := by
  obtain ⟨UserID, -, heq⟩ := h.downAccount_eq n
  obtain ⟨luser, hstore⟩ := userRamToRealm_eq (p.app.send n [.profile true UserID])
  refine ⟨UserID, luser, ?_⟩
  have hset : p.setAccount n = ⟨p.app.send n [.profile true UserID], true, p.asked + 1⟩ := by
    obtain ⟨fullName, hfullName⟩ := Option.ne_none_iff_exists'.mp hname
    unfold Page.setAccount
    rw [hfullName, ← heq]
    exact if_pos ⟨h.down, h.signedIn⟩
  have hrun : (p.app.send n [.profile true UserID]).running = true := hrunning
  simp only [Page.downloaded, hset, if_pos hrun, hstore]

/-- As long as the account is marked, a profile without an avatar is asked for again. -/
theorem asks_again {p : Page} {n k : ℕ} {UserID : String} (h : Marked p)
    (hrunning : p.app.running = true) (hlink : p.app.link n k = some (.profile true UserID)) :
    ∃ q, step p (.reply n k (.user (some (documentWith "")))) = some q ∧ q.asked = p.asked + 1 ∧
      Marked q ∧ q.app.running = true ∧
      ∃ j UserID', q.app.link n j = some (.profile true UserID') := by
  have hlength : (p.app.answer n k).sessions.length = p.app.sessions.length :=
    AccountSession.State.modify_length p.app n _
  have hmarked : Marked
      (p.setApp (((p.app.answer n k).setFields (documentWith "")).setAvatar none)) :=
    ⟨hlength.symm ▸ h.sessions, h.signedIn, h.down⟩
  obtain ⟨UserID', luser, heq⟩ := downloaded_marked (n := n) hmarked hrunning nofun
  refine ⟨(p.answer n k).onProfile n (some (documentWith "")), ?_, ?_⟩
  · rw [step, if_pos hrunning, hlink]
    rfl
  have hq : (p.answer n k).onProfile n (some (documentWith "")) = _ := heq
  have hlt : n < (p.app.answer n k).sessions.length :=
    hlength.symm ▸ AccountSession.State.link_lt hlink
  obtain ⟨j, hj⟩ := AccountSession.State.link_send
    (s := ((p.app.answer n k).setFields (documentWith "")).setAvatar none) hlt
    (.profile true UserID')
  rw [hq]
  refine ⟨rfl, ⟨?_, h.signedIn, h.down⟩, hrunning, j, UserID', hj⟩
  exact (AccountSession.State.modify_length _ n _).symm ▸ hmarked.sessions

/-- No number bounds what an appearance asks for when the profile has no avatar. -/
theorem asks_unboundedly {p : Page} {n k : ℕ} {UserID : String} (h : Marked p)
    (hrunning : p.app.running = true) (hlink : p.app.link n k = some (.profile true UserID))
    (K : ℕ) : ∃ es q, (∀ e ∈ es, Event.isAction e = false) ∧ run step p es = some q ∧
      q.asked = p.asked + K := by
  induction K generalizing p k UserID with
  | zero => exact ⟨[], p, nofun, rfl, rfl⟩
  | succ K ih =>
    obtain ⟨q, hstep, hasked, hmarked, hrun, j, UserID', hj⟩ := asks_again h hrunning hlink
    obtain ⟨es, q', hes, hq', hasked'⟩ := ih hmarked hrun hj
    refine ⟨_ :: es, q', ?_, (run_cons_eq_some step).mpr ⟨q, hstep, hq'⟩, by omega⟩
    exact List.forall_mem_cons.mpr ⟨rfl, hes⟩

def signIn : List Event := [.action .login, .action .loginTapped, .reply 1 0 (.uid "a")]

def afterSignIn : Page := (run step (launch []) signIn).get (by decide +kernel)

def afterAppearance : Page := (run step afterSignIn (appearance false)).get (by decide +kernel)

def avatarLoaded : List Event :=
  [.reply 1 2 (.user (some (documentWith "User/a.jpg"))), .reply 1 3 (.data [1])]

def afterAvatar : Page :=
  (run step afterSignIn (appearance false ++ avatarLoaded)).get (by decide +kernel)

theorem settles_avatarLoaded :
    Along step Settles afterSignIn (appearance false ++ avatarLoaded) := by
  refine ⟨trivial, fun p₁ h₁ => ?_⟩
  obtain rfl := Option.some.inj h₁
  refine ⟨?_, fun p₂ h₂ => ?_⟩
  · intro link hlink
    cases hlink
    exact ⟨by decide, fun hon => by cases hon⟩
  obtain rfl := Option.some.inj h₂
  refine ⟨?_, fun p₃ h₃ => trivial⟩
  intro link hlink
  cases hlink
  exact ⟨by decide, fun hon => by cases hon⟩

theorem appearance_settles_avatarLoaded : afterAvatar.asked ≤ afterSignIn.asked + 2 ∧
    (afterAvatar.app.Idle → afterAvatar.app.running = true → afterAvatar.aivLoad = false) :=
  appearance_settles [] signIn afterSignIn (Option.some_get _).symm (by decide +kernel)
    (by decide +kernel) false avatarLoaded (by decide) afterAvatar settles_avatarLoaded
    (Option.some_get _).symm

theorem not_appearance_settles :
    ¬ ∀ (luser : List LUser) (es₀ : List Event) (p : Page), run step (launch luser) es₀ = some p →
      p.app.UserID ≠ none → p.app.localAccount.isDownAvatar = true → ∀ first : Bool,
      ∃ K, ∀ es q, (∀ e ∈ es, Event.isAction e = false) →
        run step p (appearance first ++ es) = some q →
        q.asked ≤ K ∧ (q.app.Idle → q.app.running = true → q.aivLoad = false) := by
  intro h
  obtain ⟨K, hK⟩ := h [] signIn afterSignIn (Option.some_get _).symm (by decide +kernel)
    (by decide +kernel) false
  have hmarked : Marked afterAppearance := ⟨by decide +kernel, by decide +kernel, by decide +kernel⟩
  have hlink : afterAppearance.app.link 1 2 = some (.profile true "a") := by decide +kernel
  obtain ⟨es, q, hes, hrun, hasked⟩ :=
    asks_unboundedly hmarked (by decide +kernel) hlink (K + 1)
  have happeared : run step afterSignIn (appearance false) = some afterAppearance :=
    (Option.some_get _).symm
  have hq : run step afterSignIn (appearance false ++ es) = some q := by
    rw [run_append, happeared, Option.bind_some, hrun]
  have hbound := (hK es q hes hq).1
  omega

end ComicApp.AccountPage
