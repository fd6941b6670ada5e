import ComicApp.AccountSteps
import ComicApp.Purge

/-!
# What an account leaves behind

Opening the login page empties the account, the shelf lists and the store, but the callbacks of the
requests that are out by then still write to them, and an info page opened before keeps what the
likes of the old account made of its button. As long as none of these callbacks gets what it waits
for and no such button is tapped, the app goes on as if it had been started at the login page.
-/

namespace ComicApp.AccountSession
open EventMachine

namespace State

def accountData (s : State) : List (Option DComic) × List (Option DComic) × User × List LUser :=
  (s.listHistory.map s.comic, s.listLike.map s.comic, s.localAccount, s.luser)

def Idle (s : State) : Prop := ∀ S ∈ s.sessions, ∀ link ∈ S.links, link = none

instance (s : State) : Decidable s.Idle :=
  inferInstanceAs (Decidable (∀ S ∈ s.sessions, ∀ link ∈ S.links, link = none))

theorem not_idle_of_link {s : State} {n k : ℕ} {l : Link} (hl : s.link n k = some l) :
    ¬ s.Idle := by
  intro hidle
  obtain ⟨S, hS, hj⟩ := Option.bind_eq_some_iff.mp (Option.join_eq_some_iff.mp hl)
  cases hidle S (List.mem_of_getElem? hS) _ (List.mem_of_getElem? hj)

/-- The reply does not bring what the callback writes to the account, the lists or the store, or
signs in with: mostly it is an error. A document that only leads to further requests is harmless if
it has the fields the callback unwraps. -/
def unheard (s : State) (n : ℕ) : Link → Reply → Bool
  | .profile _ _, .error => !s.localAccount.isDownAvatar
  | .profile _ _, .user document => document.isNone
  | .userDocument _, .user document =>
    (document.bind UserDocument.comicHistory).isSome && (document.bind UserDocument.comicLike).isSome
  | .comicDocument chain _, .comic document =>
    chain ≠ .Like && document = none || (document.bind ComicDocument.posterPath).isSome
  | .infoDocument _, .comic document =>
    (document.bind ComicDocument.author).isSome && (document.bind ComicDocument.category).isSome
  | .item tmp, .data _ => s.listHistory.any fun r => s.idComic r = s.idComic (n, tmp)
  | .putData _, .metadata => s.localAccount.isDownAvatar
  | .downloadURL _, .url _ => s.UserID.isSome
  | .listAll _, .listing _ => true
  | _, .error => true
  | _, _ => false

end State

/-- A reply to a link of a chain started before session `N` goes unheard, and no account likes a
comic on an info page opened before. -/
def Quiet (N : ℕ) (s : State) : Event → Prop
  | .reply n k reply => N ≤ n ∨ ∀ link ∈ s.link n k, s.unheard n link reply = true
  | .action (.Like n _) => N ≤ n ∨ s.UserID = none
  | .action _ => True

instance decidableQuiet (N : ℕ) (s : State) : ∀ e, Decidable (Quiet N s e)
  | .reply n k reply => inferInstanceAs
    (Decidable (N ≤ n ∨ ∀ link ∈ s.link n k, s.unheard n link reply = true))
  | .action (.Like n _) => inferInstanceAs (Decidable (N ≤ n ∨ s.UserID = none))
  | .action .login | .action .loginTapped | .action .CancelLogin | .action .signUpTapped
  | .action .accountDidLoad | .action .accountWillAppear | .action (.Save _)
  | .action (.select _) | .action .viewDidLoad | .action (.pathUpdate _)
  | .action .relaunch => .isTrue trivial

namespace State
variable {N n : ℕ} {s t : State}

theorem since_downloadComics_of_lt (hn : n < N) (s : State) (chain : Chain)
    (listString : List String) : (s.downloadComics n chain listString).since N = s.since N := by
  induction listString generalizing s with
  | nil => rfl
  | cons idComic listString ih =>
    rw [downloadComics, ih]
    exact since_modify_of_lt s hn _

theorem since_send_of_lt (hn : n < N) (s : State) (links : List Link) :
    (s.send n links).since N = s.since N :=
  since_modify_of_lt s hn _

theorem since_write_of_lt (hn : n < N) (s : State) (comic : ℕ) (f : DComic → DComic) :
    (s.write n comic f).since N = s.since N :=
  since_modify_of_lt s hn _

theorem idComic_write (s : State) (m k : ℕ) {f : DComic → DComic}
    (hf : ∀ comic, (f comic).idComic = comic.idComic) (r : Ref) :
    (s.write m k f).idComic r = s.idComic r := by
  simp only [idComic, comic, write, modify, List.getElem?_modify]
  cases s.sessions[r.1]? with
  | none => rfl
  | some S =>
    by_cases hm : m = r.1
    · by_cases hk : k = r.2
      · cases h : S.objects[r.2]? <;> simp [hm, hk, h, hf]
      · simp [hm, hk]
    · simp [hm]

theorem idComic_answer (s : State) (m k : ℕ) (r : Ref) : (s.answer m k).idComic r = s.idComic r := by
  simp only [idComic, comic, answer, modify, List.getElem?_modify]
  cases s.sessions[r.1]? with
  | none => rfl
  | some S => by_cases hm : m = r.1 <;> simp [hm]

theorem unheard_answer (s : State) (k : ℕ) (link : Link) (reply : Reply) :
    (s.answer n k).unheard n link reply = s.unheard n link reply := by
  unfold unheard
  simp only [idComic_answer]
  rfl

theorem setDownAvatar_eq {isDownAvatar : Bool} (h : s.localAccount.isDownAvatar = isDownAvatar) :
    s.setDownAvatar isDownAvatar = s := by
  subst h
  rfl

/-- A reply that goes unheard changes nothing outside the older sessions. -/
theorem Callback.since_eq {link : Link} {reply : Reply} (h : Callback s n link reply t) (hn : n < N)
    (hu : s.unheard n link reply = true) : t.since N = s.since N := by
  cases h with
  | failed link hlink => rfl
  | profileFailed onPage UserID =>
    have hdown : s.localAccount.isDownAvatar = false := by simpa [unheard] using hu
    rw [setDownAvatar_eq hdown]
  | userDocument UserID document =>
    simp only [unheard, Bool.and_eq_true, Option.isSome_iff_exists] at hu
    obtain ⟨⟨listString, hhistory⟩, listString2, hlike⟩ := hu
    simp only [onUserDocument, hhistory, hlike]
    rw [since_downloadComics_of_lt hn, since_downloadComics_of_lt hn]
  | comicDocument chain comic document =>
    simp only [unheard, Bool.or_eq_true, Bool.and_eq_true, decide_eq_true_eq,
      Option.isSome_iff_exists] at hu
    unfold onComicDocument
    split_ifs with hmissing
    · rfl
    · obtain ⟨posterPath, hposter⟩ := hu.resolve_left hmissing
      simp only [hposter]
      rw [since_send_of_lt hn, since_write_of_lt hn]
  | poster chain comic data => cases hu
  | infoDocument tmp document =>
    simp only [unheard, Bool.and_eq_true, Option.isSome_iff_exists] at hu
    obtain ⟨⟨author, hauthor⟩, category, hcategory⟩ := hu
    simp only [onInfoDocument, hauthor, hcategory]
    exact since_write_of_lt hn s tmp _
  | listAll tmp reply =>
    unfold onListAll
    dsimp only
    split_ifs
    · exact since_send_of_lt hn s _
    · rw [since_send_of_lt hn, since_write_of_lt hn]
  | item tmp data =>
    obtain ⟨r, hr, hid⟩ := List.any_eq_true.mp hu
    have hsame (r : Ref) := idComic_write s n tmp (f := fun tmp => { tmp with poster := some data })
      (fun _ => rfl) r
    unfold onItem
    dsimp only
    rw [if_pos ⟨r, hr, by rw [hsame, hsame, of_decide_eq_true hid]⟩]
    exact since_write_of_lt hn s tmp _
  | profile onPage UserID document =>
    obtain rfl := Option.isNone_iff_eq_none.mp hu
    rfl
  | avatar onPage UserID data => cases hu
  | signIn uid => cases hu
  | createUser uid => cases hu
  | putData UserID =>
    have hdown : (s.send n [.downloadURL UserID]).localAccount.isDownAvatar = true := hu
    rw [onPutData, setDownAvatar_eq hdown, since_send_of_lt hn]
  | downloadURL picture url =>
    obtain ⟨UserID, hin⟩ := Option.isSome_iff_exists.mp hu
    simp only [onDownloadURL, hin]
    exact since_modify_of_lt s hn _

/-- The recent part of the state shows the account data. -/
theorem accountData_since (hrecent : Recent N s) : (s.since N).accountData = s.accountData := by
  have hhistory : s.listHistory.map (s.since N).comic = s.listHistory.map s.comic :=
    List.map_congr_left fun r hr => since_comic s (hrecent.listHistory r hr)
  have hlike : s.listLike.map (s.since N).comic = s.listLike.map s.comic :=
    List.map_congr_left fun r hr => since_comic s (hrecent.listLike r hr)
  simp only [accountData, since_listHistory, since_listLike, since_localAccount, since_luser,
    hhistory, hlike]

theorem Recent.of_since_eq (h : Recent N s) (heq : t.since N = s.since N) : Recent N t where
  lt := by
    rw [← since_length (N := N) t, heq, since_length]
    exact h.lt
  listHistory r hr := by
    rw [← since_listHistory (N := N) t, heq] at hr
    exact h.listHistory r hr
  listLike r hr := by
    rw [← since_listLike (N := N) t, heq] at hr
    exact h.listLike r hr

end State

theorem step_unheard {N : ℕ} {s t : State} {e : Event} (hq : Quiet N s e) (he : e.since N = false)
    (h : step s e = some t) : t.since N = s.since N := by
  cases e with
  | reply n k reply =>
    have hn : n < N := Nat.lt_of_not_le (of_decide_eq_false he)
    obtain ⟨-, link, hlink, hcallback⟩ := step_reply h
    have hu := hq.resolve_left (Nat.not_le.mpr hn) link hlink
    rw [hcallback.since_eq hn ((State.unheard_answer s k link reply).trans hu)]
    exact State.since_modify_of_lt s hn _
  | action a =>
    cases a with
    | Like n p =>
      have hn : n < N := Nat.lt_of_not_le (of_decide_eq_false he)
      have hout : s.UserID = none := hq.resolve_left (Nat.not_le.mpr hn)
      obtain ⟨tag, -, rfl⟩ := Option.map_eq_some_iff.mp (step_action h).2
      simp only [State.onLike, hout]
    | _ => cases he

/-- From the login page on, a quiet run is followed by the run that starts there and gets the events
of the new session only. -/
theorem follows_since (N : ℕ) :
    Follows step step (State.since N) (Event.since N) (Quiet N) (State.Recent N) where
  keeps := by
    intro s e t hrecent hq h
    cases he : e.since N with
    | true => exact (step_since hrecent he h).1
    | false => exact hrecent.of_since_eq (step_unheard hq he h)
  seen hrecent _ he h := (step_since hrecent he h).2
  unseen _ hq he h := step_unheard hq he h

def Event.isAction : Event → Bool
  | .action _ => true
  | .reply _ _ _ => false

theorem follows_opened :
    Follows step opened (fun s => (s.sessions.length, s.id)) Event.isAction (fun _ _ => True)
      (fun s => 0 < s.sessions.length) where
  keeps hlt _ h := (step_opened hlt h).1
  seen hlt _ _ h := (step_opened hlt h).2
  unseen := by
    intro s e t hlt _ he h
    cases e with
    | action a => cases he
    | reply n k reply => exact (Option.some.inj (step_opened hlt h).2).symm

theorem recent_setElement (s : State) : s.setElement.Recent s.sessions.length where
  lt := by simp [State.setElement]
  listHistory := by simp [State.setElement]
  listLike := by simp [State.setElement]

/-- The login page forgets all but the number of sessions and `Comic.id`. -/
theorem since_setElement_eq {s₁ s₂ : State} (hlength : s₁.sessions.length = s₂.sessions.length)
    (hid : s₁.id = s₂.id) (hrun : s₁.running = s₂.running) :
    s₁.setElement.since s₁.sessions.length = s₂.setElement.since s₁.sessions.length := by
  have hsessions : (s₁.sessions ++ [({} : Session)]).mapIdx
        (fun n S => if n < s₁.sessions.length then ({} : Session) else S) =
      (s₂.sessions ++ [({} : Session)]).mapIdx
        (fun n S => if n < s₁.sessions.length then ({} : Session) else S) := by
    apply List.ext_getElem (by simp [hlength])
    intro m h₁ h₂
    simp only [List.getElem_mapIdx]
    split_ifs with hm
    · rfl
    · rw [List.getElem_append_right (by omega), List.getElem_append_right (by omega)]
      simp
  simp only [State.since, State.setElement, hid, hrun, hsessions]

/-- Two runs with the same actions up to the opening of the login page, and with the same actions
and the same replies in the session that it starts. -/
structure Switched (luser₁ luser₂ : List LUser) (es₁ es₂ fs₁ fs₂ : List Event)
    (s₁ s₂ t₁ t₂ : State) : Prop where
  before₁ : run step (launch luser₁) es₁ = some s₁
  before₂ : run step (launch luser₂) es₂ = some s₂
  actions : es₁.filter Event.isAction = es₂.filter Event.isAction
  after₁ : run step s₁ (.action .login :: fs₁) = some t₁
  after₂ : run step s₂ (.action .login :: fs₂) = some t₂
  events : fs₁.filter (Event.since s₁.sessions.length) = fs₂.filter (Event.since s₁.sessions.length)

/-- No reply to a link of a chain started before session `N` changes the account data. -/
def Untouched (N : ℕ) : State → List Event → Prop :=
  Along step fun s e => e.since N = false → ∀ t, step s e = some t → t.accountData = s.accountData

theorem run_login {s t : State} {fs : List Event}
    (h : run step s (.action .login :: fs) = some t) :
    s.running = true ∧ run step s.setElement fs = some t := by
  obtain ⟨u, hu, hrun⟩ := (run_cons_eq_some step).mp h
  obtain ⟨hrunning, hact⟩ := step_action hu
  obtain rfl := Option.some.inj hact
  exact ⟨hrunning.resolve_right nofun, hrun⟩

theorem untouched_of_quiet {N : ℕ} {s : State} {fs : List Event} (hrecent : s.Recent N)
    (hq : Along step (Quiet N) s fs) : Untouched N s fs := by
  refine along_of_invariant step (fun _ _ _ => (follows_since N).keeps) ?_ hrecent hq
  intro s e hrecent hq he t h
  have hsame := step_unheard hq he h
  rw [← State.accountData_since hrecent, ← hsame,
    State.accountData_since (hrecent.of_since_eq hsame)]

namespace Switched
variable {luser₁ luser₂ : List LUser} {es₁ es₂ fs₁ fs₂ : List Event} {s₁ s₂ t₁ t₂ : State}

/-- The same actions open as many sessions and leave the same `Comic.id`. -/
theorem opened_eq (h : Switched luser₁ luser₂ es₁ es₂ fs₁ fs₂ s₁ s₂ t₁ t₂) :
    s₁.sessions.length = s₂.sessions.length ∧ s₁.id = s₂.id := by
  have hlaunch (luser : List LUser) :
      (launch luser).sessions.length = 1 ∧ (launch luser).id = none := by
    have hgrows := State.grows_start luser [{}]
    exact ⟨hgrows.length, hgrows.id⟩
  have hview := follows_opened.view_eq (by rw [(hlaunch luser₁).1]; exact one_pos)
    (by rw [(hlaunch luser₂).1]; exact one_pos)
    (by simp only [(hlaunch luser₁).1, (hlaunch luser₂).1, (hlaunch luser₁).2, (hlaunch luser₂).2])
    h.actions (along_true step _ _) (along_true step _ _) h.before₁ h.before₂
  exact Prod.ext_iff.mp hview

end Switched

/-- Runs that are quiet from the login page on end with the same account data, whatever the old
account left in the app, and no reply to one of its requests changes them. -/
theorem account_switched {luser₁ luser₂ : List LUser} {es₁ es₂ fs₁ fs₂ : List Event}
    {s₁ s₂ t₁ t₂ : State} (h : Switched luser₁ luser₂ es₁ es₂ fs₁ fs₂ s₁ s₂ t₁ t₂)
    (hq₁ : Along step (Quiet s₁.sessions.length) s₁.setElement fs₁)
    (hq₂ : Along step (Quiet s₁.sessions.length) s₂.setElement fs₂) :
    t₁.accountData = t₂.accountData ∧ Untouched s₁.sessions.length s₁.setElement fs₁ ∧
      Untouched s₁.sessions.length s₂.setElement fs₂ := by
  obtain ⟨hlength, hid⟩ := h.opened_eq
  obtain ⟨hrun₁, hafter₁⟩ := run_login h.after₁
  obtain ⟨hrun₂, hafter₂⟩ := run_login h.after₂
  have hrecent₁ := recent_setElement s₁
  have hrecent₂ : s₂.setElement.Recent s₁.sessions.length := hlength ▸ recent_setElement s₂
  refine ⟨?_, untouched_of_quiet hrecent₁ hq₁, untouched_of_quiet hrecent₂ hq₂⟩
  have hfollows := follows_since s₁.sessions.length
  have hview := hfollows.view_eq hrecent₁ hrecent₂
    (since_setElement_eq hlength hid (hrun₁.trans hrun₂.symm)) h.events hq₁ hq₂ hafter₁ hafter₂
  have hend₁ : t₁.Recent s₁.sessions.length :=
    run_invariant step hrecent₁ (fun _ _ _ => hfollows.keeps) hq₁ hafter₁
  have hend₂ : t₂.Recent s₁.sessions.length :=
    run_invariant step hrecent₂ (fun _ _ _ => hfollows.keeps) hq₂ hafter₂
  rw [← State.accountData_since hend₁, hview, State.accountData_since hend₂]

def documentOf (fullName : String) (comicHistory : List String) : UserDocument where
  fullName := some fullName
  gender := some "Other"
  birthday := some "01/01/2000"
  email := some "a@gmail.com"
  avatarUrl := some ""
  comicHistory := some comicHistory
  comicLike := some []

def documentB : UserDocument where
  fullName := some "Binh"
  gender := some "Male"
  birthday := some "02/02/2000"
  email := some "b@gmail.com"
  avatarUrl := some "User/b.jpg"
  comicHistory := some []
  comicLike := some []

def storeOf (fullName : String) : List LUser :=
  [⟨some fullName, some "Other", some "a@gmail.com", some "01/01/2000", none, some "a"⟩]

def beforeLogin (fullName : String) (comicHistory : List String) : List Event :=
  [.action (.pathUpdate true), .reply 0 0 (.user (some (documentOf fullName comicHistory)))]

def signInB : List Event :=
  [.action .loginTapped, .reply 1 0 (.uid "b"), .action .accountWillAppear,
    .reply 1 1 (.user (some documentB)), .reply 1 2 (.user (some documentB)),
    .reply 1 3 (.data [1])]

/-- The profile of the old account arrives before the login page is opened, and what is asked for
its history fails after it. -/
def quietSwitch (fullName idComic : String) : List Event × List Event :=
  (beforeLogin fullName [idComic] ++
    [.reply 0 1 (.user (some (documentOf fullName [idComic])))],
    signInB ++ [.reply 0 2 .error])

/-- The profile of the old account arrives last. -/
def lateSwitch (fullName : String) : List Event × List Event :=
  (beforeLogin fullName [], signInB ++ [.reply 0 1 (.user (some (documentOf fullName [])))])

def atLogin (luser : List LUser) (switch : List Event × List Event) : Option State :=
  run step (launch luser) switch.1

def atEnd (luser : List LUser) (switch : List Event × List Event) : Option State :=
  (atLogin luser switch).bind fun s => run step s (.action .login :: switch.2)

theorem account_switched_quiet :
    ((atEnd (storeOf "An") (quietSwitch "An" "x")).get (by decide +kernel)).accountData =
      ((atEnd (storeOf "Vy") (quietSwitch "Vy" "y")).get (by decide +kernel)).accountData := by
  have hswitched : Switched (storeOf "An") (storeOf "Vy") (quietSwitch "An" "x").1
      (quietSwitch "Vy" "y").1 (quietSwitch "An" "x").2 (quietSwitch "Vy" "y").2
      ((atLogin (storeOf "An") (quietSwitch "An" "x")).get (by decide +kernel))
      ((atLogin (storeOf "Vy") (quietSwitch "Vy" "y")).get (by decide +kernel))
      ((atEnd (storeOf "An") (quietSwitch "An" "x")).get (by decide +kernel))
      ((atEnd (storeOf "Vy") (quietSwitch "Vy" "y")).get (by decide +kernel)) :=
    { before₁ := (Option.some_get _).symm
      before₂ := (Option.some_get _).symm
      actions := by decide +kernel
      after₁ := by decide +kernel
      after₂ := by decide +kernel
      events := by decide +kernel }
  exact (account_switched hswitched (by decide +kernel) (by decide +kernel)).1

theorem not_account_switched :
    ¬ ∀ luser₁ luser₂ es₁ es₂ fs₁ fs₂ s₁ s₂ t₁ t₂,
      Switched luser₁ luser₂ es₁ es₂ fs₁ fs₂ s₁ s₂ t₁ t₂ → t₁.Idle → t₂.Idle →
        t₁.accountData = t₂.accountData := by
  intro h
  have hswitched : Switched (storeOf "An") (storeOf "Vy") (lateSwitch "An").1 (lateSwitch "Vy").1
      (lateSwitch "An").2 (lateSwitch "Vy").2
      ((atLogin (storeOf "An") (lateSwitch "An")).get (by decide +kernel))
      ((atLogin (storeOf "Vy") (lateSwitch "Vy")).get (by decide +kernel))
      ((atEnd (storeOf "An") (lateSwitch "An")).get (by decide +kernel))
      ((atEnd (storeOf "Vy") (lateSwitch "Vy")).get (by decide +kernel)) :=
    { before₁ := (Option.some_get _).symm
      before₂ := (Option.some_get _).symm
      actions := by decide +kernel
      after₁ := by decide +kernel
      after₂ := by decide +kernel
      events := by decide +kernel }
  have hdata := h _ _ _ _ _ _ _ _ _ _ hswitched (by decide +kernel) (by decide +kernel)
  exact absurd hdata (by decide +kernel)

end ComicApp.AccountSession
