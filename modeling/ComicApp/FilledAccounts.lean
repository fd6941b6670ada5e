import ComicApp.AccountTab

/-!
# The account in the tab

Every write to a document is filled in, as the forms check it, so every read is, and with it the
account that a profile is copied into and the store it is copied to.
-/

namespace ComicApp.AccountTab
open EventMachine AccountSession
open EditAccountViewController (Edit)

def Write.Filled : Write → Prop
  | .setData document => document.Filled
  | .updateData update => update.Filled
  | .avatarUrl _ => True

structure Written.Filled (written : Written) : Prop where
  setData : ∀ document ∈ written.setData, document.Filled
  updateData : ∀ update ∈ written.updateData, update.Filled

section Written
variable {u : Unicode} {written : Written}

theorem Written.Filled.add (h : written.Filled) {write : Write} (hwrite : write.Filled) :
    (written.add write).Filled := by
  cases write with
  | setData document => exact ⟨List.forall_mem_cons.mpr ⟨hwrite, h.setData⟩, h.updateData⟩
  | updateData update => exact ⟨h.setData, List.forall_mem_cons.mpr ⟨hwrite, h.updateData⟩⟩
  | avatarUrl url => exact ⟨h.setData, h.updateData⟩

theorem filled_overwrite {fields : AccountFields} (hfields : fields.Filled)
    {update : Option AccountUpdate} (hupdate : ∀ update' ∈ update, update'.Filled)
    (avatarUrl : Option String) : (overwrite fields update avatarUrl).Filled := by
  have htexts : (update.elim fields fields.update).Filled := by
    cases update with
    | none => exact hfields
    | some update => exact (hupdate update rfl).update hfields
  refine ⟨htexts.1, ?_⟩
  cases avatarUrl with
  | none => exact htexts.2
  | some url => exact Option.some_ne_none url

/-- Whatever writes a read has seen, it is filled in. -/
theorem Written.Filled.of_shows (h : written.Filled) {fields : AccountFields}
    (hshows : written.Shows fields) : fields.Filled := by
  obtain ⟨document, hdocument, update, hupdate, url, -, rfl⟩ := hshows
  refine filled_overwrite (h.setData document hdocument) (fun update' hupdate' => ?_) url
  obtain rfl := Option.mem_def.mp hupdate'
  rcases List.mem_cons.mp hupdate with hnone | hmem
  · cases hnone
  · obtain ⟨written', hwritten, heq⟩ := List.mem_map.mp hmem
    obtain rfl := Option.some.inj heq
    exact h.updateData written' hwritten

theorem selected_edits (edits : List Edit) {c : EditAccountViewController} {g : Gender}
    (h : c.Selected g) : ∃ g', (edits.foldl .edit c).Selected g' := by
  induction edits generalizing c g with
  | nil => exact ⟨g, h⟩
  | cons e edits ih =>
    obtain ⟨g', h'⟩ := h.edit e
    exact ih h'

theorem Form.filled_write (form : Form) {write : Write} (h : form.write u = some write) :
    write.Filled := by
  cases form with
  | signUpTapped c =>
    unfold Form.write at h
    dsimp only at h
    split at h
    · cases h
    · rename_i account haccount
      obtain rfl := Option.some.inj h
      exact filled_signUpTapped haccount
  | Save localAccount edits =>
    obtain ⟨update, hupdate, rfl⟩ := Option.map_eq_some_iff.mp h
    obtain ⟨g, hg⟩ := selected_edits edits (EditAccountViewController.selected_button localAccount)
    exact hg.filled_update u hupdate
  | picture url =>
    obtain rfl := Option.some.inj h
    trivial

end Written

/-- The data of the account are filled in everywhere: in memory and in the store, in every write to a
document, in the documents still to be created and in the forms. -/
structure Filled (s : State) : Prop where
  app : s.app.Filled
  users : ∀ UserID, (s.users UserID).Filled
  signUps : ∀ p ∈ s.signUps, p.2.fields.Filled
  setData : ∀ p ∈ s.setData, p.2.Filled
  form : ∀ c, s.screen = .edit c → ∃ g, c.Selected g

theorem filled_launch : Filled launch where
  app := @AccountSession.State.Filled.start [] (by simp) _
  users _ := ⟨by simp [launch], by simp [launch]⟩
  signUps := by simp [launch]
  setData := by simp [launch]
  form _ h := by cases h

namespace Filled
variable {u : Unicode} {s t : State} (h : Filled s)
include h

/-- A page may come to lie on top, as long as an edit page has its button. -/
theorem setScreen {screen : Screen} (hform : ∀ c, screen = .edit c → ∃ g, c.Selected g) :
    Filled { s with screen := screen } :=
  ⟨h.app, h.users, h.signUps, h.setData, hform⟩

theorem openAccount : Filled { s with account := some .setElement } :=
  ⟨h.app, h.users, h.signUps, h.setData, h.form⟩

theorem signUp {c : SignUpViewController} {account : NewAccount}
    (haccount : c.signUpTapped u = .ok account) :
    Filled { s with signUps := (s.next, account) :: s.signUps } :=
  ⟨h.app, h.users, List.forall_mem_cons.mpr ⟨filled_signUpTapped haccount, h.signUps⟩, h.setData,
    h.form⟩

theorem write {write : Option (String × Write)} (hwrite : ∀ w ∈ write, w.2.Filled) :
    ∀ UserID, (s.write write UserID).Filled := by
  intro UserID
  cases write with
  | none => exact h.users UserID
  | some w =>
    unfold State.write
    dsimp only
    by_cases hUserID : UserID = w.1
    · subst hUserID
      rw [Function.update_self]
      exact (h.users w.1).add (hwrite w rfl)
    · rw [Function.update_of_ne hUserID]
      exact h.users UserID

theorem created {e : AccountSession.Event} {document : String × AccountFields}
    (hcreated : s.created e = some document) : document.2.Filled := by
  unfold State.created at hcreated
  split at hcreated
  · split at hcreated
    · obtain ⟨account, haccount, rfl⟩ := Option.map_eq_some_iff.mp hcreated
      obtain ⟨l₁, l₂, hl, -⟩ := List.lookup_eq_some_iff.mp haccount
      rename_i n k uid _ _
      have hmem : ((n, k), account) ∈ s.signUps := by
        rw [hl]
        exact List.mem_append_right _ List.mem_cons_self
      exact h.signUps _ hmem
    · cases hcreated
  · cases hcreated

theorem writes {e : AccountSession.Event} {w : String × Write} (hw : s.writes e = some w) :
    w.2.Filled := by
  unfold State.writes at hw
  split at hw
  · split at hw
    · obtain ⟨UserID, -, rfl⟩ := Option.map_eq_some_iff.mp hw
      trivial
    · cases hw
  · obtain ⟨document, hdocument, rfl⟩ := Option.map_eq_some_iff.mp hw
    exact h.created hdocument

/-- A profile that a read may show is filled in. -/
theorem profile {n k : ℕ} {data : UserDocument}
    (hadmits : s.Admits (.reply n k (.user (some data)))) {onPage : Bool} {UserID : String}
    (hlink : s.app.link n k = some (.profile onPage UserID)) : data.account.Filled := by
  refine (h.users UserID).of_shows (hadmits UserID ?_)
  rw [State.asks, hlink]
  rfl

theorem onApp {e : AccountSession.Event} {app : AccountSession.State} (hadmits : s.Admits e)
    (hstep : AccountSession.step s.app e = some app) : Filled (s.onApp e app) where
  app := by
    cases e with
    | action a => exact h.app.act (step_action hstep).2
    | reply n k reply =>
      obtain ⟨-, link, hlink, hcallback⟩ := step_reply hstep
      have hanswer : (s.app.answer n k).Filled := h.app.congr rfl
      refine hanswer.callback hcallback ?_
      rintro onPage UserID data rfl rfl
      exact h.profile hadmits hlink
  users := h.write fun _ hw => h.writes hw
  signUps := by
    unfold State.onApp
    dsimp only
    split_ifs
    · simp
    · exact h.signUps
  setData p hp := by
    rcases List.mem_append.mp hp with hp | hp
    · exact h.setData p hp
    · exact h.created (Option.mem_toList.mp hp)
  form c hc := by
    unfold State.onApp at hc
    dsimp only at hc
    split_ifs at hc
    exact h.form c hc

theorem perform {e : AccountSession.Event} (hadmits : s.Admits e) (ht : s.perform e = some t) :
    Filled t := by
  obtain ⟨app, happ, rfl⟩ := Option.map_eq_some_iff.mp ht
  exact h.onApp hadmits happ

theorem act {a : Action} (ht : s.perform (.action a) = some t) : Filled t := by
  refine h.perform ?_ ht
  exact trivial

theorem save {c : EditAccountViewController} (hc : s.screen = .edit c) {update : AccountUpdate}
    (hupdate : (c.Save u).2 = some update) :
    Filled { s with
      screen := .edit (c.Save u).1
      users := s.saved update } := by
  obtain ⟨g, hg⟩ := h.form c hc
  refine ⟨h.app, h.write ?_, h.signUps, h.setData, fun c' hc' => ?_⟩
  · intro w hw
    obtain ⟨UserID, -, rfl⟩ := Option.map_eq_some_iff.mp hw
    exact hg.filled_update u hupdate
  · obtain rfl := Screen.edit.inj hc'
    exact ⟨g, hg.saved u⟩

theorem onPage {e : PageEvent} (hpage : PageStep u s e t) : Filled t := by
  cases hpage with
  | viewDidLoad t ht => exact h.openAccount.act ht
  | viewWillAppear t ht | login t ht =>
    refine Filled.act ?_ ht
    exact h.setScreen nofun
  | turns e screen hscreen =>
    refine h.setScreen fun c hc => ?_
    rw [hc] at hscreen
    exact hscreen.elim
  | opens e screen page haccount hpage hoffers hform => exact h.setScreen hform
  | shows e => exact h
  | acts e a t ha ht => exact h.act ht
  | signUpTapped c account t haccount ht => exact (h.signUp haccount).act ht
  | changes e c c' hscreen hform =>
    obtain ⟨g, hg⟩ := h.form c hscreen
    refine h.setScreen fun c'' hc'' => ?_
    obtain rfl := Screen.edit.inj hc''
    exact hform g hg
  | Save c update t hscreen hupdate ht => exact (h.save hscreen hupdate).act ht
  | Send c hemail => exact ⟨h.app.congr rfl, h.users, h.signUps, h.setData, h.form⟩

theorem step {e : Event} (ht : step u s e = some t) : Filled t := by
  cases e with
  | page e =>
    unfold AccountTab.step at ht
    dsimp only at ht
    split_ifs at ht
    exact h.onPage (PageStep.of_onPage ht)
  | app e =>
    unfold AccountTab.step at ht
    dsimp only at ht
    split_ifs at ht with hadmits
    exact h.perform hadmits.2 ht
  | setData i succeeds =>
    unfold AccountTab.step at ht
    dsimp only at ht
    split_ifs at ht
    obtain rfl := Option.some.inj ht
    exact ⟨h.app, h.users, h.signUps, fun p hp => h.setData p (List.mem_of_mem_eraseIdx hp), h.form⟩
  | elsewhere UserID form =>
    obtain rfl := Option.some.inj ht
    refine ⟨h.app, h.write ?_, h.signUps, h.setData, h.form⟩
    intro w hw
    obtain ⟨write, hwrite, rfl⟩ := Option.map_eq_some_iff.mp hw
    exact form.filled_write hwrite

end Filled

/-- In every run the account in memory and in the store, everything that a read of a document may show,
the documents still to be created and the open form are filled in. -/
theorem accounts_filled (u : Unicode) (es : List Event) (s : State)
    (hrun : run (step u) launch es = some s) :
    Filled s ∧ ∀ UserID fields, (s.users UserID).Shows fields → fields.Filled := by
  have hfilled : Filled s := run_invariant (step u) filled_launch (fun _ _ _ h _ ht => h.step ht)
    (along_true (step u) launch es) hrun
  exact ⟨hfilled, fun UserID _ => (hfilled.users UserID).of_shows⟩

theorem accounts_filled_pictureAn :
    Filled afterPictureAn ∧ ∀ UserID fields, (afterPictureAn.users UserID).Shows fields → fields.Filled :=
  accounts_filled PasswordFields.ascii pictureAn afterPictureAn (Option.some_get _).symm

end ComicApp.AccountTab
