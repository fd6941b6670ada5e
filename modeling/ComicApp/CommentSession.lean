import ComicApp.EventMachine
import ComicApp.Objects

/-!
# Sessions of commenting

`InfoViewController.sendComment` reads `Comic.id` when it creates the document of a comment, and
again in the reply to that request, when it files the comment under a comic. The comments sent are
numbered in the order in which they are sent, which stands for the ids of their documents.
-/

namespace ComicApp.CommentSession
open EventMachine

structure Sent where
  userID : String
  comicID : String
  content : String
  request : Request
  deriving DecidableEq, Repr

/-- `comment` holds the `"comment"` lists of the `Comic` documents, as pairs of a comic and a comment,
and `listComment` the list of all comments. -/
structure State where
  id : Option String
  UserID : Option String
  sent : List Sent
  comment : List (String × ℕ)
  listComment : List ℕ
  running : Bool

inductive Event where
  | select (id : Option String)
  | signIn (UserID : Option String)
  | sendComment (txtComment : String)
  | addDocument (k : ℕ) (succeeds : Bool)
  deriving DecidableEq, Repr

def launch : State where
  id := none
  UserID := none
  sent := []
  comment := []
  listComment := []
  running := true

namespace State

def onSendComment (s : State) (txtComment : String) : State :=
  if txtComment ≠ "" then
    { s with sent := s.sent ++ [⟨s.UserID.getD "", s.id.getD "", txtComment, .waiting⟩] }
  else s

/-- The reply to `addDocument`, which unwraps `Comic.id`. -/
def onAddDocument (s : State) (k : ℕ) (sent : Sent) (succeeds : Bool) : State :=
  if succeeds then
    let s := { s with sent := s.sent.set k { sent with request := .arrived } }
    match s.id with
    | none => { s with running := false }
    | some id => { s with
        comment := arrayUnion s.comment (id, k)
        listComment := arrayUnion s.listComment k }
  else { s with sent := s.sent.set k { sent with request := .failed } }

end State

def step (s : State) (e : Event) : Option State :=
  if s.running then
    match e with
    | .select id => some { s with id := id }
    | .signIn UserID => some { s with UserID := UserID }
    | .sendComment txtComment => some (s.onSendComment txtComment)
    | .addDocument k succeeds =>
      match s.sent[k]? with
      | none => none
      | some sent =>
        if sent.request = .waiting then some (s.onAddDocument k sent succeeds) else none
  else none

inductive Transition (s : State) : Event → State → Prop where
  | select (id : Option String) : Transition s (.select id) { s with id := id }
  | signIn (UserID : Option String) : Transition s (.signIn UserID) { s with UserID := UserID }
  | sendComment (txtComment : String) :
      Transition s (.sendComment txtComment) (s.onSendComment txtComment)
  | addDocument (k : ℕ) (succeeds : Bool) (sent : Sent) (hk : s.sent[k]? = some sent)
      (hw : sent.request = .waiting) :
      Transition s (.addDocument k succeeds) (s.onAddDocument k sent succeeds)

theorem Transition.of_step {s s' : State} {e : Event} (h : step s e = some s') :
    Transition s e s' := by
  unfold step at h
  split_ifs at h
  cases e with
  | select id =>
    obtain rfl := Option.some.inj h
    exact .select id
  | signIn UserID =>
    obtain rfl := Option.some.inj h
    exact .signIn UserID
  | sendComment txtComment =>
    obtain rfl := Option.some.inj h
    exact .sendComment txtComment
  | addDocument k succeeds =>
    dsimp only at h
    split at h
    · cases h
    · rename_i sent hk
      split_ifs at h with hw
      obtain rfl := Option.some.inj h
      exact .addDocument k succeeds sent hk hw

/-- Every comment in the list of a comic was written for that comic, and every comment created is in
the list of the comic it was written for and in no other. -/
structure Filed (s : State) : Prop where
  sound : ∀ X k, (X, k) ∈ s.comment → ∃ sent, s.sent[k]? = some sent ∧
    sent.request = .arrived ∧ sent.comicID = X
  complete : ∀ k sent, s.sent[k]? = some sent → sent.request = .arrived →
    (sent.comicID, k) ∈ s.comment

/-- A comment is created while its comic is the open one. -/
def WhileOpen (s : State) : Event → Prop
  | .addDocument k true => ∀ sent ∈ s.sent[k]?, s.id = some sent.comicID
  | _ => True

theorem filed_launch : Filed launch where
  sound X k h := by cases h
  complete k sent h := by cases h

/-- What becomes of a request that is out does not show before it has arrived. -/
theorem Filed.set {s : State} (h : Filed s) {k : ℕ} {sent : Sent} (sent' : Sent)
    (hk : s.sent[k]? = some sent) (hw : sent.request = .waiting) :
    (∀ X k', (X, k') ∈ s.comment → k' ≠ k ∧ ∃ sent₀, (s.sent.set k sent')[k']? = some sent₀ ∧
      sent₀.request = .arrived ∧ sent₀.comicID = X) ∧
    ∀ k' sent₀, k' ≠ k → (s.sent.set k sent')[k']? = some sent₀ → sent₀.request = .arrived →
      (sent₀.comicID, k') ∈ s.comment := by
  refine ⟨fun X k' hm => ?_, fun k' sent₀ hne h₀ ha => ?_⟩
  · obtain ⟨sent₀, h₀, ha, hX⟩ := h.sound X k' hm
    have hne : k' ≠ k := by
      rintro rfl
      rw [hk, Option.some.injEq] at h₀
      rw [← h₀, hw] at ha
      cases ha
    exact ⟨hne, sent₀, by rw [List.getElem?_set_ne (Ne.symm hne), h₀], ha, hX⟩
  · rw [List.getElem?_set_ne (Ne.symm hne)] at h₀
    exact h.complete k' sent₀ h₀ ha

theorem Filed.step {s s' : State} {e : Event} (h : Filed s) (hC : WhileOpen s e)
    (hs : CommentSession.step s e = some s') : Filed s' := by
  cases Transition.of_step hs with
  | select id => exact ⟨h.sound, h.complete⟩
  | signIn UserID => exact ⟨h.sound, h.complete⟩
  | sendComment txtComment =>
    unfold State.onSendComment
    split_ifs with htext
    · refine ⟨fun X k hm => ?_, fun k sent hk ha => ?_⟩
      · obtain ⟨sent, hk, hrest⟩ := h.sound X k hm
        exact ⟨sent, by
          rw [List.getElem?_append_left (List.getElem?_eq_some_iff.mp hk).1]
          exact hk, hrest⟩
      · rw [List.getElem?_append] at hk
        split_ifs at hk with hlt
        · exact h.complete k sent hk ha
        · obtain ⟨_, rfl⟩ := List.getElem?_eq_some_iff.mp hk
          simp at ha
    · exact h
  | addDocument k succeeds sent hk hw =>
    obtain ⟨hsound, hcomplete⟩ := h.set { sent with request := .failed } hk hw
    obtain ⟨hsound', hcomplete'⟩ := h.set { sent with request := .arrived } hk hw
    have hlt := (List.getElem?_eq_some_iff.mp hk).1
    cases succeeds with
    | false =>
      refine ⟨fun X k' hm => (hsound X k' hm).2, fun k' sent₀ h₀ ha => ?_⟩
      by_cases hne : k' = k
      · subst hne
        rw [show (_ : State).sent[k']? = _ from List.getElem?_set_self hlt] at h₀
        rw [← Option.some.inj h₀] at ha
        cases ha
      · exact hcomplete k' sent₀ hne h₀ ha
    | true =>
      have hid : s.id = some sent.comicID := hC sent hk
      simp only [State.onAddDocument, if_true, hid]
      refine ⟨fun X k' hm => ?_, fun k' sent₀ h₀ ha => ?_⟩
      · rcases mem_arrayUnion.mp hm with hm | heq
        · exact (hsound' X k' hm).2
        · obtain ⟨rfl, rfl⟩ := Prod.mk.inj heq
          exact ⟨_, List.getElem?_set_self hlt, rfl, rfl⟩
      · by_cases hne : k' = k
        · subst hne
          rw [List.getElem?_set_self hlt] at h₀
          rw [← Option.some.inj h₀]
          exact mem_arrayUnion.mpr (.inr rfl)
        · exact mem_arrayUnion.mpr (.inl (hcomplete' k' sent₀ hne h₀ ha))

/-- A comment created while another comic is open is filed there, and not under its own comic. -/
theorem Filed.break {s s' : State} {e : Event} (h : Filed s) (hC : ¬ WhileOpen s e)
    (hs : CommentSession.step s e = some s') : ¬ Filed s' := by
  rintro ⟨hsound, hcomplete⟩
  apply hC
  cases Transition.of_step hs with
  | addDocument k succeeds sent hk hw =>
    have hlt := (List.getElem?_eq_some_iff.mp hk).1
    cases succeeds with
    | false => exact trivial
    | true =>
      rintro sent₁ hk₁
      obtain rfl : sent = sent₁ := Option.some.inj (hk.symm.trans hk₁)
      cases hid : s.id with
      | none =>
        simp only [State.onAddDocument, if_true, hid] at hcomplete
        have hm := hcomplete k _ (List.getElem?_set_self hlt) rfl
        obtain ⟨sent₀, h₀, ha, -⟩ := h.sound _ k hm
        rw [hk, Option.some.injEq] at h₀
        rw [← h₀, hw] at ha
        cases ha
      | some id =>
        simp only [State.onAddDocument, if_true, hid] at hsound
        obtain ⟨sent₀, h₀, -, hX⟩ := hsound id k (mem_arrayUnion.mpr (.inr rfl))
        rw [List.getElem?_set_self hlt, Option.some.injEq] at h₀
        rw [← hX, ← h₀]
  | _ => exact trivial

/-- Throughout a run the comments are filed under their comics exactly when every comment is created
while the comic it was written for is the open one. -/
theorem filed_iff (es : List Event) (s : State) (hrun : run step launch es = some s) :
    Throughout step Filed launch es ↔ Along step WhileOpen launch es :=
  throughout_iff_along step (fun _ h => h) (fun _ _ _ => Filed.step) (fun _ _ _ => Filed.break)
    filed_launch hrun

def openedMeanwhile : List Event :=
  [.select (some "a"), .sendComment "good", .select (some "b"), .addDocument 0 true]

theorem filed_iff_openedMeanwhile :
    Throughout step Filed launch openedMeanwhile ↔ Along step WhileOpen launch openedMeanwhile :=
  filed_iff openedMeanwhile ((run step launch openedMeanwhile).get (by decide +kernel))
    (Option.some_get _).symm

theorem not_filed : ¬ ∀ (es : List Event) (s : State), run step launch es = some s → Filed s := by
  intro h
  have hfiled := h openedMeanwhile ((run step launch openedMeanwhile).get (by decide +kernel))
    (Option.some_get _).symm
  obtain ⟨sent, hk, -, hX⟩ := hfiled.sound "b" 0 (by decide +kernel)
  have hsent : ((run step launch openedMeanwhile).get (by decide +kernel)).sent[0]? =
      some ⟨"", "a", "good", .arrived⟩ := by decide +kernel
  rw [hsent, Option.some.injEq] at hk
  rw [← hk] at hX
  exact absurd hX (by decide)

end ComicApp.CommentSession
