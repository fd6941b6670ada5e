import ComicApp.AccountStable

/-!
# Requests for the lists of a user

`Shelf.DownloadList` asks for the document of the user who is signed in. No other request does, so the
users whose documents are asked for are the users it was started for.
-/

namespace ComicApp.AccountSession
open EventMachine

namespace State

def asked (s : State) (n k : ℕ) : Option String := (s.link n k).bind Link.lists

theorem asked_modify (s : State) (n : ℕ) {f : Session → Session}
    (hf : ∀ S : Session, ∃ new : List Link, (f S).links = S.links ++ new.map some ∧
      ∀ l ∈ new, l.lists = none) : (s.modify n f).asked = s.asked := by
  funext m j
  simp only [asked, link, modify, List.getElem?_modify]
  cases s.sessions[m]? with
  | none => rfl
  | some S =>
    by_cases hm : n = m
    · obtain ⟨new, hnew, hlists⟩ := hf S
      simp only [hm, if_true, Option.map_eq_map, Option.map_some, Option.bind_some, hnew]
      by_cases hj : j < S.links.length
      · rw [List.getElem?_append_left hj]
      · rw [List.getElem?_append_right (not_lt.mp hj), List.getElem?_eq_none (not_lt.mp hj),
          List.getElem?_map]
        cases hl : new[j - S.links.length]? with
        | none => rfl
        | some l => exact hlists l (List.mem_of_getElem? hl)
    · simp [hm]

theorem settled_asked : Settled fun s t => t.asked = s.asked where
  refl _ := rfl
  trans h h' := h'.trans h
  send s n links hlinks := asked_modify s n fun _ => ⟨links, rfl, fun l hl => (hlinks l hl).2⟩
  trap _ := rfl
  localAccount _ _ := rfl
  modify s n _ hf := asked_modify s n fun S => (hf S).links
  listHistory _ _ := rfl
  listLike _ _ := rfl
  pages s n _ := asked_modify s n fun _ => ⟨[], by simp, nofun⟩
  id _ _ := rfl
  UserID _ _ := rfl
  luser _ _ := rfl

theorem link_answer_self (s : State) (n k : ℕ) : (s.answer n k).link n k = none := by
  simp only [link, answer, modify, List.getElem?_modify]
  cases s.sessions[n]? with
  | none => rfl
  | some S => by_cases hk : k < S.links.length <;> simp [hk]

theorem asked_answer_self (s : State) (n k : ℕ) : (s.answer n k).asked n k = none := by
  rw [asked, link_answer_self, Option.bind_none]

theorem issued_answer {s : State} {m j : ℕ} (h : s.Issued m j) (n k : ℕ) :
    (s.answer n k).Issued m j := by
  obtain ⟨S, hS, hj⟩ := h
  by_cases hm : n = m
  · subst hm
    exact ⟨{ S with links := S.links.set k none }, by simp [answer, modify, hS], by simpa using hj⟩
  · exact ⟨S, by simp [answer, modify, hm, hS], hj⟩

theorem asked_answer_of_ne (s : State) {n k m j : ℕ} (h : (m, j) ≠ (n, k)) :
    (s.answer n k).asked m j = s.asked m j := by
  rw [asked, link_answer s h, asked]

theorem asked_of_answer {s : State} {n k m j : ℕ} {UserID : String}
    (h : (s.answer n k).asked m j = some UserID) : s.asked m j = some UserID := by
  by_cases hmj : (m, j) = (n, k)
  · obtain ⟨rfl, rfl⟩ := Prod.mk.inj hmj
    rw [asked_answer_self] at h
    cases h
  · rwa [asked_answer_of_ne s hmj] at h

/-- One more request goes to the next place of its session. -/
theorem asked_send {s : State} {n : ℕ} {S : Session} (hS : s.sessions[n]? = some S) (l : Link)
    (m j : ℕ) : (s.send n [l]).asked m j =
      if (m, j) = (n, S.links.length) then l.lists else s.asked m j := by
  simp only [asked, link, send, modify, List.getElem?_modify]
  by_cases hm : n = m
  · subst hm
    simp only [hS, if_true, Option.map_eq_map, Option.map_some, Option.bind_some, Prod.mk.injEq,
      true_and, List.getElem?_append]
    by_cases hlt : j < S.links.length
    · rw [if_pos hlt, if_neg hlt.ne]
    · rw [if_neg hlt]
      by_cases hj : j = S.links.length
      · simp [hj]
      · rw [if_neg hj, List.getElem?_eq_none (not_lt.mp hlt), List.getElem?_eq_none]
        simp only [List.map_cons, List.map_nil, List.length_singleton]
        omega
  · have hne : ¬ (m, j) = (n, S.links.length) := fun h => hm (Prod.mk.inj h).1.symm
    rw [if_neg hne]
    simp [hm]

theorem asked_DownloadList {s : State} {n m j : ℕ} {UserID : String}
    (h : (s.DownloadList n).asked m j = some UserID) :
    s.asked m j = some UserID ∨ s.UserID = some UserID := by
  unfold DownloadList at h
  cases huser : s.UserID with
  | none =>
    rw [huser] at h
    exact .inl h
  | some user =>
    simp only [huser] at h
    cases hS : s.sessions[n]? with
    | none =>
      have hsame : s.send n [.userDocument user] = s := by
        simp [send, modify, List.modify_eq_self (List.getElem?_eq_none_iff.mp hS)]
      exact .inl (hsame ▸ h)
    | some S =>
      rw [asked_send hS] at h
      split_ifs at h
      · exact .inr h
      · exact .inl h

/-- Only a start of `Shelf.DownloadList` asks for the lists of a user. -/
theorem Callback.asked {s t : State} {n m j : ℕ} {link : Link} {reply : Reply} {UserID : String}
    (h : Callback s n link reply t) (hasked : t.asked m j = some UserID) :
    s.asked m j = some UserID ∨ link = .signIn ∧ reply = .uid UserID := by
  by_cases hsignIn : link = .signIn
  · subst hsignIn
    cases h with
    | failed link hfailed => exact .inl hasked
    | signIn uid =>
      rcases asked_DownloadList (s := { s with UserID := some uid }) hasked with hasked | huser
      · exact .inl hasked
      · exact .inr ⟨rfl, by rw [Option.some.inj huser]⟩
  · have hsame := settled_asked.callback h hsignIn fun _ _ s _ =>
      asked_modify s n fun _ => ⟨[], by simp, nofun⟩
    exact .inl (hsame ▸ hasked)

def started (s : State) : Event → Option String
  | .action .CancelLogin => s.UserID
  | .action .relaunch => s.luser.head?.bind LUser.userID
  | .reply n k (.uid uid) => if s.link n k = some .signIn then some uid else none
  | _ => none

def created (s : State) : Event → Option String
  | .reply n k (.uid uid) => if s.link n k = some .createUser then some uid else none
  | _ => none

theorem placed_setElement (s : State) : Placed s s.setElement := by
  rintro m j ⟨S, hS, hj⟩
  have hm := (List.getElem?_eq_some_iff.mp hS).1
  have hsame : s.setElement.sessions[m]? = s.sessions[m]? := List.getElem?_append_left hm
  exact ⟨⟨S, hsame.trans hS, hj⟩, by rw [link, link, hsame]⟩

theorem asked_setElement (s : State) {m j : ℕ} {UserID : String}
    (h : s.setElement.asked m j = some UserID) : s.asked m j = some UserID := by
  simp only [asked, link, setElement, List.getElem?_append] at h ⊢
  split_ifs at h with hm
  · exact h
  · cases hi : m - s.sessions.length with
    | zero => simp [hi] at h
    | succ i => simp [hi] at h

theorem act_asked {s t : State} {a : Action} {m j : ℕ} {UserID : String} (h : s.act a = some t)
    (hasked : t.asked m j = some UserID) :
    s.asked m j = some UserID ∨ s.started (.action a) = some UserID := by
  by_cases hlogin : a = .login
  · subst hlogin
    obtain rfl := Option.some.inj h
    exact .inl (asked_setElement s hasked)
  by_cases hcancel : a = .CancelLogin
  · subst hcancel
    obtain rfl := Option.some.inj h
    exact asked_DownloadList hasked
  by_cases hrelaunch : a = .relaunch
  · subst hrelaunch
    obtain rfl := Option.some.inj h
    rcases asked_DownloadList hasked with hasked | huser
    · simp only [asked, link, boot, List.getElem?_map] at hasked
      cases hS : s.sessions[m]? <;> simp [hS] at hasked
    · exact .inr huser
  · exact .inl (settled_asked.act h hlogin hcancel hrelaunch ▸ hasked)

end State

theorem step_asked {s t : State} {e : Event} {m j : ℕ} {UserID : String} (h : step s e = some t)
    (hasked : t.asked m j = some UserID) :
    s.asked m j = some UserID ∨ s.started e = some UserID := by
  cases e with
  | action a => exact State.act_asked (step_action h).2 hasked
  | reply n k reply =>
    obtain ⟨-, link, hlink, hcallback⟩ := step_reply h
    rcases hcallback.asked hasked with hasked | ⟨rfl, rfl⟩
    · exact .inl (State.asked_of_answer hasked)
    · exact .inr (by rw [State.started, if_pos hlink])

theorem act_placed {s t : State} {a : Action} (h : s.act a = some t) (ha : a ≠ .relaunch) :
    State.Placed s t := by
  by_cases hlogin : a = .login
  · subst hlogin
    obtain rfl := Option.some.inj h
    exact State.placed_setElement s
  · exact State.lasting_placed.act h hlogin ha

/-- Until a new process starts, a request keeps its place, where it waits or is answered. -/
theorem step_placed {s t : State} {e : Event} (h : step s e = some t) (he : e ≠ .action .relaunch)
    {m j : ℕ} (hj : s.Issued m j) :
    t.Issued m j ∧ (t.link m j = s.link m j ∨ t.link m j = none) := by
  cases e with
  | action a =>
    have hkept := act_placed (step_action h).2 (fun ha => he (congrArg Event.action ha)) m j hj
    exact ⟨hkept.1, .inl hkept.2⟩
  | reply n k reply =>
    obtain ⟨-, link, -, hcallback⟩ := step_reply h
    obtain ⟨hissued, hlink⟩ := hcallback.placed m j (State.issued_answer hj n k)
    refine ⟨hissued, ?_⟩
    rw [hlink]
    by_cases hmj : (m, j) = (n, k)
    · obtain ⟨rfl, rfl⟩ := Prod.mk.inj hmj
      exact .inr (State.link_answer_self s m j)
    · exact .inl (State.link_answer s hmj)

/-- A request that is out stays out until its reply arrives. -/
theorem step_asked_kept {s t : State} {e : Event} (h : step s e = some t)
    (he : e ≠ .action .relaunch) {m j : ℕ} {UserID : String} (hasked : s.asked m j = some UserID)
    (hreply : ∀ reply, e ≠ .reply m j reply) : t.asked m j = some UserID := by
  obtain ⟨link, hlink, hlists⟩ := Option.bind_eq_some_iff.mp hasked
  have hkept : t.link m j = some link := by
    cases e with
    | action a =>
      have hplaced := act_placed (step_action h).2 fun ha => he (congrArg Event.action ha)
      exact hplaced.linksKept m j link hlink
    | reply n k reply =>
      obtain ⟨-, _, -, hcallback⟩ := step_reply h
      have hmj : (m, j) ≠ (n, k) := by
        intro hmj
        obtain ⟨rfl, rfl⟩ := Prod.mk.inj hmj
        exact hreply reply rfl
      exact hcallback.placed.linksKept m j link ((State.link_answer s hmj).trans hlink)
  rw [State.asked, hkept, Option.bind_some, hlists]

end ComicApp.AccountSession
