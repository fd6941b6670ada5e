import ComicApp.StoredChapters

/-!
# One record for each comic

Nothing but the button of one info page keeps a second download of a comic from starting, and the
record is created only when the poster arrives. The store and the shelf hold each comic once exactly
in the runs in which every poster finds its comic unrecorded.
-/

namespace ComicApp.DownloadSession
open EventMachine

def Entry.idComic (s : State) : Entry → Option String
  | .call c => s.calls[c]?.bind fun call => call.comic.idComic
  | .stored comic => comic.idComic

/-- At most one record and one shelf entry for each comic, and no record with more chapters than
`comicNChap`. -/
def OnePerComic (s : State) : Prop :=
  s.realm.ids.Nodup ∧ (s.listDownload.map (Entry.idComic s)).Nodup ∧
    ∀ comic ∈ s.realm, (comic.listChap.length : ℤ) ≤ comic.comicNChap

/-- A poster arrives only for a comic without a record, whose document has no negative `totalChap`. -/
def Recordable (s : State) (e : Event) : Prop :=
  Unrecorded s e ∧
    match e with
    | .poster c (some _) => ∀ call ∈ s.calls[c]?, ∀ n ∈ call.comic.totalChap, 0 ≤ n
    | _ => True

def ShelfMatches (s : State) : Prop :=
  s.listDownload.map (Entry.idComic s) = s.realm.ids.map some

theorem shelfMatches_launch (realm : Realm) : ShelfMatches (launch realm) := by
  simp [ShelfMatches, launch, ComicRealmToRam, Realm.ids, Entry.idComic, Function.comp_def]

theorem ShelfMatches.congr {s s' : State} (h : ShelfMatches s)
    (hl : s'.listDownload = s.listDownload) (hrealm : s'.realm.ids = s.realm.ids)
    (hid : ∀ entry ∈ s.listDownload, entry.idComic s' = entry.idComic s) : ShelfMatches s' := by
  unfold ShelfMatches at h ⊢
  rw [hl, hrealm, ← h]
  exact List.map_congr_left hid

theorem idComic_setCall {s s' : State} {c : ℕ} {call call' : Call} (hc : s.calls[c]? = some call)
    (hid : call'.comic.idComic = call.comic.idComic) (hcalls : s'.calls = (s.setCall c call').calls)
    (entry : Entry) : entry.idComic s' = entry.idComic s := by
  cases entry with
  | stored comic => rfl
  | call k =>
    simp only [Entry.idComic, hcalls, State.setCall]
    by_cases hk : k = c
    · subst hk
      rw [List.getElem?_set_self (List.getElem?_eq_some_iff.mp hc).1, hc]
      exact hid
    · rw [List.getElem?_set_ne (Ne.symm hk)]

/-- Every entry of the shelf has an id, so the call of an entry has been started. -/
theorem ShelfMatches.isSome {s : State} (h : ShelfMatches s) {entry : Entry}
    (hm : entry ∈ s.listDownload) : ∃ id, entry.idComic s = some id := by
  have hid : entry.idComic s ∈ s.realm.ids.map some := h ▸ List.mem_map_of_mem hm
  obtain ⟨id, -, he⟩ := List.mem_map.mp hid
  exact ⟨id, he.symm⟩

theorem ShelfMatches.frame {s t : State} (h : ShelfMatches s) (hcalls : t.calls = s.calls)
    (hl : t.listDownload = s.listDownload) (hrealm : t.realm = s.realm) : ShelfMatches t := by
  apply h.congr hl (by rw [hrealm])
  intro entry _
  cases entry <;> simp only [Entry.idComic, hcalls]

theorem ShelfMatches.setCall {s t : State} (h : ShelfMatches s) {c : ℕ} {call call' : Call}
    (hc : s.calls[c]? = some call) (hcalls : t.calls = (s.setCall c call').calls)
    (hid : call'.comic.idComic = call.comic.idComic) (hl : t.listDownload = s.listDownload)
    (hrealm : t.realm.ids = s.realm.ids) : ShelfMatches t :=
  h.congr hl hrealm fun entry _ => idComic_setCall hc hid hcalls entry

/-- A poster adds the comic at the end of both lists. -/
theorem ShelfMatches.poster {s t : State} (h : ShelfMatches s) {c : ℕ} {call call' : Call}
    {data : Data} (hc : s.calls[c]? = some call) (hcomic : call.comic.idComic = some call.comicID)
    (hcalls : t.calls = (s.setCall c call').calls) (hid : call'.comic.idComic = call.comic.idComic)
    (hl : t.listDownload = s.listDownload ++ [Entry.call c])
    (hrealm : t.realm = s.realm ++ [(call.posterArrived data).record]) : ShelfMatches t := by
  have hlt := (List.getElem?_eq_some_iff.mp hc).1
  have hold : ShelfMatches { t with listDownload := s.listDownload, realm := s.realm } :=
    h.setCall hc hcalls hid rfl rfl
  have hentry : Entry.idComic t (.call c) = some call.comicID := by
    simp only [Entry.idComic, hcalls, State.setCall]
    rw [List.getElem?_set_self hlt, ← hcomic, ← hid]
    rfl
  unfold ShelfMatches at hold ⊢
  rw [hl, hrealm, List.map_append, List.map_singleton, hentry, Realm.ids_concat,
    List.map_append, List.map_singleton, posterArrived_record call data hcomic]
  exact congrArg (· ++ [some call.comicID]) hold

/-- Shelf and store change together. -/
theorem ShelfMatches.step {s s' : State} {e : Event} (h : ShelfMatches s) (hv : ValidCalls s)
    (hs : DownloadSession.step s e = some s') : ShelfMatches s' := by
  cases Transition.of_step hs with
  | relaunch => exact shelfMatches_launch s.realm
  | select id hr => exact h.frame rfl rfl rfl
  | viewDidLoad hr =>
    obtain ⟨hrealm, hcalls, hl, -⟩ := onViewDidLoad_frame s
    exact h.frame hcalls hl hrealm
  | leave p hr => exact h.frame rfl rfl rfl
  | download p hr hp =>
    obtain ⟨hrealm, hl, -⟩ := onDownload_frame s p
    rcases onDownload_calls s p with ⟨id, -, hcalls, -⟩ | ⟨hcalls, -⟩
    · apply h.congr hl (by rw [hrealm])
      intro entry hm
      obtain ⟨id', hid'⟩ := h.isSome hm
      cases entry with
      | stored comic => rfl
      | call k =>
        obtain ⟨call, hk, -⟩ := Option.bind_eq_some_iff.mp hid'
        simp only [Entry.idComic, hcalls]
        rw [List.getElem?_append_left (List.getElem?_eq_some_iff.mp hk).1]
    · exact h.frame hcalls hl hrealm
  | documentTrap => exact h.frame rfl rfl rfl
  | document c reply call call' hr hc hw ho =>
    have hv' := (hv hr c call hc).onDocument hw ho
    have hid : call'.comic.idComic = call.comic.idComic := by
      rw [hv'.idComic, (hv hr c call hc).idComic, (Call.onDocument_spec ho).1]
    exact h.setCall hc rfl hid rfl rfl
  | posterFailed c call hr hc hw => exact h.setCall hc rfl rfl rfl rfl
  | poster c data call hr hc hw =>
    have hvc := hv hr c call hc
    cases hf : (call.posterArrived data).forChapters with
    | none =>
      rw [onPoster_of_trap hf]
      exact h.poster hc hvc.idComic rfl rfl rfl rfl
    | some call' =>
      rw [onPoster_of_some hf]
      have he := (Call.forChapters_spec hf (hvc.chapters_nil (by simp [hw]))).1
      exact h.poster hc hvc.idComic rfl (by rw [he]; rfl) rfl rfl
  | listAll c i reply call chapter hr hc hi hw =>
    exact h.setCall hc rfl rfl rfl rfl
  | pageFailed c i j call chapter hr hc hi hj => exact h.setCall hc rfl rfl rfl rfl
  | page c i j data1 call chapter hr hc hi hj =>
    generalize hs' : s.onPage c call i chapter j data1 hj = s'
    cases hs' ▸ onPage_outcome s c call i chapter j data1 hj with
    | more | unrecorded => exact h.setCall hc rfl rfl rfl rfl
    | stored comicl hl hf hn => exact h.setCall hc rfl rfl rfl (Realm.appendChap_ids _ _ _)
    | last comicl hl hf hn => exact h.setCall hc rfl rfl rfl (Realm.appendChap_ids _ _ _)
  | progress c i j n call chapter task hr hc hi hj => exact h.setCall hc rfl rfl rfl rfl

structure Recorded (s : State) : Prop where
  calls : ValidCalls s
  linked : ∃ order, Linked order s
  shelf : ShelfMatches s
  ids : s.realm.ids.Nodup
  room : ∀ comic ∈ s.realm, (comic.listChap.length : ℤ) ≤ comic.comicNChap

theorem recorded_launch_nil : Recorded (launch []) where
  calls := validCalls_of_nil rfl
  linked := ⟨_, linked_of_calls_nil rfl⟩
  shelf := shelfMatches_launch []
  ids := List.nodup_nil
  room _ h := by cases h

theorem Recorded.onePerComic {s : State} (h : Recorded s) : OnePerComic s := by
  refine ⟨h.ids, ?_, h.room⟩
  rw [h.shelf]
  exact h.ids.map (Option.some_injective _)

theorem Recorded.room_step {s s' : State} {e : Event} (h : Recorded s) (hR : Recordable s e)
    (hs : DownloadSession.step s e = some s') :
    ∀ comic ∈ s'.realm, (comic.listChap.length : ℤ) ≤ comic.comicNChap := by
  generalize hrealm : s'.realm = realm
  cases hrealm ▸ (Transition.of_step hs).realm with
  | same => exact h.room
  | add c data call hr hc hw =>
    intro comic hm
    rcases List.mem_append.mp hm with hm | hm
    · exact h.room comic hm
    · rw [List.mem_singleton.mp hm]
      cases ht : call.comic.totalChap with
      | none => simp [Call.record, Call.posterArrived, ht]
      | some n => simpa [Call.record, Call.posterArrived, ht] using hR.2 call hc n ht
  | append c i j data1 call chapter comicl hr hc hi hj hf =>
    obtain ⟨order, hL⟩ := h.linked
    intro comic hm
    rcases Realm.mem_appendChap hm with hm | ⟨comicl', hf', rfl⟩
    · exact h.room comic hm
    · have hroom := hL.room hc (h.calls hr c call hc) hi hj hf'
      simpa using hroom

theorem Recorded.step {s s' : State} {e : Event} (h : Recorded s) (hR : Recordable s e)
    (hs : DownloadSession.step s e = some s') : Recorded s' where
  calls := h.calls.step hs
  linked := by
    obtain ⟨order, hL⟩ := h.linked
    exact ⟨_, hL.step h.calls hR.1 hs⟩
  shelf := h.shelf.step h.calls hs
  ids := nodup_ids_step h.ids h.calls hR.1 hs
  room := h.room_step hR hs

/-- Any other poster gives the store a second record of its comic, or one without room for the
chapters it already has. -/
theorem Recorded.break {s s' : State} {e : Event} (h : Recorded s) (hR : ¬ Recordable s e)
    (hs : DownloadSession.step s e = some s') : ¬ OnePerComic s' := by
  rintro ⟨hids, -, hroom⟩
  apply hR
  generalize hrealm : s'.realm = realm at hids hroom
  cases hrealm ▸ (Transition.of_step hs).realm with
  | same he =>
    cases e with
    | poster c reply =>
      cases reply with
      | none => exact ⟨trivial, trivial⟩
      | some data => exact absurd rfl (he c data)
    | _ => exact ⟨trivial, trivial⟩
  | add c data call hr hc hw =>
    refine ⟨fun call' hc' => ?_, fun call' hc' n hn => ?_⟩
    all_goals obtain rfl : call = call' := Option.some.inj (hc.symm.trans hc')
    · have hnone := (Realm.nodup_ids_concat.mp hids).2
      rwa [posterArrived_record call data (h.calls hr c call hc).idComic] at hnone
    · have hn' : call.comic.totalChap = some n := hn
      simpa [Call.record, Call.posterArrived, hn'] using
        hroom _ (List.mem_append_right _ (List.mem_singleton_self _))
  | append => exact ⟨trivial, trivial⟩

/-- Store and shelf hold each comic once throughout a run exactly when every poster arrives for a
comic that has no record, and with a `totalChap` that is not negative. -/
theorem onePerComic_iff (es : List Event) (s : State) (hrun : run step (launch []) es = some s) :
    Throughout step OnePerComic (launch []) es ↔ Along step Recordable (launch []) es :=
  throughout_iff_along step (fun _ => Recorded.onePerComic) (fun _ _ _ => Recorded.step)
    (fun _ _ _ => Recorded.break) recorded_launch_nil hrun

def reopened : List Event :=
  [.select (some "a"), .viewDidLoad, .download 0, .leave 0, .viewDidLoad, .download 0,
    .document 0 (.found ⟨some "A", some 1, some 0, some "a.jpg", some "a"⟩), .poster 0 (some []),
    .document 1 (.found ⟨some "A", some 1, some 0, some "a.jpg", some "a"⟩), .poster 1 (some [])]

theorem onePerComic_iff_reopened :
    Throughout step OnePerComic (launch []) reopened ↔ Along step Recordable (launch []) reopened :=
  onePerComic_iff reopened ((run step (launch []) reopened).get (by decide +kernel))
    (Option.some_get _).symm

theorem not_onePerComic : ¬ ∀ (es : List Event) (s : State),
    run step (launch []) es = some s → OnePerComic s := by
  intro h
  have hids := (h reopened ((run step (launch []) reopened).get (by decide +kernel))
    (Option.some_get _).symm).1
  exact absurd hids (by decide +kernel)

end ComicApp.DownloadSession
