import ComicApp.DownloadFinish

/-!
# The counter of running downloads

`Comic.isDowloading` goes up with a tap and down in the branch that marks a comic finished, and on no
other exit of `DownloadCommic`. It counts the calls that are not finished yet, and these are the
calls with a request in flight as long as no reply ends a call in another way.
-/

namespace ComicApp

namespace Call

/-- Nothing has failed so far, and every part that was listed has something to wait for. -/
structure Sound (call : Call) : Prop where
  document : call.document = .waiting ∨ call.poster = .waiting ∨ call.poster = .arrived
  chapters : call.poster = .arrived → call.chapters ≠ []
  listing : ∀ chapter ∈ call.chapters, chapter.listing = .waiting ∨
    (chapter.pages.slots ≠ [] ∧ chapter.pages.Unfailed)

theorem sound_DownloadCommic (id : String) : (Shelf.DownloadCommic id).Sound where
  document := .inl rfl
  chapters h := by cases h
  listing _ h := by cases h

/-- Such a call has a request in flight until it is delivered. -/
theorem Sound.inFlight_iff {call : Call} (h : call.Sound) (hv : call.Valid) :
    call.InFlight ↔ ¬ call.Delivered := by
  refine ⟨fun hw hd => hv.not_inFlight hd hw, fun hd => ?_⟩
  rcases h.document with hw | hw | hp
  · exact .inl hw
  · exact .inr (.inl hw)
  · by_contra hno
    apply hd
    refine hv.delivered_iff.mpr ⟨hp, fun chapter hm => ?_⟩
    have hidle : ¬ chapter.InFlight := fun hw => hno (.inr (.inr ⟨chapter, hm, hw⟩))
    rcases h.listing chapter hm with hw | ⟨hne, hok⟩
    · exact absurd (.inl hw) hidle
    · exact (hok.inFlight_or_complete hne).resolve_left fun hw => hidle (.inr hw)

theorem Sound.setChapter {call : Call} (h : call.Sound) {i : ℕ} {chapter' : Chapter}
    (hl : chapter'.listing = .waiting ∨ (chapter'.pages.slots ≠ [] ∧ chapter'.pages.Unfailed)) :
    (call.setChapter i chapter').Sound where
  document := h.document
  chapters hp := by
    intro hnil
    have hlen := congrArg List.length hnil
    rw [Call.setChapter, List.length_set, List.length_nil] at hlen
    exact h.chapters hp (List.length_eq_zero_iff.mp hlen)
  listing := forall_mem_set h.listing i hl

theorem Sound.congr {call call' : Call} (h : call.Sound) (hd : call'.document = call.document)
    (hp : call'.poster = call.poster) (hc : call'.chapters = call.chapters) : call'.Sound where
  document := by rw [hd, hp]; exact h.document
  chapters := by rw [hp, hc]; exact h.chapters
  listing := by rw [hc]; exact h.listing

theorem Sound.pageArrived {call : Call} (h : call.Sound) {i j : ℕ} {chapter : Chapter}
    (hi : call.chapters[i]? = some chapter) (hj : chapter.pages.Waiting j) (hv : call.Valid)
    (data1 : Data) : (call.pageArrived i chapter j data1 hj).Sound := by
  have hl := hv.listed hi hj
  obtain ⟨hne, hok⟩ := (h.listing chapter (List.mem_of_getElem? hi)).resolve_left (by simp [hl])
  have hset : (call.setChapter i { chapter with pages := chapter.pages.receive j data1 hj }).Sound :=
    h.setChapter (.inr ⟨?_, ?_⟩)
  · exact hset.congr rfl rfl rfl
  · intro hnil
    have hkeys := chapter.pages.receive_keys j data1 hj
    rw [hnil, List.map_nil] at hkeys
    exact hne (List.map_eq_nil_iff.mp hkeys.symm)
  · exact hok.receive j data1 hj

end Call

namespace DownloadSession
open EventMachine

/-- A reply that does not end its call before all pages are there: no document, poster or page fails,
the document exists and has chapters, every listing brings an item, and the last page of a chapter
brings the record of the comic to `totalChap` chapters just when it is the last page of its call. -/
def Untroubled (s : State) : Event → Prop
  | .document _ .error | .document _ .missing => False
  | .poster _ none | .page _ _ _ none => False
  | .poster c (some _) => ∀ call ∈ s.calls[c]?, call.comic.totalChap ≠ some 0
  | .listAll _ _ reply => reply.listed ≠ []
  | .page c i _ (some _) => ∀ call ∈ s.calls[c]?, ∀ chapter ∈ call.chapters[i]?,
    chapter.pages.left = 1 →
      ((∃ comicl ∈ s.realm.first call.comicID,
        call.comic.totalChap = some ((comicl.listChap.length : ℤ) + 1)) ↔
        call.completed + 1 = call.chapters.length)
  | _ => True

instance decidableUntroubled (s : State) : ∀ e, Decidable (Untroubled s e)
  | .document _ .error | .document _ .missing => .isFalse id
  | .poster _ none | .page _ _ _ none => .isFalse id
  | .poster c (some _) => inferInstanceAs (Decidable (∀ call ∈ s.calls[c]?, _))
  | .listAll _ _ reply => inferInstanceAs (Decidable (reply.listed ≠ []))
  | .page c _ _ (some _) =>
    inferInstanceAs (Decidable (∀ call ∈ s.calls[c]?, ∀ chapter ∈ _, _ → (_ ↔ _)))
  | .document _ (.found _) | .select _ | .viewDidLoad | .leave _ => .isTrue trivial
  | .download _ | .progress _ _ _ _ | .relaunch => .isTrue trivial

/-- The counter is `k` more than the number of calls that are not finished. -/
def Balanced (k : ℤ) (s : State) : Prop :=
  s.running = true →
    s.isDowloading = k + (s.calls.countP fun call => call.comic.finish = false : ℕ)

theorem countP_finish_set {s : State} {c : ℕ} {call call' : Call} (hc : s.calls[c]? = some call)
    (hf : call'.comic.finish = call.comic.finish) :
    ((s.setCall c call').calls.countP fun call => call.comic.finish = false) =
      s.calls.countP fun call => call.comic.finish = false := by
  have h := countP_set_add hc (fun call => decide (call.comic.finish = false)) call'
  rw [hf] at h
  exact Nat.add_right_cancel h

/-- The counter and the unfinished calls change together. -/
theorem Balanced.step {k : ℤ} {s s' : State} {e : Event} (h : Balanced k s) (hv : ValidCalls s)
    (hfd : FinishDelivered s) (hk : e = .relaunch → k = 0)
    (hs : DownloadSession.step s e = some s') : Balanced k s' := by
  intro hr'
  have hset : ∀ {c : ℕ} {call call' : Call}, s.running = true → s.calls[c]? = some call →
      s'.calls = (s.setCall c call').calls → call'.comic.finish = call.comic.finish →
      s'.isDowloading = s.isDowloading →
      s'.isDowloading = k + (s'.calls.countP fun call => call.comic.finish = false : ℕ) := by
    intro c call call' hr hc hcalls hf hd
    rw [hcalls, countP_finish_set hc hf, hd]
    exact h hr
  cases Transition.of_step hs with
  | relaunch =>
    rw [hk rfl]
    rfl
  | select id hr => exact h hr
  | viewDidLoad hr =>
    obtain ⟨-, hcalls, -, hd, -⟩ := onViewDidLoad_frame s
    rw [hcalls, hd]
    exact h hr
  | leave p hr => exact h hr
  | download p hr hp =>
    obtain ⟨-, -, hd, -⟩ := onDownload_frame s p
    rcases onDownload_calls s p with ⟨id, -, hcalls, -⟩ | ⟨-, hstop⟩
    · have hone : ([Shelf.DownloadCommic id].countP fun call => call.comic.finish = false) = 1 := rfl
      rw [hcalls, hd, List.countP_append, hone, h hr]
      omega
    · rw [hstop] at hr'
      cases hr'
  | documentTrap => cases hr'
  | document c reply call call' hr hc hw ho =>
    exact hset hr hc rfl ((CallStep.document c reply hw ho).finish_eq nofun) rfl
  | posterFailed c call hr hc hw => exact hset hr hc rfl rfl rfl
  | poster c data call hr hc hw =>
    cases hf : (call.posterArrived data).forChapters with
    | none => rw [onPoster_of_trap hf] at hr'; cases hr'
    | some call' =>
      rw [onPoster_of_some hf] at hset ⊢
      exact hset hr hc rfl ((CallStep.poster c data hw hf).finish_eq nofun) rfl
  | listAll c i reply call chapter hr hc hi hw =>
    exact hset hr hc rfl ((CallStep.listAll c i reply hi hw).finish_eq nofun) rfl
  | pageFailed c i j call chapter hr hc hi hj => exact hset hr hc rfl rfl rfl
  | page c i j data1 call chapter hr hc hi hj =>
    generalize hs' : s.onPage c call i chapter j data1 hj = s' at hset ⊢
    cases hs' ▸ onPage_outcome s c call i chapter j data1 hj with
    | more | unrecorded | stored => exact hset hr hc rfl rfl rfl
    | last comicl hl hf hn =>
      -- the page is still out, so its call cannot have been finished before
      have hopen : call.comic.finish = false := by
        by_contra hfin
        have hd := hfd hr c call hc (by simpa using hfin)
        have hw := (CallStep.page c i j data1 hi hj).inFlight
        exact (hv hr c call hc).not_inFlight hd (hw.resolve_right (by simp))
      have hcount := countP_set_add hc (fun call => decide (call.comic.finish = false))
        (call.pageArrived i chapter j data1 hj).finished
      simp only [hopen, Call.finished, decide_true, Bool.true_eq_false, decide_false, if_true,
        Bool.false_eq_true, if_false] at hcount
      have hold := h hr
      change s.isDowloading - 1 = k + ((s.calls.set c _).countP _ : ℕ)
      simp only [Call.finished] at hcount ⊢
      omega
  | progress c i j n call chapter task hr hc hi hj => exact hset hr hc rfl rfl rfl

theorem CallStep.sound {s : State} {e : Event} {c : ℕ} {call call' : Call}
    (h : CallStep e call call') (hc : s.calls[c]? = some call) (he : e.ofCall = some c)
    (hU : Untroubled s e) (hv : call.Valid) (hS : call.Sound) : call'.Sound := by
  cases h with
  | document c reply hw ho =>
    cases Call.onDocument_outcome ho with
    | error => exact hU.elim
    | missing => exact hU.elim
    | found data hposter =>
      have hnil : (call.documentFound data).chapters = [] :=
        hv.chapters_nil (by simp [hv.poster_idle hw])
      exact ⟨.inr (.inl rfl), by rintro ⟨⟩, by simp [hnil]⟩
  | posterFailed c hw => exact hU.elim
  | poster c data hw hf =>
    obtain rfl := Option.some.inj he
    have hnil : call.chapters = [] := hv.chapters_nil (by simp [hw])
    obtain ⟨heq, hcount, hfresh⟩ := Call.forChapters_spec hf hnil
    have htotal : call.comic.totalChap = some (call'.chapters.length : ℤ) := hcount
    refine ⟨.inr (.inr (by rw [heq]; rfl)), fun _ hempty => ?_, fun chapter hm => ?_⟩
    · rw [hempty] at htotal
      exact hU call hc htotal
    · obtain ⟨i, hi⟩ := List.mem_iff_getElem?.mp hm
      obtain ⟨filePath, -, rfl⟩ := hfresh i chapter hi
      exact .inl rfl
  | @listAll c i reply _ chapter hi hw =>
    have hne : reply.listed ≠ [] := hU
    have hset : (call.setChapter i { chapter with
        listing := reply.request
        pages := .start (Chapter.tasks call.arrayCalcPercent reply.listed) }).Sound :=
      hS.setChapter (.inr ⟨fun hnil => ?_, Batch.unfailed_start _⟩)
    · exact hset.congr rfl rfl rfl
    · have hkeys : (Batch.start _ : Batch PageTask Data).slots.map Slot.key = _ :=
        Batch.start_keys (Chapter.tasks call.arrayCalcPercent reply.listed)
      have hitems := Chapter.tasks_items call.arrayCalcPercent reply.listed
      rw [hnil, List.map_nil] at hkeys
      rw [← hkeys, List.map_nil] at hitems
      exact hne hitems.symm
  | pageFailed c i j hi hj => exact hU.elim
  | page c i j data1 hi hj => exact hS.pageArrived hi hj hv data1
  | pageLast c i j data1 hi hj => exact (hS.pageArrived hi hj hv data1).congr rfl rfl rfl
  | progress c i j n hi hj => exact hS.congr rfl rfl rfl

structure LastOutstanding (call : Call) (i j : ℕ) (chapter : Chapter) : Prop where
  hi : call.chapters[i]? = some chapter
  hj : chapter.pages.Waiting j
  left : chapter.pages.left = 1
  others : call.completed + 1 = call.chapters.length

/-- A call is delivered by the last page it waits for. -/
theorem CallStep.delivers {e : Event} {call call' : Call} (h : CallStep e call call')
    (hv : call.Valid) (hv' : call'.Valid) (hS' : call'.Sound) (hd : ¬ call.Delivered)
    (hd' : call'.Delivered) :
    ∃ c i j data1 chapter, e = .page c i j (some data1) ∧ LastOutstanding call i j chapter := by
  obtain ⟨hp', hall⟩ := hv'.delivered_iff.mp hd'
  have hpage : ∀ {c i j : ℕ} {data1 : Data} {chapter : Chapter},
      call.chapters[i]? = some chapter → (hj : chapter.pages.Waiting j) →
      (∀ done ∈ (call.pageArrived i chapter j data1 hj).chapters, done.Complete) →
      e = .page c i j (some data1) →
      ∃ c i j data1 chapter, e = .page c i j (some data1) ∧ LastOutstanding call i j chapter := by
    intro c i j data1 chapter hi hj hall he
    have hlt := (List.getElem?_eq_some_iff.mp hi).1
    have hcomp : Chapter.Complete { chapter with pages := chapter.pages.receive j data1 hj } :=
      hall _ (List.mem_of_getElem? (List.getElem?_set_self hlt))
    have hleft := (Batch.receive_complete_iff _ _ _ hj).mp hcomp
    have hcount := Call.completed_setChapter hi (Batch.not_complete_of_waiting hj)
      { chapter with pages := chapter.pages.receive j data1 hj }
    rw [if_pos hcomp] at hcount
    have htotal := (Call.completed_eq_length_iff _).mpr hall
    have hlen : (call.pageArrived i chapter j data1 hj).chapters.length = call.chapters.length :=
      List.length_set
    have hsame : (call.pageArrived i chapter j data1 hj).completed = call.completed + 1 := hcount
    exact ⟨c, i, j, data1, chapter, he, hi, hj, by omega, by omega⟩
  have hincomplete : ∀ {i : ℕ} {chapter : Chapter}, call'.chapters[i]? = some chapter →
      ¬ chapter.Complete → False := fun hi hc => hc (hall _ (List.mem_of_getElem? hi))
  cases h with
  | document c reply hw ho =>
    exfalso
    obtain ⟨-, -, hposter, -⟩ := Call.onDocument_spec ho
    have hidle := hv.poster_idle hw
    rcases hposter with h | h <;> simp [h, hidle] at hp'
  | posterFailed c hw => cases hp'
  | poster c data hw hf =>
    exfalso
    obtain ⟨-, -, hfresh⟩ := Call.forChapters_spec hf (hv.chapters_nil (by simp [hw]))
    obtain ⟨chapter, hm⟩ := List.exists_mem_of_ne_nil _ (hS'.chapters hp')
    obtain ⟨i, hi⟩ := List.mem_iff_getElem?.mp hm
    obtain ⟨filePath, -, rfl⟩ := hfresh i chapter hi
    exact hincomplete hi fun hc => hc.1 rfl
  | @listAll c i reply _ chapter hi hw =>
    exfalso
    have hlt := (List.getElem?_eq_some_iff.mp hi).1
    exact hincomplete (List.getElem?_set_self hlt) (Batch.start_not_complete _)
  | pageFailed c i j hi hj =>
    exfalso
    have hlt := (List.getElem?_eq_some_iff.mp hi).1
    exact hincomplete (List.getElem?_set_self hlt) (Batch.fail_not_complete _ _ hj)
  | page c i j data1 hi hj => exact hpage hi hj hall rfl
  | pageLast c i j data1 hi hj => exact hpage hi hj hall rfl
  | progress c i j n hi hj => exact absurd hd' hd

/-- The last page of a record marks its call finished and lowers the counter. -/
theorem onPage_last {s : State} {c i j : ℕ} {call : Call} {chapter : Chapter}
    (h : LastPage s c i j call chapter) (data1 : Data) :
    (s.onPage c call i chapter j data1 h.hj).calls =
      (s.setCall c (call.pageArrived i chapter j data1 h.hj).finished).calls ∧
    (s.onPage c call i chapter j data1 h.hj).isDowloading = s.isDowloading - 1 := by
  obtain ⟨comicl, hf, hn⟩ := h.record
  have hleft := h.left
  generalize hs' : s.onPage c call i chapter j data1 h.hj = s'
  cases hs' ▸ onPage_outcome s c call i chapter j data1 h.hj with
  | more hl =>
    rw [Batch.receive_left] at hl
    omega
  | unrecorded hl hf' =>
    rw [hf] at hf'
    cases hf'
  | stored comicl' hl hf' hn' =>
    obtain rfl : comicl = comicl' := Option.some.inj (hf.symm.trans hf')
    exact absurd hn hn'
  | last => exact ⟨rfl, rfl⟩

theorem Untroubled.ownChapters {s : State} {e : Event} (hU : Untroubled s e) (hv : ValidCalls s)
    (hr : s.running = true) : OwnChapters s e := by
  unfold OwnChapters AtLastPage
  split
  · intro call hc chapter hi hleft comicl hf hn
    have hlast := (hU call hc chapter hi hleft).mp ⟨comicl, hf, hn⟩
    have hvc := hv hr _ call hc
    have htotal := hvc.totalChap (hvc.poster_arrived hi)
    rw [hn, Option.some.injEq] at htotal
    omega
  · trivial

/-- Where replies do not end calls early, the last page of a call fills the record. -/
theorem LastOutstanding.lastPage {s : State} {c i j : ℕ} {data1 : Data} {call : Call}
    {chapter : Chapter} (h : LastOutstanding call i j chapter) (hc : s.calls[c]? = some call)
    (hU : Untroubled s (.page c i j (some data1))) : LastPage s c i j call chapter where
  hc := hc
  hi := h.hi
  hj := h.hj
  left := h.left
  record := (hU call hc chapter h.hi h.left).mpr h.others

structure Counting (k : ℤ) (s : State) : Prop where
  calls : ValidCalls s
  sound : s.running = true → ∀ (c : ℕ) (call : Call), s.calls[c]? = some call → call.Sound
  finish : FinishDelivered s
  delivered : s.running = true → ∀ (c : ℕ) (call : Call), s.calls[c]? = some call →
    call.Delivered → call.comic.finish = true
  balanced : Balanced k s

theorem counting_of_nil {s : State} (h : s.calls = []) : Counting s.isDowloading s where
  calls := validCalls_of_nil h
  sound _ c call hc := by simp [h] at hc
  finish := finishDelivered_of_nil h
  delivered _ c call hc := by simp [h] at hc
  balanced _ := by simp [h]

theorem Counting.sound_step {k : ℤ} {s s' : State} {e : Event} (h : Counting k s)
    (hU : Untroubled s e) (hs : DownloadSession.step s e = some s') (hr' : s'.running = true)
    (c : ℕ) (call' : Call) (hc' : s'.calls[c]? = some call') : call'.Sound := by
  have hboth := calls_step (Q := fun call => call.Valid ∧ call.Sound)
    (fun _ id _ _ => ⟨Call.valid_DownloadCommic id, Call.sound_DownloadCommic id⟩)
    (fun c call call' hc he hcs hQ => ⟨hcs.valid hQ.1, hcs.sound hc he hU hQ.1 hQ.2⟩)
    (fun hr c call hc => ⟨h.calls hr c call hc, h.sound hr c call hc⟩) hs hr' hc'
  exact hboth.2

theorem Counting.delivered_step {k : ℤ} {s s' : State} {e : Event} (h : Counting k s)
    (hU : Untroubled s e) (hs : DownloadSession.step s e = some s') (hr' : s'.running = true)
    (c : ℕ) (call' : Call) (hc' : s'.calls[c]? = some call') (hd' : call'.Delivered) :
    call'.comic.finish = true := by
  have ht := Transition.of_step hs
  have hr : s.running = true := by
    apply ht.running
    rintro rfl
    cases ht
    cases hc'
  rcases ht.calls_cases hr' hc' with ⟨hold, -⟩ | ⟨p, id, -, -, -, rfl⟩ | ⟨call, hc, he, hcs⟩
  · exact h.delivered hr c call' hold hd'
  · cases hd'.1
  by_cases hd : call.Delivered
  · have hfin := h.delivered hr c call hc hd
    rcases hcs.inFlight with hw | ⟨c₀, i, j, n, rfl⟩
    · exact absurd hw ((h.calls hr c call hc).not_inFlight hd)
    · cases hcs
      exact hfin
  · obtain ⟨c₀, i, j, data1, chapter, rfl, hlast⟩ := hcs.delivers (h.calls hr c call hc)
      ((h.calls.step hs) hr' c call' hc') (h.sound_step hU hs hr' c call' hc') hd hd'
    obtain rfl := Option.some.inj he
    cases ht with
    | page _ _ _ _ call₀ chapter₀ hr₀ hc₀ hi₀ hj₀ =>
      obtain rfl : call = call₀ := Option.some.inj (hc.symm.trans hc₀)
      obtain rfl : chapter = chapter₀ := Option.some.inj (hlast.hi.symm.trans hi₀)
      rw [(onPage_last (hlast.lastPage hc hU) data1).1] at hc'
      have hget := List.getElem?_set_self (a := (call.pageArrived i chapter j data1 hj₀).finished)
        (List.getElem?_eq_some_iff.mp hc).1
      rw [← Option.some.inj (hget.symm.trans hc')]
      rfl

theorem Counting.step {k : ℤ} {s s' : State} {e : Event} (h : Counting k s)
    (hU : Untroubled s e) (hk : e = .relaunch → k = 0)
    (hs : DownloadSession.step s e = some s') : Counting k s' where
  calls := h.calls.step hs
  sound := h.sound_step hU hs
  finish := h.finish.step h.calls (hU.ownChapters h.calls) hs
  delivered := h.delivered_step hU hs
  balanced := h.balanced.step h.calls h.finish hk hs

/-- The calls that are not finished are those with a request in flight. -/
theorem Counting.isDowloading {k : ℤ} {s : State} (h : Counting k s) (hr : s.running = true) :
    s.isDowloading = k + (s.calls.countP fun call => call.InFlight : ℕ) := by
  have hcount : (s.calls.countP fun call => call.comic.finish = false) =
      s.calls.countP fun call => call.InFlight := by
    apply List.countP_congr
    intro call hm
    obtain ⟨c, hc⟩ := List.mem_iff_getElem?.mp hm
    simp only [decide_eq_true_eq, (h.sound hr c call hc).inFlight_iff (h.calls hr c call hc)]
    constructor
    · intro hf hd
      rw [h.delivered hr c call hc hd] at hf
      cases hf
    · intro hd
      by_contra hf
      exact hd (h.finish hr c call hc (by simpa using hf))
  rw [h.balanced hr, hcount]

/-- The counter is the number of calls with a request in flight, in every state of a run without
failures, without empty folders or comics, and with one call for each record. -/
theorem isDowloading_exact (realm : Realm) (es : List Event) (s : State)
    (hrun : run step (launch realm) es = some s) (hC : Along step Untroubled (launch realm) es)
    (hr : s.running = true) :
    s.isDowloading = (s.calls.countP fun call => call.InFlight : ℕ) := by
  have hI := run_invariant step (I := Counting 0) (counting_of_nil (s := launch realm) rfl)
    (fun _ _ _ h hU hs => h.step hU (fun _ => rfl) hs) hC hrun
  rw [hI.isDowloading hr, zero_add]

def twoDownloads : List Event :=
  [.select (some "a"), .viewDidLoad, .download 0, .select (some "b"), .viewDidLoad, .download 1,
    .document 0 (.found ⟨some "A", some 1, some 1, some "a.jpg", some "a"⟩),
    .document 1 (.found ⟨some "B", some 1, some 1, some "b.jpg", some "b"⟩),
    .poster 0 (some []), .poster 1 (some []), .listAll 0 0 (.success ["p"]), .page 0 0 0 (some [1])]

theorem isDowloading_exact_two :
    ((run step (launch []) twoDownloads).get (by decide +kernel)).isDowloading =
      (((run step (launch []) twoDownloads).get (by decide +kernel)).calls.countP
        fun call => call.InFlight : ℕ) :=
  isDowloading_exact [] twoDownloads _ (Option.some_get _).symm (by decide +kernel)
    (by decide +kernel)

def documentFails : List Event :=
  [.select (some "a"), .viewDidLoad, .download 0, .document 0 .error]

theorem not_isDowloading_exact : ¬ ∀ (realm : Realm) (es : List Event) (s : State),
    run step (launch realm) es = some s → s.running = true →
      s.isDowloading = (s.calls.countP fun call => call.InFlight : ℕ) := by
  intro h
  have hcount := h [] documentFails ((run step (launch []) documentFails).get (by decide +kernel))
    (Option.some_get _).symm (by decide +kernel)
  exact absurd hcount (by decide +kernel)

end DownloadSession
end ComicApp
