import ComicApp.DownloadSession
import Mathlib.Algebra.BigOperators.Group.List.Basic

/-!
# What one event does to the calls

An event leaves every call but at most one as it was, or starts one more call. `CallStep` lists what
it does to the call whose reply it is. A property of single calls is carried through a session by
the calls a tap starts and by `CallStep` alone.
-/

namespace ComicApp

def Chapter.bytes (chapter : Chapter) : ℤ := (chapter.pages.got.map fun data => (data.length : ℤ)).sum

namespace Call

structure Valid (call : Call) : Prop where
  idComic : call.comic.idComic = some call.comicID
  poster_idle : call.document = .waiting → call.poster = .idle
  chapters_nil : call.poster ≠ .arrived → call.chapters = []
  totalChap : call.poster = .arrived → call.comic.totalChap = some (call.chapters.length : ℤ)
  unlisted : ∀ chapter ∈ call.chapters, chapter.listing = .waiting → chapter.pages = .empty
  totalSize : call.tmpTotalSize = (call.chapters.map Chapter.bytes).sum

theorem valid_DownloadCommic (id : String) : (Shelf.DownloadCommic id).Valid where
  idComic := rfl
  poster_idle _ := rfl
  chapters_nil _ := rfl
  totalChap h := by cases h
  unlisted _ h := by cases h
  totalSize := rfl

theorem Valid.poster_arrived {call : Call} (hv : call.Valid) {i : ℕ} {chapter : Chapter}
    (hi : call.chapters[i]? = some chapter) : call.poster = .arrived := by
  by_contra hp
  rw [hv.chapters_nil hp] at hi
  cases hi

theorem Valid.not_complete {call : Call} (hv : call.Valid) {chapter : Chapter}
    (hm : chapter ∈ call.chapters) (hl : chapter.listing = .waiting) : ¬ chapter.Complete :=
  fun hc => hc.1 (by rw [hv.unlisted chapter hm hl]; rfl)

/-- The loop over the chapters finds a number of chapters, and a folder if it is to list any. -/
def Fetchable (call : Call) : Prop :=
  ∃ n ∈ call.comic.totalChap, 0 ≤ n ∧ (n = 0 ∨ call.filePath ≠ none)

instance (call : Call) : Decidable call.Fetchable :=
  inferInstanceAs (Decidable (∃ n ∈ call.comic.totalChap, _))

theorem forChapters_eq_none_iff (call : Call) :
    call.forChapters = none ↔ ¬ call.Fetchable := by
  unfold forChapters Fetchable
  cases htotal : call.comic.totalChap with
  | none => exact iff_of_true rfl (by rintro ⟨n, hn, -⟩; cases hn)
  | some n =>
    cases n with
    | negSucc m =>
      refine iff_of_true rfl ?_
      rintro ⟨n, hn, hpos, -⟩
      obtain rfl := Option.some.inj hn
      exact absurd hpos (Int.negSucc_lt_zero m).not_ge
    | ofNat m =>
      cases m with
      | zero => exact iff_of_false nofun fun h => h ⟨0, rfl, le_rfl, .inl rfl⟩
      | succ m =>
        cases hfile : call.filePath with
        | none =>
          refine iff_of_true rfl ?_
          rintro ⟨n, hn, -, hzero | hfile'⟩
          · obtain rfl := Option.some.inj hn
            cases hzero
          · exact hfile' rfl
        | some filePath =>
          exact iff_of_false nofun fun h =>
            h ⟨_, rfl, Int.natCast_nonneg (m + 1), .inr (Option.some_ne_none filePath)⟩

/-- The loop runs over no chapter, or asks for the listing of every chapter folder. -/
theorem forChapters_cases {call call' : Call} (h : call.forChapters = some call') :
    (call.comic.totalChap = some 0 ∧ call' = call) ∨
      ∃ (n : ℕ) (filePath : String), call.comic.totalChap = some (n + 1 : ℕ) ∧
        call.filePath = some filePath ∧ call' = { call with
          chapters := (List.range (n + 1)).map fun index =>
            .fresh (filePath ++ Shelf.path index) } := by
  unfold forChapters at h
  split at h
  · cases h
  · cases h
  · rename_i ht
    exact .inl ⟨ht, (Option.some.inj h).symm⟩
  · rename_i n ht
    split at h
    · cases h
    · rename_i filePath hf
      exact .inr ⟨n, filePath, ht, hf, (Option.some.inj h).symm⟩

theorem forChapters_comic {call call' : Call} (h : call.forChapters = some call') :
    call'.comic = call.comic := by
  obtain ⟨-, rfl⟩ | ⟨n, filePath, -, -, rfl⟩ := forChapters_cases h <;> rfl

theorem forChapters_spec {call call' : Call} (h : call.forChapters = some call')
    (hnil : call.chapters = []) :
    call' = { call with chapters := call'.chapters } ∧
      call.comic.totalChap = some (call'.chapters.length : ℤ) ∧
      ∀ (i : ℕ) (chapter : Chapter), call'.chapters[i]? = some chapter →
        ∃ filePath, call.filePath = some filePath ∧
          chapter = .fresh (filePath ++ Shelf.path i) := by
  obtain ⟨ht, rfl⟩ | ⟨n, filePath, ht, hf, rfl⟩ := forChapters_cases h
  · exact ⟨rfl, by simp [ht, hnil], fun i chapter hi => by simp [hnil] at hi⟩
  · refine ⟨rfl, by simp [ht], fun i chapter hi => ⟨filePath, hf, ?_⟩⟩
    obtain ⟨k, hk, rfl⟩ := Option.map_eq_some_iff.mp (List.getElem?_map.symm.trans hi)
    obtain ⟨_, rfl⟩ := List.getElem?_eq_some_iff.mp hk
    rw [List.getElem_range]

def documentFound (call : Call) (data : Document) : Call :=
  { call with
    document := .arrived
    poster := .waiting
    filePath := data.filePath
    comic := { call.comic with
      name := data.name, totalChap := data.totalChap, totalSize := data.size } }

inductive DocumentOutcome (call : Call) : DocumentReply → Call → Prop where
  | error : DocumentOutcome call .error { call with document := .failed }
  | missing : DocumentOutcome call .missing { call with document := .arrived }
  | found (data : Document) (hposter : data.posterPath ≠ none) :
      DocumentOutcome call (.found data) (call.documentFound data)

theorem onDocument_outcome {call call' : Call} {reply : DocumentReply}
    (ho : call.onDocument reply = some call') : call.DocumentOutcome reply call' := by
  cases reply with
  | error =>
    obtain rfl := Option.some.inj ho
    exact .error
  | missing =>
    obtain rfl := Option.some.inj ho
    exact .missing
  | found data =>
    simp only [Call.onDocument] at ho
    split at ho
    · cases ho
    · rename_i posterPath hposter
      obtain rfl := Option.some.inj ho
      exact .found data (Option.ne_none_iff_exists'.mpr ⟨posterPath, hposter⟩)

/-- The reply is a trap exactly for a document without `posterPath`. -/
theorem onDocument_eq_none_iff (call : Call) {reply : DocumentReply} :
    call.onDocument reply = none ↔ ∃ data, reply = .found data ∧ data.posterPath = none := by
  constructor
  · intro ht
    cases reply with
    | found data =>
      refine ⟨data, rfl, ?_⟩
      by_contra hposter
      obtain ⟨posterPath, hp⟩ := Option.ne_none_iff_exists'.mp hposter
      simp [Call.onDocument, hp] at ht
    | _ => cases ht
  · rintro ⟨data, rfl, hposter⟩
    simp [Call.onDocument, hposter]

theorem onDocument_spec {call call' : Call} {reply : DocumentReply}
    (ho : call.onDocument reply = some call') :
    call'.comicID = call.comicID ∧ call'.chapters = call.chapters ∧
      (call'.poster = call.poster ∨ call'.poster = .waiting) ∧ call'.document ≠ .waiting := by
  cases onDocument_outcome ho with
  | error => exact ⟨rfl, rfl, .inl rfl, nofun⟩
  | missing => exact ⟨rfl, rfl, .inl rfl, nofun⟩
  | found data hposter => exact ⟨rfl, rfl, .inr rfl, nofun⟩

theorem Valid.onDocument {call call' : Call} (hv : call.Valid) (hw : call.document = .waiting)
    {reply : DocumentReply} (ho : call.onDocument reply = some call') : call'.Valid := by
  have hidle := hv.poster_idle hw
  have hnil : call.chapters = [] := hv.chapters_nil (by simp [hidle])
  cases onDocument_outcome ho with
  | error => exact ⟨hv.idComic, nofun, hv.chapters_nil, hv.totalChap, hv.unlisted, hv.totalSize⟩
  | missing => exact ⟨hv.idComic, nofun, hv.chapters_nil, hv.totalChap, hv.unlisted, hv.totalSize⟩
  | found data hposter =>
    exact ⟨hv.idComic, nofun, fun _ => hnil, nofun, hv.unlisted, hv.totalSize⟩

theorem Valid.posterFailed {call : Call} (hv : call.Valid) (hw : call.poster = .waiting) :
    call.posterFailed.Valid where
  idComic := hv.idComic
  poster_idle h := by rw [hv.poster_idle h] at hw; cases hw
  chapters_nil _ := hv.chapters_nil (by simp [hw])
  totalChap h := by cases h
  unlisted := hv.unlisted
  totalSize := hv.totalSize

theorem Valid.poster {call call' : Call} (hv : call.Valid) (hw : call.poster = .waiting)
    {data : Data} (hf : (call.posterArrived data).forChapters = some call') : call'.Valid := by
  have hnil : call.chapters = [] := hv.chapters_nil (by simp [hw])
  obtain ⟨he, hcount, hfresh⟩ := forChapters_spec hf hnil
  have hempty : ∀ chapter ∈ call'.chapters, chapter.pages = .empty := by
    intro chapter hm
    obtain ⟨i, hi⟩ := List.mem_iff_getElem?.mp hm
    obtain ⟨filePath, -, rfl⟩ := hfresh i chapter hi
    rfl
  have hbytes : (call'.chapters.map Chapter.bytes).sum = 0 := by
    apply List.sum_eq_zero
    intro x hx
    obtain ⟨chapter, hm, rfl⟩ := List.mem_map.mp hx
    simp [Chapter.bytes, hempty chapter hm, Batch.empty]
  have hsize : call.tmpTotalSize = 0 := by rw [hv.totalSize, hnil]; rfl
  rw [he] at hcount ⊢
  refine ⟨hv.idComic, fun h => ?_, fun h => absurd rfl h, fun _ => hcount,
    fun chapter hm _ => hempty chapter hm, ?_⟩
  · rw [hv.poster_idle h] at hw
    cases hw
  · exact hsize.trans hbytes.symm

/-- Replacing one chapter keeps the bookkeeping when its bytes are added to `tmpTotalSize`. -/
theorem Valid.setChapter {call : Call} (hv : call.Valid) {i : ℕ} {chapter : Chapter}
    (hi : call.chapters[i]? = some chapter) (chapter' : Chapter)
    (hl : chapter'.listing = .waiting → chapter'.pages = .empty) (arrayCalcPercent : List ℤ) :
    Valid { call.setChapter i chapter' with
      arrayCalcPercent := arrayCalcPercent
      tmpTotalSize := call.tmpTotalSize - chapter.bytes + chapter'.bytes } where
  idComic := hv.idComic
  poster_idle := hv.poster_idle
  chapters_nil h := absurd (hv.poster_arrived hi) h
  totalChap h := by simpa [Call.setChapter] using hv.totalChap h
  unlisted chapter₀ hm h₀ := by
    rcases List.mem_or_eq_of_mem_set hm with hm | rfl
    · exact hv.unlisted chapter₀ hm h₀
    · exact hl h₀
  totalSize := by
    change call.tmpTotalSize - chapter.bytes + chapter'.bytes =
      ((call.chapters.set i chapter').map Chapter.bytes).sum
    rw [sum_map_set hi, hv.totalSize]

theorem Valid.onListAll {call : Call} (hv : call.Valid) {i : ℕ} {chapter : Chapter}
    (hi : call.chapters[i]? = some chapter) (hw : chapter.listing = .waiting)
    (reply : ListAllReply (List String)) : (call.onListAll i chapter reply).Valid := by
  have hempty : chapter.pages = .empty := hv.unlisted chapter (List.mem_of_getElem? hi) hw
  have hzero : chapter.bytes = 0 := by simp [Chapter.bytes, hempty, Batch.empty]
  have h := hv.setChapter hi { chapter with
      listing := reply.request, pages := .start (Chapter.tasks call.arrayCalcPercent reply.listed) }
    (fun h => absurd h reply.request_ne_waiting)
    (call.arrayCalcPercent ++ List.replicate reply.listed.length 0)
  rwa [hzero, sub_zero, show Chapter.bytes { chapter with
      listing := reply.request
      pages := .start (Chapter.tasks call.arrayCalcPercent reply.listed) } = 0 from rfl,
    add_zero] at h

/-- The count of complete chapters after one chapter was replaced. -/
theorem completed_setChapter {call : Call} {i : ℕ} {chapter : Chapter}
    (hi : call.chapters[i]? = some chapter) (hc : ¬ chapter.Complete) (chapter' : Chapter) :
    (call.setChapter i chapter').completed =
      call.completed + if chapter'.Complete then 1 else 0 := by
  have h := countP_set_add hi (fun chapter => decide chapter.Complete) chapter'
  simp only [hc, decide_false, Bool.false_eq_true, if_false, add_zero, decide_eq_true_eq] at h
  exact h

theorem completed_eq_length_iff (call : Call) :
    call.completed = call.chapters.length ↔ ∀ chapter ∈ call.chapters, chapter.Complete := by
  simp [Call.completed, List.countP_eq_length]

/-- Past its poster and with every chapter there. -/
def Delivered (call : Call) : Prop :=
  call.poster = .arrived ∧ (call.completed : ℤ) = call.comic.totalChap.getD 0

instance (call : Call) : Decidable call.Delivered := inferInstanceAs (Decidable (_ ∧ _))

theorem Valid.delivered_iff {call : Call} (hv : call.Valid) :
    call.Delivered ↔ call.poster = .arrived ∧ ∀ chapter ∈ call.chapters, chapter.Complete := by
  refine and_congr_right fun hp => ?_
  rw [hv.totalChap hp, Option.getD_some, ← completed_eq_length_iff, Nat.cast_inj]

theorem Valid.not_inFlight {call : Call} (hv : call.Valid) (hd : call.Delivered) :
    ¬ call.InFlight := by
  obtain ⟨hp, hall⟩ := hv.delivered_iff.mp hd
  rintro (hw | hw | ⟨chapter, hm, hw | hw⟩)
  · rw [hv.poster_idle hw] at hp
    cases hp
  · rw [hw] at hp
    cases hp
  · exact hv.not_complete hm hw (hall chapter hm)
  · exact (hall chapter hm).not_inFlight hw

/-- A chapter with a page out has been listed. -/
theorem Valid.listed {call : Call} (hv : call.Valid) {i j : ℕ} {chapter : Chapter}
    (hi : call.chapters[i]? = some chapter) (hj : chapter.pages.Waiting j) :
    chapter.listing ≠ .waiting := by
  intro hl
  obtain ⟨k, hk⟩ := hj.slot
  rw [hv.unlisted chapter (List.mem_of_getElem? hi) hl] at hk
  simp [Batch.empty] at hk

theorem Valid.pageArrived {call : Call} (hv : call.Valid) {i j : ℕ} {chapter : Chapter}
    (hi : call.chapters[i]? = some chapter) (hj : chapter.pages.Waiting j) (data1 : Data) :
    (call.pageArrived i chapter j data1 hj).Valid := by
  have h := hv.setChapter hi { chapter with pages := chapter.pages.receive j data1 hj }
    (fun h => (hv.listed hi hj h).elim) call.arrayCalcPercent
  have hbytes : Chapter.bytes { chapter with pages := chapter.pages.receive j data1 hj } =
      chapter.bytes + data1.length := by simp [Chapter.bytes]
  rwa [hbytes, ← add_assoc, sub_add_cancel] at h

theorem Valid.pageFailed {call : Call} (hv : call.Valid) {i j : ℕ} {chapter : Chapter}
    (hi : call.chapters[i]? = some chapter) (hj : chapter.pages.Waiting j) :
    (call.pageFailed i chapter j hj).Valid := by
  have h := hv.setChapter hi { chapter with pages := chapter.pages.fail j hj }
    (fun h => (hv.listed hi hj h).elim) call.arrayCalcPercent
  rwa [show call.tmpTotalSize - chapter.bytes +
    Chapter.bytes { chapter with pages := chapter.pages.fail j hj } = call.tmpTotalSize from
    sub_add_cancel _ _] at h

end Call

namespace DownloadSession
open EventMachine

/-- What a reply or a progress event does to the call it belongs to. -/
inductive CallStep : Event → Call → Call → Prop where
  | document (c : ℕ) (reply : DocumentReply) {call call' : Call} (hw : call.document = .waiting)
      (ho : call.onDocument reply = some call') : CallStep (.document c reply) call call'
  | posterFailed (c : ℕ) {call : Call} (hw : call.poster = .waiting) :
      CallStep (.poster c none) call call.posterFailed
  | poster (c : ℕ) (data : Data) {call call' : Call} (hw : call.poster = .waiting)
      (hf : (call.posterArrived data).forChapters = some call') :
      CallStep (.poster c (some data)) call call'
  | listAll (c i : ℕ) (reply : ListAllReply (List String)) {call : Call} {chapter : Chapter}
      (hi : call.chapters[i]? = some chapter) (hw : chapter.listing = .waiting) :
      CallStep (.listAll c i reply) call (call.onListAll i chapter reply)
  | pageFailed (c i j : ℕ) {call : Call} {chapter : Chapter}
      (hi : call.chapters[i]? = some chapter) (hj : chapter.pages.Waiting j) :
      CallStep (.page c i j none) call (call.pageFailed i chapter j hj)
  | page (c i j : ℕ) (data1 : Data) {call : Call} {chapter : Chapter}
      (hi : call.chapters[i]? = some chapter) (hj : chapter.pages.Waiting j) :
      CallStep (.page c i j (some data1)) call (call.pageArrived i chapter j data1 hj)
  | pageLast (c i j : ℕ) (data1 : Data) {call : Call} {chapter : Chapter}
      (hi : call.chapters[i]? = some chapter) (hj : chapter.pages.Waiting j) :
      CallStep (.page c i j (some data1)) call (call.pageArrived i chapter j data1 hj).finished
  | progress (c i j : ℕ) (n : ℤ) {call : Call} {chapter : Chapter} {task : Slot PageTask}
      (hi : call.chapters[i]? = some chapter) (hj : chapter.pages.slots[j]? = some task) :
      CallStep (.progress c i j n) call (call.onProgress task.key.indexArr n)

theorem CallStep.valid {e : Event} {call call' : Call} (h : CallStep e call call')
    (hv : call.Valid) : call'.Valid := by
  cases h with
  | document c reply hw ho => exact hv.onDocument hw ho
  | posterFailed c hw => exact hv.posterFailed hw
  | poster c data hw hf => exact hv.poster hw hf
  | listAll c i reply hi hw => exact hv.onListAll hi hw reply
  | pageFailed c i j hi hj => exact hv.pageFailed hi hj
  | page c i j data1 hi hj => exact hv.pageArrived hi hj data1
  | pageLast c i j data1 hi hj =>
    obtain ⟨h1, h2, h3, h4, h5, h6⟩ := hv.pageArrived hi hj data1
    exact ⟨h1, h2, h3, h4, h5, h6⟩
  | progress c i j n hi hj =>
    obtain ⟨h1, h2, h3, h4, h5, h6⟩ := hv
    exact ⟨h1, h2, h3, h4, h5, h6⟩

theorem CallStep.comicID_eq {e : Event} {call call' : Call} (h : CallStep e call call')
    (hv : call.Valid) : call'.comicID = call.comicID := by
  cases h with
  | document c reply hw ho => exact (Call.onDocument_spec ho).1
  | poster c data hw hf =>
    rw [(Call.forChapters_spec hf (hv.chapters_nil (by simp [hw]))).1]
    rfl
  | listAll c i reply hi hw => cases reply <;> rfl
  | _ => rfl

/-- Only a request in flight is answered. -/
theorem CallStep.inFlight {e : Event} {call call' : Call} (h : CallStep e call call') :
    call.InFlight ∨ ∃ c i j n, e = .progress c i j n := by
  have hpage : ∀ {i j : ℕ} {chapter : Chapter}, call.chapters[i]? = some chapter →
      chapter.pages.Waiting j → call.InFlight := by
    intro i j chapter hi hj
    obtain ⟨k, hk⟩ := hj.slot
    exact .inr (.inr ⟨chapter, List.mem_of_getElem? hi, .inr ⟨_, List.mem_of_getElem? hk, rfl⟩⟩)
  cases h with
  | document c reply hw ho => exact .inl (.inl hw)
  | posterFailed c hw => exact .inl (.inr (.inl hw))
  | poster c data hw hf => exact .inl (.inr (.inl hw))
  | listAll c i reply hi hw => exact .inl (.inr (.inr ⟨_, List.mem_of_getElem? hi, .inl hw⟩))
  | pageFailed c i j hi hj => exact .inl (hpage hi hj)
  | page c i j data1 hi hj => exact .inl (hpage hi hj)
  | pageLast c i j data1 hi hj => exact .inl (hpage hi hj)
  | progress c i j n hi hj => exact .inr ⟨c, i, j, n, rfl⟩

def Event.ofCall : Event → Option ℕ
  | .document c _ => some c
  | .poster c _ => some c
  | .listAll c _ _ => some c
  | .page c _ _ _ => some c
  | .progress c _ _ _ => some c
  | _ => none

theorem getElem?_setCall {s : State} {c c' : ℕ} {call call' : Call}
    (h : (s.setCall c call).calls[c']? = some call') :
    (c' = c ∧ call' = call ∧ c < s.calls.length) ∨ (c' ≠ c ∧ s.calls[c']? = some call') := by
  change (s.calls.set c call)[c']? = some call' at h
  by_cases hc : c' = c
  · subst hc
    obtain ⟨hlt, he⟩ := List.getElem?_eq_some_iff.mp h
    rw [List.getElem_set_self] at he
    exact .inl ⟨rfl, he.symm, by simpa using hlt⟩
  · rw [List.getElem?_set_ne (Ne.symm hc)] at h
    exact .inr ⟨hc, h⟩

/-- Opening an info page touches neither the store nor the downloads. -/
theorem onViewDidLoad_frame (s : State) :
    s.onViewDidLoad.realm = s.realm ∧ s.onViewDidLoad.calls = s.calls ∧
      s.onViewDidLoad.listDownload = s.listDownload ∧
      s.onViewDidLoad.isDowloading = s.isDowloading ∧
      s.onViewDidLoad.sizeUpdates = s.sizeUpdates := by
  unfold State.onViewDidLoad
  split
  · exact ⟨rfl, rfl, rfl, rfl, rfl⟩
  · split <;> exact ⟨rfl, rfl, rfl, rfl, rfl⟩

theorem onDownload_frame (s : State) (p : ℕ) :
    (s.onDownload p).realm = s.realm ∧ (s.onDownload p).listDownload = s.listDownload ∧
      (s.onDownload p).isDowloading = s.isDowloading + 1 ∧
      (s.onDownload p).sizeUpdates = s.sizeUpdates := by
  unfold State.onDownload
  dsimp only
  split <;> exact ⟨rfl, rfl, rfl, rfl⟩

/-- A tap starts a call for `Comic.id`, or stops the process where it is `nil`. -/
theorem onDownload_calls (s : State) (p : ℕ) :
    (∃ id, s.id = some id ∧ (s.onDownload p).calls = s.calls ++ [Shelf.DownloadCommic id] ∧
      (s.onDownload p).running = s.running) ∨
    ((s.onDownload p).calls = s.calls ∧ (s.onDownload p).running = false) := by
  unfold State.onDownload
  dsimp only
  split
  · exact .inr ⟨rfl, rfl⟩
  · rename_i id hid
    exact .inl ⟨id, hid, rfl, rfl⟩

def State.posterRecorded (s : State) (c : ℕ) (call : Call) (data : Data) : State :=
  { s.setCall c (call.posterArrived data) with
    listDownload := s.listDownload ++ [Entry.call c]
    realm := s.realm ++ [(call.posterArrived data).record] }

theorem onPoster_of_trap {s : State} {c : ℕ} {call : Call} {data : Data}
    (hf : (call.posterArrived data).forChapters = none) :
    s.onPoster c call data = (s.posterRecorded c call data).trap := by
  simp only [State.onPoster, hf, State.posterRecorded]

theorem onPoster_of_some {s : State} {c : ℕ} {call call' : Call} {data : Data}
    (hf : (call.posterArrived data).forChapters = some call') :
    s.onPoster c call data =
      { s.setCall c call' with
        listDownload := s.listDownload ++ [Entry.call c]
        realm := s.realm ++ [(call.posterArrived data).record] } := by
  simp only [State.onPoster, hf, State.setCall, List.set_set]

/-- What the arrival of a page can do: some page of the chapter is still missing, or the chapter is
stored in the first record of the comic, if there is one, and then it may be the last. -/
inductive PageOutcome (s : State) (c : ℕ) (call call' : Call) (pages : Batch PageTask Data) :
    State → Prop where
  | more (hl : pages.left ≠ 0) : PageOutcome s c call call' pages (s.setCall c call')
  | unrecorded (hl : pages.left = 0) (hf : s.realm.first call.comicID = none) :
      PageOutcome s c call call' pages (s.setCall c call')
  | stored (comicl : LComic) (hl : pages.left = 0) (hf : s.realm.first call.comicID = some comicl)
      (hn : call.comic.totalChap ≠ some ((comicl.listChap.length : ℤ) + 1)) :
      PageOutcome s c call call' pages
        { s.setCall c call' with realm := s.realm.appendChap call.comicID ⟨pages.got⟩ }
  | last (comicl : LComic) (hl : pages.left = 0) (hf : s.realm.first call.comicID = some comicl)
      (hn : call.comic.totalChap = some ((comicl.listChap.length : ℤ) + 1)) :
      PageOutcome s c call call' pages
        { s.setCall c call'.finished with
          realm := s.realm.appendChap call.comicID ⟨pages.got⟩
          isDowloading := s.isDowloading - 1
          sizeUpdates := if call.comic.totalSize = some call'.tmpTotalSize then s.sizeUpdates
            else s.sizeUpdates ++ [(call.comicID, call'.tmpTotalSize)] }

theorem onPage_outcome (s : State) (c : ℕ) (call : Call) (i : ℕ) (chapter : Chapter) (j : ℕ)
    (data1 : Data) (h : chapter.pages.Waiting j) :
    PageOutcome s c call (call.pageArrived i chapter j data1 h) (chapter.pages.receive j data1 h)
      (s.onPage c call i chapter j data1 h) := by
  unfold State.onPage
  dsimp only
  split_ifs with hl
  · unfold State.storeChapter
    split
    · rename_i hf
      exact .unrecorded hl hf
    · rename_i comicl hf
      dsimp only
      by_cases hn : call.comic.totalChap = some ((comicl.listChap.length : ℤ) + 1)
      · rw [if_pos (show (call.pageArrived i chapter j data1 h).comic.totalChap = _ from hn)]
        have hlast : PageOutcome s c call (call.pageArrived i chapter j data1 h)
            (chapter.pages.receive j data1 h) _ := .last comicl hl hf hn
        simp only [State.setCall, List.set_set]
        exact hlast
      · rw [if_neg (show ¬ (call.pageArrived i chapter j data1 h).comic.totalChap = _ from hn)]
        exact .stored comicl hl hf hn
  · exact .more hl

/-- A reply or a progress event comes to a call of the running process. -/
theorem Transition.exists_call {s s' : State} {e : Event} (h : Transition s e s') {c : ℕ}
    (he : e.ofCall = some c) : ∃ call, s.calls[c]? = some call := by
  cases h <;> first | (obtain rfl := Option.some.inj he; exact ⟨_, ‹_›⟩) | cases he

inductive RealmStep (s : State) : Event → Realm → Prop where
  | same {e : Event} (he : ∀ c data, e ≠ .poster c (some data)) : RealmStep s e s.realm
  | add (c : ℕ) (data : Data) (call : Call) (hr : s.running = true) (hc : s.calls[c]? = some call)
      (hw : call.poster = .waiting) :
      RealmStep s (.poster c (some data)) (s.realm ++ [(call.posterArrived data).record])
  | append (c i j : ℕ) (data1 : Data) (call : Call) (chapter : Chapter) (comicl : LComic)
      (hr : s.running = true) (hc : s.calls[c]? = some call) (hi : call.chapters[i]? = some chapter)
      (hj : chapter.pages.Waiting j) (hf : s.realm.first call.comicID = some comicl) :
      RealmStep s (.page c i j (some data1))
        (s.realm.appendChap call.comicID ⟨(chapter.pages.receive j data1 hj).got⟩)

theorem Transition.realm {s s' : State} {e : Event} (h : Transition s e s') :
    RealmStep s e s'.realm := by
  cases h with
  | viewDidLoad =>
    rw [(onViewDidLoad_frame s).1]
    exact .same nofun
  | download p =>
    rw [(onDownload_frame s p).1]
    exact .same nofun
  | poster c data call hr hc hw =>
    have hadd := RealmStep.add c data call hr hc hw
    cases hf : (call.posterArrived data).forChapters with
    | none => rw [onPoster_of_trap hf]; exact hadd
    | some call' => rw [onPoster_of_some hf]; exact hadd
  | page c i j data1 call chapter hr hc hi hj =>
    generalize hs' : s.onPage c call i chapter j data1 hj = s'
    cases hs' ▸ onPage_outcome s c call i chapter j data1 hj with
    | more | unrecorded => exact .same nofun
    | stored comicl hl hf hn => exact .append c i j data1 call chapter comicl hr hc hi hj hf
    | last comicl hl hf hn => exact .append c i j data1 call chapter comicl hr hc hi hj hf
  | _ => exact .same nofun

theorem Transition.running {s s' : State} {e : Event} (h : Transition s e s') (he : e ≠ .relaunch) :
    s.running = true := by
  cases h <;> first | assumption | exact absurd rfl he

/-- A call of the next state is one that was there, one that a tap has just started, or the result
of the event on its call. -/
theorem Transition.calls_cases {s s' : State} {e : Event} (h : Transition s e s')
    (hr' : s'.running = true) {c : ℕ} {call' : Call} (hc' : s'.calls[c]? = some call') :
    (s.calls[c]? = some call' ∧ e.ofCall ≠ some c) ∨
      (∃ p id, e = .download p ∧ s.id = some id ∧ c = s.calls.length ∧
        call' = Shelf.DownloadCommic id) ∨
      ∃ call, s.calls[c]? = some call ∧ e.ofCall = some c ∧ CallStep e call call' := by
  have hset : ∀ {c₀ : ℕ} {call₀ call₁ : Call}, s.calls[c₀]? = some call₀ → e.ofCall = some c₀ →
      CallStep e call₀ call₁ → s'.calls = (s.setCall c₀ call₁).calls →
      (s.calls[c]? = some call' ∧ e.ofCall ≠ some c) ∨
      (∃ p id, e = .download p ∧ s.id = some id ∧ c = s.calls.length ∧
        call' = Shelf.DownloadCommic id) ∨
      ∃ call, s.calls[c]? = some call ∧ e.ofCall = some c ∧ CallStep e call call' := by
    intro c₀ call₀ call₁ hc₀ he hstep hcalls
    rw [hcalls] at hc'
    rcases getElem?_setCall hc' with ⟨rfl, rfl, -⟩ | ⟨hne, hold⟩
    · exact .inr (.inr ⟨call₀, hc₀, he, hstep⟩)
    · exact .inl ⟨hold, fun hof => hne (Option.some.inj (hof.symm.trans he))⟩
  cases h with
  | relaunch => cases hc'
  | select => exact .inl ⟨hc', nofun⟩
  | viewDidLoad hr =>
    rw [(onViewDidLoad_frame s).2.1] at hc'
    exact .inl ⟨hc', nofun⟩
  | leave => exact .inl ⟨hc', nofun⟩
  | download p hr hp =>
    rcases onDownload_calls s p with ⟨id, hid, hcalls, -⟩ | ⟨-, hstop⟩
    · rw [hcalls, List.getElem?_append] at hc'
      split_ifs at hc' with hlt
      · exact .inl ⟨hc', nofun⟩
      · obtain ⟨hk, rfl⟩ := List.getElem?_eq_some_iff.mp hc'
        have hlen : c = s.calls.length := by simp at hk; omega
        exact .inr (.inl ⟨p, id, rfl, hid, hlen, by simp⟩)
    · rw [hstop] at hr'
      cases hr'
  | documentTrap => cases hr'
  | document c₀ reply call₀ call₁ hr hc hw ho => exact hset hc rfl (.document c₀ reply hw ho) rfl
  | posterFailed c₀ call₀ hr hc hw => exact hset hc rfl (.posterFailed c₀ hw) rfl
  | poster c₀ data call₀ hr hc hw =>
    cases hf : (call₀.posterArrived data).forChapters with
    | none => rw [onPoster_of_trap hf] at hr'; cases hr'
    | some call₁ =>
      rw [onPoster_of_some hf] at hset
      exact hset hc rfl (.poster c₀ data hw hf) rfl
  | listAll c₀ i reply call₀ chapter hr hc hi hw => exact hset hc rfl (.listAll c₀ i reply hi hw) rfl
  | pageFailed c₀ i j call₀ chapter hr hc hi hj => exact hset hc rfl (.pageFailed c₀ i j hi hj) rfl
  | page c₀ i j data1 call₀ chapter hr hc hi hj =>
    generalize hs' : s.onPage c₀ call₀ i chapter j data1 hj = s' at hset
    cases hs' ▸ onPage_outcome s c₀ call₀ i chapter j data1 hj with
    | last => exact hset hc rfl (.pageLast c₀ i j data1 hi hj) rfl
    | _ => exact hset hc rfl (.page c₀ i j data1 hi hj) rfl
  | progress c₀ i j n call₀ chapter task hr hc hi hj => exact hset hc rfl (.progress c₀ i j n hi hj) rfl

/-- A property that a new call has and every event keeps for its call passes to the next state. -/
theorem calls_step {Q : Call → Prop} {s s' : State} {e : Event}
    (hnew : ∀ p id, e = .download p → s.id = some id → Q (Shelf.DownloadCommic id))
    (hstep : ∀ c call call', s.calls[c]? = some call → e.ofCall = some c →
      CallStep e call call' → Q call → Q call')
    (hI : s.running = true → ∀ (c : ℕ) (call : Call), s.calls[c]? = some call → Q call)
    (hs : step s e = some s') (hr' : s'.running = true) {c : ℕ} {call' : Call}
    (hc' : s'.calls[c]? = some call') : Q call' := by
  have ht := Transition.of_step hs
  have hne : e ≠ .relaunch := by
    rintro rfl
    cases ht
    cases hc'
  have hr := ht.running hne
  rcases ht.calls_cases hr' hc' with ⟨hold, -⟩ | ⟨p, id, he, hid, -, rfl⟩ | ⟨call, hc, he, hcs⟩
  · exact hI hr c call' hold
  · exact hnew p id he hid
  · exact hstep c call call' hc he hcs (hI hr c call hc)

/-- Such a property holds of all calls of a running session. -/
theorem calls_invariant {C : State → Event → Prop} {Q : Call → Prop}
    (hnew : ∀ s e id, C s e → s.id = some id → Q (Shelf.DownloadCommic id))
    (hstep : ∀ s e c call call', C s e → s.calls[c]? = some call → e.ofCall = some c →
      CallStep e call call' → Q call → Q call')
    {s₀ s : State} {es : List Event} (h0 : s₀.calls = []) (hC : Along step C s₀ es)
    (hrun : run step s₀ es = some s) (hr : s.running = true) {c : ℕ} {call : Call}
    (hc : s.calls[c]? = some call) : Q call := by
  refine run_invariant step
    (I := fun s => s.running = true → ∀ (c : ℕ) (call : Call), s.calls[c]? = some call → Q call)
    (fun _ c call hc => by simp [h0] at hc) ?_ hC hrun hr c call hc
  intro s e s' hI hC hs hr' c call' hc'
  exact calls_step (fun _ id _ hid => hnew s e id hC hid)
    (fun c call call' hc he hcs hQ => hstep s e c call call' hC hc he hcs hQ) hI hs hr' hc'

/-- The bookkeeping of every call of a running session is right. -/
def ValidCalls (s : State) : Prop :=
  s.running = true → ∀ (c : ℕ) (call : Call), s.calls[c]? = some call → call.Valid

theorem validCalls_of_nil {s : State} (h : s.calls = []) : ValidCalls s := by
  intro _ c call hc
  simp [h] at hc

theorem ValidCalls.step {s s' : State} {e : Event} (hv : ValidCalls s)
    (hs : DownloadSession.step s e = some s') : ValidCalls s' :=
  fun hr' _ _ hc' => calls_step (fun _ id _ _ => Call.valid_DownloadCommic id)
    (fun _ _ _ _ _ h hv => h.valid hv) hv hs hr' hc'

/-- No call is dropped, and none goes back behind its poster. -/
theorem Transition.calls_forward {s s' : State} {e : Event} (h : Transition s e s')
    (hv : ValidCalls s) (he : e ≠ .relaunch) {c : ℕ} {call : Call} (hc : s.calls[c]? = some call) :
    ∃ call', s'.calls[c]? = some call' ∧ call'.comicID = call.comicID ∧
      (call.poster = .arrived → call'.poster = .arrived) := by
  have hsame : s'.calls = s.calls → ∃ call', s'.calls[c]? = some call' ∧
      call'.comicID = call.comicID ∧ (call.poster = .arrived → call'.poster = .arrived) := by
    intro hcalls
    exact ⟨call, by rw [hcalls, hc], rfl, id⟩
  have hset : ∀ {c₀ : ℕ} {call₀ call₁ : Call}, s.calls[c₀]? = some call₀ →
      s'.calls = (s.setCall c₀ call₁).calls → call₁.comicID = call₀.comicID →
      (call₀.poster = .arrived → call₁.poster = .arrived) → ∃ call', s'.calls[c]? = some call' ∧
      call'.comicID = call.comicID ∧ (call.poster = .arrived → call'.poster = .arrived) := by
    intro c₀ call₀ call₁ hc₀ hcalls hid hp
    by_cases hcc : c = c₀
    · subst hcc
      obtain rfl : call = call₀ := Option.some.inj (hc.symm.trans hc₀)
      refine ⟨call₁, ?_, hid, hp⟩
      rw [hcalls]
      exact List.getElem?_set_self (List.getElem?_eq_some_iff.mp hc).1
    · refine ⟨call, ?_, rfl, id⟩
      rw [hcalls]
      exact (List.getElem?_set_ne (Ne.symm hcc)).trans hc
  cases h with
  | relaunch => exact absurd rfl he
  | select => exact hsame rfl
  | viewDidLoad => exact hsame (onViewDidLoad_frame s).2.1
  | leave => exact hsame rfl
  | download p hr hp =>
    rcases onDownload_calls s p with ⟨id, -, hcalls, -⟩ | ⟨hcalls, -⟩
    · refine ⟨call, ?_, rfl, fun hp => hp⟩
      rw [hcalls, List.getElem?_append_left (List.getElem?_eq_some_iff.mp hc).1]
      exact hc
    · exact hsame hcalls
  | documentTrap => exact hsame rfl
  | document c₀ reply call₀ call₁ hr hc₀ hw ho =>
    have hid := (Call.onDocument_spec ho).1
    have hidle := (hv hr c₀ call₀ hc₀).poster_idle hw
    exact hset hc₀ rfl hid fun hp => by rw [hidle] at hp; cases hp
  | posterFailed c₀ call₀ hr hc₀ hw => exact hset hc₀ rfl rfl fun hp => by rw [hw] at hp; cases hp
  | poster c₀ data call₀ hr hc₀ hw =>
    cases hf : (call₀.posterArrived data).forChapters with
    | none =>
      rw [onPoster_of_trap hf] at hset ⊢
      exact hset hc₀ rfl rfl fun _ => rfl
    | some call₁ =>
      rw [onPoster_of_some hf] at hset ⊢
      have hnil := (hv hr c₀ call₀ hc₀).chapters_nil (by simp [hw])
      have he := (Call.forChapters_spec hf hnil).1
      exact hset hc₀ rfl (by rw [he]; rfl) fun _ => by rw [he]; rfl
  | listAll c₀ i reply call₀ chapter hr hc₀ hi hw =>
    exact hset hc₀ rfl (by cases reply <;> rfl) (by cases reply <;> exact id)
  | pageFailed c₀ i j call₀ chapter hr hc₀ hi hj => exact hset hc₀ rfl rfl id
  | page c₀ i j data1 call₀ chapter hr hc₀ hi hj =>
    generalize hs' : s.onPage c₀ call₀ i chapter j data1 hj = s' at hset ⊢
    cases hs' ▸ onPage_outcome s c₀ call₀ i chapter j data1 hj with
    | _ => exact hset hc₀ rfl rfl id
  | progress c₀ i j n call₀ chapter task hr hc₀ hi hj => exact hset hc₀ rfl rfl id

/-- A tap adds the comic it is for; nothing else changes which comics the calls are for. -/
theorem Transition.comicIDs {s s' : State} {e : Event} (h : Transition s e s') (hv : ValidCalls s)
    (he : e ≠ .relaunch) : s'.calls.map Call.comicID = s.calls.map Call.comicID ∨
      ∃ p id, e = .download p ∧ s.id = some id ∧
        s'.calls.map Call.comicID = s.calls.map Call.comicID ++ [id] := by
  have hset : ∀ {c : ℕ} {call call' : Call}, s.calls[c]? = some call →
      s'.calls = (s.setCall c call').calls → call'.comicID = call.comicID →
      s'.calls.map Call.comicID = s.calls.map Call.comicID ∨ ∃ p id, e = .download p ∧
        s.id = some id ∧ s'.calls.map Call.comicID = s.calls.map Call.comicID ++ [id] := by
    intro c call call' hc hcalls hid
    rw [hcalls]
    exact .inl (map_set_of_eq hc hid)
  cases h with
  | relaunch => exact absurd rfl he
  | viewDidLoad => exact .inl (by rw [(onViewDidLoad_frame s).2.1])
  | download p hr hp =>
    rcases onDownload_calls s p with ⟨id, hid, hcalls, -⟩ | ⟨hcalls, -⟩
    · exact .inr ⟨p, id, rfl, hid, by rw [hcalls, List.map_append]; rfl⟩
    · exact .inl (by rw [hcalls])
  | document c reply call call' hr hc hw ho => exact hset hc rfl (Call.onDocument_spec ho).1
  | posterFailed c call hr hc hw => exact hset hc rfl rfl
  | poster c data call hr hc hw =>
    cases hf : (call.posterArrived data).forChapters with
    | none =>
      rw [onPoster_of_trap hf] at hset ⊢
      exact hset hc rfl rfl
    | some call' =>
      rw [onPoster_of_some hf] at hset ⊢
      have hnil := (hv hr c call hc).chapters_nil (by simp [hw])
      exact hset hc rfl (by rw [(Call.forChapters_spec hf hnil).1]; rfl)
  | listAll c i reply call chapter hr hc hi hw => exact hset hc rfl (by cases reply <;> rfl)
  | pageFailed c i j call chapter hr hc hi hj => exact hset hc rfl rfl
  | page c i j data1 call chapter hr hc hi hj =>
    generalize hs' : s.onPage c call i chapter j data1 hj = s' at hset ⊢
    cases hs' ▸ onPage_outcome s c call i chapter j data1 hj with
    | _ => exact hset hc rfl rfl
  | progress c i j n call chapter task hr hc hi hj => exact hset hc rfl rfl
  | _ => exact .inl rfl

end DownloadSession
end ComicApp
