import ComicApp.RemoteStorage

/-!
# The size written back to the catalogue

`DownloadCommic` compares the sum of its own pages with a completion test on a record to which every
call for the comic appends. The sum is the size of the comic when the chapters of the record are
those of the call that completes it, and none of them is one whose listing failed.
-/

namespace ComicApp.DownloadSession
open EventMachine
open scoped List

def AtLastPage (P : Call → LComic → Prop) (s : State) : Event → Prop
  | .page c i _ (some _) => ∀ call ∈ s.calls[c]?, ∀ chapter ∈ call.chapters[i]?,
    chapter.pages.left = 1 → ∀ comicl ∈ s.realm.first call.comicID,
      call.comic.totalChap = some ((comicl.listChap.length : ℤ) + 1) → P call comicl
  | _ => True

instance decidableAtLastPage (P : Call → LComic → Prop) [∀ call comicl, Decidable (P call comicl)]
    (s : State) : ∀ e, Decidable (AtLastPage P s e)
  | .page c _ _ (some _) => inferInstanceAs (Decidable (∀ call ∈ s.calls[c]?, ∀ chapter ∈ _, _ →
    ∀ comicl ∈ s.realm.first call.comicID, _))
  | .page _ _ _ none | .document _ _ | .listAll _ _ _ => .isTrue trivial
  | .select _ | .viewDidLoad | .leave _ | .download _ | .poster _ _ | .progress _ _ _ _
  | .relaunch => .isTrue trivial

/-- The chapters recorded before are as many as the call itself has completed. -/
abbrev OwnChapters : State → Event → Prop :=
  AtLastPage fun call comicl => comicl.listChap.length = call.completed

abbrev ListedChapters : State → Event → Prop :=
  AtLastPage fun call _ => ∀ chapter ∈ call.chapters, chapter.listing = .arrived

theorem mirrors_of_run {R : Remote} {s₀ s : State} {es : List Event} (h0 : s₀.calls = [])
    (hA : Along step (Answers R) s₀ es) (hrun : run step s₀ es = some s) (hr : s.running = true)
    {c : ℕ} {call : Call} (hc : s.calls[c]? = some call) : call.Valid ∧ call.Mirrors R := by
  refine calls_invariant (Q := fun call => call.Valid ∧ call.Mirrors R) ?_ ?_ h0 hA hrun hr hc
  · exact fun s e id _ _ => ⟨Call.valid_DownloadCommic id, Call.Mirrors.DownloadCommic R id⟩
  · exact fun s e c call call' hA hc he hstep h =>
      ⟨hstep.valid h.1, hstep.mirrors hc he hA h.1 h.2⟩

/-- With all chapters listed and complete, `tmpTotalSize` is the size of the remote comic. -/
theorem tmpTotalSize_eq_totalBytes {R : Remote} {call : Call} (hv : call.Valid)
    (hm : call.Mirrors R) (hp : call.poster = .arrived)
    (hlisted : ∀ chapter ∈ call.chapters, chapter.listing = .arrived)
    (hall : ∀ chapter ∈ call.chapters, chapter.Complete) :
    call.tmpTotalSize = R.totalBytes call.comicID := by
  rw [hv.totalSize, Remote.totalBytes, hm.chapters_eq hv hp, List.map_map]
  congr 1
  apply List.map_congr_left
  intro chapter hc
  exact ((hm.got_perm hc (hlisted chapter hc) (hall chapter hc)).map _).sum_eq

/-- The page that fills the record completes the call when the other chapters are its own. -/
theorem all_complete_of_last {call : Call} (hv : call.Valid) {i j : ℕ} {chapter : Chapter}
    (hi : call.chapters[i]? = some chapter) (hj : chapter.pages.Waiting j) (data1 : Data)
    (hl : chapter.pages.left - 1 = 0) {n : ℕ} (hn : call.comic.totalChap = some ((n : ℤ) + 1))
    (hown : n = call.completed) :
    ∀ done ∈ (call.pageArrived i chapter j data1 hj).chapters, done.Complete := by
  rw [← Call.completed_eq_length_iff]
  have hcompl : Chapter.Complete { chapter with pages := chapter.pages.receive j data1 hj } :=
    (Batch.receive_complete_iff _ _ _ hj).mpr hl
  have hcount := Call.completed_setChapter hi (Batch.not_complete_of_waiting hj)
    { chapter with pages := chapter.pages.receive j data1 hj }
  rw [if_pos hcompl] at hcount
  have htotal := hv.totalChap (hv.poster_arrived hi)
  rw [hn, Option.some.injEq] at htotal
  have hlen : (call.pageArrived i chapter j data1 hj).chapters.length = call.chapters.length :=
    List.length_set
  have hsame : (call.pageArrived i chapter j data1 hj).completed = call.completed + 1 := hcount
  omega

theorem sizeUpdates_step {R : Remote} {s s' : State} {e : Event}
    (hcalls : s.running = true → ∀ (c : ℕ) (call : Call), s.calls[c]? = some call →
      call.Valid ∧ call.Mirrors R)
    (hA : Answers R s e) (hown : OwnChapters s e) (hlisted : ListedChapters s e)
    (h : step s e = some s')
    (hI : ∀ u ∈ s.sizeUpdates, u.2 = R.totalBytes u.1) :
    ∀ u ∈ s'.sizeUpdates, u.2 = R.totalBytes u.1 := by
  cases Transition.of_step h with
  | relaunch => exact fun u hu => by cases hu
  | viewDidLoad => rwa [(onViewDidLoad_frame s).2.2.2.2]
  | download p => rwa [(onDownload_frame s p).2.2.2]
  | poster c data call =>
    cases hf : (call.posterArrived data).forChapters with
    | none => rwa [onPoster_of_trap hf]
    | some call' => rwa [onPoster_of_some hf]
  | page c i j data1 call chapter hr hc hi hj =>
    obtain ⟨hv, hm⟩ := hcalls hr c call hc
    generalize hs' : s.onPage c call i chapter j data1 hj = s'
    cases hs' ▸ onPage_outcome s c call i chapter j data1 hj with
    | last comicl hl hf hn =>
      have hleft : chapter.pages.left = 1 := by rw [Batch.receive_left] at hl; omega
      have hn' := hown call hc chapter hi hleft comicl hf hn
      have hlisted := hlisted call hc chapter hi hleft comicl hf hn
      have hall := all_complete_of_last hv hi hj data1 hl hn hn'
      have hm' := hm.pageArrived hi hj (hA call hc chapter hi)
      have hsize := tmpTotalSize_eq_totalBytes (hv.pageArrived hi hj data1) hm'
        (hv.poster_arrived hi) (forall_mem_set hlisted i (hlisted chapter (List.mem_of_getElem? hi)))
        hall
      intro u hu
      dsimp only at hu
      split_ifs at hu
      · exact hI u hu
      · rcases List.mem_append.mp hu with hu | hu
        · exact hI u hu
        · rw [List.mem_singleton.mp hu]
          exact hsize
    | _ => exact hI
  | _ => exact hI

/-- Every size written back is the size of the comic, in each run in which no page completes a
record that other calls have filled in part, or after a listing of its own call has failed. -/
theorem size_written_back (R : Remote) (realm : Realm) (es : List Event) (s : State)
    (hrun : run step (launch realm) es = some s)
    (hC : Along step (fun s e => Answers R s e ∧ OwnChapters s e ∧ ListedChapters s e)
      (launch realm) es) :
    ∀ u ∈ s.sizeUpdates, u.2 = R.totalBytes u.1 := by
  refine run_induction step (I := fun _ s => ∀ u ∈ s.sizeUpdates, u.2 = R.totalBytes u.1)
    (fun u hu => by cases hu) ?_ hC hrun
  intro es s e s' hrun hC hI hc hs
  exact sizeUpdates_step (fun hr c call hcall =>
    mirrors_of_run rfl (hC.mono step fun _ _ h => h.1) hrun hr hcall) hc.1 hc.2.1 hc.2.2 hs hI

def twoFolders : Remote where
  document id := if id = "a" then some ⟨some "A", some 2, some 0, some "a.jpg", some "a"⟩ else none
  listAll path := if path = "a/001" then ["p"] else if path = "a/002" then ["q"] else []
  getData item := if item = "p" then [1] else [2, 3]

def downloadedOnce : List Event :=
  [.select (some "a"), .viewDidLoad, .download 0,
    .document 0 (.found ⟨some "A", some 2, some 0, some "a.jpg", some "a"⟩), .poster 0 (some []),
    .listAll 0 0 (.success ["p"]), .page 0 0 0 (some [1]),
    .listAll 0 1 (.success ["q"]), .page 0 1 0 (some [2, 3])]

def afterDownload : State := (run step (launch []) downloadedOnce).get (by decide +kernel)

theorem size_written_back_once :
    ("a", 3) ∈ afterDownload.sizeUpdates ∧ 3 = twoFolders.totalBytes "a" :=
  ⟨by decide +kernel, size_written_back twoFolders [] downloadedOnce afterDownload
    (Option.some_get _).symm (by decide +kernel) ("a", 3) (by decide +kernel)⟩

/-- Both calls append their first chapter to the one record they find. -/
def downloadedTwice : List Event :=
  [.select (some "a"), .viewDidLoad, .download 0, .leave 0, .viewDidLoad, .download 0,
    .document 0 (.found ⟨some "A", some 2, some 0, some "a.jpg", some "a"⟩), .poster 0 (some []),
    .document 1 (.found ⟨some "A", some 2, some 0, some "a.jpg", some "a"⟩), .poster 1 (some []),
    .listAll 0 0 (.success ["p"]), .page 0 0 0 (some [1]),
    .listAll 1 0 (.success ["p"]), .page 1 0 0 (some [1])]

theorem not_size_written_back : ¬ ∀ (R : Remote) (realm : Realm) (es : List Event) (s : State),
    run step (launch realm) es = some s → Along step (Answers R) (launch realm) es →
      ∀ u ∈ s.sizeUpdates, u.2 = R.totalBytes u.1 := by
  intro h
  have hsize := h twoFolders [] downloadedTwice
    ((run step (launch []) downloadedTwice).get (by decide +kernel)) (Option.some_get _).symm
    (by decide +kernel) ("a", 1) (by decide +kernel)
  exact absurd hsize (by decide +kernel)

end ComicApp.DownloadSession
