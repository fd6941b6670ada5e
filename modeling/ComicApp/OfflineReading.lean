import ComicApp.ReadingSession

/-!
# Reading a downloaded comic

`Comic.nchap` bounds the chapters that the reader and the chapter list reach. It starts as the count
of the record and is overwritten by the count of the remote folders, while the index goes into the
record. The index stays inside the record as long as no listing counts more chapters than it holds
and the rows tapped still exist when they are tapped.
-/

namespace ComicApp.ReadingSession
open EventMachine

/-- The events on the page of a comic whose record holds `n` chapters: no other comic is chosen, the
tab stays in front, listings count no more folders than that, START READ finds a chapter, and a row is
tapped while `Comic.nchap` still has it. -/
def WithinRecord (n : ℕ) (s : State) : Event → Prop
  | .select _ | .viewDidLoad | .tab _ => False
  | .listAll _ reply => reply.listed ≤ n
  | .readChap => 1 ≤ n
  | .didSelectRow row => ∀ nchap ∈ s.nchap, (row : ℤ) < nchap
  | _ => True

instance decidableWithinRecord (n : ℕ) (s : State) : ∀ e, Decidable (WithinRecord n s e)
  | .select _ | .viewDidLoad | .tab _ => .isFalse id
  | .listAll _ reply => inferInstanceAs (Decidable (reply.listed ≤ n))
  | .readChap => inferInstanceAs (Decidable (1 ≤ n))
  | .didSelectRow _ => inferInstanceAs (Decidable (∀ nchap ∈ s.nchap, _))
  | .showChap | .prevChap | .nextChap | .back => .isTrue trivial

def Screen.IsChapter : Screen → Prop
  | .chapter _ _ => True
  | _ => False

structure Offline (id : String) (comicl : LComic) (s : State) : Prop where
  comicID : s.id = some id
  first : s.realm.first id = some comicl
  isDownloaded : s.isDownloaded = true
  nchap : ∃ nchap, s.nchap = some nchap ∧ nchap ≤ comicl.listChap.length
  loads : ∀ index ∈ s.loads, 0 ≤ index ∧ index < comicl.listChap.length

structure ReaderOnTop (comicl : LComic) (s : State) : Prop where
  enabled : ∀ prevIsEnabled nextIsEnabled under,
    s.screens = .chapter prevIsEnabled nextIsEnabled :: under → ∃ chap, s.chap = some chap ∧
      0 ≤ chap ∧ chap < comicl.listChap.length ∧ (prevIsEnabled = true → 0 < chap) ∧
      (nextIsEnabled = true → chap < comicl.listChap.length - 1)
  under : ∀ screen ∈ s.screens.tail, ¬ screen.IsChapter

theorem offline_viewDidLoad {s₀ : State} {id : String} {comicl : LComic}
    (hid : s₀.id = some id) (hscreens : s₀.screens = []) (hloads : s₀.loads = [])
    (hfirst : s₀.realm.first id = some comicl)
    (hfull : (comicl.listChap.length : ℤ) = comicl.comicNChap) :
    Offline id comicl s₀.onViewDidLoad ∧ ReaderOnTop comicl s₀.onViewDidLoad := by
  rw [onViewDidLoad_of_first hid hfirst, hscreens]
  refine ⟨⟨hid, hfirst, rfl, ⟨_, rfl, hfull.ge⟩, by simp [hloads]⟩, ⟨?_, by simp⟩⟩
  intro prevIsEnabled nextIsEnabled under h
  simp at h

/-- The reader shows a stored chapter, and its buttons are those of that chapter. -/
theorem Offline.chapterViewDidLoad {id : String} {comicl : LComic} {s : State}
    (h : Offline id comicl s) {chap : ℤ} (hchap : s.chap = some chap) (h0 : 0 ≤ chap)
    (hlt : chap < comicl.listChap.length) {under : List Screen}
    (hunder : ∀ screen ∈ under, ¬ screen.IsChapter) :
    Offline id comicl (s.chapterViewDidLoad under) ∧
      ReaderOnTop comicl (s.chapterViewDidLoad under) := by
  obtain ⟨nchap, hn, hle⟩ := h.nchap
  have hloads : ∀ index ∈ s.loads ++ [chap], 0 ≤ index ∧ index < comicl.listChap.length := by
    intro index hm
    rcases List.mem_append.mp hm with hm | hm
    · exact h.loads index hm
    · rw [List.mem_singleton.mp hm]
      exact ⟨h0, hlt⟩
  have hbuttons : ∀ prevIsEnabled nextIsEnabled rest,
      Screen.chapter (ChapterViewController.Init chap nchap).1
        (ChapterViewController.Init chap nchap).2 :: under =
          .chapter prevIsEnabled nextIsEnabled :: rest → ∃ chap', some chap = some chap' ∧
      0 ≤ chap' ∧ chap' < comicl.listChap.length ∧ (prevIsEnabled = true → 0 < chap') ∧
      (nextIsEnabled = true → chap' < comicl.listChap.length - 1) := by
    intro prevIsEnabled nextIsEnabled rest heq
    obtain ⟨hscreen, -⟩ := List.cons.inj heq
    obtain ⟨rfl, rfl⟩ := Screen.chapter.inj hscreen
    refine ⟨chap, rfl, h0, hlt, fun hp => ?_, fun hnext => ?_⟩
    · simp [ChapterViewController.Init] at hp
      omega
    · simp [ChapterViewController.Init] at hnext
      omega
  unfold State.chapterViewDidLoad
  simp only [hchap, hn, h.isDownloaded, if_true]
  split
  · exact ⟨⟨h.comicID, h.first, rfl, ⟨nchap, rfl, hle⟩, hloads⟩, ⟨hbuttons, hunder⟩⟩
  · exact ⟨⟨h.comicID, h.first, rfl, ⟨nchap, rfl, hle⟩, hloads⟩, ⟨hbuttons, hunder⟩⟩

theorem offline_step {id : String} {comicl : LComic} {s s' : State} {e : Event}
    (h : Offline id comicl s) (htop : ReaderOnTop comicl s)
    (hC : WithinRecord comicl.listChap.length s e) (hs : step s e = some s') :
    Offline id comicl s' ∧ ReaderOnTop comicl s' := by
  have hinfo : ∀ {top : Screen} {under : List Screen}, s.screens = top :: under →
      ¬ top.IsChapter → ∀ screen ∈ s.screens, ¬ screen.IsChapter := by
    intro top under hscreens htop' screen hm
    have hunder := htop.under
    rw [hscreens] at hm hunder
    rcases List.mem_cons.mp hm with rfl | hm
    · exact htop'
    · exact hunder screen hm
  have hsame (chap : Option ℤ) : Offline id comicl { s with chap := chap } :=
    ⟨h.comicID, h.first, h.isDownloaded, h.nchap, h.loads⟩
  obtain ⟨nchap, hn, hle⟩ := h.nchap
  cases Transition.of_step hs with
  | select | viewDidLoad | tab => exact hC.elim
  | listAll u reply listing hu hw =>
    have hprefixes : reply.listed ≤ comicl.listChap.length := hC
    dsimp only [State.onListAll]
    split_ifs with hzero
    · exact ⟨⟨h.comicID, h.first, h.isDownloaded, h.nchap, h.loads⟩, htop.enabled, htop.under⟩
    · refine ⟨⟨h.comicID, h.first, h.isDownloaded, ⟨_, rfl, ?_⟩, h.loads⟩, htop.enabled,
        htop.under⟩
      exact_mod_cast hprefixes
  | readChap under hscreens =>
    have hpos : 1 ≤ comicl.listChap.length := hC
    exact (hsame (some 0)).chapterViewDidLoad rfl le_rfl (by omega) (hinfo hscreens not_false)
  | showChap under hscreens =>
    simp only [State.onShowChap, hn]
    refine ⟨⟨h.comicID, h.first, h.isDownloaded, ⟨nchap, rfl, hle⟩, h.loads⟩, ?_,
      hinfo hscreens not_false⟩
    intro prevIsEnabled nextIsEnabled rest heq
    cases heq
  | didSelectRow row chap under hscreens hrow =>
    have hlt : (row : ℤ) < nchap := hC nchap hn
    simp only [State.onSelectRow, hn]
    have hread := (hsame (some (nchap - row - 1))).chapterViewDidLoad rfl (by omega) (by omega)
      (hinfo hscreens not_false)
    simpa only [hn] using hread
  | prevChap nextIsEnabled under hscreens =>
    obtain ⟨chap, hchap, h0, hlt, hprev, -⟩ := htop.enabled _ _ _ hscreens
    have hpos := hprev rfl
    have hunder := htop.under
    rw [hscreens] at hunder
    simp only [State.onTurn, hchap]
    exact (hsame (some (chap + -1))).chapterViewDidLoad rfl (by omega) (by omega) hunder
  | nextChap prevIsEnabled under hscreens =>
    obtain ⟨chap, hchap, h0, -, -, hnext⟩ := htop.enabled _ _ _ hscreens
    have hlt := hnext rfl
    have hunder := htop.under
    rw [hscreens] at hunder
    simp only [State.onTurn, hchap]
    exact (hsame (some (chap + 1))).chapterViewDidLoad rfl (by omega) (by omega) hunder
  | back top under hscreens =>
    have hunder := htop.under
    rw [hscreens] at hunder
    refine ⟨⟨h.comicID, h.first, h.isDownloaded, h.nchap, h.loads⟩, ?_, ?_⟩
    · intro prevIsEnabled nextIsEnabled rest heq
      have hrest : under = .chapter prevIsEnabled nextIsEnabled :: rest := heq
      have hmem : Screen.chapter prevIsEnabled nextIsEnabled ∈ under := by simp [hrest]
      exact (hunder _ hmem trivial).elim
    · exact fun screen hm => hunder screen (List.mem_of_mem_tail hm)

/-- On the page of a complete record every index given to `loadChapterFromRealm` is that of a stored
chapter, whatever the user does, as long as the remote comic has not more chapters than the record
and no row is tapped that a reply has taken from the list. -/
theorem loads_in_range (s₀ s₁ s : State) (id : String) (comicl : LComic) (es : List Event)
    (hid : s₀.id = some id) (hscreens : s₀.screens = []) (hloads : s₀.loads = [])
    (hfirst : s₀.realm.first id = some comicl)
    (hfull : (comicl.listChap.length : ℤ) = comicl.comicNChap)
    (hopen : step s₀ .viewDidLoad = some s₁) (hrun : run step s₁ es = some s)
    (hC : Along step (WithinRecord comicl.listChap.length) s₁ es) :
    ∀ index ∈ s.loads, 0 ≤ index ∧ index < comicl.listChap.length := by
  have hinit : Offline id comicl s₁ ∧ ReaderOnTop comicl s₁ := by
    cases Transition.of_step hopen with
    | viewDidLoad => exact offline_viewDidLoad hid hscreens hloads hfirst hfull
  have hI := run_invariant step (I := fun s => Offline id comicl s ∧ ReaderOnTop comicl s) hinit
    (fun s e s' h hc hs => offline_step h.1 h.2 hc hs) hC hrun
  exact hI.1.loads

def twoChapters : LComic := ⟨"a", "A", 2, [], [⟨[[1]]⟩, ⟨[[2]]⟩]⟩

def selected : State := { launch [twoChapters] with id := some "a" }

def readThrough : List Event :=
  [.readChap, .nextChap, .listAll 0 (.success 2), .prevChap, .back, .showChap, .didSelectRow 1]

def afterReading : State := (run step selected.onViewDidLoad readThrough).get (by decide +kernel)

theorem loads_in_range_readThrough :
    (1 : ℤ) ∈ afterReading.loads ∧ (0 : ℤ) ≤ 1 ∧ (1 : ℤ) < twoChapters.listChap.length :=
  ⟨by decide +kernel, loads_in_range selected selected.onViewDidLoad afterReading "a" twoChapters
    readThrough rfl rfl rfl (by decide +kernel) rfl rfl (Option.some_get _).symm (by decide +kernel) 1
    (by decide +kernel)⟩

def chapterAdded : List Event := [.listAll 0 (.success 3), .readChap, .nextChap, .nextChap]

theorem not_loads_in_range : ¬ ∀ (s₀ s₁ s : State) (id : String) (comicl : LComic) (es : List Event),
    s₀.id = some id → s₀.screens = [] → s₀.loads = [] → s₀.realm.first id = some comicl →
    (comicl.listChap.length : ℤ) = comicl.comicNChap →
    step s₀ .viewDidLoad = some s₁ → run step s₁ es = some s →
    (∀ e ∈ es, e ≠ .viewDidLoad ∧ (∀ k, e ≠ .tab k) ∧ ∀ id, e ≠ .select id) →
    ∀ index ∈ s.loads, 0 ≤ index ∧ index < comicl.listChap.length := by
  intro h
  have hindex := h selected selected.onViewDidLoad
    ((run step selected.onViewDidLoad chapterAdded).get (by decide +kernel)) "a" twoChapters
    chapterAdded rfl rfl rfl (by decide +kernel) rfl rfl (Option.some_get _).symm
    (by simp [chapterAdded]) 2 (by decide +kernel)
  exact absurd hindex.2 (by decide)

end ComicApp.ReadingSession
