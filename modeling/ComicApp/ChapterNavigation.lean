import ComicApp.ReaderPages

/-!
# Finding one's way among the chapters

The rows of the chapter list count down from `Comic.nchap` to 1, the index `Comic.chap` counts from 0
and the titles from 1. While the number of chapters stays the same, row, index, title and the two
buttons of the reader agree, a tap on a button moves the index by one, and every chapter can be reached:
through its row from every screen, and by taps on one button from every open reader unless a chapter on
the way cannot be shown, at which the app stops.
-/

namespace ComicApp

def ShowChapViewController.cellForRowAt (chap : List ℤ) (row : ℕ) : Option String :=
  chap[row]?.map fun k => s!"Chap {k}"

/-- Row `i` holds `n - i`. -/
theorem ShowChapViewController.Init_eq {n : ℤ} (hn : 1 ≤ n) :
    Init n = (List.range n.toNat).map fun i : ℕ => n - i := by
  rw [Init, if_neg (by omega)]
  simp only [List.bind_eq_flatMap, List.pure_def, List.map_flatMap, List.map_cons, List.map_nil]
  induction List.range n.toNat with
  | nil => rfl
  | cons i rows ih =>
    rw [List.flatMap_cons, ih, List.map_cons, List.singleton_append]
    congr 1
    omega

theorem ShowChapViewController.mem_Init {n k : ℤ} (hn : 1 ≤ n) : k ∈ Init n ↔ 1 ≤ k ∧ k ≤ n := by
  rw [Init_eq hn, List.mem_map]
  constructor
  · rintro ⟨i, hi, rfl⟩
    rw [List.mem_range] at hi
    omega
  · rintro ⟨h1, hk⟩
    exact ⟨(n - k).toNat, by rw [List.mem_range]; omega, by omega⟩

/-- The rows count down. -/
theorem ShowChapViewController.pairwise_Init {n : ℤ} (hn : 1 ≤ n) : (Init n).Pairwise (· > ·) := by
  rw [Init_eq hn, List.pairwise_map]
  refine List.pairwise_lt_range.imp ?_
  intro i j hij
  omega

theorem ShowChapViewController.row_of_getElem? {n k : ℤ} (hn : 1 ≤ n) {row : ℕ}
    (h : (Init n)[row]? = some k) : k = n - row ∧ 1 ≤ k ∧ k ≤ n := by
  have hmem := (mem_Init hn).mp (List.mem_of_getElem? h)
  rw [Init_eq hn, List.getElem?_map] at h
  obtain ⟨i, hi, hk⟩ := Option.map_eq_some_iff.mp h
  obtain ⟨hrow, rfl⟩ := List.getElem?_eq_some_iff.mp hi
  rw [List.getElem_range] at hk
  exact ⟨hk.symm, hmem⟩

namespace ReaderPages
open EventMachine ReadingSession ChapterViewController PageLoad
variable (decode : Data → Option CGSize) (widths : ReaderWidths)

def State.title (s : State) : Option String :=
  (s.shown.head?.bind fun r => s.readers[r]?).map ChapterViewController.title

/-- The user stays with the page of a comic that keeps its `n` chapters. -/
def KeepsCount (n : ℤ) : Event → Prop
  | .app .viewDidLoad | .app (.tab _) => False
  | .app (.listAll _ reply) => reply.listed = 0 ∨ (reply.listed : ℤ) = n
  | _ => True

theorem viewDidLoad_app (s : State) (r : ℕ) (reader : ChapterViewController) :
    ∃ running, (s.viewDidLoad decode r reader).app = { s.app with running := running } := by
  unfold State.viewDidLoad
  split
  · dsimp only
    split_ifs
    · split
      · exact ⟨false, rfl⟩
      · exact ⟨s.app.running, rfl⟩
    · split
      · exact ⟨false, rfl⟩
      · exact ⟨s.app.running, rfl⟩
  · exact ⟨s.app.running, rfl⟩

theorem addPages_title (c : ChapterViewController) (height : ℚ) (pages : List UIImage) :
    (c.addPages height pages).title = c.title := by
  induction pages generalizing c height with
  | nil => rfl
  | cons page pages ih =>
    rw [addPages, ih]
    rfl

/-- `viewDidLoad` titles the reader after the chapter it is set up for. -/
theorem viewDidLoad_title {s : State} {r : ℕ} {reader : ChapterViewController} {index n : ℤ}
    (hchap : s.app.chap = some index) (hn : s.app.nchap = some n) (hr : r < s.readers.length) :
    ∃ titled, (s.viewDidLoad decode r reader).readers[r]? = some titled ∧
      titled.title = s!"Chap {index + 1}" := by
  unfold State.viewDidLoad
  simp only [hchap, hn]
  split_ifs
  · split
    · exact ⟨_, List.getElem?_set_self hr, rfl⟩
    · rename_i shown hshown
      obtain ⟨listImg, -, hadd⟩ := Option.bind_eq_some_iff.mp hshown
      obtain ⟨pages, -, rfl⟩ := addListImg_eq_some decode hadd
      exact ⟨_, List.getElem?_set_self (by simpa using hr), addPages_title _ _ _⟩
  · split
    · exact ⟨_, List.getElem?_set_self hr, rfl⟩
    · exact ⟨_, List.getElem?_set_self hr, rfl⟩

theorem viewDidLoad_shown (s : State) (r : ℕ) (reader : ChapterViewController) :
    (s.viewDidLoad decode r reader).shown = s.shown := by
  unfold State.viewDidLoad
  split
  · dsimp only
    split_ifs
    · split <;> rfl
    · split <;> rfl
  · rfl

structure Labelled (n : ℤ) (s : State) : Prop where
  nchap : s.app.nchap = some n
  lists : ∀ chap, .showChap chap ∈ s.app.screens → chap = ShowChapViewController.Init n
  under : ∀ screen ∈ s.app.screens.tail, ¬ screen.IsChapter
  hidden : (∀ screen ∈ s.app.screens.head?, ¬ screen.IsChapter) → s.shown = []
  top : ∀ p q under, s.app.screens = .chapter p q :: under →
    ∃ r reader index, s.shown = [r] ∧ s.readers[r]? = some reader ∧ s.app.chap = some index ∧
      0 ≤ index ∧ index < n ∧ reader.title = s!"Chap {index + 1}" ∧ (p, q) = Init index n
  bottom : ∀ p q, s.app.screens ≠ [.chapter p q]

theorem Labelled.under_ne_nil {n : ℤ} {s : State} (h : Labelled n s) {p q : Bool}
    {under : List Screen} (hs : s.app.screens = .chapter p q :: under) : under ≠ [] := by
  rintro rfl
  exact h.bottom p q hs

/-- A reader set up for a chapter in range. -/
theorem labelled_viewDidLoad {n index : ℤ} {s : State} {app : ReadingSession.State} {r : ℕ}
    {reader : ChapterViewController} {under : List Screen} (hopened : Opened app s.app index n under)
    (h0 : 0 ≤ index) (hlt : index < n) (hunder : ∀ screen ∈ under, ¬ screen.IsChapter)
    (hlists : ∀ chap, .showChap chap ∈ under → chap = ShowChapViewController.Init n)
    (hne : under ≠ []) (hshown : s.shown = [r]) (hr : r < s.readers.length) :
    Labelled n (s.viewDidLoad decode r reader) := by
  obtain ⟨running, happ⟩ := viewDidLoad_app decode s r reader
  have hscreens : (s.viewDidLoad decode r reader).app.screens =
      .chapter (Init index n).1 (Init index n).2 :: under := by
    rw [happ]
    exact hopened.screens
  refine ⟨?_, ?_, ?_, ?_, ?_, ?_⟩
  · rw [happ]
    exact hopened.nchap
  · intro chap hmem
    rw [hscreens] at hmem
    exact hlists chap (List.mem_of_ne_of_mem (by simp) hmem)
  · rw [hscreens]
    exact hunder
  · rw [hscreens]
    exact fun h => absurd trivial (h _ rfl)
  · intro p q rest htop
    obtain ⟨titled, htitled, htitle⟩ : ∃ titled,
        (s.viewDidLoad decode r reader).readers[r]? = some titled ∧
          titled.title = s!"Chap {index + 1}" :=
      viewDidLoad_title decode hopened.chap hopened.nchap hr
    rw [hscreens] at htop
    obtain ⟨hscreen, -⟩ := List.cons.inj htop
    obtain ⟨rfl, rfl⟩ := Screen.chapter.inj hscreen
    refine ⟨r, titled, index, ?_, htitled, ?_, h0, hlt, htitle, rfl⟩
    · rw [viewDidLoad_shown, hshown]
    · rw [happ]
      exact hopened.chap
  · intro p q htop
    rw [hscreens] at htop
    exact hne (List.cons.inj htop).2

theorem Labelled.openReader {n index : ℤ} {s : State} (h : Labelled n s)
    {app' : ReadingSession.State} {top : Screen} {under : List Screen}
    (hscreens : s.app.screens = top :: under) (htop : ¬ top.IsChapter)
    (hopened : Opened s.app app' index n s.app.screens) (h0 : 0 ≤ index) (hlt : index < n) :
    Labelled n ({ s with app := app' }.openReader decode widths) := by
  have hshown : s.shown = [] := h.hidden (by simpa [hscreens] using htop)
  have hunder := h.under
  rw [hscreens] at hunder
  refine labelled_viewDidLoad decode hopened h0 hlt ?_ h.lists (by simp [hscreens]) ?_ ?_
  · rw [hscreens]
    exact List.forall_mem_cons.mpr ⟨htop, hunder⟩
  · rw [hshown]
  · simp

theorem Labelled.turn {n : ℤ} {s : State} (h : Labelled n s) {d : ℤ} {p q : Bool}
    {under : List Screen} (hscreens : s.app.screens = .chapter p q :: under)
    (hd : ∀ index, s.app.chap = some index → 0 ≤ index → index < n → (p, q) = Init index n →
      0 ≤ index + d ∧ index + d < n) :
    Labelled n ({ s with app := s.app.onTurn d under }.turn decode) := by
  obtain ⟨r, reader, index, hshown, hr, hchap, h0, hlt, htitle, hpq⟩ := h.top p q under hscreens
  obtain ⟨h0', hlt'⟩ := hd index hchap h0 hlt hpq
  have happ : s.app.onTurn d under =
      { s.app with chap := some (index + d) }.chapterViewDidLoad under := by
    simp [ReadingSession.State.onTurn, hchap]
  have hturn : { s with app := s.app.onTurn d under }.turn decode =
      { s with app := s.app.onTurn d under }.viewDidLoad decode r reader := by
    simp [State.turn, hshown, hr]
  have hunder := h.under
  have hlists := h.lists
  rw [hscreens] at hunder hlists
  have hopened := @opened_chapterViewDidLoad { s.app with chap := some (index + d) } _ n rfl h.nchap
    under
  rw [hturn, happ]
  exact labelled_viewDidLoad decode hopened h0' hlt' hunder
    (fun chap hmem => hlists chap (List.mem_cons_of_mem _ hmem)) (h.under_ne_nil hscreens) hshown
    (List.getElem?_eq_some_iff.mp hr).1

theorem pageStep_title {t t' : PageLoad.State} {e : PageLoad.Event}
    (h : PageLoad.step decode t e = some t') : t'.reader.title = t.reader.title := by
  cases PageLoad.Transition.of_step decode h with
  | listAll => rfl
  | getData j arrives data hj =>
    cases arrives with
    | false => rfl
    | true =>
      dsimp only [PageLoad.State.onGetData]
      split <;> rfl

theorem Labelled.onPage {n : ℤ} {s : State} (h : Labelled n s) {d : ℕ} {download : Download}
    {reader : ChapterViewController} {t : PageLoad.State}
    (hreader : s.readers[download.reader]? = some reader) (ht : t.reader.title = reader.title) :
    Labelled n (s.onPage d download t) := by
  refine ⟨h.nchap, h.lists, h.under, h.hidden, ?_, h.bottom⟩
  intro p q under htop
  obtain ⟨r, top, index, hshown, hr, hchap, h0, hlt, htitle, hpq⟩ := h.top p q under htop
  by_cases hrr : download.reader = r
  · subst hrr
    obtain rfl : top = reader := Option.some.inj (hr.symm.trans hreader)
    exact ⟨_, t.reader, index, hshown,
      List.getElem?_set_self (List.getElem?_eq_some_iff.mp hr).1, hchap, h0, hlt,
      ht.trans htitle, hpq⟩
  · exact ⟨r, top, index, hshown, (List.getElem?_set_ne hrr).trans hr, hchap, h0, hlt, htitle, hpq⟩

theorem Labelled.showChap {n : ℤ} {s : State} (h : Labelled n s) {under : List Screen}
    (hs : s.app.screens = .info :: under) : Labelled n { s with app := s.app.onShowChap } := by
  have happ' : s.app.onShowChap = { s.app with
      screens := .showChap (ShowChapViewController.Init n) :: s.app.screens } := by
    simp [ReadingSession.State.onShowChap, h.nchap]
  rw [happ']
  refine ⟨h.nchap, ?_, ?_, fun _ => h.hidden (by simp [hs, Screen.IsChapter]), ?_, ?_⟩
  · intro chap hmem
    rcases List.mem_cons.mp hmem with heq | hmem
    · exact Screen.showChap.inj heq
    · exact h.lists chap hmem
  · have hunder := h.under
    rw [hs] at hunder
    change ∀ screen ∈ s.app.screens, ¬ screen.IsChapter
    rw [hs]
    exact List.forall_mem_cons.mpr ⟨not_false, hunder⟩
  · intro p q rest htop
    cases htop
  · intro p q hbottom
    cases hbottom

theorem Labelled.didSelectRow {n : ℤ} (hn : 1 ≤ n) {s : State} (h : Labelled n s) {row : ℕ}
    {chap : List ℤ} {under : List Screen} (hs : s.app.screens = .showChap chap :: under)
    (hrow : row < chap.length) :
    Labelled n ({ s with app := s.app.onSelectRow row }.openReader decode widths) := by
  obtain rfl := h.lists chap (by simp [hs])
  have hlt : (row : ℤ) < n := by
    rw [ShowChapViewController.Init_eq hn, List.length_map, List.length_range] at hrow
    omega
  have happ' : s.app.onSelectRow row =
      { s.app with chap := some (n - row - 1) }.chapterViewDidLoad s.app.screens := by
    simp [ReadingSession.State.onSelectRow, h.nchap]
  have hopened := @opened_chapterViewDidLoad { s.app with chap := some (n - row - 1) } _ n rfl
    h.nchap s.app.screens
  rw [happ']
  exact h.openReader decode widths hs not_false hopened.of_chap (by omega) (by omega)

/-- Below the reader there is no other reader. -/
theorem Labelled.back {n : ℤ} {s : State} (h : Labelled n s) {top : Screen} {under : List Screen}
    (hs : s.app.screens = top :: under) :
    Labelled n ({ s with app := { s.app with screens := under } }.onApp decode widths
      s.app.screens .back) := by
  have hunder := h.under
  rw [hs] at hunder
  have hlists : ∀ chap, .showChap chap ∈ under → chap = ShowChapViewController.Init n :=
    fun chap hmem => h.lists chap (by rw [hs]; exact List.mem_cons_of_mem _ hmem)
  have htop (p q : Bool) (rest : List Screen) (heq : under = .chapter p q :: rest) : False :=
    hunder (.chapter p q) (by simp [heq]) trivial
  dsimp only [State.onApp]
  rw [hs]
  split
  · rename_i p q rest heq
    obtain ⟨r, reader, index, hshown, -⟩ := h.top p q rest (hs.trans heq)
    exact ⟨h.nchap, hlists, fun screen hm => hunder screen (List.mem_of_mem_tail hm),
      fun _ => by rw [hshown]; rfl, fun p q rest heq => (htop p q rest heq).elim,
      fun p q heq => htop p q [] heq⟩
  · rename_i hne
    refine ⟨h.nchap, hlists, fun screen hm => hunder screen (List.mem_of_mem_tail hm),
      fun _ => h.hidden ?_, fun p q rest heq => (htop p q rest heq).elim,
      fun p q heq => htop p q [] heq⟩
    rw [hs]
    intro screen hscreen
    obtain rfl := Option.some.inj hscreen
    cases top with
    | chapter p q => exact absurd rfl (hne p q under)
    | info => exact not_false
    | showChap chap => exact not_false

theorem labelled_step {n : ℤ} (hn : 1 ≤ n) {s s' : State} {e : Event} (h : Labelled n s)
    (hC : KeepsCount n e) (hstep : step decode widths s e = some s') : Labelled n s' := by
  cases e with
  | page d e =>
    obtain ⟨download, reader, t, -, hreader, ht, rfl⟩ := page_of_step decode widths hstep
    exact h.onPage hreader (pageStep_title decode ht)
  | app e =>
    obtain ⟨app', happ, rfl⟩ := app_of_step decode widths hstep
    cases ReadingSession.Transition.of_step happ with
    | select id => exact ⟨h.nchap, h.lists, h.under, h.hidden, h.top, h.bottom⟩
    | viewDidLoad | tab => exact hC.elim
    | listAll u reply listing hu hw =>
      dsimp only [State.onApp, ReadingSession.State.onListAll]
      split_ifs with hzero
      · exact ⟨h.nchap, h.lists, h.under, h.hidden, h.top, h.bottom⟩
      · have hcount : (reply.listed : ℤ) = n := hC.resolve_left hzero
        exact ⟨congrArg some hcount, h.lists, h.under, h.hidden, h.top, h.bottom⟩
    | readChap under hs =>
      have hopened := @opened_chapterViewDidLoad { s.app with chap := some 0 } 0 n rfl h.nchap
        s.app.screens
      exact h.openReader decode widths hs not_false hopened.of_chap le_rfl (by omega)
    | showChap under hs => exact h.showChap hs
    | didSelectRow row chap under hs hrow => exact h.didSelectRow decode widths hn hs hrow
    | prevChap nextIsEnabled under hs =>
      refine h.turn decode hs ?_
      intro index _ h0 hlt hpq
      have hp : (Init index n).1 = true := by rw [← hpq]
      simp [Init] at hp
      omega
    | nextChap prevIsEnabled under hs =>
      refine h.turn decode hs ?_
      intro index _ h0 hlt hpq
      have hq : (Init index n).2 = true := by rw [← hpq]
      simp [Init] at hq
      omega
    | back top under hs => exact h.back decode widths hs

theorem labelled_start {n : ℤ} {app : ReadingSession.State}
    (hinfo : ∀ screen ∈ app.screens, screen = .info) (hnchap : app.nchap = some n) :
    Labelled n (start app) := by
  have hnone : ∀ screen ∈ app.screens, ¬ screen.IsChapter := fun screen hm => by
    rw [hinfo screen hm]
    exact not_false
  have hno (p q : Bool) (under : List Screen) (htop : app.screens = .chapter p q :: under) : False :=
    hnone (.chapter p q) (by simp [htop]) trivial
  refine ⟨hnchap, ?_, fun screen hm => hnone screen (List.mem_of_mem_tail hm), fun _ => rfl,
    fun p q under htop => (hno p q under htop).elim, fun p q htop => hno p q [] htop⟩
  intro chap hmem
  cases hinfo _ hmem

/-- The chapter can be shown without a trap: it is stored and its pages are images, or it is read
from the folder of an open comic. -/
def State.Loads (s : State) (index : ℤ) : Prop :=
  if s.app.isDownloaded then
    ∃ listImg, loadChapterFromRealm s.app.realm s.app.id index = some listImg ∧
      ∀ data ∈ listImg, (decode data).isSome
  else s.app.id.isSome

theorem exists_addListImg {listImg : List Data} (h : ∀ data ∈ listImg, (decode data).isSome)
    (c : ChapterViewController) (height : ℚ) :
    ∃ shown, c.addListImg decode height listImg = some shown := by
  induction listImg generalizing c height with
  | nil => exact ⟨c, rfl⟩
  | cons img listImg ih =>
    obtain ⟨himg, hrest⟩ := List.forall_mem_cons.mp h
    obtain ⟨size, hsize⟩ := Option.isSome_iff_exists.mp himg
    rw [addListImg, UIImage.ofData, hsize]
    exact ih hrest _ _

/-- From `s` a reader of chapter `index` has come up over the screens `under`. -/
structure ShowsAt (s s' : State) (index : ℤ) (under : List Screen) : Prop where
  chap : s'.app.chap = some index
  screens : ∃ p q, s'.app.screens = .chapter p q :: under
  id : s'.app.id = s.app.id
  realm : s'.app.realm = s.app.realm
  isDownloaded : s'.app.isDownloaded = s.app.isDownloaded
  running : s.Loads decode index → s'.app.running = true

theorem ShowsAt.loads_iff {s s' : State} {index : ℤ} {under : List Screen}
    (h : ShowsAt decode s s' index under) (j : ℤ) : s'.Loads decode j ↔ s.Loads decode j := by
  unfold State.Loads
  rw [h.id, h.realm, h.isDownloaded]

theorem showsAt_viewDidLoad {s t : State} {n index : ℤ} {under : List Screen} {r : ℕ}
    {reader : ChapterViewController} (hrunning : s.app.running = true)
    (hn : s.app.nchap = some n)
    (ht : t.app = { s.app with chap := some index }.chapterViewDidLoad under) :
    ShowsAt decode s (t.viewDidLoad decode r reader) index under := by
  have hopened := @opened_chapterViewDidLoad { s.app with chap := some index } index n rfl hn under
  rw [← ht] at hopened
  obtain ⟨running, happ⟩ := viewDidLoad_app decode t r reader
  refine ⟨?_, ?_, ?_, ?_, ?_, ?_⟩
  · rw [happ]
    exact hopened.chap
  · rw [happ]
    exact ⟨_, _, hopened.screens⟩
  · rw [happ]
    exact hopened.id
  · rw [happ]
    exact hopened.realm
  · rw [happ]
    exact hopened.isDownloaded
  · intro hloads
    unfold State.Loads at hloads
    split_ifs at hloads with hd
    · obtain ⟨listImg, hlist, himages⟩ := hloads
      have hrun : t.app.running = true := by
        rw [ht]
        simp [ReadingSession.State.chapterViewDidLoad, hn, hd, hlist, hrunning]
      obtain ⟨shown, hshown⟩ := exists_addListImg decode himages
        { reader with title := s!"Chap {index + 1}" } 0
      have hshow : showChapterFromRealm decode { reader with title := s!"Chap {index + 1}" }
          t.app.realm t.app.id index = some shown := by
        rw [showChapterFromRealm, hopened.realm, hopened.id, hlist]
        exact hshown
      simp only [State.viewDidLoad, hopened.chap, hopened.nchap, hopened.isDownloaded, hd, if_true,
        hshow]
      exact hrun
    · obtain ⟨id, hid⟩ := Option.isSome_iff_exists.mp hloads
      have hrun : t.app.running = true := by
        rw [ht]
        simp [ReadingSession.State.chapterViewDidLoad, hn, hd, hrunning]
      have hid' : t.app.id = some id := hopened.id.trans hid
      simp only [State.viewDidLoad, hopened.chap, hopened.nchap, hopened.isDownloaded, hd, hid']
      exact hrun

theorem showsAt_openReader {s : State} {app' : ReadingSession.State} {n index : ℤ}
    (hrunning : s.app.running = true) (hn : s.app.nchap = some n)
    (happ : app' = { s.app with chap := some index }.chapterViewDidLoad s.app.screens) :
    ShowsAt decode s ({ s with app := app' }.openReader decode widths) index s.app.screens :=
  showsAt_viewDidLoad decode hrunning hn happ

theorem readChap_step {n : ℤ} {s : State} {under : List Screen} (h : Labelled n s)
    (hrunning : s.app.running = true) (hs : s.app.screens = .info :: under) :
    ∃ s', step decode widths s (.app .readChap) = some s' ∧
      ShowsAt decode s s' 0 s.app.screens := by
  have happ : ReadingSession.step s.app .readChap = some s.app.onReadChap := by
    simp [ReadingSession.step, hrunning, hs]
  refine ⟨_, by rw [step, happ]; rfl, showsAt_openReader decode widths hrunning h.nchap rfl⟩

theorem didSelectRow_step {n k : ℤ} {s : State} {chap : List ℤ} {under : List Screen} {row : ℕ}
    (hn : 1 ≤ n) (h : Labelled n s) (hrunning : s.app.running = true)
    (hs : s.app.screens = .showChap chap :: under) (hrow : chap[row]? = some k) :
    ∃ s', step decode widths s (.app (.didSelectRow row)) = some s' ∧
      ShowsAt decode s s' (k - 1) s.app.screens := by
  obtain rfl := h.lists chap (by simp [hs])
  obtain ⟨rfl, -⟩ := ShowChapViewController.row_of_getElem? hn hrow
  have happ : ReadingSession.step s.app (.didSelectRow row) = some (s.app.onSelectRow row) := by
    simp [ReadingSession.step, hrunning, hs, (List.getElem?_eq_some_iff.mp hrow).1]
  have hselect : s.app.onSelectRow row =
      { s.app with chap := some (n - row - 1) }.chapterViewDidLoad s.app.screens := by
    simp [ReadingSession.State.onSelectRow, h.nchap]
  exact ⟨_, by rw [step, happ]; rfl, showsAt_openReader decode widths hrunning h.nchap hselect⟩

def turnEvent (d : ℤ) : ReadingSession.Event := if 0 < d then .nextChap else .prevChap

/-- A tap on an enabled button moves the chapter by one. -/
theorem turn_step {n index d : ℤ} {s : State} {p q : Bool} {under : List Screen} (h : Labelled n s)
    (hrunning : s.app.running = true) (hs : s.app.screens = .chapter p q :: under)
    (hchap : s.app.chap = some index) (hd : d = 1 ∧ q = true ∨ d = -1 ∧ p = true) :
    ∃ s', step decode widths s (.app (turnEvent d)) = some s' ∧
      ShowsAt decode s s' (index + d) under := by
  obtain ⟨r, reader, -, hshown, hr, -⟩ := h.top p q under hs
  have happ : ReadingSession.step s.app (turnEvent d) = some (s.app.onTurn d under) := by
    rcases hd with ⟨rfl, rfl⟩ | ⟨rfl, rfl⟩ <;> simp [turnEvent, ReadingSession.step, hrunning, hs]
  have honApp (t : State) : t.onApp decode widths s.app.screens (turnEvent d) = t.turn decode := by
    rcases hd with ⟨rfl, -⟩ | ⟨rfl, -⟩ <;> rfl
  have hturn : s.app.onTurn d under =
      { s.app with chap := some (index + d) }.chapterViewDidLoad under := by
    simp [ReadingSession.State.onTurn, hchap]
  refine ⟨{ s with app := s.app.onTurn d under }.viewDidLoad decode r reader, ?_,
    showsAt_viewDidLoad decode hrunning h.nchap hturn⟩
  rw [step, happ, Option.map_some, honApp]
  simp [State.turn, hshown, hr]

theorem showChap_step {n : ℤ} {s : State} {under : List Screen} (h : Labelled n s)
    (hrunning : s.app.running = true) (hs : s.app.screens = .info :: under) :
    ∃ s', step decode widths s (.app .showChap) = some s' ∧ s'.app.running = true ∧
      s'.app.screens = .showChap (ShowChapViewController.Init n) :: s.app.screens := by
  have happ : ReadingSession.step s.app .showChap = some s.app.onShowChap := by
    simp [ReadingSession.step, hrunning, hs]
  refine ⟨{ s with app := s.app.onShowChap }, by rw [step, happ]; rfl, ?_⟩
  simp [ReadingSession.State.onShowChap, h.nchap, hrunning]

theorem back_step {s : State} {top : Screen} {under : List Screen}
    (hrunning : s.app.running = true) (hs : s.app.screens = top :: under) :
    ∃ s', step decode widths s (.app .back) = some s' ∧ s'.app.running = true ∧
      s'.app.screens = under := by
  have happ : ReadingSession.step s.app .back = some { s.app with screens := under } := by
    simp [ReadingSession.step, hrunning, hs]
  refine ⟨_, by rw [step, happ]; rfl, ?_⟩
  simp only [State.onApp]
  split <;> exact ⟨hrunning, rfl⟩

/-- What the reader on top tells the user. -/
theorem Labelled.reader {n : ℤ} {s : State} (h : Labelled n s) {p q : Bool} {under : List Screen}
    (hs : s.app.screens = .chapter p q :: under) :
    ∃ index, s.app.chap = some index ∧ 0 ≤ index ∧ index < n ∧
      s.title = some s!"Chap {index + 1}" ∧ (p = true ↔ 0 < index) ∧
      (q = true ↔ index < n - 1) := by
  obtain ⟨r, reader, index, hshown, hr, hchap, h0, hlt, htitle, hpq⟩ := h.top p q under hs
  obtain ⟨rfl, rfl⟩ := Prod.mk.inj hpq
  refine ⟨index, hchap, h0, hlt, ?_, by simp, ?_⟩
  · simp [State.title, hshown, hr, htitle]
  · simp
    omega

theorem ShowsAt.title {n index : ℤ} {s s' : State} {under : List Screen}
    (h : ShowsAt decode s s' index under) (hl : Labelled n s') :
    s'.title = some s!"Chap {index + 1}" := by
  obtain ⟨p, q, hs⟩ := h.screens
  obtain ⟨index', hchap, -, -, htitle, -⟩ := hl.reader hs
  rwa [Option.some.inj (h.chap.symm.trans hchap)]

theorem ShowsAt.trans {s t u : State} {i j : ℤ} {under : List Screen}
    (h : ShowsAt decode s t i under) (h' : ShowsAt decode t u j under) :
    ShowsAt decode s u j under :=
  ⟨h'.chap, h'.screens, h'.id.trans h.id, h'.realm.trans h.realm,
    h'.isDownloaded.trans h.isDownloaded, fun hl => h'.running ((h.loads_iff decode j).mpr hl)⟩

/-- Taps on one button lead from chapter `index` through the next `t` ones, unless the app stops at
one of them. -/
theorem exists_turns {n index d : ℤ} (hn : 1 ≤ n) {s : State} {p q : Bool} {under : List Screen}
    (h : Labelled n s) (hrunning : s.app.running = true)
    (hs : s.app.screens = .chapter p q :: under) (hchap : s.app.chap = some index)
    (hd : d = 1 ∨ d = -1) (t : ℕ) (h0 : 0 ≤ index + d * t) (hlt : index + d * t < n) :
    ∃ m ≤ t, ∃ s', run (step decode widths) s (List.replicate m (.app (turnEvent d))) = some s' ∧
      Labelled n s' ∧ ShowsAt decode s s' (index + d * m) under ∧
      (m = t ∨ s'.app.running = false) := by
  induction t with
  | zero =>
    refine ⟨0, le_rfl, s, rfl, h, ?_, .inl rfl⟩
    exact ⟨by simp [hchap], ⟨p, q, hs⟩, rfl, rfl, rfl, fun _ => hrunning⟩
  | succ t ih =>
    obtain ⟨index', hchap', h0', hlt', -⟩ := h.reader hs
    obtain rfl : index = index' := Option.some.inj (hchap.symm.trans hchap')
    push_cast at h0 hlt
    obtain ⟨m, hm, s', hrun, hl, hshows, hend⟩ :=
      ih (by rcases hd with rfl | rfl <;> omega) (by rcases hd with rfl | rfl <;> omega)
    by_cases hrunning' : s'.app.running = true
    · obtain rfl : m = t := hend.resolve_right (by simp [hrunning'])
      obtain ⟨p', q', hscreens⟩ := hshows.screens
      obtain ⟨at', hat, -, -, -, hp, hq⟩ := hl.reader hscreens
      obtain rfl : index + d * m = at' := Option.some.inj (hshows.chap.symm.trans hat)
      have henabled : d = 1 ∧ q' = true ∨ d = -1 ∧ p' = true := by
        rcases hd with rfl | rfl
        · exact .inl ⟨rfl, hq.mpr (by omega)⟩
        · exact .inr ⟨rfl, hp.mpr (by omega)⟩
      obtain ⟨u, hstep, hu⟩ := turn_step decode widths hl hrunning' hscreens hat henabled
      have hkeeps : KeepsCount n (.app (turnEvent d)) := by
        rcases hd with rfl | rfl <;> exact trivial
      refine ⟨m + 1, le_rfl, u, ?_, labelled_step decode widths hn hl hkeeps hstep, ?_, .inl rfl⟩
      · rw [List.replicate_succ']
        exact (run_concat_eq_some _).mpr ⟨s', hrun, hstep⟩
      · have hindex : index + d * m + d = index + d * (m + 1 : ℕ) := by
          push_cast
          rw [mul_add, mul_one, add_assoc]
        exact hshows.trans decode (hindex ▸ hu)
    · exact ⟨m, by omega, s', hrun, hl, hshows, .inr (by simpa using hrunning')⟩

/-- Taps on the button towards `target` lead there, or stop the app at a chapter that cannot be
shown. -/
theorem exists_turns_to {n index target : ℤ} (hn : 1 ≤ n) {s : State} {p q : Bool}
    {under : List Screen} (h : Labelled n s) (hrunning : s.app.running = true)
    (hs : s.app.screens = .chapter p q :: under) (hchap : s.app.chap = some index)
    (h0 : 0 ≤ target) (hlt : target < n) :
    ∃ (m : ℕ) (s' : State),
      run (step decode widths) s (List.replicate m (.app (turnEvent (target - index)))) = some s' ∧
      ((s'.app.chap = some target ∧ s'.title = some s!"Chap {target + 1}") ∨
        s'.app.running = false ∧ ∃ j, s'.app.chap = some j ∧ ¬ s.Loads decode j) := by
  obtain ⟨d, t, hd, ht, hevent⟩ : ∃ (d : ℤ) (t : ℕ), (d = 1 ∨ d = -1) ∧ index + d * t = target ∧
      turnEvent (target - index) = turnEvent d := by
    by_cases hup : index < target
    · exact ⟨1, (target - index).toNat, .inl rfl, by omega, by rw [turnEvent, if_pos (by omega)]; rfl⟩
    · exact ⟨-1, (index - target).toNat, .inr rfl, by omega, by rw [turnEvent, if_neg (by omega)]; rfl⟩
  obtain ⟨m, -, s', hrun, hl, hshows, hend⟩ := exists_turns decode widths hn h hrunning hs hchap hd t
    (by omega) (by omega)
  rw [hevent]
  refine ⟨m, s', hrun, ?_⟩
  rcases hend with rfl | hstop
  · rw [ht] at hshows
    exact .inl ⟨hshows.chap, hshows.title decode hl⟩
  · refine .inr ⟨hstop, _, hshows.chap, fun hloads => ?_⟩
    rw [hshows.running hloads] at hstop
    cases hstop

/-- The taps that lead to the row of a chapter from these screens, the one in front first. -/
def tapsTo (row : ℕ) : List Screen → List Event
  | [] => []
  | .showChap _ :: _ => [.app (.didSelectRow row)]
  | .info :: _ => [.app .showChap, .app (.didSelectRow row)]
  | .chapter _ _ :: under => .app .back :: tapsTo row under

/-- The row "Chap k" opens chapter `k - 1`, whatever screen is in front. -/
theorem run_tapsTo {n k : ℤ} (hn : 1 ≤ n) {row : ℕ}
    (hrow : (ShowChapViewController.Init n)[row]? = some k) {s : State} (h : Labelled n s)
    (hrunning : s.app.running = true) (hne : s.app.screens ≠ []) :
    ∃ s', run (step decode widths) s (tapsTo row s.app.screens) = some s' ∧
      s'.app.chap = some (k - 1) ∧ s'.title = some s!"Chap {k}" := by
  -- in front of the list the row is tapped at once
  have hlist {t : State} {chap : List ℤ} {under : List Screen} (ht : Labelled n t)
      (hrun : t.app.running = true) (hs : t.app.screens = .showChap chap :: under) :
      ∃ t', run (step decode widths) t [.app (.didSelectRow row)] = some t' ∧
        t'.app.chap = some (k - 1) ∧ t'.title = some s!"Chap {k}" := by
    obtain rfl := ht.lists chap (by simp [hs])
    obtain ⟨t', hstep, hshows⟩ := didSelectRow_step decode widths hn ht hrun hs hrow
    have hl := labelled_step decode widths hn (e := .app (.didSelectRow row)) ht trivial hstep
    have htitle := hshows.title decode hl
    rw [sub_add_cancel] at htitle
    exact ⟨t', by simp [run, hstep], hshows.chap, htitle⟩
  have hinfo {t : State} {under : List Screen} (ht : Labelled n t) (hrun : t.app.running = true)
      (hs : t.app.screens = .info :: under) :
      ∃ t', run (step decode widths) t [.app .showChap, .app (.didSelectRow row)] = some t' ∧
        t'.app.chap = some (k - 1) ∧ t'.title = some s!"Chap {k}" := by
    obtain ⟨t₁, hstep, hrun₁, hs₁⟩ := showChap_step decode widths ht hrun hs
    have hl := labelled_step decode widths hn (e := .app .showChap) ht trivial hstep
    obtain ⟨t', hrow', hshows⟩ := hlist hl hrun₁ hs₁
    exact ⟨t', by rw [run, hstep]; exact hrow', hshows⟩
  cases hscreens : s.app.screens with
  | nil => exact absurd hscreens hne
  | cons top under =>
    cases top with
    | showChap chap => exact hlist h hrunning hscreens
    | info => exact hinfo h hrunning hscreens
    | chapter p q =>
      obtain ⟨t, hstep, hrun, hs⟩ := back_step decode widths hrunning hscreens
      have hl := labelled_step decode widths hn (e := .app .back) h trivial hstep
      have hunder := h.under
      have hne' := h.under_ne_nil hscreens
      rw [hscreens] at hunder
      obtain ⟨t', hrow', hshows⟩ : ∃ t', run (step decode widths) t (tapsTo row under) = some t' ∧
          t'.app.chap = some (k - 1) ∧ t'.title = some s!"Chap {k}" := by
        cases under with
        | nil => exact absurd rfl hne'
        | cons below rest =>
          cases below with
          | showChap chap => exact hlist hl hrun hs
          | info => exact hinfo hl hrun hs
          | chapter p' q' => exact absurd trivial (hunder _ List.mem_cons_self)
      exact ⟨t', by rw [tapsTo, run, hstep]; exact hrow', hshows⟩

/-- With a fixed number of chapters, after any taps: the list counts down from `n` to 1; the row
"Chap k" opens chapter `k - 1` under the title "Chap k", and START READ the first chapter; the reader
is inside the chapters, and its title and buttons are those of its chapter; an enabled button moves it
by one, and taps on the button towards another chapter lead there unless they stop the app at a chapter
that cannot be shown; and from every screen back and two taps lead to every chapter through its row. -/
theorem chapters_navigable (n : ℤ) (hn : 1 ≤ n) (app : ReadingSession.State) (es : List Event)
    (s : State) (hinfo : ∀ screen ∈ app.screens, screen = .info) (hnchap : app.nchap = some n)
    (hC : ∀ e ∈ es, KeepsCount n e) (hrun : run (step decode widths) (start app) es = some s) :
    (∀ chap under, s.app.screens = .showChap chap :: under →
      chap.Pairwise (· > ·) ∧ ∀ k, k ∈ chap ↔ 1 ≤ k ∧ k ≤ n) ∧
    (∀ chap under row k, s.app.running = true → s.app.screens = .showChap chap :: under →
      chap[row]? = some k → ShowChapViewController.cellForRowAt chap row = some s!"Chap {k}" ∧
      ∃ s', step decode widths s (.app (.didSelectRow row)) = some s' ∧
        s'.app.chap = some (k - 1) ∧ s'.title = some s!"Chap {k}") ∧
    (∀ under, s.app.running = true → s.app.screens = .info :: under →
      ∃ s', step decode widths s (.app .readChap) = some s' ∧
        s'.app.chap = some 0 ∧ s'.title = some s!"Chap {(0 : ℤ) + 1}") ∧
    (∀ p q under, s.app.screens = .chapter p q :: under →
      ∃ index, s.app.chap = some index ∧ 0 ≤ index ∧ index < n ∧
        s.title = some s!"Chap {index + 1}" ∧ (p = true ↔ 0 < index) ∧
        (q = true ↔ index < n - 1)) ∧
    (∀ p q under index, s.app.running = true → s.app.screens = .chapter p q :: under →
      s.app.chap = some index →
      (p = true → ∃ s', step decode widths s (.app .prevChap) = some s' ∧
        s'.app.chap = some (index - 1) ∧ s'.title = some s!"Chap {index - 1 + 1}") ∧
      (q = true → ∃ s', step decode widths s (.app .nextChap) = some s' ∧
        s'.app.chap = some (index + 1) ∧ s'.title = some s!"Chap {index + 1 + 1}") ∧
      ∀ target, 0 ≤ target → target < n → ∃ (m : ℕ) (s' : State),
        run (step decode widths) s (List.replicate m (.app (turnEvent (target - index)))) = some s' ∧
        ((s'.app.chap = some target ∧ s'.title = some s!"Chap {target + 1}") ∨
          s'.app.running = false ∧ ∃ j, s'.app.chap = some j ∧ ¬ s.Loads decode j)) ∧
    ∀ k, 1 ≤ k → k ≤ n → s.app.running = true → s.app.screens ≠ [] →
      ∃ row s', run (step decode widths) s (tapsTo row s.app.screens) = some s' ∧
        s'.app.chap = some (k - 1) ∧ s'.title = some s!"Chap {k}" := by
  have h : Labelled n s := run_invariant (step decode widths) (C := fun _ e => KeepsCount n e)
    (labelled_start hinfo hnchap) (fun s e s' h hc hs => labelled_step decode widths hn h hc hs)
    (along_of_forall_mem _ hC) hrun
  refine ⟨?_, ?_, ?_, fun p q under hs => h.reader hs, ?_, ?_⟩
  · intro chap under hs
    obtain rfl := h.lists chap (by simp [hs])
    exact ⟨ShowChapViewController.pairwise_Init hn, fun k => ShowChapViewController.mem_Init hn⟩
  · intro chap under row k hrunning hs hrow
    obtain ⟨s', hstep, hshows⟩ := didSelectRow_step decode widths hn h hrunning hs hrow
    have hl := labelled_step decode widths hn (e := .app (.didSelectRow row)) h trivial hstep
    have htitle := hshows.title decode hl
    rw [sub_add_cancel] at htitle
    exact ⟨by rw [ShowChapViewController.cellForRowAt, hrow]; rfl, s', hstep, hshows.chap, htitle⟩
  · intro under hrunning hs
    obtain ⟨s', hstep, hshows⟩ := readChap_step decode widths h hrunning hs
    have hl := labelled_step decode widths hn (e := .app .readChap) h trivial hstep
    exact ⟨s', hstep, hshows.chap, hshows.title decode hl⟩
  · intro p q under index hrunning hs hchap
    refine ⟨fun hp => ?_, fun hq => ?_, fun target h0 hlt =>
      exists_turns_to decode widths hn h hrunning hs hchap h0 hlt⟩
    · obtain ⟨s', hstep, hshows⟩ :=
        turn_step decode widths h hrunning hs hchap (.inr ⟨rfl, hp⟩)
      have hl := labelled_step decode widths hn (e := .app .prevChap) h trivial hstep
      exact ⟨s', hstep, hshows.chap, hshows.title decode hl⟩
    · obtain ⟨s', hstep, hshows⟩ :=
        turn_step decode widths h hrunning hs hchap (.inl ⟨rfl, hq⟩)
      have hl := labelled_step decode widths hn (e := .app .nextChap) h trivial hstep
      exact ⟨s', hstep, hshows.chap, hshows.title decode hl⟩
  · intro k h1 hk hrunning hne
    have hmem := (ShowChapViewController.mem_Init hn).mpr ⟨h1, hk⟩
    obtain ⟨row, hrow⟩ := List.mem_iff_getElem?.mp hmem
    obtain ⟨s', hrun', hshows⟩ := run_tapsTo decode widths hn hrow h hrunning hne
    exact ⟨row, s', hrun', hshows⟩

def tapRow : List Event :=
  [.app .showChap, .app (.didSelectRow 1), .app .nextChap, .app (.listAll 0 (.success 2)),
    .app .prevChap]

def twoChapterPage : ReadingSession.State := { infoPage with nchap := some 2 }

def afterTapRow : State :=
  (run (step squares fourWide) (start twoChapterPage) tapRow).get (by decide +kernel)

theorem chapters_navigable_tapRow : ∃ index, afterTapRow.app.chap = some index ∧ 0 ≤ index ∧
    index < 2 ∧ afterTapRow.title = some s!"Chap {index + 1}" := by
  have hscreens : twoChapterPage.screens = [.info] := by decide +kernel
  obtain ⟨-, -, -, hreader, -⟩ := chapters_navigable squares fourWide 2 (by decide) twoChapterPage
    tapRow afterTapRow (by simp [hscreens]) rfl (by simp [tapRow, KeepsCount, ListAllReply.listed])
    (Option.some_get _).symm
  have htop : afterTapRow.app.screens = [.chapter false true, .showChap [2, 1], .info] := by
    decide +kernel
  obtain ⟨index, hchap, h0, hlt, htitle, -⟩ := hreader false true _ htop
  exact ⟨index, hchap, h0, hlt, htitle⟩

end ReaderPages
end ComicApp
