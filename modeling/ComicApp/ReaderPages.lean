import ComicApp.OfflineReading
import ComicApp.PageLoad

/-!
# The pages in the reader

The readers of a session of reading, with the `downLoad` calls they made. Every time a reader is
opened or turned, `viewDidLoad` sets its title and loads the pages of chapter `Comic.chap` into its
scroll view; a page that arrives goes into the reader whose `downLoad` asked for it. `readers` and
`downloads` only grow, and `shown` lists the readers among the screens, the top one first. `decode`
stands for `UIImage(data:)` and `remote` for the pages in each folder, in the order `listAll` gives.
-/

namespace ComicApp

def ChapterViewController.path (id : String) (index : ℤ) : String :=
  let path :=
    if index < 9 then s!"/00{index + 1}"
    else if index < 99 then s!"/0{index + 1}"
    else s!"/{index + 1}"
  "Comic/" ++ id ++ path

structure ReaderWidths where
  view : ℚ
  bounds : ℚ
  bounds_nonneg : 0 ≤ bounds

def ChapterViewController.new (widths : ReaderWidths) : ChapterViewController :=
  ⟨"", widths.view, widths.bounds, widths.bounds_nonneg, [], [], 0⟩

namespace ReaderPages
open EventMachine ReadingSession ChapterViewController StackedLayout PageLoad
variable (decode : Data → Option CGSize) (widths : ReaderWidths) (remote : String → List Data)

structure Download where
  reader : ℕ
  path : String
  load : Load
  deriving DecidableEq

structure State where
  app : ReadingSession.State
  readers : List ChapterViewController
  shown : List ℕ
  tabs : List (List ℕ)
  downloads : List Download

inductive Event where
  | app (e : ReadingSession.Event)
  | page (d : ℕ) (e : PageLoad.Event)
  deriving DecidableEq, Repr

def start (app : ReadingSession.State) : State := ⟨app, [], [], app.tabs.map fun _ => [], []⟩

namespace State

def viewDidLoad (s : State) (r : ℕ) (reader : ChapterViewController) : State :=
  match s.app.chap, s.app.nchap with
  | some chap, some _ =>
    let reader := { reader with title := s!"Chap {chap + 1}" }
    let s := { s with readers := s.readers.set r reader }
    if s.app.isDownloaded then
      match reader.showChapterFromRealm decode s.app.realm s.app.id chap with
      | none => { s with app := s.app.trap }
      | some reader => { s with readers := s.readers.set r reader }
    else
      match s.app.id with
      | none => { s with app := s.app.trap }
      | some id => { s with downloads := s.downloads ++ [⟨r, path id chap, .downLoad⟩] }
  | _, _ => s

def openReader (s : State) : State :=
  let reader := ChapterViewController.new widths
  let r := s.readers.length
  { s with readers := s.readers ++ [reader], shown := r :: s.shown }.viewDidLoad decode r reader

def turn (s : State) : State :=
  match s.shown with
  | [] => s
  | r :: _ =>
    match s.readers[r]? with
    | none => s
    | some reader => s.viewDidLoad decode r reader

/-- What an event of the app does to the readers; `screens` are the screens before it. -/
def onApp (s : State) (screens : List Screen) : ReadingSession.Event → State
  | .readChap | .didSelectRow _ => s.openReader decode widths
  | .prevChap | .nextChap => s.turn decode
  | .back =>
    match screens with
    | .chapter _ _ :: _ => { s with shown := s.shown.tail }
    | _ => s
  | .tab k => { s with shown := s.tabs[k]?.getD [], tabs := s.tabs.set k s.shown }
  | .select _ | .viewDidLoad | .listAll _ _ | .showChap => s

def onPage (s : State) (d : ℕ) (download : Download) (t : PageLoad.State) : State :=
  { s with
    app := { s.app with running := t.running }
    readers := s.readers.set download.reader t.reader
    downloads := s.downloads.set d { download with load := t.load } }

end State

def step (s : State) : Event → Option State
  | .app e =>
    (ReadingSession.step s.app e).map fun app =>
      { s with app := app }.onApp decode widths s.app.screens e
  | .page d e =>
    match s.downloads[d]? with
    | none => none
    | some download =>
      match s.readers[download.reader]? with
      | none => none
      | some reader =>
        (PageLoad.step decode ⟨reader, download.load, s.app.running⟩ e).map (s.onPage d download)

theorem app_of_step {s s' : State} {e : ReadingSession.Event}
    (h : step decode widths s (.app e) = some s') :
    ∃ app, ReadingSession.step s.app e = some app ∧
      s' = { s with app := app }.onApp decode widths s.app.screens e := by
  obtain ⟨app, happ, rfl⟩ := Option.map_eq_some_iff.mp h
  exact ⟨app, happ, rfl⟩

theorem page_of_step {s s' : State} {d : ℕ} {e : PageLoad.Event}
    (h : step decode widths s (.page d e) = some s') :
    ∃ download reader t, s.downloads[d]? = some download ∧
      s.readers[download.reader]? = some reader ∧
      PageLoad.step decode ⟨reader, download.load, s.app.running⟩ e = some t ∧
      s' = s.onPage d download t := by
  unfold step at h
  dsimp only at h
  split at h
  · cases h
  · rename_i download hd
    split at h
    · cases h
    · rename_i reader hreader
      obtain ⟨t, ht, rfl⟩ := Option.map_eq_some_iff.mp h
      exact ⟨download, reader, t, hd, hreader, ht, rfl⟩

/-- A reader is set up without a trap: from the record, or by asking for the chapter's folder. -/
theorem viewDidLoad_running {s : State} {r : ℕ} {reader : ChapterViewController} {chap nchap : ℤ}
    (hchap : s.app.chap = some chap) (hnchap : s.app.nchap = some nchap)
    (h : (s.viewDidLoad decode r reader).app.running = true) :
    let titled := { reader with title := s!"Chap {chap + 1}" }
    (s.app.isDownloaded = true ∧ ∃ shown,
      titled.showChapterFromRealm decode s.app.realm s.app.id chap = some shown ∧
      s.viewDidLoad decode r reader = { s with readers := (s.readers.set r titled).set r shown }) ∨
    (s.app.isDownloaded = false ∧ ∃ id, s.app.id = some id ∧
      s.viewDidLoad decode r reader = { s with
        readers := s.readers.set r titled
        downloads := s.downloads ++ [⟨r, path id chap, .downLoad⟩] }) := by
  intro titled
  unfold State.viewDidLoad at h ⊢
  simp only [hchap, hnchap] at h ⊢
  cases hd : s.app.isDownloaded with
  | true =>
    simp only [hd, if_true] at h ⊢
    refine .inl ⟨trivial, ?_⟩
    split at h
    · cases h
    · rename_i shown hshown
      rw [hshown]
      exact ⟨shown, rfl, rfl⟩
  | false =>
    simp only [hd, Bool.false_eq_true, if_false] at h ⊢
    refine .inr ⟨trivial, ?_⟩
    cases hid : s.app.id with
    | none =>
      rw [hid] at h
      cases h
    | some id => exact ⟨id, rfl, rfl⟩

structure Opened (app app' : ReadingSession.State) (index n : ℤ) (under : List Screen) : Prop where
  chap : app'.chap = some index
  nchap : app'.nchap = some n
  screens : app'.screens = .chapter (Init index n).1 (Init index n).2 :: under
  id : app'.id = app.id
  realm : app'.realm = app.realm
  isDownloaded : app'.isDownloaded = app.isDownloaded

theorem Opened.of_chap {app app' : ReadingSession.State} {chap : Option ℤ} {index n : ℤ}
    {under : List Screen} (h : Opened { app with chap := chap } app' index n under) :
    Opened app app' index n under :=
  ⟨h.chap, h.nchap, h.screens, h.id, h.realm, h.isDownloaded⟩

theorem opened_chapterViewDidLoad {app : ReadingSession.State} {chap nchap : ℤ}
    (hchap : app.chap = some chap) (hnchap : app.nchap = some nchap) (under : List Screen) :
    Opened app (app.chapterViewDidLoad under) chap nchap under := by
  unfold ReadingSession.State.chapterViewDidLoad
  simp only [hchap, hnchap]
  split_ifs
  · split <;> exact ⟨rfl, rfl, rfl, rfl, rfl, rfl⟩
  · exact ⟨rfl, rfl, rfl, rfl, rfl, rfl⟩

theorem chapterViewDidLoad_running {app : ReadingSession.State} {under : List Screen}
    (h : (app.chapterViewDidLoad under).running = true) :
    ∃ chap nchap, app.chap = some chap ∧ app.nchap = some nchap := by
  unfold ReadingSession.State.chapterViewDidLoad at h
  split at h
  · rename_i chap nchap hchap hnchap
    exact ⟨chap, nchap, hchap, hnchap⟩
  · cases h

/-- A reader of some chapter is on top unless setting it up has stopped the app. -/
theorem opened_of_running {app : ReadingSession.State} {under : List Screen}
    (h : (app.chapterViewDidLoad under).running = true) :
    ∃ index n, Opened app (app.chapterViewDidLoad under) index n under := by
  obtain ⟨index, n, hchap, hnchap⟩ := chapterViewDidLoad_running h
  exact ⟨index, n, opened_chapterViewDidLoad hchap hnchap under⟩

def State.pages (s : State) : Option (List Data) :=
  s.app.chap.bind fun chap =>
    if s.app.isDownloaded then loadChapterFromRealm s.app.realm s.app.id chap
    else s.app.id.map fun id => remote (path id chap)

/-- The scroll view of the reader on top holds exactly the pages of chapter `Comic.chap`. -/
def State.ShowsChapter (s : State) : Prop :=
  ∃ r reader, s.shown.head? = some r ∧ s.readers[r]? = some reader ∧
    ∃ pages : List UIImage, s.pages remote = some (pages.map UIImage.data) ∧
      reader.subviews.map UIImageView.image = pages ∧
      reader.subviews.map UIImageView.frame = reader.frames pages ∧
      reader.contentHeight = (pages.map reader.scaledHeight).sum

/-- The user reads the open comic, every listing gives the pages of its folder, and none fails. -/
def Succeeds (s : State) : Event → Prop
  | .app (.select _) | .app .viewDidLoad | .app (.tab _) => False
  | .page d (.listAll reply) =>
    ∀ download ∈ s.downloads[d]?, reply = .success (remote download.path)
  | .page _ (.getData _ arrives) => arrives = true
  | _ => True

instance decidableSucceeds (s : State) : ∀ e, Decidable (Succeeds remote s e)
  | .app (.select _) | .app .viewDidLoad | .app (.tab _) => .isFalse id
  | .page d (.listAll reply) => inferInstanceAs
    (Decidable (∀ download ∈ s.downloads[d]?, reply = .success (remote download.path)))
  | .page _ (.getData _ arrives) => inferInstanceAs (Decidable (arrives = true))
  | .app (.listAll _ _) | .app .readChap | .app .showChap | .app (.didSelectRow _) | .app .prevChap
  | .app .nextChap | .app .back => .isTrue trivial

/-- A reader is turned only away from a chapter without pages, and a page arrives only when it is
the next one of its listing. -/
def InOrder (s : State) : Event → Prop
  | .app .prevChap | .app .nextChap => s.pages remote = some []
  | .page d (.getData j _) =>
    ∀ download ∈ s.downloads[d]?, ∀ reader ∈ s.readers[download.reader]?,
      download.reader ∈ s.shown →
      (download.load.items[j]?).map Slot.key =
        (download.load.items[reader.subviews.length]?).map Slot.key
  | _ => True

instance decidableInOrder (s : State) : ∀ e, Decidable (InOrder remote s e)
  | .app .prevChap | .app .nextChap => inferInstanceAs (Decidable (s.pages remote = some []))
  | .page d (.getData j _) =>
    inferInstanceAs (Decidable (∀ download ∈ s.downloads[d]?, ∀ reader ∈ s.readers[download.reader]?,
      download.reader ∈ s.shown →
      (download.load.items[j]?).map Slot.key =
        (download.load.items[reader.subviews.length]?).map Slot.key))
  | .page _ (.listAll _) | .app (.select _) | .app .viewDidLoad | .app (.tab _)
  | .app (.listAll _ _) | .app .readChap | .app .showChap | .app (.didSelectRow _) | .app .back =>
    .isTrue trivial

structure Download.Ok (download : Download) : Prop where
  unlisted : download.load.listing = .waiting → download.load.items = []
  listed : download.load.listing ≠ .waiting →
    download.load.items.map Slot.key = remote download.path
  unfailed : ∀ item ∈ download.load.items, item.request = .waiting ∨ item.request = .arrived

structure Filling (downloads : List Download) (reader : ChapterViewController) (d : ℕ)
    (download : Download) (pages : List UIImage) : Prop where
  slot : downloads[d]? = some download
  older : ∀ d' older, downloads[d']? = some older → older.reader = download.reader → d' ≠ d →
    remote older.path = []
  shows : reader.Shows pages
  data : pages.map UIImage.data = (remote download.path).take pages.length
  count : download.load.items.countP (fun item => item.request = .arrived) = pages.length
  height : download.load.height = finish reader.scaledHeight 0 pages

/-- The scroll view on its way to the pages of chapter `Comic.chap`. -/
inductive Fills (s : State) (r : ℕ) (reader : ChapterViewController) : Prop where
  | offline (pages : List UIImage) (hd : s.app.isDownloaded = true) (hshows : reader.Shows pages)
      (hpages : s.pages remote = some (pages.map UIImage.data))
  | online (d : ℕ) (download : Download) (pages : List UIImage) (hd : s.app.isDownloaded = false)
      (hr : download.reader = r) (hpages : s.pages remote = some (remote download.path))
      (hfilling : Filling remote s.downloads reader d download pages)

structure Inv (s : State) : Prop where
  ok : ∀ download ∈ s.downloads, download.Ok remote ∧ download.reader < s.readers.length
  offline : s.app.isDownloaded = true → s.downloads = []
  under : ∀ screen ∈ s.app.screens.tail, ¬ screen.IsChapter
  hidden : (∀ screen ∈ s.app.screens.head?, ¬ screen.IsChapter) → s.shown = []
  top : ∀ p q under, s.app.screens = .chapter p q :: under →
    ∃ r reader, s.shown = [r] ∧ s.readers[r]? = some reader ∧ Fills remote s r reader

theorem inv_start {app : ReadingSession.State} (hscreens : ∀ screen ∈ app.screens, ¬ screen.IsChapter) :
    Inv remote (start app) := by
  refine ⟨by simp [start], fun _ => rfl, fun screen hm => hscreens screen (List.mem_of_mem_tail hm),
    fun _ => rfl, ?_⟩
  intro p q under htop
  have hmem : Screen.chapter p q ∈ app.screens := by
    change app.screens = _ at htop
    simp [htop]
  exact absurd trivial (hscreens _ hmem)

/-- With no request of the reader in flight its scroll view holds the pages it should. -/
theorem Fills.showsChapter {s : State} {r : ℕ} {reader : ChapterViewController}
    (h : Fills remote s r reader) (hok : ∀ download ∈ s.downloads, download.Ok remote)
    (hshown : s.shown = [r]) (hr : s.readers[r]? = some reader)
    (hidle : ∀ download ∈ s.downloads, ¬ download.load.InFlight) : s.ShowsChapter remote := by
  cases h with
  | offline pages hd hshows hpages =>
    exact ⟨r, reader, by rw [hshown]; rfl, hr, pages, hpages, hshows.images, hshows.frames,
      hshows.contentHeight⟩
  | online d download pages hd hdr hpages hf =>
    have hmem := List.mem_of_getElem? hf.slot
    have hrest := hidle download hmem
    have hlisted : download.load.listing ≠ .waiting := fun hw => hrest (.inl hw)
    have hall : ∀ item ∈ download.load.items, item.request = .arrived := fun item hi =>
      ((hok download hmem).unfailed item hi).resolve_left fun hw => hrest (.inr ⟨item, hi, hw⟩)
    have hlength : pages.length = (remote download.path).length := by
      rw [← (hok download hmem).listed hlisted, List.length_map, ← hf.count, List.countP_eq_length]
      simpa using hall
    have hdata : pages.map UIImage.data = remote download.path := by
      rw [hf.data, hlength, List.take_length]
    exact ⟨r, reader, by rw [hshown]; rfl, hr, pages, by rw [hpages, hdata], hf.shows.images,
      hf.shows.frames, hf.shows.contentHeight⟩

theorem ok_downLoad (r : ℕ) (path : String) :
    Download.Ok remote ⟨r, path, .downLoad⟩ := by
  refine ⟨fun _ => rfl, fun h => absurd rfl h, ?_⟩
  intro item hi
  cases hi

/-- `viewDidLoad` on a reader whose scroll view is empty and stays so under its earlier calls. -/
theorem inv_viewDidLoad {s : State} {r : ℕ} {reader : ChapterViewController}
    {app : ReadingSession.State} {index n : ℤ} {under : List Screen}
    (hok : ∀ download ∈ s.downloads, download.Ok remote ∧ download.reader < s.readers.length)
    (hoffline : s.app.isDownloaded = true → s.downloads = [])
    (hopened : Opened app s.app index n under) (hunder : ∀ screen ∈ under, ¬ screen.IsChapter)
    (hshown : s.shown = [r]) (hr : s.readers[r]? = some reader) (hempty : reader.Shows [])
    (hnone : ∀ download ∈ s.downloads, download.reader = r → remote download.path = [])
    (hrunning : (s.viewDidLoad decode r reader).app.running = true) :
    Inv remote (s.viewDidLoad decode r reader) := by
  have hrlt : r < s.readers.length := (List.getElem?_eq_some_iff.mp hr).1
  have hunder' : ∀ screen ∈ s.app.screens.tail, ¬ screen.IsChapter := by
    rw [hopened.screens]
    exact hunder
  have hhidden : (∀ screen ∈ s.app.screens.head?, ¬ screen.IsChapter) → s.shown = [] := by
    rw [hopened.screens]
    exact fun h => absurd trivial (h _ rfl)
  have htitled : Shows { reader with title := s!"Chap {index + 1}" } [] := hempty
  rcases viewDidLoad_running decode hopened.chap hopened.nchap hrunning with
    ⟨hd, shown, hload, ht⟩ | ⟨hd, id, hid, ht⟩
  · obtain ⟨listImg, hlist, hadd⟩ := Option.bind_eq_some_iff.mp hload
    obtain ⟨pages, hdata, rfl⟩ := addListImg_eq_some decode hadd
    rw [ht]
    refine ⟨?_, hoffline, hunder', hhidden, ?_⟩
    · simpa using hok
    · intro p q rest _
      refine ⟨r, _, hshown, List.getElem?_set_self (by simpa using hrlt),
        .offline pages hd (htitled.addPages pages) ?_⟩
      simp [State.pages, hopened.chap, hd, hlist, hdata]
  · rw [ht]
    refine ⟨?_, fun h => absurd h (by simp [hd]), hunder', hhidden, ?_⟩
    · intro download hm
      rw [List.length_set]
      rcases List.mem_append.mp hm with hm | hm
      · exact hok download hm
      · rw [List.mem_singleton.mp hm]
        exact ⟨ok_downLoad remote r _, hrlt⟩
    · intro p q rest _
      refine ⟨r, _, hshown, List.getElem?_set_self hrlt,
        .online s.downloads.length ⟨r, path id index, .downLoad⟩ [] hd rfl ?_ ?_⟩
      · simp [State.pages, hopened.chap, hd, hid]
      · refine ⟨by simp, ?_, hempty, by simp, by simp [Load.downLoad], by simp [Load.downLoad]⟩
        intro d' older hslot hreader hne
        have hlt : d' < s.downloads.length := by
          have hd' := (List.getElem?_eq_some_iff.mp hslot).1
          rw [List.length_append, List.length_singleton] at hd'
          omega
        rw [List.getElem?_append_left hlt] at hslot
        exact hnone older (List.mem_of_getElem? hslot) hreader

theorem shows_new : (ChapterViewController.new widths).Shows [] := by
  simp [ChapterViewController.Shows, ChapterViewController.new]

/-- A new reader on top of screens without one. -/
theorem Inv.openReader {s : State} (h : Inv remote s) {app' : ReadingSession.State}
    {under : List Screen} {top : Screen} {index n : ℤ}
    (hscreens : s.app.screens = top :: under) (htop : ¬ top.IsChapter)
    (hopened : Opened s.app app' index n s.app.screens)
    (hrunning : ({ s with app := app' }.openReader decode widths).app.running = true) :
    Inv remote ({ s with app := app' }.openReader decode widths) := by
  have hshown : s.shown = [] := h.hidden (by simpa [hscreens] using htop)
  have hunder : ∀ screen ∈ s.app.screens, ¬ screen.IsChapter := by
    have hrest := h.under
    rw [hscreens] at hrest ⊢
    exact List.forall_mem_cons.mpr ⟨htop, hrest⟩
  refine inv_viewDidLoad decode remote ?_ ?_ hopened hunder ?_ ?_ (shows_new widths) ?_ hrunning
  · intro download hm
    obtain ⟨hok, hlt⟩ := h.ok download hm
    rw [List.length_append]
    exact ⟨hok, hlt.trans_le (Nat.le_add_right _ _)⟩
  · rw [hopened.isDownloaded]
    exact h.offline
  · rw [hshown]
  · simp
  · intro download hm hr
    exact absurd (h.ok download hm).2 hr.not_lt

/-- The reader on top turns away from a chapter without pages. -/
theorem Inv.turn {s : State} (h : Inv remote s) {app' : ReadingSession.State} {p q : Bool}
    {under : List Screen} {index n : ℤ} (hscreens : s.app.screens = .chapter p q :: under)
    (hopened : Opened s.app app' index n under) (hleft : s.pages remote = some [])
    (hrunning : ({ s with app := app' }.turn decode).app.running = true) :
    Inv remote ({ s with app := app' }.turn decode) := by
  obtain ⟨r, reader, hshown, hr, hfills⟩ := h.top p q under hscreens
  have hunder := h.under
  rw [hscreens] at hunder
  have hturn : { s with app := app' }.turn decode =
      { s with app := app' }.viewDidLoad decode r reader := by
    simp [State.turn, hshown, hr]
  rw [hturn] at hrunning ⊢
  have hleft' : reader.Shows [] ∧ ∀ download ∈ s.downloads, download.reader = r →
      remote download.path = [] := by
    cases hfills with
    | offline pages hd hshows hpages =>
      rw [hleft] at hpages
      obtain rfl : pages = [] := List.map_eq_nil_iff.mp (Option.some.inj hpages).symm
      refine ⟨hshows, fun download hm => ?_⟩
      rw [h.offline hd] at hm
      cases hm
    | online d download pages hd hdr hpages hf =>
      rw [hleft] at hpages
      have hnone : remote download.path = [] := (Option.some.inj hpages).symm
      have hdata := hf.data
      rw [hnone, List.take_nil] at hdata
      obtain rfl : pages = [] := List.map_eq_nil_iff.mp hdata
      refine ⟨hf.shows, fun other hm hor => ?_⟩
      obtain ⟨d', hd'⟩ := List.mem_iff_getElem?.mp hm
      by_cases hdd : d' = d
      · subst hdd
        rw [hf.slot] at hd'
        rwa [← Option.some.inj hd']
      · exact hf.older d' other hd' (hor.trans hdr.symm) hdd
  refine inv_viewDidLoad decode remote h.ok ?_ hopened hunder hshown hr hleft'.1 hleft'.2 hrunning
  rw [hopened.isDownloaded]
  exact h.offline

inductive Brings (s : State) (download : Download) (reader : ChapterViewController) :
    PageLoad.State → Prop where
  | folder (hw : download.load.listing = .waiting) : Brings s download reader
      ⟨reader, ⟨.arrived, (remote download.path).map fun item => ⟨item, .waiting⟩, 0⟩, s.app.running⟩
  | page (j : ℕ) (image : UIImage)
      (hj : download.load.items[j]? = some ⟨image.data, .waiting⟩)
      (hnext : download.reader ∈ s.shown →
        (download.load.items.map Slot.key)[reader.subviews.length]? = some image.data) :
      Brings s download reader ⟨reader.addPage download.load.height image,
        { download.load.answer j .arrived with
          height := download.load.height + reader.scaledHeight image }, s.app.running⟩

theorem brings_of_step (hremote : ∀ path, ∀ data ∈ remote path, (decode data).isSome) {s : State}
    {d : ℕ} {e : PageLoad.Event} {download : Download} {reader : ChapterViewController}
    {t : PageLoad.State} (hok : download.Ok remote) (hd : s.downloads[d]? = some download)
    (hreader : s.readers[download.reader]? = some reader)
    (ht : PageLoad.step decode ⟨reader, download.load, s.app.running⟩ e = some t)
    (hA : Succeeds remote s (.page d e)) (hC : InOrder remote s (.page d e)) :
    Brings remote s download reader t := by
  cases PageLoad.Transition.of_step decode ht with
  | listAll reply hw =>
    obtain rfl : reply = .success (remote download.path) := hA download hd
    exact .folder hw
  | getData j arrives data hj =>
    obtain rfl : arrives = true := hA
    have hlisted : download.load.listing ≠ .waiting := by
      intro hw
      have hnil := hok.unlisted hw
      simp [hnil] at hj
    have hmem : data ∈ remote download.path := by
      rw [← hok.listed hlisted]
      exact List.mem_map_of_mem (f := Slot.key) (List.mem_of_getElem? hj)
    obtain ⟨size, hsize⟩ := Option.isSome_iff_exists.mp (hremote _ data hmem)
    have himage : UIImage.ofData decode data = some ⟨data, size⟩ := by simp [UIImage.ofData, hsize]
    simp only [PageLoad.State.onGetData, himage]
    refine .page j ⟨data, size⟩ hj fun hshown => ?_
    have hnext := hC download hd reader hreader hshown
    rw [List.getElem?_map, ← hnext]
    simp only [hj]
    rfl

theorem Download.Ok.brings {s : State} {download : Download} {reader : ChapterViewController}
    {t : PageLoad.State} (h : download.Ok remote) (hb : Brings remote s download reader t) :
    Download.Ok remote { download with load := t.load } := by
  cases hb with
  | folder hw =>
    refine ⟨by simp, fun _ => by simp [Function.comp_def], ?_⟩
    intro item hi
    obtain ⟨data, -, rfl⟩ := List.mem_map.mp hi
    exact .inl rfl
  | page j image hj hnext =>
    have hlisted : download.load.listing ≠ .waiting := by
      intro hw
      rw [h.unlisted hw] at hj
      cases hj
    refine ⟨fun hw => absurd hw hlisted, fun _ => ?_, ?_⟩
    · exact (answer_keys download.load j .arrived).trans (h.listed hlisted)
    · intro item hi
      obtain ⟨u, v, hl, -, -, hmod⟩ := split_of_getElem? hj
      have hitems : (download.load.answer j .arrived).items = u ++ ⟨image.data, .arrived⟩ :: v :=
        hmod _
      change item ∈ (download.load.answer j .arrived).items at hi
      rw [hitems] at hi
      rcases List.mem_append.mp hi with hi | hi
      · exact h.unfailed item (by simp [hl, hi])
      · rcases List.mem_cons.mp hi with rfl | hi
        · exact .inr rfl
        · exact h.unfailed item (by simp [hl, hi])

/-- A call for a folder without pages shows nothing. -/
theorem Brings.reader_eq {s : State} {download : Download} {reader : ChapterViewController}
    {t : PageLoad.State} (hb : Brings remote s download reader t) (hok : download.Ok remote)
    (hnone : remote download.path = []) : t.reader = reader := by
  cases hb with
  | folder => rfl
  | page j image hj =>
    have hitems : download.load.items = [] := by
      by_cases hw : download.load.listing = .waiting
      · exact hok.unlisted hw
      · have hkeys := hok.listed hw
        rwa [hnone, List.map_eq_nil_iff] at hkeys
    simp [hitems] at hj

/-- The reply to the call that fills the reader on top adds the next page to it. -/
theorem Filling.brings {s : State} {download : Download} {reader : ChapterViewController} {d : ℕ}
    {pages : List UIImage} {t : PageLoad.State} (hf : Filling remote s.downloads reader d download pages)
    (hok : download.Ok remote) (hshown : download.reader ∈ s.shown)
    (hb : Brings remote s download reader t) :
    ∃ pages', Filling remote (s.downloads.set d { download with load := t.load }) t.reader d
      { download with load := t.load } pages' := by
  have hdlt : d < s.downloads.length := (List.getElem?_eq_some_iff.mp hf.slot).1
  have holder (load : Load) (d' : ℕ) (older : Download)
      (hd' : (s.downloads.set d { download with load := load })[d']? = some older)
      (hreader : older.reader = download.reader) (hne : d' ≠ d) : remote older.path = [] := by
    rw [List.getElem?_set_ne hne.symm] at hd'
    exact hf.older d' older hd' hreader hne
  cases hb with
  | folder hw =>
    have hnil : pages = [] := by
      have hcount := hf.count
      rw [hok.unlisted hw] at hcount
      exact List.length_eq_zero_iff.mp hcount.symm
    subst hnil
    refine ⟨[], List.getElem?_set_self hdlt, holder _, hf.shows, by simp, ?_, by simp⟩
    simp [List.countP_map, Function.comp_def]
  | page j image hj hnext =>
    have hlisted : download.load.listing ≠ .waiting := by
      intro hw
      rw [hok.unlisted hw] at hj
      cases hj
    have hlength : reader.subviews.length = pages.length := by
      rw [← hf.shows.images, List.length_map]
    have hnext' := hnext hshown
    rw [hok.listed hlisted, hlength] at hnext'
    refine ⟨pages ++ [image], List.getElem?_set_self hdlt, holder _, ?_, ?_, ?_, ?_⟩
    · rw [hf.height]
      exact hf.shows.addPage image
    · rw [List.map_append, hf.data, List.length_append, List.length_singleton, List.take_add_one,
        hnext']
      rfl
    · obtain ⟨u, v, hl, -, -, hmod⟩ := split_of_getElem? hj
      have hitems : (download.load.answer j .arrived).items = u ++ ⟨image.data, .arrived⟩ :: v :=
        hmod _
      have hcount := hf.count
      rw [hl] at hcount
      change (download.load.answer j .arrived).items.countP _ = _
      rw [hitems, List.length_append, ← hcount]
      simp [List.countP_append]
      omega
    · rw [addPage_scaledHeight, finish_concat, ← hf.height]

theorem Inv.onPage {s : State} (h : Inv remote s) {d : ℕ} {download : Download}
    {reader : ChapterViewController} {t : PageLoad.State} (hd : s.downloads[d]? = some download)
    (hreader : s.readers[download.reader]? = some reader) (hb : Brings remote s download reader t) :
    Inv remote (s.onPage d download t) := by
  obtain ⟨hok, hlt⟩ := h.ok download (List.mem_of_getElem? hd)
  refine ⟨?_, ?_, h.under, h.hidden, ?_⟩
  · simp only [State.onPage, List.length_set]
    exact forall_mem_set h.ok d ⟨hok.brings remote hb, hlt⟩
  · intro hoffline
    have hnil := h.offline hoffline
    rw [hnil] at hd
    cases hd
  · intro p q under htop
    obtain ⟨r, top, hshown, hr, hfills⟩ := h.top p q under htop
    cases hfills with
    | offline pages hoffline =>
      rw [h.offline hoffline] at hd
      cases hd
    | online d₀ download₀ pages hon hr₀ hpages hf =>
      by_cases hdd : d₀ = d
      · -- the reply is one to the call that fills the reader on top
        subst hdd
        obtain rfl : download₀ = download := Option.some.inj (hf.slot.symm.trans hd)
        obtain rfl := hr₀
        obtain rfl : top = reader := Option.some.inj (hr.symm.trans hreader)
        obtain ⟨pages', hf'⟩ := hf.brings remote hok (by rw [hshown]; simp) hb
        exact ⟨download₀.reader, t.reader, hshown, List.getElem?_set_self hlt,
          .online d₀ { download₀ with load := t.load } pages' hon rfl hpages hf'⟩
      · have hsame : (s.readers.set download.reader t.reader)[r]? = some top := by
          by_cases hrr : download.reader = r
          · have hnone := hf.older d download hd (hrr.trans hr₀.symm) (Ne.symm hdd)
            subst hrr
            obtain rfl : top = reader := Option.some.inj (hr.symm.trans hreader)
            rw [hb.reader_eq remote hok hnone]
            exact List.getElem?_set_self hlt
          · rw [List.getElem?_set_ne hrr, hr]
        refine ⟨r, top, hshown, hsame, .online d₀ download₀ pages hon hr₀ hpages
          ⟨?_, ?_, hf.shows, hf.data, hf.count, hf.height⟩⟩
        · exact (List.getElem?_set_ne (Ne.symm hdd)).trans hf.slot
        · intro d' older hd' hro hne
          change (s.downloads.set d { download with load := t.load })[d']? = some older at hd'
          by_cases hdd' : d' = d
          · subst hdd'
            rw [List.getElem?_set_self (List.getElem?_eq_some_iff.mp hd).1] at hd'
            obtain rfl := Option.some.inj hd'
            exact hf.older d' download hd hro hne
          · rw [List.getElem?_set_ne (Ne.symm hdd')] at hd'
            exact hf.older d' older hd' hro hne

/-- The app does something that leaves the chapter and the readers as they are. -/
theorem Inv.congr {s : State} (h : Inv remote s) {app' : ReadingSession.State}
    (hscreens : app'.screens = s.app.screens) (hchap : app'.chap = s.app.chap)
    (hid : app'.id = s.app.id) (hrealm : app'.realm = s.app.realm)
    (hd : app'.isDownloaded = s.app.isDownloaded) : Inv remote { s with app := app' } := by
  have hpages : ({ s with app := app' } : State).pages remote = s.pages remote := by
    simp only [State.pages, hchap, hid, hrealm, hd]
  refine ⟨h.ok, ?_, ?_, ?_, ?_⟩
  · rw [hd]
    exact h.offline
  · rw [hscreens]
    exact h.under
  · rw [hscreens]
    exact h.hidden
  · intro p q under htop
    rw [hscreens] at htop
    obtain ⟨r, reader, hshown, hr, hfills⟩ := h.top p q under htop
    refine ⟨r, reader, hshown, hr, ?_⟩
    cases hfills with
    | offline pages hoff hshows hp => exact .offline pages (hd.trans hoff) hshows (hpages.trans hp)
    | online d download pages hon hdr hp hf =>
      exact .online d download pages (hd.trans hon) hdr (hpages.trans hp) hf

/-- A screen that is no reader is now on top of screens that are none. -/
theorem Inv.cover {s : State} (h : Inv remote s) {screens : List Screen} {shown : List ℕ}
    (hscreens : ∀ screen ∈ screens, ¬ screen.IsChapter) (hshown : shown = []) :
    Inv remote { s with app := { s.app with screens := screens }, shown := shown } := by
  refine ⟨h.ok, h.offline, fun screen hm => hscreens screen (List.mem_of_mem_tail hm),
    fun _ => hshown, ?_⟩
  intro p q under htop
  have hmem : Screen.chapter p q ∈ screens := by
    change screens = _ at htop
    simp [htop]
  exact absurd trivial (hscreens _ hmem)

theorem running_of_viewDidLoad {s : State} {r : ℕ} {reader : ChapterViewController}
    (h : (s.viewDidLoad decode r reader).app.running = true) : s.app.running = true := by
  unfold State.viewDidLoad at h
  split at h
  · dsimp only at h
    split_ifs at h
    · split at h
      · cases h
      · exact h
    · split at h
      · cases h
      · exact h
  · exact h

theorem running_of_openReader {s : State}
    (h : (s.openReader decode widths).app.running = true) : s.app.running = true := by
  have hrunning := running_of_viewDidLoad decode h
  exact hrunning

theorem running_of_turn {s : State} (h : (s.turn decode).app.running = true) :
    s.app.running = true := by
  unfold State.turn at h
  split at h
  · exact h
  · split at h
    · exact h
    · exact running_of_viewDidLoad decode h

theorem Inv.turnBy {s : State} (h : Inv remote s) {d : ℤ} {p q : Bool} {under : List Screen}
    (hscreens : s.app.screens = .chapter p q :: under) (hleft : s.pages remote = some [])
    (hrunning : ({ s with app := s.app.onTurn d under }.turn decode).app.running = true) :
    Inv remote ({ s with app := s.app.onTurn d under }.turn decode) := by
  have hrun := running_of_turn decode hrunning
  dsimp only at hrun
  cases hchap : s.app.chap with
  | none => simp [ReadingSession.State.onTurn, hchap, ReadingSession.State.trap] at hrun
  | some chap =>
    have happ : s.app.onTurn d under = { s.app with chap := some (chap + d) }.chapterViewDidLoad under := by
      simp [ReadingSession.State.onTurn, hchap]
    rw [happ] at hrun hrunning ⊢
    obtain ⟨index, n, hopened⟩ := opened_of_running hrun
    exact h.turn decode remote hscreens hopened.of_chap hleft hrunning

/-- The screens below the one in front are no readers. -/
theorem Inv.below {s : State} (h : Inv remote s) {top : Screen} {under : List Screen}
    (hs : s.app.screens = top :: under) : ∀ screen ∈ under, ¬ screen.IsChapter := by
  have hunder := h.under
  rwa [hs] at hunder

theorem Inv.showChap {s : State} (h : Inv remote s) {under : List Screen}
    (hs : s.app.screens = .info :: under) (hrun : s.app.onShowChap.running = true) :
    Inv remote { s with app := s.app.onShowChap } := by
  cases hn : s.app.nchap with
  | none => simp [ReadingSession.State.onShowChap, hn, ReadingSession.State.trap] at hrun
  | some nchap =>
    have happ' : s.app.onShowChap = { s.app with
        screens := .showChap (ShowChapViewController.Init nchap) :: s.app.screens } := by
      simp [ReadingSession.State.onShowChap, hn]
    have hscreens : ∀ screen ∈ Screen.showChap (ShowChapViewController.Init nchap) :: s.app.screens,
        ¬ screen.IsChapter := by
      rw [hs]
      exact List.forall_mem_cons.mpr
        ⟨not_false, List.forall_mem_cons.mpr ⟨not_false, h.below remote hs⟩⟩
    rw [happ']
    exact h.cover remote hscreens (h.hidden (by simp [hs, Screen.IsChapter]))

theorem Inv.didSelectRow {s : State} (h : Inv remote s) {row : ℕ} {chap : List ℤ}
    {under : List Screen} (hs : s.app.screens = .showChap chap :: under)
    (hrunning : ({ s with app := s.app.onSelectRow row }.openReader decode widths).app.running = true) :
    Inv remote ({ s with app := s.app.onSelectRow row }.openReader decode widths) := by
  have hrun := running_of_openReader decode widths hrunning
  dsimp only at hrun
  cases hn : s.app.nchap with
  | none => simp [ReadingSession.State.onSelectRow, hn, ReadingSession.State.trap] at hrun
  | some nchap =>
    have happ' : s.app.onSelectRow row =
        { s.app with chap := some (nchap - row - 1) }.chapterViewDidLoad s.app.screens := by
      simp [ReadingSession.State.onSelectRow, hn]
    rw [happ'] at hrun hrunning ⊢
    obtain ⟨index, n, hopened⟩ := opened_of_running hrun
    exact h.openReader decode widths remote hs not_false hopened.of_chap hrunning

theorem Inv.back {s : State} (h : Inv remote s) {top : Screen} {under : List Screen}
    (hs : s.app.screens = top :: under) :
    Inv remote ({ s with app := { s.app with screens := under } }.onApp decode widths
      s.app.screens .back) := by
  have hbelow := h.below remote hs
  dsimp only [State.onApp]
  rw [hs]
  split
  · rename_i p q rest heq
    obtain ⟨r, reader, hshown, -⟩ := h.top p q rest (hs.trans heq)
    exact h.cover remote hbelow (by rw [hshown]; rfl)
  · rename_i hne
    refine h.cover remote hbelow (h.hidden ?_)
    rw [hs]
    intro screen hscreen
    obtain rfl := Option.some.inj hscreen
    cases top with
    | chapter p q => exact absurd rfl (hne p q under)
    | info => exact not_false
    | showChap chap => exact not_false

theorem Inv.onApp {s : State} (h : Inv remote s) {e : ReadingSession.Event}
    {app' : ReadingSession.State} (happ : ReadingSession.step s.app e = some app')
    (hA : Succeeds remote s (.app e)) (hC : InOrder remote s (.app e))
    (hrunning : ({ s with app := app' }.onApp decode widths s.app.screens e).app.running = true) :
    Inv remote ({ s with app := app' }.onApp decode widths s.app.screens e) := by
  cases ReadingSession.Transition.of_step happ with
  | select | viewDidLoad | tab => exact hA.elim
  | listAll u reply listing hu hw =>
    dsimp only [State.onApp, ReadingSession.State.onListAll]
    split_ifs
    · exact h.congr remote rfl rfl rfl rfl rfl
    · exact h.congr remote rfl rfl rfl rfl rfl
  | readChap under hs =>
    obtain ⟨index, n, hopened⟩ := opened_of_running (running_of_openReader decode widths hrunning)
    exact h.openReader decode widths remote hs not_false hopened.of_chap hrunning
  | showChap under hs => exact h.showChap remote hs hrunning
  | didSelectRow row chap under hs hrow =>
    exact h.didSelectRow decode widths remote hs hrunning
  | prevChap nextIsEnabled under hs => exact h.turnBy decode remote hs hC hrunning
  | nextChap prevIsEnabled under hs => exact h.turnBy decode remote hs hC hrunning
  | back top under hs => exact h.back decode widths remote hs

theorem inv_step (hremote : ∀ path, ∀ data ∈ remote path, (decode data).isSome) {s s' : State}
    {e : Event} (h : Inv remote s) (hA : Succeeds remote s e) (hC : InOrder remote s e)
    (hs : step decode widths s e = some s') (hrunning : s'.app.running = true) : Inv remote s' := by
  cases e with
  | app e =>
    obtain ⟨app', happ, rfl⟩ := app_of_step decode widths hs
    exact h.onApp decode widths remote happ hA hC hrunning
  | page d e =>
    obtain ⟨download, reader, t, hd, hreader, ht, rfl⟩ := page_of_step decode widths hs
    have hok := (h.ok download (List.mem_of_getElem? hd)).1
    exact h.onPage remote hd hreader (brings_of_step decode remote hremote hok hd hreader ht hA hC)

theorem running_of_step {s s' : State} {e : Event} (h : step decode widths s e = some s') :
    s.app.running = true := by
  cases e with
  | app e =>
    obtain ⟨app', happ, -⟩ := app_of_step decode widths h
    unfold ReadingSession.step at happ
    split at happ
    · assumption
    · cases happ
  | page d e =>
    obtain ⟨download, reader, t, -, -, ht, -⟩ := page_of_step decode widths h
    unfold PageLoad.step at ht
    split at ht
    · assumption
    · cases ht

/-- The reader shows exactly the current chapter once no page request is in flight, along every run
that turns only away from chapters without pages and whose pages arrive in the order listed. -/
theorem reader_showsChapter (hremote : ∀ path, ∀ data ∈ remote path, (decode data).isSome)
    (app : ReadingSession.State) (es : List Event) (s : State)
    (hscreens : ∀ screen ∈ app.screens, ¬ screen.IsChapter)
    (hrun : run (step decode widths) (start app) es = some s)
    (hA : Along (step decode widths) (Succeeds remote) (start app) es)
    (hC : Along (step decode widths) (InOrder remote) (start app) es)
    (hrunning : s.app.running = true)
    (htop : ∃ screen ∈ s.app.screens.head?, screen.IsChapter)
    (hidle : ∀ download ∈ s.downloads, ¬ download.load.InFlight) : s.ShowsChapter remote := by
  have hI : s.app.running = true → Inv remote s := by
    refine run_invariant (step decode widths) (C := fun s e => Succeeds remote s e ∧ InOrder remote s e)
      (I := fun s => s.app.running = true → Inv remote s) (fun _ => inv_start remote hscreens) ?_
      (hA.and _ hC) hrun
    intro s e s' h hc hs hrunning'
    exact inv_step decode widths remote hremote (h (running_of_step decode widths hs)) hc.1 hc.2 hs
      hrunning'
  have h := hI hrunning
  obtain ⟨screen, hhead, hchapter⟩ := htop
  cases screen with
  | chapter p q =>
    obtain ⟨under, hs⟩ := List.head?_eq_some_iff.mp hhead
    obtain ⟨r, reader, hshown, hr, hfills⟩ := h.top p q under hs
    exact hfills.showsChapter remote (fun download hm => (h.ok download hm).1) hshown hr hidle
  | info => exact hchapter.elim
  | showChap chap => exact hchapter.elim

def twoFolders (first second : List Data) (path : String) : List Data :=
  if path = "Comic/a/001" then first else if path = "Comic/a/002" then second else []

def squares : Data → Option CGSize := fun _ => some square

def fourWide : ReaderWidths :=
  ⟨emptyReader.viewWidth, emptyReader.boundsWidth, emptyReader.boundsWidth_nonneg⟩

def infoPage : ReadingSession.State :=
  ReadingSession.State.onViewDidLoad { launch [] with id := some "a" }

theorem no_reader_infoPage : ∀ screen ∈ infoPage.screens, ¬ screen.IsChapter := by
  have hscreens : infoPage.screens = [.info] := by decide +kernel
  simp [hscreens, Screen.IsChapter]

def skipEmpty : List Event :=
  [.app (.listAll 0 (.success 2)), .app .readChap, .page 0 (.listAll (.success [])), .app .nextChap,
    .page 1 (.listAll (.success [[1], [2]])), .page 1 (.getData 0 true), .page 1 (.getData 1 true)]

def afterSkipEmpty : State :=
  (run (step squares fourWide) (start infoPage) skipEmpty).get (by decide +kernel)

theorem reader_showsChapter_skipEmpty :
    afterSkipEmpty.ShowsChapter (twoFolders [] [[1], [2]]) :=
  reader_showsChapter squares fourWide (twoFolders [] [[1], [2]]) (fun _ _ _ => rfl) infoPage
    skipEmpty afterSkipEmpty no_reader_infoPage (Option.some_get _).symm (by decide +kernel)
    (by decide +kernel) (by decide +kernel) ⟨.chapter true false, by decide +kernel, trivial⟩ (by decide +kernel)

def turnPage : List Event :=
  [.app (.listAll 0 (.success 2)), .app .readChap, .page 0 (.listAll (.success [[1]])),
    .page 0 (.getData 0 true), .app .nextChap, .page 1 (.listAll (.success [[2]])),
    .page 1 (.getData 0 true)]

theorem not_reader_showsChapter : ¬ ∀ (decode : Data → Option CGSize) (widths : ReaderWidths)
    (remote : String → List Data) (app : ReadingSession.State) (es : List Event) (s : State),
    (∀ path, ∀ data ∈ remote path, (decode data).isSome) →
    (∀ screen ∈ app.screens, ¬ screen.IsChapter) →
    run (step decode widths) (start app) es = some s →
    Along (step decode widths) (Succeeds remote) (start app) es → s.app.running = true →
    (∃ screen ∈ s.app.screens.head?, screen.IsChapter) →
    (∀ download ∈ s.downloads, ¬ download.load.InFlight) → s.ShowsChapter remote := by
  intro h
  let s := (run (step squares fourWide) (start infoPage) turnPage).get (by decide +kernel)
  have hshows := h squares fourWide (twoFolders [[1]] [[2]]) infoPage turnPage s (fun _ _ _ => rfl)
    no_reader_infoPage (Option.some_get _).symm (by decide +kernel) (by decide +kernel)
    ⟨.chapter true false, by decide +kernel, trivial⟩ (by decide +kernel)
  obtain ⟨r, reader, hr, hreader, pages, hpages, himages, -⟩ := hshows
  have hdata : (s.shown.head?.bind fun r => s.readers[r]?).map (fun reader =>
      reader.subviews.map fun view => view.image.data) = s.pages (twoFolders [[1]] [[2]]) := by
    rw [hr, Option.bind_some, hreader, hpages, ← himages, List.map_map]
    rfl
  exact absurd hdata (by decide +kernel)

end ReaderPages
end ComicApp
