import ComicApp.EventMachine
import ComicApp.Objects
import ComicApp.StackedLayout
import Mathlib.Algebra.Order.Ring.Rat
import Mathlib.Tactic.Positivity

/-!
# Loading the pages of one chapter

`downLoad` asks for the listing of a chapter folder and then for every page in it, and each page that
arrives is put below the pages that arrived before. `loadChapterFromRealm` puts the stored pages below
one another in a loop. `decode` stands for `UIImage(data:)`: the size of the image that the data
encode, if they encode one.
-/

namespace ComicApp
open StackedLayout

structure CGSize where
  width : ℚ
  height : ℚ
  width_pos : 0 < width
  height_pos : 0 < height
  deriving DecidableEq

structure UIImage where
  data : Data
  size : CGSize
  deriving DecidableEq

def UIImage.ofData (decode : Data → Option CGSize) (data : Data) : Option UIImage :=
  (decode data).map fun size => ⟨data, size⟩

structure CGRect where
  x : ℚ
  y : ℚ
  width : ℚ
  height : ℚ
  deriving DecidableEq

structure UIImageView where
  frame : CGRect
  image : UIImage
  deriving DecidableEq

/-- One reader with its scroll view `read`; `viewWidth` is `view.frame.width` and `boundsWidth` is
`read.bounds.width`. -/
structure ChapterViewController where
  title : String
  viewWidth : ℚ
  boundsWidth : ℚ
  boundsWidth_nonneg : 0 ≤ boundsWidth
  images : List UIImage
  subviews : List UIImageView
  contentHeight : ℚ
  deriving DecidableEq

namespace ChapterViewController
variable (decode : Data → Option CGSize)

def scaledHeight (c : ChapterViewController) (image : UIImage) : ℚ :=
  image.size.height * (c.boundsWidth / image.size.width)

def imageView (c : ChapterViewController) (height : ℚ) (image : UIImage) : UIImageView :=
  ⟨⟨0, height, c.viewWidth, c.scaledHeight image⟩, image⟩

def addPage (c : ChapterViewController) (height : ℚ) (image : UIImage) : ChapterViewController :=
  { c with
    images := c.images ++ [image]
    subviews := c.subviews ++ [c.imageView height image]
    contentHeight := height + c.scaledHeight image }

/-- The loop of `loadChapterFromRealm` over `listImg`; `none` is the trap on data that is no image. -/
def addListImg (c : ChapterViewController) (height : ℚ) : List Data → Option ChapterViewController
  | [] => some c
  | img :: listImg =>
    match UIImage.ofData decode img with
    | none => none
    | some image => addListImg (c.addPage height image) (height + c.scaledHeight image) listImg

def showChapterFromRealm (c : ChapterViewController) (realm : Realm) (id : Option String)
    (index : ℤ) : Option ChapterViewController :=
  (loadChapterFromRealm realm id index).bind fun listImg => c.addListImg decode 0 listImg

def addPages (c : ChapterViewController) : ℚ → List UIImage → ChapterViewController
  | _, [] => c
  | height, page :: pages => addPages (c.addPage height page) (height + c.scaledHeight page) pages

@[simp] theorem addPage_scaledHeight (c : ChapterViewController) (height : ℚ) (image : UIImage) :
    (c.addPage height image).scaledHeight = c.scaledHeight := rfl

@[simp] theorem addPage_imageView (c : ChapterViewController) (height : ℚ) (image : UIImage) :
    (c.addPage height image).imageView = c.imageView := rfl

theorem scaledHeight_nonneg (c : ChapterViewController) (image : UIImage) :
    0 ≤ c.scaledHeight image :=
  mul_nonneg image.size.height_pos.le (div_nonneg c.boundsWidth_nonneg image.size.width_pos.le)

theorem addPages_concat (c : ChapterViewController) (height : ℚ) (pages : List UIImage)
    (page : UIImage) : c.addPages height (pages ++ [page]) =
      (c.addPages height pages).addPage (finish c.scaledHeight height pages) page := by
  induction pages generalizing c height with
  | nil => simp [addPages]
  | cons first pages ih =>
    rw [List.cons_append, addPages, ih, addPages, finish_cons, addPage_scaledHeight]

@[simp] theorem addPages_scaledHeight (c : ChapterViewController) (height : ℚ)
    (pages : List UIImage) : (c.addPages height pages).scaledHeight = c.scaledHeight := by
  induction pages generalizing c height with
  | nil => rfl
  | cons page pages ih => rw [addPages, ih, addPage_scaledHeight]

@[simp] theorem addPages_viewWidth (c : ChapterViewController) (height : ℚ)
    (pages : List UIImage) : (c.addPages height pages).viewWidth = c.viewWidth := by
  induction pages generalizing c height with
  | nil => rfl
  | cons page pages ih =>
    rw [addPages, ih]
    rfl

/-- The loop over the stored pages, when all of them are images. -/
theorem addListImg_data (c : ChapterViewController) (height : ℚ) {pages : List UIImage}
    (hpages : ∀ page ∈ pages, UIImage.ofData decode page.data = some page) :
    c.addListImg decode height (pages.map UIImage.data) = some (c.addPages height pages) := by
  induction pages generalizing c height with
  | nil => rfl
  | cons page pages ih =>
    obtain ⟨hpage, hrest⟩ := List.forall_mem_cons.mp hpages
    rw [List.map_cons, addListImg, hpage]
    exact ih _ _ hrest

/-- What the loop over `listImg` leaves, when it does not stop at data that is no image. -/
theorem addListImg_eq_some {c c' : ChapterViewController} {height : ℚ} {listImg : List Data}
    (h : c.addListImg decode height listImg = some c') :
    ∃ pages : List UIImage, pages.map UIImage.data = listImg ∧ c' = c.addPages height pages := by
  induction listImg generalizing c height with
  | nil => exact ⟨[], rfl, (Option.some.inj h).symm⟩
  | cons img listImg ih =>
    rw [addListImg] at h
    cases himage : UIImage.ofData decode img with
    | none =>
      rw [himage] at h
      cases h
    | some image =>
      rw [himage] at h
      obtain ⟨pages, hdata, hc'⟩ := ih h
      obtain ⟨size, -, rfl⟩ := Option.map_eq_some_iff.mp himage
      exact ⟨_ :: pages, by rw [List.map_cons, hdata], hc'⟩

/-- The scroll view holds these pages and nothing else, below one another from its top. -/
def Shows (c : ChapterViewController) (pages : List UIImage) : Prop :=
  c.subviews = ((stack c.scaledHeight 0 pages).map fun p => c.imageView p.1 p.2) ∧
    c.contentHeight = finish c.scaledHeight 0 pages

theorem Shows.addPage {c : ChapterViewController} {pages : List UIImage} (h : c.Shows pages)
    (page : UIImage) :
    (c.addPage (finish c.scaledHeight 0 pages) page).Shows (pages ++ [page]) := by
  refine ⟨?_, ?_⟩
  · rw [addPage_scaledHeight, addPage_imageView, stack_concat, List.map_append, ← h.1]
    rfl
  · rw [addPage_scaledHeight, finish_concat]
    rfl

theorem Shows.addPages {c : ChapterViewController} (h : c.Shows []) (pages : List UIImage) :
    (c.addPages 0 pages).Shows pages := by
  induction pages using List.reverseRecOn with
  | nil => exact h
  | append_singleton pages page ih =>
    rw [addPages_concat, ← addPages_scaledHeight c 0 pages]
    exact ih.addPage page

def frames (c : ChapterViewController) (pages : List UIImage) : List CGRect :=
  pages.mapIdx fun k page =>
    ⟨0, ((pages.take k).map c.scaledHeight).sum, c.viewWidth, c.scaledHeight page⟩

@[simp] theorem addPages_frames (c : ChapterViewController) (height : ℚ) (pages : List UIImage) :
    (c.addPages height pages).frames = c.frames := by
  funext l
  rw [frames, addPages_scaledHeight, addPages_viewWidth, frames]

theorem Shows.images {c : ChapterViewController} {pages : List UIImage} (h : c.Shows pages) :
    c.subviews.map UIImageView.image = pages := by
  rw [h.1, List.map_map]
  exact map_snd_stack c.scaledHeight 0 pages

theorem Shows.frames {c : ChapterViewController} {pages : List UIImage} (h : c.Shows pages) :
    c.subviews.map UIImageView.frame = c.frames pages := by
  apply List.ext_getElem?
  intro k
  simp only [h.1, ChapterViewController.frames, List.map_map, List.getElem?_map,
    List.getElem?_mapIdx, getElem?_stack]
  cases pages[k]? with
  | none => rfl
  | some page => simp [imageView, finish]

theorem Shows.contiguous {c : ChapterViewController} {pages : List UIImage} (h : c.Shows pages) :
    c.subviews.IsChain fun v w => w.frame.y = v.frame.y + v.frame.height := by
  rw [h.1, List.isChain_map]
  exact isChain_stack c.scaledHeight 0 pages

theorem Shows.disjoint {c : ChapterViewController} {pages : List UIImage} (h : c.Shows pages) :
    c.subviews.Pairwise fun v w => v.frame.y + v.frame.height ≤ w.frame.y := by
  rw [h.1, List.pairwise_map]
  exact pairwise_stack c.scaledHeight c.scaledHeight_nonneg 0 pages

theorem Shows.contentHeight {c : ChapterViewController} {pages : List UIImage} (h : c.Shows pages) :
    c.contentHeight = (pages.map c.scaledHeight).sum := by
  rw [h.2, finish, zero_add]

end ChapterViewController

namespace PageLoad
open EventMachine ChapterViewController
variable (decode : Data → Option CGSize)

/-- One call of `downLoad`: its `listAll`, the `getData` of every item listed with the data it
brings, and the running `height`. -/
structure Load where
  listing : Request
  items : List (Slot Data)
  height : ℚ
  deriving DecidableEq

structure State where
  reader : ChapterViewController
  load : Load
  running : Bool
  deriving DecidableEq

inductive Event where
  | listAll (reply : ListAllReply (List Data))
  | getData (j : ℕ) (arrives : Bool)
  deriving DecidableEq, Repr

def Load.InFlight (load : Load) : Prop :=
  load.listing = .waiting ∨ ∃ item ∈ load.items, item.request = .waiting

instance (load : Load) : Decidable load.InFlight := inferInstanceAs (Decidable (_ ∨ _))

def Load.downLoad : Load := ⟨.waiting, [], 0⟩

/-- The callback with an error returns at once, the one without asks for every item it lists. -/
def Load.onListAll (load : Load) (reply : ListAllReply (List Data)) : Load :=
  { load with
    listing := reply.request
    items := reply.listed.map fun item => ⟨item, .waiting⟩
    height := 0 }

def Load.answer (load : Load) (j : ℕ) (request : Request) : Load :=
  { load with items := load.items.modify j fun item => { item with request := request } }

def State.onGetData (s : State) (j : ℕ) (data : Data) : Bool → State
  | false => { s with load := s.load.answer j .failed }
  | true =>
    match UIImage.ofData decode data with
    | none => { s with running := false }
    | some image =>
      { s with
        reader := s.reader.addPage s.load.height image
        load := { s.load.answer j .arrived with
          height := s.load.height + s.reader.scaledHeight image } }

def step (s : State) (e : Event) : Option State :=
  if s.running then
    match e with
    | .listAll reply =>
      if s.load.listing = .waiting then some { s with load := s.load.onListAll reply } else none
    | .getData j arrives =>
      match s.load.items[j]? with
      | none => none
      | some item => if item.request = .waiting then some (s.onGetData decode j item.key arrives) else none
  else none

inductive Transition (s : State) : Event → State → Prop where
  | listAll (reply : ListAllReply (List Data)) (hw : s.load.listing = .waiting) :
      Transition s (.listAll reply) { s with load := s.load.onListAll reply }
  | getData (j : ℕ) (arrives : Bool) (data : Data) (hj : s.load.items[j]? = some ⟨data, .waiting⟩) :
      Transition s (.getData j arrives) (s.onGetData decode j data arrives)

theorem Transition.of_step {s s' : State} {e : Event} (h : step decode s e = some s') :
    Transition decode s e s' := by
  cases e with
  | listAll reply =>
    unfold step at h
    dsimp only at h
    split_ifs at h with hrunning hw
    obtain rfl := Option.some.inj h
    exact .listAll reply hw
  | getData j arrives =>
    unfold step at h
    dsimp only at h
    split at h
    swap
    · cases h
    split at h
    · cases h
    · rename_i item hj
      obtain ⟨data, request⟩ := item
      split_ifs at h with hw
      obtain rfl := Option.some.inj h
      obtain rfl : request = .waiting := hw
      exact .getData j arrives data hj

/-- The pages whose `getData` succeeded, in the order of their replies. -/
def arrived : List Event → List ℕ
  | [] => []
  | .getData j true :: es => j :: arrived es
  | _ :: es => arrived es

def Load.arrivedData (load : Load) (es : List Event) : List Data :=
  (arrived es).filterMap fun j => (load.items.map Slot.key)[j]?

theorem arrived_append (es fs : List Event) : arrived (es ++ fs) = arrived es ++ arrived fs := by
  induction es with
  | nil => rfl
  | cons e es ih =>
    match e with
    | .getData _ true => simp [arrived, ih]
    | .getData _ false | .listAll _ => simpa [arrived] using ih

@[simp] theorem answer_keys (load : Load) (j : ℕ) (request : Request) :
    (load.answer j request).items.map Slot.key = load.items.map Slot.key :=
  map_modify_of_eq (f := fun item : Slot Data => { item with request := request })
    (fun _ => rfl) load.items j

theorem arrivedData_of_keys {load load' : Load}
    (h : load'.items.map Slot.key = load.items.map Slot.key) (es : List Event) :
    load'.arrivedData es = load.arrivedData es := by
  rw [Load.arrivedData, Load.arrivedData, h]

theorem arrivedData_concat_of_getElem? {load : Load} {j : ℕ} {data : Data} {request : Request}
    (hj : load.items[j]? = some ⟨data, request⟩) (es : List Event) :
    load.arrivedData (es ++ [.getData j true]) = load.arrivedData es ++ [data] := by
  simp [Load.arrivedData, arrived_append, arrived, List.filterMap_append, hj]

structure Inv (c : ChapterViewController) (es : List Event) (s : State) : Prop where
  running : s.running = true
  waiting : s.load.listing = .waiting → arrived es = []
  unlisted : s.load.listing = .waiting → s.load.items = []
  items : ∀ data ∈ s.load.items.map Slot.key, (decode data).isSome
  pages : ∃ pages : List UIImage, pages.map UIImage.data = s.load.arrivedData es ∧
    (∀ page ∈ pages, UIImage.ofData decode page.data = some page) ∧
    s.reader = c.addPages 0 pages ∧ s.load.height = finish c.scaledHeight 0 pages

theorem inv_downLoad (c : ChapterViewController) : Inv decode c [] ⟨c, .downLoad, true⟩ := by
  refine ⟨rfl, fun _ => rfl, fun _ => rfl, by simp [Load.downLoad], [], rfl, by simp, rfl, ?_⟩
  simp [Load.downLoad]

theorem Inv.listAll {c : ChapterViewController} {es : List Event} {s : State}
    (h : Inv decode c es s) (hw : s.load.listing = .waiting) (reply : ListAllReply (List Data))
    (hdecode : ∀ data ∈ reply.listed, (decode data).isSome) :
    Inv decode c (es ++ [.listAll reply]) { s with load := s.load.onListAll reply } := by
  have hnone := h.waiting hw
  have harrived : arrived (es ++ [.listAll reply]) = [] := by
    rw [arrived_append, hnone]
    rfl
  obtain ⟨pages, hdata, -, hreader, hheight⟩ := h.pages
  obtain rfl : pages = [] := by
    rw [Load.arrivedData, hnone] at hdata
    exact List.map_eq_nil_iff.mp hdata
  have hdata' (load : Load) : load.arrivedData (es ++ [.listAll reply]) = [] := by
    rw [Load.arrivedData, harrived]
    rfl
  refine ⟨h.running, fun _ => harrived, fun hw' => absurd hw' reply.request_ne_waiting, ?_, [],
    (hdata' _).symm, by simp, hreader, ?_⟩
  · simpa [Load.onListAll] using hdecode
  · simp [Load.onListAll]

theorem Inv.getData {c : ChapterViewController} {es : List Event} {s : State}
    (h : Inv decode c es s) {j : ℕ} {data : Data}
    (hj : s.load.items[j]? = some ⟨data, .waiting⟩) (arrives : Bool) :
    Inv decode c (es ++ [.getData j arrives]) (s.onGetData decode j data arrives) := by
  have hlisted : s.load.listing ≠ .waiting := by
    intro hw
    rw [h.unlisted hw] at hj
    cases hj
  obtain ⟨pages, hdata, hpages, hreader, hheight⟩ := h.pages
  have hitems (request : Request) :
      ∀ data ∈ (s.load.answer j request).items.map Slot.key, (decode data).isSome := by
    rw [answer_keys]
    exact h.items
  cases arrives with
  | false =>
    refine ⟨h.running, fun hw => absurd hw hlisted, fun hw => absurd hw hlisted, hitems _, pages,
      ?_, hpages, hreader, hheight⟩
    rw [hdata, State.onGetData, arrivedData_of_keys (answer_keys _ _ _), Load.arrivedData,
      Load.arrivedData, arrived_append]
    simp [arrived]
  | true =>
    have hmem : data ∈ s.load.items.map Slot.key :=
      List.mem_map_of_mem (f := Slot.key) (List.mem_of_getElem? hj)
    obtain ⟨size, hsize⟩ := Option.isSome_iff_exists.mp (h.items data hmem)
    have himage : UIImage.ofData decode data = some ⟨data, size⟩ := by simp [UIImage.ofData, hsize]
    simp only [State.onGetData, himage]
    refine ⟨h.running, fun hw => absurd hw hlisted, fun hw => absurd hw hlisted, hitems _,
      pages ++ [⟨data, size⟩], ?_, ?_, ?_, ?_⟩
    · have hsame : Load.arrivedData { s.load.answer j .arrived with
          height := s.load.height + s.reader.scaledHeight ⟨data, size⟩ }
            (es ++ [.getData j true]) = s.load.arrivedData (es ++ [.getData j true]) :=
        arrivedData_of_keys (answer_keys _ _ _) _
      rw [hsame, arrivedData_concat_of_getElem? hj, List.map_append, hdata]
      rfl
    · intro page hpage
      rcases List.mem_append.mp hpage with hpage | hpage
      · exact hpages page hpage
      · rwa [List.mem_singleton.mp hpage]
    · rw [addPages_concat, hreader, hheight]
    · rw [finish_concat, hheight, hreader, addPages_scaledHeight]

theorem inv_step {c : ChapterViewController} {es : List Event} {s s' : State} {e : Event}
    (h : Inv decode c es s)
    (hdecode : ∀ reply, e = .listAll reply → ∀ data ∈ reply.listed, (decode data).isSome)
    (hs : step decode s e = some s') : Inv decode c (es ++ [e]) s' := by
  cases Transition.of_step decode hs with
  | listAll reply hw =>
    exact h.listAll decode hw reply (hdecode reply rfl)
  | getData j arrives data hj => exact h.getData decode hj arrives

theorem inv_of_run {c : ChapterViewController} {es : List Event} {s : State}
    (hdecode : ∀ reply, .listAll reply ∈ es → ∀ data ∈ reply.listed, (decode data).isSome)
    (hrun : run (step decode) ⟨c, .downLoad, true⟩ es = some s) : Inv decode c es s := by
  refine run_induction (step decode)
    (C := fun _ e => ∀ reply, e = .listAll reply → ∀ data ∈ reply.listed, (decode data).isSome)
    (inv_downLoad decode c) (fun _ _ _ _ _ _ h hc hs => inv_step decode h hc hs) ?_ hrun
  refine along_of_forall_mem _ ?_
  rintro e he reply rfl
  exact hdecode reply he

/-- On an empty scroll view the arrived pages tile it from the top in the order of their replies,
whatever that order is and whichever pages fail, and the loop over a stored chapter with the same
pages in that order leaves the reader in the same state. -/
theorem pages_tile (c : ChapterViewController) (es : List Event) (s : State)
    (hempty : c.subviews = []) (hheight : c.contentHeight = 0)
    (hdecode : ∀ reply, .listAll reply ∈ es → ∀ data ∈ reply.listed, (decode data).isSome)
    (hrun : run (step decode) ⟨c, .downLoad, true⟩ es = some s) :
    ∃ pages : List UIImage, pages.map UIImage.data = s.load.arrivedData es ∧
      s.reader.subviews.map UIImageView.image = pages ∧
      s.reader.subviews.map UIImageView.frame = frames c pages ∧
      s.reader.subviews.IsChain (fun v w => w.frame.y = v.frame.y + v.frame.height) ∧
      s.reader.subviews.Pairwise (fun v w => v.frame.y + v.frame.height ≤ w.frame.y) ∧
      s.reader.contentHeight = (pages.map c.scaledHeight).sum ∧
      ∀ (realm : Realm) (id : String) (comicl : LComic) (index : ℕ),
        realm.first id = some comicl → comicl.listChap[index]? = some ⟨s.load.arrivedData es⟩ →
        c.showChapterFromRealm decode realm (some id) index = some s.reader := by
  have hI := inv_of_run decode hdecode hrun
  obtain ⟨pages, hdata, hpages, hreader, -⟩ := hI.pages
  have hshows : s.reader.Shows pages := by
    rw [hreader]
    exact Shows.addPages ⟨hempty, by rw [hheight, finish_nil]⟩ pages
  have hframes := hshows.frames
  have hcontent := hshows.contentHeight
  rw [hreader, addPages_frames, ← hreader] at hframes
  rw [hreader, addPages_scaledHeight, ← hreader] at hcontent
  refine ⟨pages, hdata, hshows.images, hframes, hshows.contiguous, hshows.disjoint, hcontent, ?_⟩
  intro realm id comicl index hfirst hchap
  rw [← hdata] at hchap
  have hstored : loadChapterFromRealm realm (some id) (index : ℤ) =
      some (pages.map UIImage.data) := by
    simp [loadChapterFromRealm, hfirst, hchap]
  rw [showChapterFromRealm, hstored, Option.bind_some, addListImg_data decode c 0 hpages, hreader]

def square : CGSize := ⟨2, 2, by decide, by decide⟩

def emptyReader : ChapterViewController := ⟨"", 4, 4, by decide, [], [], 0⟩

def secondFirst : List Event :=
  [.listAll (.success [[1], [2], [3]]), .getData 1 true, .getData 2 false, .getData 0 true]

def afterSecondFirst : State :=
  (run (step fun _ => some square) ⟨emptyReader, .downLoad, true⟩ secondFirst).get (by decide +kernel)

theorem pages_tile_secondFirst : ∃ pages : List UIImage, pages.map UIImage.data = [[2], [1]] ∧
    afterSecondFirst.reader.subviews.map UIImageView.frame = frames emptyReader pages := by
  obtain ⟨pages, hdata, -, hframes, -⟩ := pages_tile (fun _ => some square) emptyReader secondFirst
    afterSecondFirst rfl rfl (fun _ _ _ _ => rfl) (Option.some_get _).symm
  have harrived : afterSecondFirst.load.arrivedData secondFirst = [[2], [1]] := by decide +kernel
  exact ⟨pages, hdata.trans harrived, hframes⟩

end PageLoad
end ComicApp
