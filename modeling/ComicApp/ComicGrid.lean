import ComicApp.PageLoad

/-!
# The grid of comics

`ReadViewController` lists the folder `Comic`, then every comic folder whose name matches the query it
was created with, and then gets every poster in it. A poster that arrives is appended to `images` and
the name of its folder to `names`, and cell `k` of the grid shows the two entries `k`. `remote` is what
the folder `Comic` contains; `lowercased`, `contains` and `decode` stand for the string functions of
Foundation and for `UIImage(data:)`.
-/

namespace ComicApp

structure ComicFolder where
  name : String
  items : List Data
  deriving DecidableEq, Repr

/-- What becomes of a `listAll`. After an error the storage calls back a second time, with what the
pages of the listing before the error brought. -/
inductive Outcome where
  | success
  | error (listed : ℕ)
  deriving DecidableEq, Repr

namespace Outcome

def listed {α : Type} (l : List α) : Outcome → List α
  | success => l
  | error listed => l.take listed

def request : Outcome → Request
  | success => .arrived
  | error _ => .failed

theorem mem_of_listed {α : Type} {l : List α} {o : Outcome} {a : α} (h : a ∈ o.listed l) : a ∈ l := by
  cases o with
  | success => exact h
  | error listed => exact List.mem_of_mem_take h

end Outcome

structure FolderRequest where
  folder : ComicFolder
  listing : Request
  items : List (Slot Data)
  deriving DecidableEq

structure CollectionViewCell where
  item : ℕ
  label : String
  image : UIImage
  deriving DecidableEq

/-- `listing` is the `listAll` of the folder `Comic`; `cells` are the cells that were set up, the newest
first. -/
structure ReadViewController where
  searchQuery : String
  images : List UIImage
  names : List String
  cells : List CollectionViewCell
  listing : Request
  folders : List FolderRequest
  deriving DecidableEq

namespace ReadViewController
variable (lowercased : String → String) (contains : String → String → Bool)
  (decode : Data → Option CGSize) (remote : List ComicFolder)

def new (searchQuery : String) : ReadViewController := ⟨searchQuery, [], [], [], .idle, []⟩

def downImg (c : ReadViewController) : ReadViewController := { c with listing := .waiting }

def Matches (c : ReadViewController) (name : String) : Prop :=
  c.searchQuery = "" ∨ contains (lowercased name) (lowercased c.searchQuery) = true

instance (c : ReadViewController) (name : String) : Decidable (c.Matches lowercased contains name) :=
  inferInstanceAs (Decidable (_ ∨ _))

def onListAll (c : ReadViewController) (o : Outcome) : ReadViewController :=
  { c with
    listing := o.request
    folders := ((o.listed remote).filter fun folder => c.Matches lowercased contains folder.name).map
      fun folder => ⟨folder, .waiting, []⟩ }

def onPrefixListAll (c : ReadViewController) (f : ℕ) (request : FolderRequest) (o : Outcome) :
    ReadViewController :=
  { c with
    folders := c.folders.set f { request with
      listing := o.request
      items := (o.listed request.folder.items).map fun data => ⟨data, .waiting⟩ } }

def answer (c : ReadViewController) (f : ℕ) (request : FolderRequest) (j : ℕ) (data : Data)
    (answered : Request) : ReadViewController :=
  { c with
    folders := c.folders.set f { request with items := request.items.set j ⟨data, answered⟩ } }

/-- The reply to the `getData` of an item; `none` is the trap on data that is no image. -/
def onGetData (c : ReadViewController) (f : ℕ) (request : FolderRequest) (j : ℕ) (data : Data) :
    Bool → Option ReadViewController
  | false => some (c.answer f request j data .failed)
  | true =>
    (UIImage.ofData decode data).map fun image =>
      { c.answer f request j data .arrived with
        images := c.images ++ [image]
        names := c.names ++ [request.folder.name] }

/-- `none` is the trap on an index outside one of the lists. -/
def cellForItemAt (c : ReadViewController) (item : ℕ) : Option ReadViewController :=
  match c.names[item]?, c.images[item]? with
  | some name, some image => some { c with cells := ⟨item, name, image⟩ :: c.cells }
  | _, _ => none

def cell (c : ReadViewController) (item : ℕ) : Option CollectionViewCell :=
  c.cells.find? fun cell => cell.item = item

end ReadViewController

namespace ComicGrid
open EventMachine ReadViewController
variable (lowercased : String → String) (contains : String → String → Bool)
  (decode : Data → Option CGSize) (remote : List ComicFolder)

structure State where
  comicSearchText : String
  id : Option String
  controllers : List ReadViewController
  running : Bool
  deriving DecidableEq

inductive Event where
  | create
  | viewDidLoad (v : ℕ)
  | searchBarSearchButtonClicked (v : ℕ) (text : String)
  | listAll (v : ℕ) (o : Outcome)
  | prefixListAll (v f : ℕ) (o : Outcome)
  | getData (v f j : ℕ) (arrives : Bool)
  | cellForItemAt (v item : ℕ)
  | didSelectItemAt (v item : ℕ)
  deriving DecidableEq, Repr

def launch (comicSearchText : String) : State := ⟨comicSearchText, none, [], true⟩

namespace State

def set (s : State) (v : ℕ) (c : ReadViewController) : State :=
  { s with controllers := s.controllers.set v c }

def finish (s : State) (v : ℕ) : Option ReadViewController → State
  | none => { s with running := false }
  | some c => s.set v c

def create (s : State) : State :=
  { s with controllers := s.controllers ++ [.new s.comicSearchText] }

def onSearch (s : State) (text : String) : State :=
  if text = "" then s else { s with comicSearchText := text }.create

def onSelect (s : State) (c : ReadViewController) (item : ℕ) : State :=
  match c.names[item]? with
  | none => { s with running := false }
  | some name => { s with id := some name }

end State

/-- The grid asks for a cell below the count that `numberOfItemsInSection` gave it, and only a cell
that was set up can be chosen. -/
def stepController (s : State) (v : ℕ) (c : ReadViewController) : Event → Option State
  | .viewDidLoad _ =>
    if c.listing = .idle then some { s.set v c.downImg with comicSearchText := "" } else none
  | .searchBarSearchButtonClicked _ text => some (s.onSearch text)
  | .listAll _ o =>
    if c.listing = .waiting then some (s.set v (c.onListAll lowercased contains remote o)) else none
  | .prefixListAll _ f o =>
    match c.folders[f]? with
    | none => none
    | some request =>
      if request.listing = .waiting then some (s.set v (c.onPrefixListAll f request o)) else none
  | .getData _ f j arrives =>
    match c.folders[f]? with
    | none => none
    | some request =>
      match request.items[j]? with
      | none => none
      | some item =>
        if item.request = .waiting then
          some (s.finish v (c.onGetData decode f request j item.key arrives))
        else none
  | .cellForItemAt _ item =>
    if item < c.names.length then some (s.finish v (c.cellForItemAt item)) else none
  | .didSelectItemAt _ item =>
    match c.cell item with
    | none => none
    | some _ => some (s.onSelect c item)
  | .create => none

def Event.controller : Event → Option ℕ
  | .create => none
  | .viewDidLoad v | .searchBarSearchButtonClicked v _ | .listAll v _ | .prefixListAll v _ _
  | .getData v _ _ _ | .cellForItemAt v _ | .didSelectItemAt v _ => some v

def step (s : State) (e : Event) : Option State :=
  if s.running then
    match e.controller with
    | none => some s.create
    | some v =>
      match s.controllers[v]? with
      | none => none
      | some c => stepController lowercased contains decode remote s v c e
  else none

inductive GridStep (c : ReadViewController) : Event → Option ReadViewController → Prop where
  | listAll (v : ℕ) (o : Outcome) (hw : c.listing = .waiting) :
      GridStep c (.listAll v o) (some (c.onListAll lowercased contains remote o))
  | prefixListAll (v f : ℕ) (o : Outcome) (request : FolderRequest)
      (hf : c.folders[f]? = some request) (hw : request.listing = .waiting) :
      GridStep c (.prefixListAll v f o) (some (c.onPrefixListAll f request o))
  | getData (v f j : ℕ) (arrives : Bool) (request : FolderRequest) (data : Data)
      (hf : c.folders[f]? = some request) (hj : request.items[j]? = some ⟨data, .waiting⟩) :
      GridStep c (.getData v f j arrives) (c.onGetData decode f request j data arrives)
  | cellForItemAt (v item : ℕ) (hlt : item < c.names.length) :
      GridStep c (.cellForItemAt v item) (c.cellForItemAt item)

inductive Transition (s : State) : Event → State → Prop where
  | create : Transition s .create s.create
  | search (v : ℕ) (text : String) :
      Transition s (.searchBarSearchButtonClicked v text) (s.onSearch text)
  | select (v item : ℕ) (c : ReadViewController) (cell : CollectionViewCell)
      (hv : s.controllers[v]? = some c) (hcell : c.cell item = some cell) :
      Transition s (.didSelectItemAt v item) (s.onSelect c item)
  | viewDidLoad (v : ℕ) (c : ReadViewController) (hv : s.controllers[v]? = some c)
      (hw : c.listing = .idle) :
      Transition s (.viewDidLoad v) { s.set v c.downImg with comicSearchText := "" }
  | grid (v : ℕ) (e : Event) (c : ReadViewController) (c' : Option ReadViewController)
      (hv : s.controllers[v]? = some c)
      (hc : GridStep lowercased contains decode remote c e c') : Transition s e (s.finish v c')

theorem Transition.of_step {s s' : State} {e : Event}
    (h : step lowercased contains decode remote s e = some s') :
    s.running = true ∧ Transition lowercased contains decode remote s e s' := by
  unfold step at h
  split_ifs at h with hr
  refine ⟨hr, ?_⟩
  cases he : e.controller with
  | none =>
    rw [he] at h
    obtain rfl := Option.some.inj h
    cases e with
    | create => exact .create
    | _ => cases he
  | some v =>
    rw [he] at h
    dsimp only at h
    split at h
    · cases h
    rename_i c hv
    cases e with
    | create => cases he
    | viewDidLoad v' =>
      unfold stepController at h
      dsimp only at h
      split_ifs at h with hw
      obtain rfl := Option.some.inj h
      obtain rfl : v' = v := Option.some.inj he
      exact .viewDidLoad v' c hv hw
    | searchBarSearchButtonClicked v' text =>
      obtain rfl := Option.some.inj h
      exact .search v' text
    | listAll v' o =>
      unfold stepController at h
      dsimp only at h
      split_ifs at h with hw
      obtain rfl := Option.some.inj h
      exact .grid v _ c _ hv (.listAll v' o hw)
    | prefixListAll v' f o =>
      unfold stepController at h
      dsimp only at h
      split at h
      · cases h
      · rename_i request hf
        split_ifs at h with hw
        obtain rfl := Option.some.inj h
        exact .grid v _ c _ hv (.prefixListAll v' f o request hf hw)
    | getData v' f j arrives =>
      unfold stepController at h
      dsimp only at h
      split at h
      · cases h
      · rename_i request hf
        split at h
        · cases h
        · rename_i item hj
          obtain ⟨data, answered⟩ := item
          split_ifs at h with hw
          obtain rfl := Option.some.inj h
          obtain rfl : answered = .waiting := hw
          exact .grid v _ c _ hv (.getData v' f j arrives request data hf hj)
    | cellForItemAt v' item =>
      unfold stepController at h
      dsimp only at h
      split_ifs at h with hlt
      obtain rfl := Option.some.inj h
      exact .grid v _ c _ hv (.cellForItemAt v' item hlt)
    | didSelectItemAt v' item =>
      unfold stepController at h
      dsimp only at h
      split at h
      · cases h
      · rename_i cell hcell
        obtain rfl := Option.some.inj h
        obtain rfl : v' = v := Option.some.inj he
        exact .select v' item c cell hv hcell

end ComicGrid

namespace ReadViewController
variable (lowercased : String → String) (contains : String → String → Bool)
  (decode : Data → Option CGSize) (remote : List ComicFolder)

/-- The posters that arrived for one folder, each with the folder's name. -/
def deliveredFor (request : FolderRequest) : List (String × Data) :=
  (request.items.filter fun item => item.request = .arrived).map fun item =>
    (request.folder.name, item.key)

def delivered (c : ReadViewController) : List (String × Data) := c.folders.flatMap deliveredFor

def shown (c : ReadViewController) : List (String × Data) := c.names.zip (c.images.map UIImage.data)

structure Asks (request : FolderRequest) : Prop where
  folder : request.folder ∈ remote
  waiting : request.listing = .waiting → request.items = []
  listed : request.listing = .arrived → request.items.map Slot.key = request.folder.items
  items : ∀ data ∈ request.items.map Slot.key, data ∈ request.folder.items

structure Consistent (c : ReadViewController) : Prop where
  length : c.names.length = c.images.length
  shown : c.shown.Perm c.delivered
  cells : ∀ cell ∈ c.cells,
    c.names[cell.item]? = some cell.label ∧ c.images[cell.item]? = some cell.image
  idle : c.listing = .idle ∨ c.listing = .waiting → c.folders = []
  listed : c.listing = .arrived → c.folders.map FolderRequest.folder =
    remote.filter fun folder => c.Matches lowercased contains folder.name
  folders : ∀ request ∈ c.folders, Asks remote request ∧
    c.Matches lowercased contains request.folder.name

variable {lowercased contains decode remote}

theorem consistent_new (searchQuery : String) :
    (new searchQuery).Consistent lowercased contains remote where
  length := rfl
  shown := .refl _
  cells _ h := by cases h
  idle _ := rfl
  listed h := by cases h
  folders _ h := by cases h

theorem shown_nil {c : ReadViewController} (h : c.Consistent lowercased contains remote)
    (hfolders : c.folders = []) : c.shown = [] := by
  have hs := h.shown
  rw [delivered, hfolders] at hs
  exact List.perm_nil.mp hs

theorem Consistent.downImg {c : ReadViewController} (h : c.Consistent lowercased contains remote)
    (hw : c.listing = .idle) : c.downImg.Consistent lowercased contains remote :=
  ⟨h.length, h.shown, h.cells, fun _ => h.idle (.inl hw), nofun, h.folders⟩

theorem Consistent.onListAll {c : ReadViewController} (h : c.Consistent lowercased contains remote)
    (hw : c.listing = .waiting) (o : Outcome) :
    (c.onListAll lowercased contains remote o).Consistent lowercased contains remote := by
  have hshown := shown_nil h (h.idle (.inr hw))
  refine ⟨h.length, ?_, h.cells, ?_, ?_, ?_⟩
  · change c.shown.Perm _
    rw [hshown, delivered, ReadViewController.onListAll]
    simp [List.flatMap_map, deliveredFor]
  · intro hidle
    cases o with
    | success => simp [ReadViewController.onListAll, Outcome.request] at hidle
    | error listed => simp [ReadViewController.onListAll, Outcome.request] at hidle
  · intro harrived
    cases o with
    | success =>
      change (List.map _ (remote.filter _)).map FolderRequest.folder = _
      rw [List.map_map]
      exact List.map_id _
    | error listed => simp [ReadViewController.onListAll, Outcome.request] at harrived
  · intro request hm
    obtain ⟨folder, hf, rfl⟩ := List.mem_map.mp hm
    obtain ⟨hlisted, hmatches⟩ := List.mem_filter.mp hf
    exact ⟨⟨Outcome.mem_of_listed hlisted, fun _ => rfl, nofun, by simp⟩,
      of_decide_eq_true hmatches⟩

/-- One folder's requests move on and bring nothing to the grid. -/
theorem Consistent.setFolder {c : ReadViewController} (h : c.Consistent lowercased contains remote)
    {f : ℕ} {request request' : FolderRequest} (hf : c.folders[f]? = some request)
    (hfolder : request'.folder = request.folder)
    (hdelivered : deliveredFor request' = deliveredFor request) (hasks : Asks remote request') :
    Consistent lowercased contains remote { c with folders := c.folders.set f request' } := by
  refine ⟨h.length, ?_, h.cells, ?_, ?_, ?_⟩
  · change c.shown.Perm ((c.folders.set f request').flatMap deliveredFor)
    rw [flatMap_set_of_eq hf hdelivered]
    exact h.shown
  · intro hidle
    rw [h.idle hidle] at hf
    cases hf
  · intro harrived
    have hmap := map_set_of_eq hf (f := FolderRequest.folder) hfolder
    exact hmap.trans (h.listed harrived)
  · refine forall_mem_set h.folders f ?_
    rw [hfolder]
    exact ⟨hasks, (h.folders request (List.mem_of_getElem? hf)).2⟩

theorem Consistent.onPrefixListAll {c : ReadViewController}
    (h : c.Consistent lowercased contains remote) {f : ℕ} {request : FolderRequest}
    (hf : c.folders[f]? = some request) (hw : request.listing = .waiting) (o : Outcome) :
    (c.onPrefixListAll f request o).Consistent lowercased contains remote := by
  have hasks := (h.folders request (List.mem_of_getElem? hf)).1
  refine h.setFolder hf rfl ?_ ⟨hasks.folder, ?_, ?_, ?_⟩
  · simp [deliveredFor, hasks.waiting hw]
  · intro hwaiting
    cases o with
    | success => cases hwaiting
    | error listed => cases hwaiting
  · intro harrived
    cases o with
    | success => simp [Outcome.listed, Function.comp_def]
    | error listed => cases harrived
  · intro data hdata
    simp only [List.map_map, List.mem_map, Function.comp_apply, exists_eq_right] at hdata
    exact Outcome.mem_of_listed hdata

theorem Asks.answer {request : FolderRequest} (h : Asks remote request) {j : ℕ} {data : Data}
    {answered : Request} (hj : request.items[j]? = some ⟨data, .waiting⟩) :
    Asks remote { request with items := request.items.set j ⟨data, answered⟩ } := by
  have hkeys : (request.items.set j ⟨data, answered⟩).map Slot.key = request.items.map Slot.key :=
    map_set_of_eq hj rfl
  refine ⟨h.folder, fun hw => ?_, fun harrived => ?_, ?_⟩
  · rw [h.waiting hw] at hj
    cases hj
  · rw [hkeys]
    exact h.listed harrived
  · rw [hkeys]
    exact h.items

theorem Consistent.getDataFailed {c : ReadViewController}
    (h : c.Consistent lowercased contains remote) {f j : ℕ} {request : FolderRequest} {data : Data}
    (hf : c.folders[f]? = some request) (hj : request.items[j]? = some ⟨data, .waiting⟩) :
    (c.answer f request j data .failed).Consistent lowercased contains remote := by
  refine h.setFolder hf rfl ?_ ((h.folders request (List.mem_of_getElem? hf)).1.answer hj)
  obtain ⟨u, v, hl, -, hset, -⟩ := split_of_getElem? hj
  simp only [deliveredFor]
  rw [hset, hl]
  simp

theorem deliveredFor_arrived {request : FolderRequest} {j : ℕ} {data : Data}
    (hj : request.items[j]? = some ⟨data, .waiting⟩) :
    (deliveredFor { request with items := request.items.set j ⟨data, .arrived⟩ }).Perm
      ((request.folder.name, data) :: deliveredFor request) := by
  obtain ⟨u, v, hl, -, hset, -⟩ := split_of_getElem? hj
  simp only [deliveredFor]
  rw [hset, hl]
  simp only [List.filter_append, List.map_append, List.filter_cons, decide_true, if_true,
    List.map_cons]
  refine List.perm_middle.trans ?_
  simp

theorem Consistent.getDataArrived {c : ReadViewController}
    (h : c.Consistent lowercased contains remote) {f j : ℕ} {request : FolderRequest} {image : UIImage}
    (hf : c.folders[f]? = some request)
    (hj : request.items[j]? = some ⟨image.data, .waiting⟩) :
    Consistent lowercased contains remote { c.answer f request j image.data .arrived with
      images := c.images ++ [image]
      names := c.names ++ [request.folder.name] } := by
  obtain ⟨hasks, hmatches⟩ := h.folders request (List.mem_of_getElem? hf)
  refine ⟨?_, ?_, ?_, ?_, ?_, ?_⟩
  · simp [h.length]
  · have hzip : ReadViewController.shown { c.answer f request j image.data .arrived with
        images := c.images ++ [image]
        names := c.names ++ [request.folder.name] } =
          c.shown ++ [(request.folder.name, image.data)] := by
      rw [ReadViewController.shown, List.map_append, List.zip_append (by simpa using h.length)]
      rfl
    rw [hzip]
    exact (List.perm_append_singleton _ _).trans ((h.shown.cons _).trans
      (flatMap_set_perm hf (deliveredFor_arrived hj)).symm)
  · intro cell hm
    obtain ⟨hname, himage⟩ := h.cells cell hm
    refine ⟨?_, ?_⟩
    · exact (List.getElem?_append_left (List.getElem?_eq_some_iff.mp hname).1).trans hname
    · exact (List.getElem?_append_left (List.getElem?_eq_some_iff.mp himage).1).trans himage
  · intro hidle
    rw [h.idle hidle] at hf
    cases hf
  · intro harrived
    have hmap := @map_set_of_eq _ _ c.folders f request
      { request with items := request.items.set j ⟨image.data, .arrived⟩ } hf FolderRequest.folder rfl
    exact hmap.trans (h.listed harrived)
  · exact forall_mem_set h.folders f ⟨hasks.answer hj, hmatches⟩

theorem Consistent.cellForItemAt {c : ReadViewController}
    (h : c.Consistent lowercased contains remote) {item : ℕ} (hlt : item < c.names.length) :
    ∃ c', c.cellForItemAt item = some c' ∧ c'.Consistent lowercased contains remote := by
  obtain ⟨name, hname⟩ : ∃ name, c.names[item]? = some name := ⟨_, List.getElem?_eq_getElem hlt⟩
  obtain ⟨image, himage⟩ : ∃ image, c.images[item]? = some image :=
    ⟨_, List.getElem?_eq_getElem (h.length ▸ hlt)⟩
  refine ⟨{ c with cells := ⟨item, name, image⟩ :: c.cells },
    by simp [ReadViewController.cellForItemAt, hname, himage],
    ⟨h.length, h.shown, ?_, h.idle, h.listed, h.folders⟩⟩
  exact List.forall_mem_cons.mpr ⟨⟨hname, himage⟩, h.cells⟩

def InFlight (c : ReadViewController) : Prop :=
  c.listing = .waiting ∨ ∃ request ∈ c.folders, request.listing = .waiting ∨
    ∃ item ∈ request.items, item.request = .waiting

instance (c : ReadViewController) : Decidable c.InFlight := inferInstanceAs (Decidable (_ ∨ _))

end ReadViewController

namespace ComicGrid
open EventMachine ReadViewController
variable {lowercased : String → String} {contains : String → String → Bool}
  {decode : Data → Option CGSize} {remote : List ComicFolder}

theorem GridStep.consistent (hdecode : ∀ folder ∈ remote, ∀ data ∈ folder.items, (decode data).isSome)
    {c : ReadViewController} {e : Event} {result : Option ReadViewController}
    (h : GridStep lowercased contains decode remote c e result)
    (hc : c.Consistent lowercased contains remote) :
    ∃ c', result = some c' ∧ c'.Consistent lowercased contains remote := by
  cases h with
  | listAll v o hw => exact ⟨_, rfl, hc.onListAll hw o⟩
  | prefixListAll v f o request hf hw => exact ⟨_, rfl, hc.onPrefixListAll hf hw o⟩
  | getData v f j arrives request data hf hj =>
    cases arrives with
    | false => exact ⟨_, rfl, hc.getDataFailed hf hj⟩
    | true =>
      have hasks := (hc.folders request (List.mem_of_getElem? hf)).1
      have hmem : data ∈ request.folder.items :=
        hasks.items data (List.mem_map_of_mem (f := Slot.key) (List.mem_of_getElem? hj))
      obtain ⟨size, hsize⟩ := Option.isSome_iff_exists.mp (hdecode _ hasks.folder data hmem)
      have himage : UIImage.ofData decode data = some ⟨data, size⟩ := by simp [UIImage.ofData, hsize]
      have hj' : request.items[j]? = some ⟨(UIImage.mk data size).data, .waiting⟩ := hj
      exact ⟨_, by rw [onGetData, himage]; rfl, hc.getDataArrived hf hj'⟩
  | cellForItemAt v item hlt => exact hc.cellForItemAt hlt

theorem select_eq {s : State} {c : ReadViewController} (hc : c.Consistent lowercased contains remote)
    {item : ℕ} {cell : CollectionViewCell} (hcell : c.cell item = some cell) :
    s.onSelect c item = { s with id := some cell.label } ∧ c.names[item]? = some cell.label ∧
      c.images[item]? = some cell.image := by
  obtain ⟨hname, himage⟩ := hc.cells cell (List.mem_of_find?_eq_some hcell)
  have hitem : cell.item = item := by simpa using List.find?_some hcell
  rw [hitem] at hname himage
  exact ⟨by rw [State.onSelect, hname], hname, himage⟩

variable (lowercased contains decode remote)

structure Sound (s : State) : Prop where
  running : s.running = true
  controllers : ∀ c ∈ s.controllers, c.Consistent lowercased contains remote

theorem Sound.set {s : State} (h : Sound lowercased contains remote s) (v : ℕ)
    {c : ReadViewController} (hc : c.Consistent lowercased contains remote) :
    Sound lowercased contains remote (s.set v c) := by
  exact ⟨h.running, forall_mem_set h.controllers v hc⟩

theorem Sound.create {s : State} (h : Sound lowercased contains remote s) :
    Sound lowercased contains remote s.create := by
  refine ⟨h.running, fun other hm => ?_⟩
  rcases List.mem_append.mp hm with hm | hm
  · exact h.controllers other hm
  · rw [List.mem_singleton.mp hm]
    exact consistent_new _

theorem Sound.step (hdecode : ∀ folder ∈ remote, ∀ data ∈ folder.items, (decode data).isSome)
    {s s' : State} {e : Event} (h : Sound lowercased contains remote s)
    (hs : ComicGrid.step lowercased contains decode remote s e = some s') :
    Sound lowercased contains remote s' := by
  cases (Transition.of_step lowercased contains decode remote hs).2 with
  | create => exact h.create
  | search v text =>
    unfold State.onSearch
    split_ifs
    · exact h
    · have htext : Sound lowercased contains remote { s with comicSearchText := text } :=
        ⟨h.running, h.controllers⟩
      exact htext.create
  | select v item c cell hv hcell =>
    rw [(select_eq (h.controllers c (List.mem_of_getElem? hv)) hcell).1]
    exact ⟨h.running, h.controllers⟩
  | viewDidLoad v c hv hw =>
    obtain ⟨hrunning, hcontrollers⟩ :=
      h.set lowercased contains remote v ((h.controllers c (List.mem_of_getElem? hv)).downImg hw)
    exact ⟨hrunning, hcontrollers⟩
  | grid v e c result hv hc =>
    obtain ⟨c', rfl, hc'⟩ := hc.consistent hdecode (h.controllers c (List.mem_of_getElem? hv))
    exact h.set lowercased contains remote v hc'

/-- In every state of every session the two lists of a grid agree entry by entry, hold posters of
folders that match the query of their grid, and a chosen cell opens the comic it shows; and once no
request of the grid is in flight it shows every poster that was delivered exactly once, for all items
of all matching folders unless a listing failed. -/
theorem grid_consistent (hdecode : ∀ folder ∈ remote, ∀ data ∈ folder.items, (decode data).isSome)
    (comicSearchText : String) (es : List Event) (s : State)
    (hrun : run (ComicGrid.step lowercased contains decode remote) (launch comicSearchText) es = some s)
    (v : ℕ) (c : ReadViewController) (hv : s.controllers[v]? = some c) :
    c.names.length = c.images.length ∧
    (∀ (k : ℕ) (name : String) (image : UIImage), c.names[k]? = some name →
      c.images[k]? = some image → c.Matches lowercased contains name ∧
        ∃ folder ∈ remote, folder.name = name ∧ image.data ∈ folder.items) ∧
    (∀ (k : ℕ) (cell : CollectionViewCell), c.cell k = some cell → ∃ s',
      ComicGrid.step lowercased contains decode remote s (.didSelectItemAt v k) = some s' ∧
      s'.id = some cell.label ∧ c.names[k]? = some cell.label ∧ c.images[k]? = some cell.image) ∧
    (¬ c.InFlight → c.shown.Perm c.delivered ∧
      (c.listing = .arrived → c.folders.map FolderRequest.folder =
        remote.filter fun folder => c.Matches lowercased contains folder.name) ∧
      ∀ request ∈ c.folders, request.listing = .arrived →
        request.items.map Slot.key = request.folder.items) := by
  have hsound : Sound lowercased contains remote s :=
    run_invariant (ComicGrid.step lowercased contains decode remote) (I := Sound lowercased contains remote)
      ⟨rfl, by simp [launch]⟩ (fun _ _ _ h _ hs => h.step lowercased contains decode remote hdecode hs)
      (along_true _ _ _) hrun
  have hc := hsound.controllers c (List.mem_of_getElem? hv)
  refine ⟨hc.length, ?_, ?_, fun _ => ⟨hc.shown, hc.listed, ?_⟩⟩
  · intro k name image hname himage
    have hpair : (name, image.data) ∈ c.shown := by
      refine List.mem_of_getElem? (i := k) ?_
      rw [ReadViewController.shown, List.getElem?_zip_eq_some, List.getElem?_map, himage]
      exact ⟨hname, rfl⟩
    obtain ⟨request, hm, hitem⟩ := List.mem_flatMap.mp (hc.shown.mem_iff.mp hpair)
    obtain ⟨item, hi, heq⟩ := List.mem_map.mp hitem
    obtain ⟨rfl, hdata⟩ := Prod.mk.inj heq
    obtain ⟨hasks, hmatches⟩ := hc.folders request hm
    refine ⟨hmatches, request.folder, hasks.folder, rfl, ?_⟩
    rw [← hdata]
    exact hasks.items _ (List.mem_map_of_mem (List.mem_of_mem_filter hi))
  · intro k cell hcell
    obtain ⟨hselect, hname, himage⟩ := select_eq (s := s) hc hcell
    refine ⟨s.onSelect c k, ?_, by rw [hselect], hname, himage⟩
    simp only [ComicGrid.step, hsound.running, if_true, Event.controller, hv, stepController, hcell]
  · exact fun request hm => (hc.folders request hm).1.listed

def twoComics : List ComicFolder := [⟨"one piece", [[1], [2]]⟩, ⟨"naruto", [[3]]⟩]

def substring (s t : String) : Bool := t.toList <:+: s.toList

def searchOne : List Event :=
  [.create, .viewDidLoad 0, .listAll 0 .success, .prefixListAll 0 0 .success, .getData 0 0 1 true,
    .cellForItemAt 0 0, .getData 0 0 0 false]

def afterSearchOne : State :=
  (run (ComicGrid.step id substring (fun _ => some PageLoad.square) twoComics) (launch "one")
    searchOne).get (by decide +kernel)

def foundGrid : ReadViewController := (afterSearchOne.controllers[0]?).get (by decide +kernel)

theorem grid_consistent_searchOne : foundGrid.shown.Perm [("one piece", [2])] := by
  obtain ⟨-, -, -, hidle⟩ := grid_consistent id substring (fun _ => some PageLoad.square) twoComics
    (fun _ _ _ _ => rfl) "one" searchOne afterSearchOne (Option.some_get _).symm 0 foundGrid
    (Option.some_get _).symm
  have hdelivered : foundGrid.delivered = [("one piece", [2])] := by decide +kernel
  rw [← hdelivered]
  exact (hidle (by decide +kernel)).1

end ComicGrid
end ComicApp
