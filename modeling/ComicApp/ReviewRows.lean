import ComicApp.CommentCells
import ComicApp.CommentLists

/-!
# The rows of the review table

`ReviewViewController` numbers its rows from the end of `Comment.listReviewWorld`, once when a cell is
built and again when a row is chosen, and it is reloaded only when it appears. The list changes with the
reply to the request made at the start and with every comment that is created. A row opens the comment
that it shows as long as these changes leave the comment at its place from the end.
-/

namespace ComicApp.ReviewRows
open EventMachine
open CommentLists (Comment Earlier)
variable (comicID : String → Option String)

/-- `list` is `Comment.listReviewWorld` when the cell was built. -/
structure ReviewCell where
  row : ℕ
  comment : Comment
  list : List Comment
  deriving DecidableEq, Repr

/-- The request of `didSelectRowAt` for the document of `comment`, made while the cell showed
`shown`. -/
structure DocumentRequest where
  row : ℕ
  shown : Comment
  comment : Comment
  request : Request
  deriving DecidableEq, Repr

/-- `rows` is the number of rows at the last reload, and `cells` are the visible cells, the newest
first. -/
structure State where
  lists : CommentLists.State
  rows : ℕ
  cells : List ReviewCell
  requests : List DocumentRequest
  trapped : Bool

inductive Event where
  | lists (e : CommentLists.Event)
  | viewWillAppear
  | cellForRowAt (row : ℕ)
  | didEndDisplaying (row : ℕ)
  | didSelectRowAt (row : ℕ)
  | getDocument (i : ℕ) (succeeds : Bool)
  deriving DecidableEq, Repr

def launch (comicLists : String → Option Earlier) (worldList : Option Earlier) : State where
  lists := CommentLists.launch comicLists worldList
  rows := 0
  cells := []
  requests := []
  trapped := false

namespace State

def listReviewWorld (s : State) : List Comment := s.lists.listReviewWorld

def cell (s : State) (row : ℕ) : Option ReviewCell := s.cells.find? fun cell => cell.row = row

def onViewWillAppear (s : State) : State :=
  { s with rows := s.listReviewWorld.length, cells := [] }

def onCell (s : State) (row : ℕ) : State :=
  match reviewID s.listReviewWorld row with
  | none => { s with trapped := true }
  | some comment => { s with cells := ⟨row, comment, s.listReviewWorld⟩ :: s.cells }

def onSelect (s : State) (cell : ReviewCell) : State :=
  match reviewID s.listReviewWorld cell.row with
  | none => { s with trapped := true }
  | some comment => { s with requests := s.requests ++ [⟨cell.row, cell.comment, comment, .waiting⟩] }

def comicOf (s : State) : Comment → Option String
  | .earlier documentID => comicID documentID
  | .sent k => s.lists.session.sent[k]?.map CommentSession.Sent.comicID

def answer (s : State) (i : ℕ) (request : DocumentRequest) (answered : Request) : State :=
  { s with requests := s.requests.set i { request with request := answered } }

def onGetDocument (s : State) (i : ℕ) (request : DocumentRequest) : Bool → Option State
  | false => some (s.answer i request .failed)
  | true =>
    (CommentLists.step s.lists (.session (.select (s.comicOf comicID request.comment)))).map
      fun lists => { s.answer i request .arrived with lists := lists }

end State

def step (s : State) (e : Event) : Option State :=
  if s.trapped then none
  else
    match e with
    | .lists e => (CommentLists.step s.lists e).map fun lists => { s with lists := lists }
    | .viewWillAppear => some s.onViewWillAppear
    | .cellForRowAt row => if row < s.rows then some (s.onCell row) else none
    | .didEndDisplaying row => some { s with cells := s.cells.filter fun cell => cell.row ≠ row }
    | .didSelectRowAt row =>
      match s.cell row with
      | none => none
      | some cell => some (s.onSelect cell)
    | .getDocument i succeeds =>
      match s.requests[i]? with
      | none => none
      | some request =>
        if request.request = .waiting then s.onGetDocument comicID i request succeeds else none

inductive Transition (s : State) : Event → State → Prop where
  | lists (e : CommentLists.Event) (lists : CommentLists.State)
      (hs : CommentLists.step s.lists e = some lists) :
      Transition s (.lists e) { s with lists := lists }
  | viewWillAppear : Transition s .viewWillAppear s.onViewWillAppear
  | cellForRowAt (row : ℕ) (hrow : row < s.rows) : Transition s (.cellForRowAt row) (s.onCell row)
  | didEndDisplaying (row : ℕ) : Transition s (.didEndDisplaying row)
      { s with cells := s.cells.filter fun cell => cell.row ≠ row }
  | didSelectRowAt (row : ℕ) (cell : ReviewCell) (hcell : s.cell row = some cell) :
      Transition s (.didSelectRowAt row) (s.onSelect cell)
  | failed (i : ℕ) (request : DocumentRequest) (hi : s.requests[i]? = some request) :
      Transition s (.getDocument i false) (s.answer i request .failed)
  | arrived (i : ℕ) (request : DocumentRequest) (id : Option String) (lists : CommentLists.State)
      (hi : s.requests[i]? = some request)
      (hs : CommentLists.step s.lists (.session (.select id)) = some lists) :
      Transition s (.getDocument i true) { s.answer i request .arrived with lists := lists }

theorem Transition.of_step {s s' : State} {e : Event} (h : step comicID s e = some s') :
    s.trapped = false ∧ Transition s e s' := by
  unfold step at h
  split_ifs at h with htrapped
  refine ⟨eq_false_of_ne_true htrapped, ?_⟩
  cases e with
  | lists e =>
    obtain ⟨lists, hs, rfl⟩ := Option.map_eq_some_iff.mp h
    exact .lists e lists hs
  | viewWillAppear =>
    obtain rfl := Option.some.inj h
    exact .viewWillAppear
  | cellForRowAt row =>
    dsimp only at h
    split_ifs at h with hrow
    obtain rfl := Option.some.inj h
    exact .cellForRowAt row hrow
  | didEndDisplaying row =>
    obtain rfl := Option.some.inj h
    exact .didEndDisplaying row
  | didSelectRowAt row =>
    dsimp only at h
    split at h
    · cases h
    · rename_i cell hcell
      obtain rfl := Option.some.inj h
      exact .didSelectRowAt row cell hcell
  | getDocument i succeeds =>
    dsimp only at h
    split at h
    · cases h
    · rename_i request hi
      split_ifs at h
      cases succeeds with
      | false =>
        obtain rfl := Option.some.inj h
        exact .failed i request hi
      | true =>
        obtain ⟨lists, hs, rfl⟩ := Option.map_eq_some_iff.mp h
        exact .arrived i request _ lists hi hs

def Behind {α : Type} (list : List α) (comment : α) (row : ℕ) : Prop :=
  ∃ earlier later, list = earlier ++ comment :: later ∧ later.length = row

theorem reviewID_eq_some {α : Type} {list : List α} {comment : α} {row : ℕ} :
    reviewID list row = some comment ↔ Behind list comment row := by
  unfold reviewID
  split_ifs with hrow
  · constructor
    · intro h
      obtain ⟨hlt, rfl⟩ := List.getElem?_eq_some_iff.mp h
      refine ⟨list.take (list.length - row - 1), list.drop (list.length - row - 1 + 1), ?_, ?_⟩
      · rw [List.getElem_cons_drop, List.take_append_drop]
      · rw [List.length_drop]
        omega
    · rintro ⟨earlier, later, rfl, rfl⟩
      have hlen : (earlier ++ comment :: later).length - later.length - 1 = earlier.length := by
        simp only [List.length_append, List.length_cons]
        omega
      rw [hlen, List.getElem?_append_right (Nat.le_refl _), Nat.sub_self]
      rfl
  · refine iff_of_false nofun ?_
    rintro ⟨earlier, later, rfl, rfl⟩
    apply hrow
    simp only [List.length_append, List.length_cons]
    omega

def Unmoved {α : Type} (list list' : List α) (row : ℕ) : Prop :=
  list'.reverse[row]? = list.reverse[row]?

instance {α : Type} [DecidableEq α] (list list' : List α) (row : ℕ) :
    Decidable (Unmoved list list' row) := inferInstanceAs (Decidable (_ = _))

theorem behind_iff_getElem? {α : Type} {list : List α} {comment : α} {row : ℕ} :
    Behind list comment row ↔ list.reverse[row]? = some comment := by
  constructor
  · rintro ⟨earlier, later, rfl, rfl⟩
    rw [List.reverse_append, List.reverse_cons, List.append_assoc, ← List.length_reverse,
      List.getElem?_append_right (Nat.le_refl _), Nat.sub_self]
    rfl
  · intro h
    obtain ⟨hlt, rfl⟩ := List.getElem?_eq_some_iff.mp h
    refine ⟨(list.reverse.drop (row + 1)).reverse, (list.reverse.take row).reverse, ?_, ?_⟩
    · apply List.reverse_injective
      simp only [List.reverse_append, List.reverse_cons, List.reverse_reverse, List.append_assoc]
      rw [List.singleton_append, List.getElem_cons_drop, List.take_append_drop]
    · rw [List.length_reverse, List.length_take_of_le hlt.le]

theorem Behind.unmoved_iff {α : Type} {list list' : List α} {comment : α} {row : ℕ}
    (h : Behind list comment row) : Unmoved list list' row ↔ Behind list' comment row := by
  rw [behind_iff_getElem?] at h ⊢
  rw [Unmoved, h]

theorem reviewID_eq_none {α : Type} {list : List α} {row : ℕ} :
    reviewID list row = none ↔ list.length ≤ row := by
  unfold reviewID
  split_ifs with hrow
  · rw [List.getElem?_eq_none_iff]
    omega
  · exact iff_of_true rfl (Nat.le_of_not_lt hrow)

namespace State

/-- No index was outside the list, and every row that was chosen opened the comment it showed. -/
def OpenedShown (s : State) : Prop :=
  s.trapped = false ∧ ∀ request ∈ s.requests, request.comment = request.shown

/-- A cell is built only for a row inside the list, and a row is chosen only if the changes of the list
since its cell was built have left the same comment at its place from the end. -/
def InPlace (s : State) : Event → Prop
  | .cellForRowAt row => row < s.listReviewWorld.length
  | .didSelectRowAt row => ∀ cell ∈ s.cell row, Unmoved cell.list s.listReviewWorld cell.row
  | _ => True

instance (s : State) : (e : Event) → Decidable (s.InPlace e)
  | .cellForRowAt _ => inferInstanceAs (Decidable (_ < _))
  | .didSelectRowAt _ => inferInstanceAs (Decidable (∀ cell ∈ _, Unmoved _ _ _))
  | .lists _ | .viewWillAppear | .didEndDisplaying _ | .getDocument _ _ => .isTrue trivial

def Built (s : State) : Prop := ∀ cell ∈ s.cells, Behind cell.list cell.comment cell.row

theorem OpenedShown.answer {s : State} (h : s.OpenedShown) {i : ℕ} {request : DocumentRequest}
    (hi : s.requests[i]? = some request) (answered : Request) :
    (s.answer i request answered).OpenedShown :=
  ⟨h.1, forall_mem_set h.2 i (h.2 request (List.mem_of_getElem? hi))⟩

theorem openedShown_onCell_iff {s : State} (h : s.OpenedShown) {row : ℕ} :
    (s.onCell row).OpenedShown ↔ row < s.listReviewWorld.length := by
  unfold onCell
  split
  · rename_i hnone
    exact iff_of_false (fun h' => nomatch h'.1) (Nat.not_lt.mpr (reviewID_eq_none.mp hnone))
  · rename_i comment hsome
    refine iff_of_true h (Nat.lt_of_not_le fun hle => ?_)
    rw [reviewID_eq_none.mpr hle] at hsome
    cases hsome

theorem openedShown_onSelect_iff {s : State} (h : s.OpenedShown) {cell : ReviewCell} :
    (s.onSelect cell).OpenedShown ↔ Behind s.listReviewWorld cell.comment cell.row := by
  rw [← reviewID_eq_some]
  unfold onSelect
  split
  · rename_i hnone
    rw [hnone]
    exact iff_of_false (fun h' => nomatch h'.1) nofun
  · rename_i comment hsome
    rw [hsome, Option.some.injEq]
    constructor
    · intro h'
      exact h'.2 _ (List.mem_append_right _ (List.mem_singleton_self _))
    · intro heq
      exact ⟨h.1, forall_mem_concat h.2 heq⟩

end State

variable {comicID}

theorem State.Built.step {s s' : State} {e : Event} (h : s.Built)
    (hs : ReviewRows.step comicID s e = some s') : s'.Built := by
  cases (Transition.of_step comicID hs).2 with
  | lists e lists hstep => exact h
  | viewWillAppear => exact fun cell hcell => absurd hcell List.not_mem_nil
  | cellForRowAt row hrow =>
    unfold State.onCell
    split
    · exact h
    · rename_i comment hsome
      exact List.forall_mem_cons.mpr ⟨reviewID_eq_some.mp hsome, h⟩
  | didEndDisplaying row => exact fun cell hcell => h cell (List.mem_filter.mp hcell).1
  | didSelectRowAt row cell hcell =>
    unfold State.onSelect
    split
    · exact h
    · exact h
  | failed i request hi => exact h
  | arrived i request id lists hi hstep => exact h

/-- A step goes wrong exactly where the list has moved. -/
theorem openedShown_step_iff {s s' : State} {e : Event} (h : s.OpenedShown) (hbuilt : s.Built)
    (hs : step comicID s e = some s') : s'.OpenedShown ↔ s.InPlace e := by
  cases (Transition.of_step comicID hs).2 with
  | lists e lists hstep => exact iff_of_true h trivial
  | viewWillAppear => exact iff_of_true h trivial
  | cellForRowAt row hrow => exact State.openedShown_onCell_iff h
  | didEndDisplaying row => exact iff_of_true h trivial
  | didSelectRowAt row cell hcell =>
    have hunmoved : Unmoved cell.list s.listReviewWorld cell.row ↔
        Behind s.listReviewWorld cell.comment cell.row :=
      (hbuilt cell (List.mem_of_find?_eq_some hcell)).unmoved_iff
    refine (State.openedShown_onSelect_iff h).trans
      ⟨fun hb cell' hcell' => ?_, fun hC => hunmoved.mp (hC cell hcell)⟩
    obtain rfl := Option.some.inj (hcell.symm.trans hcell')
    exact hunmoved.mpr hb
  | failed i request hi => exact iff_of_true (h.answer hi .failed) trivial
  | arrived i request id lists hi hstep => exact iff_of_true (h.answer hi .arrived) trivial

theorem State.openedShown_launch (comicLists : String → Option Earlier)
    (worldList : Option Earlier) : (launch comicLists worldList).OpenedShown :=
  ⟨rfl, fun _ h => by cases h⟩

/-- Every chosen row opens the comment it shows, and no index is outside the list, exactly in the runs
in which the list is long enough for every cell and its changes move no chosen comment. -/
theorem openedShown_iff (comicID : String → Option String) (comicLists : String → Option Earlier)
    (worldList : Option Earlier) (es : List Event) (s : State)
    (hrun : run (step comicID) (launch comicLists worldList) es = some s) :
    Throughout (step comicID) State.OpenedShown (launch comicLists worldList) es ↔
      Along (step comicID) State.InPlace (launch comicLists worldList) es :=
  throughout_iff_along_of_step_iff (step comicID) (I := State.Built) (fun _ _ _ => State.Built.step)
    (fun _ _ _ hbuilt h => openedShown_step_iff h hbuilt) (fun _ h => by cases h)
    (State.openedShown_launch comicLists worldList) hrun

/-- The list changes only while no cell is visible, and not below the number of rows. -/
def State.Reloaded (s : State) : Event → Prop
  | .lists e => ∀ lists, CommentLists.step s.lists e = some lists →
      lists.listReviewWorld = s.listReviewWorld ∨
        s.cells = [] ∧ s.rows ≤ lists.listReviewWorld.length
  | _ => True

structure State.Fits (s : State) : Prop where
  rows : s.rows ≤ s.listReviewWorld.length
  cells : ∀ cell ∈ s.cells, Behind s.listReviewWorld cell.comment cell.row

theorem State.Fits.inPlace {s : State} (h : s.Fits) (hbuilt : s.Built) {e : Event} {s' : State}
    (hs : step comicID s e = some s') : s.InPlace e := by
  cases (Transition.of_step comicID hs).2 with
  | cellForRowAt row hrow => exact Nat.lt_of_lt_of_le hrow h.rows
  | didSelectRowAt row cell hcell =>
    intro cell' hcell'
    have hmem := List.mem_of_find?_eq_some hcell'
    exact (hbuilt cell' hmem).unmoved_iff.mpr (h.cells cell' hmem)
  | lists e lists hstep => trivial
  | viewWillAppear => trivial
  | didEndDisplaying row => trivial
  | failed i request hi => trivial
  | arrived i request id lists hi hstep => trivial

/-- Opening an info page leaves the list of all comments as it is. -/
theorem listReviewWorld_select {s s' : CommentLists.State} {id : Option String}
    (hs : CommentLists.step s (.session (.select id)) = some s') :
    s'.listReviewWorld = s.listReviewWorld := by
  cases (CommentLists.Transition.of_step hs).2 with
  | session e session hstep => rfl

theorem State.Fits.congr {s s' : State} (h : s.Fits) (hrows : s'.rows = s.rows)
    (hcells : s'.cells = s.cells) (hlist : s'.listReviewWorld = s.listReviewWorld) : s'.Fits := by
  constructor
  · rw [hrows, hlist]
    exact h.rows
  · rw [hcells, hlist]
    exact h.cells

theorem State.fits_launch (comicLists : String → Option Earlier) (worldList : Option Earlier) :
    (launch comicLists worldList).Fits where
  rows := Nat.zero_le _
  cells _ h := by cases h

theorem State.Fits.step {s s' : State} {e : Event} (h : s.Fits) (hreloaded : s.Reloaded e)
    (hs : ReviewRows.step comicID s e = some s') : s'.Fits := by
  cases (Transition.of_step comicID hs).2 with
  | lists e lists hstep =>
    rcases hreloaded lists hstep with heq | ⟨hnil, hrows⟩
    · exact h.congr rfl rfl heq
    · exact ⟨hrows, fun cell hcell => absurd (hnil ▸ hcell) List.not_mem_nil⟩
  | viewWillAppear => exact ⟨Nat.le_refl _, nofun⟩
  | cellForRowAt row hrow =>
    unfold State.onCell
    split
    · exact ⟨h.rows, h.cells⟩
    · rename_i comment hsome
      refine ⟨h.rows, fun cell hcell => ?_⟩
      rcases List.mem_cons.mp hcell with rfl | hcell
      · exact reviewID_eq_some.mp hsome
      · exact h.cells cell hcell
  | didEndDisplaying row =>
    exact ⟨h.rows, fun cell hcell => h.cells cell (List.mem_filter.mp hcell).1⟩
  | didSelectRowAt row cell hcell =>
    unfold State.onSelect
    split
    · exact ⟨h.rows, h.cells⟩
    · exact ⟨h.rows, h.cells⟩
  | failed i request hi => exact ⟨h.rows, h.cells⟩
  | arrived i request id lists hi hstep => exact h.congr rfl rfl (listReviewWorld_select hstep)

/-- A table whose rows are read again after every change of the list opens what it shows. -/
theorem openedShown_of_reloaded (comicID : String → Option String)
    (comicLists : String → Option Earlier) (worldList : Option Earlier) (es : List Event)
    (hreloaded : Along (step comicID) State.Reloaded (launch comicLists worldList) es) :
    Throughout (step comicID) State.OpenedShown (launch comicLists worldList) es := by
  refine throughout_of_invariant (step comicID) (I := fun s => s.OpenedShown ∧ s.Fits ∧ s.Built)
    (fun s => And.left) ?_ ⟨State.openedShown_launch comicLists worldList,
      State.fits_launch comicLists worldList, fun _ h => by cases h⟩ hreloaded
  rintro s e s' ⟨h, hfits, hbuilt⟩ hreloaded hs
  exact ⟨(openedShown_step_iff h hbuilt hs).mpr (hfits.inPlace hbuilt hs), hfits.step hreloaded hs,
    hbuilt.step hs⟩

open CommentLists in
def reviewed : List Event :=
  [.lists (.answer 0), .lists (.list 0 true), .lists (.session (.signIn (some "an"))),
    .lists (.session (.select (some "one piece"))), .lists (.session (.sendComment "good")),
    .viewWillAppear, .cellForRowAt 0]

def chosen : List Event := reviewed ++ [.didSelectRowAt 0, .getDocument 0 true]

def chosenLate : List Event :=
  reviewed ++ [.lists (.session (.addDocument 0 true)), .didSelectRowAt 0]

def emptyLists : String → Option Earlier := fun _ => some ⟨[], List.nodup_nil⟩

def oneReview : Option Earlier := some ⟨["bad"], List.nodup_singleton _⟩

def comicOfAll : String → Option String := fun _ => some "one piece"

def afterChosen : State :=
  (run (step comicOfAll) (launch emptyLists oneReview) chosen).get (by decide +kernel)

def afterChosenLate : State :=
  (run (step comicOfAll) (launch emptyLists oneReview) chosenLate).get (by decide +kernel)

theorem openedShown_iff_chosen :
    Throughout (step comicOfAll) State.OpenedShown (launch emptyLists oneReview) chosen :=
  (openedShown_iff comicOfAll emptyLists oneReview chosen afterChosen (Option.some_get _).symm).mpr
    (by decide +kernel)

theorem not_openedShown :
    ¬ ∀ (comicID : String → Option String) (comicLists : String → Option Earlier)
      (worldList : Option Earlier) (es : List Event) (s : State),
      run (step comicID) (launch comicLists worldList) es = some s → s.OpenedShown := by
  intro h
  have hshown := h comicOfAll emptyLists oneReview chosenLate afterChosenLate
    (Option.some_get _).symm
  have hrequest : afterChosenLate.requests =
      [⟨0, .earlier "bad", .sent 0, .waiting⟩] := by decide +kernel
  have heq := hshown.2 ⟨0, .earlier "bad", .sent 0, .waiting⟩ (by rw [hrequest]; simp)
  exact absurd heq (by decide)

end ComicApp.ReviewRows
