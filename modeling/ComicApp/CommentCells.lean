import ComicApp.EventMachine
import ComicApp.Overwrite
import ComicApp.PageLoad

/-!
# The cells of the comment tables

`cellForRowAt` of `InfoViewController` and of `ReviewViewController` binds a cell to a comment by
asking for its document. The reply shows the content and asks for the avatar of the author, the name of
the author and the name of the comic; whichever name comes second shows the label. All four replies
write to the cell that was bound, though it may be bound to another comment by then. `store` is what
the documents and the files contain, and `decode` stands for `UIImage(data:)`.
-/

namespace ComicApp

structure CommentDocument where
  content : Option String
  userID : String
  comicID : String

/-- The documents of `Comment`, the files of the storage, the `"fullName"` of the documents of `Users`
and the `"name"` of the documents of `Comic`. -/
structure CommentStore where
  comment : String → CommentDocument
  file : String → Data
  fullName : String → String
  name : String → String

inductive Attributes where
  | boldBlack
  | italicLink
  deriving DecidableEq, Repr

abbrev NSAttributedString := List (String × Attributes)

def setLblTwoColor (str1 str2 : String) : NSAttributedString :=
  [(str1 ++ " - ", .boldBlack), (str2, .italicLink)]

inductive CommentTable where
  | info (v : ℕ)
  | review
  deriving DecidableEq, Repr

structure CommentTableViewCell where
  table : CommentTable
  lblContent : Option String
  imgAvatarUser : Option UIImage
  lblUserAndComic : Option NSAttributedString
  deriving DecidableEq

def CommentTableViewCell.new (table : CommentTable) : CommentTableViewCell := ⟨table, none, none, none⟩

/-- The document id of a row of `ReviewViewController`; `none` is the trap on an index outside the
list. -/
def reviewID {α : Type} (listReviewWorld : List α) (row : ℕ) : Option α :=
  if row < listReviewWorld.length then listReviewWorld[listReviewWorld.length - row - 1]? else none

inductive CommentSource where
  | document
  | avatar
  | user
  | comic
  deriving DecidableEq, Repr

/-- One run of `cellForRowAt`: the cell and the id it captured, its requests and its variables. -/
structure CommentBinding where
  cell : ℕ
  comment : String
  document : Request
  avatar : Request
  user : Request
  comic : Request
  str1 : String
  str2 : String
  deriving DecidableEq, Repr

namespace CommentBinding
variable (decode : Data → Option CGSize) (store : CommentStore)

def new (cell : ℕ) (comment : String) : CommentBinding :=
  ⟨cell, comment, .waiting, .idle, .idle, .idle, "", ""⟩

def request (b : CommentBinding) : CommentSource → Request
  | .document => b.document
  | .avatar => b.avatar
  | .user => b.user
  | .comic => b.comic

/-- What a reply leaves of the run, and what it does to the cell. -/
abbrev Effect := CommentBinding × (CommentTableViewCell → CommentTableViewCell)

def onDocument (b : CommentBinding) : Effect :=
  ({ b with document := .arrived, avatar := .waiting, user := .waiting, comic := .waiting },
    fun cell => { cell with lblContent := (store.comment b.comment).content })

def avatarPath (b : CommentBinding) : String := "User/" ++ (store.comment b.comment).userID ++ ".jpg"

def onAvatar (b : CommentBinding) : Effect :=
  ({ b with avatar := .arrived },
    fun cell => { cell with imgAvatarUser := UIImage.ofData decode (store.file (b.avatarPath store)) })

def setLabel (b : CommentBinding) : Effect :=
  (b, fun cell =>
    if b.str1 ≠ "" ∧ b.str2 ≠ "" then
      { cell with lblUserAndComic := some (setLblTwoColor b.str1 b.str2) }
    else cell)

def onUser (b : CommentBinding) : Effect :=
  setLabel { b with
    user := .arrived
    str1 := store.fullName (store.comment b.comment).userID }

def onComic (b : CommentBinding) : Effect :=
  setLabel { b with
    comic := .arrived
    str2 := store.name (store.comment b.comment).comicID }

def onError (b : CommentBinding) : CommentSource → CommentBinding
  | .document => { b with document := .failed }
  | .avatar => { b with avatar := .failed }
  | .user => { b with user := .failed }
  | .comic => { b with comic := .failed }

def reply (b : CommentBinding) (source : CommentSource) : Bool → Effect
  | false => (b.onError source, id)
  | true =>
    match source with
    | .document => b.onDocument store
    | .avatar => b.onAvatar decode store
    | .user => b.onUser store
    | .comic => b.onComic store

end CommentBinding

namespace CommentCells
open EventMachine Overwrite
variable (decode : Data → Option CGSize) (store : CommentStore)

structure State where
  listCommentComic : List String
  listReviewWorld : List String
  cells : List CommentTableViewCell
  bindings : List CommentBinding
  deriving DecidableEq

/-- The two lists change at any time. A table asks for a cell of its own that it has made before, or
for a new one. -/
inductive Event where
  | listCommentComic (ids : List String)
  | listReviewWorld (ids : List String)
  | cellForRowAt (table : CommentTable) (row cell : ℕ)
  | reply (i : ℕ) (source : CommentSource) (succeeds : Bool)
  deriving DecidableEq, Repr

def launch : State := ⟨[], [], [], []⟩

namespace State

def documentID (s : State) : CommentTable → ℕ → Option String
  | .info _, row => s.listCommentComic[row]?
  | .review, row => reviewID s.listReviewWorld row

def dequeueReusableCell (s : State) (table : CommentTable) (cell : ℕ) :
    Option (List CommentTableViewCell) :=
  match s.cells[cell]? with
  | none => if cell = s.cells.length then some (s.cells ++ [.new table]) else none
  | some c => if c.table = table then some s.cells else none

def bind (s : State) (cells : List CommentTableViewCell) (cell : ℕ) (comment : String) : State :=
  { s with cells := cells, bindings := s.bindings ++ [.new cell comment] }

def onReply (s : State) (i : ℕ) (b : CommentBinding) (source : CommentSource) (succeeds : Bool) :
    State :=
  { s with
    cells := s.cells.modify b.cell (b.reply decode store source succeeds).2
    bindings := s.bindings.set i (b.reply decode store source succeeds).1 }

end State

def step (s : State) : Event → Option State
  | .listCommentComic ids => some { s with listCommentComic := ids }
  | .listReviewWorld ids => some { s with listReviewWorld := ids }
  | .cellForRowAt table row cell =>
    match s.dequeueReusableCell table cell, s.documentID table row with
    | some cells, some comment => some (s.bind cells cell comment)
    | _, _ => none
  | .reply i source succeeds =>
    match s.bindings[i]? with
    | none => none
    | some b =>
      if b.request source = .waiting then some (s.onReply decode store i b source succeeds) else none

inductive Transition (s : State) : Event → State → Prop where
  | listCommentComic (ids : List String) :
      Transition s (.listCommentComic ids) { s with listCommentComic := ids }
  | listReviewWorld (ids : List String) :
      Transition s (.listReviewWorld ids) { s with listReviewWorld := ids }
  | reuse (table : CommentTable) (row cell : ℕ) (comment : String) (hlt : cell < s.cells.length) :
      Transition s (.cellForRowAt table row cell) (s.bind s.cells cell comment)
  | create (table : CommentTable) (row : ℕ) (comment : String) :
      Transition s (.cellForRowAt table row s.cells.length)
        (s.bind (s.cells ++ [.new table]) s.cells.length comment)
  | reply (i : ℕ) (source : CommentSource) (succeeds : Bool) (b : CommentBinding)
      (hi : s.bindings[i]? = some b) (hw : b.request source = .waiting) :
      Transition s (.reply i source succeeds) (s.onReply decode store i b source succeeds)

theorem Transition.of_step {s s' : State} {e : Event} (h : step decode store s e = some s') :
    Transition decode store s e s' := by
  unfold step at h
  cases e with
  | listCommentComic ids =>
    obtain rfl := Option.some.inj h
    exact .listCommentComic ids
  | listReviewWorld ids =>
    obtain rfl := Option.some.inj h
    exact .listReviewWorld ids
  | cellForRowAt table row cell =>
    dsimp only at h
    split at h
    · rename_i cells comment hcells hcomment
      obtain rfl := Option.some.inj h
      unfold State.dequeueReusableCell at hcells
      split at hcells
      · split_ifs at hcells with hlen
        obtain rfl := Option.some.inj hcells
        subst hlen
        exact .create table row comment
      · rename_i c hc
        split_ifs at hcells
        obtain rfl := Option.some.inj hcells
        exact .reuse table row cell comment (List.getElem?_eq_some_iff.mp hc).1
    · cases h
  | reply i source succeeds =>
    dsimp only at h
    split at h
    · cases h
    · rename_i b hi
      split_ifs at h with hw
      obtain rfl := Option.some.inj h
      exact .reply i source succeeds b hi hw

inductive Part where
  | content
  | avatar
  | label
  deriving DecidableEq, Repr

abbrev Part.Value : Part → Type
  | .content => Option String
  | .avatar => Option UIImage
  | .label => Option NSAttributedString

instance : (part : Part) → DecidableEq part.Value
  | .content => inferInstanceAs (DecidableEq (Option String))
  | .avatar => inferInstanceAs (DecidableEq (Option UIImage))
  | .label => inferInstanceAs (DecidableEq (Option NSAttributedString))

def shown (cell : CommentTableViewCell) : (part : Part) → part.Value
  | .content => cell.lblContent
  | .avatar => cell.imgAvatarUser
  | .label => cell.lblUserAndComic

def own (b : CommentBinding) : (part : Part) → part.Value
  | .content => (store.comment b.comment).content
  | .avatar => UIImage.ofData decode (store.file (b.avatarPath store))
  | .label => some (setLblTwoColor (store.fullName (store.comment b.comment).userID)
      (store.name (store.comment b.comment).comicID))

def Written (part : Part) (b : CommentBinding) : Prop :=
  match part with
  | .content => b.document = .arrived
  | .avatar => b.avatar = .arrived
  | .label => b.str1 ≠ "" ∧ b.str2 ≠ ""

instance (part : Part) (b : CommentBinding) : Decidable (Written part b) := by
  cases part <;> (unfold Written; infer_instance)

def writes (b : CommentBinding) (source : CommentSource) (succeeds : Bool) : Option Part :=
  if succeeds then
    match source with
    | .document => some .content
    | .avatar => some .avatar
    | .user =>
      if store.fullName (store.comment b.comment).userID ≠ "" ∧ b.str2 ≠ "" then some .label else none
    | .comic =>
      if b.str1 ≠ "" ∧ store.name (store.comment b.comment).comicID ≠ "" then some .label else none
  else none

structure Sound (b : CommentBinding) : Prop where
  started : b.document ≠ .idle
  idle : b.document ≠ .arrived → b.avatar = .idle ∧ b.user = .idle ∧ b.comic = .idle
  asked : b.document = .arrived → b.avatar ≠ .idle ∧ b.user ≠ .idle ∧ b.comic ≠ .idle
  str1_eq : b.str1 =
    if b.user = .arrived then store.fullName (store.comment b.comment).userID else ""
  str2_eq : b.str2 =
    if b.comic = .arrived then store.name (store.comment b.comment).comicID else ""

theorem sound_new (cell : ℕ) (comment : String) : Sound store (.new cell comment) where
  started := by simp [CommentBinding.new]
  idle _ := ⟨rfl, rfl, rfl⟩
  asked h := by cases h
  str1_eq := rfl
  str2_eq := rfl

variable {decode store}

/-- The requests that are out beside the document were made by its reply. -/
theorem Sound.arrived {b : CommentBinding} (h : Sound store b) {source : CommentSource}
    (hw : b.request source = .waiting) (hsource : source ≠ .document) : b.document = .arrived := by
  by_contra hne
  obtain ⟨ha, hu, hc⟩ := h.idle hne
  cases source with
  | document => exact hsource rfl
  | avatar => exact absurd (ha.symm.trans hw) (by decide)
  | user => exact absurd (hu.symm.trans hw) (by decide)
  | comic => exact absurd (hc.symm.trans hw) (by decide)

theorem Sound.reply {b : CommentBinding} (h : Sound store b) {source : CommentSource}
    (hw : b.request source = .waiting) (succeeds : Bool) :
    Sound store (b.reply decode store source succeeds).1 := by
  obtain ⟨hstarted, hidle, hasked, hstr1, hstr2⟩ := h
  cases source with
  | document =>
    have hw : b.document = .waiting := hw
    obtain ⟨ha, hu, hc⟩ := hidle (by rw [hw]; decide)
    rw [hu] at hstr1
    rw [hc] at hstr2
    cases succeeds <;>
      constructor <;> simp [CommentBinding.reply, CommentBinding.onError,
        CommentBinding.onDocument, ha, hu, hc, hstr1, hstr2]
  | avatar =>
    have hdoc := Sound.arrived ⟨hstarted, hidle, hasked, hstr1, hstr2⟩ hw (by decide)
    obtain ⟨-, hu, hc⟩ := hasked hdoc
    cases succeeds <;>
      constructor <;> simp [CommentBinding.reply, CommentBinding.onError,
        CommentBinding.onAvatar, hdoc, hu, hc, hstr1, hstr2]
  | user =>
    have hdoc := Sound.arrived ⟨hstarted, hidle, hasked, hstr1, hstr2⟩ hw (by decide)
    obtain ⟨ha, -, hc⟩ := hasked hdoc
    have hw : b.user = .waiting := hw
    rw [hw] at hstr1
    cases succeeds <;>
      constructor <;> simp [CommentBinding.reply, CommentBinding.onError,
        CommentBinding.onUser, CommentBinding.setLabel, hdoc, ha, hc, hstr1, hstr2]
  | comic =>
    have hdoc := Sound.arrived ⟨hstarted, hidle, hasked, hstr1, hstr2⟩ hw (by decide)
    obtain ⟨ha, hu, -⟩ := hasked hdoc
    have hw : b.comic = .waiting := hw
    rw [hw] at hstr2
    cases succeeds <;>
      constructor <;> simp [CommentBinding.reply, CommentBinding.onError,
        CommentBinding.onComic, CommentBinding.setLabel, hdoc, ha, hu, hstr1, hstr2]

@[simp] theorem reply_cell (b : CommentBinding) (source : CommentSource) (succeeds : Bool) :
    (b.reply decode store source succeeds).1.cell = b.cell := by
  cases succeeds <;> cases source <;> rfl

@[simp] theorem reply_comment (b : CommentBinding) (source : CommentSource) (succeeds : Bool) :
    (b.reply decode store source succeeds).1.comment = b.comment := by
  cases succeeds <;> cases source <;> rfl

theorem own_congr {b b' : CommentBinding} (h : b'.comment = b.comment) (part : Part) :
    own decode store b' part = own decode store b part := by
  cases part <;> simp [own, CommentBinding.avatarPath, h]

theorem Sound.str1_eq_empty {b : CommentBinding} (h : Sound store b) (hu : b.user = .waiting) :
    b.str1 = "" := by
  rw [h.str1_eq, hu, if_neg (by decide)]

theorem Sound.str2_eq_empty {b : CommentBinding} (h : Sound store b) (hc : b.comic = .waiting) :
    b.str2 = "" := by
  rw [h.str2_eq, hc, if_neg (by decide)]

/-- The label is written from the names of the author and of the comic. -/
theorem Sound.own_label {b : CommentBinding} (h : Sound store b) :
    (b.str1 ≠ "" → b.str1 = store.fullName (store.comment b.comment).userID) ∧
      (b.str2 ≠ "" → b.str2 = store.name (store.comment b.comment).comicID) := by
  constructor
  · intro hne
    have heq := h.str1_eq
    split_ifs at heq
    · exact heq
    · exact absurd heq hne
  · intro hne
    have heq := h.str2_eq
    split_ifs at heq
    · exact heq
    · exact absurd heq hne

/-- A reply writes no part of the cell that its run of `cellForRowAt` wrote before. -/
theorem Sound.not_written {b : CommentBinding} (h : Sound store b) {source : CommentSource}
    (hw : b.request source = .waiting) {succeeds : Bool} {part : Part}
    (hp : writes store b source succeeds = some part) : ¬ Written part b := by
  cases succeeds with
  | false => cases hp
  | true =>
    cases source with
    | document =>
      obtain rfl := Option.some.inj hp
      exact fun hd => absurd (hd.symm.trans hw) (by decide)
    | avatar =>
      obtain rfl := Option.some.inj hp
      exact fun ha => absurd (ha.symm.trans hw) (by decide)
    | user =>
      simp only [writes, if_true] at hp
      split_ifs at hp
      obtain rfl := Option.some.inj hp
      exact fun hl => hl.1 (h.str1_eq_empty hw)
    | comic =>
      simp only [writes, if_true] at hp
      split_ifs at hp
      obtain rfl := Option.some.inj hp
      exact fun hl => hl.2 (h.str2_eq_empty hw)

theorem Sound.reply_written {b : CommentBinding} (h : Sound store b) {source : CommentSource}
    (hw : b.request source = .waiting) (succeeds : Bool) (part : Part) :
    Written part (b.reply decode store source succeeds).1 ↔
      Written part b ∨ writes store b source succeeds = some part := by
  cases source with
  | document =>
    have hd : b.document = .waiting := hw
    obtain ⟨ha, -, -⟩ := h.idle (by rw [hd]; decide)
    cases succeeds <;> cases part <;>
      simp [CommentBinding.reply, CommentBinding.onError, CommentBinding.onDocument, Written,
        writes, hd, ha]
  | avatar =>
    have ha : b.avatar = .waiting := hw
    cases succeeds <;> cases part <;>
      simp [CommentBinding.reply, CommentBinding.onError, CommentBinding.onAvatar, Written,
        writes, ha]
  | user =>
    have hstr1 := h.str1_eq_empty hw
    cases succeeds <;> cases part <;>
      simp [CommentBinding.reply, CommentBinding.onError, CommentBinding.onUser,
        CommentBinding.setLabel, Written, writes, hstr1]
  | comic =>
    have hstr2 := h.str2_eq_empty hw
    cases succeeds <;> cases part <;>
      simp [CommentBinding.reply, CommentBinding.onError, CommentBinding.onComic,
        CommentBinding.setLabel, Written, writes, hstr2]

theorem Sound.reply_shown {b : CommentBinding} (h : Sound store b) (source : CommentSource)
    (succeeds : Bool) (cell : CommentTableViewCell) (part : Part) :
    shown ((b.reply decode store source succeeds).2 cell) part =
      if writes store b source succeeds = some part then own decode store b part
      else shown cell part := by
  obtain ⟨hstr1, hstr2⟩ := h.own_label
  cases succeeds with
  | false => rfl
  | true =>
    cases source with
    | document => cases part <;> rfl
    | avatar => cases part <;> rfl
    | user =>
      by_cases hl : store.fullName (store.comment b.comment).userID ≠ "" ∧ b.str2 ≠ ""
      · have hname := hstr2 hl.2
        rw [hname] at hl
        cases part <;>
          simp [CommentBinding.reply, CommentBinding.onUser, CommentBinding.setLabel, writes, hl,
            shown, own, hname]
      · simp [CommentBinding.reply, CommentBinding.onUser, CommentBinding.setLabel, writes, hl]
    | comic =>
      by_cases hl : b.str1 ≠ "" ∧ store.name (store.comment b.comment).comicID ≠ ""
      · have hname := hstr1 hl.1
        rw [hname] at hl
        cases part <;>
          simp [CommentBinding.reply, CommentBinding.onComic, CommentBinding.setLabel, writes, hl,
            shown, own, hname]
      · simp [CommentBinding.reply, CommentBinding.onComic, CommentBinding.setLabel, writes, hl]

namespace State

/-- Every run of `cellForRowAt` is sound and captured a cell, and every cell was bound. -/
structure Invariant (store : CommentStore) (s : State) : Prop where
  sound : ∀ b ∈ s.bindings, Sound store b
  captured : ∀ b ∈ s.bindings, b.cell < s.cells.length
  bound : ∀ c < s.cells.length, ∃ b ∈ s.bindings, b.cell = c

/-- Every part of a cell that arrived for the comment it was bound to last is shown. -/
def Settled (decode : Data → Option CGSize) (store : CommentStore) (s : State) : Prop :=
  ∀ part, Overwrite.Settled CommentBinding.cell (fun b => own decode store b part) (Written part)
    (fun cell => shown cell part) s.cells s.bindings

/-- A reply writes to a cell whose last comment has not got this part yet, or has the same. -/
def Fresh (decode : Data → Option CGSize) (store : CommentStore) (s : State) : Event → Prop
  | .reply i source succeeds => ∀ b ∈ s.bindings[i]?, ∀ part ∈ writes store b source succeeds,
      Harmless CommentBinding.cell (fun b => own decode store b part) (Written part) s.bindings b
  | _ => True

instance (s : State) : (e : Event) → Decidable (s.Fresh decode store e)
  | .reply _ _ _ => inferInstanceAs (Decidable (∀ b ∈ _, ∀ part ∈ _, Harmless _ _ _ _ b))
  | .listCommentComic _ | .listReviewWorld _ | .cellForRowAt _ _ _ => .isTrue trivial

theorem invariant_launch : launch.Invariant store where
  sound b hb := by cases hb
  captured b hb := by cases hb
  bound c hc := by cases hc

theorem Invariant.step {s s' : State} {e : Event} (h : s.Invariant store)
    (hs : CommentCells.step decode store s e = some s') : s'.Invariant store := by
  obtain ⟨hsound, hcaptured, hbound⟩ := h
  cases Transition.of_step decode store hs with
  | listCommentComic ids => exact ⟨hsound, hcaptured, hbound⟩
  | listReviewWorld ids => exact ⟨hsound, hcaptured, hbound⟩
  | reuse table row cell comment hlt =>
    refine ⟨forall_mem_concat hsound (sound_new store cell comment),
      forall_mem_concat hcaptured hlt, ?_⟩
    · intro c hc
      obtain ⟨b, hb, hbc⟩ := hbound c hc
      exact ⟨b, List.mem_append_left _ hb, hbc⟩
  | create table row comment =>
    refine ⟨forall_mem_concat hsound (sound_new store _ comment), ?_, ?_⟩
    · simp only [State.bind, List.length_append, List.length_singleton]
      refine forall_mem_concat (fun b hb => ?_) (Nat.lt_succ_self _)
      exact Nat.lt_succ_of_lt (hcaptured b hb)
    · intro c hc
      simp only [State.bind, List.length_append, List.length_singleton] at hc
      rcases Nat.lt_or_ge c s.cells.length with hlt | hge
      · obtain ⟨b, hb, hbc⟩ := hbound c hlt
        exact ⟨b, List.mem_append_left _ hb, hbc⟩
      · exact ⟨_, List.mem_append_right _ (List.mem_singleton_self _),
          show s.cells.length = c by omega⟩
  | reply i source succeeds b hi hw =>
    have hb := hsound b (List.mem_of_getElem? hi)
    refine ⟨forall_mem_set hsound i (hb.reply hw succeeds), ?_, ?_⟩
    · simp only [State.onReply, List.length_modify]
      refine forall_mem_set hcaptured i ?_
      rw [reply_cell]
      exact hcaptured b (List.mem_of_getElem? hi)
    · intro c hc
      simp only [State.onReply, List.length_modify] at hc
      obtain ⟨b', hb', rfl⟩ := hbound c hc
      obtain ⟨j, hj⟩ := List.mem_iff_getElem?.mp hb'
      by_cases hij : i = j
      · subst hij
        obtain rfl := Option.some.inj (hi.symm.trans hj)
        exact ⟨_, List.mem_set (List.getElem?_eq_some_iff.mp hi).1 _, reply_cell b source succeeds⟩
      · exact ⟨b', List.mem_of_getElem? (by rw [State.onReply, List.getElem?_set_ne hij, hj]), rfl⟩

/-- A step leaves the cells settled exactly where it is fresh. -/
theorem settled_step_iff {s s' : State} {e : Event} (h : s.Invariant store)
    (hsettled : s.Settled decode store) (hs : CommentCells.step decode store s e = some s') :
    s'.Settled decode store ↔ s.Fresh decode store e := by
  cases Transition.of_step decode store hs with
  | listCommentComic ids => exact iff_of_true hsettled trivial
  | listReviewWorld ids => exact iff_of_true hsettled trivial
  | reuse table row cell comment hlt =>
    refine iff_of_true (fun part => (hsettled part).concat ?_) trivial
    cases part <;> simp [Written, CommentBinding.new]
  | create table row comment =>
    refine iff_of_true (fun part => ((hsettled part).grow _).concat ?_) trivial
    cases part <;> simp [Written, CommentBinding.new]
  | reply i source succeeds b hi hw =>
    have hb := h.sound b (List.mem_of_getElem? hi)
    obtain ⟨cell, hcell⟩ : ∃ cell, s.cells[b.cell]? = some cell :=
      ⟨_, List.getElem?_eq_getElem (h.captured b (List.mem_of_getElem? hi))⟩
    have hplace := @reply_cell decode store b source succeeds
    have hcomment := @reply_comment decode store b source succeeds
    -- a reply touches no other cell, and in its own cell only the part that it writes
    have hother : ∀ (part : Part) (p : ℕ), p ≠ b.cell →
        ((s.onReply decode store i b source succeeds).cells[p]?).map (shown · part) =
          (s.cells[p]?).map (shown · part) := by
      intro part p hp
      simp [State.onReply, Ne.symm hp]
    have hown : ∀ part : Part, ((s.onReply decode store i b source succeeds).cells[b.cell]?).map
        (shown · part) = some (if writes store b source succeeds = some part then
          own decode store b part else shown cell part) := by
      intro part
      simp [State.onReply, hcell, hb.reply_shown]
    have hwrite : ∀ part, writes store b source succeeds = some part →
        (Overwrite.Settled CommentBinding.cell (fun b => own decode store b part) (Written part)
          (shown · part) (s.onReply decode store i b source succeeds).cells
          (s.onReply decode store i b source succeeds).bindings ↔
        Harmless CommentBinding.cell (fun b => own decode store b part) (Written part)
          s.bindings b) := by
      intro part hpart
      refine settled_write_iff (hsettled part) hi hplace (own_congr hcomment part)
        (hb.not_written hw hpart) ((hb.reply_written hw succeeds part).mpr (.inr hpart)) ?_
        (hother part)
      rw [hown, if_pos hpart]
    constructor
    · intro hs' b' hb' part hpart
      obtain rfl := Option.some.inj (hi.symm.trans hb')
      exact (hwrite part hpart).mp (hs' part)
    · intro hfresh part
      by_cases hpart : writes store b source succeeds = some part
      · exact (hwrite part hpart).mpr (hfresh b hi part hpart)
      · refine (hsettled part).keep hi hplace (own_congr hcomment part) (fun hwr => ?_) fun p => ?_
        · exact ((hb.reply_written hw succeeds part).mp hwr).resolve_right hpart
        · by_cases hp : p = b.cell
          · rw [hp, hown, if_neg hpart, hcell, Option.map_some]
          · exact hother part p hp

theorem settled_launch : launch.Settled decode store := by
  intro part i b hb
  exact absurd hb.1 (by simp [launch])

theorem fresh_step (s : State) (e : Event) (s' : State)
    (h : s.Invariant store ∧ s.Settled decode store) (hfresh : s.Fresh decode store e)
    (hs : CommentCells.step decode store s e = some s') :
    s'.Invariant store ∧ s'.Settled decode store :=
  ⟨h.1.step hs, (settled_step_iff h.1 h.2 hs).mpr hfresh⟩

end State

/-- The cells stay settled exactly in the runs whose replies are all fresh. -/
theorem settled_iff (es : List Event) (s : State)
    (hrun : run (step decode store) launch es = some s) :
    Throughout (step decode store) (State.Settled decode store) launch es ↔
      Along (step decode store) (State.Fresh decode store) launch es :=
  throughout_iff_along_of_step_iff (step decode store) (fun _ _ _ => State.Invariant.step)
    (fun _ _ _ => State.settled_step_iff) State.invariant_launch State.settled_launch hrun

def Event.Succeeds : Event → Prop
  | .reply _ _ succeeds => succeeds = true
  | _ => True

instance : (e : Event) → Decidable e.Succeeds
  | .reply _ _ succeeds => inferInstanceAs (Decidable (succeeds = true))
  | .listCommentComic _ | .listReviewWorld _ | .cellForRowAt _ _ _ => .isTrue trivial

def State.Idle (s : State) : Prop := ∀ b ∈ s.bindings, ∀ source, b.request source ≠ .waiting

instance (s : State) : Decidable s.Idle :=
  decidable_of_iff (∀ b ∈ s.bindings, b.document ≠ .waiting ∧ b.avatar ≠ .waiting ∧
    b.user ≠ .waiting ∧ b.comic ≠ .waiting)
    (forall₂_congr fun b _ => ⟨fun ⟨hd, ha, hu, hc⟩ source => by cases source <;> assumption,
      fun h => ⟨h .document, h .avatar, h .user, h .comic⟩⟩)

def State.Unfailed (s : State) : Prop := ∀ b ∈ s.bindings, ∀ source, b.request source ≠ .failed

structure Shows (decode : Data → Option CGSize) (store : CommentStore) (cell : CommentTableViewCell)
    (comment : String) : Prop where
  content : cell.lblContent = (store.comment comment).content
  avatar : cell.imgAvatarUser =
    UIImage.ofData decode (store.file ("User/" ++ (store.comment comment).userID ++ ".jpg"))
  label : cell.lblUserAndComic = some (setLblTwoColor
    (store.fullName (store.comment comment).userID) (store.name (store.comment comment).comicID))

/-- The document brings the three other requests with it. -/
theorem request_reply (b : CommentBinding) (source source' : CommentSource) :
    (b.reply decode store source true).1.request source' =
      if source' = source then .arrived
      else if source = .document then .waiting else b.request source' := by
  cases source <;> cases source' <;> rfl

theorem unfailed_step {s s' : State} {e : Event} (h : s.Unfailed) (he : e.Succeeds)
    (hs : step decode store s e = some s') : s'.Unfailed := by
  have hbind : ∀ (cell : ℕ) (comment : String), ∀ b ∈ s.bindings ++ [.new cell comment],
      ∀ source, b.request source ≠ .failed := by
    intro cell comment
    refine forall_mem_concat h fun source => ?_
    cases source <;> simp [CommentBinding.request, CommentBinding.new]
  cases Transition.of_step decode store hs with
  | listCommentComic ids => exact h
  | listReviewWorld ids => exact h
  | reuse table row cell comment hlt => exact hbind cell comment
  | create table row comment => exact hbind _ comment
  | reply i source succeeds b hi hw =>
    obtain rfl : succeeds = true := he
    refine forall_mem_set h i fun source' => ?_
    rw [request_reply]
    split_ifs
    · decide
    · decide
    · exact h b (List.mem_of_getElem? hi) source'

/-- A run of `cellForRowAt` whose requests are over has written every part. -/
theorem Sound.written {b : CommentBinding} (h : Sound store b)
    (hover : ∀ source, b.request source ≠ .waiting ∧ b.request source ≠ .failed)
    (hnames : store.fullName (store.comment b.comment).userID ≠ "" ∧
      store.name (store.comment b.comment).comicID ≠ "") (part : Part) : Written part b := by
  have harrived : ∀ source, b.request source ≠ .idle → b.request source = .arrived := by
    intro source hne
    obtain ⟨hw, hf⟩ := hover source
    cases hr : b.request source with
    | idle => exact absurd hr hne
    | waiting => exact absurd hr hw
    | arrived => rfl
    | failed => exact absurd hr hf
  have hdocument : b.document = .arrived := harrived .document h.started
  obtain ⟨ha, hu, hc⟩ := h.asked hdocument
  cases part with
  | content => exact hdocument
  | avatar => exact harrived .avatar ha
  | label =>
    have huser : b.user = .arrived := harrived .user hu
    have hcomic : b.comic = .arrived := harrived .comic hc
    have hstr1 := h.str1_eq
    have hstr2 := h.str2_eq
    rw [if_pos huser] at hstr1
    rw [if_pos hcomic] at hstr2
    exact ⟨hstr1 ▸ hnames.1, hstr2 ▸ hnames.2⟩

/-- While replies write to a cell only as long as its last comment has not got the same part, a cell
shows the comment that it was bound to last once no request is in flight. -/
theorem cells_show_own (hnames : ∀ comment, store.fullName (store.comment comment).userID ≠ "" ∧
      store.name (store.comment comment).comicID ≠ "") (es : List Event) (s : State)
    (hsucceeds : ∀ e ∈ es, e.Succeeds)
    (hfresh : Along (step decode store) (State.Fresh decode store) launch es)
    (hrun : run (step decode store) launch es = some s) (hidle : s.Idle) (c : ℕ)
    (cell : CommentTableViewCell) (hc : s.cells[c]? = some cell) :
    ∃ i b, IsLast CommentBinding.cell s.bindings i b ∧ b.cell = c ∧
      Shows decode store cell b.comment := by
  obtain ⟨hI, hS⟩ := run_invariant (step decode store)
    ⟨State.invariant_launch, State.settled_launch⟩ State.fresh_step hfresh hrun
  have hunfailed : s.Unfailed :=
    run_invariant (step decode store) (I := State.Unfailed) (fun b hb => by cases hb)
      (fun s e s' h he hs => unfailed_step h he hs) (along_of_forall_mem (step decode store) hsucceeds)
      hrun
  obtain ⟨b₀, hb₀, hcell₀⟩ := hI.bound c (List.getElem?_eq_some_iff.mp hc).1
  obtain ⟨i, b, hlast, hplace⟩ := @exists_isLast _ CommentBinding.cell _ _ hb₀
  have hmem := List.mem_of_getElem? hlast.1
  have hshown : ∀ part, shown cell part = own decode store b part := by
    intro part
    have hwritten := (hI.sound b hmem).written (fun source =>
      ⟨hidle b hmem source, hunfailed b hmem source⟩) (hnames b.comment) part
    have hget := hS part i b hlast hwritten
    rw [hplace, hcell₀, hc] at hget
    exact Option.some.inj hget
  exact ⟨i, b, hlast, hplace.trans hcell₀, hshown .content, hshown .avatar, hshown .label⟩

def twoComments : CommentStore where
  comment id := ⟨some id, "an", "one piece"⟩
  file _ := [1]
  fullName _ := "An"
  name _ := "One Piece"

theorem named_twoComments (comment : String) :
    twoComments.fullName (twoComments.comment comment).userID ≠ "" ∧
      twoComments.name (twoComments.comment comment).comicID ≠ "" :=
  ⟨show "An" ≠ "" by decide, show "One Piece" ≠ "" by decide⟩

def replies (i : ℕ) : List Event :=
  [.reply i .document true, .reply i .comic true, .reply i .avatar true, .reply i .user true]

def scrolled : List Event :=
  [.listReviewWorld ["first", "second"], .cellForRowAt .review 0 0] ++ replies 0 ++
    [.cellForRowAt .review 1 0] ++ replies 1

def scrolledAhead : List Event :=
  [.listReviewWorld ["first", "second"], .cellForRowAt .review 0 0, .cellForRowAt .review 1 0] ++
    replies 1 ++ replies 0

def stepTwo : State → Event → Option State := step (fun _ => some PageLoad.square) twoComments

def afterScrolled : State := (run stepTwo launch scrolled).get (by decide +kernel)

def afterScrolledAhead : State := (run stepTwo launch scrolledAhead).get (by decide +kernel)

def lastCell (s : State) : CommentTableViewCell := s.cells[0]?.getD (.new .review)

theorem cells_show_own_scrolled : ∃ i b, IsLast CommentBinding.cell afterScrolled.bindings i b ∧
    b.cell = 0 ∧ Shows (fun _ => some PageLoad.square) twoComments (lastCell afterScrolled)
      b.comment :=
  cells_show_own named_twoComments scrolled afterScrolled (by decide +kernel)
    (show Along stepTwo _ launch scrolled by decide +kernel) (Option.some_get _).symm
    (by decide +kernel) 0 (lastCell afterScrolled) (by decide +kernel)

theorem not_cells_show_own :
    ¬ ∀ (decode : Data → Option CGSize) (store : CommentStore) (es : List Event) (s : State),
      (∀ comment, store.fullName (store.comment comment).userID ≠ "" ∧
        store.name (store.comment comment).comicID ≠ "") → (∀ e ∈ es, e.Succeeds) →
      run (step decode store) launch es = some s → s.Idle →
      ∀ (c : ℕ) (cell : CommentTableViewCell), s.cells[c]? = some cell →
        ∃ i b, IsLast CommentBinding.cell s.bindings i b ∧ b.cell = c ∧
          Shows decode store cell b.comment := by
  intro h
  obtain ⟨i, b, hlast, hcell, hshows⟩ := h (fun _ => some PageLoad.square) twoComments scrolledAhead
    afterScrolledAhead named_twoComments (by decide +kernel)
    (Option.some_get _).symm (by decide +kernel) 0 (lastCell afterScrolledAhead) (by decide +kernel)
  have hfirst : IsLast CommentBinding.cell afterScrolledAhead.bindings 1
      ⟨0, "first", .arrived, .arrived, .arrived, .arrived, "An", "One Piece"⟩ := by decide +kernel
  obtain ⟨-, rfl⟩ := hlast.unique hfirst hcell
  exact absurd hshows.content (by decide +kernel)

end CommentCells
end ComicApp
