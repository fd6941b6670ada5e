import ComicApp.Objects

/-!
# One call of `Shelf.DownloadCommic`

A `Call` holds what the closures of one call capture: the `DComic` they share, the running
`tmpTotalSize`, the slots of `arrayCalcPercent`, and what became of each request. The loop over
`0..<totalChap` gives one `Chapter` for each index. A chapter's pages are a batch: its `got` is the
captured `list`, its `left` the captured counter `tmp`, which starts at `result.items.count` and is
lowered for each page that arrives.
-/

namespace ComicApp

/-- A page task: the storage item and its slot in `arrayCalcPercent`. -/
structure PageTask where
  item : String
  indexArr : ℕ
  deriving DecidableEq, Repr

structure Chapter where
  path : String
  listing : Request
  pages : Batch PageTask Data

structure Call where
  comicID : String
  comic : DComic
  tmpTotalSize : ℤ
  arrayCalcPercent : List ℤ
  filePath : Option String
  document : Request
  poster : Request
  chapters : List Chapter

namespace Shelf

def DownloadCommic (comicID : String) : Call where
  comicID := comicID
  comic := { idComic := some comicID, totalSize := some 1, Dsize := some 0 }
  tmpTotalSize := 0
  arrayCalcPercent := []
  filePath := none
  document := .waiting
  poster := .idle
  chapters := []

def path (index : ℕ) : String :=
  if index < 9 then s!"/00{index + 1}"
  else if index < 99 then s!"/0{index + 1}"
  else s!"/{index + 1}"

end Shelf

namespace Chapter

def fresh (path : String) : Chapter := ⟨path, .waiting, .empty⟩

def InFlight (chapter : Chapter) : Prop := chapter.listing = .waiting ∨ chapter.pages.InFlight

instance (chapter : Chapter) : Decidable chapter.InFlight :=
  inferInstanceAs (Decidable (_ ∨ _))

/-- The pages of a folder, `for item in result.items`: each gets the next free slot. -/
def tasks : List ℤ → List String → List PageTask
  | _, [] => []
  | arrayCalcPercent, item :: items =>
    ⟨item, arrayCalcPercent.length⟩ :: tasks (arrayCalcPercent ++ [0]) items

def stored (chapter : Chapter) : LChap := ⟨chapter.pages.got⟩

def Complete (chapter : Chapter) : Prop := chapter.pages.Complete

instance (chapter : Chapter) : Decidable chapter.Complete :=
  inferInstanceAs (Decidable chapter.pages.Complete)

@[simp] theorem tasks_items (arrayCalcPercent : List ℤ) (items : List String) :
    (tasks arrayCalcPercent items).map PageTask.item = items := by
  induction items generalizing arrayCalcPercent with
  | nil => rfl
  | cons item items ih => rw [tasks, List.map_cons, ih]

end Chapter

namespace Call

def InFlight (call : Call) : Prop :=
  call.document = .waiting ∨ call.poster = .waiting ∨ ∃ chapter ∈ call.chapters, chapter.InFlight

instance (call : Call) : Decidable call.InFlight := inferInstanceAs (Decidable (_ ∨ _))

def completed (call : Call) : ℕ := call.chapters.countP fun chapter => chapter.Complete

/-- The reply to `ref.getDocument`. `none` is the trap on `posterPath!`. -/
def onDocument (call : Call) : DocumentReply → Option Call
  | .error => some { call with document := .failed }
  | .missing => some { call with document := .arrived }
  | .found data =>
    match data.posterPath with
    | none => none
    | some _ => some { call with
        document := .arrived
        poster := .waiting
        filePath := data.filePath
        comic := { call.comic with
          name := data.name, totalChap := data.totalChap, totalSize := data.size } }

def posterFailed (call : Call) : Call := { call with poster := .failed }

def posterArrived (call : Call) (data : Data) : Call :=
  { call with poster := .arrived, comic := { call.comic with poster := some data } }

def record (call : Call) : LComic where
  comicID := call.comic.idComic.getD ""
  comicName := call.comic.name.getD ""
  comicNChap := call.comic.totalChap.getD 0
  comicPoster := call.comic.poster.getD []

/-- The loop over `0..<comic.totalChap!`, which asks for the listing of every chapter folder.
`none` is a trap: no `totalChap`, a range that ends below zero, or no `filePath`. -/
def forChapters (call : Call) : Option Call :=
  match call.comic.totalChap with
  | none => none
  | some (.negSucc _) => none
  | some (.ofNat 0) => some call
  | some (.ofNat (n + 1)) =>
    match call.filePath with
    | none => none
    | some filePath => some { call with
        chapters := (List.range (n + 1)).map fun index => .fresh (filePath ++ Shelf.path index) }

def setChapter (call : Call) (i : ℕ) (chapter : Chapter) : Call :=
  { call with chapters := call.chapters.set i chapter }

/-- The reply to `storageRef.listAll` of chapter `i`. The callback with an error returns at once, the
one without asks for every item it lists. -/
def onListAll (call : Call) (i : ℕ) (chapter : Chapter) (reply : ListAllReply (List String)) :
    Call :=
  { call.setChapter i { chapter with
      listing := reply.request
      pages := .start (Chapter.tasks call.arrayCalcPercent reply.listed) } with
    arrayCalcPercent := call.arrayCalcPercent ++ List.replicate reply.listed.length 0 }

/-- The success branch of a page's `getData`, up to the test of `tmp`. -/
def pageArrived (call : Call) (i : ℕ) (chapter : Chapter) (j : ℕ) (data1 : Data)
    (h : chapter.pages.Waiting j) : Call :=
  { call.setChapter i { chapter with pages := chapter.pages.receive j data1 h } with
    tmpTotalSize := call.tmpTotalSize + data1.length }

def pageFailed (call : Call) (i : ℕ) (chapter : Chapter) (j : ℕ) (h : chapter.pages.Waiting j) :
    Call :=
  call.setChapter i { chapter with pages := chapter.pages.fail j h }

/-- A progress event of a page task: its slot is written and `Dsize` is summed up again. -/
def onProgress (call : Call) (indexArr : ℕ) (completedUnitCount : ℤ) : Call :=
  let arrayCalcPercent := call.arrayCalcPercent.set indexArr completedUnitCount
  { call with
    arrayCalcPercent := arrayCalcPercent
    comic := { call.comic with Dsize := some arrayCalcPercent.sum } }

def finished (call : Call) : Call := { call with comic := { call.comic with finish := true } }

end Call
end ComicApp
