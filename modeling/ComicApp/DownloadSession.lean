import ComicApp.DownloadCommic
import ComicApp.EventMachine

/-!
# Sessions of downloads

The state of the running app as far as downloads touch it: the `Comic` globals, the info pages on
screen, `Shelf.listDownload`, the Realm store, and one `Call` for each `DownloadCommic` call of this
session. An event is a user action, the delivery of one reply, a progress event, or the end of the
process followed by its next start. Replies carry what the environment answers, so every outcome and
every order is a run. A forced unwrap of `nil` or an invalid range stops the process; only the store
outlives it.
-/

namespace ComicApp.DownloadSession
open EventMachine

/-- An element of `Shelf.listDownload`: the object shared with the closures of a call, or one that
`ComicRealmToRam` built from the store. -/
inductive Entry where
  | call (c : ℕ)
  | stored (comic : DComic)
  deriving DecidableEq, Repr

structure InfoPage where
  btnDownloadIsHidden : Bool
  deriving DecidableEq, Repr

/-- `sizeUpdates` lists every `updateData(["size": …])` with its comic, the first one first. -/
structure State where
  id : Option String
  isDownloaded : Bool
  isDowloading : ℤ
  infoPages : List InfoPage
  listDownload : List Entry
  realm : Realm
  calls : List Call
  sizeUpdates : List (String × ℤ)
  running : Bool

inductive Event where
  | select (id : Option String)
  | viewDidLoad
  | leave (p : ℕ)
  | download (p : ℕ)
  | document (c : ℕ) (reply : DocumentReply)
  | poster (c : ℕ) (reply : Option Data)
  | listAll (c i : ℕ) (reply : ListAllReply (List String))
  | page (c i j : ℕ) (reply : Option Data)
  | progress (c i j : ℕ) (completedUnitCount : ℤ)
  | relaunch
  deriving DecidableEq, Repr

def ComicRealmToRam (realm : Realm) : List Entry :=
  realm.map fun comic => .stored {
    name := some comic.comicName
    idComic := some comic.comicID
    finish := true
    poster := some comic.comicPoster
    totalChap := some comic.comicNChap }

/-- A fresh process over the store that the last one left. -/
def launch (realm : Realm) : State where
  id := none
  isDownloaded := false
  isDowloading := 0
  infoPages := []
  listDownload := ComicRealmToRam realm
  realm := realm
  calls := []
  sizeUpdates := []
  running := true

namespace State

def trap (s : State) : State := { s with running := false }

def setCall (s : State) (c : ℕ) (call : Call) : State := { s with calls := s.calls.set c call }

def loadComicFromRealm (s : State) : Option LComic := s.id.bind s.realm.first

def onViewDidLoad (s : State) : State :=
  match s.id with
  | none => { s with isDownloaded := false }.trap
  | some _ =>
    match s.loadComicFromRealm with
    | some _ => { s with isDownloaded := true, infoPages := s.infoPages ++ [⟨true⟩] }
    | none => { s with isDownloaded := false, infoPages := s.infoPages ++ [⟨false⟩] }

/-- `InfoViewController.Download`, on a page whose button is visible. -/
def onDownload (s : State) (p : ℕ) : State :=
  let s := { s with
    infoPages := s.infoPages.set p ⟨true⟩
    isDowloading := s.isDowloading + 1 }
  match s.id with
  | none => s.trap
  | some id => { s with calls := s.calls ++ [Shelf.DownloadCommic id] }

def onPoster (s : State) (c : ℕ) (call : Call) (data : Data) : State :=
  let call := call.posterArrived data
  let s := { s.setCall c call with
    listDownload := s.listDownload ++ [Entry.call c]
    realm := s.realm ++ [call.record] }
  match call.forChapters with
  | none => s.trap
  | some call => s.setCall c call

/-- The body of `if tmp == 0`: the chapter is stored, and with the last chapter the size is written
back, the counter lowered and the comic marked finished. -/
def storeChapter (s : State) (c : ℕ) (call : Call) (chap : LChap) : State :=
  match s.realm.first call.comicID with
  | none => s
  | some comicl =>
    let s := { s with realm := s.realm.appendChap call.comicID chap }
    if call.comic.totalChap = some ((comicl.listChap.length : ℤ) + 1) then
      { s.setCall c call.finished with
        isDowloading := s.isDowloading - 1
        sizeUpdates := if call.comic.totalSize = some call.tmpTotalSize then s.sizeUpdates
          else s.sizeUpdates ++ [(call.comicID, call.tmpTotalSize)] }
    else s

def onPage (s : State) (c : ℕ) (call : Call) (i : ℕ) (chapter : Chapter) (j : ℕ) (data1 : Data)
    (h : chapter.pages.Waiting j) : State :=
  let call := call.pageArrived i chapter j data1 h
  let pages := chapter.pages.receive j data1 h
  let s := s.setCall c call
  if pages.left = 0 then s.storeChapter c call ⟨pages.got⟩ else s

end State

def step (s : State) (e : Event) : Option State :=
  match s.running, e with
  | _, .relaunch => some (launch s.realm)
  | false, _ => none
  | true, .select id => some { s with id := id }
  | true, .viewDidLoad => some s.onViewDidLoad
  | true, .leave p => some { s with infoPages := s.infoPages.eraseIdx p }
  | true, .download p =>
    if s.infoPages[p]? = some ⟨false⟩ then some (s.onDownload p) else none
  | true, .document c reply =>
    match s.calls[c]? with
    | none => none
    | some call =>
      if call.document = .waiting then
        match call.onDocument reply with
        | none => some s.trap
        | some call => some (s.setCall c call)
      else none
  | true, .poster c reply =>
    match s.calls[c]? with
    | none => none
    | some call =>
      if call.poster = .waiting then
        match reply with
        | none => some (s.setCall c call.posterFailed)
        | some data => some (s.onPoster c call data)
      else none
  | true, .listAll c i reply =>
    match s.calls[c]? with
    | none => none
    | some call =>
      match call.chapters[i]? with
      | none => none
      | some chapter =>
        if chapter.listing = .waiting then some (s.setCall c (call.onListAll i chapter reply))
        else none
  | true, .page c i j reply =>
    match s.calls[c]? with
    | none => none
    | some call =>
      match call.chapters[i]? with
      | none => none
      | some chapter =>
        if h : chapter.pages.Waiting j then
          match reply with
          | none => some (s.setCall c (call.pageFailed i chapter j h))
          | some data1 => some (s.onPage c call i chapter j data1 h)
        else none
  | true, .progress c i j completedUnitCount =>
    match s.calls[c]? with
    | none => none
    | some call =>
      match call.chapters[i]? with
      | none => none
      | some chapter =>
        match chapter.pages.slots[j]? with
        | none => none
        | some task => some (s.setCall c (call.onProgress task.key.indexArr completedUnitCount))

/-- What each event can do, with the guards under which it does it. -/
inductive Transition (s : State) : Event → State → Prop where
  | relaunch : Transition s .relaunch (launch s.realm)
  | select (id : Option String) (hr : s.running = true) : Transition s (.select id) { s with id := id }
  | viewDidLoad (hr : s.running = true) : Transition s .viewDidLoad s.onViewDidLoad
  | leave (p : ℕ) (hr : s.running = true) :
      Transition s (.leave p) { s with infoPages := s.infoPages.eraseIdx p }
  | download (p : ℕ) (hr : s.running = true) (hp : s.infoPages[p]? = some ⟨false⟩) :
      Transition s (.download p) (s.onDownload p)
  | documentTrap (c : ℕ) (reply : DocumentReply) (call : Call) (hr : s.running = true)
      (hc : s.calls[c]? = some call) (hw : call.document = .waiting)
      (ht : call.onDocument reply = none) : Transition s (.document c reply) s.trap
  | document (c : ℕ) (reply : DocumentReply) (call call' : Call) (hr : s.running = true)
      (hc : s.calls[c]? = some call) (hw : call.document = .waiting)
      (ho : call.onDocument reply = some call') :
      Transition s (.document c reply) (s.setCall c call')
  | posterFailed (c : ℕ) (call : Call) (hr : s.running = true) (hc : s.calls[c]? = some call)
      (hw : call.poster = .waiting) : Transition s (.poster c none) (s.setCall c call.posterFailed)
  | poster (c : ℕ) (data : Data) (call : Call) (hr : s.running = true)
      (hc : s.calls[c]? = some call) (hw : call.poster = .waiting) :
      Transition s (.poster c (some data)) (s.onPoster c call data)
  | listAll (c i : ℕ) (reply : ListAllReply (List String)) (call : Call) (chapter : Chapter)
      (hr : s.running = true) (hc : s.calls[c]? = some call) (hi : call.chapters[i]? = some chapter)
      (hw : chapter.listing = .waiting) :
      Transition s (.listAll c i reply) (s.setCall c (call.onListAll i chapter reply))
  | pageFailed (c i j : ℕ) (call : Call) (chapter : Chapter) (hr : s.running = true)
      (hc : s.calls[c]? = some call) (hi : call.chapters[i]? = some chapter)
      (hj : chapter.pages.Waiting j) :
      Transition s (.page c i j none) (s.setCall c (call.pageFailed i chapter j hj))
  | page (c i j : ℕ) (data1 : Data) (call : Call) (chapter : Chapter) (hr : s.running = true)
      (hc : s.calls[c]? = some call) (hi : call.chapters[i]? = some chapter)
      (hj : chapter.pages.Waiting j) :
      Transition s (.page c i j (some data1)) (s.onPage c call i chapter j data1 hj)
  | progress (c i j : ℕ) (n : ℤ) (call : Call) (chapter : Chapter) (task : Slot PageTask)
      (hr : s.running = true) (hc : s.calls[c]? = some call)
      (hi : call.chapters[i]? = some chapter) (hj : chapter.pages.slots[j]? = some task) :
      Transition s (.progress c i j n) (s.setCall c (call.onProgress task.key.indexArr n))

theorem Transition.of_step {s s' : State} {e : Event} (h : step s e = some s') :
    Transition s e s' := by
  cases hr : s.running with
  | false =>
    cases e with
    | relaunch =>
      obtain rfl := Option.some.inj (by simpa [step, hr] using h)
      exact .relaunch
    | _ => simp [step, hr] at h
  | true =>
    cases e with
    | relaunch =>
      obtain rfl := Option.some.inj (by simpa [step, hr] using h)
      exact .relaunch
    | select id =>
      have h' : some { s with id := id } = some s' := by rw [← h]; simp [step, hr]
      obtain rfl := Option.some.inj h'
      exact .select id hr
    | viewDidLoad =>
      simp only [step, hr, Option.some.injEq] at h
      subst h
      exact .viewDidLoad hr
    | leave p =>
      have h' : some { s with infoPages := s.infoPages.eraseIdx p } = some s' := by
        rw [← h]; simp [step, hr]
      obtain rfl := Option.some.inj h'
      exact .leave p hr
    | download p =>
      simp only [step, hr] at h
      split_ifs at h with hp
      obtain rfl := Option.some.inj h
      exact .download p hr hp
    | document c reply =>
      simp only [step, hr] at h
      split at h
      · cases h
      · rename_i call hc
        split_ifs at h with hw
        split at h
        · rename_i ht
          obtain rfl := Option.some.inj h
          exact .documentTrap c reply call hr hc hw ht
        · rename_i call' ho
          obtain rfl := Option.some.inj h
          exact .document c reply call call' hr hc hw ho
    | poster c reply =>
      simp only [step, hr] at h
      split at h
      · cases h
      · rename_i call hc
        split_ifs at h with hw
        cases reply with
        | none =>
          obtain rfl := Option.some.inj h
          exact .posterFailed c call hr hc hw
        | some data =>
          obtain rfl := Option.some.inj h
          exact .poster c data call hr hc hw
    | listAll c i reply =>
      simp only [step, hr] at h
      split at h
      · cases h
      · rename_i call hc
        split at h
        · cases h
        · rename_i chapter hi
          split_ifs at h with hw
          obtain rfl := Option.some.inj h
          exact .listAll c i reply call chapter hr hc hi hw
    | page c i j reply =>
      simp only [step, hr] at h
      split at h
      · cases h
      · rename_i call hc
        split at h
        · cases h
        · rename_i chapter hi
          split_ifs at h with hj
          cases reply with
          | none =>
            obtain rfl := Option.some.inj h
            exact .pageFailed c i j call chapter hr hc hi hj
          | some data1 =>
            obtain rfl := Option.some.inj h
            exact .page c i j data1 call chapter hr hc hi hj
    | progress c i j n =>
      simp only [step, hr] at h
      split at h
      · cases h
      · rename_i call hc
        split at h
        · cases h
        · rename_i chapter hi
          split at h
          · cases h
          · rename_i task hj
            obtain rfl := Option.some.inj h
            exact .progress c i j n call chapter task hr hc hi hj

end ComicApp.DownloadSession
