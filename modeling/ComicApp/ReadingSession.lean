import ComicApp.EventMachine
import ComicApp.Objects

/-!
# Sessions of reading

The state of the running app as far as reading touches it: the `Comic` globals, the store, the
`listAll` request of every `upLoad`, the screens of the tab in front from the visible one down to the
first info page, and the screens of the other tabs. A tap on a comic, or a reply that the list of
reviews waited for, sets `Comic.id`; the info page loads at a later moment. `loads` lists the indices
given to `loadChapterFromRealm`, and `counts` the chapter counts that were written to `Comic.nchap`
with the comic each was obtained for, the newest first.
-/

namespace ComicApp

/-- `ChapterViewController.Init`: whether `prevButton` and `nextButton` are enabled. -/
def ChapterViewController.Init (chap nchap : ℤ) : Bool × Bool :=
  (!(chap ≤ 0), !(chap ≥ nchap - 1))

def ShowChapViewController.Init (nchap : ℤ) : List ℤ :=
  if nchap < 1 then []
  else (List.range nchap.toNat).map fun i => nchap - (i + 1) + 1

namespace ReadingSession
open EventMachine

inductive Screen where
  | info
  | showChap (chap : List ℤ)
  | chapter (prevIsEnabled nextIsEnabled : Bool)
  deriving DecidableEq, Repr

/-- The `listAll` request of one `upLoad` and the number of folders it brought. -/
structure Listing where
  comicID : String
  request : Request
  prefixes : ℕ
  deriving DecidableEq, Repr

structure State where
  id : Option String
  isDownloaded : Bool
  chap : Option ℤ
  nchap : Option ℤ
  realm : Realm
  listings : List Listing
  screens : List Screen
  tabs : List (List Screen)
  loads : List ℤ
  counts : List (String × ℤ)
  running : Bool

inductive Event where
  | select (id : Option String)
  | viewDidLoad
  | tab (k : ℕ)
  | listAll (u : ℕ) (reply : ListAllReply ℕ)
  | readChap
  | showChap
  | didSelectRow (row : ℕ)
  | prevChap
  | nextChap
  | back
  deriving DecidableEq, Repr

def launch (realm : Realm) : State where
  id := none
  isDownloaded := false
  chap := none
  nchap := none
  realm := realm
  listings := []
  screens := []
  tabs := [[], [], []]
  loads := []
  counts := []
  running := true

namespace State

def trap (s : State) : State := { s with running := false }

def loadComicFromRealm (s : State) : State :=
  match s.id.bind s.realm.first with
  | none => s
  | some comic => { s with
      isDownloaded := true
      nchap := some comic.comicNChap
      counts := (comic.comicID, comic.comicNChap) :: s.counts }

def upLoad (s : State) : State :=
  match s.id with
  | none => s.trap
  | some id => { s with listings := s.listings ++ [⟨id, .waiting, 0⟩] }

/-- `InfoViewController.viewDidLoad` for the page of the comic that `Comic.id` names by now. -/
def onViewDidLoad (s : State) : State :=
  let s := { s with isDownloaded := false }.loadComicFromRealm.upLoad
  { s with screens := .info :: s.screens }

/-- The reply to the `listAll` of `upLoad`; without folders its loop writes nothing. The folders
before an error are fewer than the comic has, and no count that was obtained for it. -/
def onListAll (s : State) (u : ℕ) (listing : Listing) (reply : ListAllReply ℕ) : State :=
  let s := { s with
    listings := s.listings.set u { listing with
      request := reply.request, prefixes := reply.listed } }
  if reply.listed = 0 then s
  else { s with
    nchap := some reply.listed
    counts := match reply with
      | .success prefixes => (listing.comicID, (prefixes : ℤ)) :: s.counts
      | .error _ => s.counts }

def onTab (s : State) (k : ℕ) (screens : List Screen) : State :=
  { s with screens := screens, tabs := s.tabs.set k s.screens }

def chapterViewDidLoad (s : State) (under : List Screen) : State :=
  match s.chap, s.nchap with
  | some chap, some nchap =>
    let enabled := ChapterViewController.Init chap nchap
    let s := { s with screens := .chapter enabled.1 enabled.2 :: under }
    if s.isDownloaded then
      let s := { s with loads := s.loads ++ [chap] }
      match ChapterViewController.loadChapterFromRealm s.realm s.id chap with
      | none => s.trap
      | some _ => s
    else s
  | _, _ => s.trap

def onReadChap (s : State) : State := { s with chap := some 0 }.chapterViewDidLoad s.screens

def onShowChap (s : State) : State :=
  match s.nchap with
  | none => s.trap
  | some nchap => { s with screens := .showChap (ShowChapViewController.Init nchap) :: s.screens }

def onSelectRow (s : State) (row : ℕ) : State :=
  match s.nchap with
  | none => s.trap
  | some nchap => { s with chap := some (nchap - row - 1) }.chapterViewDidLoad s.screens

def onTurn (s : State) (d : ℤ) (under : List Screen) : State :=
  match s.chap with
  | none => s.trap
  | some chap => { s with chap := some (chap + d) }.chapterViewDidLoad under

end State

def step (s : State) (e : Event) : Option State :=
  if s.running then
    match e with
    | .select id => some { s with id := id }
    | .viewDidLoad => some s.onViewDidLoad
    | .tab k => (s.tabs[k]?).map (s.onTab k)
    | .listAll u reply =>
      match s.listings[u]? with
      | none => none
      | some listing =>
        if listing.request = .waiting then some (s.onListAll u listing reply) else none
    | .readChap =>
      match s.screens with
      | .info :: _ => some s.onReadChap
      | _ => none
    | .showChap =>
      match s.screens with
      | .info :: _ => some s.onShowChap
      | _ => none
    | .didSelectRow row =>
      match s.screens with
      | .showChap chap :: _ => if row < chap.length then some (s.onSelectRow row) else none
      | _ => none
    | .prevChap =>
      match s.screens with
      | .chapter true _ :: under => some (s.onTurn (-1) under)
      | _ => none
    | .nextChap =>
      match s.screens with
      | .chapter _ true :: under => some (s.onTurn 1 under)
      | _ => none
    | .back =>
      match s.screens with
      | [] => none
      | _ :: under => some { s with screens := under }
  else none

/-- The page of a comic with a record takes its count from there. -/
theorem onViewDidLoad_of_first {s : State} {id : String} {comic : LComic} (hid : s.id = some id)
    (hf : s.realm.first id = some comic) : s.onViewDidLoad =
      { s with
        isDownloaded := true
        nchap := some comic.comicNChap
        counts := (id, comic.comicNChap) :: s.counts
        listings := s.listings ++ [⟨id, .waiting, 0⟩]
        screens := .info :: s.screens } := by
  have hid' := (Realm.first_eq_some hf).2
  simp [State.onViewDidLoad, State.loadComicFromRealm, State.upLoad, hid, hf, hid']

/-- The page of any other comic leaves `Comic.nchap` as it was. -/
theorem onViewDidLoad_of_none {s : State} {id : String} (hid : s.id = some id)
    (hf : s.realm.first id = none) : s.onViewDidLoad =
      { s with
        isDownloaded := false
        listings := s.listings ++ [⟨id, .waiting, 0⟩]
        screens := .info :: s.screens } := by
  simp [State.onViewDidLoad, State.loadComicFromRealm, State.upLoad, hid, hf]

/-- A listing that brings no folder is only noted. -/
theorem onListAll_of_zero {s : State} {u : ℕ} {listing : Listing} {reply : ListAllReply ℕ}
    (hzero : reply.listed = 0) : s.onListAll u listing reply =
      { s with listings := s.listings.set u { listing with
          request := reply.request, prefixes := reply.listed } } := by
  unfold State.onListAll
  exact if_pos hzero

theorem onListAll_of_success {s : State} {u : ℕ} {listing : Listing} {prefixes : ℕ}
    (hne : prefixes ≠ 0) : s.onListAll u listing (.success prefixes) =
      { s with
        listings := s.listings.set u { listing with request := .arrived, prefixes := prefixes }
        nchap := some prefixes
        counts := (listing.comicID, (prefixes : ℤ)) :: s.counts } := by
  unfold State.onListAll
  exact if_neg hne

inductive Transition (s : State) : Event → State → Prop where
  | select (id : Option String) : Transition s (.select id) { s with id := id }
  | viewDidLoad : Transition s .viewDidLoad s.onViewDidLoad
  | tab (k : ℕ) (screens : List Screen) (hk : s.tabs[k]? = some screens) :
      Transition s (.tab k) (s.onTab k screens)
  | listAll (u : ℕ) (reply : ListAllReply ℕ) (listing : Listing) (hu : s.listings[u]? = some listing)
      (hw : listing.request = .waiting) :
      Transition s (.listAll u reply) (s.onListAll u listing reply)
  | readChap (under : List Screen) (hs : s.screens = .info :: under) :
      Transition s .readChap s.onReadChap
  | showChap (under : List Screen) (hs : s.screens = .info :: under) :
      Transition s .showChap s.onShowChap
  | didSelectRow (row : ℕ) (chap : List ℤ) (under : List Screen)
      (hs : s.screens = .showChap chap :: under) (hrow : row < chap.length) :
      Transition s (.didSelectRow row) (s.onSelectRow row)
  | prevChap (nextIsEnabled : Bool) (under : List Screen)
      (hs : s.screens = .chapter true nextIsEnabled :: under) :
      Transition s .prevChap (s.onTurn (-1) under)
  | nextChap (prevIsEnabled : Bool) (under : List Screen)
      (hs : s.screens = .chapter prevIsEnabled true :: under) :
      Transition s .nextChap (s.onTurn 1 under)
  | back (top : Screen) (under : List Screen) (hs : s.screens = top :: under) :
      Transition s .back { s with screens := under }

theorem Transition.of_step {s s' : State} {e : Event} (h : step s e = some s') :
    Transition s e s' := by
  unfold step at h
  split_ifs at h
  cases e with
  | select id =>
    obtain rfl := Option.some.inj h
    exact .select id
  | viewDidLoad =>
    obtain rfl := Option.some.inj h
    exact .viewDidLoad
  | tab k =>
    obtain ⟨screens, hk, rfl⟩ := Option.map_eq_some_iff.mp h
    exact .tab k screens hk
  | listAll u reply =>
    dsimp only at h
    split at h
    · cases h
    · rename_i listing hu
      split_ifs at h with hw
      obtain rfl := Option.some.inj h
      exact .listAll u reply listing hu hw
  | readChap =>
    dsimp only at h
    split at h
    · rename_i under hs
      obtain rfl := Option.some.inj h
      exact .readChap under hs
    · cases h
  | showChap =>
    dsimp only at h
    split at h
    · rename_i under hs
      obtain rfl := Option.some.inj h
      exact .showChap under hs
    · cases h
  | didSelectRow row =>
    dsimp only at h
    split at h
    · rename_i chap under hs
      split_ifs at h with hrow
      obtain rfl := Option.some.inj h
      exact .didSelectRow row chap under hs hrow
    · cases h
  | prevChap =>
    dsimp only at h
    split at h
    · rename_i nextIsEnabled under hs
      obtain rfl := Option.some.inj h
      exact .prevChap nextIsEnabled under hs
    · cases h
  | nextChap =>
    dsimp only at h
    split at h
    · rename_i prevIsEnabled under hs
      obtain rfl := Option.some.inj h
      exact .nextChap prevIsEnabled under hs
    · cases h
  | back =>
    dsimp only at h
    split at h
    · cases h
    · rename_i top under hs
      obtain rfl := Option.some.inj h
      exact .back top under hs

end ReadingSession
end ComicApp
