import ComicApp.AccountSteps
import ComicApp.ShelfRows

/-!
# The documents of the catalogue

What the app makes of any content of a document of the `Comic` collection. A document is a dictionary
whose values have types of their own; the callbacks cast them with `as?` and unwrap some of the
results at once, others in a later callback. The session is that of the shelf, where these documents
arrive as they are stored, with the requests of `Comment.downloadListCommentComic` beside it.
`faulted` is set when a callback of `InfoViewController.upLoad`, `Comment.downloadListCommentComic`,
`Shelf.DownloadCommic` or of a comic's look-up in `Shelf.DownloadList` stops the process.
-/

namespace ComicApp

/-- A value of a document. A number is an `integer` if it is one of the numbers of `Int`; an element
of an array is `none` if it is no string. -/
inductive Field where
  | string (s : String)
  | integer (n : ℤ)
  | array (elements : List (Option String))
  | other
  deriving DecidableEq, Repr

namespace Field

def asString : Field → Option String
  | .string s => some s
  | _ => none

/-- `as? Int` and `as? Int64`. -/
def asInt : Field → Option ℤ
  | .integer n => some n
  | _ => none

def asStrings : Field → Option (List String)
  | .array elements => elements.mapM id
  | _ => none

end Field

abbrev Fields := List (String × Field)

namespace Fields

def string (data : Fields) (key : String) : Option String := (data.lookup key).bind Field.asString

def int (data : Fields) (key : String) : Option ℤ := (data.lookup key).bind Field.asInt

def strings (data : Fields) (key : String) : Option (List String) :=
  (data.lookup key).bind Field.asStrings

def document (data : Fields) : Document where
  name := data.string "name"
  totalChap := data.int "totalChap"
  size := data.int "size"
  posterPath := data.string "posterPath"
  filePath := data.string "filePath"

def comicDocument (data : Fields) : AccountSession.ComicDocument where
  name := data.string "name"
  totalChap := data.int "totalChap"
  posterPath := data.string "posterPath"
  author := data.string "author"
  category := data.string "category"

def comment (data : Fields) : Option (List String) := data.strings "comment"

end Fields

inductive Snapshot where
  | error
  | missing
  | found (data : Fields)
  deriving DecidableEq, Repr

namespace Snapshot

def documentReply : Snapshot → DocumentReply
  | .error => .error
  | .missing => .missing
  | .found data => .found data.document

def reply : Snapshot → AccountSession.Reply
  | .error => .error
  | .missing => .comic none
  | .found data => .comic (some data.comicDocument)

end Snapshot

namespace DownloadSession

/-- A reply stops the process on a document without `posterPath`, or on a poster after which there is
nothing to fetch. -/
def Traps (s : State) : Event → Prop
  | .document _ (.found data) => data.posterPath = none
  | .poster c (some _) => ∃ call ∈ s.calls[c]?, ¬ call.Fetchable
  | _ => False

theorem Transition.running_eq_false_iff {s s' : State} {e : Event} (h : Transition s e s')
    (he : e.ofCall.isSome) : s'.running = false ↔ Traps s e := by
  cases h with
  | documentTrap c reply call hr hc hw ht =>
    obtain ⟨data, rfl, hposter⟩ := call.onDocument_eq_none_iff.mp ht
    exact iff_of_true rfl hposter
  | document c reply call call' hr hc hw ho =>
    refine iff_of_false (ne_false_of_eq_true hr) ?_
    cases Call.onDocument_outcome ho with
    | error => exact id
    | missing => exact id
    | found data hposter => exact hposter
  | posterFailed c call hr hc hw => exact iff_of_false (ne_false_of_eq_true hr) id
  | poster c data call hr hc hw =>
    have htraps : Traps s (.poster c (some data)) ↔ (call.posterArrived data).forChapters = none := by
      rw [Call.forChapters_eq_none_iff]
      constructor
      · rintro ⟨call', hc', hnot⟩
        obtain rfl : call = call' := Option.some.inj (hc.symm.trans hc')
        exact hnot
      · exact fun hnot => ⟨call, hc, hnot⟩
    rw [htraps]
    cases hf : (call.posterArrived data).forChapters with
    | none =>
      rw [onPoster_of_trap hf]
      exact iff_of_true rfl rfl
    | some call' =>
      rw [onPoster_of_some hf]
      exact iff_of_false (ne_false_of_eq_true hr) (Option.some_ne_none call')
  | listAll c i reply call chapter hr hc hi hw => exact iff_of_false (ne_false_of_eq_true hr) id
  | pageFailed c i j call chapter hr hc hi hj => exact iff_of_false (ne_false_of_eq_true hr) id
  | page c i j data1 call chapter hr hc hi hj =>
    refine iff_of_false ?_ id
    generalize hs' : s.onPage c call i chapter j data1 hj = s'
    cases hs' ▸ onPage_outcome s c call i chapter j data1 hj <;> exact ne_false_of_eq_true hr
  | progress c i j n call chapter task hr hc hi hj => exact iff_of_false (ne_false_of_eq_true hr) id
  | _ => cases he

end DownloadSession

namespace AccountSession

def Link.opens : Link → Bool
  | .comicDocument chain _ | .poster chain _ => decide (chain ≠ .Like)
  | .infoDocument _ | .listAll _ | .item _ => true
  | _ => false

/-- A reply stops the process on a document without an author or a category for `upLoad`, or on one
without `posterPath` for `DownloadList`, which passes over a document that does not exist. -/
def Link.Traps : Link → Reply → Prop
  | .infoDocument _, .comic document =>
    document.bind ComicDocument.author = none ∨ document.bind ComicDocument.category = none
  | .comicDocument _ _, .comic document => ∃ data ∈ document, data.posterPath = none
  | _, _ => False

theorem onComicDocument_running {s : State} (hr : s.running = true) (n : ℕ) {chain : Chain}
    (hchain : chain ≠ .Like) (comic : ℕ) (document : Option ComicDocument) :
    (s.onComicDocument n chain comic document).running = false ↔
      ∃ data ∈ document, data.posterPath = none := by
  cases document with
  | none =>
    rw [State.onComicDocument, if_pos ⟨hchain, rfl⟩]
    exact iff_of_false (ne_false_of_eq_true hr) (by rintro ⟨data, hdata, -⟩; cases hdata)
  | some data =>
    rw [State.onComicDocument, if_neg (fun hnone => Option.some_ne_none data hnone.2)]
    cases hposter : data.posterPath with
    | none =>
      simp only [Option.bind_some, hposter]
      exact iff_of_true rfl ⟨data, rfl, hposter⟩
    | some posterPath =>
      simp only [Option.bind_some, hposter]
      refine iff_of_false (ne_false_of_eq_true hr) ?_
      rintro ⟨data', hdata', hnone⟩
      obtain rfl := Option.some.inj hdata'
      rw [hposter] at hnone
      cases hnone

theorem onInfoDocument_running {s : State} (hr : s.running = true) (n tmp : ℕ)
    (document : Option ComicDocument) :
    (s.onInfoDocument n tmp document).running = false ↔
      document.bind ComicDocument.author = none ∨ document.bind ComicDocument.category = none := by
  unfold State.onInfoDocument
  cases hauthor : document.bind ComicDocument.author with
  | none => exact iff_of_true rfl (.inl rfl)
  | some author =>
    cases hcategory : document.bind ComicDocument.category with
    | none => exact iff_of_true rfl (.inr rfl)
    | some category =>
      exact iff_of_false (ne_false_of_eq_true hr) (by rintro (hnone | hnone) <;> cases hnone)

theorem running_eq_false_iff {s t : State} {n k : ℕ} {reply : Reply} {link : Link}
    (h : step s (.reply n k reply) = some t) (hlink : s.link n k = some link)
    (hopens : link.opens = true) : t.running = false ↔ link.Traps reply := by
  obtain ⟨hr, link', hlink', hcallback⟩ := step_reply h
  obtain rfl : link = link' := Option.some.inj (hlink.symm.trans hlink')
  cases hcallback with
  | failed link hprofile => exact iff_of_false (ne_false_of_eq_true hr) (by cases link <;> exact id)
  | comicDocument chain comic document =>
    exact onComicDocument_running (s := s.answer n k) hr n (of_decide_eq_true hopens) comic document
  | poster chain comic data => exact iff_of_false (by cases chain <;> exact ne_false_of_eq_true hr) id
  | infoDocument tmp document => exact onInfoDocument_running (s := s.answer n k) hr n tmp document
  | listAll tmp reply =>
    refine iff_of_false ?_ id
    unfold State.onListAll
    dsimp only
    split_ifs <;> exact ne_false_of_eq_true hr
  | item tmp data =>
    refine iff_of_false ?_ id
    unfold State.onItem
    dsimp only
    split_ifs <;> exact ne_false_of_eq_true hr
  | _ => cases hopens

end AccountSession

namespace ShelfViewController

/-- Whether the event runs a callback of one of the four functions. -/
def opens (s : State) : Event → Bool
  | .download e => e.ofCall.isSome
  | .account (.reply n k _) => (s.account.link n k).any AccountSession.Link.opens
  | _ => false

/-- Whether the callback that the event runs stops the process. -/
def Traps (s : State) : Event → Prop
  | .download e => DownloadSession.Traps s.downloads e
  | .account (.reply n k reply) => ∃ link ∈ s.account.link n k, link.Traps reply
  | _ => False

theorem running_eq_false_iff {s t : State} {e : Event} (h : step s e = some t)
    (hopens : opens s e = true) : t.running = false ↔ Traps s e := by
  cases Transition.of_step h with
  | download e downloads hr hd =>
    rw [State.running, (State.running_iff.mp hr).2, Bool.and_true]
    exact (DownloadSession.Transition.of_step hd).running_eq_false_iff hopens
  | account e account hr ha =>
    rw [State.running, (State.running_iff.mp hr).1, Bool.true_and]
    cases e with
    | action a => cases hopens
    | reply n k reply =>
      obtain ⟨link, hlink, hlinkOpens⟩ := (Option.any_eq_true _ _).mp hopens
      rw [AccountSession.running_eq_false_iff ha hlink hlinkOpens]
      constructor
      · exact fun htraps => ⟨link, hlink, htraps⟩
      · rintro ⟨link', hlink', htraps⟩
        obtain rfl : link = link' := Option.some.inj (hlink.symm.trans hlink')
        exact htraps
  | _ => cases hopens

end ShelfViewController

namespace CatalogueSession
open EventMachine ShelfViewController

structure State where
  shelf : ShelfViewController.State
  listCommentComic : List String
  comments : List Request
  faulted : Bool

/-- The replies that carry a document of the `Comic` collection, and the other events of the shelf. -/
inductive Event where
  | shelf (e : ShelfViewController.Event)
  | DownloadCommic (c : ℕ) (reply : Snapshot)
  | lookUp (n k : ℕ) (reply : Snapshot)
  | downloadListCommentComic (k : ℕ) (reply : Snapshot)
  deriving DecidableEq, Repr

def launch (realm : Realm) (luser : List AccountSession.LUser) : State :=
  ⟨ShelfViewController.launch realm luser, [], [], false⟩

def plain : ShelfViewController.Event → Bool
  | .download (.document _ _) | .account (.reply _ _ (.comic _)) => false
  | _ => true

/-- The event of the shelf that a reply amounts to. -/
def Event.shelf? : Event → Option ShelfViewController.Event
  | .shelf e => if plain e then some e else none
  | .DownloadCommic c reply => some (.download (.document c reply.documentReply))
  | .lookUp n k reply => some (.account (.reply n k reply.reply))
  | .downloadListCommentComic _ _ => none

namespace State

/-- `InfoViewController.viewDidLoad` empties the list of comments and asks for it. -/
def onShelf (s : State) (e : ShelfViewController.Event) (shelf : ShelfViewController.State) : State :=
  let s := { s with shelf, faulted := s.faulted || opens s.shelf e && !shelf.running }
  match e with
  | .viewDidLoad => { s with listCommentComic := [], comments := s.comments ++ [.waiting] }
  | .relaunch => { s with listCommentComic := [], comments := [] }
  | _ => s

def trap (s : State) : State :=
  { s with
    shelf := ⟨s.shelf.downloads.trap, s.shelf.account.trap⟩
    faulted := true }

def onComment (s : State) (k : ℕ) : Snapshot → State
  | .error => { s with comments := s.comments.set k .failed }
  | .missing => s.trap
  | .found data =>
    match data.comment with
    | none => s.trap
    | some comment =>
      { s with
        listCommentComic := comment
        comments := s.comments.set k .arrived }

end State

def step (s : State) (e : Event) : Option State :=
  match e with
  | .downloadListCommentComic k reply =>
    if s.shelf.running ∧ s.comments[k]? = some .waiting then some (s.onComment k reply) else none
  | e => e.shelf?.bind fun e => (ShelfViewController.step s.shelf e).map (s.onShelf e)

inductive Transition (s : State) : Event → State → Prop where
  | shelf (e : Event) (f : ShelfViewController.Event) (shelf : ShelfViewController.State)
      (hf : e.shelf? = some f) (hs : ShelfViewController.step s.shelf f = some shelf) :
      Transition s e (s.onShelf f shelf)
  | comment (k : ℕ) (reply : Snapshot) (hr : s.shelf.running = true)
      (hw : s.comments[k]? = some .waiting) :
      Transition s (.downloadListCommentComic k reply) (s.onComment k reply)

theorem Transition.of_step {s t : State} {e : Event} (h : step s e = some t) :
    Transition s e t := by
  have hshelf : (e.shelf?.bind fun f => (ShelfViewController.step s.shelf f).map (s.onShelf f)) =
      some t → Transition s e t := by
    intro h
    obtain ⟨f, hf, ht⟩ := Option.bind_eq_some_iff.mp h
    obtain ⟨shelf, hs, rfl⟩ := Option.map_eq_some_iff.mp ht
    exact .shelf e f shelf hf hs
  cases e with
  | downloadListCommentComic k reply =>
    unfold step at h
    dsimp only at h
    split_ifs at h with hguard
    obtain rfl := Option.some.inj h
    exact .comment k reply hguard.1 hguard.2
  | _ => exact hshelf h

/-- No reply makes a callback of the four functions unwrap what it does not have. -/
def Provides (s : State) : Event → Prop
  | .downloadListCommentComic _ .error => True
  | .downloadListCommentComic _ .missing => False
  | .downloadListCommentComic _ (.found data) => data.comment ≠ none
  | e => ∀ f ∈ e.shelf?, opens s.shelf f = true → ¬ Traps s.shelf f

theorem provides_iff {s : State} {e : Event} {f : ShelfViewController.Event}
    (hf : e.shelf? = some f) : Provides s e ↔ (opens s.shelf f = true → ¬ Traps s.shelf f) := by
  have hiff : (∀ f ∈ e.shelf?, opens s.shelf f = true → ¬ Traps s.shelf f) ↔
      (opens s.shelf f = true → ¬ Traps s.shelf f) := by
    rw [hf]
    simp
  cases e with
  | downloadListCommentComic k reply => cases hf
  | _ => exact hiff

@[simp] theorem onShelf_faulted (s : State) (e : ShelfViewController.Event)
    (shelf : ShelfViewController.State) :
    (s.onShelf e shelf).faulted = (s.faulted || opens s.shelf e && !shelf.running) := by
  cases e <;> rfl

@[simp] theorem onShelf_shelf (s : State) (e : ShelfViewController.Event)
    (shelf : ShelfViewController.State) : (s.onShelf e shelf).shelf = shelf := by
  cases e <;> rfl

/-- A callback of the four functions stops the process exactly on a reply that does not provide what
it unwraps. -/
theorem Transition.faulted_iff {s t : State} {e : Event} (h : Transition s e t) :
    t.faulted = true ↔ s.faulted = true ∨ ¬ Provides s e := by
  cases h with
  | shelf e f shelf hf hs =>
    rw [onShelf_faulted, Bool.or_eq_true, Bool.and_eq_true, Bool.not_eq_true', provides_iff hf]
    refine or_congr_right ?_
    constructor
    · rintro ⟨hopens, hrunning⟩ hprovides
      exact hprovides hopens ((running_eq_false_iff hs hopens).mp hrunning)
    · intro hnot
      obtain ⟨hopens, htraps⟩ := Classical.not_imp.mp hnot
      exact ⟨hopens, (running_eq_false_iff hs hopens).mpr (Classical.not_not.mp htraps)⟩
  | comment k reply hr hw =>
    cases reply with
    | error => simp [State.onComment, Provides]
    | missing => simp [State.onComment, State.trap, Provides]
    | found data =>
      cases hcomment : data.comment with
      | none => simp [State.onComment, State.trap, Provides, hcomment]
      | some comment => simp [State.onComment, Provides, hcomment]

/-- Along a run no callback of the four functions stops the process exactly when every reply provides
what its callback unwraps. -/
theorem faultFree_iff {s t : State} {es : List Event} (h : s.faulted = false)
    (hrun : run step s es = some t) :
    Throughout step (fun s => s.faulted = false) s es ↔ Along step Provides s es := by
  refine throughout_iff_along_of_step_iff step (I := fun _ => True) (fun _ _ _ _ _ => trivial) ?_
    trivial h hrun
  intro s e t _ hs ht
  rw [← Bool.not_eq_true, (Transition.of_step ht).faulted_iff, hs]
  simp

end CatalogueSession
end ComicApp
