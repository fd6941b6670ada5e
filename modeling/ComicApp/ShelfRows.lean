import ComicApp.CallSteps
import ComicApp.ShelfObjects

/-!
# The rows of the shelf

The shelf shows one of its three lists. `Shelf.listDownload` is filled by the downloads and by the
comics of the store, `Shelf.listHistory` and `Shelf.listLike` by the requests of the account, and all
of them share their comics with callbacks that are still to come. A row unwraps the fields of its
comic when it is drawn. The two machines go on side by side: they share `Comic.id` and the process,
and the replies to their requests arrive in any order.
-/

namespace ComicApp

def Utilities.fixTypeSize (size : ℤ) : String :=
  if size < 1024 then s!"{size} Byte"
  else if size < 1024 ^ 2 then s!"{size / 1024} KB"
  else if size < 1024 ^ 3 then s!"{size / 1024 ^ 2} MB"
  else if size < 1024 ^ 4 then s!"{size / 1024 ^ 3} GB"
  else if size < 1024 ^ 5 then s!"{size / 1024 ^ 4} TG"
  else ""

structure DComic.Filled (comic : DComic) : Prop where
  name : comic.name ≠ none
  totalChap : comic.totalChap ≠ none
  Dsize : comic.Dsize ≠ none
  totalSize : comic.totalSize ≠ none

structure DComic.Drawable (comic : DComic) : Prop extends comic.Filled where
  poster : comic.poster ≠ none

namespace DownloadSession
open Utilities

def Entry.comic (s : State) : Entry → Option DComic
  | .call c => s.calls[c]?.map Call.comic
  | .stored comic => some comic

structure Displayed (s : State) : Prop where
  calls : ∀ call ∈ s.calls, call.comic.Filled
  entries : ∀ entry ∈ s.listDownload, ∃ comic, entry.comic s = some comic ∧ comic.Drawable

def Event.Reads : Event → Prop
  | .document _ (.found data) =>
    data.name ≠ none ∧ data.totalChap ≠ none ∧ data.size ≠ none ∧ data.posterPath ≠ none
  | _ => True

instance Event.decidableReads : ∀ e, Decidable (Event.Reads e)
  | .document _ (.found data) => inferInstanceAs (Decidable (data.name ≠ none ∧
      data.totalChap ≠ none ∧ data.size ≠ none ∧ data.posterPath ≠ none))
  | .document _ .error | .document _ .missing | .select _ | .viewDidLoad | .leave _ | .download _
  | .poster _ _ | .listAll _ _ _ | .page _ _ _ _ | .progress _ _ _ _ | .relaunch => .isTrue trivial

theorem displayed_launch (realm : Realm) : Displayed (launch realm) where
  calls := by simp [launch]
  entries entry hentry := by
    obtain ⟨comic, -, rfl⟩ := List.mem_map.mp hentry
    exact ⟨_, rfl, ⟨Option.some_ne_none _, Option.some_ne_none _, Option.some_ne_none _,
      Option.some_ne_none _⟩, Option.some_ne_none _⟩

namespace Displayed
variable {s t : State} (h : Displayed s)
include h

theorem frame (hcalls : t.calls = s.calls) (hlist : t.listDownload = s.listDownload) :
    Displayed t where
  calls := by
    rw [hcalls]
    exact h.calls
  entries entry hentry := by
    obtain ⟨comic, hcomic, hdrawable⟩ := h.entries entry (hlist ▸ hentry)
    refine ⟨comic, ?_, hdrawable⟩
    rw [← hcomic]
    cases entry with
    | call c => simp only [Entry.comic, hcalls]
    | stored comic => rfl

/-- A new call does not touch the comics that are shown. -/
theorem download {id : String} (hcalls : t.calls = s.calls ++ [Shelf.DownloadCommic id])
    (hlist : t.listDownload = s.listDownload) : Displayed t where
  calls call hcall := by
    rw [hcalls] at hcall
    rcases List.mem_append.mp hcall with hcall | hcall
    · exact h.calls call hcall
    · obtain rfl := List.mem_singleton.mp hcall
      exact ⟨Option.some_ne_none _, Option.some_ne_none _, Option.some_ne_none _,
        Option.some_ne_none _⟩
  entries entry hentry := by
    obtain ⟨comic, hcomic, hdrawable⟩ := h.entries entry (hlist ▸ hentry)
    refine ⟨comic, ?_, hdrawable⟩
    cases entry with
    | call c =>
      obtain ⟨call, hcall, rfl⟩ := Option.map_eq_some_iff.mp hcomic
      have hlt := (List.getElem?_eq_some_iff.mp hcall).1
      simp only [Entry.comic, hcalls, List.getElem?_append_left hlt, hcall, Option.map_some]
    | stored comic => exact hcomic

/-- What a call makes of its comic shows in the list. -/
theorem setCall {c : ℕ} {call call' : Call} (hc : s.calls[c]? = some call)
    (hcalls : t.calls = (s.setCall c call').calls) (hlist : t.listDownload = s.listDownload)
    (hfilled : call'.comic.Filled) (hposter : call.comic.poster ≠ none → call'.comic.poster ≠ none) :
    Displayed t where
  calls := by
    rw [hcalls]
    exact forall_mem_set h.calls c hfilled
  entries entry hentry := by
    obtain ⟨comic, hcomic, hdrawable⟩ := h.entries entry (hlist ▸ hentry)
    cases entry with
    | stored comic₁ => exact ⟨comic, hcomic, hdrawable⟩
    | call c₁ =>
      obtain ⟨call₁, hcall₁, rfl⟩ := Option.map_eq_some_iff.mp hcomic
      by_cases hne : c₁ = c
      · subst hne
        obtain rfl : call = call₁ := Option.some.inj (hc.symm.trans hcall₁)
        refine ⟨call'.comic, ?_, hfilled, hposter hdrawable.poster⟩
        simp only [Entry.comic, hcalls, State.setCall]
        rw [List.getElem?_set_self (List.getElem?_eq_some_iff.mp hc).1, Option.map_some]
      · refine ⟨call₁.comic, ?_, hdrawable⟩
        simp only [Entry.comic, hcalls, State.setCall]
        rw [List.getElem?_set_ne (Ne.symm hne), hcall₁, Option.map_some]

/-- The poster puts the comic of a call in the list. -/
theorem poster {c : ℕ} {call call' : Call} (hc : s.calls[c]? = some call)
    (hcalls : t.calls = (s.setCall c call').calls)
    (hlist : t.listDownload = s.listDownload ++ [Entry.call c]) (hdrawable : call'.comic.Drawable) :
    Displayed t := by
  have hold : Displayed { t with listDownload := s.listDownload } :=
    h.setCall hc hcalls rfl hdrawable.toFilled fun _ => hdrawable.poster
  refine ⟨hold.calls, fun entry hentry => ?_⟩
  rw [hlist] at hentry
  rcases List.mem_append.mp hentry with hentry | hentry
  · obtain ⟨comic, hcomic, hdrawn⟩ := hold.entries entry hentry
    exact ⟨comic, by cases entry <;> exact hcomic, hdrawn⟩
  · obtain rfl := List.mem_singleton.mp hentry
    refine ⟨call'.comic, ?_, hdrawable⟩
    simp only [Entry.comic, hcalls, State.setCall]
    rw [List.getElem?_set_self (List.getElem?_eq_some_iff.mp hc).1, Option.map_some]

theorem posterArrived {c : ℕ} {call : Call} {data : Data} (hc : s.calls[c]? = some call) :
    Displayed (s.onPoster c call data) := by
  have hfilled := h.calls call (List.mem_of_getElem? hc)
  have hdrawable : (call.posterArrived data).comic.Drawable :=
    ⟨⟨hfilled.name, hfilled.totalChap, hfilled.Dsize, hfilled.totalSize⟩, Option.some_ne_none data⟩
  cases hf : (call.posterArrived data).forChapters with
  | none =>
    rw [onPoster_of_trap hf]
    exact h.poster hc rfl rfl hdrawable
  | some call' =>
    rw [onPoster_of_some hf]
    exact h.poster hc rfl rfl (Call.forChapters_comic hf ▸ hdrawable)

theorem document {c : ℕ} {call call' : Call} {reply : DocumentReply} (hc : s.calls[c]? = some call)
    (hreads : Event.Reads (.document c reply)) (ho : call.onDocument reply = some call') :
    Displayed (s.setCall c call') := by
  have hfilled := h.calls call (List.mem_of_getElem? hc)
  cases Call.onDocument_outcome ho with
  | error => exact h.setCall hc rfl rfl hfilled fun hposter => hposter
  | missing => exact h.setCall hc rfl rfl hfilled fun hposter => hposter
  | found data hposter =>
    obtain ⟨hname, htotalChap, hsize, -⟩ := hreads
    exact h.setCall hc rfl rfl ⟨hname, htotalChap, hfilled.Dsize, hsize⟩ fun hposter => hposter

theorem step {e : Event} (hreads : e.Reads) (hs : DownloadSession.step s e = some t) :
    Displayed t := by
  have hkeep {c : ℕ} {call call' : Call} (hc : s.calls[c]? = some call)
      (hcomic : call'.comic = call.comic) : Displayed (s.setCall c call') :=
    h.setCall hc rfl rfl (hcomic ▸ h.calls call (List.mem_of_getElem? hc))
      fun hposter => hcomic ▸ hposter
  cases Transition.of_step hs with
  | relaunch => exact displayed_launch s.realm
  | select id hr => exact h.frame rfl rfl
  | viewDidLoad hr =>
    obtain ⟨-, hcalls, hlist, -⟩ := onViewDidLoad_frame s
    exact h.frame hcalls hlist
  | leave p hr => exact h.frame rfl rfl
  | download p hr hp =>
    obtain ⟨-, hlist, -⟩ := onDownload_frame s p
    rcases onDownload_calls s p with ⟨id, -, hcalls, -⟩ | ⟨hcalls, -⟩
    · exact h.download hcalls hlist
    · exact h.frame hcalls hlist
  | documentTrap => exact h.frame rfl rfl
  | document c reply call call' hr hc hw ho => exact h.document hc hreads ho
  | posterFailed c call hr hc hw => exact hkeep hc rfl
  | poster c data call hr hc hw => exact h.posterArrived hc
  | listAll c i reply call chapter hr hc hi hw => exact hkeep hc rfl
  | pageFailed c i j call chapter hr hc hi hj => exact hkeep hc rfl
  | page c i j data1 call chapter hr hc hi hj =>
    have hfilled := h.calls call (List.mem_of_getElem? hc)
    generalize hs' : s.onPage c call i chapter j data1 hj = s'
    cases hs' ▸ onPage_outcome s c call i chapter j data1 hj with
    | more | unrecorded => exact hkeep hc rfl
    | stored comicl hl hf hn => exact h.setCall hc rfl rfl hfilled fun hposter => hposter
    | last comicl hl hf hn =>
      exact h.setCall hc rfl rfl
        ⟨hfilled.name, hfilled.totalChap, hfilled.Dsize, hfilled.totalSize⟩ fun hposter => hposter
  | progress c i j n call chapter task hr hc hi hj =>
    have hfilled := h.calls call (List.mem_of_getElem? hc)
    exact h.setCall hc rfl rfl
      ⟨hfilled.name, hfilled.totalChap, Option.some_ne_none _, hfilled.totalSize⟩
      fun hposter => hposter

end Displayed
end DownloadSession

namespace AccountSession

def Documented (document : Option ComicDocument) : Prop :=
  ∃ data ∈ document, data.name ≠ none ∧ data.totalChap ≠ none ∧ data.posterPath ≠ none

instance (document : Option ComicDocument) : Decidable (Documented document) :=
  inferInstanceAs (Decidable (∃ data ∈ document, _))

theorem kept_filled : Kept Documented DComic.Filled where
  fresh _ := ⟨Option.some_ne_none _, Option.some_ne_none _, Option.some_ne_none _,
    Option.some_ne_none _⟩
  counted comic document hfilled := by
    rintro ⟨data, hdata, hname, htotalChap, -⟩
    obtain rfl := hdata
    exact ⟨hname, htotalChap, hfilled.Dsize, hfilled.totalSize⟩
  named comic document hfilled := by
    rintro ⟨data, hdata, hname, -⟩
    obtain rfl := hdata
    exact ⟨hname, hfilled.totalChap, hfilled.Dsize, hfilled.totalSize⟩
  chapters _ _ hfilled :=
    ⟨hfilled.name, Option.some_ne_none _, hfilled.Dsize, hfilled.totalSize⟩
  poster _ _ hfilled := ⟨hfilled.name, hfilled.totalChap, hfilled.Dsize, hfilled.totalSize⟩

theorem State.Shaped.drawable {s : State} (h : s.Shaped DComic.Filled) {r : Ref}
    (hr : s.Posted r) : ∃ comic, s.comic r = some comic ∧ comic.Drawable := by
  obtain ⟨comic, hcomic, hposter⟩ := hr
  obtain ⟨S, hS, hk⟩ := Option.bind_eq_some_iff.mp hcomic
  have hfilled := (h.sessions S (List.mem_of_getElem? hS)).objects comic (List.mem_of_getElem? hk)
  exact ⟨comic, hcomic, hfilled, hposter⟩

end AccountSession

namespace ShelfViewController
open EventMachine Utilities

structure State where
  downloads : DownloadSession.State
  account : AccountSession.State

/-- An event of one of the machines, or one that both take part in: a comic is chosen, an info page
is opened, or the app is started again. -/
inductive Event where
  | download (e : DownloadSession.Event)
  | account (e : AccountSession.Event)
  | select (id : Option String)
  | viewDidLoad
  | relaunch
  deriving DecidableEq, Repr

def launch (realm : Realm) (luser : List AccountSession.LUser) : State where
  downloads := DownloadSession.launch realm
  account := AccountSession.launch luser

namespace State

def running (s : State) : Bool := s.downloads.running && s.account.running

def onSelect (s : State) (id : Option String) : State where
  downloads := { s.downloads with id := id }
  account := { s.account with id := id }

def onViewDidLoad (s : State) : State where
  downloads := s.downloads.onViewDidLoad
  account := s.account.onViewDidLoad

def relaunch (s : State) : Option State :=
  (AccountSession.step s.account (.action .relaunch)).map fun account =>
    ⟨DownloadSession.launch s.downloads.realm, account⟩

end State

/-- The events that concern both machines do not happen to one of them alone. -/
def Event.apart : Event → Bool
  | .download (.select _) | .download .viewDidLoad | .download .relaunch => false
  | .account (.action (.select _)) | .account (.action .viewDidLoad)
  | .account (.action .relaunch) => false
  | _ => true

def step (s : State) (e : Event) : Option State :=
  if e = .relaunch then s.relaunch
  else if s.running ∧ e.apart then
    match e with
    | .download e => (DownloadSession.step s.downloads e).map fun downloads => { s with downloads }
    | .account e => (AccountSession.step s.account e).map fun account => { s with account }
    | .select id => some (s.onSelect id)
    | .viewDidLoad => some s.onViewDidLoad
    | .relaunch => none
  else none

inductive Transition (s : State) : Event → State → Prop where
  | relaunch (account : AccountSession.State)
      (ha : AccountSession.step s.account (.action .relaunch) = some account) :
      Transition s .relaunch ⟨DownloadSession.launch s.downloads.realm, account⟩
  | download (e : DownloadSession.Event) (downloads : DownloadSession.State) (hr : s.running = true)
      (hd : DownloadSession.step s.downloads e = some downloads) :
      Transition s (.download e) { s with downloads }
  | account (e : AccountSession.Event) (account : AccountSession.State) (hr : s.running = true)
      (ha : AccountSession.step s.account e = some account) :
      Transition s (.account e) { s with account }
  | select (id : Option String) (hr : s.running = true) : Transition s (.select id) (s.onSelect id)
  | viewDidLoad (hr : s.running = true) : Transition s .viewDidLoad s.onViewDidLoad

theorem Transition.of_step {s t : State} {e : Event} (h : step s e = some t) :
    Transition s e t := by
  unfold step at h
  split_ifs at h with hrelaunch hrun
  · subst hrelaunch
    obtain ⟨account, ha, rfl⟩ := Option.map_eq_some_iff.mp h
    exact .relaunch account ha
  · cases e with
    | download e =>
      obtain ⟨downloads, hd, rfl⟩ := Option.map_eq_some_iff.mp h
      exact .download e downloads hrun.1 hd
    | account e =>
      obtain ⟨account, ha, rfl⟩ := Option.map_eq_some_iff.mp h
      exact .account e account hrun.1 ha
    | select id =>
      obtain rfl := Option.some.inj h
      exact .select id hrun.1
    | viewDidLoad =>
      obtain rfl := Option.some.inj h
      exact .viewDidLoad hrun.1
    | relaunch => cases h

theorem State.running_iff {s : State} :
    s.running = true ↔ s.downloads.running = true ∧ s.account.running = true := by
  rw [State.running, Bool.and_eq_true]

def listComic (s : State) (selectedSegmentIndex : ℤ) : List (Option DComic) :=
  if selectedSegmentIndex = 0 then s.downloads.listDownload.map fun entry => entry.comic s.downloads
  else if selectedSegmentIndex = 1 then s.account.listHistory.map s.account.comic
  else s.account.listLike.map s.account.comic

def numberOfRowsInSection (s : State) (selectedSegmentIndex : ℤ) : ℕ :=
  (listComic s selectedSegmentIndex).length

/-- What a cell of the shelf shows; `progress` is the fraction of the progress view, where it is set. -/
structure Cell where
  imgPoster : Data
  lblComicName : String
  lblSub : String
  avdDownloadIsHidden : Bool
  progress : Option (ℤ × ℤ)
  deriving DecidableEq, Repr

/-- The line below the name; `none` is a trap. -/
def lblSub (comic : DComic) : Option String :=
  if comic.finish then comic.totalChap.map fun totalChap => s!"Total chap: {totalChap}"
  else
    match comic.Dsize, comic.totalSize with
    | some Dsize, some totalSize =>
      some (if totalSize < Dsize then s!"Dowloading {fixTypeSize totalSize}"
        else s!"Dowloading {fixTypeSize Dsize} /{fixTypeSize totalSize}")
    | _, _ => none

def cell (comic : DComic) (selectedSegmentIndex : ℤ) : Option Cell :=
  match comic.poster, comic.name, lblSub comic with
  | some poster, some name, some sub =>
    if selectedSegmentIndex = 0 then
      match comic.Dsize, comic.totalSize with
      | some Dsize, some totalSize => some ⟨poster, name, sub, comic.finish, some (Dsize, totalSize)⟩
      | _, _ => none
    else some ⟨poster, name, sub, comic.finish, none⟩
  | _, _, _ => none

def cellForRowAt (s : State) (selectedSegmentIndex : ℤ) (row : ℕ) : Option Cell :=
  ((listComic s selectedSegmentIndex)[row]?.join).bind fun comic => cell comic selectedSegmentIndex

/-- Every document of a comic that is read exists with the fields that are unwrapped later. -/
def Reads : Event → Prop
  | .download e => e.Reads
  | .account e => e.Accepts AccountSession.Documented
  | _ => True

instance Event.decidableReads : ∀ e, Decidable (Reads e)
  | .download e => inferInstanceAs (Decidable e.Reads)
  | .account e => inferInstanceAs (Decidable (e.Accepts AccountSession.Documented))
  | .select _ | .viewDidLoad | .relaunch => .isTrue trivial

theorem lblSub_isSome {comic : DComic} (h : comic.Filled) : (lblSub comic).isSome := by
  unfold lblSub
  split_ifs
  · rw [Option.isSome_map]
    exact Option.isSome_iff_ne_none.mpr h.totalChap
  · obtain ⟨Dsize, hDsize⟩ := Option.ne_none_iff_exists'.mp h.Dsize
    obtain ⟨totalSize, htotalSize⟩ := Option.ne_none_iff_exists'.mp h.totalSize
    simp [hDsize, htotalSize]

theorem cell_isSome {comic : DComic} (h : comic.Drawable) (selectedSegmentIndex : ℤ) :
    (cell comic selectedSegmentIndex).isSome := by
  obtain ⟨poster, hposter⟩ := Option.ne_none_iff_exists'.mp h.poster
  obtain ⟨name, hname⟩ := Option.ne_none_iff_exists'.mp h.name
  obtain ⟨sub, hsub⟩ := Option.isSome_iff_exists.mp (lblSub_isSome h.toFilled)
  obtain ⟨Dsize, hDsize⟩ := Option.ne_none_iff_exists'.mp h.Dsize
  obtain ⟨totalSize, htotalSize⟩ := Option.ne_none_iff_exists'.mp h.totalSize
  unfold cell
  simp only [hposter, hname, hsub, hDsize, htotalSize]
  split_ifs <;> rfl

structure Drawn (s : State) : Prop where
  downloads : DownloadSession.Displayed s.downloads
  account : s.account.Shaped DComic.Filled

theorem drawn_launch (realm : Realm) (luser : List AccountSession.LUser) :
    Drawn (launch realm luser) where
  downloads := DownloadSession.displayed_launch realm
  account := AccountSession.State.shaped_start _ luser (by simp)

theorem Drawn.step {s t : State} {e : Event} (h : Drawn s) (hreads : Reads e)
    (hs : ShelfViewController.step s e = some t) : Drawn t := by
  cases Transition.of_step hs with
  | relaunch account ha =>
    have haccepts : AccountSession.Event.Accepts AccountSession.Documented (.action .relaunch) := trivial
    exact ⟨DownloadSession.displayed_launch _,
      h.account.step AccountSession.kept_filled haccepts ha⟩
  | download e downloads hr hd => exact ⟨h.downloads.step hreads hd, h.account⟩
  | account e account hr ha =>
    exact ⟨h.downloads, h.account.step AccountSession.kept_filled hreads ha⟩
  | select id hr =>
    exact ⟨h.downloads.frame rfl rfl, h.account.sessions, h.account.listHistory, h.account.listLike⟩
  | viewDidLoad hr =>
    obtain ⟨-, hcalls, hlist, -⟩ := DownloadSession.onViewDidLoad_frame s.downloads
    exact ⟨h.downloads.frame hcalls hlist,
      h.account.onViewDidLoad AccountSession.kept_filled⟩

theorem Drawn.listComic {s : State} (h : Drawn s) (selectedSegmentIndex : ℤ) :
    ∀ comic ∈ listComic s selectedSegmentIndex, ∃ c, comic = some c ∧ c.Drawable := by
  intro comic hcomic
  unfold ShelfViewController.listComic at hcomic
  split_ifs at hcomic
  · obtain ⟨entry, hentry, rfl⟩ := List.mem_map.mp hcomic
    exact h.downloads.entries entry hentry
  · obtain ⟨r, hr, rfl⟩ := List.mem_map.mp hcomic
    exact h.account.drawable (h.account.listHistory r hr)
  · obtain ⟨r, hr, rfl⟩ := List.mem_map.mp hcomic
    exact h.account.drawable (h.account.listLike r hr)

/-- In every state that a run reaches, every comic of the three lists has what a row unwraps, and
every row can be drawn. -/
theorem rows_drawn (realm : Realm) (luser : List AccountSession.LUser) (es : List Event) (s : State)
    (hreads : Along step (fun _ => Reads) (launch realm luser) es)
    (hrun : run step (launch realm luser) es = some s) :
    (∀ selectedSegmentIndex, ∀ comic ∈ listComic s selectedSegmentIndex,
      ∃ c, comic = some c ∧ c.Drawable) ∧
    ∀ selectedSegmentIndex row, row < numberOfRowsInSection s selectedSegmentIndex →
      (cellForRowAt s selectedSegmentIndex row).isSome := by
  have hdrawn : Drawn s := run_invariant step (drawn_launch realm luser)
    (fun _ _ _ h hreads hs => h.step hreads hs) hreads hrun
  refine ⟨hdrawn.listComic, fun selectedSegmentIndex row hrow => ?_⟩
  obtain ⟨comic, hcomic, hdrawable⟩ :=
    hdrawn.listComic selectedSegmentIndex _ (List.getElem_mem hrow)
  unfold cellForRowAt
  rw [List.getElem?_eq_getElem hrow, hcomic]
  exact cell_isSome hdrawable selectedSegmentIndex

def comicDocument : AccountSession.ComicDocument where
  name := some "A"
  totalChap := some 1
  posterPath := some "A.jpg"
  author := some "An"
  category := some "B"

def filledShelf : List Event :=
  [.account (.action .login), .account (.action .loginTapped), .account (.reply 1 0 (.uid "a")),
    .account (.reply 1 1 (.user (some
      ⟨some "An", some "Other", some "", some "", some "", some ["x"], some ["y"]⟩))),
    .account (.reply 1 2 (.comic (some comicDocument))), .account (.reply 1 4 (.data [1])),
    .account (.reply 1 3 (.comic (some comicDocument))), .account (.reply 1 5 (.data [1])),
    .select (some "z"), .viewDidLoad, .account (.reply 1 7 (.listing (.success (1, 1)))),
    .account (.reply 1 8 (.data [1])), .account (.reply 1 6 (.comic (some comicDocument))),
    .download (.download 0),
    .download (.document 0 (.found ⟨some "Z", some 1, some 10, some "Z.jpg", some "Z"⟩)),
    .download (.poster 0 (some [1]))]

def afterFilledShelf : State := (run step (launch [] []) filledShelf).get (by decide +kernel)

theorem rows_drawn_filledShelf :
    (∀ selectedSegmentIndex, ∀ comic ∈ listComic afterFilledShelf selectedSegmentIndex,
      ∃ c, comic = some c ∧ c.Drawable) ∧
    ∀ selectedSegmentIndex row, row < numberOfRowsInSection afterFilledShelf selectedSegmentIndex →
      (cellForRowAt afterFilledShelf selectedSegmentIndex row).isSome :=
  rows_drawn [] [] filledShelf afterFilledShelf (by decide +kernel) (Option.some_get _).symm

end ShelfViewController
end ComicApp
