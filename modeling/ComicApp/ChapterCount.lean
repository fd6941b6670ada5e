import ComicApp.ReadingSession

/-!
# The chapter count of the open comic

`Comic.nchap` outlives the page it was obtained for, and a late listing of one comic overwrites the
count of another. It belongs to the open comic whenever a screen reads it if listings arrive whole
and only while the page opened last is one of their comic, and no screen is entered before that page
has its count, or while `Comic.id` is already another comic.
-/

namespace ComicApp.ReadingSession
open EventMachine

def RunsInit : Event → Prop
  | .readChap | .showChap | .didSelectRow _ | .prevChap | .nextChap => True
  | _ => False

instance decidableRunsInit : ∀ e, Decidable (RunsInit e)
  | .readChap | .showChap | .didSelectRow _ | .prevChap | .nextChap => .isTrue trivial
  | .select _ | .viewDidLoad | .tab _ | .listAll _ _ | .back => .isFalse id

/-- `Comic.nchap` is set, and it is the count that was obtained for `Comic.id`. -/
def CountOfOpen (s : State) : Prop :=
  ∃ id n, s.id = some id ∧ s.nchap = some n ∧ s.counts.head? = some (id, n)

/-- Where `Init` runs, the count is that of the open comic. -/
def InitCounted (s : State) (e : Event) : Prop :=
  RunsInit e → step s e ≠ none → CountOfOpen s

def Counted (s : State) : Prop :=
  ∃ last ∈ s.listings.getLast?, s.id = some last.comicID ∧
    (s.isDownloaded = true ∨ last.prefixes ≠ 0)

instance (s : State) : Decidable (Counted s) :=
  inferInstanceAs (Decidable (∃ last ∈ s.listings.getLast?, _))

/-- A listing that brings a folder brings all of them, and arrives while the page opened last is one
of its comic; `Init` runs only once that page has its count. -/
def Timely (s : State) : Event → Prop
  | .listAll u reply => reply.listed ≠ 0 → reply.request = .arrived ∧
    ∀ listing ∈ s.listings[u]?, ∀ last ∈ s.listings.getLast?, listing.comicID = last.comicID
  | .readChap | .showChap | .didSelectRow _ | .prevChap | .nextChap => Counted s
  | _ => True

instance decidableTimely (s : State) : ∀ e, Decidable (Timely s e)
  | .listAll u reply => inferInstanceAs (Decidable (reply.listed ≠ 0 → _ ∧
    ∀ listing ∈ s.listings[u]?, ∀ last ∈ s.listings.getLast?, _))
  | .readChap | .showChap | .didSelectRow _ | .prevChap | .nextChap =>
    inferInstanceAs (Decidable (Counted s))
  | .select _ | .viewDidLoad | .tab _ | .back => .isTrue trivial

/-- `Comic.nchap` is the newest count, and that of the page opened last once it has one. -/
structure Fresh (s : State) : Prop where
  nchap : s.nchap = s.counts.head?.map Prod.snd
  counted : s.running = true → ∀ last ∈ s.listings.getLast?,
    (s.isDownloaded = true ∨ last.prefixes ≠ 0) → ∃ n, s.counts.head? = some (last.comicID, n)

theorem fresh_launch (realm : Realm) : Fresh (launch realm) := ⟨rfl, fun _ _ h => by cases h⟩

theorem Fresh.countOfOpen {s : State} (h : Fresh s) (hr : s.running = true) (hc : Counted s) :
    CountOfOpen s := by
  obtain ⟨last, hlast, hid, hcounted⟩ := hc
  obtain ⟨n, hhead⟩ := h.counted hr last hlast hcounted
  exact ⟨last.comicID, n, hid, by rw [h.nchap, hhead]; rfl, hhead⟩

/-- `Comic.id` and the screens do not enter. -/
theorem Fresh.congr {s s' : State} (h : Fresh s) (hr : s'.running = true → s.running = true)
    (hd : s'.isDownloaded = s.isDownloaded) (hn : s'.nchap = s.nchap)
    (hl : s'.listings = s.listings) (hc : s'.counts = s.counts) : Fresh s' where
  nchap := by rw [hn, hc, h.nchap]
  counted hr' := by
    rw [hl, hd, hc]
    exact h.counted (hr hr')

theorem Fresh.setChap {s : State} (h : Fresh s) (chap : Option ℤ) : Fresh { s with chap := chap } :=
  h.congr id rfl rfl rfl rfl

theorem Fresh.trap {s : State} (h : Fresh s) : Fresh s.trap :=
  h.congr nofun rfl rfl rfl rfl

/-- The reader changes neither the comic nor its count. -/
theorem Fresh.chapterViewDidLoad {s : State} (h : Fresh s) (under : List Screen) :
    Fresh (s.chapterViewDidLoad under) := by
  unfold State.chapterViewDidLoad
  split
  · dsimp only
    split_ifs
    · split
      · exact h.congr nofun rfl rfl rfl rfl
      · exact h.congr id rfl rfl rfl rfl
    · exact h.congr id rfl rfl rfl rfl
  · exact h.trap

/-- A page that has just been opened is counted only by the record of its comic. -/
theorem Fresh.onViewDidLoad {s : State} (h : Fresh s) : Fresh s.onViewDidLoad := by
  cases hid : s.id with
  | none =>
    have hstop : s.onViewDidLoad.running = false := by
      simp [State.onViewDidLoad, State.loadComicFromRealm, State.upLoad, State.trap, hid]
    refine ⟨?_, fun hr => by rw [hstop] at hr; cases hr⟩
    simpa [State.onViewDidLoad, State.loadComicFromRealm, State.upLoad, State.trap, hid] using h.nchap
  | some id =>
    cases hf : s.realm.first id with
    | some comic =>
      rw [onViewDidLoad_of_first hid hf]
      refine ⟨rfl, fun _ last hlast _ => ?_⟩
      obtain rfl := Option.some.inj (List.getLast?_concat.symm.trans hlast)
      exact ⟨comic.comicNChap, rfl⟩
    | none =>
      rw [onViewDidLoad_of_none hid hf]
      refine ⟨h.nchap, fun _ last hlast hcounted => ?_⟩
      obtain rfl := Option.some.inj (List.getLast?_concat.symm.trans hlast)
      rcases hcounted with hd | hne
      · cases hd
      · exact absurd rfl hne

/-- With request `u` answered the page opened last is of the comic it was of. -/
theorem getLast?_answer {l : List Listing} {u : ℕ} {listing last : Listing}
    (hu : l[u]? = some listing) (request : Request) (prefixes : ℕ)
    (hlast : (l.set u { listing with request := request, prefixes := prefixes }).getLast? =
      some last) :
    ∃ last₀, l.getLast? = some last₀ ∧ last.comicID = last₀.comicID ∧
      (last = last₀ ∨ last.prefixes = prefixes) := by
  rw [List.getLast?_eq_getElem?, List.length_set] at hlast
  rw [List.getLast?_eq_getElem?]
  by_cases hlen : u = l.length - 1
  · subst hlen
    rw [List.getElem?_set_self (List.getElem?_eq_some_iff.mp hu).1] at hlast
    obtain rfl := Option.some.inj hlast
    exact ⟨listing, hu, rfl, .inr rfl⟩
  · rw [List.getElem?_set_ne hlen] at hlast
    exact ⟨last, hlast, rfl, .inl rfl⟩

theorem Fresh.onListAll {s : State} (h : Fresh s) {u : ℕ} {listing : Listing}
    (hu : s.listings[u]? = some listing) (reply : ListAllReply ℕ)
    (hC : Timely s (.listAll u reply)) : Fresh (s.onListAll u listing reply) := by
  by_cases hzero : reply.listed = 0
  · rw [onListAll_of_zero hzero]
    refine ⟨h.nchap, fun hr last hlast hcounted => ?_⟩
    obtain ⟨last₀, hlast₀, hid, hsame⟩ := getLast?_answer hu reply.request reply.listed hlast
    have hcounted₀ : s.isDownloaded = true ∨ last₀.prefixes ≠ 0 := by
      refine hcounted.imp_right fun hne => ?_
      rcases hsame with rfl | hprefixes
      · exact hne
      · exact absurd (hprefixes.trans hzero) hne
    obtain ⟨n, hhead⟩ := h.counted hr last₀ hlast₀ hcounted₀
    exact ⟨n, by rw [hid]; exact hhead⟩
  · obtain ⟨harrived, hsame⟩ := hC hzero
    rw [ListAllReply.eq_success harrived, onListAll_of_success hzero]
    refine ⟨rfl, fun _ last hlast _ => ⟨reply.listed, ?_⟩⟩
    obtain ⟨last₀, hlast₀, hid, -⟩ := getLast?_answer hu .arrived reply.listed hlast
    rw [hid, ← hsame listing hu last₀ hlast₀]
    rfl

theorem Fresh.step {s s' : State} {e : Event} (h : Fresh s) (hC : Timely s e)
    (hs : ReadingSession.step s e = some s') : Fresh s' := by
  cases Transition.of_step hs with
  | select id => exact h.congr (fun hr => hr) rfl rfl rfl rfl
  | viewDidLoad => exact h.onViewDidLoad
  | tab k screens hk => exact h.congr id rfl rfl rfl rfl
  | listAll u reply listing hu hw => exact h.onListAll hu reply hC
  | readChap => exact (h.setChap _).chapterViewDidLoad _
  | showChap =>
    unfold State.onShowChap
    split
    · exact h.trap
    · exact h.congr id rfl rfl rfl rfl
  | didSelectRow =>
    unfold State.onSelectRow
    split
    · exact h.trap
    · exact (h.setChap _).chapterViewDidLoad _
  | prevChap | nextChap =>
    unfold State.onTurn
    split
    · exact h.trap
    · exact (h.setChap _).chapterViewDidLoad _
  | back => exact h.congr id rfl rfl rfl rfl

theorem running_of_step {s : State} {e : Event} (h : step s e ≠ none) : s.running = true := by
  by_contra hr
  apply h
  unfold step
  exact if_neg hr

/-- Along runs in which listings arrive whole and for the comic of the page opened last, and no screen
is entered before that page is counted or while `Comic.id` is another comic, every `Init` finds the
count of the open comic. -/
theorem init_counted (realm : Realm) (es : List Event)
    (hC : Along step Timely (launch realm) es) : Along step InitCounted (launch realm) es := by
  refine along_of_invariant step (fun _ _ _ => Fresh.step) (fun s e h hc hinit hs => ?_)
    (fresh_launch realm) hC
  apply h.countOfOpen (running_of_step hs)
  cases e with
  | select | viewDidLoad | tab | listAll | back => exact hinit.elim
  | _ => exact hc

def openedTwoComics : List Event :=
  [.select (some "a"), .viewDidLoad, .listAll 0 (.success 3), .showChap, .didSelectRow 1, .prevChap,
    .back, .back, .back, .select (some "b"), .viewDidLoad, .listAll 1 (.success 2), .readChap]

theorem init_counted_two : Along step InitCounted (launch []) openedTwoComics :=
  init_counted [] openedTwoComics (by decide +kernel)

def listingFails : List Event :=
  [.select (some "a"), .viewDidLoad, .listAll 0 (.success 3), .back, .select (some "b"), .viewDidLoad,
    .listAll 1 (.error 0)]

def afterFailure : State := (run step (launch []) listingFails).get (by decide +kernel)

theorem not_init_counted : ¬ ∀ (realm : Realm) (es : List Event),
    Along step InitCounted (launch realm) es := by
  intro h
  have hinit : InitCounted afterFailure .readChap :=
    ((along_concat step).mp (h [] (listingFails ++ [.readChap]))).2 afterFailure
      (Option.some_get _).symm
  obtain ⟨id, n, hid, -, hhead⟩ := hinit trivial (by decide +kernel)
  have hcount : afterFailure.counts.head? = some ("a", 3) := by decide +kernel
  have hopen : afterFailure.id = some "b" := by decide +kernel
  rw [hcount] at hhead
  rw [hopen] at hid
  obtain ⟨rfl, -⟩ := Prod.mk.inj (Option.some.inj hhead)
  exact absurd hid (by decide)

end ComicApp.ReadingSession
