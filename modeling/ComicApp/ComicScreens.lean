import ComicApp.EventMachine

/-!
# Screens over one `Comic.id`

The tabs of the app and the screens pushed over their roots. All screens share `Comic.id`: the grid
and the shelf set it when an item is tapped, and the review list sets it in the reply to the request
of a tapped row, when another screen may be in front. An info page is loaded with the `Comic.id` of
the moment its view is first needed, and its buttons work on the `Comic.id` of the moment they are
used.
-/

namespace ComicApp.ComicScreens
open EventMachine

inductive Tab where
  | shelf
  | grid
  | review
  | account
  deriving DecidableEq, Repr

/-- A screen over the root of its tab: search results, an info page with the comic that its
`viewDidLoad` loaded, or a list of chapters or a chapter. -/
inductive Screen where
  | comics
  | info (loaded : Option String)
  | chapters
  deriving DecidableEq, Repr

inductive Use where
  | Like
  | Download
  | sendComment
  | readChap
  deriving DecidableEq, Repr

inductive RowReply where
  | error
  | missing
  | found (comicID : Option String)
  deriving DecidableEq, Repr

/-- `stack` has the front screen of a tab first, `rows` holds the requests of the rows tapped in the
review list, and `used` holds the page's comic and `Comic.id` for each use of a button. -/
structure State where
  id : Option String
  selected : Tab
  stack : Tab → List Screen
  rows : List Bool
  used : List (Use × String × Option String)
  running : Bool

inductive Event where
  | tab (t : Tab)
  | back
  | search
  | select (id : Option String)
  | didSelectRowAt
  | document (k : ℕ) (reply : RowReply)
  | viewDidLoad (p : ℕ)
  | showChap
  | use (a : Use)
  deriving DecidableEq, Repr

def launch : State where
  id := none
  selected := .grid
  stack _ := []
  rows := []
  used := []
  running := true

namespace State

def trap (s : State) : State := { s with running := false }

def setStack (s : State) (t : Tab) (screens : List Screen) : State :=
  { s with stack := Function.update s.stack t screens }

def push (s : State) (t : Tab) (screen : Screen) : State := s.setStack t (screen :: s.stack t)

def front (s : State) : Option Screen := (s.stack s.selected).head?

def shown (s : State) : Option String :=
  match s.front with
  | some (.info loaded) => loaded
  | _ => none

/-- `InfoViewController.viewDidLoad` of a page whose view is needed for the first time; `upLoad`
unwraps `Comic.id`. -/
def load (s : State) (t : Tab) (p : ℕ) : State :=
  match s.id with
  | none => s.trap
  | some id => s.setStack t ((s.stack t).set p (.info (some id)))

def appear (s : State) : State :=
  if s.front = some (.info none) then s.load s.selected 0 else s

def onSelect (s : State) (id : Option String) : State :=
  ({ s with id := id }.push s.selected (.info none)).appear

/-- The document of a tapped review row arrives, in whatever tab the user is by now. -/
def onDocument (s : State) (k : ℕ) (reply : RowReply) : State :=
  let s := { s with rows := s.rows.set k false }
  match reply with
  | .error => s
  | .missing => s.trap
  | .found comicID => ({ s with id := comicID }.push .review (.info none)).appear

def onUse (s : State) (a : Use) (comic : String) : State :=
  let s := { s with used := s.used ++ [(a, comic, s.id)] }
  if a = .readChap then s.push s.selected .chapters else s

def choosing (s : State) : Bool := s.front = none || s.front = some .comics

def next (s : State) : Event → Option State
  | .tab t =>
    -- an info page hides the tab bar until it is popped
    if ∀ screen ∈ s.stack s.selected, screen = .comics then some { s with selected := t }.appear
    else none
  | .back =>
    match s.stack s.selected with
    | [] => none
    | _ :: screens => some (s.setStack s.selected screens).appear
  | .search => if s.selected = .grid ∧ s.choosing then some (s.push .grid .comics) else none
  | .select id =>
    if (s.selected = .shelf ∨ s.selected = .grid) ∧ s.choosing then some (s.onSelect id) else none
  | .didSelectRowAt =>
    if s.selected = .review ∧ s.front = none then some { s with rows := s.rows ++ [true] } else none
  | .document k reply => if s.rows[k]? = some true then some (s.onDocument k reply) else none
  | .viewDidLoad p =>
    if (s.stack .review)[p]? = some (.info none) then some (s.load .review p) else none
  | .showChap => s.shown.map fun _ => s.push s.selected .chapters
  | .use a => s.shown.map (s.onUse a)

end State

def step (s : State) (e : Event) : Option State := if s.running then s.next e else none

/-- The info page in front was loaded with `Comic.id`. -/
def Matches (s : State) : Prop := ∀ comic ∈ s.shown, s.id = some comic

/-- What can be done to a comic now, and all that was done so far, is done to the comic of the page it
is done on. -/
structure OnScreen (s : State) : Prop where
  shown : Matches s
  used : ∀ u ∈ s.used, u.2.2 = some u.2.1

/-- A screen that comes back to the front, and an info page in front of which the review list changes
`Comic.id`, are of the comic that `Comic.id` then is. -/
def Revealed (s : State) : Event → Prop
  | .back => ∀ comic, (s.stack s.selected)[1]? = some (.info (some comic)) → s.id = some comic
  | .tab t => ∀ comic, (s.stack t).head? = some (.info (some comic)) → s.id = some comic
  | .document _ (.found comicID) => s.selected ≠ .review → ∀ comic ∈ s.shown, comicID = some comic
  | _ => True

namespace State
variable (s : State)

theorem front_setStack (screens : List Screen) :
    (s.setStack s.selected screens).front = screens.head? := by
  simp [front, setStack]

theorem front_setStack_of_ne {t : Tab} (screens : List Screen) (ht : t ≠ s.selected) :
    (s.setStack t screens).front = s.front := by
  simp [front, setStack, Function.update_of_ne (Ne.symm ht)]

theorem shown_of_front {s t : State} (h : t.front = s.front) : t.shown = s.shown := by
  rw [shown, shown, h]

theorem shown_eq_some {s : State} {comic : String} :
    s.shown = some comic ↔ s.front = some (.info (some comic)) := by
  unfold shown
  constructor
  · intro h
    split at h
    · rename_i loaded hfront
      rw [hfront, h]
    · cases h
  · intro h
    rw [h]

/-- A page that is loaded was loaded with `Comic.id`, and the other pages stay as they are. -/
theorem matches_load {s : State} (h : Matches s) (t : Tab) (p : ℕ) : Matches (s.load t p) := by
  unfold State.load
  cases hid : s.id with
  | none => exact h
  | some id =>
    intro comic hcomic
    have hfront := shown_eq_some.mp hcomic
    by_cases ht : t = s.selected
    · subst ht
      rw [front_setStack] at hfront
      cases hstack : s.stack s.selected with
      | nil => simp [hstack] at hfront
      | cons screen screens =>
        rw [hstack] at hfront
        cases p with
        | zero =>
          simp only [List.set_cons_zero, List.head?_cons, Option.some.injEq, Screen.info.injEq]
            at hfront
          exact hid.trans (congrArg some hfront)
        | succ p =>
          have hbefore : s.front = some (.info (some comic)) := by
            rw [front, hstack]
            exact hfront
          exact h comic (shown_eq_some.mpr hbefore)
    · rw [front_setStack_of_ne s _ ht] at hfront
      exact h comic (shown_eq_some.mpr hfront)

/-- The front screen matches `Comic.id` when it has appeared exactly when it did before. -/
theorem matches_appear : Matches s.appear ↔ Matches s := by
  unfold appear
  split_ifs with hfront
  · have hnone : s.shown = none := by rw [shown, hfront]
    constructor
    · intro _ comic hcomic
      rw [hnone] at hcomic
      cases hcomic
    · exact fun h => matches_load h s.selected 0
  · exact Iff.rfl

theorem load_used (t : Tab) (p : ℕ) : (s.load t p).used = s.used := by
  unfold load
  split <;> rfl

theorem appear_used : s.appear.used = s.used := by
  unfold appear
  split_ifs
  · exact load_used s s.selected 0
  · rfl

theorem matches_iff : Matches s ↔
    ∀ comic, s.front = some (.info (some comic)) → s.id = some comic :=
  forall_congr' fun _ => imp_congr_left shown_eq_some

/-- A page that is not loaded yet matches anything. -/
theorem matches_of_front {s : State} (h : s.front = some (.info none)) : Matches s := by
  rw [matches_iff, h]
  rintro comic ⟨⟩

theorem onScreen_appear (hused : ∀ u ∈ s.used, u.2.2 = some u.2.1) :
    OnScreen s.appear ↔ Matches s := by
  rw [← matches_appear]
  exact ⟨OnScreen.shown, fun h => ⟨h, by rw [appear_used]; exact hused⟩⟩

end State

open State in
/-- An event leaves the buttons on the comic of their page exactly when what it reveals is of the
comic that `Comic.id` is. -/
theorem OnScreen.step_iff {s t : State} {e : Event} (h : OnScreen s) (hs : step s e = some t) :
    OnScreen t ↔ Revealed s e := by
  unfold step at hs
  split_ifs at hs
  cases e with
  | tab tab =>
    simp only [next] at hs
    split_ifs at hs
    obtain rfl := Option.some.inj hs
    refine (onScreen_appear _ (by exact h.used)).trans ?_
    rw [matches_iff]
    exact Iff.rfl
  | back =>
    simp only [next] at hs
    split at hs
    · cases hs
    · rename_i screen screens hstack
      obtain rfl := Option.some.inj hs
      refine (onScreen_appear _ (by exact h.used)).trans ?_
      rw [matches_iff, front_setStack]
      simp only [Revealed, hstack, List.getElem?_cons_succ, List.head?_eq_getElem?]
      exact Iff.rfl
  | search =>
    simp only [next] at hs
    split_ifs at hs with hgrid
    obtain rfl := Option.some.inj hs
    refine iff_of_true ⟨?_, h.used⟩ trivial
    rw [matches_iff, push, ← hgrid.1, front_setStack]
    rintro comic ⟨⟩
  | select id =>
    simp only [next] at hs
    split_ifs at hs
    obtain rfl := Option.some.inj hs
    refine iff_of_true ((onScreen_appear _ (by exact h.used)).mpr ?_) trivial
    exact matches_of_front (front_setStack { s with id := id } _)
  | didSelectRowAt =>
    simp only [next] at hs
    split_ifs at hs
    obtain rfl := Option.some.inj hs
    exact iff_of_true ⟨h.shown, h.used⟩ trivial
  | document k reply =>
    simp only [next] at hs
    split_ifs at hs
    obtain rfl := Option.some.inj hs
    cases reply with
    | error => exact iff_of_true ⟨h.shown, h.used⟩ trivial
    | missing => exact iff_of_true ⟨h.shown, h.used⟩ trivial
    | found comicID =>
      refine (onScreen_appear _ (by exact h.used)).trans ?_
      by_cases hselected : s.selected = .review
      · refine iff_of_true (matches_of_front ?_) fun hne => absurd hselected hne
        rw [push, ← hselected]
        exact front_setStack { s with rows := s.rows.set k false, id := comicID } _
      · have hfront : ({ s with rows := s.rows.set k false, id := comicID }.push .review
            (.info none)).shown = s.shown :=
          shown_of_front (front_setStack_of_ne _ _ (Ne.symm hselected))
        rw [Matches, hfront]
        exact ⟨fun hm _ => hm, fun hm => hm hselected⟩
  | viewDidLoad p =>
    simp only [next] at hs
    split_ifs at hs
    obtain rfl := Option.some.inj hs
    exact iff_of_true ⟨matches_load h.shown .review p, by rw [load_used]; exact h.used⟩ trivial
  | showChap =>
    obtain ⟨comic, -, rfl⟩ := Option.map_eq_some_iff.mp hs
    refine iff_of_true ⟨?_, h.used⟩ trivial
    rw [matches_iff, push, front_setStack]
    rintro comic ⟨⟩
  | use a =>
    obtain ⟨comic, hcomic, rfl⟩ := Option.map_eq_some_iff.mp hs
    have hused : ∀ u ∈ s.used ++ [(a, comic, s.id)], u.2.2 = some u.2.1 := by
      intro u hu
      rcases List.mem_append.mp hu with hu | hu
      · exact h.used u hu
      · rw [List.mem_singleton.mp hu]
        exact h.shown comic hcomic
    refine iff_of_true ?_ trivial
    unfold onUse
    dsimp only
    split_ifs
    · refine ⟨?_, hused⟩
      rw [matches_iff, push]
      rintro comic' hfront
      cases (front_setStack { s with used := s.used ++ [(a, comic, s.id)] } _).symm.trans hfront
    · exact ⟨h.shown, hused⟩

/-- Throughout a run the buttons work on the comic of the page in front exactly when every event
reveals a screen of the comic that `Comic.id` then is. -/
theorem onScreen_iff (es : List Event) (s : State) (hrun : run step launch es = some s) :
    Throughout step OnScreen launch es ↔ Along step Revealed launch es :=
  throughout_iff_along_of_step_iff step (I := fun _ => True) (fun _ _ _ _ _ => trivial)
    (fun _ _ _ _ h hs => h.step_iff hs) trivial ⟨nofun, nofun⟩ hrun

def tappedTwice : List Event :=
  [.tab .review, .didSelectRowAt, .didSelectRowAt, .document 0 (.found (some "a")),
    .document 1 (.found (some "b")), .back, .use .Like]

def afterTappedTwice : State := (run step launch tappedTwice).get (by decide +kernel)

theorem onScreen_iff_tappedTwice :
    Throughout step OnScreen launch tappedTwice ↔ Along step Revealed launch tappedTwice :=
  onScreen_iff tappedTwice afterTappedTwice (Option.some_get _).symm

theorem not_onScreen :
    ¬ ∀ (es : List Event) (s : State), run step launch es = some s →
      ∀ u ∈ s.used, u.2.2 = some u.2.1 := by
  intro h
  have hused : (Use.Like, "a", some "b") ∈ afterTappedTwice.used := by decide +kernel
  exact absurd (h tappedTwice afterTappedTwice (Option.some_get _).symm _ hused) (by decide)

end ComicApp.ComicScreens
