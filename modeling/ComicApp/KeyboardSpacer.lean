import ComicApp.BinaryDigits
import Mathlib.Data.List.Induction
import Mathlib.Data.Rat.Floor
import Mathlib.Tactic.Linarith

/-!
# The spacer above the keyboard

An info page keeps its comment field above the keyboard with a stack of views `staFixKeyboard` whose
heights are powers of two: `setHeightFixKey` shows those that make up the keyboard's height. It is
called with the height when the keyboard appears and with `0` when the field is left by return.
-/

namespace ComicApp
open BinaryDigits

/-- A view of `staFixKeyboard`: the constant of its height constraint, and whether it is hidden. -/
structure SpacerView where
  height : ℕ
  isHidden : Bool
  deriving DecidableEq, Repr

structure KeyboardPage where
  staFixKeyboard : List SpacerView
  keyboardHeight : ℤ
  contentInsetBottom : ℚ
  verticalScrollIndicatorInsetsBottom : ℚ

namespace KeyboardPage

/-- The loop of `setHeightFixKey` over the views; `height` is the variable that it overwrites. -/
def setHeightFixKey : ℤ → List SpacerView → List SpacerView
  | _, [] => []
  | height, binaryHeight :: subviews =>
    if height.tmod 2 = 1 then
      { binaryHeight with isHidden := false } :: setHeightFixKey ((height - 1).tdiv 2) subviews
    else { binaryHeight with isHidden := true } :: setHeightFixKey (height.tdiv 2) subviews

def visibleHeight (subviews : List SpacerView) : ℕ :=
  ((subviews.filter fun view => !view.isHidden).map SpacerView.height).sum

/-- The views as the storyboard lays them out: the first is one point high, each of the others twice
as high as the one before it. -/
def Binary (subviews : List SpacerView) : Prop :=
  subviews.map SpacerView.height = doubling subviews.length 1

instance (subviews : List SpacerView) : Decidable (Binary subviews) :=
  inferInstanceAs (Decidable (_ = _))

inductive Event where
  | keyboardWillShow (height : ℚ)
  | textFieldShouldReturn
  deriving DecidableEq, Repr

/-- The argument of the call of `setHeightFixKey`. `Int(_:)` drops the fraction of a `CGFloat`. -/
def Event.requested : Event → ℤ
  | .keyboardWillShow height => height.num.tdiv height.den
  | .textFieldShouldReturn => 0

def step (page : KeyboardPage) : Event → KeyboardPage
  | .keyboardWillShow height =>
    { keyboardHeight := (Event.keyboardWillShow height).requested
      contentInsetBottom := height
      verticalScrollIndicatorInsetsBottom := height
      staFixKeyboard :=
        setHeightFixKey (Event.keyboardWillShow height).requested page.staFixKeyboard }
  | .textFieldShouldReturn =>
    { page with staFixKeyboard := setHeightFixKey 0 page.staFixKeyboard }

/-- A view is shown exactly when its digit of the height is on, whatever it was before. -/
theorem setHeightFixKey_eq (height : ℕ) (subviews : List SpacerView) :
    setHeightFixKey height subviews =
      List.zipWith (fun view digit => { view with isHidden := !digit }) subviews
        (lowBits subviews.length height) := by
  induction subviews generalizing height with
  | nil => rfl
  | cons view subviews ih =>
    have hmod : ((height : ℤ).tmod 2 = 1) ↔ height % 2 = 1 := by
      rw [Int.tmod_eq_emod_of_nonneg (Int.natCast_nonneg height)]
      omega
    rw [setHeightFixKey, List.length_cons, lowBits, List.zipWith_cons_cons]
    split_ifs with h
    · have hodd : height % 2 = 1 := hmod.mp h
      have hhalf : ((height : ℤ) - 1).tdiv 2 = (height / 2 : ℕ) := by
        rw [Int.tdiv_eq_ediv_of_nonneg (by omega)]
        omega
      rw [hhalf, ih, decide_eq_true hodd]
      rfl
    · have heven : ¬ height % 2 = 1 := fun hodd => h (hmod.mpr hodd)
      have hhalf : (height : ℤ).tdiv 2 = (height / 2 : ℕ) := by
        rw [Int.tdiv_eq_ediv_of_nonneg (Int.natCast_nonneg height)]
        omega
      rw [hhalf, ih, decide_eq_false heven]
      rfl

@[simp] theorem heights_setHeightFixKey (height : ℤ) (subviews : List SpacerView) :
    (setHeightFixKey height subviews).map SpacerView.height = subviews.map SpacerView.height := by
  induction subviews generalizing height with
  | nil => rfl
  | cons view subviews ih =>
    rw [setHeightFixKey]
    split_ifs <;> rw [List.map_cons, List.map_cons, ih]

@[simp] theorem length_setHeightFixKey (height : ℤ) (subviews : List SpacerView) :
    (setHeightFixKey height subviews).length = subviews.length := by
  rw [← List.length_map SpacerView.height, heights_setHeightFixKey, List.length_map]

theorem Binary.setHeightFixKey {subviews : List SpacerView} (hb : Binary subviews) (height : ℤ) :
    Binary (setHeightFixKey height subviews) := by
  rw [Binary, heights_setHeightFixKey, length_setHeightFixKey]
  exact hb

theorem visibleHeight_zipWith (subviews : List SpacerView) (digits : List Bool) :
    visibleHeight (List.zipWith (fun view digit => { view with isHidden := !digit }) subviews digits) =
      total (subviews.map SpacerView.height) digits := by
  induction subviews generalizing digits with
  | nil => rfl
  | cons view subviews ih =>
    cases digits with
    | nil => rfl
    | cons digit digits =>
      have htail := ih digits
      rw [visibleHeight, total] at htail ⊢
      cases digit
      · simpa using htail
      · simpa using htail

theorem visibleHeight_setHeightFixKey {subviews : List SpacerView} (hb : Binary subviews)
    (height : ℕ) :
    visibleHeight (setHeightFixKey height subviews) = height % 2 ^ subviews.length := by
  rw [setHeightFixKey_eq, visibleHeight_zipWith, hb, total_lowBits, one_mul]

theorem isHidden_setHeightFixKey_zero {subviews : List SpacerView} {view : SpacerView}
    (hm : view ∈ setHeightFixKey 0 subviews) : view.isHidden = true := by
  induction subviews with
  | nil => cases hm
  | cons first subviews ih =>
    rcases List.mem_cons.mp hm with rfl | hm
    · rfl
    · exact ih hm

/-- For any number of spacer views with the heights `1, 2, 4, …`, visible or not before, the views
that `setHeightFixKey` leaves visible are together as high as the height asked for, modulo
`2 ^ k`: exactly that high if it is below `2 ^ k`, and all are hidden if it is zero. -/
theorem spacer_height (k : ℕ) (subviews : List SpacerView)
    (hheights : subviews.map SpacerView.height = (List.range k).map fun i => 2 ^ i) (height : ℕ) :
    visibleHeight (setHeightFixKey height subviews) = height % 2 ^ k ∧
      (height < 2 ^ k → visibleHeight (setHeightFixKey height subviews) = height) ∧
      (height = 0 → ∀ view ∈ setHeightFixKey height subviews, view.isHidden = true) := by
  have hk : subviews.length = k := by
    have hlength := congrArg List.length hheights
    rwa [List.length_map, List.length_map, List.length_range] at hlength
  have hb : Binary subviews := by
    rw [Binary, hk, hheights, doubling_eq_map]
    simp only [one_mul]
  have hsum := visibleHeight_setHeightFixKey hb height
  rw [hk] at hsum
  refine ⟨hsum, fun hlt => ?_, ?_⟩
  · rw [hsum, Nat.mod_eq_of_lt hlt]
  · rintro rfl view hm
    exact isHidden_setHeightFixKey_zero hm

def storyboardSpacer : List SpacerView :=
  [⟨1, true⟩, ⟨2, true⟩, ⟨4, true⟩, ⟨8, true⟩, ⟨16, true⟩, ⟨32, true⟩, ⟨64, true⟩, ⟨128, true⟩,
    ⟨256, true⟩, ⟨512, true⟩, ⟨1024, true⟩]

theorem spacer_height_storyboard :
    visibleHeight (setHeightFixKey (346 : ℕ) storyboardSpacer) = 346 % 2 ^ 11 ∧
      (346 < 2 ^ 11 → visibleHeight (setHeightFixKey (346 : ℕ) storyboardSpacer) = 346) ∧
      (346 = 0 → ∀ view ∈ setHeightFixKey (346 : ℕ) storyboardSpacer, view.isHidden = true) :=
  spacer_height 11 storyboardSpacer (by decide) 346

section run
variable {page : KeyboardPage}

theorem step_staFixKeyboard (page : KeyboardPage) (e : Event) :
    (page.step e).staFixKeyboard = setHeightFixKey e.requested page.staFixKeyboard := by
  cases e <;> rfl

theorem Event.requested_eq_floor {height : ℚ} (h : 0 ≤ height) :
    (Event.keyboardWillShow height).requested = ⌊height⌋ := by
  rw [Rat.floor_def']
  exact Int.tdiv_eq_ediv_of_nonneg (Rat.num_nonneg.mpr h)

/-- No event adds or removes a view or changes a height. -/
theorem binary_of_run (hb : Binary page.staFixKeyboard) (es : List Event) :
    Binary (es.foldl step page).staFixKeyboard ∧
      (es.foldl step page).staFixKeyboard.length = page.staFixKeyboard.length := by
  induction es using List.reverseRecOn with
  | nil => exact ⟨hb, rfl⟩
  | append_singleton es e ih =>
    rw [List.foldl_append, List.foldl_cons, List.foldl_nil, step_staFixKeyboard,
      length_setHeightFixKey]
    exact ⟨ih.1.setHeightFixKey e.requested, ih.2⟩

/-- After any run of appearances of the keyboard and returns the spacer has the height that the last
of them asked for, modulo `2 ^ k`. -/
theorem visibleHeight_of_run (hb : Binary page.staFixKeyboard) (es : List Event) {e : Event}
    {height : ℕ} (he : e.requested = height) :
    visibleHeight ((es ++ [e]).foldl step page).staFixKeyboard =
      height % 2 ^ page.staFixKeyboard.length := by
  obtain ⟨hbinary, hlength⟩ := binary_of_run hb es
  rw [List.foldl_append, List.foldl_cons, List.foldl_nil, step_staFixKeyboard, he,
    visibleHeight_setHeightFixKey hbinary, hlength]

/-- A keyboard lower than `2 ^ k` gets a spacer of its height up to the fraction of a point. -/
theorem visibleHeight_of_keyboardWillShow (hb : Binary page.staFixKeyboard) (es : List Event)
    {height : ℚ} (h : 0 ≤ height) (hlt : height < 2 ^ page.staFixKeyboard.length) :
    visibleHeight ((es ++ [Event.keyboardWillShow height]).foldl step page).staFixKeyboard =
      ⌊height⌋ := by
  obtain ⟨n, hn⟩ := Int.eq_ofNat_of_zero_le (Int.floor_nonneg.mpr h)
  have hbelow : n < 2 ^ page.staFixKeyboard.length := by
    have hle : ((n : ℤ) : ℚ) ≤ height := hn ▸ Int.floor_le height
    exact_mod_cast lt_of_le_of_lt hle hlt
  rw [visibleHeight_of_run hb es ((Event.requested_eq_floor h).trans hn), hn,
    Nat.mod_eq_of_lt hbelow]

end run

end KeyboardPage

end ComicApp
