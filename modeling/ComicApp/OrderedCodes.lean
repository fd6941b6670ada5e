import Mathlib.Data.List.Lex
import Mathlib.Order.WithBot

/-!
# Codes that keep an order

Words that differ at a place, so that whatever follows them does not change which one is the smaller,
and codes whose words differ in this way, in the order of what they stand for. Such a code keeps the
lexicographic order of lists, its words can be told apart from any longer word, and codes of parts make
codes of lists with an end.
-/

namespace ComicApp.OrderedCodes
variable {α β γ : Type*}

inductive Apart [LT β] : List β → List β → Prop where
  | head {b b' : β} (w w' : List β) (h : b < b') : Apart (b :: w) (b' :: w')
  | cons (b : β) {w w' : List β} (h : Apart w w') : Apart (b :: w) (b :: w')

namespace Apart

section
variable [LT β] {w w' : List β}

theorem append (h : Apart w w') (r r' : List β) : Apart (w ++ r) (w' ++ r') := by
  induction h with
  | head w w' h => exact head (w ++ r) (w' ++ r') h
  | cons b h ih => exact cons b ih

theorem prepend (p : List β) (h : Apart w w') : Apart (p ++ w) (p ++ w') := by
  induction p with
  | nil => exact h
  | cons b p ih => exact cons b ih

end

section
variable [Preorder β] {w w' : List β}

theorem not_starts (h : Apart w w') : ¬ w <+: w' := by
  induction h with
  | head w w' h => exact fun hw => h.ne (List.cons_prefix_cons.mp hw).1
  | cons b h ih => exact fun hw => ih (List.cons_prefix_cons.mp hw).2

theorem not_starts_symm (h : Apart w w') : ¬ w' <+: w := by
  induction h with
  | head w w' h => exact fun hw => h.ne (List.cons_prefix_cons.mp hw).1.symm
  | cons b h ih => exact fun hw => ih (List.cons_prefix_cons.mp hw).2

end

section
variable [LinearOrder β] {w w' : List β}

theorem lt (h : Apart w w') : w < w' := by
  induction h with
  | head w w' h => exact List.Lex.rel h
  | cons b h ih => exact List.Lex.cons ih

end

end Apart

/-- A smaller word is apart from the larger one, or the larger one goes on where it ends. -/
theorem apart_or_prefix [LinearOrder β] {w w' : List β} (h : w < w') : Apart w w' ∨ w <+: w' := by
  replace h : List.Lex (· < ·) w w' := h
  induction h with
  | nil => exact .inr (List.nil_prefix)
  | cons h ih =>
    rcases ih with ih | ih
    · exact .inl (ih.cons _)
    · exact .inr (List.cons_prefix_cons.mpr ⟨rfl, ih⟩)
  | rel h => exact .inl (.head _ _ h)

theorem lt_of_prefix [LinearOrder β] {w w' : List β} (h : w <+: w') (hne : w ≠ w') : w < w' := by
  obtain ⟨r, rfl⟩ := h
  cases r with
  | nil => exact absurd (List.append_nil w).symm hne
  | cons b r =>
    have hlt : List.Lex (· < ·) (w ++ []) (w ++ b :: r) := List.Lex.append_left _ List.Lex.nil w
    rwa [List.append_nil] at hlt

/-- The code words are not empty and apart from each other in the order of what they stand for. -/
structure Separating [LT α] [LT β] (c : α → List β) : Prop where
  ne_nil : ∀ a, c a ≠ []
  apart : ∀ {a a'}, a < a' → Apart (c a) (c a')

namespace Separating

section
variable [Preorder α] [LT β] {c : α → List β}

theorem comp [Preorder γ] (h : Separating c) {f : γ → α} (hf : StrictMono f) : Separating (c ∘ f) where
  ne_nil a := h.ne_nil (f a)
  apart hlt := h.apart (hf hlt)

theorem flatMap_apart (h : Separating c) {l l' : List α} (hl : Apart l l') :
    Apart (l.flatMap c) (l'.flatMap c) := by
  induction hl with
  | head l l' hlt => exact (h.apart hlt).append _ _
  | cons a hl ih => exact ih.prepend (c a)

end

section
variable [LinearOrder α] [Preorder β] {c : α → List β} (h : Separating c)
include h

theorem eq_of_prefix {a a' : α} {r r' : List β} (hstart : c a ++ r <+: c a' ++ r') : a = a' := by
  rcases lt_trichotomy a a' with hlt | heq | hlt
  · exact absurd ((List.prefix_append _ r).trans hstart)
      fun hle => ((h.apart hlt).append [] r').not_starts (by rwa [List.append_nil])
  · exact heq
  · exact absurd hstart ((h.apart hlt).append r' r).not_starts_symm

theorem injective : Function.Injective c := by
  intro a a' heq
  have hstart : c a ++ [] <+: c a' ++ [] := heq ▸ List.prefix_rfl
  exact h.eq_of_prefix hstart

theorem flatMap_prefix_iff {l l' : List α} : l.flatMap c <+: l'.flatMap c ↔ l <+: l' := by
  constructor
  · intro hstart
    induction l generalizing l' with
    | nil => exact List.nil_prefix
    | cons a l ih =>
      cases l' with
      | nil =>
        have hnil : (a :: l).flatMap c ≠ [] := List.append_ne_nil_of_left_ne_nil (h.ne_nil a) _
        exact absurd (List.prefix_nil.mp hstart) hnil
      | cons a' l' =>
        rw [List.flatMap_cons, List.flatMap_cons] at hstart
        obtain rfl := h.eq_of_prefix hstart
        exact List.cons_prefix_cons.mpr ⟨rfl, ih ((List.prefix_append_right_inj _).mp hstart)⟩
  · rintro ⟨r, rfl⟩
    rw [List.flatMap_append]
    exact List.prefix_append _ _

theorem flatMap_injective : Function.Injective (List.flatMap c) := by
  intro l l' heq
  have hle : l <+: l' := h.flatMap_prefix_iff.mp (heq ▸ List.prefix_rfl)
  exact hle.eq_of_length_le (h.flatMap_prefix_iff.mp (heq ▸ List.prefix_rfl)).length_le

end

/-- Lists compare as their codes do. -/
theorem flatMap_strictMono [LinearOrder α] [LinearOrder β] {c : α → List β} (h : Separating c) :
    StrictMono (List.flatMap c) := by
  intro l l' hlt
  rcases apart_or_prefix hlt with hapart | hstart
  · exact (h.flatMap_apart hapart).lt
  · have hne : l.flatMap c ≠ l'.flatMap c := fun heq => hlt.ne (h.flatMap_injective heq)
    exact lt_of_prefix (h.flatMap_prefix_iff.mpr hstart) hne

end Separating

def terminated (s : List α) : List (WithBot α) := s.map (↑) ++ [⊥]

theorem apart_terminated [LinearOrder α] {s s' : List α} (h : s < s') :
    Apart (terminated s) (terminated s') := by
  replace h : List.Lex (· < ·) s s' := h
  induction h with
  | nil => exact .head _ _ (WithBot.bot_lt_coe _)
  | cons h ih => exact ih.cons _
  | rel h => exact .head _ _ (WithBot.coe_lt_coe.mpr h)

theorem Separating.terminated [LinearOrder α] [LT β] {c : WithBot α → List β} (h : Separating c) :
    Separating fun s : List α => (OrderedCodes.terminated s).flatMap c where
  ne_nil s := by
    rw [OrderedCodes.terminated, List.flatMap_append, List.flatMap_singleton]
    exact List.append_ne_nil_of_right_ne_nil _ (h.ne_nil ⊥)
  apart hlt := h.flatMap_apart (apart_terminated hlt)

/-- The reader takes exactly the words of the code from the front of its input. -/
def Reads (read : List β → Option (α × List β)) (c : α → List β) : Prop :=
  ∀ w a rest, read w = some (a, rest) ↔ w = c a ++ rest

namespace Reads
variable {read : List β → Option (α × List β)} {c : α → List β}

theorem read_append (h : Reads read c) (a : α) (rest : List β) :
    read (c a ++ rest) = some (a, rest) := (h _ a rest).mpr rfl

theorem injective (h : Reads read c) {a a' : α} {r r' : List β} (heq : c a ++ r = c a' ++ r') :
    a = a' ∧ r = r' := by
  have hread := h.read_append a r
  rw [heq, h.read_append] at hread
  exact ⟨(congrArg Prod.fst (Option.some.inj hread)).symm, (congrArg Prod.snd (Option.some.inj hread)).symm⟩

end Reads

end ComicApp.OrderedCodes
