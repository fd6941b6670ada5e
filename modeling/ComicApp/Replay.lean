import Mathlib.Data.List.Basic
import Mathlib.Data.Option.Basic

/-!
# Writes that are made again

A write replaces a record, removes it, or puts values into some of its cells if it exists. Writes
are composed to one write, and a write leaves nothing of what it did before. So a record that some of
the writes have reached already is brought to the same end by making all of them.
-/

namespace ComicApp.Replay
variable {ι β : Type*}

inductive Write (ι β : Type*) where
  | replace (record : Option (ι → β))
  | put (cells : ι → Option β)

namespace Write

def apply : Write ι β → Option (ι → β) → Option (ι → β)
  | replace record, _ => record
  | put cells, record => record.map fun c i => (cells i).getD (c i)

def andThen : Write ι β → Write ι β → Write ι β
  | _, replace record => replace record
  | replace record, put cells => replace ((put cells).apply record)
  | put first, put second => put fun i => (second i).or (first i)

theorem apply_andThen (v w : Write ι β) (record : Option (ι → β)) :
    (v.andThen w).apply record = w.apply (v.apply record) := by
  cases w with
  | replace record' => cases v <;> rfl
  | put second =>
    cases v with
    | replace record' => rfl
    | put first =>
      cases record with
      | none => rfl
      | some c =>
        refine congrArg some (funext fun i => ?_)
        cases h : second i <;> simp [h]

/-- A write leaves nothing of what it did before some other write. -/
theorem apply_between (v w : Write ι β) (record : Option (ι → β)) :
    w.apply (v.apply (w.apply record)) = w.apply (v.apply record) := by
  cases w with
  | replace record' => rfl
  | put cells =>
    cases v with
    | replace record' => rfl
    | put between =>
      cases record with
      | none => rfl
      | some c =>
        refine congrArg some (funext fun i => ?_)
        cases h : cells i <;> simp [h]

/-- A write that makes a record out of nothing makes the same out of every record. -/
theorem apply_eq_of_none {w : Write ι β} (h : w.apply none ≠ none) (record : Option (ι → β)) :
    w.apply record = w.apply none := by
  cases w with
  | replace record' => rfl
  | put cells => exact absurd rfl h

end Write

def replay (ws : List (Write ι β)) (record : Option (ι → β)) : Option (ι → β) :=
  ws.foldl (fun record w => w.apply record) record

def compose (ws : List (Write ι β)) : Write ι β :=
  ws.foldl Write.andThen (.put fun _ => none)

theorem apply_compose (ws : List (Write ι β)) (record : Option (ι → β)) :
    (compose ws).apply record = replay ws record := by
  have hfold (v : Write ι β) :
      (ws.foldl Write.andThen v).apply record = replay ws (v.apply record) := by
    induction ws generalizing v with
    | nil => rfl
    | cons w ws ih =>
      rw [List.foldl_cons, ih, Write.apply_andThen]
      rfl
  rw [compose, hfold]
  cases record <;> rfl

theorem replay_append (vs ws : List (Write ι β)) (record : Option (ι → β)) :
    replay (vs ++ ws) record = replay ws (replay vs record) := List.foldl_append

theorem replay_of_mem {w : Write ι β} {ws : List (Write ι β)} (h : w ∈ ws)
    (record : Option (ι → β)) : replay ws (w.apply record) = replay ws record := by
  obtain ⟨us, vs, rfl⟩ := List.append_of_mem h
  have hbetween := (compose us).apply_between w record
  rw [apply_compose, apply_compose] at hbetween
  rw [replay_append, replay_append]
  change replay vs (w.apply (replay us (w.apply record))) = replay vs (w.apply (replay us record))
  rw [hbetween]

/-- Some of the writes may have been made before. -/
theorem replay_of_subset {vs ws : List (Write ι β)} (h : vs ⊆ ws) (record : Option (ι → β)) :
    replay ws (replay vs record) = replay ws record := by
  induction vs generalizing record with
  | nil => rfl
  | cons v vs ih =>
    obtain ⟨hv, hvs⟩ := List.cons_subset.mp h
    exact (ih hvs (v.apply record)).trans (replay_of_mem hv record)

/-- Writes that make a record out of nothing make the same out of every record. -/
theorem replay_eq_of_none {ws : List (Write ι β)} (h : replay ws none ≠ none)
    (record : Option (ι → β)) : replay ws record = replay ws none := by
  rw [← apply_compose] at h
  rw [← apply_compose, ← apply_compose, Write.apply_eq_of_none h]

end ComicApp.Replay
