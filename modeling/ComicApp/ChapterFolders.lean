import ComicApp.PaddedNumeral
import ComicApp.CallSteps
import ComicApp.ReaderPages

/-!
# The names of chapter folders

Two copies of one computation name the folder of a chapter: `DownloadCommic` puts its suffix behind
the `filePath` of the comic's document and `downLoad` of the reader behind `"Comic/"` and the comic's
id. Both write a slash and the numeral of the chapter's number, three characters wide.
-/

namespace ComicApp
open PaddedNumeral

namespace Shelf

/-- The thresholds stand where the numeral of `index + 1` gets another digit. -/
theorem path_eq_padded (index : ℕ) : path index = "/" ++ padded 3 (index + 1) := by
  unfold path
  split_ifs with h9 h99
  · have hone : (index + 1).repr.length = 0 + 1 := length_repr (by omega) (by omega)
    rw [@padded_eq_append 3 2 _ (by omega), ← String.append_assoc]
    rfl
  · have htwo : (index + 1).repr.length = 1 + 1 := length_repr (by omega) (by omega)
    rw [@padded_eq_append 3 1 _ (by omega), ← String.append_assoc]
    rfl
  · have hthree : 2 < (index + 1).repr.length := lt_length_repr (by omega)
    rw [padded_eq_repr hthree]
    rfl

theorem path_injective : Function.Injective path := by
  intro i j h
  rw [path_eq_padded, path_eq_padded, String.append_right_inj] at h
  exact Nat.succ_injective (padded_injective 3 h)

theorem folder_injective (filePath : String) :
    Function.Injective fun index => filePath ++ path index :=
  fun _ _ h => path_injective ((String.append_right_inj filePath).mp h)

end Shelf

/-- `downLoad` computes the suffix that `DownloadCommic` computes. -/
theorem ChapterViewController.path_eq (id : String) (index : ℕ) :
    path id index = "Comic/" ++ id ++ Shelf.path index := by
  have h9 : (index : ℤ) < 9 ↔ index < 9 := by omega
  have h99 : (index : ℤ) < 99 ↔ index < 99 := by omega
  simp only [path, Shelf.path, h9, h99]
  rfl

/-- For every index the two copies agree on the suffix: a slash and the numeral of `index + 1` with
zeros on the left up to three characters, which is read back as `index + 1`. No two indices of a
comic name the same folder, neither behind its `filePath` nor in the reader. -/
theorem chapter_folders (id filePath : String) :
    (∀ index : ℕ, ChapterViewController.path id index = "Comic/" ++ id ++ Shelf.path index ∧
      Shelf.path index = "/" ++ padded 3 (index + 1) ∧
      (padded 3 (index + 1)).length = max 3 (index + 1).repr.length ∧
      (padded 3 (index + 1)).toNat? = some (index + 1)) ∧
    (Function.Injective fun index : ℕ => filePath ++ Shelf.path index) ∧
    Function.Injective fun index : ℕ => ChapterViewController.path id index := by
  refine ⟨fun index => ⟨ChapterViewController.path_eq id index, Shelf.path_eq_padded index,
    length_padded 3 _, toNat?_padded 3 _⟩, Shelf.folder_injective filePath, ?_⟩
  intro i j h
  dsimp only at h
  rw [ChapterViewController.path_eq, ChapterViewController.path_eq] at h
  exact Shelf.folder_injective ("Comic/" ++ id) h

end ComicApp
