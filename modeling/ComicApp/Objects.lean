import ComicApp.RequestBatch

/-!
# The objects of the app and its Realm store

`DComic` is the in-memory comic of the shelf lists, `LComic` and `LChap` the persisted comic and
chapter. The store is the list of its `LComic` objects in the order they were added, which is the
order in which `realm.objects(LComic.self)` goes through them. The arrays of the remote documents are
written with `arrayUnion`.
-/

namespace ComicApp

def arrayUnion {α : Type} [DecidableEq α] (l : List α) (a : α) : List α :=
  if a ∈ l then l else l ++ [a]

theorem mem_arrayUnion {α : Type} [DecidableEq α] {l : List α} {a b : α} :
    b ∈ arrayUnion l a ↔ b ∈ l ∨ b = a := by
  unfold arrayUnion
  split_ifs with h
  · constructor
    · exact .inl
    · rintro (hb | rfl)
      · exact hb
      · exact h
  · simp

theorem nodup_arrayUnion {α : Type} [DecidableEq α] {l : List α} {a : α} (h : l.Nodup) :
    (arrayUnion l a).Nodup := by
  unfold arrayUnion
  split_ifs with ha
  · exact h
  · exact List.Nodup.append h (List.nodup_singleton a) (by simpa using ha)

abbrev Data := List UInt8

structure DComic where
  name : Option String := some ""
  idComic : Option String := some ""
  poster : Option Data := none
  totalChap : Option ℤ := some 0
  totalSize : Option ℤ := some 1
  Dsize : Option ℤ := some 0
  finish : Bool := false
  deriving DecidableEq, Repr

structure LChap where
  listImg : List Data
  deriving DecidableEq, Repr

structure LComic where
  comicID : String
  comicName : String
  comicNChap : ℤ
  comicPoster : Data
  listChap : List LChap := []
  deriving DecidableEq, Repr

/-- The fields of a document of the `Comic` collection that a download reads; a field that is
absent or of another type is `none`. -/
structure Document where
  name : Option String
  totalChap : Option ℤ
  size : Option ℤ
  posterPath : Option String
  filePath : Option String
  deriving DecidableEq, Repr

inductive DocumentReply where
  | error
  | missing
  | found (data : Document)
  deriving DecidableEq, Repr

/-- The reply to `listAll`: all that the folder lists, or an error. After an error the storage calls
back once more, without one and with what the result pages before it listed. -/
inductive ListAllReply (α : Type) where
  | success (listed : α)
  | error (before : α)
  deriving DecidableEq, Repr

namespace ListAllReply
variable {α : Type}

def request : ListAllReply α → Request
  | .success _ => .arrived
  | .error _ => .failed

def listed : ListAllReply α → α
  | .success listed => listed
  | .error before => before

theorem request_ne_waiting (reply : ListAllReply α) : reply.request ≠ .waiting := by
  cases reply <;> exact nofun

theorem eq_success {reply : ListAllReply α} (h : reply.request = .arrived) :
    reply = .success reply.listed := by
  cases reply with
  | success listed => rfl
  | error before => cases h

end ListAllReply

abbrev Realm := List LComic

namespace Realm

/-- `realm.objects(LComic.self).filter("comicID == %@", id).first`, which is also the object the
loops over all comics stop at. -/
def first (realm : Realm) (id : String) : Option LComic := realm.find? fun comic => comic.comicID = id

def appendChap (id : String) (chap : LChap) : Realm → Realm
  | [] => []
  | comic :: realm =>
    if comic.comicID = id then { comic with listChap := comic.listChap ++ [chap] } :: realm
    else comic :: appendChap id chap realm

def ids (realm : Realm) : List String := realm.map LComic.comicID

@[simp] theorem appendChap_ids (id : String) (chap : LChap) (realm : Realm) :
    ids (appendChap id chap realm) = ids realm := by
  induction realm with
  | nil => rfl
  | cons comic realm ih =>
    rw [appendChap]
    split_ifs
    · rfl
    · exact congrArg (comic.comicID :: ·) ih

theorem first_eq_some {realm : Realm} {id : String} {comic : LComic}
    (h : realm.first id = some comic) : comic ∈ realm ∧ comic.comicID = id :=
  ⟨List.mem_of_find?_eq_some h, by simpa using List.find?_some h⟩

theorem first_eq_none {realm : Realm} {id : String} :
    realm.first id = none ↔ id ∉ realm.ids := by
  simp [first, ids, List.find?_eq_none]

theorem exists_first {realm : Realm} {id : String} (h : id ∈ realm.ids) :
    ∃ comic, realm.first id = some comic := by
  cases hf : realm.first id with
  | none => exact absurd h (first_eq_none.mp hf)
  | some comic => exact ⟨comic, rfl⟩

@[simp] theorem ids_concat (realm : Realm) (comic : LComic) :
    ids (realm ++ [comic]) = ids realm ++ [comic.comicID] := by
  simp [ids]

theorem nodup_ids_concat {realm : Realm} {comic : LComic} :
    (ids (realm ++ [comic])).Nodup ↔ (ids realm).Nodup ∧ realm.first comic.comicID = none := by
  rw [ids_concat, ← List.concat_eq_append, List.nodup_concat, first_eq_none, and_comm]

/-- With one comic for the id, the first one is the only one. -/
theorem first_of_mem {realm : Realm} (hn : realm.ids.Nodup) {comic : LComic} (h : comic ∈ realm) :
    realm.first comic.comicID = some comic := by
  obtain ⟨found, hf⟩ := exists_first (List.mem_map_of_mem (f := LComic.comicID) h)
  obtain ⟨hmem, hid⟩ := first_eq_some hf
  rw [hf, List.inj_on_of_nodup_map hn hmem h hid]

theorem first_append_of_some {realm : Realm} {id : String} {comic : LComic}
    (h : realm.first id = some comic) (more : Realm) : first (realm ++ more) id = some comic := by
  unfold first at h ⊢
  rw [List.find?_append, h]
  rfl

theorem first_append_of_none {realm : Realm} {id : String} (h : realm.first id = none)
    (more : Realm) : first (realm ++ more) id = more.first id := by
  unfold first at h ⊢
  rw [List.find?_append, h]
  rfl

theorem first_appendChap_self {realm : Realm} {id : String} {comic : LComic}
    (h : realm.first id = some comic) (chap : LChap) :
    first (appendChap id chap realm) id =
      some { comic with listChap := comic.listChap ++ [chap] } := by
  induction realm with
  | nil => cases h
  | cons head realm ih =>
    rw [appendChap]
    by_cases hid : head.comicID = id
    · rw [if_pos hid]
      simp only [first, List.find?_cons, hid, decide_true] at h ⊢
      rw [← Option.some.inj h, hid]
    · rw [if_neg hid]
      simp only [first, List.find?_cons, hid, decide_false] at h ih ⊢
      exact ih h

theorem first_appendChap_of_ne {id id' : String} (hne : id' ≠ id) (chap : LChap) (realm : Realm) :
    first (appendChap id chap realm) id' = first realm id' := by
  induction realm with
  | nil => rfl
  | cons head realm ih =>
    rw [appendChap]
    by_cases hid : head.comicID = id
    · rw [if_pos hid]
      have hid' : ¬ id = id' := fun he => hne he.symm
      simp only [first, List.find?_cons, hid, hid', decide_false]
    · rw [if_neg hid]
      simp only [first, List.find?_cons] at ih ⊢
      by_cases hid' : head.comicID = id'
      · simp only [hid', decide_true]
      · simp only [hid', decide_false]
        exact ih

end Realm

/-- `ChapterViewController.loadChapterFromRealm`: the pages it shows, none where no comic has this
id. `none` is the trap on an index outside `listChap`. -/
def ChapterViewController.loadChapterFromRealm (realm : Realm) (id : Option String) (index : ℤ) :
    Option (List Data) :=
  match id.bind realm.first with
  | none => some []
  | some comic => if index < 0 then none else comic.listChap[index.toNat]?.map LChap.listImg

end ComicApp
