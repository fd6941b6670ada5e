import ComicApp.CallSteps
import Mathlib.Data.List.Forall2

/-!
# Calls and the records they fill

While no poster arrives for a comic that has a record already, every call past its poster owns
exactly one record, and the record holds the call's complete chapters in the order they completed.
-/

namespace ComicApp

structure Stored (call : Call) (order : List ℕ) (listChap : List LChap) : Prop where
  nodup : order.Nodup
  complete : ∀ i, i ∈ order ↔ ∃ chapter ∈ call.chapters[i]?, chapter.Complete
  length : order.length = call.completed
  listChap : listChap.map some = order.map fun i => call.chapters[i]?.map Chapter.stored

namespace Stored
variable {call : Call} {order : List ℕ} {listChap : List LChap}

theorem listChap_length (h : Stored call order listChap) : listChap.length = call.completed := by
  have hlen := congrArg List.length h.listChap
  rw [List.length_map, List.length_map] at hlen
  rw [hlen, h.length]

theorem congr (h : Stored call order listChap) {call' : Call} (hch : call'.chapters = call.chapters) :
    Stored call' order listChap := by
  obtain ⟨h1, h2, h3, h4⟩ := h
  exact ⟨h1, by rwa [hch], by rw [h3, Call.completed, Call.completed, hch], by rwa [hch]⟩

/-- A call without a complete chapter has stored nothing. -/
theorem nil (hnone : ∀ chapter ∈ call.chapters, ¬ chapter.Complete) : Stored call [] [] where
  nodup := List.nodup_nil
  complete i := by
    refine ⟨fun h => by simp at h, fun ⟨chapter, hi, hc⟩ => absurd hc ?_⟩
    exact hnone chapter (List.mem_of_getElem? hi)
  length := by
    have hzero : call.completed = 0 := by simpa [Call.completed, List.countP_eq_zero] using hnone
    rw [hzero]
    rfl
  listChap := rfl

/-- The chapters of the record, each with its place among the folders. -/
theorem forall₂ (h : Stored call order listChap) :
    List.Forall₂ (fun chap i => ∃ chapter, call.chapters[i]? = some chapter ∧ chapter.stored = chap)
      listChap order := by
  have heq : List.Forall₂ Eq (listChap.map some)
      (order.map fun i => call.chapters[i]?.map Chapter.stored) := by
    rw [h.listChap, List.forall₂_eq_eq_eq]
  rw [List.forall₂_map_left_iff, List.forall₂_map_right_iff] at heq
  exact heq.imp fun chap i hi => Option.map_eq_some_iff.mp hi.symm

/-- With all chapters there, each folder has its place in the record. -/
theorem perm_range (h : Stored call order listChap)
    (hall : ∀ chapter ∈ call.chapters, chapter.Complete) :
    order.Perm (List.range call.chapters.length) := by
  apply (List.perm_ext_iff_of_nodup h.nodup List.nodup_range).mpr
  intro i
  rw [h.complete, List.mem_range]
  constructor
  · rintro ⟨chapter, hi, -⟩
    exact (List.getElem?_eq_some_iff.mp hi).1
  · intro hi
    exact ⟨_, List.getElem?_eq_getElem hi, hall _ (List.getElem_mem hi)⟩

theorem not_mem (h : Stored call order listChap) {i : ℕ} {chapter : Chapter}
    (hi : call.chapters[i]? = some chapter) (hc : ¬ chapter.Complete) : i ∉ order := by
  rw [h.complete]
  rintro ⟨chapter', hi', hc'⟩
  rw [hi, Option.mem_some_iff] at hi'
  exact hc (hi' ▸ hc')

theorem getElem?_setChapter {i k : ℕ} (hk : k ≠ i) (chapter' : Chapter) :
    (call.setChapter i chapter').chapters[k]? = call.chapters[k]? :=
  List.getElem?_set_ne (Ne.symm hk)

theorem getElem?_setChapter_self {i : ℕ} {chapter : Chapter} (hi : call.chapters[i]? = some chapter)
    (chapter' : Chapter) : (call.setChapter i chapter').chapters[i]? = some chapter' :=
  List.getElem?_set_self (List.getElem?_eq_some_iff.mp hi).1

theorem map_setChapter {i : ℕ} (hi : i ∉ order) (chapter' : Chapter) :
    (order.map fun k => (call.setChapter i chapter').chapters[k]?.map Chapter.stored) =
      order.map fun k => call.chapters[k]?.map Chapter.stored := by
  apply List.map_congr_left
  intro k hk
  have hne : k ≠ i := fun he => hi (he ▸ hk)
  rw [getElem?_setChapter hne]

/-- A chapter that is and stays incomplete does not show in the record. -/
theorem setChapter (h : Stored call order listChap) {i : ℕ} {chapter : Chapter}
    (hi : call.chapters[i]? = some chapter) (hc : ¬ chapter.Complete) (chapter' : Chapter)
    (hc' : ¬ chapter'.Complete) : Stored (call.setChapter i chapter') order listChap where
  nodup := h.nodup
  complete k := by
    by_cases hk : k = i
    · subst hk
      rw [getElem?_setChapter_self hi]
      simpa [hc'] using h.not_mem hi hc
    · rw [getElem?_setChapter hk]
      exact h.complete k
  length := by rw [h.length, Call.completed_setChapter hi hc, if_neg hc', add_zero]
  listChap := by rw [map_setChapter (h.not_mem hi hc), h.listChap]

/-- A chapter that completes is stored last. -/
theorem setChapter_complete (h : Stored call order listChap) {i : ℕ} {chapter : Chapter}
    (hi : call.chapters[i]? = some chapter) (hc : ¬ chapter.Complete) {chapter' : Chapter}
    (hc' : chapter'.Complete) :
    Stored (call.setChapter i chapter') (order ++ [i]) (listChap ++ [chapter'.stored]) where
  nodup := List.nodup_append.mpr ⟨h.nodup, List.nodup_singleton i, by
    intro k hk k' hk' he
    rw [List.mem_singleton.mp hk'] at he
    exact h.not_mem hi hc (he ▸ hk)⟩
  complete k := by
    rw [List.mem_append, List.mem_singleton]
    by_cases hk : k = i
    · subst hk
      rw [getElem?_setChapter_self hi]
      simp [hc']
    · rw [getElem?_setChapter hk, ← h.complete k]
      simp [hk]
  length := by
    rw [List.length_append, h.length, Call.completed_setChapter hi hc, if_pos hc']
    rfl
  listChap := by
    rw [List.map_append, List.map_append, map_setChapter (h.not_mem hi hc), h.listChap,
      List.map_singleton, List.map_singleton, getElem?_setChapter_self hi]
    rfl

end Stored

namespace Realm

theorem mem_appendChap {id : String} {chap : LChap} {realm : Realm} {comic : LComic}
    (h : comic ∈ appendChap id chap realm) :
    comic ∈ realm ∨ ∃ comicl, realm.first id = some comicl ∧
      comic = { comicl with listChap := comicl.listChap ++ [chap] } := by
  induction realm with
  | nil => cases h
  | cons head realm ih =>
    rw [appendChap] at h
    by_cases hid : head.comicID = id
    · rw [if_pos hid] at h
      rcases List.mem_cons.mp h with rfl | h
      · exact .inr ⟨head, by simp [first, hid], rfl⟩
      · exact .inl (List.mem_cons_of_mem _ h)
    · rw [if_neg hid] at h
      rcases List.mem_cons.mp h with rfl | h
      · exact .inl List.mem_cons_self
      · rcases ih h with hm | ⟨comicl, hf, he⟩
        · exact .inl (List.mem_cons_of_mem _ hm)
        · exact .inr ⟨comicl, by simpa [first, hid] using hf, he⟩

end Realm

namespace DownloadSession
open EventMachine

/-- A poster arrives only for a comic that has no record yet. -/
def Unrecorded (s : State) : Event → Prop
  | .poster c (some _) => ∀ call ∈ s.calls[c]?, s.realm.first call.comicID = none
  | _ => True

instance decidableUnrecorded (s : State) : ∀ e, Decidable (Unrecorded s e)
  | .poster c (some _) => inferInstanceAs (Decidable (∀ call ∈ s.calls[c]?, _))
  | .poster _ none | .document _ _ | .listAll _ _ _ | .page _ _ _ _ => .isTrue trivial
  | .select _ | .viewDidLoad | .leave _ | .download _ | .progress _ _ _ _ => .isTrue trivial
  | .relaunch => .isTrue trivial

def completes (s : State) : Event → Option (ℕ × ℕ)
  | .page c i _ (some _) =>
    match s.calls[c]?.bind fun call => call.chapters[i]? with
    | none => none
    | some chapter => if chapter.pages.left = 1 then some (c, i) else none
  | _ => none

def nextOrder (s : State) (e : Event) (order : ℕ → List ℕ) : ℕ → List ℕ :=
  match e with
  | .relaunch => fun _ => []
  | e =>
    match completes s e with
    | none => order
    | some (c, i) => Function.update order c (order c ++ [i])

/-- Every call past its poster owns the one record of its comic. -/
structure Linked (order : ℕ → List ℕ) (s : State) : Prop where
  link : ∀ (c : ℕ) (call : Call), s.calls[c]? = some call → call.poster = .arrived →
    ∃ comicl, s.realm.first call.comicID = some comicl ∧ s.realm.ids.count call.comicID = 1 ∧
      comicl.comicNChap = call.comic.totalChap.getD 0 ∧ Stored call (order c) comicl.listChap
  sole : ∀ (c c' : ℕ) (call call' : Call), s.calls[c]? = some call → s.calls[c']? = some call' →
    call.poster = .arrived → call'.poster = .arrived → call.comicID = call'.comicID → c = c'
  idle : ∀ c : ℕ, (∀ call : Call, s.calls[c]? = some call → call.poster ≠ .arrived) → order c = []

theorem linked_of_calls_nil {s : State} (h : s.calls = []) : Linked (fun _ => []) s where
  link c call hc := by simp [h] at hc
  sole c c' call call' hc := by simp [h] at hc
  idle _ _ := rfl

theorem completes_page {s : State} {c i : ℕ} {call : Call} {chapter : Chapter}
    (hc : s.calls[c]? = some call) (hi : call.chapters[i]? = some chapter) (j : ℕ) (data1 : Data) :
    completes s (.page c i j (some data1)) = if chapter.pages.left = 1 then some (c, i) else none := by
  simp [completes, hc, hi]

theorem nextOrder_of_none {s : State} {e : Event} (he : e ≠ .relaunch) (h : completes s e = none)
    (order : ℕ → List ℕ) : nextOrder s e order = order := by
  cases e <;> first | exact absurd rfl he | simp only [nextOrder, h]

theorem nextOrder_of_some {s : State} {e : Event} {c i : ℕ} (h : completes s e = some (c, i))
    (order : ℕ → List ℕ) : nextOrder s e order = Function.update order c (order c ++ [i]) := by
  cases e <;> first | (simp only [nextOrder, h]; done) | cases h

namespace Linked
variable {order : ℕ → List ℕ} {s s' : State}

theorem frame (hL : Linked order s) (hcalls : s'.calls = s.calls) (hrealm : s'.realm = s.realm) :
    Linked order s' := by
  obtain ⟨h1, h2, h3⟩ := hL
  exact ⟨by rwa [hcalls, hrealm], by rwa [hcalls], by rwa [hcalls]⟩

/-- A call that has just been started is not past its poster. -/
theorem append (hL : Linked order s) {call : Call} (hp : call.poster ≠ .arrived)
    (hcalls : s'.calls = s.calls ++ [call]) (hrealm : s'.realm = s.realm) : Linked order s' := by
  have hold : ∀ {c : ℕ} {call' : Call}, s'.calls[c]? = some call' → call'.poster = .arrived →
      s.calls[c]? = some call' := by
    intro c call' hc hp'
    rw [hcalls, List.getElem?_append] at hc
    split_ifs at hc with hlt
    · exact hc
    · obtain ⟨hk, rfl⟩ := List.getElem?_eq_some_iff.mp hc
      exact absurd hp' (by simpa using hp)
  refine ⟨fun c call' hc hp' => ?_, fun c c' call₁ call₂ h₁ h₂ hp₁ hp₂ => ?_, fun c hc => ?_⟩
  · rw [hrealm]
    exact hL.link c call' (hold hc hp') hp'
  · exact hL.sole c c' call₁ call₂ (hold h₁ hp₁) (hold h₂ hp₂) hp₁ hp₂
  · apply hL.idle
    intro call' hc'
    apply hc
    rw [hcalls, List.getElem?_append_left (List.getElem?_eq_some_iff.mp hc').1]
    exact hc'

/-- A reply that changes one call without completing a chapter of it. -/
theorem setCall (hL : Linked order s) {c : ℕ} {call call' : Call} (hc : s.calls[c]? = some call)
    (hcalls : s'.calls = (s.setCall c call').calls) (hrealm : s'.realm = s.realm)
    (hid : call'.comicID = call.comicID) (hp : call'.poster = .arrived ↔ call.poster = .arrived)
    (ht : call.poster = .arrived → call'.comic.totalChap = call.comic.totalChap)
    (hs : ∀ listChap, Stored call (order c) listChap → Stored call' (order c) listChap) :
    Linked order s' := by
  have hback : ∀ {k : ℕ} {call₁ : Call}, s'.calls[k]? = some call₁ → call₁.poster = .arrived →
      ∃ call₀, s.calls[k]? = some call₀ ∧ call₀.poster = .arrived ∧
        call₀.comicID = call₁.comicID := by
    intro k call₁ hk hp₁
    rw [hcalls] at hk
    rcases getElem?_setCall hk with ⟨rfl, rfl, -⟩ | ⟨-, hold⟩
    · exact ⟨call, hc, hp.mp hp₁, hid.symm⟩
    · exact ⟨call₁, hold, hp₁, rfl⟩
  refine ⟨fun k call₁ hk hp₁ => ?_, fun k k' call₁ call₂ h₁ h₂ hp₁ hp₂ he => ?_, fun k hk => ?_⟩
  · rw [hcalls] at hk
    rw [hrealm]
    rcases getElem?_setCall hk with ⟨rfl, rfl, -⟩ | ⟨-, hold⟩
    · obtain ⟨comicl, hf, hone, hn, hst⟩ := hL.link k call hc (hp.mp hp₁)
      rw [hid, ht (hp.mp hp₁)]
      exact ⟨comicl, hf, hone, hn, hs _ hst⟩
    · exact hL.link k call₁ hold hp₁
  · obtain ⟨call₁', h₁', hp₁', he₁⟩ := hback h₁ hp₁
    obtain ⟨call₂', h₂', hp₂', he₂⟩ := hback h₂ hp₂
    exact hL.sole k k' call₁' call₂' h₁' h₂' hp₁' hp₂' (by rw [he₁, he₂, he])
  · apply hL.idle
    intro call₀ h₀ hp₀
    by_cases hkc : k = c
    · subst hkc
      obtain rfl : call = call₀ := Option.some.inj (hc.symm.trans h₀)
      apply hk call' _ (hp.mpr hp₀)
      rw [hcalls]
      exact List.getElem?_set_self (List.getElem?_eq_some_iff.mp hc).1
    · apply hk call₀ _ hp₀
      rw [hcalls]
      exact (List.getElem?_set_ne (Ne.symm hkc)).trans h₀

/-- The poster of a comic without a record: the new record is the only one, and empty. -/
theorem poster (hL : Linked order s) {c : ℕ} {call call' : Call} (hc : s.calls[c]? = some call)
    (hw : call.poster = .waiting) (hnone : s.realm.first call.comicID = none) {record : LComic}
    (hcalls : s'.calls = (s.setCall c call').calls) (hrealm : s'.realm = s.realm ++ [record])
    (hid : call'.comicID = call.comicID) (hnew : ∀ chapter ∈ call'.chapters, ¬ chapter.Complete)
    (hrid : record.comicID = call.comicID)
    (hn : record.comicNChap = call'.comic.totalChap.getD 0) (hch : record.listChap = []) :
    Linked order s' := by
  have hfresh : call.comicID ∉ s.realm.ids := Realm.first_eq_none.mp hnone
  have hother : ∀ {k : ℕ} {call₁ : Call}, s.calls[k]? = some call₁ → call₁.poster = .arrived →
      call₁.comicID ≠ call.comicID := by
    intro k call₁ hk hp he
    obtain ⟨comicl, hf, -⟩ := hL.link k call₁ hk hp
    rw [he, hnone] at hf
    cases hf
  have hempty : order c = [] := hL.idle c fun call₀ h₀ hp₀ => by
    obtain rfl : call = call₀ := Option.some.inj (hc.symm.trans h₀)
    rw [hw] at hp₀
    cases hp₀
  have hids : s'.realm.ids = s.realm.ids ++ [call.comicID] := by
    rw [hrealm, Realm.ids_concat, hrid]
  refine ⟨fun k call₁ hk hp₁ => ?_, fun k k' call₁ call₂ h₁ h₂ hp₁ hp₂ he => ?_, fun k hk => ?_⟩
  · rw [hcalls] at hk
    rcases getElem?_setCall hk with ⟨rfl, rfl, -⟩ | ⟨-, hold⟩
    · refine ⟨record, ?_, ?_, hn, ?_⟩
      · rw [hrealm, hid, Realm.first_append_of_none hnone]
        simp [Realm.first, hrid]
      · rw [hids, hid, List.count_append, List.count_eq_zero_of_not_mem hfresh]
        simp
      · rw [hempty, hch]
        exact Stored.nil hnew
    · obtain ⟨comicl, hf, hone, hrest⟩ := hL.link k call₁ hold hp₁
      refine ⟨comicl, ?_, ?_, hrest⟩
      · rw [hrealm]
        exact Realm.first_append_of_some hf _
      · rw [hids, List.count_append, hone,
          List.count_eq_zero_of_not_mem (by simpa using hother hold hp₁)]
  · rw [hcalls] at h₁ h₂
    rcases getElem?_setCall h₁ with ⟨rfl, rfl, -⟩ | ⟨-, h₁'⟩ <;>
      rcases getElem?_setCall h₂ with ⟨rfl, rfl, -⟩ | ⟨-, h₂'⟩
    · rfl
    · exact absurd (he.symm.trans hid) (hother h₂' hp₂)
    · exact absurd (he.trans hid) (hother h₁' hp₁)
    · exact hL.sole k k' call₁ call₂ h₁' h₂' hp₁ hp₂ he
  · by_cases hkc : k = c
    · rw [hkc, hempty]
    · apply hL.idle
      intro call₀ h₀
      apply hk call₀
      rw [hcalls]
      exact (List.getElem?_set_ne (Ne.symm hkc)).trans h₀

/-- A chapter that completes is appended to the record of its own call. -/
theorem complete (hL : Linked order s) {c i : ℕ} {call call' : Call} {chapter : Chapter}
    (chapter' : Chapter) (hc : s.calls[c]? = some call) (hp : call.poster = .arrived)
    (hi : call.chapters[i]? = some chapter) (hinc : ¬ chapter.Complete) (hcomp : chapter'.Complete)
    (hcalls : s'.calls = (s.setCall c call').calls)
    (hrealm : s'.realm = s.realm.appendChap call.comicID chapter'.stored)
    (hid : call'.comicID = call.comicID) (hp' : call'.poster = call.poster)
    (ht : call'.comic.totalChap = call.comic.totalChap)
    (hch : call'.chapters = (call.setChapter i chapter').chapters) :
    Linked (Function.update order c (order c ++ [i])) s' := by
  obtain ⟨comicl, hf, hone, hn, hst⟩ := hL.link c call hc hp
  have hback : ∀ {k : ℕ} {call₁ : Call}, s'.calls[k]? = some call₁ → call₁.poster = .arrived →
      (k = c ∧ call₁ = call') ∨ (k ≠ c ∧ s.calls[k]? = some call₁) := by
    intro k call₁ hk _
    rw [hcalls] at hk
    rcases getElem?_setCall hk with ⟨h, h', -⟩ | h
    · exact .inl ⟨h, h'⟩
    · exact .inr h
  refine ⟨fun k call₁ hk hp₁ => ?_, fun k k' call₁ call₂ h₁ h₂ hp₁ hp₂ he => ?_, fun k hk => ?_⟩
  · rcases hback hk hp₁ with ⟨rfl, rfl⟩ | ⟨hkc, hold⟩
    · refine ⟨{ comicl with listChap := comicl.listChap ++ [chapter'.stored] }, ?_, ?_, ?_, ?_⟩
      · rw [hrealm, hid]
        exact Realm.first_appendChap_self hf _
      · rw [hrealm, hid, Realm.appendChap_ids, hone]
      · rw [ht]
        exact hn
      · rw [Function.update_self]
        exact (hst.setChapter_complete hi hinc hcomp).congr hch
    · have hne : call₁.comicID ≠ call.comicID := fun he =>
        hkc (hL.sole k c call₁ call hold hc hp₁ hp he)
      rw [hrealm, Realm.first_appendChap_of_ne hne, Realm.appendChap_ids,
        Function.update_of_ne hkc]
      exact hL.link k call₁ hold hp₁
  · have hpc : call'.poster = .arrived := hp'.trans hp
    rcases hback h₁ hp₁ with ⟨rfl, rfl⟩ | ⟨hk₁, h₁'⟩ <;>
      rcases hback h₂ hp₂ with ⟨rfl, rfl⟩ | ⟨hk₂, h₂'⟩
    · rfl
    · exact hL.sole _ _ call call₂ hc h₂' hp hp₂ (hid.symm.trans he)
    · exact hL.sole _ _ call₁ call h₁' hc hp₁ hp (he.trans hid)
    · exact hL.sole k k' call₁ call₂ h₁' h₂' hp₁ hp₂ he
  · by_cases hkc : k = c
    · subst hkc
      exfalso
      apply hk call' _ (hp'.trans hp)
      rw [hcalls]
      exact List.getElem?_set_self (List.getElem?_eq_some_iff.mp hc).1
    · rw [Function.update_of_ne hkc]
      apply hL.idle
      intro call₀ h₀
      apply hk call₀
      rw [hcalls]
      exact (List.getElem?_set_ne (Ne.symm hkc)).trans h₀

end Linked

/-- A call of this session is past its poster for the comic. -/
def Owned (s : State) (id : String) : Prop :=
  ∃ call ∈ s.calls, call.poster = .arrived ∧ call.comicID = id

theorem Owned.forward {s s' : State} {e : Event} {id : String} (h : Owned s id)
    (hv : ValidCalls s) (he : e ≠ .relaunch) (ht : Transition s e s') : Owned s' id := by
  obtain ⟨call, hm, hp, rfl⟩ := h
  obtain ⟨c, hc⟩ := List.mem_iff_getElem?.mp hm
  obtain ⟨call', hc', hid, hp'⟩ := ht.calls_forward hv he hc
  exact ⟨call', List.mem_of_getElem? hc', hp' hp, hid⟩

/-- Once a poster has arrived, its call owns the record of the comic. -/
theorem owned_of_poster {s s' : State} {c : ℕ} {data : Data} {call : Call}
    (hs : step s (.poster c (some data)) = some s') (hc : s.calls[c]? = some call)
    (hv : ValidCalls s) : Owned s' call.comicID := by
  have hlt := (List.getElem?_eq_some_iff.mp hc).1
  cases Transition.of_step hs with
  | poster _ _ call₀ hr hc₀ hw =>
    obtain rfl : call = call₀ := Option.some.inj (hc.symm.trans hc₀)
    cases hf : (call.posterArrived data).forChapters with
    | none =>
      rw [onPoster_of_trap hf]
      exact ⟨_, List.mem_of_getElem? (List.getElem?_set_self hlt), rfl, rfl⟩
    | some call' =>
      rw [onPoster_of_some hf]
      obtain ⟨he, -⟩ := Call.forChapters_spec hf ((hv hr c call hc).chapters_nil (by simp [hw]))
      refine ⟨call', List.mem_of_getElem? (List.getElem?_set_self hlt), ?_, ?_⟩
      · rw [he]
        rfl
      · rw [he]
        rfl

theorem posterArrived_record (call : Call) (data : Data) (hid : call.comic.idComic = some call.comicID) :
    (call.posterArrived data).record.comicID = call.comicID := by
  simp [Call.record, Call.posterArrived, hid]

theorem nodup_ids_step {s s' : State} {e : Event} (hn : s.realm.ids.Nodup) (hvalid : ValidCalls s)
    (hU : Unrecorded s e) (h : step s e = some s') : s'.realm.ids.Nodup := by
  generalize hrealm : s'.realm = realm
  cases hrealm ▸ (Transition.of_step h).realm with
  | same => exact hn
  | add c data call hr hc hw =>
    rw [Realm.nodup_ids_concat, posterArrived_record call data (hvalid hr c call hc).idComic]
    exact ⟨hn, hU call hc⟩
  | append =>
    rw [Realm.appendChap_ids]
    exact hn

theorem Linked.onPoster {order : ℕ → List ℕ} {s : State} (hL : Linked order s) {c : ℕ} {call : Call}
    (data : Data) (hc : s.calls[c]? = some call) (hv : call.Valid) (hw : call.poster = .waiting)
    (hU : s.realm.first call.comicID = none) : Linked order (s.onPoster c call data) := by
  have hnil : call.chapters = [] := hv.chapters_nil (by simp [hw])
  have hrid := posterArrived_record call data hv.idComic
  cases hf : (call.posterArrived data).forChapters with
  | none =>
    rw [onPoster_of_trap hf]
    exact hL.poster hc hw hU rfl rfl rfl (by simp [Call.posterArrived, hnil]) hrid rfl rfl
  | some call' =>
    rw [onPoster_of_some hf]
    obtain ⟨he, -, hfresh⟩ := Call.forChapters_spec hf hnil
    refine hL.poster hc hw hU rfl rfl ?_ ?_ hrid ?_ rfl
    · rw [he]
      rfl
    · intro chapter hch
      obtain ⟨i, hi⟩ := List.mem_iff_getElem?.mp hch
      obtain ⟨filePath, -, rfl⟩ := hfresh i chapter hi
      exact fun hcomp => hcomp.1 rfl
    · rw [he]
      rfl

/-- The page that completes its chapter adds the chapter to the order of its call. -/
theorem Linked.onPage {order : ℕ → List ℕ} {s : State} (hL : Linked order s) {c i j : ℕ} {call : Call}
    {chapter : Chapter} (data1 : Data) (hc : s.calls[c]? = some call) (hv : call.Valid)
    (hi : call.chapters[i]? = some chapter) (hj : chapter.pages.Waiting j) :
    Linked (nextOrder s (.page c i j (some data1)) order) (s.onPage c call i chapter j data1 hj) := by
  have hinc := Batch.not_complete_of_waiting hj
  have hp := hv.poster_arrived hi
  have hcompl := completes_page hc hi j data1
  generalize hs' : s.onPage c call i chapter j data1 hj = s'
  cases hs' ▸ onPage_outcome s c call i chapter j data1 hj with
  | more hl =>
    rw [Batch.receive_left] at hl
    rw [if_neg (by omega)] at hcompl
    rw [nextOrder_of_none (by simp) hcompl]
    refine hL.setCall hc rfl rfl rfl Iff.rfl (fun _ => rfl) fun _ hst => ?_
    exact (hst.setChapter hi hinc { chapter with pages := chapter.pages.receive j data1 hj }
      (fun h => hl h.2)).congr rfl
  | unrecorded hl hf =>
    obtain ⟨comicl, hf', -⟩ := hL.link c call hc hp
    rw [hf] at hf'
    cases hf'
  | stored comicl hl hf hn =>
    rw [if_pos (by rw [Batch.receive_left] at hl; omega)] at hcompl
    rw [nextOrder_of_some hcompl]
    exact hL.complete { chapter with pages := chapter.pages.receive j data1 hj } hc hp hi hinc
      ((Batch.receive_complete_iff _ _ _ hj).mpr hl) rfl rfl rfl rfl rfl rfl
  | last comicl hl hf hn =>
    rw [if_pos (by rw [Batch.receive_left] at hl; omega)] at hcompl
    rw [nextOrder_of_some hcompl]
    exact hL.complete { chapter with pages := chapter.pages.receive j data1 hj } hc hp hi hinc
      ((Batch.receive_complete_iff _ _ _ hj).mpr hl) rfl rfl rfl rfl rfl rfl

/-- One event keeps the calls linked to their records. -/
theorem Linked.step {order : ℕ → List ℕ} {s s' : State} {e : Event} (hL : Linked order s)
    (hvalid : ValidCalls s) (hU : Unrecorded s e) (h : DownloadSession.step s e = some s') :
    Linked (nextOrder s e order) s' := by
  cases Transition.of_step h with
  | relaunch => exact linked_of_calls_nil rfl
  | select id hr => exact hL.frame rfl rfl
  | viewDidLoad hr =>
    obtain ⟨hrealm, hcalls, -⟩ := onViewDidLoad_frame s
    exact hL.frame hcalls hrealm
  | leave p hr => exact hL.frame rfl rfl
  | download p hr hp =>
    obtain ⟨hrealm, -⟩ := onDownload_frame s p
    rcases onDownload_calls s p with ⟨id, -, hcalls, -⟩ | ⟨hcalls, -⟩
    · exact hL.append (by simp [Shelf.DownloadCommic]) hcalls hrealm
    · exact hL.frame hcalls hrealm
  | documentTrap c reply call hr hc hw ht => exact hL.frame rfl rfl
  | document c reply call call' hr hc hw ho =>
    have hidle := (hvalid hr c call hc).poster_idle hw
    have hp : ¬ call.poster = .arrived := by simp [hidle]
    rw [nextOrder_of_none (by simp) rfl]
    obtain ⟨hid, hch, hposter, -⟩ := Call.onDocument_spec ho
    have hp' : ¬ call'.poster = .arrived := by rcases hposter with h | h <;> simp [h, hidle]
    exact hL.setCall hc rfl rfl hid (by simp [hp, hp']) (fun h => absurd h hp) fun _ h => h.congr hch
  | posterFailed c call hr hc hw =>
    rw [nextOrder_of_none (by simp) rfl]
    exact hL.setCall hc rfl rfl rfl (by simp [Call.posterFailed, hw]) (fun _ => rfl)
      fun _ h => h.congr rfl
  | poster c data call hr hc hw =>
    rw [nextOrder_of_none (by simp) rfl]
    exact hL.onPoster data hc (hvalid hr c call hc) hw (hU call hc)
  | listAll c i reply call chapter hr hc hi hw =>
    rw [nextOrder_of_none (by simp) rfl]
    have hv := hvalid hr c call hc
    have hinc := hv.not_complete (List.mem_of_getElem? hi) hw
    refine hL.setCall hc rfl rfl rfl Iff.rfl (fun _ => rfl) fun _ hst => ?_
    exact (hst.setChapter hi hinc { chapter with
      listing := reply.request
      pages := .start (Chapter.tasks call.arrayCalcPercent reply.listed) }
      (Batch.start_not_complete _)).congr rfl
  | pageFailed c i j call chapter hr hc hi hj =>
    rw [nextOrder_of_none (by simp) rfl]
    refine hL.setCall hc rfl rfl rfl Iff.rfl (fun _ => rfl) fun _ hst => ?_
    exact hst.setChapter hi (Batch.not_complete_of_waiting hj)
      { chapter with pages := chapter.pages.fail j hj } (Batch.fail_not_complete _ _ hj)
  | page c i j data1 call chapter hr hc hi hj =>
    exact hL.onPage data1 hc (hvalid hr c call hc) hi hj
  | progress c i j n call chapter task hr hc hi hj =>
    rw [nextOrder_of_none (by simp) rfl]
    exact hL.setCall hc rfl rfl rfl Iff.rfl (fun _ => rfl) fun _ h => h.congr rfl

/-- A call with a page out has stored fewer chapters than its record has room for. -/
theorem Linked.room {order : ℕ → List ℕ} {s : State} (hL : Linked order s) {c i j : ℕ} {call : Call}
    {chapter : Chapter} (hc : s.calls[c]? = some call) (hv : call.Valid)
    (hi : call.chapters[i]? = some chapter) (hj : chapter.pages.Waiting j) {comicl : LComic}
    (hf : s.realm.first call.comicID = some comicl) :
    (comicl.listChap.length : ℤ) + 1 ≤ comicl.comicNChap := by
  have hp := hv.poster_arrived hi
  obtain ⟨comicl', hf', -, hn, hst⟩ := hL.link c call hc hp
  obtain rfl : comicl = comicl' := Option.some.inj (hf.symm.trans hf')
  have hlt : call.completed < call.chapters.length := by
    apply lt_of_le_of_ne List.countP_le_length
    intro he
    exact Batch.not_complete_of_waiting hj
      ((Call.completed_eq_length_iff call).mp he chapter (List.mem_of_getElem? hi))
  rw [hn, hv.totalChap hp, hst.listChap_length, Option.getD_some]
  exact_mod_cast hlt

end DownloadSession
end ComicApp
