import Mathlib.Data.List.Dedup
import Mathlib.Data.List.Perm.Basic
import Mathlib.Tactic.Common
import Mathlib.Tactic.Linarith

/-!
# Batches of requests answered in any order

A batch sends one request for each of its keys at once. Its slots record what became of every
request, `got` the results in the order they arrived, and `left` the number of requests without a
result, whether still out or failed. A batch is complete once nothing is left, and then its results
are a permutation of what its keys stand for.
-/

namespace ComicApp
open scoped List

theorem split_of_getElem? {α : Type*} {l : List α} {j : ℕ} {a : α} (h : l[j]? = some a) :
    ∃ u v, l = u ++ a :: v ∧ u.length = j ∧ (∀ b, l.set j b = u ++ b :: v) ∧
      ∀ f, l.modify j f = u ++ f a :: v := by
  obtain ⟨hj, rfl⟩ := List.getElem?_eq_some_iff.mp h
  refine ⟨l.take j, l.drop (j + 1), ?_, ?_, fun b => ?_, fun f => ?_⟩
  · rw [List.getElem_cons_drop, List.take_append_drop]
  · exact List.length_take_of_le hj.le
  · rw [List.set_eq_take_append_cons_drop, if_pos hj]
  · rw [List.modify_eq_take_cons_drop hj]

theorem forall_mem_set {α : Type*} {l : List α} {p : α → Prop} (h : ∀ b ∈ l, p b) (j : ℕ) {a : α}
    (ha : p a) : ∀ b ∈ l.set j a, p b := by
  intro b hb
  rcases List.mem_or_eq_of_mem_set hb with hb | rfl
  · exact h b hb
  · exact ha

theorem forall_mem_concat {α : Type*} {l : List α} {p : α → Prop} (h : ∀ b ∈ l, p b) {a : α}
    (ha : p a) : ∀ b ∈ l ++ [a], p b :=
  List.forall_mem_append.mpr ⟨h, List.forall_mem_singleton.mpr ha⟩

theorem map_set_of_eq {α β : Type*} {l : List α} {j : ℕ} {a b : α} (h : l[j]? = some a)
    {f : α → β} (hf : f b = f a) : (l.set j b).map f = l.map f := by
  obtain ⟨u, v, hl, -, hset, -⟩ := split_of_getElem? h
  rw [hset b, hl, List.map_append, List.map_append, List.map_cons, List.map_cons, hf]

theorem sum_map_set {α : Type*} {l : List α} {j : ℕ} {a : α} (h : l[j]? = some a)
    (f : α → ℤ) (b : α) : ((l.set j b).map f).sum = (l.map f).sum - f a + f b := by
  obtain ⟨u, v, hl, -, hset, -⟩ := split_of_getElem? h
  rw [hset b, hl]
  simp only [List.map_append, List.map_cons, List.sum_append, List.sum_cons]
  omega

theorem countP_set_add {α : Type*} {l : List α} {j : ℕ} {a : α} (h : l[j]? = some a)
    (p : α → Bool) (b : α) :
    (l.set j b).countP p + (if p a then 1 else 0) = l.countP p + if p b then 1 else 0 := by
  obtain ⟨u, v, hl, -, hset, -⟩ := split_of_getElem? h
  rw [hset b, hl]
  simp only [List.countP_append, List.countP_cons]
  omega

/-- What one entry brings to a list of results grows by `b`. -/
theorem flatMap_set_perm {α β : Type*} {l : List α} {j : ℕ} {a a' : α} (h : l[j]? = some a)
    {f : α → List β} {b : β} (hf : f a' ~ b :: f a) : (l.set j a').flatMap f ~ b :: l.flatMap f := by
  obtain ⟨u, v, hl, -, hset, -⟩ := split_of_getElem? h
  rw [hset a', hl]
  simp only [List.flatMap_append, List.flatMap_cons]
  calc u.flatMap f ++ (f a' ++ v.flatMap f)
      _ ~ u.flatMap f ++ (b :: f a ++ v.flatMap f) := (hf.append_right _).append_left _
      _ ~ b :: (u.flatMap f ++ (f a ++ v.flatMap f)) := List.perm_middle

theorem flatMap_set_of_eq {α β : Type*} {l : List α} {j : ℕ} {a a' : α} (h : l[j]? = some a)
    {f : α → List β} (hf : f a' = f a) : (l.set j a').flatMap f = l.flatMap f := by
  rw [List.flatMap_def, map_set_of_eq h hf, List.flatMap_def]

theorem mapIdx_modify {α β : Type*} (l : List α) {n : ℕ} {f : α → α} {g : ℕ → α → β} (f' : β → β)
    (h : ∀ a, g n (f a) = f' (g n a)) : (l.modify n f).mapIdx g = (l.mapIdx g).modify n f' := by
  apply List.ext_getElem?
  intro m
  simp only [List.getElem?_mapIdx, List.getElem?_modify]
  by_cases hm : n = m
  · subst hm
    simp [Function.comp_def, h]
  · simp [hm]

theorem map_modify {α β : Type*} {f : α → α} {g : α → β} (f' : β → β) (h : ∀ a, g (f a) = f' (g a))
    (l : List α) (n : ℕ) : (l.modify n f).map g = (l.map g).modify n f' := by
  apply List.ext_getElem?
  intro m
  simp only [List.getElem?_map, List.getElem?_modify]
  cases l[m]? with
  | none => rfl
  | some a => by_cases hm : n = m <;> simp [hm, h]

theorem map_modify_of_eq {α β : Type*} {f : α → α} {g : α → β} (h : ∀ a, g (f a) = g a)
    (l : List α) (n : ℕ) : (l.modify n f).map g = l.map g :=
  (map_modify (fun b => b) h l n).trans (List.modify_id n (l.map g))

theorem any_congr {α : Type*} {p q : α → Bool} {l : List α} (h : ∀ a ∈ l, p a = q a) :
    l.any p = l.any q := by
  induction l with
  | nil => rfl
  | cons a l ih =>
    obtain ⟨ha, hl⟩ := List.forall_mem_cons.mp h
    rw [List.any_cons, List.any_cons, ha, ih hl]

theorem eraseP_congr {α : Type*} {p q : α → Bool} {l : List α} (h : ∀ a ∈ l, p a = q a) :
    l.eraseP p = l.eraseP q := by
  induction l with
  | nil => rfl
  | cons a l ih =>
    obtain ⟨ha, hl⟩ := List.forall_mem_cons.mp h
    rw [List.eraseP_cons, List.eraseP_cons, ha, ih hl]

/-- Keeping last occurrences, an element seen again moves to the end. -/
theorem dedup_concat {α : Type*} [DecidableEq α] (l : List α) (a : α) :
    (l ++ [a]).dedup = l.dedup.filter (· ≠ a) ++ [a] := by
  induction l with
  | nil => simp
  | cons x l ih =>
    rw [List.cons_append]
    by_cases hx : x ∈ l
    · rw [List.dedup_cons_of_mem (List.mem_append_left _ hx), List.dedup_cons_of_mem hx, ih]
    · by_cases hxa : x = a
      · subst hxa
        rw [List.dedup_cons_of_mem (by simp), List.dedup_cons_of_notMem hx, ih]
        simp
      · rw [List.dedup_cons_of_notMem (by simp [hx, hxa]), List.dedup_cons_of_notMem hx, ih]
        simp [hxa]

inductive Request where
  | idle
  | waiting
  | arrived
  | failed
  deriving DecidableEq, Repr

structure Slot (ι : Type*) where
  key : ι
  request : Request
  deriving DecidableEq, Repr

/-- `left` counts the requests without a result, so it cannot drift from the slots. -/
structure Batch (ι β : Type*) where
  slots : List (Slot ι)
  got : List β
  left : ℤ
  left_eq : left = slots.countP fun t => t.request ≠ .arrived

namespace Batch
variable {ι β : Type*}

def empty : Batch ι β := ⟨[], [], 0, rfl⟩

def start (keys : List ι) : Batch ι β where
  slots := keys.map fun k => ⟨k, .waiting⟩
  got := []
  left := keys.length
  left_eq := by simp [List.countP_map, Function.comp_def]

def Waiting (b : Batch ι β) (j : ℕ) : Prop := (b.slots[j]?.map Slot.request) = some .waiting

instance (b : Batch ι β) (j : ℕ) : Decidable (b.Waiting j) :=
  inferInstanceAs (Decidable (_ = _))

theorem Waiting.slot {b : Batch ι β} {j : ℕ} (h : b.Waiting j) :
    ∃ k, b.slots[j]? = some ⟨k, .waiting⟩ := by
  obtain ⟨⟨k, r⟩, ht, rfl⟩ := Option.map_eq_some_iff.mp h
  exact ⟨k, ht⟩

def receive (b : Batch ι β) (j : ℕ) (x : β) (h : b.Waiting j) : Batch ι β where
  slots := b.slots.modify j fun t => { t with request := .arrived }
  got := b.got ++ [x]
  left := b.left - 1
  left_eq := by
    obtain ⟨k, hk⟩ := h.slot
    obtain ⟨u, v, hl, -, -, hm⟩ := split_of_getElem? hk
    rw [b.left_eq, hm, hl]
    simp [List.countP_append]
    omega

def fail (b : Batch ι β) (j : ℕ) (h : b.Waiting j) : Batch ι β where
  slots := b.slots.modify j fun t => { t with request := .failed }
  got := b.got
  left := b.left
  left_eq := by
    obtain ⟨k, hk⟩ := h.slot
    obtain ⟨u, v, hl, -, -, hm⟩ := split_of_getElem? hk
    rw [b.left_eq, hm, hl]
    simp [List.countP_append]

def Complete (b : Batch ι β) : Prop := b.slots ≠ [] ∧ b.left = 0

instance (b : Batch ι β) : Decidable b.Complete :=
  inferInstanceAs (Decidable (b.slots ≠ [] ∧ b.left = 0))

def InFlight (b : Batch ι β) : Prop := ∃ t ∈ b.slots, t.request = .waiting

instance (b : Batch ι β) : Decidable b.InFlight :=
  inferInstanceAs (Decidable (∃ t ∈ b.slots, t.request = .waiting))

@[simp] theorem receive_got (b : Batch ι β) (j : ℕ) (x : β) (h : b.Waiting j) :
    (b.receive j x h).got = b.got ++ [x] := rfl

@[simp] theorem receive_left (b : Batch ι β) (j : ℕ) (x : β) (h : b.Waiting j) :
    (b.receive j x h).left = b.left - 1 := rfl

@[simp] theorem fail_got (b : Batch ι β) (j : ℕ) (h : b.Waiting j) : (b.fail j h).got = b.got := rfl

@[simp] theorem fail_left (b : Batch ι β) (j : ℕ) (h : b.Waiting j) :
    (b.fail j h).left = b.left := rfl

/-- A reply changes what became of one waiting request and nothing else. -/
theorem Waiting.split {b : Batch ι β} {j : ℕ} (h : b.Waiting j) :
    ∃ k u v, b.slots[j]? = some ⟨k, .waiting⟩ ∧ b.slots = u ++ ⟨k, .waiting⟩ :: v ∧
      (∀ x, (b.receive j x h).slots = u ++ ⟨k, .arrived⟩ :: v) ∧
      (b.fail j h).slots = u ++ ⟨k, .failed⟩ :: v := by
  obtain ⟨k, hk⟩ := h.slot
  obtain ⟨u, v, hl, -, -, hm⟩ := split_of_getElem? hk
  exact ⟨k, u, v, hk, hl, fun _ => hm _, hm _⟩

@[simp] theorem start_keys (keys : List ι) :
    (start keys : Batch ι β).slots.map Slot.key = keys := by
  simp [start, Function.comp_def]

@[simp] theorem receive_keys (b : Batch ι β) (j : ℕ) (x : β) (h : b.Waiting j) :
    (b.receive j x h).slots.map Slot.key = b.slots.map Slot.key := by
  obtain ⟨k, u, v, -, hl, hr, -⟩ := h.split
  simp [hr, hl]

@[simp] theorem fail_keys (b : Batch ι β) (j : ℕ) (h : b.Waiting j) :
    (b.fail j h).slots.map Slot.key = b.slots.map Slot.key := by
  obtain ⟨k, u, v, -, hl, -, hf⟩ := h.split
  simp [hf, hl]

theorem left_eq_zero_iff (b : Batch ι β) :
    b.left = 0 ↔ ∀ t ∈ b.slots, t.request = .arrived := by
  rw [b.left_eq]
  simp [List.countP_eq_zero]

theorem left_pos_of_waiting {b : Batch ι β} {j : ℕ} (h : b.Waiting j) : 0 < b.left := by
  obtain ⟨k, u, v, -, hl, -, -⟩ := h.split
  rw [b.left_eq, hl]
  simp [List.countP_append]
  omega

theorem not_complete_of_waiting {b : Batch ι β} {j : ℕ} (h : b.Waiting j) : ¬ b.Complete :=
  fun hc => (left_pos_of_waiting h).ne' hc.2

/-- The test of the last result, `left = 0` after the decrement, is exact. -/
theorem receive_complete_iff (b : Batch ι β) (j : ℕ) (x : β) (h : b.Waiting j) :
    (b.receive j x h).Complete ↔ b.left - 1 = 0 := by
  obtain ⟨k, u, v, -, -, hr, -⟩ := h.split
  exact ⟨And.right, fun h0 => ⟨by simp [hr], h0⟩⟩

theorem fail_not_complete (b : Batch ι β) (j : ℕ) (h : b.Waiting j) : ¬ (b.fail j h).Complete :=
  fun hc => (left_pos_of_waiting h).ne' hc.2

theorem start_not_complete (keys : List ι) : ¬ (start keys : Batch ι β).Complete := by
  rintro ⟨hne, h0⟩
  change (keys.length : ℤ) = 0 at h0
  have hlen : keys.length = 0 := by exact_mod_cast h0
  exact hne (by simp [start, List.length_eq_zero_iff.mp hlen])

theorem Complete.not_inFlight {b : Batch ι β} (h : b.Complete) : ¬ b.InFlight := by
  rintro ⟨t, ht, hw⟩
  rw [(b.left_eq_zero_iff.mp h.2) t ht] at hw
  cases hw

def Unfailed (b : Batch ι β) : Prop := ∀ t ∈ b.slots, t.request = .waiting ∨ t.request = .arrived

theorem unfailed_start (keys : List ι) : (start keys : Batch ι β).Unfailed := by
  intro t ht
  obtain ⟨k, -, rfl⟩ := List.mem_map.mp ht
  exact .inl rfl

theorem Unfailed.receive {b : Batch ι β} (hb : b.Unfailed) (j : ℕ) (x : β) (h : b.Waiting j) :
    (b.receive j x h).Unfailed := by
  obtain ⟨k, u, v, -, hl, hr, -⟩ := h.split
  intro t ht
  rw [hr] at ht
  rcases List.mem_append.mp ht with ht | ht
  · exact hb t (by simp [hl, ht])
  · rcases List.mem_cons.mp ht with rfl | ht
    · exact .inr rfl
    · exact hb t (by simp [hl, ht])

theorem Unfailed.inFlight_or_complete {b : Batch ι β} (hb : b.Unfailed) (hne : b.slots ≠ []) :
    b.InFlight ∨ b.Complete := by
  by_cases h : b.InFlight
  · exact .inl h
  · refine .inr ⟨hne, b.left_eq_zero_iff.mpr fun t ht => ?_⟩
    exact (hb t ht).resolve_left fun hw => h ⟨t, ht, hw⟩

/-- The results are, in some order, what `f` gives for the keys whose request arrived. -/
def Serves (f : ι → β) (b : Batch ι β) : Prop :=
  b.got.Perm ((b.slots.filter fun t => t.request = .arrived).map fun t => f t.key)

theorem serves_start (f : ι → β) (keys : List ι) : (start keys).Serves f := by
  have hnone : ((start keys : Batch ι β).slots.filter fun t => t.request = .arrived) = [] := by
    simp [start, List.filter_map, Function.comp_def]
  rw [Serves, hnone]
  exact List.Perm.refl _

theorem Serves.receive {f : ι → β} {b : Batch ι β} (hb : b.Serves f) {j : ℕ} (h : b.Waiting j)
    {k : ι} (hk : b.slots[j]? = some ⟨k, .waiting⟩) : (b.receive j (f k) h).Serves f := by
  obtain ⟨k', u, v, hk', hl, hr, -⟩ := h.split
  obtain rfl : k = k' := by rw [hk] at hk'; cases hk'; rfl
  unfold Serves at hb ⊢
  rw [hl] at hb
  rw [receive_got, hr]
  simp only [List.filter_append, List.filter_cons, List.map_append] at hb ⊢
  simp only [decide_true, if_true, List.map_cons]
  have hb' : b.got.Perm ((u.filter fun t => t.request = .arrived).map (fun t => f t.key) ++
      (v.filter fun t => t.request = .arrived).map fun t => f t.key) := by simpa using hb
  calc b.got ++ [f k]
      _ ~ f k :: b.got := List.perm_append_singleton _ _
      _ ~ _ := hb'.cons _
      _ ~ _ := List.perm_middle.symm

theorem Serves.fail {f : ι → β} {b : Batch ι β} (hb : b.Serves f) {j : ℕ} (h : b.Waiting j) :
    (b.fail j h).Serves f := by
  obtain ⟨k, u, v, -, hl, -, hf⟩ := h.split
  unfold Serves at hb ⊢
  rw [hl] at hb
  rw [fail_got, hf]
  simpa using hb

/-- Nothing is lost, repeated or invented: a complete batch holds one result for each key. -/
theorem Serves.complete {f : ι → β} {b : Batch ι β} (hb : b.Serves f) (hc : b.Complete) :
    b.got.Perm ((b.slots.map Slot.key).map f) := by
  have hall : (b.slots.filter fun t => t.request = .arrived) = b.slots :=
    List.filter_eq_self.mpr fun t ht => by simpa using b.left_eq_zero_iff.mp hc.2 t ht
  rw [Serves, hall] at hb
  rwa [List.map_map]

end Batch
end ComicApp
