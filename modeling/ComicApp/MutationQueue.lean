import ComicApp.LocalStore
import ComicApp.MutationEffects

/-!
# The order of the mutation queue

The ids of the batches grow along the queue, the index holds exactly the documents that the batches
touch, and the pipeline is a prefix of the queue. So each lookup finds what it is made for.
-/

namespace ComicApp.Firestore
variable {κ φ α : Type} [DecidableEq κ] [DecidableEq φ] [DecidableEq α]

namespace LocalStore

structure Ordered (s : LocalStore κ φ α) : Prop where
  ids : s.mutation_queue.Pairwise fun b b' => b.batch_id < b'.batch_id
  next : ∀ b ∈ s.mutation_queue, b.batch_id < s.next_batch_id
  rows : ∀ row, row ∈ s.document_mutations ↔
    ∃ b ∈ s.mutation_queue, row.2 = b.batch_id ∧ row.1 ∈ b.keys

section Rows
omit [DecidableEq φ] [DecidableEq α]
variable {rows : List (κ × ℕ)} {row : κ × ℕ} {mutations : List (Mutation κ φ α)} {batch_id : ℕ}

theorem mem_putRow {row' : κ × ℕ} : row' ∈ putRow rows row ↔ row' ∈ rows ∨ row' = row := by
  unfold putRow
  split_ifs with h
  · constructor
    · exact .inl
    · rintro (hrow | rfl)
      · exact hrow
      · exact h
  · simp

theorem mem_putRows : row ∈ mutations.foldl (fun rows m => putRow rows (m.key, batch_id)) rows ↔
    row ∈ rows ∨ (row.2 = batch_id ∧ row.1 ∈ mutations.map Mutation.key) := by
  induction mutations generalizing rows with
  | nil => simp
  | cons m mutations ih =>
    rw [List.foldl_cons, ih, mem_putRow, List.map_cons, List.mem_cons, or_assoc]
    refine or_congr_right ?_
    constructor
    · rintro (rfl | ⟨hid, hkey⟩)
      · exact ⟨rfl, .inl rfl⟩
      · exact ⟨hid, .inr hkey⟩
    · rintro ⟨hid, hkey | hkey⟩
      · exact .inl (Prod.ext hkey hid)
      · exact .inr ⟨hid, hkey⟩

theorem mem_deleteRows :
    row ∈ mutations.foldl (fun rows m => rows.filter (· ≠ (m.key, batch_id))) rows ↔
      row ∈ rows ∧ ¬ (row.2 = batch_id ∧ row.1 ∈ mutations.map Mutation.key) := by
  induction mutations generalizing rows with
  | nil => simp
  | cons m mutations ih =>
    rw [List.foldl_cons, ih, List.mem_filter, List.map_cons, List.mem_cons, and_assoc]
    refine and_congr_right fun _ => ?_
    have hpair : row = (m.key, batch_id) ↔ row.1 = m.key ∧ row.2 = batch_id := Prod.ext_iff
    simp only [ne_eq, decide_not, Bool.not_eq_true', decide_eq_false_iff_not, hpair]
    tauto

end Rows

namespace Ordered
variable {s t : LocalStore κ φ α} (h : s.Ordered)
include h

omit [DecidableEq φ] [DecidableEq α] in
theorem add (base_mutations mutations : List (Mutation κ φ α)) :
    (s.AddMutationBatch base_mutations mutations).Ordered where
  ids := by
    refine List.pairwise_append.mpr ⟨h.ids, List.pairwise_singleton _ _, ?_⟩
    intro b hb b' hb'
    obtain rfl := List.mem_singleton.mp hb'
    exact h.next b hb
  next b hb := by
    rcases List.mem_append.mp hb with hb | hb
    · exact Nat.lt_succ_of_lt (h.next b hb)
    · obtain rfl := List.mem_singleton.mp hb
      exact Nat.lt_succ_self _
  rows row := by
    unfold AddMutationBatch
    dsimp only
    rw [mem_putRows, h.rows]
    constructor
    · rintro (⟨b, hb, hrow⟩ | hrow)
      · exact ⟨b, List.mem_append_left _ hb, hrow⟩
      · exact ⟨_, List.mem_append_right _ (List.mem_singleton_self _), hrow⟩
    · rintro ⟨b, hb, hrow⟩
      rcases List.mem_append.mp hb with hb | hb
      · exact .inl ⟨b, hb, hrow⟩
      · obtain rfl := List.mem_singleton.mp hb
        exact .inr hrow

omit [DecidableEq κ] [DecidableEq φ] [DecidableEq α] in
theorem start : s.Start.Ordered where
  ids := h.ids
  next b hb := by
    have hle : ∀ (ids : List ℕ) (n : ℕ), (∀ id ∈ ids, id ≤ ids.foldl max n) ∧ n ≤ ids.foldl max n := by
      intro ids
      induction ids with
      | nil => exact fun n => ⟨by simp, Nat.le_refl n⟩
      | cons id ids ih =>
        intro n
        obtain ⟨hids, hn⟩ := ih (max n id)
        refine ⟨List.forall_mem_cons.mpr ⟨?_, hids⟩, ?_⟩
        · exact (Nat.le_max_right n id).trans hn
        · exact (Nat.le_max_left n id).trans hn
    exact Nat.lt_succ_of_le ((hle _ 0).1 b.batch_id (List.mem_map_of_mem hb))
  rows := h.rows

omit [DecidableEq κ] [DecidableEq φ] [DecidableEq α] in
/-- A batch of the queue is found by its id. -/
theorem lookup {b : MutationBatch κ φ α} (hb : b ∈ s.mutation_queue) :
    s.LookupMutationBatch b.batch_id = some b := by
  obtain ⟨bs, cs, hqueue⟩ := List.append_of_mem hb
  have hids := h.ids
  unfold LookupMutationBatch
  rw [hqueue] at hids ⊢
  have hbefore : ∀ c ∈ bs, ¬ decide (c.batch_id = b.batch_id) = true := by
    intro c hc heq
    have hlt := (List.pairwise_append.mp hids).2.2 c hc b List.mem_cons_self
    exact absurd (of_decide_eq_true heq) (Nat.ne_of_lt hlt)
  rw [List.find?_append, List.find?_eq_none.mpr hbefore, Option.none_or, List.find?_cons_of_pos]
  exact decide_eq_true rfl

omit [DecidableEq φ] [DecidableEq α] in
/-- The first batch of the queue can be removed, and its rows with it. -/
theorem remove {b : MutationBatch κ φ α} {bs : List (MutationBatch κ φ α)}
    (hqueue : s.mutation_queue = b :: bs) :
    ∃ t, s.RemoveMutationBatch b = some t ∧ t.Ordered ∧ t.mutation_queue = bs ∧
      t.remote_document_cache = s.remote_document_cache := by
  have hb : b ∈ s.mutation_queue := by rw [hqueue]; exact List.mem_cons_self
  have hids := h.ids
  rw [hqueue] at hids
  obtain ⟨hlt, hids⟩ := List.pairwise_cons.mp hids
  have hrest : (s.mutation_queue.filter fun b' => b'.batch_id ≠ b.batch_id) = bs := by
    rw [hqueue, List.filter_cons_of_neg (by simp)]
    refine List.filter_eq_self.mpr fun b' hb' => ?_
    exact decide_eq_true (Nat.ne_of_gt (hlt b' hb'))
  let rows := b.mutations.foldl
    (fun rows m => rows.filter (· ≠ (m.key, b.batch_id))) s.document_mutations
  have hremove : s.RemoveMutationBatch b =
      some { s with mutation_queue := bs, document_mutations := rows } := by
    rw [RemoveMutationBatch, h.lookup hb, Option.map_some, hrest]
  refine ⟨_, hremove, ⟨hids, ?_, ?_⟩, rfl, rfl⟩
  · exact fun b' hb' => h.next b' (by rw [hqueue]; exact List.mem_cons_of_mem _ hb')
  · intro row
    dsimp only
    rw [mem_deleteRows, h.rows, hqueue]
    constructor
    · rintro ⟨⟨b', hb', hrow⟩, hnot⟩
      rcases List.mem_cons.mp hb' with rfl | hb'
      · exact absurd hrow hnot
      · exact ⟨b', hb', hrow⟩
    · rintro ⟨b', hb', hrow⟩
      refine ⟨⟨b', List.mem_cons_of_mem _ hb', hrow⟩, ?_⟩
      rintro ⟨hid, -⟩
      exact absurd (hrow.1.symm.trans hid) (Nat.ne_of_gt (hlt b' hb'))

omit [DecidableEq κ] [DecidableEq φ] [DecidableEq α] in
theorem consistent : s.PerformConsistencyCheck = some s := by
  refine if_pos fun hempty => List.eq_nil_iff_forall_not_mem.mpr fun row hrow => ?_
  obtain ⟨b, hb, -⟩ := (h.rows row).mp hrow
  rw [hempty] at hb
  cases hb

omit [DecidableEq φ] [DecidableEq α] in
/-- The index leads to the batches that touch one of the documents. -/
theorem affecting (keys : List κ) : s.AllMutationBatchesAffectingDocumentKeys keys =
    some (s.mutation_queue.filter fun b => ∃ key ∈ keys, key ∈ b.keys) := by
  have hmem (id : ℕ) : id ∈ (s.document_mutations.filter fun row => row.1 ∈ keys).map Prod.snd ↔
      ∃ b ∈ s.mutation_queue, b.batch_id = id ∧ ∃ key ∈ keys, key ∈ b.keys := by
    constructor
    · intro hid
      obtain ⟨row, hrow, rfl⟩ := List.mem_map.mp hid
      obtain ⟨hrow, hkey⟩ := List.mem_filter.mp hrow
      obtain ⟨b, hb, hid, hkeys⟩ := (h.rows row).mp hrow
      exact ⟨b, hb, hid.symm, row.1, of_decide_eq_true hkey, hkeys⟩
    · rintro ⟨b, hb, rfl, key, hkey, hkeys⟩
      refine List.mem_map.mpr ⟨(key, b.batch_id), List.mem_filter.mpr ⟨?_, ?_⟩, rfl⟩
      · exact (h.rows _).mpr ⟨b, hb, rfl, hkeys⟩
      · exact decide_eq_true hkey
  have hfound : ∀ id ∈ (s.document_mutations.filter fun row => row.1 ∈ keys).map Prod.snd,
      (s.LookupMutationBatch id).isSome := by
    intro id hid
    obtain ⟨b, hb, rfl, -⟩ := (hmem id).mp hid
    rw [h.lookup hb]
    rfl
  unfold AllMutationBatchesAffectingDocumentKeys AllMutationBatchesWithIds
  rw [if_pos hfound]
  refine congrArg some (List.filter_congr fun b hb => ?_)
  rw [decide_eq_decide, hmem]
  constructor
  · rintro ⟨b', hb', hid, hkeys⟩
    obtain rfl : b' = b := Option.some.inj ((h.lookup hb').symm.trans (hid ▸ h.lookup hb))
    exact hkeys
  · exact fun hkeys => ⟨b, hb, rfl, hkeys⟩

omit [DecidableEq κ] [DecidableEq φ] [DecidableEq α] in
/-- After some of the first batches comes the first of the others. -/
theorem next_after {bs cs : List (MutationBatch κ φ α)} (hqueue : s.mutation_queue = bs ++ cs) :
    s.NextMutationBatchAfterBatchId (bs.getLast?.map MutationBatch.batch_id) = cs.head? := by
  have hids := h.ids
  rw [hqueue] at hids
  obtain ⟨hbs, -, hlt⟩ := List.pairwise_append.mp hids
  unfold NextMutationBatchAfterBatchId
  rw [hqueue, List.find?_append]
  rcases List.eq_nil_or_concat' bs with rfl | ⟨bs, b, rfl⟩
  · cases cs <;> rfl
  · rw [List.getLast?_concat, Option.map_some]
    have hpassed : ∀ b' ∈ bs ++ [b], ¬ (some b.batch_id).all (fun id => id < b'.batch_id) = true := by
      intro b' hb' hafter
      have hlt' : b.batch_id < b'.batch_id := of_decide_eq_true hafter
      rcases List.mem_append.mp hb' with hb' | hb'
      · have := (List.pairwise_append.mp hbs).2.2 b' hb' b (List.mem_singleton_self b)
        omega
      · obtain rfl := List.mem_singleton.mp hb'
        exact absurd hlt' (Nat.lt_irrefl _)
    rw [List.find?_eq_none.mpr hpassed, Option.none_or]
    cases cs with
    | nil => rfl
    | cons c cs =>
      refine List.find?_cons_of_pos ?_
      exact decide_eq_true (hlt b (by simp) c List.mem_cons_self)

omit [DecidableEq κ] [DecidableEq φ] [DecidableEq α] in
/-- The pipeline is filled up with the first batches of the queue. -/
theorem fill (n : ℕ) {write_pipeline : List (MutationBatch κ φ α)}
    (hpipeline : write_pipeline <+: s.mutation_queue)
    (hlength : write_pipeline.length ≤ kMaxPendingWrites)
    (hn : kMaxPendingWrites ≤ write_pipeline.length + n) :
    Client.fill s n write_pipeline = s.mutation_queue.take kMaxPendingWrites := by
  have hfull (hmax : write_pipeline.length = kMaxPendingWrites) :
      write_pipeline = s.mutation_queue.take kMaxPendingWrites := by
    rw [← hmax]
    exact List.prefix_iff_eq_take.mp hpipeline
  induction n generalizing write_pipeline with
  | zero => exact hfull (by omega)
  | succ n ih =>
    unfold Client.fill
    split_ifs with hroom
    · obtain ⟨cs, hqueue⟩ := hpipeline
      rw [h.next_after hqueue.symm]
      cases cs with
      | nil =>
        dsimp only [List.head?_nil]
        rw [← hqueue, List.append_nil, List.take_of_length_le hlength]
      | cons c cs =>
        have hnext : write_pipeline ++ [c] <+: s.mutation_queue := ⟨cs, by rw [← hqueue]; simp⟩
        have hlength' : (write_pipeline ++ [c]).length = write_pipeline.length + 1 := by simp
        refine ih hnext (by omega) (by omega) fun hmax => ?_
        rw [← hmax]
        exact List.prefix_iff_eq_take.mp hnext
    · exact hfull (by omega)

end Ordered

end LocalStore

def Write.Makes (key : κ) (w : Write φ α) (b : MutationBatch κ φ α) : Prop :=
  b.mutations = w.ToMutations key ∧ ∃ existing, b.base_mutations = baseMutations existing b.mutations

section View
variable {key key' : κ} {w : Write φ α} {b : MutationBatch κ φ α}

omit [DecidableEq κ] [DecidableEq α] in
theorem Write.Makes.mem_keys (h : w.Makes key b) : key' ∈ b.keys ↔ key' = key := by
  unfold MutationBatch.keys
  rw [h.1]
  cases w with
  | setData data => exact List.mem_singleton
  | updateData d =>
    unfold Write.ToMutations
    dsimp only
    split_ifs <;> simp [Mutation.key]

/-- Other documents are left alone. -/
theorem Write.Makes.other (h : w.Makes key b) (hkey : key' ≠ key)
    (maybe_doc : Option (MaybeDocument φ α)) : b.ApplyToLocalDocument maybe_doc key' = maybe_doc := by
  have hmutations : ∀ m ∈ b.mutations, m.key = key := by
    rw [h.1]
    exact fun m => key_of_mem_ToMutations
  obtain ⟨-, existing, hbase⟩ := h
  unfold MutationBatch.ApplyToLocalDocument
  dsimp only
  rw [foldl_others, foldl_others]
  · intro m hm heq
    rw [hbase] at hm
    exact hkey (heq.symm.trans (key_of_mem_baseMutations hmutations hm))
  · intro m hm heq
    exact hkey (heq.symm.trans (hmutations m hm))

/-- The data of the own document after the batch of a write. -/
theorem Write.Makes.contents (h : w.Makes key b) : ∃ base, ∀ maybe_doc : Option (MaybeDocument φ α),
    contents (b.ApplyToLocalDocument maybe_doc key) = w.view base (contents maybe_doc) := by
  obtain ⟨hmutations, existing, hbase⟩ := h
  refine ⟨existing key, fun maybe_doc => ?_⟩
  rw [← contents_ApplyToLocalDocument w key b.batch_id existing maybe_doc, ← hmutations, ← hbase]

/-- The local view of a document goes through the whole queue. -/
theorem LocalStore.Ordered.view {s : LocalStore κ φ α} (h : s.Ordered)
    (hmade : ∀ b ∈ s.mutation_queue, ∃ key w, Write.Makes key w b) (key : κ) :
    s.GetDocument key = some (s.mutation_queue.foldl
      (fun document b => b.ApplyToLocalDocument document key) (s.remote_document_cache key)) := by
  unfold LocalStore.GetDocument
  rw [h.affecting, Option.map_some, List.foldl_filter]
  refine congrArg some ?_
  generalize s.remote_document_cache key = document
  revert hmade
  generalize s.mutation_queue = queue
  intro hmade
  induction queue generalizing document with
  | nil => rfl
  | cons b queue ih =>
    obtain ⟨⟨key', w, hb⟩, hqueue⟩ := List.forall_mem_cons.mp hmade
    rw [List.foldl_cons, List.foldl_cons, ih _ hqueue]
    split_ifs with haffects
    · rfl
    · refine congrArg (fun document => List.foldl _ document queue) (hb.other ?_ document).symm
      rintro rfl
      exact haffects (decide_eq_true ⟨key, List.mem_singleton_self key, hb.mem_keys.mpr rfl⟩)

end View

end ComicApp.Firestore
