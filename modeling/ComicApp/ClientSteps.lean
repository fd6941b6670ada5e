import ComicApp.MutationQueue
import ComicApp.DocumentCells

/-!
# What the client does with its writes

The queue holds the batches of the writes that are not answered, in their order, and while the
network is enabled the pipeline is the front of the queue. No assertion of the client fails, and an
answer changes the cache at the document of its write only.
-/

namespace ComicApp.Firestore
variable {κ φ α : Type} [DecidableEq κ] [DecidableEq φ] [DecidableEq α]

section Results
variable {server : Server φ α} {key : κ} {w : Write φ α} {b : MutationBatch κ φ α} {version : ℕ}
  {data : ObjectValue φ α}

omit [DecidableEq κ] in
theorem Write.Makes.length_results (h : w.Makes key b) :
    (server.results w version data).length = b.mutations.length := by
  rw [h.1]
  cases w with
  | setData data =>
    rw [server.results_setData]
    rfl
  | updateData d =>
    rw [server.results_updateData]
    unfold Write.ToMutations
    dsimp only
    split_ifs <;> rfl

omit [DecidableEq α] in
theorem Write.Makes.dedup_keys (h : w.Makes key b) : b.keys.dedup = [key] := by
  unfold MutationBatch.keys
  rw [h.1]
  cases w with
  | setData data => rfl
  | updateData d =>
    unfold Write.ToMutations
    dsimp only
    split_ifs <;> simp [Mutation.key]

theorem Write.Makes.doc_versions (h : w.Makes key b) (server : Server φ α) (version : ℕ)
    (data : ObjectValue φ α) :
    LocalStore.doc_versions b (server.results w version data) key = some version := by
  unfold LocalStore.doc_versions
  rw [h.1]
  cases w with
  | setData data => simp [Write.ToMutations, server.results_setData, Mutation.key]
  | updateData d =>
    rw [server.results_updateData]
    unfold Write.ToMutations
    dsimp only
    split_ifs <;> simp [Mutation.key]

/-- A cached document takes the answer to a write in unless it is as new. -/
def Server.answered (server : Server φ α) (version : ℕ) (data : ObjectValue φ α) (w : Write φ α)
    (cached : Option (MaybeDocument φ α)) : Option (MaybeDocument φ α) :=
  if cached.all fun doc => doc.version < version then some (server.acknowledge version data w cached)
  else cached

theorem applyToCache_results (s : LocalStore κ φ α) (h : w.Makes key b) :
    s.applyToCache b (server.results w version data) key = some { s with
      remote_document_cache := Function.update s.remote_document_cache key
        (server.answered version data w (s.remote_document_cache key)) } := by
  obtain ⟨batch_id, base_mutations, mutations⟩ := b
  have hversions := h.doc_versions server
  obtain rfl : mutations = w.ToMutations key := h.1
  unfold LocalStore.applyToCache Server.answered
  dsimp only
  rw [hversions, Option.bind_some]
  split_ifs with hold
  · rw [ApplyToRemoteDocument_results]
    rfl
  · rw [Function.update_eq_self]

end Results

namespace LocalStore.Ordered
variable {s : LocalStore κ φ α} (h : s.Ordered) {key : κ} {w : Write φ α}
  {b : MutationBatch κ φ α} {bs : List (MutationBatch κ φ α)}
include h

omit [DecidableEq κ] [DecidableEq φ] [DecidableEq α] in
theorem cache (cache : κ → Option (MaybeDocument φ α)) :
    LocalStore.Ordered { s with remote_document_cache := cache } := ⟨h.ids, h.next, h.rows⟩

theorem acknowledge (hqueue : s.mutation_queue = b :: bs) (hb : w.Makes key b) (server : Server φ α)
    (version : ℕ) (data : ObjectValue φ α) :
    ∃ t, s.AcknowledgeBatch b (server.results w version data) = some t ∧ t.Ordered ∧
      t.mutation_queue = bs ∧
      t.remote_document_cache = Function.update s.remote_document_cache key
        (server.answered version data w (s.remote_document_cache key)) := by
  have hordered := h.cache (Function.update s.remote_document_cache key
    (server.answered version data w (s.remote_document_cache key)))
  obtain ⟨t, hremove, ht, hbs, hcache⟩ := hordered.remove hqueue
  refine ⟨t, ?_, ht, hbs, hcache⟩
  unfold LocalStore.AcknowledgeBatch LocalStore.ApplyBatchResult
  rw [if_pos hb.length_results, hb.dedup_keys, List.foldlM_cons, applyToCache_results s hb]
  change (Option.bind (RemoveMutationBatch _ b) PerformConsistencyCheck) = some t
  rw [hremove, Option.bind_some, ht.consistent]

omit [DecidableEq φ] [DecidableEq α] in
theorem reject (hqueue : s.mutation_queue = b :: bs) :
    ∃ t, s.RejectBatch b.batch_id = some t ∧ t.Ordered ∧ t.mutation_queue = bs ∧
      t.remote_document_cache = s.remote_document_cache := by
  obtain ⟨t, hremove, ht, hbs, hcache⟩ := h.remove hqueue
  refine ⟨t, ?_, ht, hbs, hcache⟩
  have hb : b ∈ s.mutation_queue := by rw [hqueue]; exact List.mem_cons_self
  rw [LocalStore.RejectBatch, h.lookup hb, Option.bind_some, hremove, Option.bind_some, ht.consistent]

theorem writeLocally (key : κ) (w : Write φ α) : ∃ t b, s.WriteLocally (w.ToMutations key) = some t ∧
    t.Ordered ∧ w.Makes key b ∧ t.mutation_queue = s.mutation_queue ++ [b] ∧
      t.remote_document_cache = s.remote_document_cache := by
  let keys := (w.ToMutations key).map Mutation.key
  obtain ⟨existing, hexisting⟩ : ∃ existing, s.GetDocuments keys = some existing := by
    unfold LocalStore.GetDocuments
    rw [h.affecting]
    exact ⟨_, rfl⟩
  refine ⟨s.AddMutationBatch (baseMutations existing (w.ToMutations key)) (w.ToMutations key),
    ⟨s.next_batch_id, baseMutations existing (w.ToMutations key), w.ToMutations key⟩,
    ?_, h.add _ _, ⟨rfl, existing, rfl⟩, rfl, rfl⟩
  rw [LocalStore.WriteLocally, hexisting, Option.map_some]

end LocalStore.Ordered

def MadeBy (write : κ × Write φ α) (b : MutationBatch κ φ α) : Prop := write.2.Makes write.1 b

structure Client.Holds (c : Client κ φ α) (writes : List (κ × Write φ α)) : Prop where
  ordered : c.local_store.Ordered
  batches : List.Forall₂ MadeBy writes c.local_store.mutation_queue
  pipeline : c.write_pipeline =
    if c.is_network_enabled then c.local_store.mutation_queue.take kMaxPendingWrites else []

namespace Client.Holds
variable {c : Client κ φ α} {writes : List (κ × Write φ α)} {key : κ} {w : Write φ α}

omit [DecidableEq κ] [DecidableEq α] in
/-- A pipeline that holds the first batches is filled up. -/
theorem filled {s : LocalStore κ φ α} (hs : s.Ordered)
    (hbatches : List.Forall₂ MadeBy writes s.mutation_queue) {enabled : Bool}
    {write_pipeline : List (MutationBatch κ φ α)} (hpipeline : write_pipeline <+: s.mutation_queue)
    (hlength : write_pipeline.length ≤ kMaxPendingWrites) (hoff : enabled = false → write_pipeline = []) :
    (Client.mk s write_pipeline enabled).FillWritePipeline.Holds writes := by
  unfold Client.FillWritePipeline
  cases enabled with
  | false => exact ⟨hs, hbatches, hoff rfl⟩
  | true => exact ⟨hs, hbatches, hs.fill _ hpipeline hlength (Nat.le_add_left _ _)⟩

omit [DecidableEq κ] [DecidableEq α] in
/-- The first batch of the pipeline is that of the first write. -/
theorem first (h : c.Holds writes) (hpipeline : c.write_pipeline ≠ []) :
    ∃ key w writes' b bs, writes = (key, w) :: writes' ∧ c.local_store.mutation_queue = b :: bs ∧
      w.Makes key b ∧ List.Forall₂ MadeBy writes' bs ∧
      c.write_pipeline = b :: bs.take (kMaxPendingWrites - 1) ∧ c.is_network_enabled = true := by
  have hbatches := h.batches
  have htake := h.pipeline
  cases henabled : c.is_network_enabled with
  | false => exact absurd (by rw [htake, henabled]; rfl) hpipeline
  | true =>
    rw [henabled, if_pos rfl] at htake
    cases hqueue : c.local_store.mutation_queue with
    | nil => exact absurd (by rw [htake, hqueue]; rfl) hpipeline
    | cons b bs =>
      rw [hqueue] at hbatches htake
      cases hbatches with
      | cons hb hbs => exact ⟨_, _, _, b, bs, rfl, rfl, hb, hbs, htake, rfl⟩

theorem write (h : c.Holds writes) (key : κ) (w : Write φ α) :
    ∃ c', c.WriteMutations (w.ToMutations key) = some c' ∧ c'.Holds (writes ++ [(key, w)]) ∧
      c'.local_store.remote_document_cache = c.local_store.remote_document_cache := by
  obtain ⟨s, write_pipeline, enabled⟩ := c
  obtain ⟨t, b, hwrite, ht, hb, hqueue, hcache⟩ := h.ordered.writeLocally key w
  refine ⟨_, by rw [Client.WriteMutations, hwrite, Option.map_some], ?_, ?_⟩
  · have hbatches : List.Forall₂ MadeBy (writes ++ [(key, w)]) t.mutation_queue := by
      rw [hqueue]
      exact List.rel_append h.batches (.cons hb .nil)
    have hpipeline : write_pipeline = if enabled then s.mutation_queue.take kMaxPendingWrites else [] :=
      h.pipeline
    subst hpipeline
    refine filled ht hbatches ?_ ?_ ?_
    · rw [hqueue]
      cases enabled with
      | false => exact List.nil_prefix
      | true => exact (List.take_prefix _ _).trans (List.prefix_append _ _)
    · cases enabled <;> simp
    · rintro rfl
      rfl
  · rw [← hcache]
    unfold Client.FillWritePipeline
    cases enabled <;> rfl

omit [DecidableEq κ] [DecidableEq α] in
/-- The rest of the pipeline is filled up after an answer. -/
theorem rest {s : LocalStore κ φ α} {bs : List (MutationBatch κ φ α)} (hs : s.Ordered)
    (hqueue : s.mutation_queue = bs) (hbatches : List.Forall₂ MadeBy writes bs) :
    (Client.mk s (bs.take (kMaxPendingWrites - 1)) true).FillWritePipeline.Holds writes := by
  refine filled hs (hqueue ▸ hbatches) ?_ ?_ ?_
  · rw [hqueue]
    exact List.take_prefix _ _
  · rw [List.length_take]
    exact (Nat.min_le_left _ _).trans (Nat.sub_le _ _)
  · rintro ⟨⟩

theorem acknowledged (h : c.Holds ((key, w) :: writes)) (hpipeline : c.write_pipeline ≠ [])
    (server : Server φ α) (version : ℕ) (data : ObjectValue φ α) :
    ∃ c', c.OnWriteStreamMutationResult (server.results w version data) = some c' ∧ c'.Holds writes ∧
      c'.local_store.remote_document_cache =
        Function.update c.local_store.remote_document_cache key
          (server.answered version data w (c.local_store.remote_document_cache key)) := by
  obtain ⟨_, _, _, b, bs, heq, hqueue, hb, hbs, hfirst, henabled⟩ := h.first hpipeline
  obtain ⟨⟨rfl, rfl⟩, rfl⟩ := List.cons.inj heq
  obtain ⟨t, hack, ht, htail, hcache⟩ := h.ordered.acknowledge hqueue hb server version data
  obtain ⟨s, write_pipeline, enabled⟩ := c
  obtain rfl : write_pipeline = _ := hfirst
  obtain rfl : enabled = true := henabled
  refine ⟨_, ?_, rest ht htail hbs, hcache⟩
  dsimp only [Client.OnWriteStreamMutationResult]
  rw [hack, Option.map_some]

omit [DecidableEq α] in
theorem rejected (h : c.Holds ((key, w) :: writes)) (hpipeline : c.write_pipeline ≠ []) :
    ∃ c', c.HandleWriteError = some c' ∧ c'.Holds writes ∧
      c'.local_store.remote_document_cache = c.local_store.remote_document_cache := by
  obtain ⟨_, _, _, b, bs, heq, hqueue, hb, hbs, hfirst, henabled⟩ := h.first hpipeline
  obtain ⟨⟨rfl, rfl⟩, rfl⟩ := List.cons.inj heq
  obtain ⟨t, hreject, ht, htail, hcache⟩ := h.ordered.reject hqueue
  obtain ⟨s, write_pipeline, enabled⟩ := c
  obtain rfl : write_pipeline = _ := hfirst
  obtain rfl : enabled = true := henabled
  refine ⟨_, ?_, rest ht htail hbs, hcache⟩
  dsimp only [Client.HandleWriteError]
  rw [hreject, Option.map_some]

omit [DecidableEq κ] [DecidableEq α] in
theorem disabled (h : c.Holds writes) : c.DisableNetwork.Holds writes :=
  ⟨h.ordered, h.batches, rfl⟩

omit [DecidableEq κ] [DecidableEq α] in
theorem enabled (h : c.Holds writes) : c.EnableNetwork.Holds writes := by
  refine filled h.ordered h.batches ?_ ?_ ?_
  · rw [h.pipeline]
    split_ifs
    · exact List.take_prefix _ _
    · exact List.nil_prefix
  · rw [h.pipeline]
    split_ifs <;> simp
  · rintro ⟨⟩

omit [DecidableEq κ] [DecidableEq α] in
theorem restart (h : c.Holds writes) : c.restart.Holds writes := by
  change (Client.mk c.local_store.Start [] true).FillWritePipeline.Holds writes
  exact filled h.ordered.start h.batches List.nil_prefix (Nat.zero_le _) fun _ => rfl

/-- The view of a document goes through the batches of the writes. -/
theorem view (h : c.Holds writes) (key : κ) :
    c.local_store.GetDocument key = some (c.local_store.mutation_queue.foldl
      (fun document b => b.ApplyToLocalDocument document key)
      (c.local_store.remote_document_cache key)) := by
  refine h.ordered.view (fun b hb => ?_) key
  obtain ⟨i, hi, rfl⟩ := List.getElem_of_mem hb
  have hlength := h.batches.length_eq
  exact ⟨_, _, h.batches.get (by omega) hi⟩

end Client.Holds

def received (doc : MaybeDocument φ α) (cached : Option (MaybeDocument φ α)) :
    Option (MaybeDocument φ α) :=
  if cached.all fun existing_doc =>
      existing_doc.version < doc.version ∨
        (doc.version = existing_doc.version ∧ existing_doc.has_pending_writes) then some doc
  else cached

section Snapshots
variable {writes : List (κ × Write φ α)} {doc : MaybeDocument φ α}

omit [DecidableEq φ] [DecidableEq α] in
theorem applyDocumentUpdate_eq (s : LocalStore κ φ α) (key : κ)
    (hdoc : ∀ has_committed_mutations, doc ≠ .NoDocument 0 has_committed_mutations) :
    s.applyDocumentUpdate key doc = { s with
      remote_document_cache := Function.update s.remote_document_cache key
        (received doc (s.remote_document_cache key)) } := by
  unfold LocalStore.applyDocumentUpdate received
  split
  · exact absurd rfl (hdoc _)
  · split_ifs
    · rfl
    · rw [Function.update_eq_self]

omit [DecidableEq α] in
theorem Client.Holds.update {c : Client κ φ α} (h : c.Holds writes) (key : κ)
    (hdoc : ∀ has_committed_mutations, doc ≠ .NoDocument 0 has_committed_mutations) :
    Client.Holds { c with local_store := c.local_store.applyDocumentUpdate key doc } writes := by
  rw [applyDocumentUpdate_eq c.local_store key hdoc]
  exact ⟨h.ordered.cache _, h.batches, h.pipeline⟩

end Snapshots

end ComicApp.Firestore
