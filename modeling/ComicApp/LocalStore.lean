import ComicApp.Mutations
import Mathlib.Data.List.Dedup

/-!
# The local store of the Firestore client

The queue of the mutations that the backend has not answered yet, with its index by documents, the
cache of remote documents, and the pipeline of the batches that are sent. The queue is the one of a
single user, kept in LevelDB: a table of batches in the order of their ids and a table of the
documents that they touch. A failed `HARD_ASSERT` is `none`.
-/

namespace ComicApp.Firestore
variable {κ φ α : Type} [DecidableEq κ] [DecidableEq φ] [DecidableEq α]

structure LocalStore (κ φ α : Type) where
  mutation_queue : List (MutationBatch κ φ α)
  document_mutations : List (κ × ℕ)
  next_batch_id : ℕ
  remote_document_cache : κ → Option (MaybeDocument φ α)

namespace LocalStore

def Start (s : LocalStore κ φ α) : LocalStore κ φ α :=
  { s with next_batch_id := (s.mutation_queue.map MutationBatch.batch_id).foldl max 0 + 1 }

def putRow (rows : List (κ × ℕ)) (row : κ × ℕ) : List (κ × ℕ) :=
  if row ∈ rows then rows else rows ++ [row]

def AddMutationBatch (s : LocalStore κ φ α) (base_mutations mutations : List (Mutation κ φ α)) :
    LocalStore κ φ α :=
  { s with
    mutation_queue := s.mutation_queue ++ [⟨s.next_batch_id, base_mutations, mutations⟩]
    document_mutations :=
      mutations.foldl (fun rows m => putRow rows (m.key, s.next_batch_id)) s.document_mutations
    next_batch_id := s.next_batch_id + 1 }

def LookupMutationBatch (s : LocalStore κ φ α) (batch_id : ℕ) : Option (MutationBatch κ φ α) :=
  s.mutation_queue.find? fun batch => batch.batch_id = batch_id

def RemoveMutationBatch (s : LocalStore κ φ α) (batch : MutationBatch κ φ α) :
    Option (LocalStore κ φ α) :=
  (s.LookupMutationBatch batch.batch_id).map fun _ =>
    { s with
      mutation_queue := s.mutation_queue.filter fun b => b.batch_id ≠ batch.batch_id
      document_mutations := batch.mutations.foldl
        (fun rows m => rows.filter (· ≠ (m.key, batch.batch_id))) s.document_mutations }

def AllMutationBatchesWithIds (s : LocalStore κ φ α) (batch_ids : List ℕ) :
    Option (List (MutationBatch κ φ α)) :=
  if ∀ batch_id ∈ batch_ids, (s.LookupMutationBatch batch_id).isSome then
    some (s.mutation_queue.filter fun batch => batch.batch_id ∈ batch_ids)
  else none

def AllMutationBatchesAffectingDocumentKeys (s : LocalStore κ φ α) (document_keys : List κ) :
    Option (List (MutationBatch κ φ α)) :=
  s.AllMutationBatchesWithIds
    ((s.document_mutations.filter fun row => row.1 ∈ document_keys).map Prod.snd)

def NextMutationBatchAfterBatchId (s : LocalStore κ φ α) (batch_id : Option ℕ) :
    Option (MutationBatch κ φ α) :=
  s.mutation_queue.find? fun batch => batch_id.all fun batch_id => batch_id < batch.batch_id

def PerformConsistencyCheck (s : LocalStore κ φ α) : Option (LocalStore κ φ α) :=
  if s.mutation_queue = [] → s.document_mutations = [] then some s else none

def GetDocument (s : LocalStore κ φ α) (key : κ) : Option (Option (MaybeDocument φ α)) :=
  (s.AllMutationBatchesAffectingDocumentKeys [key]).map fun batches =>
    batches.foldl (fun document batch => batch.ApplyToLocalDocument document key)
      (s.remote_document_cache key)

/-- `LocalDocumentsView::GetDocuments`, where a missing document is a `NoDocument`. -/
def GetDocuments (s : LocalStore κ φ α) (keys : List κ) : Option (κ → Option (MaybeDocument φ α)) :=
  (s.AllMutationBatchesAffectingDocumentKeys keys).map fun batches key =>
    if key ∈ keys then
      let local_view := batches.foldl (fun document batch => batch.ApplyToLocalDocument document key)
        (s.remote_document_cache key)
      some (local_view.getD (.NoDocument 0 false))
    else none

def WriteLocally (s : LocalStore κ φ α) (mutations : List (Mutation κ φ α)) :
    Option (LocalStore κ φ α) :=
  (s.GetDocuments (mutations.map Mutation.key)).map fun existing_documents =>
    s.AddMutationBatch (baseMutations existing_documents mutations) mutations

def doc_versions (batch : MutationBatch κ φ α) (mutation_results : List (MutationResult α)) :
    κ → Option ℕ :=
  (batch.mutations.zip mutation_results).foldl
    (fun versions p => Function.update versions p.1.key (some p.2.version)) fun _ => none

/-- The cached document takes the batch in unless it is as new as the answer. -/
def applyToCache (s : LocalStore κ φ α) (batch : MutationBatch κ φ α)
    (mutation_results : List (MutationResult α)) (doc_key : κ) : Option (LocalStore κ φ α) :=
  let remote_doc := s.remote_document_cache doc_key
  (doc_versions batch mutation_results doc_key).bind fun ack_version =>
    if remote_doc.all fun doc => doc.version < ack_version then
      (batch.ApplyToRemoteDocument remote_doc doc_key mutation_results).bind fun doc =>
        match doc, remote_doc with
        | none, none => some s
        | none, some _ => none
        | some doc, _ => some { s with
            remote_document_cache := Function.update s.remote_document_cache doc_key (some doc) }
    else some s

def ApplyBatchResult (s : LocalStore κ φ α) (batch : MutationBatch κ φ α)
    (mutation_results : List (MutationResult α)) : Option (LocalStore κ φ α) :=
  if mutation_results.length = batch.mutations.length then
    (batch.keys.dedup.foldlM (fun (s : LocalStore κ φ α) doc_key =>
      s.applyToCache batch mutation_results doc_key) s).bind fun s => s.RemoveMutationBatch batch
  else none

def AcknowledgeBatch (s : LocalStore κ φ α) (batch : MutationBatch κ φ α)
    (mutation_results : List (MutationResult α)) : Option (LocalStore κ φ α) :=
  (s.ApplyBatchResult batch mutation_results).bind PerformConsistencyCheck

def RejectBatch (s : LocalStore κ φ α) (batch_id : ℕ) : Option (LocalStore κ φ α) :=
  (s.LookupMutationBatch batch_id).bind fun to_reject =>
    (s.RemoveMutationBatch to_reject).bind PerformConsistencyCheck

def applyDocumentUpdate (s : LocalStore κ φ α) (key : κ) (doc : MaybeDocument φ α) :
    LocalStore κ φ α :=
  match doc with
  | .NoDocument 0 _ => { s with
      remote_document_cache := Function.update s.remote_document_cache key none }
  | doc =>
    if (s.remote_document_cache key).all fun existing_doc =>
        existing_doc.version < doc.version ∨
          (doc.version = existing_doc.version ∧ existing_doc.has_pending_writes) then
      { s with remote_document_cache := Function.update s.remote_document_cache key (some doc) }
    else s

end LocalStore

def kMaxPendingWrites : ℕ := 10

/-- The local store with the part of `RemoteStore` that sends the writes. -/
structure Client (κ φ α : Type) where
  local_store : LocalStore κ φ α
  write_pipeline : List (MutationBatch κ φ α)
  is_network_enabled : Bool

namespace Client

def fill (s : LocalStore κ φ α) : ℕ → List (MutationBatch κ φ α) → List (MutationBatch κ φ α)
  | 0, write_pipeline => write_pipeline
  | n + 1, write_pipeline =>
    if write_pipeline.length < kMaxPendingWrites then
      match s.NextMutationBatchAfterBatchId (write_pipeline.getLast?.map MutationBatch.batch_id) with
      | none => write_pipeline
      | some batch => fill s n (write_pipeline ++ [batch])
    else write_pipeline

def FillWritePipeline (c : Client κ φ α) : Client κ φ α :=
  if c.is_network_enabled then
    { c with write_pipeline := fill c.local_store kMaxPendingWrites c.write_pipeline }
  else c

def WriteMutations (c : Client κ φ α) (mutations : List (Mutation κ φ α)) : Option (Client κ φ α) :=
  (c.local_store.WriteLocally mutations).map fun local_store =>
    { c with local_store := local_store }.FillWritePipeline

/-- A result is for the first batch of the pipeline. -/
def OnWriteStreamMutationResult (c : Client κ φ α) (mutation_results : List (MutationResult α)) :
    Option (Client κ φ α) :=
  match c.write_pipeline with
  | [] => none
  | batch :: write_pipeline =>
    (c.local_store.AcknowledgeBatch batch mutation_results).map fun local_store =>
      { c with
        local_store := local_store
        write_pipeline := write_pipeline }.FillWritePipeline

/-- A permanent error is that of the first batch of the pipeline, which is given up. -/
def HandleWriteError (c : Client κ φ α) : Option (Client κ φ α) :=
  match c.write_pipeline with
  | [] => some c
  | batch :: write_pipeline =>
    (c.local_store.RejectBatch batch.batch_id).map fun local_store =>
      { c with
        local_store := local_store
        write_pipeline := write_pipeline }.FillWritePipeline

def DisableNetwork (c : Client κ φ α) : Client κ φ α :=
  { c with
    is_network_enabled := false
    write_pipeline := [] }

def EnableNetwork (c : Client κ φ α) : Client κ φ α :=
  { c with is_network_enabled := true }.FillWritePipeline

def restart (c : Client κ φ α) : Client κ φ α :=
  EnableNetwork { c with
    local_store := c.local_store.Start
    write_pipeline := [] }

end Client

end ComicApp.Firestore
