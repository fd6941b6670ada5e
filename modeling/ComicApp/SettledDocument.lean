import ComicApp.ClientSteps
import ComicApp.Revisions

/-!
# The cached copy of a document of one's own

A document that no other device writes. `r` is the revision of its last write that the client has an
answer to, and `cs` are the commits whose answers are on their way. The cache is somewhere between:
it holds the revision of its own version, or knows that it does not hold it.
-/

namespace ComicApp.Firestore
open ComicApp.Revisions
variable {φ α : Type} [DecidableEq φ] [DecidableEq α] (server : Server φ α)

/-- A document is what the cache takes it for, if the cache says so. -/
def MaybeDocument.Shows (document : Option (ObjectValue φ α)) : MaybeDocument φ α → Prop
  | Document data _ _ => document = some data
  | NoDocument _ _ => document = none
  | UnknownDocument _ => True

/-- The answer to a write brings a cached document to where the backend has brought it. -/
theorem shows_acknowledge (w : Write φ α) {data : ObjectValue φ α} (version cached : ℕ)
    (document_state : DocumentState) (h : Distinct (some data)) :
    (server.acknowledge version data w (some (.Document data cached document_state))).Shows
      (server.commit w (some data)) := by
  have hexact := acknowledge_exact server w version cached document_state h
  cases hcommit : server.commit w (some data) with
  | none =>
    rw [hcommit] at hexact
    cases hexact
  | some data' =>
    rw [hcommit] at hexact
    rw [Option.some.inj hexact]
    rfl

structure Settled (r : Revision (Option (ObjectValue φ α)))
    (cs : List (Commit (Option (ObjectValue φ α)) (Write φ α))) (h : History (Option (ObjectValue φ α)))
    (clock : ℕ) (cached : Option (MaybeDocument φ α)) : Prop where
  follow : Follow server.commit r cs
  newest : h.newest = last server.commit r cs
  revisions : ∀ v, r.version ≤ v →
    ∃ r', h.at_version v = some r' ∧ r'.state = stateAt server.commit r cs v
  in_time : h.newest.version ≤ clock
  uncached : cached = none → ∀ r' ∈ h.revisions, r.version ≤ r'.version
  cached : ∀ doc ∈ cached, r.version ≤ doc.version ∧ doc.version ≤ clock ∧
    doc.Shows (stateAt server.commit r cs doc.version)

namespace Settled
variable {server} {r : Revision (Option (ObjectValue φ α))}
  {c : Commit (Option (ObjectValue φ α)) (Write φ α)}
  {cs : List (Commit (Option (ObjectValue φ α)) (Write φ α))}
  {h : History (Option (ObjectValue φ α))} {clock : ℕ} {cached : Option (MaybeDocument φ α)}

theorem launch (hclock : r.version ≤ clock) : Settled server r [] ⟨r, []⟩ clock none where
  follow := trivial
  newest := rfl
  revisions v hv := ⟨r, History.at_version_newest hv, rfl⟩
  in_time := hclock
  uncached _ r' hr' := by
    obtain rfl := List.mem_singleton.mp hr'
    exact Nat.le_refl _
  cached := by rintro doc ⟨⟩

section Steps
variable (hs : Settled server r cs h clock cached)
include hs

theorem later {time : ℕ} (htime : clock ≤ time) : Settled server r cs h time cached where
  follow := hs.follow
  newest := hs.newest
  revisions := hs.revisions
  in_time := hs.in_time.trans htime
  uncached := hs.uncached
  cached doc hdoc := by
    obtain ⟨hr, hclock, hshows⟩ := hs.cached doc hdoc
    exact ⟨hr, hclock.trans htime, hshows⟩

/-- The backend has committed a write that changes nothing. -/
theorem unchanged {w : Write φ α} (hsame : server.commit w h.newest.state = h.newest.state) :
    Settled server r (cs ++ [⟨h.newest.version, w, h.newest.state⟩]) h clock cached := by
  have hlast := hs.newest
  have hstate (v : ℕ) : stateAt server.commit r (cs ++ [⟨h.newest.version, w, h.newest.state⟩]) v =
      stateAt server.commit r cs v := by
    refine hs.follow.stateAt_concat_same ?_ ?_ v
    · rw [← hlast]
    · rw [← hlast]
      exact hsame
  refine ⟨hs.follow.concat ?_, ?_, ?_, hs.in_time, hs.uncached, ?_⟩
  · rw [← hlast]
    exact ⟨rfl, .inr ⟨rfl, hsame⟩⟩
  · rw [last_append, ← hlast]
    exact congrArg (Revision.mk h.newest.version) hsame.symm
  · simpa only [hstate] using hs.revisions
  · simpa only [hstate] using hs.cached

/-- The backend has committed a write at a new version. -/
theorem changed {version : ℕ} (hversion : clock < version) (w : Write φ α) :
    Settled server r (cs ++ [⟨version, w, h.newest.state⟩]) (h.push ⟨version, server.commit w h.newest.state⟩)
      version cached := by
  have hlast := hs.newest
  have hnewest : h.newest.version < version := hs.in_time.trans_lt hversion
  have hfollow : Follow server.commit r (cs ++ [⟨version, w, h.newest.state⟩]) := by
    refine hs.follow.concat ?_
    rw [← hlast]
    exact ⟨rfl, .inl hnewest⟩
  refine ⟨hfollow, ?_, fun v hv => ?_, Nat.le_refl _, fun hnone => ?_, fun doc hdoc => ?_⟩
  · rw [last_append, ← hlast]
    rfl
  · by_cases hlt : v < version
    · rw [History.at_version_push hlt, stateAt_concat_of_lt hlt]
      exact hs.revisions v hv
    · refine ⟨_, History.at_version_newest (Nat.le_of_not_lt hlt), ?_⟩
      rw [stateAt_of_le, last_append, ← hlast]
      · rfl
      · intro c hc
        have hle := (hfollow.version_le c hc).2
        rw [last_append] at hle
        exact hle.trans (Nat.le_of_not_lt hlt)
  · refine List.forall_mem_cons.mpr ⟨?_, hs.uncached hnone⟩
    have hle := hs.follow.le_last
    rw [← hlast] at hle
    exact hle.trans hnewest.le
  · obtain ⟨hr, hclock, hshows⟩ := hs.cached doc hdoc
    have hlt : doc.version < version := hclock.trans_lt hversion
    rw [stateAt_concat_of_lt hlt]
    exact ⟨hr, hlt.le, hshows⟩

/-- The cache is never behind the answers. -/
theorem le_of_received {doc : MaybeDocument φ α} {r' : Revision (Option (ObjectValue φ α))}
    (hr' : r' ∈ h.revisions) (hle : r'.version ≤ doc.version)
    (hreceived : (cached.all fun existing_doc => existing_doc.version < doc.version ∨
      (doc.version = existing_doc.version ∧ existing_doc.has_pending_writes)) = true) :
    r.version ≤ doc.version := by
  cases hcached : cached with
  | none => exact (hs.uncached hcached r' hr').trans hle
  | some existing_doc =>
    have hr := (hs.cached existing_doc hcached).1
    rw [hcached] at hreceived
    have hor := of_decide_eq_true hreceived
    omega

theorem received {doc : MaybeDocument φ α} (hclock : doc.version ≤ clock)
    {r' : Revision (Option (ObjectValue φ α))} (hr' : r' ∈ h.revisions)
    (hle : r'.version ≤ doc.version) (hshows : r.version ≤ doc.version →
      doc.Shows (stateAt server.commit r cs doc.version)) :
    Settled server r cs h clock (received doc cached) := by
  unfold Firestore.received
  split_ifs with hreceived
  · have hr := hs.le_of_received hr' hle hreceived
    refine ⟨hs.follow, hs.newest, hs.revisions, hs.in_time, by rintro ⟨⟩, fun doc' hdoc' => ?_⟩
    obtain rfl := Option.some.inj hdoc'
    exact ⟨hr, hclock, hshows hr⟩
  · exact hs

/-- A snapshot has shown the document. -/
theorem found {time version : ℕ} {data : ObjectValue φ α} (htime : time ≤ clock)
    (hrevision : h.at_version time = some ⟨version, some data⟩) :
    Settled server r cs h clock (Firestore.received (.Document data version .kSynced) cached) := by
  have hversion := History.version_le hrevision
  refine hs.received (hversion.trans htime) (History.mem_of_at_version hrevision) (Nat.le_refl _) ?_
  intro hr
  obtain ⟨r', hr', hstate⟩ := hs.revisions version hr
  rw [History.at_version_self hrevision] at hr'
  obtain rfl := Option.some.inj hr'
  exact hstate.symm

/-- A snapshot has shown that the document is missing. -/
theorem missing {time version : ℕ} (htime : time ≤ clock)
    (hrevision : h.at_version time = some ⟨version, none⟩) :
    Settled server r cs h clock (Firestore.received (.NoDocument time false) cached) := by
  have hversion := History.version_le hrevision
  refine hs.received htime (History.mem_of_at_version hrevision) hversion fun hr => ?_
  obtain ⟨r', hr', hstate⟩ := hs.revisions time hr
  rw [hrevision] at hr'
  obtain rfl := Option.some.inj hr'
  exact hstate.symm

end Steps

/-- The answer to the first commit has come. -/
theorem acknowledged (hs : Settled server r (c :: cs) h clock cached) (hdistinct : Distinct r.state) :
    Settled server (r.next server.commit c) cs h clock
      (server.answered c.version (c.previous.getD fun _ => none) c.write cached) := by
  obtain ⟨hnext, hfollow⟩ := hs.follow
  have hstart := hfollow.stateAt_self
  have hclock : c.version ≤ clock := by
    have hle := (hs.follow.version_le c List.mem_cons_self).2
    rw [← hs.newest] at hle
    exact hle.trans hs.in_time
  refine ⟨hfollow, hs.newest, fun v hv => ?_, hs.in_time, fun hnone => ?_, fun doc hdoc => ?_⟩
  · rw [← stateAt_cons hv]
    exact hs.revisions v (hnext.le.trans hv)
  · unfold Server.answered at hnone
    split_ifs at hnone with hold
    rw [hnone] at hold
    exact absurd rfl hold
  · unfold Server.answered at hdoc
    split_ifs at hdoc with hold
    · -- the cached document takes the write in
      obtain rfl := Option.some.inj hdoc
      have hversion : (server.acknowledge c.version (c.previous.getD fun _ => none) c.write cached).version =
          c.version := by
        unfold Server.acknowledge
        split <;> rfl
      rw [hversion]
      refine ⟨Nat.le_refl _, hclock, ?_⟩
      change MaybeDocument.Shows (stateAt server.commit (r.next server.commit c) cs
        (r.next server.commit c).version) _
      rw [hstart]
      change MaybeDocument.Shows (server.commit c.write r.state) _
      cases hw : c.write with
      | setData data => exact server.setData data r.state
      | updateData d =>
        cases hcached : cached with
        | none => trivial
        | some existing_doc =>
          cases existing_doc with
          | NoDocument version b => trivial
          | UnknownDocument version => trivial
          | Document data version document_state =>
            rw [hcached] at hold
            obtain ⟨-, -, hshows⟩ := hs.cached _ hcached
            rw [hs.follow.stateAt_before (of_decide_eq_true hold)] at hshows
            have hshows : r.state = some data := hshows
            rw [hshows] at hdistinct
            rw [hnext.previous, hshows]
            exact shows_acknowledge server (.updateData d) c.version version document_state hdistinct
    · -- the cached document is as new as the answer
      obtain ⟨hr, hclock', hshows⟩ := hs.cached doc hdoc
      have hle : c.version ≤ doc.version := by
        by_contra hlt
        refine hold ?_
        rw [hdoc]
        exact decide_eq_true (Nat.lt_of_not_le hlt)
      exact ⟨hle, hclock', stateAt_cons hle ▸ hshows⟩

end Settled

end ComicApp.Firestore
