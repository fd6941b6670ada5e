import ComicApp.DownloadFinish
import ComicApp.DownloadRecords

/-!
# What counts as downloaded

`Comic.isDownloaded` and the entries of the shelf ask only whether a record exists, and the record
exists from the poster on. It is complete whenever it counts as downloaded if the process does not
end, and the comic is not opened again, between the poster and the last page.
-/

namespace ComicApp.DownloadSession
open EventMachine

def Entry.finish (s : State) : Entry → Bool
  | .call c => (s.calls[c]?.map fun call => call.comic.finish).getD false
  | .stored comic => comic.finish

def FullRecord (realm : Realm) (id : String) : Prop :=
  id ∈ realm.ids ∧ ∀ comic ∈ realm, comic.comicID = id →
    (comic.listChap.length : ℤ) = comic.comicNChap

/-- A poster arrives only for a comic without a record. A comic is opened, and the process ends,
only when the calls past their poster, for this comic or for any, have been delivered. -/
def Settled (s : State) : Event → Prop
  | .poster c (some data) => Unrecorded s (.poster c (some data))
  | .viewDidLoad => ∀ call ∈ s.calls, call.poster = .arrived → s.id = some call.comicID →
    call.Delivered
  | .relaunch => ∀ call ∈ s.calls, call.poster = .arrived → call.Delivered
  | _ => True

instance decidableSettled (s : State) : ∀ e, Decidable (Settled s e)
  | .poster c (some _) =>
    inferInstanceAs (Decidable (∀ call ∈ s.calls[c]?, s.realm.first call.comicID = none))
  | .viewDidLoad => inferInstanceAs (Decidable (∀ call ∈ s.calls, _ → _ → _))
  | .relaunch => inferInstanceAs (Decidable (∀ call ∈ s.calls, _ → _))
  | .poster _ none | .document _ _ | .listAll _ _ _ | .page _ _ _ _ => .isTrue trivial
  | .select _ | .leave _ | .download _ | .progress _ _ _ _ => .isTrue trivial

theorem Settled.unrecorded {s : State} {e : Event} (h : Settled s e) : Unrecorded s e := by
  unfold Unrecorded
  split
  · exact h
  · trivial

structure Completing (s : State) : Prop where
  calls : ValidCalls s
  linked : ∃ order, Linked order s
  ids : s.realm.ids.Nodup
  records : ∀ comic ∈ s.realm, (comic.listChap.length : ℤ) = comic.comicNChap ∨
    Owned s comic.comicID
  stored : ∀ comic, .stored comic ∈ s.listDownload →
    ∃ id, comic.idComic = some id ∧ FullRecord s.realm id
  finished : FinishDelivered s

/-- A delivered call has filled the record of its comic. -/
theorem Completing.full_of_delivered {s : State} (h : Completing s) {call : Call}
    (hm : call ∈ s.calls) (hd : call.Delivered) : FullRecord s.realm call.comicID := by
  obtain ⟨order, hL⟩ := h.linked
  obtain ⟨c, hc⟩ := List.mem_iff_getElem?.mp hm
  obtain ⟨comicl, hf, hone, hn, hst⟩ := hL.link c call hc hd.1
  refine ⟨List.one_le_count_iff.mp hone.ge, fun comic hmem hid => ?_⟩
  have hfirst := Realm.first_of_mem h.ids hmem
  rw [hid, hf] at hfirst
  rw [← Option.some.inj hfirst, hn, hst.listChap_length]
  exact hd.2

theorem Completing.full_of_settled {s : State} (h : Completing s) {id : String}
    (hid : id ∈ s.realm.ids) (hset : ∀ call ∈ s.calls, call.poster = .arrived →
      call.comicID = id → call.Delivered) : FullRecord s.realm id := by
  refine ⟨hid, fun comic hmem he => ?_⟩
  rcases h.records comic hmem with hfull | ⟨call, hm, hp, hc⟩
  · exact hfull
  · have hc' : call.comicID = id := hc.trans he
    exact (h.full_of_delivered hm (hset call hm hp hc')).2 comic hmem (he.trans hc'.symm)

/-- A full record stays as it is. -/
theorem FullRecord.step {s s' : State} {e : Event} {id : String} (hfull : FullRecord s.realm id)
    (h : Completing s) (hU : Unrecorded s e) (hs : DownloadSession.step s e = some s') :
    FullRecord s'.realm id := by
  obtain ⟨hid, hall⟩ := hfull
  generalize hrealm : s'.realm = realm
  cases hrealm ▸ (Transition.of_step hs).realm with
  | same => exact ⟨hid, hall⟩
  | add c data call hr hc hw =>
    refine ⟨by rw [Realm.ids_concat]; exact List.mem_append_left _ hid, fun comic hm he => ?_⟩
    rcases List.mem_append.mp hm with hm | hm
    · exact hall comic hm he
    · rw [List.mem_singleton.mp hm, posterArrived_record call data (h.calls hr c call hc).idComic] at he
      exact absurd (he ▸ hid) (Realm.first_eq_none.mp (hU call hc))
  | append c i j data1 call chapter comicl hr hc hi hj hf =>
    refine ⟨by rwa [Realm.appendChap_ids], fun comic hm he => ?_⟩
    rcases Realm.mem_appendChap hm with hm | ⟨comicl', hf', rfl⟩
    · exact hall comic hm he
    · obtain ⟨order, hL⟩ := h.linked
      have hroom := hL.room hc (h.calls hr c call hc) hi hj hf'
      have hfull := hall comicl' (Realm.first_eq_some hf').1 he
      omega

theorem Completing.records_step {s s' : State} {e : Event} (h : Completing s) (hS : Settled s e)
    (hs : DownloadSession.step s e = some s') :
    ∀ comic ∈ s'.realm, (comic.listChap.length : ℤ) = comic.comicNChap ∨
      Owned s' comic.comicID := by
  have ht := Transition.of_step hs
  by_cases hrel : e = .relaunch
  · subst hrel
    cases ht
    intro comic hm
    refine .inl ((h.full_of_settled (List.mem_map_of_mem hm) ?_).2 comic hm rfl)
    exact fun call hcall hp _ => hS call hcall hp
  have hold : ∀ comic ∈ s.realm, (comic.listChap.length : ℤ) = comic.comicNChap ∨
      Owned s' comic.comicID := fun comic hm =>
    (h.records comic hm).imp_right fun ho => ho.forward h.calls hrel ht
  generalize hrealm : s'.realm = realm
  cases hrealm ▸ ht.realm with
  | same => exact hold
  | add c data call hr hc hw =>
    intro comic hm
    rcases List.mem_append.mp hm with hm | hm
    · exact hold comic hm
    · rw [List.mem_singleton.mp hm, posterArrived_record call data (h.calls hr c call hc).idComic]
      exact .inr (owned_of_poster hs hc h.calls)
  | append c i j data1 call chapter comicl hr hc hi hj hf =>
    intro comic hm
    rcases Realm.mem_appendChap hm with hm | ⟨comicl', hf', rfl⟩
    · exact hold comic hm
    · have howned : Owned s call.comicID :=
        ⟨call, List.mem_of_getElem? hc, (h.calls hr c call hc).poster_arrived hi, rfl⟩
      refine .inr ?_
      rw [show LComic.comicID _ = call.comicID from (Realm.first_eq_some hf').2]
      exact howned.forward h.calls hrel ht

theorem Completing.stored_step {s s' : State} {e : Event} (h : Completing s) (hS : Settled s e)
    (hs : DownloadSession.step s e = some s') :
    ∀ comic, .stored comic ∈ s'.listDownload →
      ∃ id, comic.idComic = some id ∧ FullRecord s'.realm id := by
  have hkeep : (∀ comic, .stored comic ∈ s'.listDownload → .stored comic ∈ s.listDownload) →
      ∀ comic, .stored comic ∈ s'.listDownload →
        ∃ id, comic.idComic = some id ∧ FullRecord s'.realm id := by
    intro hsub comic hm
    obtain ⟨id, hid, hfull⟩ := h.stored comic (hsub comic hm)
    exact ⟨id, hid, hfull.step h hS.unrecorded hs⟩
  cases Transition.of_step hs with
  | relaunch =>
    intro comic hm
    obtain ⟨record, hmem, he⟩ := List.mem_map.mp hm
    obtain rfl := Entry.stored.inj he
    refine ⟨record.comicID, rfl, h.full_of_settled (List.mem_map_of_mem hmem) ?_⟩
    exact fun call hcall hp _ => hS call hcall hp
  | viewDidLoad => exact hkeep (by rw [(onViewDidLoad_frame s).2.2.1]; exact fun _ => id)
  | download p => exact hkeep (by rw [(onDownload_frame s p).2.1]; exact fun _ => id)
  | poster c data call hr hc hw =>
    have hnew : ∀ comic, Entry.stored comic ∈ s.listDownload ++ [Entry.call c] →
        .stored comic ∈ s.listDownload := by simp
    apply hkeep
    cases hf : (call.posterArrived data).forChapters with
    | none => rw [onPoster_of_trap hf]; exact hnew
    | some call' => rw [onPoster_of_some hf]; exact hnew
  | page c i j data1 call chapter hr hc hi hj =>
    apply hkeep
    generalize hs' : s.onPage c call i chapter j data1 hj = s'
    cases hs' ▸ onPage_outcome s c call i chapter j data1 hj with
    | _ => exact fun _ => id
  | _ => exact hkeep fun _ => id

theorem Completing.step {s s' : State} {e : Event} (h : Completing s) (hS : Settled s e)
    (hs : DownloadSession.step s e = some s') : Completing s' where
  calls := h.calls.step hs
  linked := by
    obtain ⟨order, hL⟩ := h.linked
    exact ⟨_, hL.step h.calls hS.unrecorded hs⟩
  ids := nodup_ids_step h.ids h.calls hS.unrecorded hs
  records := h.records_step hS hs
  stored := h.stored_step hS hs
  finished := by
    obtain ⟨order, hL⟩ := h.linked
    exact h.finished.step h.calls (fun hr => hL.ownChapters h.calls hr e) hs

end ComicApp.DownloadSession
