import ComicApp.DownloadSize
import ComicApp.StoredChapters

/-!
# When a comic is marked finished

The one branch that sets `finish` compares the record of the comic with `totalChap`. It marks a
delivered call when the chapters of the record are those the call itself has completed, which holds
in particular when the calls own their records.
-/

namespace ComicApp.DownloadSession
open EventMachine

theorem Linked.ownChapters {order : ℕ → List ℕ} {s : State} (hL : Linked order s)
    (hv : ValidCalls s) (hr : s.running = true) (e : Event) : OwnChapters s e := by
  unfold OwnChapters AtLastPage
  split
  · intro call hc chapter hi _ comicl hf _
    obtain ⟨comicl', hf', -, -, hst⟩ := hL.link _ call hc ((hv hr _ call hc).poster_arrived hi)
    obtain rfl : comicl = comicl' := Option.some.inj (hf.symm.trans hf')
    exact hst.listChap_length
  · trivial

structure LastPage (s : State) (c i j : ℕ) (call : Call) (chapter : Chapter) : Prop where
  hc : s.calls[c]? = some call
  hi : call.chapters[i]? = some chapter
  hj : chapter.pages.Waiting j
  left : chapter.pages.left = 1
  record : ∃ comicl, s.realm.first call.comicID = some comicl ∧
    call.comic.totalChap = some ((comicl.listChap.length : ℤ) + 1)

/-- Only a page marks its comic finished. -/
theorem CallStep.finish_eq {e : Event} {call call' : Call} (h : CallStep e call call')
    (he : ∀ c i j data1, e ≠ .page c i j (some data1)) :
    call'.comic.finish = call.comic.finish := by
  cases h with
  | document c reply hw ho => cases Call.onDocument_outcome ho <;> rfl
  | poster c data hw hf =>
    rw [Call.forChapters_comic hf]
    rfl
  | page c i j data1 hi hj => exact absurd rfl (he c i j data1)
  | pageLast c i j data1 hi hj => exact absurd rfl (he c i j data1)
  | _ => rfl

/-- A finished call was finished before, or its last page has just arrived. -/
theorem Transition.finish_cases {s s' : State} {e : Event} (h : Transition s e s')
    (hr' : s'.running = true) {c : ℕ} {call' : Call} (hc' : s'.calls[c]? = some call')
    (hfin : call'.comic.finish = true) :
    (∃ call, s.calls[c]? = some call ∧ call.comic.finish = true ∧
      (call' = call ∨ CallStep e call call')) ∨
    ∃ (i j : ℕ) (data1 : Data) (call : Call) (chapter : Chapter) (hj : chapter.pages.Waiting j),
      e = .page c i j (some data1) ∧ LastPage s c i j call chapter ∧
        call' = (call.pageArrived i chapter j data1 hj).finished := by
  rcases h.calls_cases hr' hc' with ⟨hold, -⟩ | ⟨p, id, -, -, -, rfl⟩ | ⟨call, hc, he, hcs⟩
  · exact .inl ⟨call', hold, hfin, .inl rfl⟩
  · cases hfin
  by_cases hf : call.comic.finish = true
  · exact .inl ⟨call, hc, hf, .inr hcs⟩
  cases h with
  | page c₀ i j data1 call₀ chapter hr hc₀ hi hj =>
    obtain rfl := Option.some.inj he
    obtain rfl : call = call₀ := Option.some.inj (hc.symm.trans hc₀)
    have hget : ∀ call₁ : Call, (s.setCall c₀ call₁).calls[c₀]? = some call₁ := fun call₁ =>
      List.getElem?_set_self (List.getElem?_eq_some_iff.mp hc).1
    have hsame : ∀ {call₁ : Call}, (s.setCall c₀ call₁).calls[c₀]? = some call' → call' = call₁ :=
      fun h => Option.some.inj (h.symm.trans (hget _))
    generalize hs' : s.onPage c₀ call i chapter j data1 hj = s' at hc' hr'
    cases hs' ▸ onPage_outcome s c₀ call i chapter j data1 hj with
    | last comicl hl hrec hn =>
      have hleft : chapter.pages.left = 1 := by rw [Batch.receive_left] at hl; omega
      exact .inr ⟨i, j, data1, call, chapter, hj, rfl, ⟨hc, hi, hj, hleft, comicl, hrec, hn⟩,
        hsame hc'⟩
    | more | unrecorded | stored =>
      rw [hsame hc'] at hfin
      exact absurd hfin hf
  | _ =>
    rw [hcs.finish_eq nofun] at hfin
    exact absurd hfin hf

def FinishDelivered (s : State) : Prop :=
  s.running = true → ∀ (c : ℕ) (call : Call), s.calls[c]? = some call →
    call.comic.finish = true → call.Delivered

theorem finishDelivered_of_nil {s : State} (h : s.calls = []) : FinishDelivered s := by
  intro _ c call hc
  simp [h] at hc

/-- A delivered call hears of progress only. -/
theorem CallStep.delivered {e : Event} {call call' : Call} (h : CallStep e call call')
    (hv : call.Valid) (hd : call.Delivered) : call'.Delivered := by
  rcases h.inFlight with hw | ⟨c, i, j, n, rfl⟩
  · exact absurd hw (hv.not_inFlight hd)
  · cases h
    exact hd

theorem FinishDelivered.step {s s' : State} {e : Event} (h : FinishDelivered s) (hv : ValidCalls s)
    (hown : s.running = true → OwnChapters s e) (hs : DownloadSession.step s e = some s') :
    FinishDelivered s' := by
  intro hr' c call' hc' hfin
  have ht := Transition.of_step hs
  have hr : s.running = true := by
    apply ht.running
    rintro rfl
    cases ht
    cases hc'
  rcases ht.finish_cases hr' hc' hfin with ⟨call, hc, hf, rfl | hcs⟩ |
    ⟨i, j, data1, call, chapter, hj, rfl, hlast, rfl⟩
  · exact h hr c call' hc hf
  · exact hcs.delivered (hv hr c call hc) (h hr c call hc hf)
  · obtain ⟨hc, hi, -, hleft, comicl, hrec, hn⟩ := hlast
    have hvc := hv hr c call hc
    have hcount := hown hr call hc chapter hi hleft comicl hrec hn
    have hall := all_complete_of_last hvc hi hj data1 (by omega) hn hcount
    exact (hvc.pageArrived hi hj data1).delivered_iff.mpr ⟨hvc.poster_arrived hi, hall⟩

end ComicApp.DownloadSession
