import ComicApp.DownloadFinish

/-!
# The order of stored chapters and pages

A chapter is appended to its record when its last page arrives, and a page to its chapter when it
arrives, so the stored order is the order of the replies. `arrived` reads that order off the events
of a run.
-/

namespace ComicApp

def Remote.page (R : Remote) (id : String) (p : ℕ × ℕ) : Data :=
  ((R.chapters id)[p.1]?.getD [])[p.2]?.getD []

def Call.completeAt (call : Call) (k : ℕ) : Bool :=
  match call.chapters[k]? with
  | none => false
  | some chapter => chapter.Complete

theorem Call.completeAt_setChapter {call : Call} {i : ℕ} {chapter : Chapter}
    (hi : call.chapters[i]? = some chapter) (chapter' : Chapter) (k : ℕ) :
    (call.setChapter i chapter').completeAt k =
      if k = i then decide chapter'.Complete else call.completeAt k := by
  unfold completeAt
  split_ifs with hk
  · rw [hk, Stored.getElem?_setChapter_self hi]
  · rw [Stored.getElem?_setChapter hk]

theorem Call.completeAt_false {call : Call} {i : ℕ} {chapter : Chapter}
    (hi : call.chapters[i]? = some chapter) (hc : ¬ chapter.Complete) :
    call.completeAt i = false := by
  unfold completeAt
  rw [hi]
  exact decide_eq_false hc

namespace DownloadSession
open EventMachine

def nextArrived (c : ℕ) (l : List (ℕ × ℕ)) : Event → List (ℕ × ℕ)
  | .page c' i j (some _) => if c' = c then l ++ [(i, j)] else l
  | .relaunch => []
  | _ => l

/-- The pages of call `c` of the last process, in the order they arrived. -/
def arrived (c : ℕ) (es : List Event) : List (ℕ × ℕ) := es.foldl (nextArrived c) []

@[simp] theorem arrived_concat (c : ℕ) (es : List Event) (e : Event) :
    arrived c (es ++ [e]) = nextArrived c (arrived c es) e := by
  simp [arrived]

def pagesOf (R : Remote) (id : String) (l : List (ℕ × ℕ)) (i : ℕ) : List Data :=
  (l.filter fun p => p.1 = i).map (R.page id)

/-- The chapter whose last page is the `i`-th last page to arrive holds, in the order of arrival, the
pages of the `i`-th folder. -/
def KeepsOrder (R : Remote) (id : String) (l : List (ℕ × ℕ)) : Prop :=
  ∀ i < (R.chapters id).length,
    (l.map Prod.fst).dedup[i]?.map (pagesOf R id l) = (R.chapters id)[i]?

/-- The call and the order of its stored chapters, as the pages `l` that have arrived tell them. -/
structure Tracks (R : Remote) (call : Call) (order : List ℕ) (l : List (ℕ × ℕ)) : Prop where
  got : ∀ i chapter, call.chapters[i]? = some chapter →
    chapter.pages.got = pagesOf R call.comicID l i
  known : ∀ p ∈ l, ∃ chapter, call.chapters[p.1]? = some chapter
  order : order = (l.map Prod.fst).dedup.filter call.completeAt

theorem pagesOf_concat_self (R : Remote) (id : String) (l : List (ℕ × ℕ)) (i j : ℕ) :
    pagesOf R id (l ++ [(i, j)]) i = pagesOf R id l i ++ [R.page id (i, j)] := by
  simp [pagesOf]

theorem pagesOf_concat_of_ne (R : Remote) (id : String) (l : List (ℕ × ℕ)) {i k : ℕ} (hk : k ≠ i)
    (j : ℕ) : pagesOf R id (l ++ [(i, j)]) k = pagesOf R id l k := by
  simp [pagesOf, Ne.symm hk]

namespace Tracks
variable {R : Remote} {call call' : Call} {order : List ℕ} {l : List (ℕ × ℕ)}

theorem congr (h : Tracks R call order l) (hid : call'.comicID = call.comicID)
    (hch : call'.chapters = call.chapters) : Tracks R call' order l where
  got := by rw [hid, hch]; exact h.got
  known := by rw [hch]; exact h.known
  order := by
    have hsame : call'.completeAt = call.completeAt := by
      funext k
      rw [Call.completeAt, Call.completeAt, hch]
    rw [hsame]
    exact h.order

/-- A call without chapters has received nothing. -/
theorem nil (hnil : call.chapters = []) : Tracks R call [] [] where
  got i chapter hi := by simp [hnil] at hi
  known p hp := by cases hp
  order := rfl

theorem eq_nil (h : Tracks R call order l) (hnil : call.chapters = []) : l = [] ∧ order = [] := by
  have hl : l = [] := by
    by_contra hne
    obtain ⟨p, hp⟩ := List.exists_mem_of_ne_nil l hne
    obtain ⟨chapter, hi⟩ := h.known p hp
    simp [hnil] at hi
  refine ⟨hl, ?_⟩
  rw [h.order, hl]
  rfl

/-- A chapter that keeps its pages and stays incomplete. -/
theorem setChapter (h : Tracks R call order l) {i : ℕ} {chapter : Chapter}
    (hi : call.chapters[i]? = some chapter) (hc : ¬ chapter.Complete) (chapter' : Chapter)
    (hc' : ¬ chapter'.Complete) (hgot : chapter'.pages.got = chapter.pages.got) :
    Tracks R (call.setChapter i chapter') order l where
  got k chapter₀ hk := by
    by_cases hki : k = i
    · subst hki
      rw [Stored.getElem?_setChapter_self hi] at hk
      rw [← Option.some.inj hk, hgot]
      exact h.got k chapter hi
    · rw [Stored.getElem?_setChapter hki] at hk
      exact h.got k chapter₀ hk
  known p hp := by
    obtain ⟨chapter₀, h₀⟩ := h.known p hp
    by_cases hki : p.1 = i
    · exact ⟨chapter', by rw [hki]; exact Stored.getElem?_setChapter_self hi chapter'⟩
    · exact ⟨chapter₀, by rw [Stored.getElem?_setChapter hki, h₀]⟩
  order := by
    have hsame : (call.setChapter i chapter').completeAt = call.completeAt := by
      funext k
      rw [Call.completeAt_setChapter hi]
      split_ifs with hk
      · rw [hk, Call.completeAt_false hi hc]
        exact decide_eq_false hc'
      · rfl
    rw [hsame]
    exact h.order

/-- A page arrives in chapter `i`, which is stored last if that completes it. -/
theorem page (h : Tracks R call order l) {i j : ℕ} {chapter : Chapter}
    (hi : call.chapters[i]? = some chapter) (hc : ¬ chapter.Complete) (chapter' : Chapter)
    (hgot : chapter'.pages.got = chapter.pages.got ++ [R.page call.comicID (i, j)]) :
    Tracks R (call.setChapter i chapter') (if chapter'.Complete then order ++ [i] else order)
      (l ++ [(i, j)]) where
  got k chapter₀ hk := by
    by_cases hki : k = i
    · subst hki
      rw [Stored.getElem?_setChapter_self hi] at hk
      rw [← Option.some.inj hk, hgot, h.got k chapter hi]
      exact (pagesOf_concat_self R call.comicID l k j).symm
    · rw [Stored.getElem?_setChapter hki] at hk
      rw [h.got k chapter₀ hk]
      exact (pagesOf_concat_of_ne R call.comicID l hki j).symm
  known p hp := by
    by_cases hki : p.1 = i
    · exact ⟨chapter', by rw [hki]; exact Stored.getElem?_setChapter_self hi chapter'⟩
    · have hp' : p ∈ l := by
        rcases List.mem_append.mp hp with hp | hp
        · exact hp
        · rw [List.mem_singleton.mp hp] at hki
          exact absurd rfl hki
      obtain ⟨chapter₀, h₀⟩ := h.known p hp'
      exact ⟨chapter₀, by rw [Stored.getElem?_setChapter hki, h₀]⟩
  order := by
    have hold : ((l.map Prod.fst).dedup.filter (· ≠ i)).filter
        (call.setChapter i chapter').completeAt = order := by
      rw [h.order, List.filter_filter]
      apply List.filter_congr
      intro k _
      rw [Call.completeAt_setChapter hi]
      by_cases hk : k = i
      · simp [hk, Call.completeAt_false hi hc]
      · simp [hk]
    rw [List.map_append, List.map_singleton, dedup_concat, List.filter_append, hold]
    have hself := Call.completeAt_setChapter hi chapter' i
    rw [if_pos rfl] at hself
    split_ifs with hc'
    · simp [hself, hc']
    · simp [hself, hc']

end Tracks

theorem nextOrder_of_ne {s : State} {e : Event} {c : ℕ} (he : e ≠ .relaunch) (hc : e.ofCall ≠ some c)
    (order : ℕ → List ℕ) : nextOrder s e order c = order c := by
  cases hcompl : completes s e with
  | none => rw [nextOrder_of_none he hcompl]
  | some p =>
    obtain ⟨c', i⟩ := p
    have hne : c ≠ c' := by
      rintro rfl
      unfold completes at hcompl
      split at hcompl
      · split at hcompl
        · cases hcompl
        · split_ifs at hcompl
          obtain ⟨rfl, -⟩ := Prod.mk.inj (Option.some.inj hcompl)
          exact hc rfl
      · cases hcompl
    rw [nextOrder_of_some hcompl, Function.update_of_ne hne]

theorem nextArrived_of_ne {e : Event} {c : ℕ} (he : e ≠ .relaunch) (hc : e.ofCall ≠ some c)
    (l : List (ℕ × ℕ)) : nextArrived c l e = l := by
  unfold nextArrived
  split
  · rename_i c' i j data1
    exact if_neg fun h => hc (congrArg some h)
  · exact absurd rfl he
  · rfl

/-- What a page delivers is the page of the remote folder. -/
theorem page_eq {R : Remote} {s : State} {c i j : ℕ} {data1 : Data} {call : Call} {chapter : Chapter}
    (hc : s.calls[c]? = some call) (hi : call.chapters[i]? = some chapter)
    (hj : chapter.pages.Waiting j) (hA : Answers R s (.page c i j (some data1))) (hv : call.Valid)
    (hm : call.Mirrors R) : data1 = R.page call.comicID (i, j) := by
  obtain ⟨task, htask⟩ := hj.slot
  have hmem := List.mem_of_getElem? hi
  have hitem : (R.listAll chapter.path)[j]? = some task.item := by
    have hget : chapter.items[j]? = some task.item := by
      rw [Chapter.items, List.getElem?_map, List.getElem?_map, htask]
      rfl
    obtain ⟨hlt, hitem⟩ := List.getElem?_eq_some_iff.mp hget
    rw [← hitem]
    exact List.prefix_iff_getElem?.mp (hm.partly chapter hmem) j hlt
  have hfolder : (R.chapters call.comicID)[i]? = some (R.pages chapter.path) := by
    rw [hm.chapters_eq hv (hv.poster_arrived hi), List.getElem?_map, hi]
    rfl
  have hpage : (R.pages chapter.path)[j]? = some (R.getData task.item) := by
    rw [Remote.pages, List.getElem?_map, hitem]
    rfl
  rw [Remote.page, hfolder, Option.getD_some, hpage, Option.getD_some]
  exact hA call hc chapter hi _ htask

theorem CallStep.tracks {R : Remote} {s : State} {e : Event} {c : ℕ} {call call' : Call}
    (h : CallStep e call call') (hc : s.calls[c]? = some call) (he : e.ofCall = some c)
    (hA : Answers R s e) (hv : call.Valid) (hm : call.Mirrors R) {order : ℕ → List ℕ}
    {l : List (ℕ × ℕ)} (ht : Tracks R call (order c) l) :
    Tracks R call' (nextOrder s e order c) (nextArrived c l e) := by
  have hpage : ∀ {i j : ℕ} {data1 : Data} {chapter : Chapter} (hi : call.chapters[i]? = some chapter)
      (hj : chapter.pages.Waiting j), e = .page c i j (some data1) →
      Tracks R (call.pageArrived i chapter j data1 hj) (nextOrder s e order c)
        (nextArrived c l e) := by
    rintro i j data1 chapter hi hj rfl
    have hset := ht.page hi (Batch.not_complete_of_waiting hj)
      { chapter with pages := chapter.pages.receive j data1 hj }
      (by rw [← page_eq hc hi hj hA hv hm]; rfl)
    have hcompl := completes_page hc hi j data1
    have hiff : Chapter.Complete { chapter with pages := chapter.pages.receive j data1 hj } ↔
        chapter.pages.left - 1 = 0 := Batch.receive_complete_iff chapter.pages j data1 hj
    have harr : nextArrived c l (.page c i j (some data1)) = l ++ [(i, j)] := if_pos rfl
    rw [harr]
    by_cases hleft : chapter.pages.left = 1
    · rw [if_pos hleft] at hcompl
      rw [nextOrder_of_some hcompl, Function.update_self]
      rw [if_pos (hiff.mpr (by omega))] at hset
      exact hset.congr rfl rfl
    · rw [if_neg hleft] at hcompl
      rw [nextOrder_of_none (by simp) hcompl]
      rw [if_neg (by rw [hiff]; omega)] at hset
      exact hset.congr rfl rfl
  cases h with
  | document c' reply hw ho =>
    obtain ⟨hid, hch, -, -⟩ := Call.onDocument_spec ho
    rw [nextOrder_of_none (by simp) rfl]
    exact ht.congr hid hch
  | posterFailed c' hw =>
    rw [nextOrder_of_none (by simp) rfl]
    exact ht.congr rfl rfl
  | poster c' data hw hf =>
    rw [nextOrder_of_none (by simp) rfl]
    have hnil := hv.chapters_nil (by simp [hw])
    obtain ⟨hl, ho⟩ := ht.eq_nil hnil
    obtain ⟨-, -, hfresh⟩ := Call.forChapters_spec hf hnil
    rw [ho]
    change Tracks R call' [] l
    rw [hl]
    refine ⟨fun i chapter hi => ?_, nofun, rfl⟩
    obtain ⟨filePath, -, rfl⟩ := hfresh i chapter hi
    rfl
  | @listAll c' i reply _ chapter hi hw =>
    rw [nextOrder_of_none (by simp) rfl]
    have hmem := List.mem_of_getElem? hi
    have hempty : chapter.pages = .empty := hv.unlisted chapter hmem hw
    have hset := ht.setChapter hi (hv.not_complete hmem hw) { chapter with
      listing := reply.request
      pages := .start (Chapter.tasks call.arrayCalcPercent reply.listed) }
      (Batch.start_not_complete _) (by rw [hempty]; rfl)
    exact hset.congr rfl rfl
  | @pageFailed c' i j _ chapter hi hj =>
    rw [nextOrder_of_none (by simp) rfl]
    exact ht.setChapter hi (Batch.not_complete_of_waiting hj)
      { chapter with pages := chapter.pages.fail j hj } (Batch.fail_not_complete _ _ hj) rfl
  | page c' i j data1 hi hj =>
    obtain rfl := Option.some.inj he
    exact hpage hi hj rfl
  | pageLast c' i j data1 hi hj =>
    obtain rfl := Option.some.inj he
    exact (hpage hi hj rfl).congr rfl rfl
  | progress c' i j n hi hj =>
    rw [nextOrder_of_none (by simp) rfl]
    exact ht.congr rfl rfl

structure Ordered (R : Remote) (es : List Event) (order : ℕ → List ℕ) (s : State) : Prop where
  linked : Linked order s
  unstarted : ∀ c, s.running = true → s.calls[c]? = none → arrived c es = []
  tracks : ∀ c call, s.running = true → s.calls[c]? = some call →
    Tracks R call (order c) (arrived c es)

theorem Ordered.step {R : Remote} {es : List Event} {order : ℕ → List ℕ} {s s' : State} {e : Event}
    (h : Ordered R es order s) (hcalls : s.running = true → ∀ (c : ℕ) (call : Call),
      s.calls[c]? = some call → call.Valid ∧ call.Mirrors R)
    (hA : Answers R s e) (hU : Unrecorded s e) (hs : DownloadSession.step s e = some s') :
    Ordered R (es ++ [e]) (nextOrder s e order) s' := by
  have hv : ValidCalls s := fun hr c call hc => (hcalls hr c call hc).1
  have ht := Transition.of_step hs
  refine ⟨h.linked.step hv hU hs, fun c hr' hnone => ?_, fun c call' hr' hc' => ?_⟩
  all_goals rw [arrived_concat]
  · by_cases hne : e = .relaunch
    · rw [hne]
      rfl
    · have hr := ht.running hne
      have hnone' : s.calls[c]? = none := by
        cases hc : s.calls[c]? with
        | none => rfl
        | some call =>
          obtain ⟨call', hc', -⟩ := ht.calls_forward hv hne hc
          rw [hnone] at hc'
          cases hc'
      have hof : e.ofCall ≠ some c := by
        intro hof
        obtain ⟨call, hc⟩ := ht.exists_call hof
        rw [hnone'] at hc
        cases hc
      rw [nextArrived_of_ne hne hof]
      exact h.unstarted c hr hnone'
  · have hne : e ≠ .relaunch := by
      rintro rfl
      cases ht
      cases hc'
    have hr := ht.running hne
    rcases ht.calls_cases hr' hc' with ⟨hold, hof⟩ | ⟨p, id, rfl, -, hlen, rfl⟩ | ⟨call, hc, he, hcs⟩
    · rw [nextOrder_of_ne hne hof, nextArrived_of_ne hne hof]
      exact h.tracks c call' hr hold
    · have hnone : s.calls[c]? = none := by rw [hlen, List.getElem?_eq_none le_rfl]
      have hidle : order c = [] := h.linked.idle c fun call hc => by simp [hnone] at hc
      rw [nextOrder_of_none (by simp) rfl, hidle]
      change Tracks R _ [] (arrived c es)
      rw [h.unstarted c hr hnone]
      exact Tracks.nil rfl
    · obtain ⟨hvc, hm⟩ := hcalls hr c call hc
      exact hcs.tracks hc he hA hvc hm (h.tracks c call hr hc)

theorem ordered_of_run {R : Remote} {s₀ s : State} {es : List Event} (h0 : s₀.calls = [])
    (hC : Along step (fun s e => Answers R s e ∧ Unrecorded s e) s₀ es)
    (hrun : run step s₀ es = some s) : FinishDelivered s ∧ ∃ order, Ordered R es order s := by
  refine run_induction step
    (I := fun es s => FinishDelivered s ∧ ∃ order, Ordered R es order s) ?_ ?_ hC hrun
  · refine ⟨finishDelivered_of_nil h0, fun _ => [], linked_of_calls_nil h0, fun _ _ _ => rfl, ?_⟩
    intro c call _ hc
    simp [h0] at hc
  · rintro es s e s' hrun hC ⟨hfd, order, hO⟩ ⟨hA, hU⟩ hs
    have hcalls : s.running = true → ∀ (c : ℕ) (call : Call), s.calls[c]? = some call →
        call.Valid ∧ call.Mirrors R := fun hr c call hc =>
      mirrors_of_run h0 (hC.mono step fun _ _ h => h.1) hrun hr hc
    have hv : ValidCalls s := fun hr c call hc => (hcalls hr c call hc).1
    exact ⟨hfd.step hv (fun hr => hO.linked.ownChapters hv hr e) hs, _, hO.step hcalls hA hU hs⟩

/-- The record of a delivered call holds its chapters in the order of their last pages, and each
with its pages in the order they arrived. -/
theorem listChap_eq {R : Remote} {es : List Event} {order : ℕ → List ℕ} {s : State} {c : ℕ}
    {call : Call} (hO : Ordered R es order s) (hr : s.running = true)
    (hc : s.calls[c]? = some call) (hv : call.Valid) (hd : call.Delivered) :
    ∃ comicl, s.realm.first call.comicID = some comicl ∧ comicl.listChap.map LChap.listImg =
      ((arrived c es).map Prod.fst).dedup.map (pagesOf R call.comicID (arrived c es)) := by
  obtain ⟨hp, hall⟩ := hv.delivered_iff.mp hd
  obtain ⟨comicl, hf, -, -, hst⟩ := hO.linked.link c call hc hp
  have ht := hO.tracks c call hr hc
  have horder : order c = ((arrived c es).map Prod.fst).dedup := by
    rw [ht.order, List.filter_eq_self]
    intro k hk
    obtain ⟨p, hpl, rfl⟩ := List.mem_map.mp (List.mem_dedup.mp hk)
    obtain ⟨chapter, hi⟩ := ht.known p hpl
    rw [Call.completeAt, hi]
    exact decide_eq_true (hall chapter (List.mem_of_getElem? hi))
  refine ⟨comicl, hf, ?_⟩
  rw [← horder, ← List.forall₂_eq_eq_eq, List.forall₂_map_left_iff, List.forall₂_map_right_iff]
  refine hst.forall₂.imp ?_
  rintro chap k ⟨chapter, hi, rfl⟩
  exact ht.got k chapter hi

/-- A finished comic shows, for every index, the pages of that folder exactly when its replies
arrived in that order. -/
theorem order_kept_iff (R : Remote) (s₀ s : State) (es : List Event) (h0 : s₀.calls = [])
    (hrun : run step s₀ es = some s) (hr : s.running = true)
    (hC : Along step (fun s e => Answers R s e ∧ Unrecorded s e) s₀ es) (c : ℕ) (call : Call)
    (hc : s.calls[c]? = some call) (hfin : call.comic.finish = true) :
    (∀ i : ℕ, i < (R.chapters call.comicID).length →
      ChapterViewController.loadChapterFromRealm s.realm (some call.comicID) i =
        (R.chapters call.comicID)[i]?) ↔
      KeepsOrder R call.comicID (arrived c es) := by
  obtain ⟨hfd, order, hO⟩ := ordered_of_run h0 hC hrun
  have hv := (mirrors_of_run h0 (hC.mono step fun _ _ h => h.1) hrun hr hc).1
  obtain ⟨comicl, hf, hchap⟩ := listChap_eq hO hr hc hv (hfd hr c call hc hfin)
  have hload : ∀ i : ℕ,
      ChapterViewController.loadChapterFromRealm s.realm (some call.comicID) i =
        ((arrived c es).map Prod.fst).dedup[i]?.map (pagesOf R call.comicID (arrived c es)) := by
    intro i
    rw [ChapterViewController.loadChapterFromRealm, Option.bind_some, hf]
    dsimp only
    rw [if_neg (by omega), Int.toNat_natCast, ← List.getElem?_map, ← List.getElem?_map, hchap]
  simp only [KeepsOrder, hload]

def repliesReversed : List Event :=
  [.select (some "a"), .viewDidLoad, .download 0,
    .document 0 (.found ⟨some "A", some 2, some 0, some "a.jpg", some "a"⟩), .poster 0 (some []),
    .listAll 0 0 (.success ["p"]), .listAll 0 1 (.success ["q"]),
    .page 0 1 0 (some [2, 3]), .page 0 0 0 (some [1])]

def reversed : State := (run step (launch []) repliesReversed).get (by decide +kernel)

theorem order_kept_iff_reversed :
    (∀ i : ℕ, i < (twoFolders.chapters "a").length →
      ChapterViewController.loadChapterFromRealm reversed.realm (some "a") i =
        (twoFolders.chapters "a")[i]?) ↔
      KeepsOrder twoFolders "a" (arrived 0 repliesReversed) :=
  order_kept_iff twoFolders (launch []) reversed repliesReversed rfl (Option.some_get _).symm
    (by decide +kernel) (by decide +kernel) 0 (reversed.calls.get ⟨0, by decide +kernel⟩)
    (by rfl) (by decide +kernel)

theorem not_order_kept : ¬ ∀ (R : Remote) (s₀ s : State) (es : List Event), s₀.calls = [] →
    run step s₀ es = some s → s.running = true →
    Along step (fun s e => Answers R s e ∧ Unrecorded s e) s₀ es →
    ∀ (c : ℕ) (call : Call), s.calls[c]? = some call → call.comic.finish = true →
    ∀ i : ℕ, i < (R.chapters call.comicID).length →
      ChapterViewController.loadChapterFromRealm s.realm (some call.comicID) i =
        (R.chapters call.comicID)[i]? := by
  intro h
  have hshown := h twoFolders (launch []) reversed repliesReversed rfl (Option.some_get _).symm
    (by decide +kernel) (by decide +kernel) 0 (reversed.calls.get ⟨0, by decide +kernel⟩) (by rfl)
    (by decide +kernel) 0 (by decide +kernel)
  exact absurd hshown (by decide +kernel)

end DownloadSession
end ComicApp
