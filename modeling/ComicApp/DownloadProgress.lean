import ComicApp.CallSteps
import ComicApp.SlotTable

/-!
# Download progress

Every page task of a call reports into the cell of `arrayCalcPercent` with the number it was given, and
every report sums the cells up into `Dsize`. The cells are a slot table: a listing takes the next free
cells for its pages. `lastReport` reads off the events what each task reported last.
-/

namespace ComicApp
open SlotTable

namespace Call

def slotTable (call : Call) : Table ℤ where
  slots := call.chapters.map fun chapter => chapter.pages.slots.map fun task => task.key.indexArr
  cells := call.arrayCalcPercent

def indexArrs (call : Call) : List ℕ :=
  call.chapters.flatMap fun chapter => chapter.pages.slots.map fun task => task.key.indexArr

def sumTasks (call : Call) (report : ℕ → ℕ → ℤ) : ℤ :=
  (call.chapters.mapIdx fun i chapter =>
    (chapter.pages.slots.mapIdx fun j _ => report i j).sum).sum

structure Metered (report : ℕ → ℕ → ℤ) (call : Call) : Prop where
  exact : call.slotTable.Exact
  holds : call.slotTable.Holds report
  unasked : ∀ i j, call.slotTable.slot i j = none → report i j = 0
  Dsize : call.comic.Dsize = some call.arrayCalcPercent.sum

theorem flatten_slots (call : Call) : call.slotTable.slots.flatten = call.indexArrs := by
  rw [indexArrs, List.flatMap_def]
  rfl

theorem total_slotTable (call : Call) (report : ℕ → ℕ → ℤ) :
    call.slotTable.total report = call.sumTasks report := by
  have hrows : (call.slotTable.slots.mapIdx fun i row => (row.mapIdx fun j _ => report i j).sum) =
      call.chapters.mapIdx fun i chapter =>
        (chapter.pages.slots.mapIdx fun j _ => report i j).sum := by
    apply List.ext_getElem?
    intro i
    simp only [slotTable, List.getElem?_mapIdx, List.getElem?_map]
    cases call.chapters[i]? with
    | none => rfl
    | some chapter =>
      simp only [Option.map_some]
      congr 2
      apply List.ext_getElem?
      intro j
      simp only [List.getElem?_mapIdx, List.getElem?_map, Option.map_map]
      rfl
  rw [Table.total, hrows, sumTasks]

theorem slot_slotTable {call : Call} {i j : ℕ} {chapter : Chapter} {task : Slot PageTask}
    (hi : call.chapters[i]? = some chapter) (hj : chapter.pages.slots[j]? = some task) :
    call.slotTable.slot i j = some task.key.indexArr := by
  simp [Table.slot, slotTable, hi, hj]

theorem metered_DownloadCommic (id : String) :
    (Shelf.DownloadCommic id).Metered fun _ _ => 0 where
  exact := List.Perm.refl []
  holds i j k h := by simp [Table.slot, slotTable, Shelf.DownloadCommic] at h
  unasked _ _ _ := rfl
  Dsize := rfl

/-- A reply that touches neither the slots nor the cells nor `Dsize`. -/
theorem Metered.congr {report : ℕ → ℕ → ℤ} {call call' : Call} (h : call.Metered report)
    (ht : call'.slotTable = call.slotTable) (hD : call'.comic.Dsize = call.comic.Dsize) :
    call'.Metered report := by
  have hcells : call'.arrayCalcPercent = call.arrayCalcPercent := congrArg Table.cells ht
  refine ⟨?_, ?_, ?_, ?_⟩
  · rw [ht]
    exact h.exact
  · rw [ht]
    exact h.holds
  · rw [ht]
    exact h.unasked
  · rw [hD, h.Dsize, hcells]

theorem tasks_indexArr (arrayCalcPercent : List ℤ) (items : List String) :
    (Chapter.tasks arrayCalcPercent items).map PageTask.indexArr =
      List.range' arrayCalcPercent.length items.length := by
  induction items generalizing arrayCalcPercent with
  | nil => rfl
  | cons item items ih =>
    rw [Chapter.tasks, List.map_cons, ih, List.length_append, List.length_singleton,
      List.length_cons, List.range'_succ]

theorem slotTable_setChapter {call : Call} {i : ℕ} {chapter chapter' : Chapter}
    (hi : call.chapters[i]? = some chapter)
    (hkeys : chapter'.pages.slots.map Slot.key = chapter.pages.slots.map Slot.key) :
    (call.setChapter i chapter').slotTable = call.slotTable := by
  have hrow : (chapter'.pages.slots.map fun task => task.key.indexArr) =
      chapter.pages.slots.map fun task => task.key.indexArr := by
    have h := congrArg (List.map PageTask.indexArr) hkeys
    rwa [List.map_map, List.map_map] at h
  have hslots := map_set_of_eq hi
    (f := fun chapter : Chapter => chapter.pages.slots.map fun task => task.key.indexArr) hrow
  rw [slotTable, slotTable, ← hslots]
  rfl

/-- A listing takes the next cells for its pages. -/
theorem slotTable_onListAll {call : Call} {i : ℕ} {chapter : Chapter}
    (reply : ListAllReply (List String)) :
    (call.onListAll i chapter reply).slotTable =
      call.slotTable.allocate 0 i reply.listed.length := by
  have hrow : ((Batch.start (Chapter.tasks call.arrayCalcPercent reply.listed) :
      Batch PageTask Data).slots.map fun task => task.key.indexArr) =
      List.range' call.arrayCalcPercent.length reply.listed.length := by
    have hkeys : (Batch.start (Chapter.tasks call.arrayCalcPercent reply.listed) :
        Batch PageTask Data).slots.map Slot.key =
        Chapter.tasks call.arrayCalcPercent reply.listed :=
      Batch.start_keys _
    have hmap := congrArg (List.map PageTask.indexArr) hkeys
    rwa [List.map_map, tasks_indexArr] at hmap
  simp only [slotTable, Table.allocate, Call.onListAll, Call.setChapter, List.map_set, hrow]

theorem Metered.onListAll {report : ℕ → ℕ → ℤ} {call : Call} (h : call.Metered report) {i : ℕ}
    {chapter : Chapter} (hi : call.chapters[i]? = some chapter) (hempty : chapter.pages = .empty)
    (reply : ListAllReply (List String)) : (call.onListAll i chapter reply).Metered report := by
  have hrow : call.slotTable.slots[i]? = some [] := by
    simp [slotTable, hi, hempty, Batch.empty]
  have hzero (j : ℕ) : report i j = 0 :=
    h.unasked i j (by rw [Table.slot, hrow]; rfl)
  have ht := @slotTable_onListAll call i chapter reply
  refine ⟨?_, ?_, ?_, ?_⟩
  · rw [ht]
    exact h.exact.allocate hrow 0 reply.listed.length
  · rw [ht]
    exact h.holds.allocate hrow hzero reply.listed.length
  · intro i' j hnone
    rw [ht] at hnone
    by_cases hii : i' = i
    · rw [hii, hzero]
    · refine h.unasked i' j ?_
      rwa [Table.slot, Table.allocate, List.getElem?_set_ne (Ne.symm hii)] at hnone
  · change call.comic.Dsize = _
    rw [h.Dsize, Call.onListAll]
    simp

theorem Metered.onProgress {report report' : ℕ → ℕ → ℤ} {call : Call} (h : call.Metered report)
    {i j k : ℕ} (hk : call.slotTable.slot i j = some k) {n : ℤ} (hn : report' i j = n)
    (hother : ∀ i' j', (i', j') ≠ (i, j) → report' i' j' = report i' j') :
    (call.onProgress k n).Metered report' := by
  have ht : (call.onProgress k n).slotTable = call.slotTable.write k n := rfl
  refine ⟨?_, ?_, ?_, rfl⟩
  · rw [ht]
    exact h.exact.write k n
  · rw [ht]
    exact h.holds.write h.exact hk hn hother
  · intro i' j' hnone
    rw [hother i' j', h.unasked i' j' hnone]
    rintro heq
    obtain ⟨rfl, rfl⟩ := Prod.mk.inj heq
    have hsome : call.slotTable.slot i' j' = none := hnone
    rw [hk] at hsome
    cases hsome

theorem slotTable_onDocument {call call' : Call} {reply : DocumentReply}
    (ho : call.onDocument reply = some call') :
    call'.slotTable = call.slotTable ∧ call'.comic.Dsize = call.comic.Dsize := by
  cases Call.onDocument_outcome ho with
  | error => exact ⟨rfl, rfl⟩
  | missing => exact ⟨rfl, rfl⟩
  | found data hposter => exact ⟨rfl, rfl⟩

theorem slotTable_poster {call call' : Call} {data : Data}
    (hf : (call.posterArrived data).forChapters = some call') (hnil : call.chapters = []) :
    call'.arrayCalcPercent = call.arrayCalcPercent ∧ call'.comic.Dsize = call.comic.Dsize ∧
      ∀ row ∈ call'.slotTable.slots, row = [] := by
  obtain ⟨he, -, hfresh⟩ := forChapters_spec hf hnil
  refine ⟨by rw [he]; rfl, by rw [he]; rfl, ?_⟩
  intro row hrow
  obtain ⟨chapter, hm, rfl⟩ := List.mem_map.mp hrow
  obtain ⟨i, hi⟩ := List.mem_iff_getElem?.mp hm
  obtain ⟨filePath, -, rfl⟩ := hfresh i chapter hi
  rfl

theorem Metered.poster {report : ℕ → ℕ → ℤ} {call call' : Call} (h : call.Metered report)
    {data : Data} (hf : (call.posterArrived data).forChapters = some call')
    (hnil : call.chapters = []) : call'.Metered report := by
  obtain ⟨hcells, hD, hempty⟩ := slotTable_poster hf hnil
  have hflat : call'.slotTable.slots.flatten = [] := List.flatten_eq_nil_iff.mpr hempty
  have hnone (i j : ℕ) : call.slotTable.slot i j = none := by simp [Table.slot, slotTable, hnil]
  have hnone' (i j : ℕ) : call'.slotTable.slot i j = none := by
    cases hs : call'.slotTable.slot i j with
    | none => rfl
    | some k =>
      have hm := Table.mem_flatten_of_slot hs
      rw [hflat] at hm
      cases hm
  have hold : call.slotTable.slots.flatten = [] := by simp [slotTable, hnil]
  refine ⟨?_, ?_, fun i j _ => h.unasked i j (hnone i j), by rw [hD, h.Dsize, hcells]⟩
  · have hE := h.exact
    rw [Table.Exact, hold] at hE
    rw [Table.Exact, hflat]
    change ([] : List ℕ).Perm (List.range call'.arrayCalcPercent.length)
    rw [hcells]
    exact hE
  · intro i j k hs
    rw [hnone' i j] at hs
    cases hs

end Call

namespace DownloadSession
open EventMachine

def nextReport (c : ℕ) (report : ℕ → ℕ → ℤ) : Event → ℕ → ℕ → ℤ
  | .progress c' i j completedUnitCount =>
    if c' = c then fun i' j' => if (i', j') = (i, j) then completedUnitCount else report i' j'
    else report
  | .relaunch => fun _ _ => 0
  | _ => report

/-- The `completedUnitCount` that page task `j` of chapter `i` of call `c` reported last, and 0 if it
has reported none. -/
def lastReport (c : ℕ) (es : List Event) : ℕ → ℕ → ℤ := es.foldl (nextReport c) fun _ _ => 0

@[simp] theorem lastReport_concat (c : ℕ) (es : List Event) (e : Event) :
    lastReport c (es ++ [e]) = nextReport c (lastReport c es) e := by
  simp [lastReport]

theorem nextReport_of_ne {c : ℕ} {report : ℕ → ℕ → ℤ} {e : Event} (hne : e ≠ .relaunch)
    (hof : e.ofCall ≠ some c) : nextReport c report e = report := by
  cases e with
  | relaunch => exact absurd rfl hne
  | progress c' i j n =>
    rw [nextReport, if_neg]
    rintro rfl
    exact hof rfl
  | _ => rfl

theorem CallStep.metered {e : Event} {call call' : Call} {c : ℕ} {report : ℕ → ℕ → ℤ}
    (h : CallStep e call call') (hc : e.ofCall = some c) (hv : call.Valid)
    (hm : call.Metered report) : call'.Metered (nextReport c report e) := by
  cases h with
  | document c₀ reply hw ho =>
    obtain ⟨ht, hD⟩ := Call.slotTable_onDocument ho
    exact hm.congr ht hD
  | posterFailed c₀ hw => exact hm.congr rfl rfl
  | poster c₀ data hw hf => exact hm.poster hf (hv.chapters_nil (by simp [hw]))
  | listAll c₀ i reply hi hw =>
    exact hm.onListAll hi (hv.unlisted _ (List.mem_of_getElem? hi) hw) reply
  | pageFailed c₀ i j hi hj =>
    exact hm.congr (Call.slotTable_setChapter hi (Batch.fail_keys _ _ hj)) rfl
  | page c₀ i j data1 hi hj =>
    exact hm.congr (Call.slotTable_setChapter hi (Batch.receive_keys _ _ _ hj)) rfl
  | pageLast c₀ i j data1 hi hj =>
    exact hm.congr (Call.slotTable_setChapter hi (Batch.receive_keys _ _ _ hj)) rfl
  | progress c₀ i j n hi hj =>
    obtain rfl : c₀ = c := Option.some.inj hc
    refine hm.onProgress (Call.slot_slotTable hi hj) (by simp [nextReport]) ?_
    intro i' j' hne
    simp [nextReport, hne]

/-- Every call of a running session is metered by what its tasks reported last; a call that has not
been started has reported nothing. -/
structure Meters (es : List Event) (s : State) : Prop where
  valid : ValidCalls s
  metered : s.running = true → ∀ (c : ℕ) (call : Call), s.calls[c]? = some call →
    call.Metered (lastReport c es)
  unstarted : ∀ c : ℕ, s.calls[c]? = none → lastReport c es = fun _ _ => 0

theorem meters_launch (realm : Realm) : Meters [] (launch realm) where
  valid := validCalls_of_nil rfl
  metered _ c call hc := by simp [launch] at hc
  unstarted _ _ := rfl

theorem Meters.step {es : List Event} {s s' : State} {e : Event} (h : Meters es s)
    (hs : DownloadSession.step s e = some s') : Meters (es ++ [e]) s' := by
  have ht := Transition.of_step hs
  refine ⟨h.valid.step hs, fun hr' c call' hc' => ?_, fun c hc' => ?_⟩
  · rw [lastReport_concat]
    have hne : e ≠ .relaunch := by
      rintro rfl
      cases ht
      cases hc'
    have hr := ht.running hne
    rcases ht.calls_cases hr' hc' with ⟨hold, hof⟩ | ⟨p, id, rfl, -, hlen, rfl⟩ | ⟨call, hc, he, hcs⟩
    · rw [nextReport_of_ne hne hof]
      exact h.metered hr c call' hold
    · have hnone : s.calls[c]? = none := by rw [hlen, List.getElem?_eq_none le_rfl]
      rw [nextReport_of_ne hne nofun, h.unstarted c hnone]
      exact Call.metered_DownloadCommic id
    · exact hcs.metered he (h.valid hr c call hc) (h.metered hr c call hc)
  · rw [lastReport_concat]
    by_cases hne : e = .relaunch
    · rw [hne, nextReport]
    · have hnone : s.calls[c]? = none := by
        cases hc : s.calls[c]? with
        | none => rfl
        | some call =>
          obtain ⟨call', hcall', -⟩ := ht.calls_forward h.valid hne hc
          rw [hc'] at hcall'
          cases hcall'
      have hof : e.ofCall ≠ some c := by
        intro hof
        obtain ⟨call, hc⟩ := ht.exists_call hof
        rw [hnone] at hc
        cases hc
      rw [nextReport_of_ne hne hof]
      exact h.unstarted c hnone

/-- No task of call `c` reports less than it reported before. -/
def Rising (c : ℕ) (es fs : List Event) : Prop :=
  ∀ gs i j n hs, fs = gs ++ .progress c i j n :: hs → lastReport c (es ++ gs) i j ≤ n

theorem meters_of_run {realm : Realm} {es : List Event} {s : State}
    (hrun : run DownloadSession.step (launch realm) es = some s) : Meters es s :=
  run_induction DownloadSession.step (meters_launch realm)
    (fun _ _ _ _ _ _ h _ hs => h.step hs) (along_true _ _ _) hrun

/-- A step that reports no less than before does not lower `Dsize`. -/
theorem CallStep.sum_le {e : Event} {call call' : Call} {c : ℕ} {report : ℕ → ℕ → ℤ}
    (h : CallStep e call call') (hc : e.ofCall = some c) (hv : call.Valid)
    (hm : call.Metered report) (hrise : ∀ i j n, e = .progress c i j n → report i j ≤ n) :
    call.arrayCalcPercent.sum ≤ call'.arrayCalcPercent.sum := by
  cases h with
  | document c₀ reply hw ho =>
    exact (congrArg (fun t : Table ℤ => t.cells.sum) (Call.slotTable_onDocument ho).1).ge
  | poster c₀ data hw hf =>
    rw [(Call.slotTable_poster hf (hv.chapters_nil (by simp [hw]))).1]
  | listAll c₀ i reply hi hw => simp [Call.onListAll]
  | progress c₀ i j n hi hj =>
    obtain rfl : c₀ = c := Option.some.inj hc
    have hslot := Call.slot_slotTable hi hj
    exact Table.sum_write_le (t := call.slotTable) (hm.holds i j _ hslot) (hrise i j n rfl)
  | _ => exact le_rfl

theorem Rising.of_concat {c : ℕ} {es fs : List Event} {e : Event} (h : Rising c es (fs ++ [e])) :
    Rising c es fs := by
  intro gs i j n hs hfs
  exact h gs i j n (hs ++ [e]) (by rw [hfs, List.append_assoc, List.cons_append])

/-- While no task reports less than before, the sum of the cells of a call does not fall. -/
theorem sum_mono {realm : Realm} {es fs : List Event} {s s' : State} {c : ℕ} {call : Call}
    (hrun : run DownloadSession.step (launch realm) es = some s) (hc : s.calls[c]? = some call)
    (hmore : run DownloadSession.step s fs = some s') (hr' : s'.running = true)
    (hrelaunch : .relaunch ∉ fs) (hrise : Rising c es fs) :
    ∃ call', s'.calls[c]? = some call' ∧
      call.arrayCalcPercent.sum ≤ call'.arrayCalcPercent.sum := by
  induction fs using List.reverseRecOn generalizing s' with
  | nil =>
    obtain rfl := Option.some.inj hmore
    exact ⟨call, hc, le_rfl⟩
  | append_singleton fs e ih =>
    obtain ⟨t, ht, hs⟩ := (run_concat_eq_some _).mp hmore
    have hne : e ≠ .relaunch := by
      rintro rfl
      exact hrelaunch (by simp)
    have htr := Transition.of_step hs
    have hr := htr.running hne
    obtain ⟨callt, hct, hle⟩ :=
      ih ht hr (fun hm => hrelaunch (List.mem_append_left _ hm)) hrise.of_concat
    have hrunt : run DownloadSession.step (launch realm) (es ++ fs) = some t := by
      rw [run_append, hrun, Option.bind_some, ht]
    have hM := meters_of_run hrunt
    obtain ⟨call', hc', -⟩ := htr.calls_forward hM.valid hne hct
    refine ⟨call', hc', hle.trans ?_⟩
    rcases htr.calls_cases hr' hc' with ⟨hold, -⟩ | ⟨p, id, -, -, hlen, -⟩ | ⟨call₀, hc₀, he, hcs⟩
    · rw [Option.some.inj (hct.symm.trans hold)]
    · rw [hlen, List.getElem?_eq_none le_rfl] at hct
      cases hct
    · obtain rfl : callt = call₀ := Option.some.inj (hct.symm.trans hc₀)
      refine hcs.sum_le he (hM.valid hr c callt hct) (hM.metered hr c callt hct) ?_
      rintro i j n rfl
      exact hrise fs i j n [] rfl

/-- The slots of the page tasks of a call are distinct and inside the array, `Dsize` is the sum of what
the tasks reported last, and it never falls while no task reports less than before. -/
theorem progress_exact (realm : Realm) (es : List Event) (s : State)
    (hrun : run DownloadSession.step (launch realm) es = some s) (hr : s.running = true) (c : ℕ)
    (call : Call) (hc : s.calls[c]? = some call) :
    call.indexArrs.Nodup ∧
      (∀ indexArr ∈ call.indexArrs, indexArr < call.arrayCalcPercent.length) ∧
      call.comic.Dsize = some (call.sumTasks (lastReport c es)) ∧
      ∀ (fs : List Event) (s' : State), run DownloadSession.step s fs = some s' →
        s'.running = true → .relaunch ∉ fs → Rising c es fs →
        ∃ call' d d', s'.calls[c]? = some call' ∧ call.comic.Dsize = some d ∧
          call'.comic.Dsize = some d' ∧ d ≤ d' := by
  have hm := (meters_of_run hrun).metered hr c call hc
  refine ⟨?_, ?_, ?_, ?_⟩
  · rw [← Call.flatten_slots]
    exact hm.exact.nodup
  · intro indexArr hmem
    rw [← Call.flatten_slots] at hmem
    exact List.mem_range.mp (hm.exact.mem_iff.mp hmem)
  · rw [hm.Dsize, ← Call.total_slotTable, ← Table.sum_cells hm.exact hm.holds]
    rfl
  · intro fs s' hmore hr' hrelaunch hrise
    obtain ⟨call', hc', hle⟩ := sum_mono hrun hc hmore hr' hrelaunch hrise
    have hrun' : run DownloadSession.step (launch realm) (es ++ fs) = some s' := by
      rw [run_append, hrun, Option.bind_some, hmore]
    have hm' := (meters_of_run hrun').metered hr' c call' hc'
    exact ⟨call', _, _, hc', hm.Dsize, hm'.Dsize, hle⟩

def progressBetween : List Event :=
  [.select (some "a"), .viewDidLoad, .download 0,
    .document 0 (.found ⟨some "A", some 2, some 0, some "a.jpg", some "a"⟩), .poster 0 (some []),
    .listAll 0 1 (.success ["p", "q"]), .progress 0 1 1 5, .listAll 0 0 (.success ["r"]),
    .progress 0 0 0 2, .progress 0 1 1 7]

def betweenListings : State :=
  (run DownloadSession.step (launch []) progressBetween).get (by decide +kernel)

def meteredCall : Call := (betweenListings.calls[0]?).get (by decide +kernel)

theorem progress_exact_between : meteredCall.indexArrs.Nodup ∧
    meteredCall.comic.Dsize = some (meteredCall.sumTasks (lastReport 0 progressBetween)) := by
  obtain ⟨hnodup, -, hD, -⟩ := progress_exact [] progressBetween betweenListings
    (Option.some_get _).symm (by decide +kernel) 0 meteredCall (Option.some_get _).symm
  exact ⟨hnodup, hD⟩

end DownloadSession
end ComicApp
