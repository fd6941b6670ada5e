import ComicApp.DownloadCounter

/-!
# Interleaved downloads of distinct comics

Every comic is tapped once, and every request is answered with what the remote side holds. Then the
calls do not get in each other's way: each finishes with its last page, and once nothing is out each
comic has one record with the pages of all its folders.
-/

namespace ComicApp
open scoped List

namespace Remote

/-- The comic's document names a poster and a folder, and it has chapters, none of them empty. -/
def Downloadable (R : Remote) (id : String) : Prop :=
  ∃ data ∈ R.document id, data.posterPath ≠ none ∧ ∃ filePath ∈ data.filePath,
    ∃ n ∈ data.totalChap, 1 ≤ n ∧ ∀ i < n.toNat, R.listAll (filePath ++ Shelf.path i) ≠ []

instance decidableDownloadable (R : Remote) (id : String) : Decidable (R.Downloadable id) :=
  inferInstanceAs (Decidable (∃ data ∈ R.document id, _ ∧ ∃ filePath ∈ data.filePath,
    ∃ n ∈ data.totalChap, 1 ≤ n ∧ ∀ i < n.toNat, R.listAll (filePath ++ Shelf.path i) ≠ []))

end Remote

namespace Realm

theorem appendChap_append {id : String} {realm : Realm} (h : id ∉ ids realm) (chap : LChap)
    (more : Realm) : appendChap id chap (realm ++ more) = realm ++ appendChap id chap more := by
  induction realm with
  | nil => rfl
  | cons comic realm ih =>
    have hid : comic.comicID ≠ id := fun he => h (by simp [ids, he])
    have hrest : id ∉ ids realm := fun hm => h (List.mem_cons_of_mem _ hm)
    rw [List.cons_append, appendChap, if_neg hid, ih hrest, List.cons_append]

theorem filter_of_count {realm : Realm} {id : String} {comic : LComic}
    (hf : realm.first id = some comic) (hone : (ids realm).count id = 1) :
    realm.filter (fun comic => comic.comicID = id) = [comic] := by
  have hlen : (realm.filter fun comic => comic.comicID = id).length = 1 := by
    rw [← List.countP_eq_length_filter, ← hone, ids, List.count, List.countP_map]
    rfl
  obtain ⟨found, hfound⟩ := List.length_eq_one_iff.mp hlen
  have hhead := List.head?_filter (p := fun comic : LComic => decide (comic.comicID = id)) (l := realm)
  rw [hfound] at hhead
  rw [first, ← hhead] at hf
  rw [hfound]
  exact congrArg (fun found => [found]) (Option.some.inj hf)

/-- The comic has one record, with one chapter for each remote folder and its pages in some order. -/
def StoredOnce (R : Remote) (realm : Realm) (id : String) : Prop :=
  ∃ comicl, realm.filter (fun comic => comic.comicID = id) = [comicl] ∧
    ∃ chapters, chapters ~ R.chapters id ∧
      List.Forall₂ (fun (chap : LChap) pages => chap.listImg ~ pages) comicl.listChap chapters

end Realm

theorem Call.forChapters_ne_none {call : Call} {m : ℕ} {filePath : String}
    (ht : call.comic.totalChap = some (m : ℤ)) (hf : call.filePath = some filePath) :
    call.forChapters ≠ none := by
  rw [Ne, call.forChapters_eq_none_iff, not_not]
  exact ⟨m, ht, Int.natCast_nonneg m, .inr (hf ▸ Option.some_ne_none filePath)⟩

def Call.Listed (call : Call) : Prop :=
  ∀ chapter ∈ call.chapters, chapter.listing = .waiting ∨ chapter.listing = .arrived

namespace DownloadSession
open EventMachine

theorem CallStep.listed {e : Event} {call call' : Call} (h : CallStep e call call')
    (he : ∀ c i before, e ≠ .listAll c i (.error before)) (hv : call.Valid) (hl : call.Listed) :
    call'.Listed := by
  cases h with
  | document c reply hw ho =>
    unfold Call.Listed
    rwa [(Call.onDocument_spec ho).2.1]
  | posterFailed c hw => exact hl
  | poster c data hw hf =>
    obtain ⟨-, -, hfresh⟩ := Call.forChapters_spec hf (hv.chapters_nil (by simp [hw]))
    intro chapter hm
    obtain ⟨i, hi⟩ := List.mem_iff_getElem?.mp hm
    obtain ⟨filePath, -, rfl⟩ := hfresh i chapter hi
    exact .inl rfl
  | listAll c i reply hi hw =>
    cases reply with
    | success items => exact forall_mem_set hl i (.inr rfl)
    | error before => exact absurd rfl (he c i before)
  | @pageFailed c i j _ chapter hi hj =>
    exact forall_mem_set hl i (hl chapter (List.mem_of_getElem? hi))
  | @page c i j data1 _ chapter hi hj =>
    exact forall_mem_set hl i (hl chapter (List.mem_of_getElem? hi))
  | @pageLast c i j data1 _ chapter hi hj =>
    exact forall_mem_set hl i (hl chapter (List.mem_of_getElem? hi))
  | progress c i j n hi hj => exact hl

/-- A delivered call whose listings succeeded has stored every chapter of its comic once. -/
theorem storedOnce_of_delivered {R : Remote} {order : ℕ → List ℕ} {s : State} {c : ℕ} {call : Call}
    (hL : Linked order s) (hc : s.calls[c]? = some call) (hv : call.Valid) (hm : call.Mirrors R)
    (hl : call.Listed) (hd : call.Delivered) : Realm.StoredOnce R s.realm call.comicID := by
  obtain ⟨hp, hall⟩ := hv.delivered_iff.mp hd
  obtain ⟨comicl, hf, hone, -, hst⟩ := hL.link c call hc hp
  let pages (i : ℕ) : List Data :=
    (call.chapters[i]?.map fun chapter => R.pages chapter.path).getD []
  have hpages : (List.range call.chapters.length).map pages = R.chapters call.comicID := by
    rw [hm.chapters_eq hv hp]
    apply List.ext_getElem
    · simp
    · intro i hi hi'
      rw [List.length_map] at hi'
      simp [pages, hi']
  refine ⟨comicl, Realm.filter_of_count hf hone, (order c).map pages, ?_, ?_⟩
  · rw [← hpages]
    exact (hst.perm_range hall).map pages
  · rw [List.forall₂_map_right_iff]
    refine hst.forall₂.imp ?_
    rintro chap i ⟨chapter, hi, rfl⟩
    have hmem := List.mem_of_getElem? hi
    have hget : pages i = R.pages chapter.path := by simp [pages, hi]
    rw [hget]
    have harrived : chapter.listing = .arrived :=
      (hl chapter hmem).resolve_left fun hw => hv.not_complete hmem hw (hall chapter hmem)
    exact hm.got_perm hmem harrived (hall chapter hmem)

/-- No request fails, every tap is the first one for a comic without a record, and the process goes
on to the end. -/
def Succeeds (R : Remote) (s : State) : Event → Prop
  | .document _ .error | .poster _ none | .listAll _ _ (.error _) | .page _ _ _ none => False
  | .download _ => ∃ id ∈ s.id, id ∉ s.realm.ids ∧ (∀ call ∈ s.calls, call.comicID ≠ id) ∧
    R.Downloadable id
  | .viewDidLoad => s.id ≠ none
  | .relaunch => False
  | _ => True

instance decidableSucceeds (R : Remote) (s : State) : ∀ e, Decidable (Succeeds R s e)
  | .document _ .error | .poster _ none | .listAll _ _ (.error _) | .page _ _ _ none => .isFalse id
  | .download _ => inferInstanceAs (Decidable (∃ id ∈ s.id, _ ∧ (∀ call ∈ s.calls, _) ∧ _))
  | .viewDidLoad => inferInstanceAs (Decidable (s.id ≠ none))
  | .relaunch => .isFalse id
  | .document _ .missing | .document _ (.found _) | .poster _ (some _) => .isTrue trivial
  | .listAll _ _ (.success _) | .page _ _ _ (some _) | .select _ | .leave _ => .isTrue trivial
  | .progress _ _ _ _ => .isTrue trivial

structure Separate (R : Remote) (s₀ s : State) : Prop where
  running : s.running = true
  counting : Counting s₀.isDowloading s
  linked : ∃ order, Linked order s
  mirrors : ∀ (c : ℕ) (call : Call), s.calls[c]? = some call →
    call.Mirrors R ∧ R.Downloadable call.comicID
  listed : ∀ (c : ℕ) (call : Call), s.calls[c]? = some call → call.Listed
  distinct : (s.calls.map Call.comicID).Nodup
  fresh : ∀ call ∈ s.calls, call.comicID ∉ s₀.realm.ids
  records : ∀ id ∈ s.realm.ids, id ∈ s₀.realm.ids ∨ Owned s id
  old : s₀.realm <+: s.realm

theorem separate_of_nil (R : Remote) {s : State} (hr : s.running = true) (h : s.calls = []) :
    Separate R s s where
  running := hr
  counting := counting_of_nil h
  linked := ⟨_, linked_of_calls_nil h⟩
  mirrors c call hc := by simp [h] at hc
  listed c call hc := by simp [h] at hc
  distinct := by simp [h]
  fresh call hm := by simp [h] at hm
  records id hid := .inl hid
  old := List.prefix_refl _

namespace Separate
variable {R : Remote} {s₀ s s' : State} {e : Event}

theorem valid (h : Separate R s₀ s) {c : ℕ} {call : Call} (hc : s.calls[c]? = some call) :
    call.Valid :=
  h.counting.calls h.running c call hc

theorem unique (h : Separate R s₀ s) {c c' : ℕ} {call call' : Call} (hc : s.calls[c]? = some call)
    (hc' : s.calls[c']? = some call') (hid : call.comicID = call'.comicID) : c = c' := by
  apply (List.getElem?_inj (by simpa using (List.getElem?_eq_some_iff.mp hc).1) h.distinct).mp
  rw [List.getElem?_map, List.getElem?_map, hc, hc', Option.map_some, Option.map_some, hid]

/-- A poster still out is that of a comic without a record. -/
theorem unrecorded (h : Separate R s₀ s) {c : ℕ} {call : Call} (hc : s.calls[c]? = some call)
    (hw : call.poster = .waiting) : s.realm.first call.comicID = none := by
  rw [Realm.first_eq_none]
  intro hm
  rcases h.records _ hm with hold | ⟨call', hm', hp, hid⟩
  · exact h.fresh call (List.mem_of_getElem? hc) hold
  · obtain ⟨c', hc'⟩ := List.mem_iff_getElem?.mp hm'
    obtain rfl := h.unique hc' hc hid
    obtain rfl : call' = call := Option.some.inj (hc'.symm.trans hc)
    rw [hw] at hp
    cases hp

theorem unrecorded_event (h : Separate R s₀ s) (hs : step s e = some s') : Unrecorded s e := by
  unfold Unrecorded
  split
  · intro call hc
    cases Transition.of_step hs with
    | poster _ _ call' hr hc' hw =>
      obtain rfl : call = call' := Option.some.inj (hc.symm.trans hc')
      exact h.unrecorded hc hw
  · trivial

/-- The document of a tapped comic exists and names a poster. -/
theorem document_found (h : Separate R s₀ s) {c : ℕ} {call : Call} {reply : DocumentReply}
    (hA : Answers R s (.document c reply)) (hS : Succeeds R s (.document c reply))
    (hc : s.calls[c]? = some call) : ∃ data, reply = .found data ∧ data.posterPath ≠ none := by
  obtain ⟨-, data₀, hd, hposter, -⟩ := h.mirrors c call hc
  cases reply with
  | error => exact hS.elim
  | missing =>
    have hnone : R.document call.comicID = none := hA call hc
    rw [hnone] at hd
    cases hd
  | found data =>
    obtain ⟨data₁, hd₁, -, he, -⟩ := hA call hc
    obtain rfl : data₀ = data₁ := Option.some.inj (hd.symm.trans hd₁)
    exact ⟨data, rfl, by rwa [he]⟩

/-- The call of a poster, a listing or a page still has its `totalChap` and `filePath` from the
remote document. -/
theorem downloadable (h : Separate R s₀ s) {c : ℕ} {call : Call} (hc : s.calls[c]? = some call)
    (hp : call.poster ≠ .idle) : ∃ filePath n, call.filePath = some filePath ∧
      call.comic.totalChap = some n ∧ 1 ≤ n ∧
      ∀ i < n.toNat, R.listAll (filePath ++ Shelf.path i) ≠ [] := by
  obtain ⟨hm, data, hd, -, filePath, hf, n, hn, hpos, hne⟩ := h.mirrors c call hc
  obtain ⟨data', hd', ht, hfp⟩ := hm.document hp
  obtain rfl : data = data' := Option.some.inj (hd.symm.trans hd')
  exact ⟨filePath, n, hfp.trans hf, ht.trans hn, hpos, hne⟩

theorem untroubled (h : Separate R s₀ s) (hA : Answers R s e) (hS : Succeeds R s e)
    (hs : step s e = some s') : Untroubled s e := by
  cases Transition.of_step hs with
  | relaunch => exact trivial
  | select => exact trivial
  | viewDidLoad => exact trivial
  | leave => exact trivial
  | download => exact trivial
  | documentTrap c reply call hr hc hw ht =>
    obtain ⟨data, rfl, -⟩ := h.document_found hA hS hc
    exact trivial
  | document c reply call call' hr hc hw ho =>
    obtain ⟨data, rfl, -⟩ := h.document_found hA hS hc
    exact trivial
  | posterFailed => exact hS.elim
  | poster c data call hr hc hw =>
    intro call' hc'
    obtain rfl : call = call' := Option.some.inj (hc.symm.trans hc')
    obtain ⟨filePath, n, -, ht, hpos, -⟩ := h.downloadable hc (by simp [hw])
    rw [ht]
    intro hzero
    have hz := Option.some.inj hzero
    omega
  | listAll c i reply call chapter hr hc hi hw =>
    cases reply with
    | error before => exact hS.elim
    | success items =>
      have hv := h.valid hc
      have hp := hv.poster_arrived hi
      obtain ⟨filePath, n, hf, ht, hpos, hne⟩ := h.downloadable hc (by simp [hp])
      obtain ⟨filePath', hf', hpath⟩ := (h.mirrors c call hc).1.path i chapter hi
      obtain rfl : filePath = filePath' := Option.some.inj (hf.symm.trans hf')
      have hitems : items = R.listAll chapter.path := hA call hc chapter hi
      have hlt := (List.getElem?_eq_some_iff.mp hi).1
      have hn : n = call.chapters.length := Option.some.inj (ht.symm.trans (hv.totalChap hp))
      change items ≠ []
      rw [hitems, hpath]
      exact hne i (by omega)
  | pageFailed => exact hS.elim
  | page c i j data1 call chapter hr hc hi hj =>
    intro call' hc' chapter' hi' hleft
    obtain rfl : call = call' := Option.some.inj (hc.symm.trans hc')
    have hv := h.valid hc
    have hp := hv.poster_arrived hi
    obtain ⟨order, hL⟩ := h.linked
    obtain ⟨comicl, hf, -, -, hst⟩ := hL.link c call hc hp
    have hlen := hst.listChap_length
    have ht := hv.totalChap hp
    constructor
    · rintro ⟨comicl', hf', hn⟩
      obtain rfl : comicl = comicl' := Option.some.inj (hf.symm.trans hf')
      rw [ht, Option.some.injEq] at hn
      omega
    · intro hn
      refine ⟨comicl, hf, ?_⟩
      rw [ht, Option.some.injEq]
      omega
  | progress => exact trivial

theorem running_step (h : Separate R s₀ s) (hA : Answers R s e) (hS : Succeeds R s e)
    (hs : step s e = some s') : s'.running = true := by
  have hr := h.running
  cases Transition.of_step hs with
  | relaunch => exact hS.elim
  | viewDidLoad =>
    cases hid : s.id with
    | none => exact absurd hid hS
    | some id =>
      unfold State.onViewDidLoad
      rw [hid]
      dsimp only
      split <;> exact hr
  | download p =>
    obtain ⟨id, hid, -⟩ := hS
    unfold State.onDownload
    dsimp only
    rw [show s.id = some id from hid]
    exact hr
  | documentTrap c reply call _ hc hw ht =>
    obtain ⟨data, rfl, hposter⟩ := h.document_found hA hS hc
    obtain ⟨data', hdata, hnone⟩ := call.onDocument_eq_none_iff.mp ht
    obtain rfl := DocumentReply.found.inj hdata
    exact absurd hnone hposter
  | poster c data call _ hc hw =>
    cases hf : (call.posterArrived data).forChapters with
    | some call' => rw [onPoster_of_some hf]; exact hr
    | none =>
      obtain ⟨filePath, n, hfp, ht, hpos, -⟩ := h.downloadable hc (by simp [hw])
      obtain ⟨m, rfl⟩ := Int.eq_ofNat_of_zero_le (by omega : 0 ≤ n)
      exact absurd hf (Call.forChapters_ne_none (m := m) ht hfp)
  | page c i j data1 call chapter _ hc hi hj =>
    generalize hs' : s.onPage c call i chapter j data1 hj = s'
    cases hs' ▸ onPage_outcome s c call i chapter j data1 hj with
    | _ => exact hr
  | _ => exact hr

theorem mirrors_step (h : Separate R s₀ s) (hA : Answers R s e) (hS : Succeeds R s e)
    (hs : step s e = some s') (hr' : s'.running = true) {c : ℕ} {call' : Call}
    (hc' : s'.calls[c]? = some call') : call'.Mirrors R ∧ R.Downloadable call'.comicID := by
  have hall := calls_step
    (Q := fun call => call.Valid ∧ call.Mirrors R ∧ R.Downloadable call.comicID)
    (fun p id he hid => ?_) (fun c call call' hc he hcs hQ => ?_)
    (fun _ c call hc => ⟨h.valid hc, h.mirrors c call hc⟩) hs hr' hc'
  · exact hall.2
  · subst he
    obtain ⟨id', hid', -, -, hdown⟩ := hS
    obtain rfl : id = id' := Option.some.inj (hid.symm.trans hid')
    exact ⟨Call.valid_DownloadCommic id, Call.Mirrors.DownloadCommic R id, hdown⟩
  · obtain ⟨hv, hm, hdown⟩ := hQ
    exact ⟨hcs.valid hv, hcs.mirrors hc he hA hv hm, by rwa [hcs.comicID_eq hv]⟩

theorem listed_step (h : Separate R s₀ s) (hS : Succeeds R s e) (hs : step s e = some s')
    (hr' : s'.running = true) {c : ℕ} {call' : Call} (hc' : s'.calls[c]? = some call') :
    call'.Listed := by
  have hall := calls_step (Q := fun call => call.Valid ∧ call.Listed)
    (fun p id he hid => ⟨Call.valid_DownloadCommic id, nofun⟩) (fun c call call' hc he hcs hQ => ?_)
    (fun _ c call hc => ⟨h.valid hc, h.listed c call hc⟩) hs hr' hc'
  · exact hall.2
  · refine ⟨hcs.valid hQ.1, hcs.listed ?_ hQ.1 hQ.2⟩
    rintro c i before rfl
    exact hS

/-- What the calls are for after one more event. -/
theorem comicIDs_step (h : Separate R s₀ s) (hS : Succeeds R s e) (hs : step s e = some s') :
    (s'.calls.map Call.comicID).Nodup ∧ ∀ call ∈ s'.calls, call.comicID ∉ s₀.realm.ids := by
  have hne : e ≠ .relaunch := by
    rintro rfl
    exact hS
  rcases (Transition.of_step hs).comicIDs h.counting.calls hne with heq | ⟨p, id, rfl, hid, heq⟩
  · refine ⟨heq ▸ h.distinct, fun call hm => ?_⟩
    have hmem : call.comicID ∈ s.calls.map Call.comicID := heq ▸ List.mem_map_of_mem hm
    obtain ⟨call₀, hm₀, he⟩ := List.mem_map.mp hmem
    rw [← he]
    exact h.fresh call₀ hm₀
  · obtain ⟨id', hid', hnew, hnone, -⟩ := hS
    obtain rfl : id = id' := Option.some.inj (hid.symm.trans hid')
    have hout : id ∉ s.calls.map Call.comicID := by
      intro hm
      obtain ⟨call, hcall, he⟩ := List.mem_map.mp hm
      exact hnone call hcall he
    refine ⟨?_, fun call hm => ?_⟩
    · rw [heq, ← List.concat_eq_append, List.nodup_concat]
      exact ⟨hout, h.distinct⟩
    · have hmem : call.comicID ∈ s.calls.map Call.comicID ++ [id] :=
        heq ▸ List.mem_map_of_mem hm
      rcases List.mem_append.mp hmem with hmem | hmem
      · obtain ⟨call₀, hm₀, he⟩ := List.mem_map.mp hmem
        rw [← he]
        exact h.fresh call₀ hm₀
      · rw [List.mem_singleton.mp hmem]
        exact fun hold => hnew ((h.old.map LComic.comicID).subset hold)

/-- Records are added and filled behind those of the start. -/
theorem realm_step (h : Separate R s₀ s) (hS : Succeeds R s e) (hs : step s e = some s') :
    s₀.realm <+: s'.realm ∧ ∀ id ∈ s'.realm.ids, id ∈ s₀.realm.ids ∨ Owned s' id := by
  have hv := h.counting.calls
  have ht := Transition.of_step hs
  have hne : e ≠ .relaunch := by
    rintro rfl
    exact hS
  have hold : ∀ id ∈ s.realm.ids, id ∈ s₀.realm.ids ∨ Owned s' id := fun id hid =>
    (h.records id hid).imp_right fun ho => ho.forward hv hne ht
  generalize hrealm : s'.realm = realm
  cases hrealm ▸ ht.realm with
  | same => exact ⟨h.old, hold⟩
  | add c data call hr hc hw =>
    refine ⟨h.old.trans (List.prefix_append _ _), fun id hid => ?_⟩
    rw [Realm.ids_concat, posterArrived_record call data (hv hr c call hc).idComic] at hid
    rcases List.mem_append.mp hid with hid | hid
    · exact hold id hid
    · rw [List.mem_singleton.mp hid]
      exact .inr (owned_of_poster hs hc hv)
  | append c i j data1 call chapter comicl hr hc hi hj hf =>
    obtain ⟨more, hmore⟩ := h.old
    have hfresh := h.fresh call (List.mem_of_getElem? hc)
    refine ⟨?_, fun id hid => ?_⟩
    · rw [← hmore, Realm.appendChap_append hfresh]
      exact List.prefix_append _ _
    · rw [Realm.appendChap_ids] at hid
      exact hold id hid

theorem step (h : Separate R s₀ s) (hA : Answers R s e) (hS : Succeeds R s e)
    (hs : DownloadSession.step s e = some s') : Separate R s₀ s' where
  running := h.running_step hA hS hs
  counting := by
    apply h.counting.step (h.untroubled hA hS hs) _ hs
    rintro rfl
    exact hS.elim
  linked := by
    obtain ⟨order, hL⟩ := h.linked
    exact ⟨_, hL.step h.counting.calls (h.unrecorded_event hs) hs⟩
  mirrors _ _ hc' := h.mirrors_step hA hS hs (h.running_step hA hS hs) hc'
  listed _ _ hc' := h.listed_step hS hs (h.running_step hA hS hs) hc'
  distinct := (h.comicIDs_step hS hs).1
  fresh := (h.comicIDs_step hS hs).2
  records := (h.realm_step hS hs).2
  old := (h.realm_step hS hs).1

end Separate

def lastPage (s : State) : Event → Option ℕ
  | .page c i _ (some _) =>
    match s.calls[c]? with
    | none => none
    | some call =>
      match call.chapters[i]? with
      | none => none
      | some chapter =>
        if chapter.pages.left = 1 ∧ call.completed + 1 = call.chapters.length then some c else none
  | _ => none

/-- Taps raise the counter by one. A last page marks its comic, not marked before, as finished and
lowers the counter by one; nothing else changes either. -/
def FinishesOnce (s : State) (e : Event) : Prop :=
  ∀ s', step s e = some s' →
    (∀ c call, s.calls[c]? = some call → ∃ call', s'.calls[c]? = some call' ∧
      (lastPage s e = some c → call.comic.finish = false ∧ call'.comic.finish = true) ∧
      (lastPage s e ≠ some c → call'.comic.finish = call.comic.finish)) ∧
    s'.isDowloading = s.isDowloading + (match e with | .download _ => 1 | _ => 0) -
      if (lastPage s e).isSome then 1 else 0

theorem lastPage_eq_some {s : State} {e : Event} {c : ℕ} (h : lastPage s e = some c) :
    ∃ i j data1 call chapter, e = .page c i j (some data1) ∧ s.calls[c]? = some call ∧
      call.chapters[i]? = some chapter ∧ chapter.pages.left = 1 ∧
      call.completed + 1 = call.chapters.length := by
  unfold lastPage at h
  split at h
  · rename_i c₀ i j data1
    split at h
    · cases h
    · rename_i call hc
      split at h
      · cases h
      · rename_i chapter hi
        split_ifs at h with hlast
        obtain rfl := Option.some.inj h
        exact ⟨i, j, data1, call, chapter, rfl, hc, hi, hlast.1, hlast.2⟩
  · cases h

/-- Where replies do not end calls early, the page that fills a record is the last of its call. -/
theorem LastPage.lastPage_eq {s : State} {c i j : ℕ} {call : Call} {chapter : Chapter}
    (h : LastPage s c i j call chapter) {data1 : Data}
    (hU : Untroubled s (.page c i j (some data1))) :
    lastPage s (.page c i j (some data1)) = some c := by
  obtain ⟨comicl, hf, hn⟩ := h.record
  have hothers := (hU call h.hc chapter h.hi h.left).mp ⟨comicl, hf, hn⟩
  simp only [lastPage, h.hc, h.hi, h.left, hothers, and_self, if_true]

namespace Separate
variable {R : Remote} {s₀ s s' : State} {e : Event}

/-- The page that `lastPage` names is delivered to a waiting call. -/
theorem last_outcome (h : Separate R s₀ s) (hA : Answers R s e) (hS : Succeeds R s e)
    (hs : DownloadSession.step s e = some s') {c : ℕ} (hlast : lastPage s e = some c) :
    (∃ call call', s.calls[c]? = some call ∧ s'.calls[c]? = some call' ∧
      call.comic.finish = false ∧ call'.comic.finish = true) ∧
    s'.isDowloading = s.isDowloading - 1 := by
  have hU := h.untroubled hA hS hs
  obtain ⟨i, j, data1, call, chapter, rfl, hc, hi, hleft, hothers⟩ := lastPage_eq_some hlast
  cases Transition.of_step hs with
  | page _ _ _ _ call₀ chapter₀ hr hc₀ hi₀ hj =>
    obtain rfl : call = call₀ := Option.some.inj (hc.symm.trans hc₀)
    obtain rfl : chapter = chapter₀ := Option.some.inj (hi.symm.trans hi₀)
    have hpage := LastOutstanding.lastPage ⟨hi, hj, hleft, hothers⟩ hc hU
    obtain ⟨hcalls, hd⟩ := onPage_last hpage data1
    refine ⟨⟨call, (call.pageArrived i chapter j data1 hj).finished, hc, ?_, ?_, rfl⟩, hd⟩
    · rw [hcalls]
      exact List.getElem?_set_self (List.getElem?_eq_some_iff.mp hc).1
    · by_contra hfin
      have hdel := h.counting.finish hr c call hc (by simpa using hfin)
      have hw := (CallStep.page c i j data1 hi hj).inFlight
      exact (h.valid hc).not_inFlight hdel (hw.resolve_right (by simp))

theorem finish_outcome (h : Separate R s₀ s) (hA : Answers R s e) (hS : Succeeds R s e)
    (hs : DownloadSession.step s e = some s') {c : ℕ} {call : Call} (hc : s.calls[c]? = some call)
    (hlast : lastPage s e ≠ some c) :
    ∃ call', s'.calls[c]? = some call' ∧ call'.comic.finish = call.comic.finish := by
  have hU := h.untroubled hA hS hs
  have h' := h.step hA hS hs
  have hne : e ≠ .relaunch := by
    rintro rfl
    exact hS
  have ht := Transition.of_step hs
  obtain ⟨call', hc', -⟩ := ht.calls_forward h.counting.calls hne hc
  refine ⟨call', hc', Bool.eq_iff_iff.mpr ⟨fun hfin => ?_, fun hfin => ?_⟩⟩
  · rcases ht.finish_cases h'.running hc' hfin with ⟨call₀, hc₀, hf, -⟩ |
      ⟨i, j, data1, call₀, chapter, hj, rfl, hpage, -⟩
    · rwa [Option.some.inj (hc.symm.trans hc₀)]
    · exact absurd (hpage.lastPage_eq hU) hlast
  · have hd := h.counting.finish h.running c call hc hfin
    apply h'.counting.delivered h'.running c call' hc'
    rcases ht.calls_cases h'.running hc' with ⟨hold, -⟩ |
      ⟨p, id, -, -, rfl, -⟩ | ⟨call₀, hc₀, -, hcs⟩
    · rwa [← Option.some.inj (hc.symm.trans hold)]
    · rw [List.getElem?_eq_none le_rfl] at hc
      cases hc
    · obtain rfl := Option.some.inj (hc.symm.trans hc₀)
      exact hcs.delivered (h.valid hc) hd

theorem finishesOnce (h : Separate R s₀ s) (hA : Answers R s e) (hS : Succeeds R s e) :
    FinishesOnce s e := by
  intro s' hs
  have hU := h.untroubled hA hS hs
  refine ⟨fun c call hc => ?_, ?_⟩
  · by_cases hlast : lastPage s e = some c
    · obtain ⟨⟨call₀, call', hc₀, hc', hf, hf'⟩, -⟩ := h.last_outcome hA hS hs hlast
      obtain rfl : call = call₀ := Option.some.inj (hc.symm.trans hc₀)
      exact ⟨call', hc', fun _ => ⟨hf, hf'⟩, fun hne => absurd hlast hne⟩
    · obtain ⟨call', hc', hf⟩ := h.finish_outcome hA hS hs hc hlast
      exact ⟨call', hc', fun he => absurd he hlast, fun _ => hf⟩
  cases hlast : lastPage s e with
  | some c =>
    obtain ⟨-, hd⟩ := h.last_outcome hA hS hs hlast
    obtain ⟨i, j, data1, call, chapter, rfl, -⟩ := lastPage_eq_some hlast
    simpa using hd
  | none =>
    cases Transition.of_step hs with
    | relaunch => exact hS.elim
    | viewDidLoad => simpa using (onViewDidLoad_frame s).2.2.2.1
    | download p => simpa using (onDownload_frame s p).2.2.1
    | poster c data call hr hc hw =>
      cases hf : (call.posterArrived data).forChapters with
      | none => simp [onPoster_of_trap hf, State.posterRecorded, State.trap, State.setCall]
      | some call' => simp [onPoster_of_some hf, State.setCall]
    | page c i j data1 call chapter hr hc hi hj =>
      generalize hs' : s.onPage c call i chapter j data1 hj = s'
      cases hs' ▸ onPage_outcome s c call i chapter j data1 hj with
      | last comicl hl hf hn =>
        have hleft : chapter.pages.left = 1 := by rw [Batch.receive_left] at hl; omega
        have hpage : LastPage s c i j call chapter := ⟨hc, hi, hj, hleft, comicl, hf, hn⟩
        rw [hpage.lastPage_eq hU] at hlast
        cases hlast
      | _ => simp [State.setCall]
    | _ => simp [State.setCall, State.trap]

end Separate

/-- Downloads of distinct comics, with every request answered in any order: each step finishes a
comic exactly when it delivers its last page, and with nothing left in flight the counter is back,
every comic is finished, and each has one record with all its pages. -/
theorem downloads_exactly_once (R : Remote) (s₀ s : State) (es : List Event)
    (hr : s₀.running = true) (h0 : s₀.calls = []) (hrun : run step s₀ es = some s)
    (hC : Along step (fun s e => Answers R s e ∧ Succeeds R s e) s₀ es) :
    Along step FinishesOnce s₀ es ∧
    (∀ call ∈ s.calls, call.comic.finish = true ↔ call.Delivered) ∧
    ((∀ call ∈ s.calls, ¬ call.InFlight) → s.isDowloading = s₀.isDowloading ∧
      ∀ call ∈ s.calls, call.comic.finish = true ∧ Realm.StoredOnce R s.realm call.comicID) ∧
    s₀.realm <+: s.realm := by
  have hkeep : ∀ s e s', Separate R s₀ s → Answers R s e ∧ Succeeds R s e → step s e = some s' →
      Separate R s₀ s' := fun s e s' h hc hs => h.step hc.1 hc.2 hs
  have h := run_invariant step (separate_of_nil R hr h0) hkeep hC hrun
  have hfin : ∀ call ∈ s.calls, call.comic.finish = true ↔ call.Delivered := by
    intro call hm
    obtain ⟨c, hc⟩ := List.mem_iff_getElem?.mp hm
    exact ⟨h.counting.finish h.running c call hc, h.counting.delivered h.running c call hc⟩
  refine ⟨?_, hfin, fun hquiet => ⟨?_, fun call hm => ?_⟩, h.old⟩
  · exact along_of_invariant step hkeep (fun s e h hc => h.finishesOnce hc.1 hc.2)
      (separate_of_nil R hr h0) hC
  · have hzero : (s.calls.countP fun call => call.InFlight) = 0 := by
      simpa [List.countP_eq_zero] using hquiet
    rw [h.counting.isDowloading h.running, hzero]
    simp
  · obtain ⟨c, hc⟩ := List.mem_iff_getElem?.mp hm
    have hsound := h.counting.sound h.running c call hc
    have hd : call.Delivered := by
      by_contra hd
      exact hquiet call hm ((hsound.inFlight_iff (h.valid hc)).mpr hd)
    obtain ⟨order, hL⟩ := h.linked
    exact ⟨(hfin call hm).mpr hd,
      storedOnce_of_delivered hL hc (h.valid hc) (h.mirrors c call hc).1 (h.listed c call hc) hd⟩

def twoComics : Remote where
  document id :=
    if id = "a" then some ⟨some "A", some 2, some 0, some "a.jpg", some "a"⟩
    else if id = "b" then some ⟨some "B", some 1, some 0, some "b.jpg", some "b"⟩
    else none
  listAll path :=
    if path = "a/001" then ["p", "q"]
    else if path = "a/002" then ["r"]
    else if path = "b/001" then ["t"]
    else []
  getData item := if item = "p" then [1] else if item = "q" then [2] else [3, 4]

def interleaved : List Event :=
  [.select (some "a"), .viewDidLoad, .download 0, .select (some "b"), .viewDidLoad, .download 1,
    .document 1 (.found ⟨some "B", some 1, some 0, some "b.jpg", some "b"⟩),
    .document 0 (.found ⟨some "A", some 2, some 0, some "a.jpg", some "a"⟩),
    .poster 0 (some []), .poster 1 (some []), .listAll 0 1 (.success ["r"]), .listAll 1 0 (.success ["t"]),
    .page 0 1 0 (some [3, 4]), .listAll 0 0 (.success ["p", "q"]), .page 0 0 1 (some [2]),
    .page 1 0 0 (some [3, 4]), .page 0 0 0 (some [1])]

theorem downloads_exactly_once_interleaved :
    ((run step (launch []) interleaved).get (by decide +kernel)).isDowloading = 0 ∧
      ∀ call ∈ ((run step (launch []) interleaved).get (by decide +kernel)).calls,
        call.comic.finish = true ∧
          Realm.StoredOnce twoComics
            ((run step (launch []) interleaved).get (by decide +kernel)).realm call.comicID :=
  (downloads_exactly_once twoComics (launch []) _ interleaved rfl rfl (Option.some_get _).symm
    (by decide +kernel)).2.2.1 (by decide +kernel)

end DownloadSession
end ComicApp
