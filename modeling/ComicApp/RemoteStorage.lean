import ComicApp.CallSteps

/-!
# Downloads over unchanging remote storage

`Remote` is the catalogue and the storage behind it, and `Answers` asks that a reply which carries
data carries what the remote side holds; an error is always a possible reply. Along runs with such
replies every call mirrors the remote comic it was started for.
-/

namespace ComicApp
open scoped List

structure Remote where
  document : String → Option Document
  listAll : String → List String
  getData : String → Data

namespace Remote

def pages (R : Remote) (folder : String) : List Data := (R.listAll folder).map R.getData

def chapters (R : Remote) (id : String) : List (List Data) :=
  match R.document id with
  | none => []
  | some data =>
    (List.range (data.totalChap.getD 0).toNat).map fun index =>
      R.pages (data.filePath.getD "" ++ Shelf.path index)

def totalBytes (R : Remote) (id : String) : ℤ :=
  ((R.chapters id).map fun pages => (pages.map fun data => (data.length : ℤ)).sum).sum

end Remote

def Chapter.items (chapter : Chapter) : List String :=
  (chapter.pages.slots.map Slot.key).map PageTask.item

theorem Chapter.items_receive {chapter : Chapter} {j : ℕ} (hj : chapter.pages.Waiting j) {data : Data} :
    Chapter.items { chapter with pages := chapter.pages.receive j data hj } = chapter.items := by
  simp [Chapter.items]

theorem Chapter.items_fail {chapter : Chapter} {j : ℕ} (hj : chapter.pages.Waiting j) :
    Chapter.items { chapter with pages := chapter.pages.fail j hj } = chapter.items := by
  simp [Chapter.items]

theorem Chapter.items_start (path : String) (listing : Request) (arrayCalcPercent : List ℤ)
    (items : List String) :
    Chapter.items ⟨path, listing, .start (tasks arrayCalcPercent items)⟩ = items := by
  simp [Chapter.items]

namespace Call

structure Mirrors (R : Remote) (call : Call) : Prop where
  document : call.poster ≠ .idle → ∃ data, R.document call.comicID = some data ∧
    call.comic.totalChap = data.totalChap ∧ call.filePath = data.filePath
  path : ∀ i chapter, call.chapters[i]? = some chapter →
    ∃ filePath, call.filePath = some filePath ∧ chapter.path = filePath ++ Shelf.path i
  listed : ∀ chapter ∈ call.chapters, chapter.listing = .arrived →
    chapter.items = R.listAll chapter.path
  partly : ∀ chapter ∈ call.chapters, chapter.items <+: R.listAll chapter.path
  serves : ∀ chapter ∈ call.chapters, chapter.pages.Serves fun task => R.getData task.item

namespace Mirrors
variable {R : Remote} {call : Call}

theorem DownloadCommic (R : Remote) (id : String) : (Shelf.DownloadCommic id).Mirrors R where
  document h := absurd rfl h
  path _ _ h := by cases h
  listed _ h := by cases h
  partly _ h := by cases h
  serves _ h := by cases h

/-- Replacing one chapter needs the remote side's word for that chapter only. -/
theorem setChapter (hm : call.Mirrors R) {i : ℕ} {chapter : Chapter}
    (hi : call.chapters[i]? = some chapter) (chapter' : Chapter) (hp : chapter'.path = chapter.path)
    (hl : chapter'.listing = .arrived → chapter'.items = R.listAll chapter'.path)
    (hle : chapter'.items <+: R.listAll chapter'.path)
    (hs : chapter'.pages.Serves fun task => R.getData task.item) :
    (call.setChapter i chapter').Mirrors R where
  document := hm.document
  path k chapter₀ hk := by
    change (call.chapters.set i chapter')[k]? = some chapter₀ at hk
    by_cases hki : i = k
    · subst hki
      obtain ⟨_, he⟩ := List.getElem?_eq_some_iff.mp hk
      rw [List.getElem_set_self] at he
      obtain ⟨filePath, hf, hpath⟩ := hm.path i chapter hi
      exact ⟨filePath, hf, by rw [← he, hp, hpath]⟩
    · rw [List.getElem?_set_ne hki] at hk
      exact hm.path k chapter₀ hk
  listed := forall_mem_set hm.listed i hl
  partly := forall_mem_set hm.partly i hle
  serves := forall_mem_set hm.serves i hs

/-- The remaining fields of a call do not enter. -/
theorem congr (hm : call.Mirrors R) {call' : Call} (hid : call'.comicID = call.comicID)
    (hp : call'.poster ≠ .idle → call.poster ≠ .idle)
    (ht : call'.comic.totalChap = call.comic.totalChap) (hf : call'.filePath = call.filePath)
    (hch : call'.chapters = call.chapters) : call'.Mirrors R where
  document h := by rw [hid, ht, hf]; exact hm.document (hp h)
  path := by rw [hch, hf]; exact hm.path
  listed := by rw [hch]; exact hm.listed
  partly := by rw [hch]; exact hm.partly
  serves := by rw [hch]; exact hm.serves

theorem pageArrived (hm : call.Mirrors R) {i j : ℕ} {chapter : Chapter} {data1 : Data}
    (hi : call.chapters[i]? = some chapter) (hj : chapter.pages.Waiting j)
    (hdata : ∀ task ∈ chapter.pages.slots[j]?, data1 = R.getData task.key.item) :
    (call.pageArrived i chapter j data1 hj).Mirrors R := by
  have hmem := List.mem_of_getElem? hi
  obtain ⟨task, htask⟩ := hj.slot
  obtain rfl := hdata _ htask
  have hset := hm.setChapter hi
    { chapter with pages := chapter.pages.receive j (R.getData task.item) hj } rfl
    (fun h => (Chapter.items_receive hj).trans (hm.listed chapter hmem h))
    (Chapter.items_receive hj ▸ hm.partly chapter hmem) ((hm.serves chapter hmem).receive hj htask)
  exact hset.congr rfl id rfl rfl rfl

/-- A complete chapter holds the pages it asked for, each once. -/
theorem got_items_perm (hm : call.Mirrors R) {chapter : Chapter} (hc : chapter ∈ call.chapters)
    (hcomplete : chapter.Complete) : chapter.pages.got ~ chapter.items.map R.getData := by
  rw [Chapter.items, List.map_map]
  exact (hm.serves chapter hc).complete hcomplete

/-- Once its listing has succeeded these are the pages of its folder. -/
theorem got_perm (hm : call.Mirrors R) {chapter : Chapter} (hc : chapter ∈ call.chapters)
    (hl : chapter.listing = .arrived) (hcomplete : chapter.Complete) :
    chapter.pages.got ~ R.pages chapter.path := by
  rw [Remote.pages, ← hm.listed chapter hc hl]
  exact hm.got_items_perm hc hcomplete

/-- The folders of the call's chapters hold the remote chapters. -/
theorem chapters_eq (hm : call.Mirrors R) (hv : call.Valid) (hp : call.poster = .arrived) :
    R.chapters call.comicID = call.chapters.map fun chapter => R.pages chapter.path := by
  obtain ⟨data, hd, ht, hf⟩ := hm.document (by simp [hp])
  have hcount := hv.totalChap hp
  rw [Remote.chapters, hd]
  dsimp only
  rw [← ht, hcount]
  apply List.ext_getElem
  · simp
  · intro i hi hi'
    rw [List.length_map] at hi'
    obtain ⟨filePath, hf', hpath⟩ := hm.path i _ (List.getElem?_eq_getElem hi')
    rw [List.getElem_map, List.getElem_map, List.getElem_range, hpath, ← hf, hf']
    rfl

end Mirrors
end Call

namespace DownloadSession
open EventMachine

/-- A reply with data carries what the remote side holds, and a listing that fails the result pages
before its error. The size of a document may be any, since downloads write it back. -/
def Answers (R : Remote) (s : State) : Event → Prop
  | .document c .missing => ∀ call ∈ s.calls[c]?, R.document call.comicID = none
  | .document c (.found data) => ∀ call ∈ s.calls[c]?, ∃ data₀ ∈ R.document call.comicID,
    data.totalChap = data₀.totalChap ∧ data.posterPath = data₀.posterPath ∧
      data.filePath = data₀.filePath
  | .listAll c i (.success items) => ∀ call ∈ s.calls[c]?, ∀ chapter ∈ call.chapters[i]?,
    items = R.listAll chapter.path
  | .listAll c i (.error before) => ∀ call ∈ s.calls[c]?, ∀ chapter ∈ call.chapters[i]?,
    before <+: R.listAll chapter.path
  | .page c i j (some data1) => ∀ call ∈ s.calls[c]?, ∀ chapter ∈ call.chapters[i]?,
    ∀ task ∈ chapter.pages.slots[j]?, data1 = R.getData task.key.item
  | _ => True

instance decidableAnswers (R : Remote) (s : State) : ∀ e, Decidable (Answers R s e)
  | .document c .missing => inferInstanceAs (Decidable (∀ call ∈ s.calls[c]?, _))
  | .document c (.found _) => inferInstanceAs (Decidable (∀ call ∈ s.calls[c]?, ∃ data₀ ∈ _, _))
  | .listAll c _ (.success _) | .listAll c _ (.error _) =>
    inferInstanceAs (Decidable (∀ call ∈ s.calls[c]?, ∀ chapter ∈ _, _))
  | .page c _ _ (some _) =>
    inferInstanceAs (Decidable (∀ call ∈ s.calls[c]?, ∀ chapter ∈ _, ∀ task ∈ _, _))
  | .document _ .error | .page _ _ _ none => .isTrue trivial
  | .select _ | .viewDidLoad | .leave _ | .download _ | .poster _ _ | .progress _ _ _ _
  | .relaunch => .isTrue trivial

theorem CallStep.mirrors {R : Remote} {s : State} {e : Event} {c : ℕ} {call call' : Call}
    (h : CallStep e call call') (hc : s.calls[c]? = some call) (he : e.ofCall = some c)
    (hA : Answers R s e) (hv : call.Valid) (hm : call.Mirrors R) : call'.Mirrors R := by
  cases h with
  | document c' reply hw ho =>
    obtain rfl := Option.some.inj he
    cases Call.onDocument_outcome ho with
    | error => exact hm.congr rfl id rfl rfl rfl
    | missing => exact hm.congr rfl id rfl rfl rfl
    | found data hposter =>
      obtain ⟨data₀, hd, ht, -, hf⟩ := hA call hc
      have hnil : (call.documentFound data).chapters = [] :=
        hv.chapters_nil (by simp [hv.poster_idle hw])
      exact ⟨fun _ => ⟨data₀, hd, ht, hf⟩, by simp [hnil], by simp [hnil], by simp [hnil],
        by simp [hnil]⟩
  | posterFailed c' hw => exact hm.congr rfl (fun _ => by simp [hw]) rfl rfl rfl
  | poster c' data hw hf =>
    have hnil : call.chapters = [] := hv.chapters_nil (by simp [hw])
    obtain ⟨heq, -, hfresh⟩ := Call.forChapters_spec hf hnil
    rw [heq]
    have hnew : ∀ chapter ∈ call'.chapters, ∃ path, chapter = .fresh path := by
      intro chapter hch
      obtain ⟨i, hi⟩ := List.mem_iff_getElem?.mp hch
      obtain ⟨filePath, -, rfl⟩ := hfresh i chapter hi
      exact ⟨_, rfl⟩
    refine ⟨fun _ => hm.document (by simp [hw]), fun i chapter hi => ?_, fun chapter hch hl => ?_,
      fun chapter hch => ?_, fun chapter hch => ?_⟩
    · obtain ⟨filePath, hfp, rfl⟩ := hfresh i chapter hi
      exact ⟨filePath, hfp, rfl⟩
    · obtain ⟨path, rfl⟩ := hnew chapter hch
      cases hl
    · obtain ⟨path, rfl⟩ := hnew chapter hch
      exact List.nil_prefix
    · obtain ⟨path, rfl⟩ := hnew chapter hch
      exact List.Perm.refl _
  | @listAll c' i reply _ chapter hi hw =>
    obtain rfl := Option.some.inj he
    have hitems := Chapter.items_start chapter.path reply.request call.arrayCalcPercent reply.listed
    have hle : reply.listed <+: R.listAll chapter.path := by
      cases reply with
      | success items => exact (hA call hc chapter hi : items = _) ▸ List.prefix_rfl
      | error before => exact hA call hc chapter hi
    have hset := hm.setChapter hi { chapter with
      listing := reply.request
      pages := .start (Chapter.tasks call.arrayCalcPercent reply.listed) } rfl
      (fun hl => ?_) (hitems.symm ▸ hle) (Batch.serves_start _ _)
    · exact hset.congr rfl id rfl rfl rfl
    · rw [ListAllReply.eq_success hl] at hA
      exact hitems.trans (hA call hc chapter hi)
  | @pageFailed c' i j _ chapter hi hj =>
    have hmem := List.mem_of_getElem? hi
    exact hm.setChapter hi _ rfl (fun h => (Chapter.items_fail hj).trans (hm.listed chapter hmem h))
      (Chapter.items_fail hj ▸ hm.partly chapter hmem) ((hm.serves chapter hmem).fail hj)
  | @page c' i j data1 _ chapter hi hj =>
    obtain rfl := Option.some.inj he
    exact hm.pageArrived hi hj (hA call hc chapter hi)
  | @pageLast c' i j data1 _ chapter hi hj =>
    obtain rfl := Option.some.inj he
    exact (hm.pageArrived hi hj (hA call hc chapter hi)).congr rfl id rfl rfl rfl
  | progress c' i j n hi hj => exact hm.congr rfl id rfl rfl rfl

end DownloadSession
end ComicApp
