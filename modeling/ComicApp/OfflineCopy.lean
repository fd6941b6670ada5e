import ComicApp.DownloadOrder
import ComicApp.PageLoad

/-!
# The offline copy of a comic

Downloads only ever add to the store: a record is appended, or a chapter is appended to the first
record of a comic. So what was stored stays where it is through every later event, restarts included,
and whatever the store shows of it now it shows in every later process. The copy of a finished comic
holds every folder once with the pages its listing named, all of them unless the listing failed, and
the reader draws a stored chapter as it would have drawn these pages had they come from the remote side
in the stored order.
-/

namespace ComicApp
open scoped List

structure LComic.Extends (comic comic' : LComic) : Prop where
  comicID : comic'.comicID = comic.comicID
  comicName : comic'.comicName = comic.comicName
  comicNChap : comic'.comicNChap = comic.comicNChap
  comicPoster : comic'.comicPoster = comic.comicPoster
  listChap : comic.listChap <+: comic'.listChap

namespace LComic.Extends

theorem refl (comic : LComic) : comic.Extends comic := ⟨rfl, rfl, rfl, rfl, List.prefix_rfl⟩

theorem trans {a b c : LComic} (h : a.Extends b) (h' : b.Extends c) : a.Extends c where
  comicID := h'.comicID.trans h.comicID
  comicName := h'.comicName.trans h.comicName
  comicNChap := h'.comicNChap.trans h.comicNChap
  comicPoster := h'.comicPoster.trans h.comicPoster
  listChap := h.listChap.trans h'.listChap

theorem concat (comic : LComic) (chap : LChap) :
    comic.Extends { comic with listChap := comic.listChap ++ [chap] } :=
  ⟨rfl, rfl, rfl, rfl, List.prefix_append _ _⟩

end LComic.Extends

namespace Realm

def Extends (realm realm' : Realm) : Prop :=
  ∀ (k : ℕ) (comic : LComic), realm[k]? = some comic →
    ∃ comic', realm'[k]? = some comic' ∧ comic.Extends comic'

theorem Extends.refl (realm : Realm) : Extends realm realm :=
  fun _ comic h => ⟨comic, h, .refl comic⟩

theorem Extends.trans {a b c : Realm} (h : Extends a b) (h' : Extends b c) : Extends a c := by
  intro k comic hk
  obtain ⟨comic', hk', he⟩ := h k comic hk
  obtain ⟨comic'', hk'', he'⟩ := h' k comic' hk'
  exact ⟨comic'', hk'', he.trans he'⟩

theorem extends_append (realm more : Realm) : Extends realm (realm ++ more) := by
  intro k comic hk
  have hlt := (List.getElem?_eq_some_iff.mp hk).1
  exact ⟨comic, by rwa [List.getElem?_append_left hlt], .refl comic⟩

theorem extends_appendChap (id : String) (chap : LChap) (realm : Realm) :
    Extends realm (realm.appendChap id chap) := by
  induction realm with
  | nil => exact .refl []
  | cons head realm ih =>
    rw [appendChap]
    split_ifs with hid
    · intro k comic hk
      cases k with
      | zero =>
        obtain rfl := Option.some.inj hk
        exact ⟨_, rfl, .concat head chap⟩
      | succ k => exact ⟨comic, hk, .refl comic⟩
    · intro k comic hk
      cases k with
      | zero =>
        obtain rfl := Option.some.inj hk
        exact ⟨head, rfl, .refl head⟩
      | succ k => exact ih k comic hk

/-- The record that a lookup finds is still found, since no record before it has changed its id. -/
theorem Extends.first {realm realm' : Realm} (h : Extends realm realm') {id : String}
    {comic : LComic} (hfirst : realm.first id = some comic) :
    ∃ comic', realm'.first id = some comic' ∧ comic.Extends comic' := by
  induction realm generalizing realm' with
  | nil => cases hfirst
  | cons head realm ih =>
    obtain ⟨head', hhead, he⟩ := h 0 head rfl
    obtain ⟨rest, rfl⟩ : ∃ rest, realm' = head' :: rest := by
      cases realm' with
      | nil => cases hhead
      | cons first rest => exact ⟨rest, by rw [Option.some.inj hhead]⟩
    have hrest : Extends realm rest := fun k => h (k + 1)
    by_cases hid : head.comicID = id
    · obtain rfl : head = comic := by simpa [Realm.first, hid] using hfirst
      exact ⟨head', by simp [Realm.first, he.comicID, hid], he⟩
    · have hfirst' : Realm.first realm id = some comic := by simpa [Realm.first, hid] using hfirst
      obtain ⟨comic', hcomic, he'⟩ := ih hrest hfirst'
      refine ⟨comic', ?_, he'⟩
      simpa [Realm.first, he.comicID, hid] using hcomic

/-- The pages of a stored chapter are read back as they were. -/
theorem Extends.loadChapter {realm realm' : Realm} (h : Extends realm realm') {id : String}
    {index : ℤ} {pages : List Data} (hrecord : realm.first id ≠ none)
    (hload : ChapterViewController.loadChapterFromRealm realm (some id) index = some pages) :
    ChapterViewController.loadChapterFromRealm realm' (some id) index = some pages := by
  obtain ⟨comic, hfirst⟩ := Option.ne_none_iff_exists'.mp hrecord
  obtain ⟨comic', hfirst', he⟩ := h.first hfirst
  simp only [ChapterViewController.loadChapterFromRealm, Option.bind_some, hfirst, hfirst'] at hload ⊢
  split_ifs at hload ⊢ with hneg
  obtain ⟨chap, hchap, rfl⟩ := Option.map_eq_some_iff.mp hload
  obtain ⟨more, hmore⟩ := he.listChap
  have hlt := (List.getElem?_eq_some_iff.mp hchap).1
  rw [← hmore, List.getElem?_append_left hlt, hchap]
  rfl

end Realm

namespace DownloadSession
open EventMachine

theorem extends_step {s s' : State} {e : Event} (h : step s e = some s') :
    s.realm.Extends s'.realm := by
  generalize hrealm : s'.realm = realm
  cases hrealm ▸ (Transition.of_step h).realm with
  | same => exact .refl s.realm
  | add c data call => exact Realm.extends_append s.realm _
  | append c i j data1 call => exact Realm.extends_appendChap call.comicID _ s.realm

theorem extends_of_run {s s' : State} {es : List Event} (h : run step s es = some s') :
    s.realm.Extends s'.realm :=
  run_invariant step (I := fun t => s.realm.Extends t.realm) (.refl s.realm)
    (fun _ _ _ hI _ hs => hI.trans (extends_step hs)) (along_true step s es) h

/-- Every stored chapter is read back unchanged in every later state, whatever was downloaded and
however often the app was killed in between, and after every restart the shelf lists every stored
comic at its place. -/
theorem stored_kept (s t : State) (es : List Event) (hrun : run step s es = some t) :
    (∀ (id : String) (index : ℤ) (pages : List Data), s.realm.first id ≠ none →
      ChapterViewController.loadChapterFromRealm s.realm (some id) index = some pages →
      ChapterViewController.loadChapterFromRealm t.realm (some id) index = some pages) ∧
    ∀ u, step t .relaunch = some u → ∀ (k : ℕ) (comic : LComic), s.realm[k]? = some comic →
      u.listDownload[k]? = some (.stored {
        name := some comic.comicName
        idComic := some comic.comicID
        finish := true
        poster := some comic.comicPoster
        totalChap := some comic.comicNChap }) := by
  have hext := extends_of_run hrun
  refine ⟨fun id index pages => hext.loadChapter, ?_⟩
  intro u hu k comic hk
  obtain ⟨comic', hk', he⟩ := hext k comic hk
  cases Transition.of_step hu
  simp only [launch, ComicRealmToRam, List.getElem?_map, hk', Option.map_some, he.comicID,
    he.comicName, he.comicPoster, he.comicNChap]

def reopenedLater : List Event := [.relaunch, .select (some "a"), .viewDidLoad]

def later : State := (run step reversed reopenedLater).get (by decide +kernel)

theorem stored_kept_later :
    ChapterViewController.loadChapterFromRealm later.realm (some "a") 0 = some [[2, 3]] :=
  (stored_kept reversed later reopenedLater (Option.some_get _).symm).1 "a" 0 [[2, 3]]
    (by decide +kernel) (by decide +kernel)

/-- The folders whose pages arrived for call `c`, in the order of their last pages. -/
def folders (c : ℕ) (es : List Event) : List ℕ := ((arrived c es).map Prod.fst).dedup

/-- A finished record holds every folder once, and of each folder once every page that its listing
named: the whole folder, or the first pages of it where the listing failed. -/
theorem stored_perm {R : Remote} {s₀ s : State} {es : List Event} (h0 : s₀.calls = [])
    (hrun : run step s₀ es = some s) (hr : s.running = true)
    (hC : Along step (fun s e => Answers R s e ∧ Unrecorded s e) s₀ es) {c : ℕ} {call : Call}
    (hc : s.calls[c]? = some call) (hfin : call.comic.finish = true) :
    ∃ comicl, s.realm.first call.comicID = some comicl ∧
      folders c es ~ List.range (R.chapters call.comicID).length ∧
      ∀ k i : ℕ, (folders c es)[k]? = some i → ∃ pages listed folder,
        (R.chapters call.comicID)[i]? = some folder ∧ pages ~ listed ∧ listed <+: folder ∧
          (∀ chapter ∈ call.chapters[i]?, chapter.listing = .arrived → listed = folder) ∧
          comicl.listChap[k]? = some (LChap.mk pages) := by
  obtain ⟨hfd, order, hO⟩ := ordered_of_run h0 hC hrun
  obtain ⟨hv, hm⟩ := mirrors_of_run h0 (hC.mono step fun _ _ h => h.1) hrun hr hc
  have hd := hfd hr c call hc hfin
  obtain ⟨hp, hall⟩ := hv.delivered_iff.mp hd
  obtain ⟨comicl, hf, hchap⟩ := listChap_eq hO hr hc hv hd
  obtain ⟨comicl', hf', -, -, hst⟩ := hO.linked.link c call hc hp
  obtain rfl : comicl = comicl' := Option.some.inj (hf.symm.trans hf')
  have ht := hO.tracks c call hr hc
  have horder : order c = folders c es := by
    rw [folders, ht.order, List.filter_eq_self]
    intro k hk
    obtain ⟨p, hpl, rfl⟩ := List.mem_map.mp (List.mem_dedup.mp hk)
    obtain ⟨chapter, hi⟩ := ht.known p hpl
    rw [Call.completeAt, hi]
    exact decide_eq_true (hall chapter (List.mem_of_getElem? hi))
  have hchapters := hm.chapters_eq hv hp
  refine ⟨comicl, hf, ?_, fun k i hk => ?_⟩
  · rw [hchapters, List.length_map, ← horder]
    exact hst.perm_range hall
  · rw [← horder] at hk
    obtain ⟨chapter, hi, hcomplete⟩ := (hst.complete i).mp (List.mem_of_getElem? hk)
    have hstored : comicl.listChap[k]?.map some = some (some chapter.stored) := by
      rw [← List.getElem?_map, hst.listChap, List.getElem?_map, hk]
      simp only [Option.map_some, Option.mem_def.mp hi]
    obtain ⟨chap, hk', hchap'⟩ := Option.map_eq_some_iff.mp hstored
    obtain rfl := Option.some.inj hchap'
    have hmem := List.mem_of_getElem? hi
    refine ⟨chapter.pages.got, chapter.items.map R.getData, R.pages chapter.path, ?_,
      hm.got_items_perm hmem hcomplete, (hm.partly chapter hmem).map R.getData, ?_, hk'⟩
    · rw [hchapters, List.getElem?_map, Option.mem_def.mp hi]
      rfl
    · intro chapter' hi' harrived
      obtain rfl : chapter = chapter' := Option.some.inj (hi.symm.trans hi')
      rw [hm.listed chapter hmem harrived, Remote.pages]

/-- The loop over a stored chapter leaves the reader as the loading of the same pages, arriving in the
stored order, would have left it. -/
theorem show_eq_load {decode : Data → Option CGSize} {reader : ChapterViewController}
    {realm : Realm} {id : String} {index : ℤ} {es : List PageLoad.Event} {p : PageLoad.State}
    (hdecode : ∀ reply, .listAll reply ∈ es → ∀ data ∈ reply.listed, (decode data).isSome)
    (hrun : run (PageLoad.step decode) ⟨reader, .downLoad, true⟩ es = some p)
    (hload : ChapterViewController.loadChapterFromRealm realm (some id) index =
      some (p.load.arrivedData es)) :
    reader.showChapterFromRealm decode realm (some id) index = some p.reader := by
  obtain ⟨pages, hdata, hpages, hreader, -⟩ := (PageLoad.inv_of_run decode hdecode hrun).pages
  rw [ChapterViewController.showChapterFromRealm, hload, Option.bind_some, ← hdata,
    ChapterViewController.addListImg_data decode reader 0 hpages, hreader]

/-- Once a comic is finished its offline copy is, in every later state, every remote chapter once with
every page of it once, or every page before the error where the listing of the chapter failed; and the
reader shows each stored chapter exactly as it shows pages that are loaded from the remote side and
arrive in the stored order. -/
theorem offline_copy (R : Remote) (decode : Data → Option CGSize) (s₀ s t : State)
    (es fs : List Event) (h0 : s₀.calls = []) (hrun : run step s₀ es = some s)
    (hr : s.running = true)
    (hC : Along step (fun s e => Answers R s e ∧ Unrecorded s e) s₀ es) (c : ℕ) (call : Call)
    (hc : s.calls[c]? = some call) (hfin : call.comic.finish = true)
    (hlater : run step s fs = some t) :
    folders c es ~ List.range (R.chapters call.comicID).length ∧
      ∀ k i : ℕ, (folders c es)[k]? = some i → ∃ pages listed folder,
        (R.chapters call.comicID)[i]? = some folder ∧ pages ~ listed ∧ listed <+: folder ∧
        (∀ chapter ∈ call.chapters[i]?, chapter.listing = .arrived → listed = folder) ∧
        ChapterViewController.loadChapterFromRealm t.realm (some call.comicID) k = some pages ∧
        ∀ (reader : ChapterViewController) (es' : List PageLoad.Event) (p : PageLoad.State),
          (∀ reply, .listAll reply ∈ es' → ∀ data ∈ reply.listed, (decode data).isSome) →
          run (PageLoad.step decode) ⟨reader, .downLoad, true⟩ es' = some p →
          p.load.arrivedData es' = pages →
          reader.showChapterFromRealm decode t.realm (some call.comicID) k = some p.reader := by
  obtain ⟨comicl, hf, hperm, hstored⟩ := stored_perm h0 hrun hr hC hc hfin
  refine ⟨hperm, fun k i hk => ?_⟩
  obtain ⟨pages, listed, folder, hfolder, hpages, hle, hwhole, hchap⟩ := hstored k i hk
  have hload : ChapterViewController.loadChapterFromRealm t.realm (some call.comicID) k =
      some pages := by
    refine (extends_of_run hlater).loadChapter (by rw [hf]; exact Option.some_ne_none _) ?_
    simp [ChapterViewController.loadChapterFromRealm, hf, hchap]
  refine ⟨pages, listed, folder, hfolder, hpages, hle, hwhole, hload, ?_⟩
  rintro reader es' p hdecode hrun' rfl
  exact show_eq_load hdecode hrun' hload

theorem offline_copy_later : ∃ pages folder, (twoFolders.chapters "a")[1]? = some folder ∧
    pages ~ folder ∧
      ChapterViewController.loadChapterFromRealm later.realm (some "a") 0 = some pages := by
  obtain ⟨-, hcopy⟩ := offline_copy twoFolders (fun _ => some PageLoad.square) (launch []) reversed
    later repliesReversed reopenedLater rfl (Option.some_get _).symm (by decide +kernel)
    (by decide +kernel) 0 (reversed.calls.get ⟨0, by decide +kernel⟩) (by rfl) (by decide +kernel)
    (Option.some_get _).symm
  obtain ⟨pages, listed, folder, hfolder, hpages, -, hwhole, hload, -⟩ :=
    hcopy 0 1 (by decide +kernel)
  obtain rfl := hwhole ((reversed.calls.get ⟨0, by decide +kernel⟩).chapters.get
    ⟨1, by decide +kernel⟩) (by rfl) (by decide +kernel)
  exact ⟨pages, listed, hfolder, hpages, hload⟩

end DownloadSession
end ComicApp
