import ComicApp.AccountSwitch
import ComicApp.ListRequests
import ComicApp.ShelfObjects
import Mathlib.Algebra.BigOperators.Group.List.Basic
import Mathlib.Algebra.Order.Group.Multiset

/-!
# The shelf and what is on its way to it

Two shelf lists are filled by chains of requests, so the ids of the comics in a list are to be read
together with the ids of the comics that requests still bring. Each callback moves a comic on: it
asks for the poster of a comic whose document has arrived, or puts a comic in its list.
-/

namespace ComicApp.AccountSession
open EventMachine

def Link.toLike : Link → Bool
  | .comicDocument .comicHistory _ | .poster .comicHistory _ => false
  | .comicDocument _ _ | .poster _ _ => true
  | _ => false

def Link.toHistory : Link → Bool
  | .comicDocument .comicHistory _ | .poster .comicHistory _ | .listAll _ | .item _ => true
  | _ => false

/-- The ids in the two lists, and the ids of the comics that requests still bring for them. -/
structure Shelf where
  listHistory : List (Option String)
  listLike : List (Option String)
  history : Multiset (Option String)
  like : Multiset (Option String)

namespace Shelf

def expect (shelf : Shelf) (history like : Multiset (Option String)) : Shelf :=
  { shelf with history := shelf.history + history, like := shelf.like + like }

def ask (shelf : Shelf) : Chain → Multiset (Option String) → Shelf
  | .comicHistory, ids => shelf.expect ids 0
  | .comicLike, ids | .Like, ids => shelf.expect 0 ids

def add (shelf : Shelf) (id : Option String) : Chain → Shelf
  | .comicHistory => { shelf with listHistory := shelf.listHistory ++ [id] }
  | .comicLike | .Like => { shelf with listLike := shelf.listLike ++ [id] }

def addNew (shelf : Shelf) (id : Option String) : Shelf :=
  if id ∈ shelf.listHistory then shelf else shelf.add id .comicHistory

theorem expect_zero (shelf : Shelf) : shelf.expect 0 0 = shelf := by
  simp [expect]

theorem ask_zero (shelf : Shelf) (chain : Chain) : shelf.ask chain 0 = shelf := by
  cases chain <;> exact shelf.expect_zero

theorem ask_ask (shelf : Shelf) (chain : Chain) (ids ids' : Multiset (Option String)) :
    (shelf.ask chain ids).ask chain ids' = shelf.ask chain (ids + ids') := by
  cases chain <;> simp [ask, expect, add_assoc]

theorem expect_expect (shelf : Shelf) (h l h' l' : Multiset (Option String)) :
    (shelf.expect h l).expect h' l' = shelf.expect (h + h') (l + l') := by
  simp [expect, add_assoc]

end Shelf

theorem sum_map_modify {α M : Type*} [AddCommMonoid M] {l : List α} {n : ℕ} {a : α}
    (h : l[n]? = some a) (f : α → α) (g : α → M) :
    ((l.modify n f).map g).sum + g a = (l.map g).sum + g (f a) := by
  obtain ⟨u, v, hl, -, -, hm⟩ := split_of_getElem? h
  rw [hm, hl]
  simp only [List.map_append, List.map_cons, List.sum_append, List.sum_cons]
  ac_rfl

def Link.due (ids : ℕ → Option String) (kind : Link → Bool) (l : Link) : Option (Option String) :=
  if kind l then l.comic.map ids else none

section Coming
variable (ids : ℕ → Option String) (kind : Link → Bool)

def coming (links : List (Option Link)) : Multiset (Option String) :=
  (links.filterMap fun l => l.bind (Link.due ids kind) : List (Option String))

theorem coming_answer {links : List (Option Link)} {k : ℕ} {l : Link}
    (hk : links[k]? = some (some l)) :
    coming ids kind links = coming ids kind (links.set k none) + (l.due ids kind).toList := by
  obtain ⟨u, v, hl, -, hset, -⟩ := split_of_getElem? hk
  rw [hset, hl]
  unfold coming
  cases hdue : l.due ids kind with
  | none => simp [List.filterMap_append, hdue]
  | some id =>
    simp only [List.filterMap_append, List.filterMap_cons, hdue, Option.bind_some, Option.bind_none]
    exact Multiset.coe_eq_coe.mpr (List.perm_middle.trans (List.perm_append_singleton _ _).symm)

theorem coming_send (links : List (Option Link)) (new : List Link) :
    coming ids kind (links ++ new.map some) =
      coming ids kind links + (new.filterMap (Link.due ids kind) : List (Option String)) := by
  simp [coming, List.filterMap_append, List.filterMap_map]

/-- Requests for one comic bring its id, as often as they are of the kind. -/
theorem filterMap_due {j : ℕ} {links : List Link} (h : ∀ l ∈ links, l.comic = some j) :
    links.filterMap (Link.due ids kind) = List.replicate (links.countP kind) (ids j) := by
  induction links with
  | nil => rfl
  | cons l links ih =>
    obtain ⟨hl, hlinks⟩ := List.forall_mem_cons.mp h
    have hdue : l.due ids kind = if kind l then some (ids j) else none := by
      rw [Link.due, hl, Option.map_some]
    by_cases hkind : kind l
    · rw [if_pos hkind] at hdue
      rw [List.filterMap_cons_some hdue, ih hlinks, List.countP_cons_of_pos hkind,
        List.replicate_succ]
    · rw [if_neg hkind] at hdue
      rw [List.filterMap_cons_none hdue, ih hlinks, List.countP_cons_of_neg hkind]

variable {ids}

theorem coming_congr {ids' : ℕ → Option String} {links : List (Option Link)}
    (h : ∀ l, some l ∈ links → ∀ comic ∈ l.comic, ids' comic = ids comic) :
    coming ids' kind links = coming ids kind links := by
  refine congrArg _ (List.filterMap_congr fun l hl => ?_)
  cases l with
  | none => rfl
  | some l =>
    simp only [Option.bind_some, Link.due]
    split_ifs
    · exact Option.map_congr (h l hl)
    · rfl

end Coming

namespace Session

def idComic (S : Session) (comic : ℕ) : Option String := S.objects[comic]?.bind DComic.idComic

def coming (S : Session) (kind : Link → Bool) : Multiset (Option String) :=
  AccountSession.coming S.idComic kind S.links

theorem idComic_modify (S : Session) (k : ℕ) {f : DComic → DComic}
    (hf : ∀ comic, (f comic).idComic = comic.idComic) :
    idComic { S with objects := S.objects.modify k f } = S.idComic := by
  funext j
  simp only [idComic, List.getElem?_modify]
  cases S.objects[j]? with
  | none => rfl
  | some comic => by_cases hk : k = j <;> simp [hk, hf]

theorem idComic_fetch (S : Session) (comic : DComic) (links : ℕ → List Link) {j : ℕ}
    (hj : j < S.objects.length) : (S.fetch comic links).idComic j = S.idComic j := by
  simp only [idComic, Session.fetch, List.getElem?_append_left hj]

/-- The new requests of a comic bring its id. -/
theorem coming_fetch {S : Session} {P : DComic → Prop} (h : S.Shaped P) (comic : DComic)
    {links : ℕ → List Link} (hlinks : ∀ j, ∀ l ∈ links j, l.comic = some j) (kind : Link → Bool) :
    (S.fetch comic links).coming kind = S.coming kind +
      Multiset.replicate ((links S.objects.length).countP kind) comic.idComic := by
  have hnew : (S.fetch comic links).idComic S.objects.length = comic.idComic := by
    simp [idComic, Session.fetch]
  have hold : AccountSession.coming (S.fetch comic links).idComic kind S.links = S.coming kind :=
    coming_congr kind fun l hl c hc => S.idComic_fetch comic links (h.links l hl c hc)
  have hdue : (links S.objects.length).filterMap (Link.due (S.fetch comic links).idComic kind) =
      List.replicate ((links S.objects.length).countP kind) comic.idComic := by
    rw [filterMap_due _ kind (hlinks _), hnew]
  refine (coming_send (S.fetch comic links).idComic kind S.links _).trans ?_
  rw [hold, hdue]
  rfl

end Session

namespace State

def coming (s : State) (kind : Link → Bool) : Multiset (Option String) :=
  (s.sessions.map fun S => S.coming kind).sum

/-- The shelf with what is on its way to it. -/
def shelf (s : State) : Shelf where
  listHistory := s.listHistory.map s.idComic
  listLike := s.listLike.map s.idComic
  history := s.coming Link.toHistory
  like := s.coming Link.toLike

/-- Every comic has an id, which is never written again. -/
abbrev Identified (s : State) : Prop := s.Shaped fun comic => comic.idComic ≠ none

section Shelf
variable {s : State} {n : ℕ} {S : Session}

theorem idComic_eq (hS : s.sessions[n]? = some S) (k : ℕ) : s.idComic (n, k) = S.idComic k := by
  simp only [State.idComic, State.comic, hS, Option.bind_some, Session.idComic]

theorem coming_modify (hS : s.sessions[n]? = some S) (kind : Link → Bool) (f : Session → Session)
    {ids : Multiset (Option String)} (h : (f S).coming kind = S.coming kind + ids) :
    (s.modify n f).coming kind = s.coming kind + ids := by
  have hsum := sum_map_modify hS f fun S => S.coming kind
  rw [h, ← add_assoc, add_right_comm] at hsum
  exact add_right_cancel hsum

/-- The comics in the lists keep their ids. -/
theorem idComic_modify (hS : s.sessions[n]? = some S) {f : Session → Session}
    (hf : ∀ j < S.objects.length, (f S).idComic j = S.idComic j) {r : Ref} (hr : s.Posted r) :
    (s.modify n f).idComic r = s.idComic r := by
  obtain ⟨comic, hcomic, -⟩ := hr
  obtain ⟨T, hT, hk⟩ := Option.bind_eq_some_iff.mp hcomic
  by_cases hn : n = r.1
  · subst hn
    obtain rfl : S = T := Option.some.inj (hS.symm.trans hT)
    have hids := hf r.2 (List.getElem?_eq_some_iff.mp hk).1
    rwa [← idComic_eq hS, ← idComic_eq (getElem?_modify_self hS)] at hids
  · simp only [State.idComic, State.comic, getElem?_modify_of_ne hn]

theorem shelf_modify {P : DComic → Prop} (h : s.Shaped P) (hS : s.sessions[n]? = some S)
    {f : Session → Session} (hf : ∀ j < S.objects.length, (f S).idComic j = S.idComic j)
    {history like : Multiset (Option String)}
    (hhistory : (f S).coming Link.toHistory = S.coming Link.toHistory + history)
    (hlike : (f S).coming Link.toLike = S.coming Link.toLike + like) :
    (s.modify n f).shelf = s.shelf.expect history like := by
  have hlistHistory : s.listHistory.map (s.modify n f).idComic = s.listHistory.map s.idComic :=
    List.map_congr_left fun r hr => idComic_modify hS hf (h.listHistory r hr)
  have hlistLike : s.listLike.map (s.modify n f).idComic = s.listLike.map s.idComic :=
    List.map_congr_left fun r hr => idComic_modify hS hf (h.listLike r hr)
  unfold shelf Shelf.expect
  rw [coming_modify hS _ f hhistory, coming_modify hS _ f hlike]
  exact congrArg₂ (fun listHistory listLike => Shelf.mk listHistory listLike _ _)
    hlistHistory hlistLike

def due (s : State) (n : ℕ) (kind : Link → Bool) (l : Link) : Multiset (Option String) :=
  (l.due (fun comic => s.idComic (n, comic)) kind).toList

/-- What a request brings is on its way until the reply arrives. -/
theorem shelf_answer {k : ℕ} {l : Link} (hl : s.link n k = some l) :
    s.shelf = (s.answer n k).shelf.expect (s.due n Link.toHistory l) (s.due n Link.toLike l) := by
  obtain ⟨S, hS, hk⟩ := Option.bind_eq_some_iff.mp (Option.join_eq_some_iff.mp hl)
  have hids : (fun comic => s.idComic (n, comic)) = S.idComic := funext (idComic_eq hS)
  have hcoming (kind : Link → Bool) : s.coming kind = (s.answer n k).coming kind + s.due n kind l := by
    let T : Session := { S with links := S.links.set k none }
    have hsum : (s.answer n k).coming kind + S.coming kind = s.coming kind + T.coming kind :=
      sum_map_modify hS (fun S => { S with links := S.links.set k none }) fun S => S.coming kind
    have hanswered : S.coming kind = T.coming kind + s.due n kind l := by
      rw [State.due, hids]
      exact coming_answer S.idComic kind hk
    apply add_right_cancel (b := T.coming kind)
    rw [← hsum, hanswered]
    ac_rfl
  have hsame : (s.answer n k).idComic = s.idComic := funext (idComic_answer s n k)
  unfold State.shelf Shelf.expect
  rw [hcoming, hcoming, hsame]
  rfl

variable {P : DComic → Prop}

/-- New requests for a comic bring its id. -/
theorem shelf_send (h : s.Shaped P) (hn : n < s.sessions.length) {k : ℕ} {links : List Link}
    (hlinks : ∀ l ∈ links, l.comic = some k) :
    (s.send n links).shelf = s.shelf.expect
      (.replicate (links.countP Link.toHistory) (s.idComic (n, k)))
      (.replicate (links.countP Link.toLike) (s.idComic (n, k))) := by
  have hS : s.sessions[n]? = some s.sessions[n] := List.getElem?_eq_getElem hn
  have hcoming (kind : Link → Bool) :
      Session.coming { s.sessions[n] with links := s.sessions[n].links ++ links.map some } kind =
        s.sessions[n].coming kind + .replicate (links.countP kind) (s.idComic (n, k)) := by
    rw [idComic_eq hS, ← Multiset.coe_replicate, ← filterMap_due _ kind hlinks]
    exact coming_send _ kind _ links
  exact shelf_modify h hS (fun _ _ => rfl) (hcoming _) (hcoming _)

/-- The shelf stays as it is where the ids of the comics and what requests bring do. -/
theorem shelf_modify_same (h : s.Shaped P) (n : ℕ) {f : Session → Session}
    (hids : ∀ S, (f S).idComic = S.idComic) (hcoming : ∀ S kind, (f S).coming kind = S.coming kind) :
    (s.modify n f).shelf = s.shelf := by
  cases hS : s.sessions[n]? with
  | none =>
    have hsame : s.modify n f = s := by
      simp [State.modify, List.modify_eq_self (List.getElem?_eq_none_iff.mp hS)]
    rw [hsame]
  | some S =>
    rw [shelf_modify h hS (fun j _ => congrFun (hids S) j)
      ((hcoming S _).trans (add_zero _).symm) ((hcoming S _).trans (add_zero _).symm),
      Shelf.expect_zero]

/-- Requests for other things than comics bring nothing. -/
theorem shelf_send_other (h : s.Shaped P) (n : ℕ) {links : List Link}
    (hlinks : ∀ l ∈ links, l.comic = none) : (s.send n links).shelf = s.shelf := by
  refine shelf_modify_same h n (fun _ => rfl) fun S kind => ?_
  have hnone : links.filterMap (Link.due S.idComic kind) = [] := by
    refine List.filterMap_eq_nil_iff.mpr fun l hl => ?_
    rw [Link.due, hlinks l hl, Option.map_none, ite_self]
  refine (coming_send S.idComic kind S.links links).trans ?_
  rw [hnone]
  exact add_zero _

theorem shelf_write (h : s.Shaped P) (n k : ℕ) {f : DComic → DComic}
    (hf : ∀ comic, (f comic).idComic = comic.idComic) : (s.write n k f).shelf = s.shelf :=
  shelf_modify_same h n (fun S => S.idComic_modify k hf) fun S kind => by
    rw [Session.coming, S.idComic_modify k hf]
    rfl

theorem shelf_pages (h : s.Shaped P) (n : ℕ) (f : List Page → List Page) :
    (s.modify n fun S => { S with pages := f S.pages }).shelf = s.shelf :=
  shelf_modify_same h n (fun _ => rfl) fun _ _ => rfl

/-- The requests for a new comic bring its id. -/
theorem shelf_fetch (h : s.Shaped P) (hS : s.sessions[n]? = some S) (comic : DComic)
    {links : ℕ → List Link} (hlinks : ∀ j, ∀ l ∈ links j, l.comic = some j) :
    (s.modify n fun S => S.fetch comic links).shelf = s.shelf.expect
      (.replicate ((links S.objects.length).countP Link.toHistory) comic.idComic)
      (.replicate ((links S.objects.length).countP Link.toLike) comic.idComic) :=
  have hshaped := h.sessions S (List.mem_of_getElem? hS)
  shelf_modify h hS (fun _ hj => S.idComic_fetch comic links hj)
    (Session.coming_fetch hshaped comic hlinks _) (Session.coming_fetch hshaped comic hlinks _)

end Shelf

theorem shelf_toHistory (s : State) (r : Ref) :
    { s with listHistory := s.listHistory ++ [r] }.shelf =
      s.shelf.add (s.idComic r) .comicHistory := by
  simp only [shelf, List.map_append, List.map_singleton]
  rfl

theorem shelf_toLike (s : State) (r : Ref) :
    { s with listLike := s.listLike ++ [r] }.shelf = s.shelf.add (s.idComic r) .Like := by
  simp only [shelf, List.map_append, List.map_singleton]
  rfl

/-- Where no request is for a comic, none is on its way. -/
theorem coming_eq_zero {s : State} (h : ∀ n k l, s.link n k = some l → l.comic = none)
    (kind : Link → Bool) : s.coming kind = 0 := by
  refine List.sum_eq_zero fun ids hids => ?_
  obtain ⟨S, hS, rfl⟩ := List.mem_map.mp hids
  obtain ⟨n, hn⟩ := List.mem_iff_getElem?.mp hS
  refine congrArg _ (List.filterMap_eq_nil_iff.mpr fun l hl => ?_)
  cases l with
  | none => rfl
  | some l =>
    obtain ⟨k, hk⟩ := List.mem_iff_getElem?.mp hl
    have hcomic := h n k l (by rw [link, hn, Option.bind_some, hk, Option.join_some])
    rw [Option.bind_some, Link.due, hcomic, Option.map_none, ite_self]

theorem shelf_DownloadList {s : State} {P : DComic → Prop} (h : s.Shaped P) (n : ℕ) :
    (s.DownloadList n).shelf = s.shelf := by
  unfold DownloadList
  split
  · rfl
  · exact shelf_send_other h n (by simp)

theorem Fits.lt {s : State} {n comic : ℕ} (h : s.Fits n comic) : n < s.sessions.length := by
  obtain ⟨S, hS, -⟩ := h
  exact (List.getElem?_eq_some_iff.mp hS).1

theorem kept_identified : Kept (fun _ => True) fun comic => comic.idComic ≠ none where
  fresh _ := Option.some_ne_none _
  counted _ _ hid _ := hid
  named _ _ hid _ := hid
  chapters _ _ hid := hid
  poster _ _ hid := hid

section Callbacks
variable {s : State} (h : s.Identified) {n : ℕ}
include h

theorem shelf_downloadComics (hn : n < s.sessions.length) (chain : Chain)
    (listString : List String) :
    (s.downloadComics n chain listString).shelf = s.shelf.ask chain (listString.map some) := by
  induction listString generalizing s with
  | nil =>
    rw [List.map_nil, Multiset.coe_nil, Shelf.ask_zero]
    rfl
  | cons idComic listString ih =>
    have hS : s.sessions[n]? = some s.sessions[n] := List.getElem?_eq_getElem hn
    have hask := @shelf_fetch _ _ _ _ h hS
      { idComic := some idComic, totalSize := some 1, Dsize := some 0, finish := true }
      (fun comic => [.comicDocument chain comic]) (by simp)
    have hone : s.shelf.ask chain {some idComic} = s.shelf.expect
        (.replicate ([Link.comicDocument chain s.sessions[n].objects.length].countP Link.toHistory)
          (some idComic))
        (.replicate ([Link.comicDocument chain s.sessions[n].objects.length].countP Link.toLike)
          (some idComic)) := by
      cases chain <;> rfl
    rw [downloadComics, ih (h.fetch n (Option.some_ne_none _) (by simp))
      (by rw [modify_length]; exact hn), hask, ← hone, Shelf.ask_ask, List.map_cons,
      ← Multiset.cons_coe, Multiset.singleton_add]

theorem shelf_onUserDocument (hn : n < s.sessions.length) {data : UserDocument}
    {history like : List String} (hhistory : data.comicHistory = some history)
    (hlike : data.comicLike = some like) :
    (s.onUserDocument n (some data)).shelf =
      s.shelf.expect (history.map some) (like.map some) := by
  have hshaped := State.Shaped.downloadComics kept_identified h n .comicHistory history
  have hlength : n < (s.downloadComics n .comicHistory history).sessions.length := by
    rw [(local_downloadComics le_rfl s .comicHistory history).1.length]
    exact hn
  simp only [onUserDocument, Option.bind_some, hhistory, hlike]
  rw [shelf_downloadComics hshaped hlength, shelf_downloadComics h hn]
  simp [Shelf.ask, Shelf.expect_expect]

theorem shelf_onInfoDocument (tmp : ℕ) (document : Option ComicDocument) :
    (s.onInfoDocument n tmp document).shelf = s.shelf := by
  have hwrite := shelf_write h n tmp
    (f := fun tmp => { tmp with name := document.bind ComicDocument.name }) fun _ => rfl
  unfold onInfoDocument
  dsimp only
  split
  · exact hwrite
  · exact hwrite

theorem shelf_onPoster (chain : Chain) (comic : ℕ) (data : Data) :
    (s.onPoster n chain comic data).shelf = s.shelf.add (s.idComic (n, comic)) chain := by
  have hids := idComic_write s n comic (f := fun comic => { comic with poster := some data })
    (fun _ => rfl) (n, comic)
  have hwrite := shelf_write h n comic (f := fun comic => { comic with poster := some data })
    fun _ => rfl
  rw [← hwrite, ← hids]
  cases chain with
  | comicHistory => exact shelf_toHistory _ _
  | comicLike => exact shelf_toLike _ _
  | Like => exact shelf_toLike _ _

theorem shelf_onItem (tmp : ℕ) (data : Data) :
    (s.onItem n tmp data).shelf = s.shelf.addNew (s.idComic (n, tmp)) := by
  have hids := idComic_write s n tmp (f := fun tmp => { tmp with poster := some data })
    (fun _ => rfl) (n, tmp)
  have hwrite := shelf_write h n tmp (f := fun tmp => { tmp with poster := some data })
    fun _ => rfl
  rw [← hwrite, ← hids]
  unfold onItem Shelf.addNew
  dsimp only
  generalize s.write n tmp (fun tmp => { tmp with poster := some data }) = s'
  have hmem : (∃ r ∈ s'.listHistory, s'.idComic r = s'.idComic (n, tmp)) ↔
      s'.idComic (n, tmp) ∈ s'.shelf.listHistory := List.mem_map.symm
  by_cases hin : s'.idComic (n, tmp) ∈ s'.shelf.listHistory
  · rw [if_pos hin, if_pos (hmem.mpr hin)]
  · rw [if_neg hin, if_neg (mt hmem.mp hin)]
    exact shelf_toHistory s' (n, tmp)

variable {comic : ℕ} (hfits : s.Fits n comic)
include hfits

theorem shelf_onComicDocument (chain : Chain) {document : Option ComicDocument}
    (hposter : document.bind ComicDocument.posterPath ≠ none) :
    (s.onComicDocument n chain comic document).shelf =
      s.shelf.ask chain {s.idComic (n, comic)} := by
  obtain ⟨posterPath, hpath⟩ := Option.ne_none_iff_exists'.mp hposter
  unfold onComicDocument
  rw [if_neg fun hmissing => hposter (by rw [hmissing.2]; rfl)]
  simp only [hpath]
  have hwrite := h.write n comic
    (fun comic hcomic => kept_identified.counted comic document hcomic trivial)
    fun _ hposter => hposter
  rw [shelf_send hwrite (hfits.write n comic _).lt (k := comic) (by simp),
    shelf_write h n comic (by exact fun _ => rfl), idComic_write s n comic (by exact fun _ => rfl)]
  cases chain <;> rfl

theorem shelf_onListAll (prefixes items : ℕ) :
    (s.onListAll n comic prefixes items).shelf =
      s.shelf.expect (.replicate items (s.idComic (n, comic))) 0 := by
  have hask {s : State} (h : s.Identified) (hfits : s.Fits n comic) :
      (s.send n (List.replicate items (.item comic))).shelf =
        s.shelf.expect (.replicate items (s.idComic (n, comic))) 0 := by
    rw [shelf_send h hfits.lt (k := comic) fun l hl => by rw [List.eq_of_mem_replicate hl]; rfl]
    simp [List.countP_replicate, Link.toHistory, Link.toLike]
  unfold onListAll
  dsimp only
  split_ifs
  · exact hask h hfits
  · have hwrite := h.write n comic (fun comic hcomic => kept_identified.chapters comic prefixes hcomic)
      fun _ hposter => hposter
    rw [hask hwrite (hfits.write n comic _), shelf_write h n comic (by exact fun _ => rfl),
      idComic_write s n comic (by exact fun _ => rfl)]

end Callbacks

section Page
variable {s : State} (h : s.Identified)

def screen (s : State) : Option String × Option String × List (List Page) :=
  (s.UserID, s.id, s.sessions.map Session.pages)

def openPage (s : State) : Option Page := s.screen.2.2.getLast?.bind List.getLast?

def IsOpen (s : State) (n p : ℕ) : Prop :=
  n + 1 = s.sessions.length ∧ s.screen.2.2[n]?.map List.length = some (p + 1)

instance (s : State) (n p : ℕ) : Decidable (s.IsOpen n p) :=
  inferInstanceAs (Decidable (n + 1 = s.sessions.length ∧
    s.screen.2.2[n]?.map List.length = some (p + 1)))

theorem screen_modify (s : State) (n : ℕ) {f : Session → Session}
    (hf : ∀ S, (f S).pages = S.pages) : (s.modify n f).screen = s.screen := by
  unfold screen modify
  dsimp only
  rw [map_modify_of_eq hf]

/-- Replies leave the screen as it is. -/
theorem fed_screen : Fed fun s t => t.screen = s.screen where
  refl _ := rfl
  trans h h' := h'.trans h
  send s n _ _ := screen_modify s n fun _ => rfl
  trap _ := rfl
  localAccount _ _ := rfl
  modify s n _ hf := screen_modify s n fun S => (hf S).pages
  listHistory _ _ := rfl
  listLike _ _ := rfl

theorem screen_answer (s : State) (n k : ℕ) : (s.answer n k).screen = s.screen :=
  screen_modify s n fun _ => rfl

theorem screen_DownloadList (s : State) (n : ℕ) : (s.DownloadList n).screen = s.screen := by
  unfold DownloadList
  split
  · rfl
  · exact screen_modify s n fun _ => rfl

theorem screen_pages (s : State) (n : ℕ) (f : List Page → List Page) :
    (s.modify n fun S => { S with pages := f S.pages }).screen =
      (s.UserID, s.id, s.screen.2.2.modify n f) := by
  have hmap := map_modify (f := fun S : Session => { S with pages := f S.pages })
    (g := Session.pages) f (fun _ => rfl) s.sessions n
  exact congrArg (fun pages => (s.UserID, s.id, pages)) hmap

theorem liked_eq (s : State) : s.liked = decide (s.id ∈ s.shelf.listLike) := by
  rw [Bool.eq_iff_iff, decide_eq_true_iff]
  simp [liked, shelf]

theorem screen_checkLike (s : State) :
    s.checkLike.screen = (s.UserID, s.id, s.screen.2.2.modify s.current fun pages =>
      pages ++ [⟨s.id, decide (s.id ∈ s.shelf.listLike)⟩]) := by
  rw [← liked_eq]
  exact screen_pages s s.current fun pages => pages ++ [Page.mk s.id s.liked]

theorem shelf_removeLike (s : State) : s.removeLike.shelf =
    { s.shelf with listLike := s.shelf.listLike.erase s.id } := by
  have hlist : (s.listLike.eraseP fun r => s.idComic r = s.id).map s.idComic =
      (s.listLike.map s.idComic).erase s.id := by
    rw [List.erase_eq_eraseP', List.eraseP_map]
    refine congrArg (List.map s.idComic) (eraseP_congr fun r _ => ?_)
    rw [Function.comp_apply, beq_eq_decide]
  exact congrArg (fun listLike => { s.shelf with listLike := listLike }) hlist

theorem getLast?_modify_last {α : Type*} (l : List α) (f : α → α) :
    (l.modify (l.length - 1) f).getLast? = l.getLast?.map f := by
  rw [List.getLast?_eq_getElem?, List.length_modify, List.getElem?_modify_eq,
    List.getLast?_eq_getElem?]
  rfl

theorem openPage_of_isOpen {s : State} {n p : ℕ} (h : s.IsOpen n p) : s.openPage = s.page n p := by
  obtain ⟨hn, hp⟩ := h
  obtain ⟨pages, hpages, hlength⟩ := Option.map_eq_some_iff.mp hp
  have hlast : s.screen.2.2.length - 1 = n := by
    rw [screen, List.length_map]
    omega
  have hpage : s.page n p = (s.screen.2.2[n]?).bind fun pages => pages[p]? := by
    simp only [page, screen, List.getElem?_map, Option.bind_map]
    rfl
  rw [hpage, openPage, List.getLast?_eq_getElem?, hlast, hpages, Option.bind_some, Option.bind_some,
    List.getLast?_eq_getElem?, hlength, Nat.add_sub_cancel]

include h

theorem shelf_upLoad (hpos : 0 < s.sessions.length) (id : String) :
    (s.upLoad id).shelf = s.shelf.expect {some id} 0 := by
  have hcurrent : s.current < s.sessions.length := by
    unfold current
    omega
  exact shelf_fetch h (List.getElem?_eq_getElem hcurrent) _ (by simp)

section Opens
variable (hpos : 0 < s.sessions.length) {id : String} (hid : s.id = some id)
include hpos hid

theorem shelf_onViewDidLoad : s.onViewDidLoad.shelf = s.shelf.expect {some id} 0 := by
  have hload : Identified (s.upLoad id) := h.fetch _ (kept_identified.fresh id) (by simp)
  unfold onViewDidLoad
  rw [hid]
  exact (shelf_pages hload _ fun pages => pages ++ [Page.mk (s.upLoad id).id (s.upLoad id).liked]).trans
    (shelf_upLoad h hpos id)

theorem screen_onViewDidLoad :
    s.onViewDidLoad.screen = (s.UserID, some id, s.screen.2.2.modify s.current fun pages =>
      pages ++ [⟨some id, decide (some id ∈ s.shelf.listLike)⟩]) := by
  have hlists : (s.upLoad id).shelf.listLike = s.shelf.listLike := by
    rw [shelf_upLoad h hpos id]
    rfl
  have hscreen : (s.upLoad id).screen = (s.UserID, some id, s.screen.2.2) := by
    rw [← hid]
    exact screen_modify _ _ fun _ => rfl
  have hchosen : (s.upLoad id).id = some id := hid
  have hcurrent : (s.upLoad id).current = s.current := modify_current _ _ _
  have hpage := screen_checkLike (s.upLoad id)
  rw [hlists, hscreen, hcurrent, hchosen] at hpage
  unfold onViewDidLoad
  rw [hid]
  exact hpage

/-- The button of a new page shows whether the comic is in the list. -/
theorem openPage_onViewDidLoad :
    s.onViewDidLoad.openPage = some ⟨some id, decide (some id ∈ s.shelf.listLike)⟩ := by
  have hcurrent : s.current = s.screen.2.2.length - 1 := by
    rw [screen, List.length_map]
    rfl
  have hne : s.screen.2.2 ≠ [] := by
    rw [← List.length_pos_iff, screen, List.length_map]
    exact hpos
  rw [openPage, screen_onViewDidLoad h hpos hid, hcurrent]
  dsimp only
  rw [getLast?_modify_last, List.getLast?_eq_some_getLast hne]
  simp

end Opens

theorem shelf_addLike (hpos : 0 < s.sessions.length) {id : String} (hid : s.id = some id) :
    s.addLike.shelf = s.shelf.expect 0 {some id} := by
  have hcurrent : s.current < s.sessions.length := by
    unfold current
    omega
  unfold addLike
  rw [hid]
  exact shelf_fetch h (List.getElem?_eq_getElem hcurrent) _ (by simp)

theorem shelf_onLike (hUserID : s.UserID ≠ none) (n p : ℕ) (hpos : 0 < s.sessions.length)
    {id : String} (hid : s.id = some id) (tag : Bool) :
    (s.onLike n p tag).shelf = if tag then
      { s.shelf with listLike := s.shelf.listLike.erase s.id } else s.shelf.expect 0 {some id} := by
  obtain ⟨UserID, huser⟩ := Option.ne_none_iff_exists'.mp hUserID
  have hpage : Identified (s.modify n fun S => { S with pages := S.pages.modify p (·.setTag !tag) }) :=
    h.modify (fun _ _ hS => hS.of_objects rfl fun _ hl => hl) fun _ _ => .of_objects rfl
  have hshelf := shelf_pages h n fun pages => pages.modify p (·.setTag !tag)
  simp only [onLike, huser]
  cases tag with
  | true => rw [if_pos rfl, if_pos rfl, shelf_removeLike, hshelf]; rfl
  | false =>
    rw [if_neg Bool.false_ne_true, if_neg Bool.false_ne_true, ← hshelf]
    exact shelf_addLike hpage (by rw [modify_length]; exact hpos) hid

end Page

theorem screen_onLike {s : State} (hUserID : s.UserID ≠ none) (n p : ℕ) (tag : Bool) :
    (s.onLike n p tag).screen =
      (s.UserID, s.id, s.screen.2.2.modify n fun pages => pages.modify p (·.setTag !tag)) := by
  obtain ⟨UserID, huser⟩ := Option.ne_none_iff_exists'.mp hUserID
  have hscreen := screen_pages s n fun pages => pages.modify p (·.setTag !tag)
  rw [← hscreen]
  simp only [onLike, huser]
  cases tag with
  | true => rfl
  | false => exact fed_screen.addLike _

/-- A tap turns the button of the page opened last over. -/
theorem openPage_onLike {s : State} (hUserID : s.UserID ≠ none) {n p : ℕ} (h : s.IsOpen n p)
    (tag : Bool) : (s.onLike n p tag).openPage = s.openPage.map (·.setTag !tag) := by
  obtain ⟨hn, hp⟩ := h
  obtain ⟨pages, hpages, hlength⟩ := Option.map_eq_some_iff.mp hp
  have hlast : n = s.screen.2.2.length - 1 := by
    rw [screen, List.length_map]
    omega
  have hpages' : s.screen.2.2.getLast? = some pages := by
    rw [List.getLast?_eq_getElem?, ← hlast, hpages]
  have hp : p = pages.length - 1 := by omega
  rw [openPage, openPage, screen_onLike hUserID, hlast]
  dsimp only
  rw [getLast?_modify_last, hpages', Option.map_some, Option.bind_some, Option.bind_some, hp,
    getLast?_modify_last]

end State

def Link.succeeds : Link → Reply → Bool
  | _, .error => false
  | .listAll _, .listing reply => reply.request = .arrived
  | .comicDocument _ _, .comic document => (document.bind ComicDocument.posterPath).isSome
  | .infoDocument _, .comic document =>
    (document.bind ComicDocument.author).isSome && (document.bind ComicDocument.category).isSome
  | _, _ => true

inductive Shelf.Moves (ids : ℕ → Option String) : Link → Reply → Shelf → Shelf → Prop where
  | lists (UserID : String) (data : UserDocument) (history like : List String) (shelf : Shelf)
      (hhistory : data.comicHistory = some history) (hlike : data.comicLike = some like) :
      Moves ids (.userDocument UserID) (.user (some data)) shelf
        (shelf.expect (history.map some) (like.map some))
  | document (chain : Chain) (comic : ℕ) (document : Option ComicDocument) (shelf : Shelf) :
      Moves ids (.comicDocument chain comic) (.comic document) shelf shelf
  | poster (chain : Chain) (comic : ℕ) (data : Data) (shelf : Shelf) :
      Moves ids (.poster chain comic) (.data data) (shelf.ask chain {ids comic})
        (shelf.add (ids comic) chain)
  | info (tmp : ℕ) (document : Option ComicDocument) (shelf : Shelf) :
      Moves ids (.infoDocument tmp) (.comic document) shelf shelf
  | listing (tmp : ℕ) (reply : ListAllReply (ℕ × ℕ)) (shelf : Shelf) :
      Moves ids (.listAll tmp) (.listing reply) (shelf.expect {ids tmp} 0)
        (shelf.expect (.replicate reply.listed.2 (ids tmp)) 0)
  | item (tmp : ℕ) (data : Data) (shelf : Shelf) :
      Moves ids (.item tmp) (.data data) (shelf.expect {ids tmp} 0) (shelf.addNew (ids tmp))

namespace Shelf

def histories (shelf : Shelf) : Multiset (Option String) := shelf.listHistory + shelf.history

def likes (shelf : Shelf) : Multiset (Option String) := shelf.listLike + shelf.like

theorem histories_expect (shelf : Shelf) (history like : Multiset (Option String)) :
    (shelf.expect history like).histories = shelf.histories + history :=
  (add_assoc _ _ _).symm

theorem likes_expect (shelf : Shelf) (history like : Multiset (Option String)) :
    (shelf.expect history like).likes = shelf.likes + like :=
  (add_assoc _ _ _).symm

theorem likes_eq_cons_erase (shelf : Shelf) {id : Option String} (h : id ∈ shelf.listLike) :
    shelf.likes = id ::ₘ likes { shelf with listLike := shelf.listLike.erase id } := by
  have hperm : (shelf.listLike : Multiset (Option String)) = id ::ₘ (shelf.listLike.erase id : List _) :=
    Multiset.coe_eq_coe.mpr (List.perm_cons_erase h)
  rw [likes, hperm, Multiset.cons_add]
  rfl

theorem coe_concat_add {α : Type*} (l : List α) (a : α) (m : Multiset α) :
    ((l ++ [a] : List α) : Multiset α) + m = l + (m + {a}) := by
  rw [← Multiset.coe_add, Multiset.coe_singleton, add_assoc, add_comm {a} m]

theorem histories_add (shelf : Shelf) (id : Option String) (chain : Chain) :
    (shelf.add id chain).histories = (shelf.ask chain {id}).histories := by
  cases chain with
  | comicHistory => exact coe_concat_add _ _ _
  | _ => simp [histories, add, ask, expect]

theorem likes_add (shelf : Shelf) (id : Option String) (chain : Chain) :
    (shelf.add id chain).likes = (shelf.ask chain {id}).likes := by
  cases chain with
  | comicHistory => simp [likes, add, ask, expect]
  | _ => exact coe_concat_add _ _ _

theorem likes_addNew (shelf : Shelf) (id : Option String) : (shelf.addNew id).likes = shelf.likes := by
  unfold addNew
  split_ifs <;> rfl

namespace Moves
variable {ids : ℕ → Option String} {link : Link} {reply : Reply} {shelf shelf' : Shelf}
  (h : Shelf.Moves ids link reply shelf shelf')
include h

/-- Apart from the document of a user, a reply only moves likes on. -/
theorem likes (hlists : link.lists = none) : shelf'.likes = shelf.likes := by
  cases h with
  | lists UserID data history like shelf hhistory hlike => cases hlists
  | document chain comic document => rfl
  | poster chain comic data shelf => exact likes_add _ _ chain
  | info tmp document => rfl
  | listing tmp reply shelf => rw [likes_expect, likes_expect]
  | item tmp data shelf => rw [likes_addNew, likes_expect, add_zero]

/-- Apart from the document of a user, a reply neither brings a comic into the histories nor loses
one, where a comic has one poster. -/
theorem mem_histories (hlists : link.lists = none)
    (hitems : ∀ listing, reply = .listing listing → listing.listed.2 = 1) (id : Option String) :
    id ∈ shelf'.histories ↔ id ∈ shelf.histories := by
  cases h with
  | lists UserID data history like shelf hhistory hlike => cases hlists
  | document chain comic document => exact Iff.rfl
  | poster chain comic data shelf => rw [histories_add]
  | info tmp document => exact Iff.rfl
  | listing tmp listing shelf =>
    rw [hitems listing rfl, Multiset.replicate_one]
  | item tmp data shelf =>
    unfold addNew
    split_ifs with hin
    · rw [histories_expect, Multiset.mem_add, Multiset.mem_singleton]
      constructor
      · exact .inl
      · rintro (hid | rfl)
        · exact hid
        · exact Multiset.mem_add.mpr (.inl hin)
    · rw [histories_add]
      rfl

/-- Only the poster of a comic of the history can bring a comic into the list once more. -/
theorem nodup_listHistory (hnodup : shelf.listHistory.Nodup)
    (hnew : ∀ comic, link = .poster .comicHistory comic → ids comic ∉ shelf.listHistory) :
    shelf'.listHistory.Nodup := by
  have hadd {l : List (Option String)} {id : Option String} (hl : l.Nodup) (hid : id ∉ l) :
      (l ++ [id]).Nodup := by
    rw [← List.concat_eq_append]
    exact hl.concat hid
  cases h with
  | poster chain comic data shelf =>
    cases chain with
    | comicHistory => exact hadd hnodup (hnew comic rfl)
    | _ => exact hnodup
  | item tmp data shelf =>
    unfold addNew
    split_ifs with hin
    · exact hnodup
    · exact hadd hnodup hin
  | _ => exact hnodup

/-- The poster of a comic of the history brings its comic in any case. -/
theorem poster_arrives {comic : ℕ} (hlink : link = .poster .comicHistory comic) :
    (∃ data, reply = .data data) ∧ shelf'.listHistory = shelf.listHistory ++ [ids comic] := by
  subst hlink
  cases h with
  | poster chain comic data shelf => exact ⟨⟨data, rfl⟩, rfl⟩

/-- The document of a user sets the comics of both arrays on their way. -/
theorem lists_arrive {user : String} (hlists : link.lists = some user) :
    ∃ data history like, link = .userDocument user ∧ reply = .user (some data) ∧
      data.comicHistory = some history ∧ data.comicLike = some like ∧
      shelf' = shelf.expect (history.map some) (like.map some) := by
  cases h with
  | lists UserID data history like shelf hhistory hlike =>
    obtain rfl := Option.some.inj hlists
    exact ⟨data, history, like, rfl, rfl, hhistory, hlike, rfl⟩
  | _ => cases hlists

end Moves
end Shelf

theorem State.Callback.moves {s t : State} {n k : ℕ} {link : Link} {reply : Reply}
    (h : s.Identified) (hlink : s.link n k = some link)
    (hc : Callback (s.answer n k) n link reply t) (hsucceeds : link.succeeds reply = true)
    (hshelf : link.comic ≠ none ∨ link.lists ≠ none)
    (harrays : ∀ UserID document, link = .userDocument UserID → reply = .user document →
      ∃ data history like, document = some data ∧ data.comicHistory = some history ∧
        data.comicLike = some like) :
    Shelf.Moves (fun comic => s.idComic (n, comic)) link reply s.shelf t.shelf := by
  have hanswered := State.shelf_answer hlink
  have hid := h.answer n k
  have hlt := State.link_lt hlink
  have hn : n < (s.answer n k).sessions.length := by
    rw [State.answer, State.modify_length]
    exact hlt
  have hfits {comic : ℕ} (hcomic : link.comic = some comic) : (s.answer n k).Fits n comic :=
    (h.fits n hlink hcomic).answer n k
  have hask {chain : Chain} {comic : ℕ}
      (hl : link = .comicDocument chain comic ∨ link = .poster chain comic) :
      s.shelf = (s.answer n k).shelf.ask chain {s.idComic (n, comic)} := by
    rw [hanswered]
    rcases hl with rfl | rfl <;> cases chain <;> rfl
  have hbring {tmp : ℕ} (hl : link = .listAll tmp ∨ link = .item tmp) :
      s.shelf = (s.answer n k).shelf.expect {s.idComic (n, tmp)} 0 := by
    rw [hanswered]
    rcases hl with rfl | rfl <;> rfl
  have hnothing (hl : (∃ tmp, link = .infoDocument tmp) ∨ ∃ UserID, link = .userDocument UserID) :
      s.shelf = (s.answer n k).shelf := by
    rw [hanswered]
    rcases hl with ⟨tmp, rfl⟩ | ⟨UserID, rfl⟩ <;> exact Shelf.expect_zero _
  cases hc with
  | failed link hfailed => cases link <;> cases hsucceeds
  | profileFailed onPage UserID => cases hsucceeds
  | userDocument UserID document =>
    obtain ⟨data, history, like, rfl, hhistory, hlike⟩ := harrays UserID document rfl rfl
    rw [hnothing (.inr ⟨UserID, rfl⟩), State.shelf_onUserDocument hid hn hhistory hlike]
    exact .lists UserID data history like _ hhistory hlike
  | comicDocument chain comic document =>
    have hposter : document.bind ComicDocument.posterPath ≠ none :=
      Option.isSome_iff_ne_none.mp hsucceeds
    rw [State.shelf_onComicDocument hid (hfits rfl) chain hposter, State.idComic_answer,
      ← hask (.inl rfl)]
    exact .document chain comic document s.shelf
  | poster chain comic data =>
    rw [hask (.inr rfl), State.shelf_onPoster hid chain comic data, State.idComic_answer]
    exact .poster chain comic data _
  | infoDocument tmp document =>
    rw [hnothing (.inl ⟨tmp, rfl⟩), State.shelf_onInfoDocument hid tmp document]
    exact .info tmp document _
  | listAll tmp listing =>
    rw [hbring (.inl rfl), State.shelf_onListAll hid (hfits rfl) listing.listed.1 listing.listed.2,
      State.idComic_answer]
    exact .listing tmp listing _
  | item tmp data =>
    rw [hbring (.inr rfl), State.shelf_onItem hid tmp data, State.idComic_answer]
    exact .item tmp data _
  | profile onPage UserID document => simp at hshelf
  | avatar onPage UserID data => simp at hshelf
  | signIn uid => simp at hshelf
  | createUser uid => simp at hshelf
  | putData UserID => simp at hshelf
  | downloadURL UserID url => simp at hshelf

end ComicApp.AccountSession
