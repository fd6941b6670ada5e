import ComicApp.AccountStable

/-!
# The comics behind the shelf lists

The chains of requests create comics, keep writing to them and put them in the shelf lists. A property
of comics that a new comic has and that the replies keep holds of every comic there is, whatever the
order of the replies; a request that is out refers to a comic of its session, and a comic in one of
the lists has its poster.
-/

namespace ComicApp.AccountSession
open EventMachine

/-- A property of comics that the chains of requests keep, as long as they get documents that
`accept` allows. -/
structure Kept (accept : Option ComicDocument → Prop) (P : DComic → Prop) : Prop where
  fresh : ∀ id, P { idComic := some id, finish := true }
  counted : ∀ comic document, P comic → accept document →
    P { comic with
      name := document.bind ComicDocument.name
      totalChap := document.bind ComicDocument.totalChap }
  named : ∀ comic document, P comic → accept document →
    P { comic with name := document.bind ComicDocument.name }
  chapters : ∀ (comic : DComic) (n : ℕ), P comic → P { comic with totalChap := some n }
  poster : ∀ comic data, P comic → P { comic with poster := some data }

namespace Session

structure Shaped (P : DComic → Prop) (S : Session) : Prop where
  objects : ∀ comic ∈ S.objects, P comic
  links : ∀ l, some l ∈ S.links → ∀ comic ∈ l.comic, comic < S.objects.length

def Shows (S T : Session) : Prop :=
  ∀ (k : ℕ) (comic : DComic), S.objects[k]? = some comic → comic.poster ≠ none →
    ∃ comic', T.objects[k]? = some comic' ∧ comic'.poster ≠ none

theorem Shows.of_objects {S T : Session} (h : T.objects = S.objects) : S.Shows T :=
  fun _ comic hk hposter => ⟨comic, h ▸ hk, hposter⟩

theorem shaped_empty (P : DComic → Prop) : Shaped P {} := ⟨nofun, nofun⟩

namespace Shaped
variable {P : DComic → Prop} {S : Session} (h : S.Shaped P)
include h

theorem of_objects {T : Session} (hobjects : T.objects = S.objects)
    (hlinks : ∀ l, some l ∈ T.links → some l ∈ S.links) : T.Shaped P where
  objects := by
    rw [hobjects]
    exact h.objects
  links l hl := by
    rw [hobjects]
    exact h.links l (hlinks l hl)

theorem send {links : List Link}
    (hlinks : ∀ l ∈ links, ∀ comic ∈ l.comic, comic < S.objects.length) :
    Shaped P { S with links := S.links ++ links.map some } where
  objects := h.objects
  links l hl := by
    rcases List.mem_append.mp hl with hl | hl
    · exact h.links l hl
    · obtain ⟨l', hl', heq⟩ := List.mem_map.mp hl
      exact Option.some.inj heq ▸ hlinks l' hl'

theorem write (k : ℕ) {f : DComic → DComic} (hf : ∀ comic, P comic → P (f comic)) :
    Shaped P { S with objects := S.objects.modify k f } where
  objects comic hcomic := by
    obtain ⟨j, hj⟩ := List.mem_iff_getElem?.mp hcomic
    rw [List.getElem?_modify] at hj
    obtain ⟨comic₀, hcomic₀, rfl⟩ := Option.map_eq_some_iff.mp hj
    have hP := h.objects comic₀ (List.mem_of_getElem? hcomic₀)
    split_ifs
    · exact hf comic₀ hP
    · exact hP
  links l hl comic hcomic := by
    rw [List.length_modify]
    exact h.links l hl comic hcomic

theorem fetch {comic : DComic} (hcomic : P comic) {links : ℕ → List Link}
    (hlinks : ∀ j, ∀ l ∈ links j, ∀ c ∈ l.comic, c = j) : (S.fetch comic links).Shaped P where
  objects c hc := by
    rcases List.mem_append.mp hc with hc | hc
    · exact h.objects c hc
    · exact List.mem_singleton.mp hc ▸ hcomic
  links l hl c hc := by
    have hlength : (S.fetch comic links).objects.length = S.objects.length + 1 := by
      simp [Session.fetch]
    rcases List.mem_append.mp hl with hl | hl
    · have hlt := h.links l hl c hc
      omega
    · obtain ⟨l', hl', heq⟩ := List.mem_map.mp hl
      have hnew := hlinks _ l' hl' c (Option.some.inj heq ▸ hc)
      omega

end Shaped

theorem shows_write (S : Session) (k : ℕ) {f : DComic → DComic}
    (hf : ∀ comic, comic.poster ≠ none → (f comic).poster ≠ none) :
    S.Shows { S with objects := S.objects.modify k f } := by
  intro j comic hj hposter
  refine ⟨_, by rw [List.getElem?_modify, hj]; rfl, ?_⟩
  split_ifs
  · exact hf comic hposter
  · exact hposter

theorem shows_fetch (S : Session) (comic : DComic) (links : ℕ → List Link) :
    S.Shows (S.fetch comic links) := by
  intro j comic' hj hposter
  have hlt := (List.getElem?_eq_some_iff.mp hj).1
  exact ⟨comic', (List.getElem?_append_left hlt).trans hj, hposter⟩

end Session

namespace State

def Posted (s : State) (r : Ref) : Prop := ∃ comic, s.comic r = some comic ∧ comic.poster ≠ none

/-- Request chains of session `n` may refer to this comic. -/
def Fits (s : State) (n comic : ℕ) : Prop :=
  ∃ S, s.sessions[n]? = some S ∧ comic < S.objects.length

structure Shaped (P : DComic → Prop) (s : State) : Prop where
  sessions : ∀ S ∈ s.sessions, S.Shaped P
  listHistory : ∀ r ∈ s.listHistory, s.Posted r
  listLike : ∀ r ∈ s.listLike, s.Posted r

section Modify
variable {s : State} {n : ℕ} {f : Session → Session}

theorem getElem?_modify_self {S : Session} (hS : s.sessions[n]? = some S) :
    (s.modify n f).sessions[n]? = some (f S) := by
  simp [modify, hS]

theorem getElem?_modify_of_ne {m : ℕ} (h : n ≠ m) :
    (s.modify n f).sessions[m]? = s.sessions[m]? := by
  simp [modify, h]

theorem Posted.modify {r : Ref} (h : s.Posted r)
    (hf : ∀ S, s.sessions[n]? = some S → S.Shows (f S)) : (s.modify n f).Posted r := by
  obtain ⟨comic, hcomic, hposter⟩ := h
  obtain ⟨S, hS, hr⟩ := Option.bind_eq_some_iff.mp hcomic
  by_cases hn : n = r.1
  · subst hn
    obtain ⟨comic', hcomic', hposter'⟩ := hf S hS r.2 comic hr hposter
    refine ⟨comic', ?_, hposter'⟩
    rw [State.comic, getElem?_modify_self hS, Option.bind_some, hcomic']
  · refine ⟨comic, ?_, hposter⟩
    rw [State.comic, getElem?_modify_of_ne hn, hS, Option.bind_some, hr]

theorem Fits.modify {m comic : ℕ} (h : s.Fits m comic)
    (hf : ∀ S, S.objects.length ≤ (f S).objects.length) : (s.modify n f).Fits m comic := by
  obtain ⟨S, hS, hlt⟩ := h
  by_cases hn : n = m
  · subst hn
    exact ⟨f S, getElem?_modify_self hS, lt_of_lt_of_le hlt (hf S)⟩
  · exact ⟨S, (getElem?_modify_of_ne hn).trans hS, hlt⟩

theorem Shaped.modify {P : DComic → Prop} (h : Shaped P s)
    (hf : ∀ S, s.sessions[n]? = some S → S.Shaped P → (f S).Shaped P)
    (hshows : ∀ S, s.sessions[n]? = some S → S.Shows (f S)) : Shaped P (s.modify n f) where
  sessions T hT := by
    obtain ⟨m, hm⟩ := List.mem_iff_getElem?.mp hT
    by_cases hn : n = m
    · subst hn
      cases hS : s.sessions[n]? with
      | none => simp [State.modify, hS] at hm
      | some S =>
        rw [getElem?_modify_self hS] at hm
        exact Option.some.inj hm ▸ hf S hS (h.sessions S (List.mem_of_getElem? hS))
    · rw [getElem?_modify_of_ne hn] at hm
      exact h.sessions T (List.mem_of_getElem? hm)
  listHistory r hr := (h.listHistory r hr).modify hshows
  listLike r hr := (h.listLike r hr).modify hshows

end Modify

section Keep
variable {P : DComic → Prop}

theorem apart_shaped : Apart fun s t => Shaped P s → Shaped P t where
  refl _ h := h
  trans h h' hs := h' (h hs)
  send s n links hlinks h :=
    h.modify (fun S _ hS => hS.send fun l hl comic hcomic => by
      rw [(hlinks l hl).1] at hcomic
      cases hcomic) fun _ _ => .of_objects rfl
  trap _ h := ⟨h.sessions, h.listHistory, h.listLike⟩
  localAccount _ _ h := ⟨h.sessions, h.listHistory, h.listLike⟩
  UserID _ _ h := ⟨h.sessions, h.listHistory, h.listLike⟩
  luser _ _ h := ⟨h.sessions, h.listHistory, h.listLike⟩

variable {s : State} (h : Shaped P s) (n : ℕ)
include h

theorem Shaped.answer (k : ℕ) : Shaped P (s.answer n k) := by
  refine h.modify (fun S _ hS => hS.of_objects rfl fun l hl => ?_) fun _ _ => .of_objects rfl
  exact (List.mem_or_eq_of_mem_set hl).resolve_right nofun

theorem Shaped.send {links : List Link} (hlinks : ∀ l ∈ links, ∀ comic ∈ l.comic, s.Fits n comic) :
    Shaped P (s.send n links) := by
  refine h.modify (fun S hS hshaped => hshaped.send fun l hl comic hcomic => ?_)
    fun _ _ => .of_objects rfl
  obtain ⟨S', hS', hlt⟩ := hlinks l hl comic hcomic
  rw [hS] at hS'
  exact Option.some.inj hS' ▸ hlt

theorem Shaped.write (k : ℕ) {f : DComic → DComic} (hf : ∀ comic, P comic → P (f comic))
    (hposter : ∀ comic, comic.poster ≠ none → (f comic).poster ≠ none) :
    Shaped P (s.write n k f) :=
  h.modify (fun _ _ hS => hS.write k hf) fun S _ => S.shows_write k hposter

theorem Shaped.fetch {comic : DComic} (hcomic : P comic) {links : ℕ → List Link}
    (hlinks : ∀ j, ∀ l ∈ links j, ∀ c ∈ l.comic, c = j) :
    Shaped P (s.modify n fun S => S.fetch comic links) :=
  h.modify (fun _ _ hS => hS.fetch hcomic hlinks) fun S _ => S.shows_fetch comic links

theorem Shaped.toHistory {r : Ref} (hr : s.Posted r) :
    Shaped P { s with listHistory := s.listHistory ++ [r] } where
  sessions := h.sessions
  listHistory r' hr' := by
    rcases List.mem_append.mp hr' with hr' | hr'
    · exact h.listHistory r' hr'
    · exact List.mem_singleton.mp hr' ▸ hr
  listLike := h.listLike

theorem Shaped.toLike {r : Ref} (hr : s.Posted r) :
    Shaped P { s with listLike := s.listLike ++ [r] } where
  sessions := h.sessions
  listHistory := h.listHistory
  listLike r' hr' := by
    rcases List.mem_append.mp hr' with hr' | hr'
    · exact h.listLike r' hr'
    · exact List.mem_singleton.mp hr' ▸ hr

/-- A request that is out is for a comic of its session. -/
theorem Shaped.fits {k : ℕ} {l : Link} (hl : s.link n k = some l) {comic : ℕ}
    (hcomic : l.comic = some comic) : s.Fits n comic := by
  obtain ⟨S, hS, hk⟩ := Option.bind_eq_some_iff.mp (Option.join_eq_some_iff.mp hl)
  exact ⟨S, hS, (h.sessions S (List.mem_of_getElem? hS)).links l (List.mem_of_getElem? hk) comic
    hcomic⟩

end Keep

theorem posted_write {s : State} {n comic : ℕ} (h : s.Fits n comic) (data : Data) :
    (s.write n comic fun comic => { comic with poster := some data }).Posted (n, comic) := by
  obtain ⟨S, hS, hlt⟩ := h
  refine ⟨{ S.objects[comic] with poster := some data }, ?_, Option.some_ne_none data⟩
  rw [State.comic, State.write, getElem?_modify_self hS]
  simp [hlt]

theorem Fits.answer {s : State} {n comic : ℕ} (h : s.Fits n comic) (m k : ℕ) :
    (s.answer m k).Fits n comic :=
  h.modify fun _ => le_rfl

theorem Fits.write {s : State} {n comic : ℕ} (h : s.Fits n comic) (m k : ℕ)
    (f : DComic → DComic) : (s.write m k f).Fits n comic :=
  h.modify fun _ => by simp

section Callbacks
variable {accept : Option ComicDocument → Prop} {P : DComic → Prop} (hP : Kept accept P)
  {s : State} (h : Shaped P s) (n : ℕ)
include hP h

theorem Shaped.downloadComics (chain : Chain) (listString : List String) :
    Shaped P (s.downloadComics n chain listString) := by
  induction listString generalizing s with
  | nil => exact h
  | cons idComic listString ih => exact ih (h.fetch n (hP.fresh idComic) (by simp))

theorem Shaped.onUserDocument (document : Option UserDocument) :
    Shaped P (s.onUserDocument n document) := by
  unfold State.onUserDocument
  split
  · exact apart_shaped.trap s h
  · have hhistory (listString : List String) := h.downloadComics hP n .comicHistory listString
    dsimp only
    split
    · exact apart_shaped.trap _ (hhistory _)
    · exact (hhistory _).downloadComics hP n .comicLike _

theorem Shaped.onComicDocument {comic : ℕ} (hfits : s.Fits n comic) (chain : Chain)
    {document : Option ComicDocument} (haccept : accept document) :
    Shaped P (s.onComicDocument n chain comic document) := by
  unfold State.onComicDocument
  split_ifs
  · exact h
  · have hwrite := h.write n comic (fun comic hcomic => hP.counted comic document hcomic haccept)
      fun _ hposter => hposter
    dsimp only
    split
    · exact apart_shaped.trap _ hwrite
    · refine hwrite.send n fun l hl c hc => ?_
      obtain rfl := List.mem_singleton.mp hl
      obtain rfl := Option.some.inj hc
      exact hfits.write n comic _

theorem Shaped.onPoster {comic : ℕ} (hfits : s.Fits n comic) (chain : Chain) (data : Data) :
    Shaped P (s.onPoster n chain comic data) := by
  have hwrite := h.write n comic (fun comic => hP.poster comic data) fun _ _ =>
    Option.some_ne_none data
  cases chain with
  | comicHistory => exact hwrite.toHistory (posted_write hfits data)
  | comicLike => exact hwrite.toLike (posted_write hfits data)
  | Like => exact hwrite.toLike (posted_write hfits data)

theorem Shaped.onInfoDocument (tmp : ℕ) {document : Option ComicDocument}
    (haccept : accept document) : Shaped P (s.onInfoDocument n tmp document) := by
  have hwrite := h.write n tmp (fun comic hcomic => hP.named comic document hcomic haccept)
    fun _ hposter => hposter
  unfold State.onInfoDocument
  dsimp only
  split
  · exact hwrite
  · exact apart_shaped.trap _ hwrite

theorem Shaped.onListAll {tmp : ℕ} (hfits : s.Fits n tmp) (prefixes items : ℕ) :
    Shaped P (s.onListAll n tmp prefixes items) := by
  have hask {s : State} (h : Shaped P s) (hfits : s.Fits n tmp) :
      Shaped P (s.send n (List.replicate items (.item tmp))) := by
    refine h.send n fun l hl c hc => ?_
    obtain rfl := List.eq_of_mem_replicate hl
    exact Option.some.inj hc ▸ hfits
  unfold State.onListAll
  dsimp only
  split_ifs
  · exact hask h hfits
  · exact hask (h.write n tmp (fun comic => hP.chapters comic prefixes) fun _ hposter => hposter)
      (hfits.write n tmp _)

theorem Shaped.onItem {tmp : ℕ} (hfits : s.Fits n tmp) (data : Data) :
    Shaped P (s.onItem n tmp data) := by
  have hwrite := h.write n tmp (fun comic => hP.poster comic data) fun _ _ =>
    Option.some_ne_none data
  unfold State.onItem
  dsimp only
  split_ifs
  · exact hwrite
  · exact hwrite.toHistory (posted_write hfits data)

theorem Shaped.addLike : Shaped P s.addLike := by
  unfold State.addLike
  split
  · exact apart_shaped.trap s h
  · exact h.fetch _ (hP.fresh _) (by simp)

theorem Shaped.onLike (p : ℕ) (tag : Bool) : Shaped P (s.onLike n p tag) := by
  unfold State.onLike
  split
  · exact h
  · have hpage : Shaped P (s.modify n fun S => { S with pages := S.pages.modify p (·.setTag !tag) }) :=
      h.modify (fun _ _ hS => hS.of_objects rfl fun _ hl => hl) fun _ _ => .of_objects rfl
    cases tag with
    | true => exact ⟨hpage.sessions, hpage.listHistory,
        fun r hr => hpage.listLike r (List.mem_of_mem_eraseP hr)⟩
    | false => exact hpage.addLike hP

theorem Shaped.onViewDidLoad : Shaped P s.onViewDidLoad := by
  unfold State.onViewDidLoad
  split
  · exact apart_shaped.trap _ h
  · rename_i id _
    have hload : Shaped P (s.upLoad id) := h.fetch _ (hP.fresh id) (by simp)
    exact hload.modify (fun _ _ hS => hS.of_objects rfl fun _ hl => hl) fun _ _ => .of_objects rfl

end Callbacks

theorem shaped_ask {P : DComic → Prop} {s : State} (h : Shaped P s) (n : ℕ) :
    Shaped P (s.DownloadList n) := by
  unfold DownloadList
  split
  · exact h
  · exact h.send n (by simp)

theorem shaped_start (P : DComic → Prop) (luser : List LUser) {sessions : List Session}
    (hempty : ∀ S ∈ sessions, S = {}) : Shaped P (start luser sessions) := by
  refine shaped_ask ⟨fun S hS => ?_, ?_, ?_⟩ _
  · exact hempty S hS ▸ Session.shaped_empty P
  · simp [boot]
  · simp [boot]

theorem Shaped.setElement {P : DComic → Prop} {s : State} (h : Shaped P s) :
    Shaped P s.setElement where
  sessions S hS := by
    rcases List.mem_append.mp hS with hS | hS
    · exact h.sessions S hS
    · exact List.mem_singleton.mp hS ▸ Session.shaped_empty P
  listHistory := by simp [State.setElement]
  listLike := by simp [State.setElement]

theorem Shaped.act {accept : Option ComicDocument → Prop} {P : DComic → Prop} (hP : Kept accept P)
    {s t : State} (h : Shaped P s) {a : Action} (ha : s.act a = some t) : Shaped P t := by
  cases a with
  | Like n p =>
    obtain ⟨tag, -, rfl⟩ := Option.map_eq_some_iff.mp ha
    exact h.onLike hP n p tag
  | login =>
    obtain rfl := Option.some.inj ha
    exact h.setElement
  | loginTapped =>
    obtain rfl := Option.some.inj ha
    exact apart_shaped.send s _ _ (by simp) h
  | CancelLogin =>
    obtain rfl := Option.some.inj ha
    exact apart_shaped.setDownAvatar _ true (shaped_ask h _)
  | signUpTapped =>
    obtain rfl := Option.some.inj ha
    exact apart_shaped.send s _ _ (by simp) h
  | accountDidLoad =>
    obtain rfl := Option.some.inj ha
    exact apart_shaped.setAccount s _ h
  | accountWillAppear =>
    obtain rfl := Option.some.inj ha
    exact apart_shaped.accountWillAppear s h
  | Save hasImage =>
    obtain rfl := Option.some.inj ha
    exact apart_shaped.onSave s hasImage h
  | select id =>
    obtain rfl := Option.some.inj ha
    exact ⟨h.sessions, h.listHistory, h.listLike⟩
  | viewDidLoad =>
    obtain rfl := Option.some.inj ha
    exact h.onViewDidLoad hP
  | pathUpdate satisfied =>
    obtain rfl := Option.some.inj ha
    exact apart_shaped.pathUpdateHandler s satisfied h
  | relaunch =>
    obtain rfl := Option.some.inj ha
    exact shaped_start P s.luser (by simp)

/-- A callback for a comic of its session keeps the shape, if the document is acceptable. -/
theorem Callback.shaped {accept : Option ComicDocument → Prop} {P : DComic → Prop}
    (hP : Kept accept P) {s t : State} {n : ℕ} {link : Link} {reply : Reply}
    (hc : Callback s n link reply t) (h : Shaped P s)
    (hfits : ∀ comic ∈ link.comic, s.Fits n comic)
    (haccept : ∀ document, reply = .comic document → accept document) : Shaped P t := by
  cases hc with
  | failed link hfailed => exact h
  | profileFailed onPage UserID => exact apart_shaped.setDownAvatar s false h
  | userDocument UserID document => exact h.onUserDocument hP n document
  | comicDocument chain comic document =>
    exact h.onComicDocument hP n (hfits comic rfl) chain (haccept document rfl)
  | poster chain comic data => exact h.onPoster hP n (hfits comic rfl) chain data
  | infoDocument tmp document => exact h.onInfoDocument hP n tmp (haccept document rfl)
  | listAll tmp reply => exact h.onListAll hP n (hfits tmp rfl) _ _
  | item tmp data => exact h.onItem hP n (hfits tmp rfl) data
  | profile onPage UserID document => exact apart_shaped.onProfile s n onPage document h
  | avatar onPage UserID data => exact apart_shaped.onAvatar s n onPage data h
  | signIn uid =>
    exact apart_shaped.setDownAvatar _ true (shaped_ask (apart_shaped.UserID s (some uid) h) n)
  | createUser uid =>
    exact apart_shaped.setDownAvatar _ true (apart_shaped.UserID s (some uid) h)
  | putData UserID => exact apart_shaped.onPutData s n UserID h
  | downloadURL UserID url =>
    refine apart_shaped.onDownloadURL s n UserID url (fun u h => ?_) h
    exact h.modify (fun _ _ hS => hS.of_objects rfl fun _ hl => hl) fun _ _ => .of_objects rfl

end State

def Event.Accepts (accept : Option ComicDocument → Prop) : Event → Prop
  | .reply _ _ (.comic document) => accept document
  | _ => True

instance Event.decidableAccepts {accept : Option ComicDocument → Prop} [DecidablePred accept] :
    ∀ e, Decidable (Event.Accepts accept e)
  | .reply _ _ (.comic document) => inferInstanceAs (Decidable (accept document))
  | .reply _ _ .error | .reply _ _ (.user _) | .reply _ _ (.listing _) | .reply _ _ (.data _)
  | .reply _ _ (.uid _) | .reply _ _ .metadata | .reply _ _ (.url _) | .action _ => .isTrue trivial

theorem State.Shaped.step {accept : Option ComicDocument → Prop} {P : DComic → Prop}
    (hP : Kept accept P) {s t : State} {e : Event} (h : s.Shaped P) (he : e.Accepts accept)
    (hs : AccountSession.step s e = some t) : t.Shaped P := by
  cases e with
  | action a => exact h.act hP (step_action hs).2
  | reply n k reply =>
    obtain ⟨-, link, hlink, hcallback⟩ := step_reply hs
    refine hcallback.shaped hP (h.answer n k) (fun comic hcomic => ?_) fun document hreply => ?_
    · exact (h.fits n hlink hcomic).answer n k
    · subst hreply
      exact he

end ComicApp.AccountSession
