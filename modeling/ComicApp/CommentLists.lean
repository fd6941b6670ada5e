import ComicApp.CommentSession

/-!
# The comment lists of the device

`Comment.listCommentComic` is emptied when an info page is opened, overwritten by the reply to the
request for the list of its comic, and extended by every comment that is created from the device;
`Comment.listReviewWorld` is requested once, at the start of the app. A request is answered with the
remote list of one moment and its reply is delivered at a later one, so a reply may carry the list of
a comic that is no longer open, or a list without a comment that has been filed in between. A review
that is tapped in another tab may change `Comic.id` while an info page stays in front.
-/

namespace ComicApp.CommentLists
open EventMachine
open CommentSession (Sent Filed WhileOpen)

inductive Comment where
  | earlier (documentID : String)
  | sent (k : ℕ)
  deriving DecidableEq, Repr

/-- A remote list as `FieldValue.arrayUnion` keeps it, without duplicates. -/
abbrev Earlier := {list : List String // list.Nodup}

inductive Source where
  | world
  | comic (id : String)
  deriving DecidableEq, Repr

/-- What became of a request: the remote side answers it once, with the list of that moment or with
nothing where the field is missing, and the answer is delivered later. -/
inductive Status where
  | asked
  | answered (list : Option (List Comment))
  | delivered
  deriving DecidableEq, Repr

structure ListRequest where
  source : Source
  status : Status
  deriving DecidableEq, Repr

/-- `opened` is the comic of the info page opened last. `comicLists` and `worldList` are the remote lists
at the start of the app; the comments filed since are those of the session. -/
structure State where
  session : CommentSession.State
  opened : Option String
  listCommentComic : List Comment
  listReviewWorld : List Comment
  requests : List ListRequest
  comicLists : String → Option Earlier
  worldList : Option Earlier

inductive Event where
  | session (e : CommentSession.Event)
  | viewDidLoad
  | answer (r : ℕ)
  | list (r : ℕ) (succeeds : Bool)
  deriving DecidableEq, Repr

def launch (comicLists : String → Option Earlier) (worldList : Option Earlier) : State where
  session := CommentSession.launch
  opened := none
  listCommentComic := []
  listReviewWorld := []
  requests := [⟨.world, .asked⟩]
  comicLists := comicLists
  worldList := worldList

namespace State

def trap (s : State) : State := { s with session := { s.session with running := false } }

/-- A remote list with what has been filed in it since; a list that was missing is there from the
first comment on. -/
def extend (list : Option Earlier) (filed : List ℕ) : Option (List Comment) :=
  match list with
  | some list => some (list.1.map .earlier ++ filed.map .sent)
  | none => if filed = [] then none else some (filed.map .sent)

def remote (s : State) : Source → Option (List Comment)
  | .world => extend s.worldList s.session.listComment
  | .comic id =>
    extend (s.comicLists id) ((s.session.comment.filter fun c => c.1 = id).map Prod.snd)

def onViewDidLoad (s : State) : State :=
  match s.session.id with
  | none => s.trap
  | some id => { s with
      opened := some id
      listCommentComic := []
      requests := s.requests ++ [⟨.comic id, .asked⟩] }

/-- The end of the reply to `addDocument`, which is reached if there is a comic to file under. -/
def onAddDocument (s : State) (k : ℕ) (succeeds : Bool) : State :=
  if succeeds ∧ s.session.running then
    { s with
      listCommentComic := s.listCommentComic ++ [.sent k]
      listReviewWorld := s.listReviewWorld ++ [.sent k] }
  else s

/-- The reply with a list, which is unwrapped and overwrites the list of the device. -/
def onList (s : State) (source : Source) (list : Option (List Comment)) : State :=
  match source, list with
  | _, none => s.trap
  | .world, some list => { s with listReviewWorld := list }
  | .comic _, some list => { s with listCommentComic := list }

def setStatus (s : State) (r : ℕ) (source : Source) (status : Status) : State :=
  { s with requests := s.requests.set r ⟨source, status⟩ }

def follow (s : State) (e : CommentSession.Event) (session : CommentSession.State) : State :=
  let s := { s with session := session }
  match e with
  | .addDocument k succeeds => s.onAddDocument k succeeds
  | _ => s

def next (s : State) : Event → Option State
  | .session e => (CommentSession.step s.session e).map (s.follow e)
  | .viewDidLoad => some s.onViewDidLoad
  | .answer r =>
    match s.requests[r]? with
    | some ⟨source, .asked⟩ => some (s.setStatus r source (.answered (s.remote source)))
    | _ => none
  | .list r true =>
    match s.requests[r]? with
    | some ⟨source, .answered list⟩ => some ((s.setStatus r source .delivered).onList source list)
    | _ => none
  | .list r false =>
    match s.requests[r]? with
    | some ⟨_, .delivered⟩ => none
    | some ⟨source, _⟩ => some (s.setStatus r source .delivered)
    | none => none

def Idle (s : State) : Prop :=
  (∀ request ∈ s.requests, request.status = .delivered) ∧
    ∀ sent ∈ s.session.sent, sent.request ≠ .waiting

instance (s : State) : Decidable s.Idle := inferInstanceAs (Decidable (_ ∧ _))

def Listed (s : State) (source : Source) (c : Comment) : Prop := ∃ list ∈ s.remote source, c ∈ list

def Out (s : State) (id : String) (r : ℕ) : Prop :=
  ∃ status, s.requests[r]? = some ⟨.comic id, status⟩ ∧ status ≠ .delivered

def AskedBut (s : State) (r : ℕ) (id : String) : Prop := ∃ r', r' ≠ r ∧ s.Out id r'

def Asked (s : State) (id : String) : Prop := ∃ r, s.Out id r

structure Agrees (s : State) (id : String) (list : List Comment) : Prop where
  nodup : list.Nodup
  mem : ∀ c, c ∈ list ↔ s.Listed (.comic id) c

def Created (s : State) (k : ℕ) : Prop :=
  ∃ sent, s.session.sent[k]? = some sent ∧ sent.request = .arrived

end State

def step (s : State) (e : Event) : Option State := if s.session.running then s.next e else none

open State

inductive Transition (s : State) : Event → State → Prop where
  | session (e : CommentSession.Event) (session : CommentSession.State)
      (hs : CommentSession.step s.session e = some session) :
      Transition s (.session e) (s.follow e session)
  | viewDidLoad : Transition s .viewDidLoad s.onViewDidLoad
  | answer (r : ℕ) (source : Source) (hr : s.requests[r]? = some ⟨source, .asked⟩) :
      Transition s (.answer r) (s.setStatus r source (.answered (s.remote source)))
  | list (r : ℕ) (source : Source) (list : Option (List Comment))
      (hr : s.requests[r]? = some ⟨source, .answered list⟩) :
      Transition s (.list r true) ((s.setStatus r source .delivered).onList source list)
  | failed (r : ℕ) (source : Source) (status : Status) (hr : s.requests[r]? = some ⟨source, status⟩)
      (hout : status ≠ .delivered) : Transition s (.list r false) (s.setStatus r source .delivered)

theorem Transition.of_step {s t : State} {e : Event} (h : step s e = some t) :
    s.session.running = true ∧ Transition s e t := by
  unfold step at h
  split_ifs at h with hrunning
  refine ⟨hrunning, ?_⟩
  cases e with
  | session e =>
    obtain ⟨session, hs, rfl⟩ := Option.map_eq_some_iff.mp h
    exact .session e session hs
  | viewDidLoad =>
    obtain rfl := Option.some.inj h
    exact .viewDidLoad
  | answer r =>
    simp only [next] at h
    split at h
    · rename_i source hr
      obtain rfl := Option.some.inj h
      exact .answer r source hr
    · cases h
  | list r succeeds =>
    cases succeeds with
    | true =>
      simp only [next] at h
      split at h
      · rename_i source list hr
        obtain rfl := Option.some.inj h
        exact .list r source list hr
      · cases h
    | false =>
      simp only [next] at h
      split at h
      · cases h
      · rename_i source status hout hr
        obtain rfl := Option.some.inj h
        exact .failed r source status hr hout
      · cases h

/-- A comment is created while its comic is chosen and its page is the one opened last. A reply with a
list brings the list of the page's comic as it is by then, and one for all comments brings every
comment created so far; the request for the list of the page's comic does not fail before its list is
there. Another request for that list that is still out makes up for either. -/
def Timely (s : State) : Event → Prop
  | .session (.addDocument k true) =>
    WhileOpen s.session (.addDocument k true) ∧ s.opened = s.session.id
  | .session _ | .viewDidLoad | .answer _ => True
  | .list r true => ∀ source list, s.requests[r]? = some ⟨source, .answered (some list)⟩ →
      match source with
      | .world => ∀ k, s.Created k → .sent k ∈ list
      | .comic _ => ∀ id, s.opened = some id →
        s.AskedBut r id ∨ ∀ c, c ∈ list ↔ s.Listed (.comic id) c
  | .list r false => ∀ id status, s.requests[r]? = some ⟨.comic id, status⟩ →
      s.opened = some id → s.AskedBut r id ∨ s.Agrees id s.listCommentComic

/-- The lists of the device are those of the remote side: the open comic's, with every comment that
was sent for it, and one with every comment sent. -/
structure Settled (s : State) : Prop where
  comic : ∀ id, s.session.id = some id → s.Agrees id s.listCommentComic
  own : ∀ id k sent, s.session.id = some id → s.session.sent[k]? = some sent →
    sent.request = .arrived → sent.comicID = id → .sent k ∈ s.listCommentComic
  world : ∀ k, s.Created k → .sent k ∈ s.listReviewWorld

structure Invariant (s : State) : Prop where
  filed : Filed s.session
  nodup : s.session.comment.Nodup
  answers : ∀ (id : String) (list : List Comment),
    ⟨.comic id, .answered (some list)⟩ ∈ s.requests → list.Nodup
  comic : s.session.running = true → ∀ id, s.opened = some id →
    s.Agrees id s.listCommentComic ∨ s.Asked id
  world : ∀ k, s.Created k → .sent k ∈ s.listReviewWorld

namespace State
variable {s : State}

theorem mem_extend {list : Option Earlier} {filed : List ℕ} {c : Comment} :
    (∃ l ∈ extend list filed, c ∈ l) ↔
      (∃ l d, list = some l ∧ d ∈ l.1 ∧ c = .earlier d) ∨ ∃ k ∈ filed, c = .sent k := by
  unfold extend
  cases list with
  | some l => simp [eq_comm]
  | none => by_cases hf : filed = [] <;> simp [hf, eq_comm]

theorem nodup_extend {list : Option Earlier} {filed : List ℕ} (h : filed.Nodup) {l : List Comment}
    (hl : extend list filed = some l) : l.Nodup := by
  have hsent : (filed.map Comment.sent).Nodup := h.map fun _ _ => Comment.sent.inj
  unfold extend at hl
  cases list with
  | some earlier =>
    obtain rfl := Option.some.inj hl
    refine List.Nodup.append (earlier.2.map fun _ _ => Comment.earlier.inj) hsent ?_
    rintro c hc hc'
    obtain ⟨d, -, rfl⟩ := List.mem_map.mp hc
    obtain ⟨k, -, heq⟩ := List.mem_map.mp hc'
    cases heq
  | none =>
    dsimp only at hl
    split_ifs at hl
    obtain rfl := Option.some.inj hl
    exact hsent

theorem listed_iff {id : String} {c : Comment} : s.Listed (.comic id) c ↔
    (∃ l d, s.comicLists id = some l ∧ d ∈ l.1 ∧ c = .earlier d) ∨
      ∃ k, (id, k) ∈ s.session.comment ∧ c = .sent k := by
  refine mem_extend.trans (or_congr_right ?_)
  simp

theorem nodup_remote (h : s.session.comment.Nodup) {id : String} {l : List Comment}
    (hl : s.remote (.comic id) = some l) : l.Nodup := by
  refine nodup_extend ((h.filter _).map_on ?_) hl
  intro c hc c' hc' heq
  simp only [List.mem_filter, decide_eq_true_eq] at hc hc'
  exact Prod.ext (hc.2.trans hc'.2.symm) heq

theorem Agrees.congr {t : State} {id : String} {list : List Comment} (h : s.Agrees id list)
    (ht : t.remote (.comic id) = s.remote (.comic id)) : t.Agrees id list :=
  ⟨h.nodup, fun c => by rw [h.mem, Listed, Listed, ht]⟩

theorem Out.setStatus {id : String} {r r' : ℕ} (h : s.Out id r') (hr : r' ≠ r) (source : Source)
    (status : Status) : (s.setStatus r source status).Out id r' := by
  obtain ⟨status', hr', hout⟩ := h
  exact ⟨status', by rw [State.setStatus, List.getElem?_set_ne (Ne.symm hr), hr'], hout⟩

theorem AskedBut.setStatus {id : String} {r : ℕ} (h : s.AskedBut r id) (source : Source)
    (status : Status) : (s.setStatus r source status).Asked id := by
  obtain ⟨r', hr, hout⟩ := h
  exact ⟨r', hout.setStatus hr source status⟩

/-- The answer of the remote side leaves a request out. -/
theorem Asked.answer {id : String} {r : ℕ} {source : Source} (h : s.Asked id)
    (hr : s.requests[r]? = some ⟨source, .asked⟩) (list : Option (List Comment)) :
    (s.setStatus r source (.answered list)).Asked id := by
  obtain ⟨r', hout⟩ := h
  by_cases hrr : r' = r
  · subst hrr
    obtain ⟨status, hr', -⟩ := hout
    obtain ⟨rfl, -⟩ : source = .comic id ∧ .asked = status := by simpa [hr] using hr'
    have hlt := (List.getElem?_eq_some_iff.mp hr).1
    exact ⟨r', .answered list, List.getElem?_set_self hlt, nofun⟩
  · exact ⟨r', hout.setStatus hrr source _⟩

/-- A comment that is filed under the open comic is the new one of its list. -/
theorem Agrees.filed {t : State} {id : String} {list : List Comment} {k : ℕ} (h : s.Agrees id list)
    (hnew : (id, k) ∉ s.session.comment) (hlists : t.comicLists = s.comicLists)
    (hcomment : t.session.comment = arrayUnion s.session.comment (id, k)) :
    t.Agrees id (list ++ [.sent k]) where
  nodup := by
    refine List.Nodup.append h.nodup (List.nodup_singleton _) ?_
    rintro c hc hc'
    obtain rfl := List.mem_singleton.mp hc'
    obtain ⟨l, d, -, -, heq⟩ | ⟨k', hk', heq⟩ := listed_iff.mp ((h.mem _).mp hc)
    · cases heq
    · obtain rfl := Comment.sent.inj heq
      exact hnew hk'
  mem c := by
    rw [List.mem_append, h.mem, listed_iff, listed_iff, hlists, hcomment, List.mem_singleton,
      or_assoc]
    refine or_congr_right ?_
    constructor
    · rintro (⟨k', hk', rfl⟩ | rfl)
      · exact ⟨k', mem_arrayUnion.mpr (.inl hk'), rfl⟩
      · exact ⟨k, mem_arrayUnion.mpr (.inr rfl), rfl⟩
    · rintro ⟨k', hk', rfl⟩
      rcases mem_arrayUnion.mp hk' with hk' | heq
      · exact .inl ⟨k', hk', rfl⟩
      · exact .inr (congrArg Comment.sent (Prod.mk.inj heq).2)

/-- A reply that is not for the open comic leaves what is known of its list. -/
theorem asked_but {r : ℕ} {source : Source} {status : Status} {id : String}
    (hr : s.requests[r]? = some ⟨source, status⟩) (hne : source ≠ .comic id)
    (hcomic : s.Agrees id s.listCommentComic ∨ s.Asked id) :
    s.Agrees id s.listCommentComic ∨ s.AskedBut r id := by
  refine hcomic.imp_right ?_
  rintro ⟨r', status', hr', hout⟩
  refine ⟨r', ?_, status', hr', hout⟩
  rintro rfl
  obtain ⟨rfl, -⟩ : source = .comic id ∧ status = status' := by simpa [hr] using hr'
  exact hne rfl

end State

theorem invariant_launch (comicLists : String → Option Earlier) (worldList : Option Earlier) :
    Invariant (launch comicLists worldList) where
  filed := CommentSession.filed_launch
  nodup := List.nodup_nil
  answers id list hmem := by cases List.mem_singleton.mp hmem
  comic _ id hid := by cases hid
  world := by
    rintro k ⟨sent, hk, -⟩
    cases hk

namespace Invariant
variable {s : State} (h : Invariant s)
include h

/-- What a session leaves alone keeps the invariant. -/
theorem of_session (session : CommentSession.State) (hfiled : Filed session)
    (hcomment : session.comment = s.session.comment)
    (hrunning : session.running = s.session.running)
    (hcreated : ∀ k, State.Created { s with session := session } k → s.Created k) :
    Invariant { s with session := session } where
  filed := hfiled
  nodup := by rw [hcomment]; exact h.nodup
  answers := h.answers
  comic := by
    intro hrun id hid
    have hremote : ({ s with session := session } : State).remote (.comic id) =
        s.remote (.comic id) := by
      simp only [State.remote, hcomment]
    exact (h.comic (hrunning ▸ hrun) id hid).imp_left fun hagrees =>
      hagrees.congr hremote
  world k hk := h.world k (hcreated k hk)

theorem trap : Invariant s.trap :=
  ⟨⟨h.filed.sound, h.filed.complete⟩, h.nodup, h.answers, nofun, h.world⟩

theorem viewDidLoad : Invariant s.onViewDidLoad := by
  unfold State.onViewDidLoad
  split
  · exact h.trap
  · rename_i id _
    refine ⟨h.filed, h.nodup, fun id' list hmem => ?_, fun _ id' hid' => .inr ?_, h.world⟩
    · rcases List.mem_append.mp hmem with hmem | hmem
      · exact h.answers id' list hmem
      · cases List.mem_singleton.mp hmem
    · obtain rfl : id = id' := Option.some.inj hid'
      exact ⟨s.requests.length, .asked, List.getElem?_concat_length, nofun⟩

/-- A comment is created for the comic of the page. -/
theorem created {k : ℕ} {sent : Sent} (hk : s.session.sent[k]? = some sent)
    (hw : sent.request = .waiting) (hid : s.session.id = some sent.comicID)
    (hopened : s.opened = s.session.id) (hrunning : s.session.running = true)
    (hfiled : Filed (s.session.onAddDocument k sent true)) :
    Invariant ({ s with session := s.session.onAddDocument k sent true }.onAddDocument k true) := by
  have hnew : (sent.comicID, k) ∉ s.session.comment := by
    intro hm
    obtain ⟨sent', hk', harrived, -⟩ := h.filed.sound _ k hm
    rw [hk, Option.some.injEq] at hk'
    rw [← hk', hw] at harrived
    cases harrived
  have hsession : s.session.onAddDocument k sent true = { s.session with
      sent := s.session.sent.set k { sent with request := .arrived }
      comment := arrayUnion s.session.comment (sent.comicID, k)
      listComment := arrayUnion s.session.listComment k } := by
    simp only [CommentSession.State.onAddDocument, if_true, hid]
  rw [hsession] at hfiled ⊢
  rw [State.onAddDocument, if_pos ⟨rfl, hrunning⟩]
  refine ⟨hfiled, nodup_arrayUnion h.nodup, h.answers, fun _ id hid' => ?_, fun k' hk' => ?_⟩
  · have hcomic : s.opened = some sent.comicID := hopened.trans hid
    obtain rfl : sent.comicID = id := Option.some.inj (hcomic.symm.trans hid')
    exact (h.comic hrunning _ hcomic).imp_left fun hagrees => hagrees.filed hnew rfl rfl
  · obtain ⟨sent', hsent', harrived⟩ := hk'
    by_cases hkk : k' = k
    · rw [hkk]
      exact List.mem_append_right _ (List.mem_singleton.mpr rfl)
    · rw [List.getElem?_set_ne (Ne.symm hkk)] at hsent'
      exact List.mem_append_left _ (h.world k' ⟨sent', hsent', harrived⟩)

theorem session {e : CommentSession.Event} {session : CommentSession.State}
    (hrunning : s.session.running = true) (hC : Timely s (.session e))
    (hs : CommentSession.step s.session e = some session) : Invariant (s.follow e session) := by
  have hopen : WhileOpen s.session e := by
    unfold WhileOpen
    split
    · exact hC.1
    · trivial
  have hfiled := h.filed.step hopen hs
  cases CommentSession.Transition.of_step hs with
  | select id => exact h.of_session _ hfiled rfl rfl fun _ hk => hk
  | signIn UserID => exact h.of_session _ hfiled rfl rfl fun _ hk => hk
  | sendComment txtComment =>
    unfold CommentSession.State.onSendComment at hfiled ⊢
    split_ifs at hfiled ⊢ with htext
    · refine h.of_session _ hfiled rfl rfl fun k ⟨sent, hk, harrived⟩ => ⟨sent, ?_, harrived⟩
      rw [List.getElem?_append] at hk
      split_ifs at hk with hlt
      · exact hk
      · obtain ⟨_, rfl⟩ := List.getElem?_eq_some_iff.mp hk
        simp at harrived
    · exact h.of_session _ hfiled rfl rfl fun _ hk => hk
  | addDocument k succeeds sent hk hw =>
    cases succeeds with
    | true => exact h.created hk hw (hC.1 sent hk) hC.2 hrunning hfiled
    | false =>
      refine h.of_session _ hfiled rfl rfl fun k' ⟨sent', hk', harrived⟩ => ?_
      have hset : (s.session.sent.set k { sent with request := .failed })[k']? = some sent' := hk'
      by_cases hkk : k' = k
      · rw [hkk, List.getElem?_set_self (List.getElem?_eq_some_iff.mp hk).1] at hset
        rw [← Option.some.inj hset] at harrived
        cases harrived
      · rw [List.getElem?_set_ne (Ne.symm hkk)] at hset
        exact ⟨sent', hset, harrived⟩

theorem answer {r : ℕ} {source : Source} (hr : s.requests[r]? = some ⟨source, .asked⟩) :
    Invariant (s.setStatus r source (.answered (s.remote source))) := by
  refine ⟨h.filed, h.nodup, fun id list hmem => ?_, fun hrunning id hid => ?_, h.world⟩
  · rcases List.mem_or_eq_of_mem_set hmem with hmem | heq
    · exact h.answers id list hmem
    · obtain ⟨rfl, hlist⟩ : .comic id = source ∧ some list = s.remote source := by simpa using heq
      exact nodup_remote h.nodup hlist.symm
  · exact (h.comic hrunning id hid).imp (fun hagrees => hagrees.congr rfl)
      fun hasked => hasked.answer hr _

/-- A reply is delivered with what the lists of the device are then. -/
theorem delivered {r : ℕ} {source : Source} {status : Status}
    (hr : s.requests[r]? = some ⟨source, status⟩) (comic world : List Comment)
    (hcomic : s.session.running = true → ∀ id, s.opened = some id →
      s.Agrees id comic ∨ s.AskedBut r id)
    (hworld : ∀ k, s.Created k → .sent k ∈ world) :
    Invariant { s.setStatus r source .delivered with
      listCommentComic := comic, listReviewWorld := world } := by
  refine ⟨h.filed, h.nodup, fun id l hmem => ?_, fun hrunning id hid => ?_, hworld⟩
  · rcases List.mem_or_eq_of_mem_set hmem with hmem | heq
    · exact h.answers id l hmem
    · cases heq
  · refine (hcomic hrunning id hid).imp (fun hagrees => hagrees.congr rfl) fun hasked => ?_
    obtain ⟨r', hout⟩ := hasked.setStatus source .delivered
    exact ⟨r', hout⟩

theorem list {r : ℕ} {source : Source} {list : Option (List Comment)}
    (hr : s.requests[r]? = some ⟨source, .answered list⟩) (hC : Timely s (.list r true)) :
    Invariant ((s.setStatus r source .delivered).onList source list) := by
  cases list with
  | none =>
    exact h.trap.delivered hr s.listCommentComic s.listReviewWorld nofun h.world
  | some list =>
    have htimely := hC source list hr
    cases source with
    | world =>
      exact h.delivered hr s.listCommentComic list
        (fun hrunning id hid => asked_but hr nofun (h.comic hrunning id hid)) htimely
    | comic id' =>
      refine h.delivered hr list s.listReviewWorld (fun _ id hid => ?_) h.world
      rcases htimely id hid with hbut | hmem
      · exact .inr hbut
      · exact .inl ⟨h.answers id' list (List.mem_of_getElem? hr), hmem⟩

theorem failed {r : ℕ} {source : Source} {status : Status}
    (hr : s.requests[r]? = some ⟨source, status⟩) (hC : Timely s (.list r false)) :
    Invariant (s.setStatus r source .delivered) := by
  refine h.delivered hr s.listCommentComic s.listReviewWorld (fun hrunning id hid => ?_) h.world
  by_cases hsource : source = .comic id
  · subst hsource
    exact (hC id status hr hid).symm
  · exact asked_but hr hsource (h.comic hrunning id hid)

theorem step {t : State} {e : Event} (hC : Timely s e) (hs : CommentLists.step s e = some t) :
    Invariant t := by
  obtain ⟨hrunning, htransition⟩ := Transition.of_step hs
  cases htransition with
  | session e session hsession => exact h.session hrunning hC hsession
  | viewDidLoad => exact h.viewDidLoad
  | answer r source hr => exact h.answer hr
  | list r source list hr => exact h.list hr hC
  | failed r source status hr hout => exact h.failed hr hC

/-- With no request in flight no list is on its way. -/
theorem settled (hidle : s.Idle) (hrunning : s.session.running = true)
    (hopened : s.opened = s.session.id) : Settled s := by
  have hcomic : ∀ id, s.session.id = some id → s.Agrees id s.listCommentComic := by
    intro id hid
    refine (h.comic hrunning id (hopened.trans hid)).resolve_right ?_
    rintro ⟨r, status, hr, hout⟩
    exact hout (hidle.1 _ (List.mem_of_getElem? hr))
  refine ⟨hcomic, fun id k sent hid hk harrived hown => ?_, h.world⟩
  rw [(hcomic id hid).mem, listed_iff]
  exact .inr ⟨k, hown ▸ h.filed.complete k sent hk harrived, rfl⟩

end Invariant

/-- After a run of timely replies, once no request is in flight and the page opened last is that of the
comic that is chosen, the lists of the device are those of the remote side. -/
theorem lists_settled (comicLists : String → Option Earlier) (worldList : Option Earlier)
    (es : List Event) (s : State) (hC : Along step Timely (launch comicLists worldList) es)
    (hrun : run step (launch comicLists worldList) es = some s) (hidle : s.Idle)
    (hrunning : s.session.running = true) (hopened : s.opened = s.session.id) : Settled s :=
  (run_invariant step (invariant_launch comicLists worldList)
    (fun _ _ _ h hC hs => h.step hC hs) hC hrun).settled hidle hrunning hopened

def noComments : String → Option Earlier := fun _ => some ⟨[], List.nodup_nil⟩

def launchEmpty : State := launch noComments (some ⟨[], List.nodup_nil⟩)

def commented : List Event :=
  [.answer 0, .list 0 true, .session (.select (some "a")), .viewDidLoad, .answer 1, .list 1 true,
    .session (.sendComment "good"), .session (.addDocument 0 true)]

/-- A comment is filed after the remote side has answered the request for the list, and before the
answer is delivered. -/
def listBeforeComment : List Event :=
  [.answer 0, .list 0 true, .session (.select (some "a")), .viewDidLoad, .answer 1,
    .session (.sendComment "good"), .session (.addDocument 0 true), .list 1 true]

def afterCommented : State := (run step launchEmpty commented).get (by decide +kernel)

def afterListBeforeComment : State :=
  (run step launchEmpty listBeforeComment).get (by decide +kernel)

theorem timely_commented : Along step Timely launchEmpty commented := by
  refine ⟨trivial, fun s₁ h₁ => ?_⟩
  obtain rfl := Option.some.inj h₁
  refine ⟨?_, fun s₂ h₂ => ?_⟩
  · intro source list hr
    cases hr
    rintro k ⟨sent, hk, -⟩
    cases hk
  obtain rfl := Option.some.inj h₂
  refine ⟨trivial, fun s₃ h₃ => ?_⟩
  obtain rfl := Option.some.inj h₃
  refine ⟨trivial, fun s₄ h₄ => ?_⟩
  obtain rfl := Option.some.inj h₄
  refine ⟨trivial, fun s₅ h₅ => ?_⟩
  obtain rfl := Option.some.inj h₅
  refine ⟨?_, fun s₆ h₆ => ?_⟩
  · intro source list hr
    cases hr
    intro id hid
    cases hid
    refine .inr fun c => iff_of_false List.not_mem_nil ?_
    rintro ⟨list, hlist, hc⟩
    cases hlist
    cases hc
  obtain rfl := Option.some.inj h₆
  refine ⟨trivial, fun s₇ h₇ => ?_⟩
  obtain rfl := Option.some.inj h₇
  refine ⟨⟨fun sent hk => ?_, rfl⟩, fun s₈ h₈ => trivial⟩
  cases hk
  rfl

theorem lists_settled_commented : Settled afterCommented :=
  lists_settled noComments (some ⟨[], List.nodup_nil⟩) commented afterCommented timely_commented
    (Option.some_get _).symm (by decide +kernel) (by decide +kernel) (by decide +kernel)

theorem not_lists_settled :
    ¬ ∀ (comicLists : String → Option Earlier) (worldList : Option Earlier) (es : List Event)
      (s : State), run step (launch comicLists worldList) es = some s → s.Idle →
        s.session.running = true → Settled s := by
  intro h
  have hsettled := h noComments (some ⟨[], List.nodup_nil⟩) listBeforeComment
    afterListBeforeComment (Option.some_get _).symm (by decide +kernel) (by decide +kernel)
  have hsent : afterListBeforeComment.session.sent[0]? =
      some ⟨"", "a", "good", .arrived⟩ := by decide +kernel
  have hmem := hsettled.own "a" 0 _ (by decide +kernel) hsent rfl rfl
  have hempty : afterListBeforeComment.listCommentComic = [] := by decide +kernel
  rw [hempty] at hmem
  cases hmem

end ComicApp.CommentLists
