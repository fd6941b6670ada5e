import ComicApp.UserLists

/-!
# The likes of the app and of the server

A tap on the like button writes to the array of the server at once, and takes a comic out of
`Shelf.listLike` at once, but puts one in only with the last of two replies. As long as every tap
finds the list with what the server holds for its comic, the comics in the list, on their way to it
and still to be brought by `Shelf.DownloadList` are together those of the array.
-/

namespace ComicApp.CloudSession
open EventMachine AccountSession

def isLike : Event → Bool
  | .app (.action (.Like _ _)) => true
  | _ => false

def State.Taken (s : State) : Prop :=
  ∀ n < s.app.sessions.length, ∀ S ∈ s.app.sessions[n]?, ∀ k < S.links.length,
    s.app.asked n k ≠ none → s.answers.lookup (n, k) ≠ none

instance (s : State) : Decidable s.Taken :=
  inferInstanceAs (Decidable (∀ n < s.app.sessions.length, ∀ S ∈ s.app.sessions[n]?,
    ∀ k < S.links.length, s.app.asked n k ≠ none → s.answers.lookup (n, k) ≠ none))

/-- A comic that the user likes is opened only once it is in the list. The button is tapped only on the
page opened last and while its comic is the one that is chosen, to remove a comic that is in the list
or after the client has taken the document for `Shelf.DownloadList`. -/
def InOrder (UserID : String) (s : State) : Event → Prop
  | .app (.action .viewDidLoad) =>
    s.app.id ∈ (s.comicLike UserID).map some → s.app.id ∈ s.app.shelf.listLike
  | .app (.action (.Like n p)) => s.app.IsOpen n p ∧ ∀ page ∈ s.app.openPage,
    page.comic = s.app.id ∧ if page.tag then s.app.id ∈ s.app.shelf.listLike else s.Taken
  | _ => True

instance decidableInOrder (UserID : String) (s : State) : ∀ e, Decidable (InOrder UserID s e)
  | .app (.action .viewDidLoad) => inferInstanceAs (Decidable
      (s.app.id ∈ (s.comicLike UserID).map some → s.app.id ∈ s.app.shelf.listLike))
  | .app (.action (.Like n p)) => inferInstanceAs (Decidable (s.app.IsOpen n p ∧
      ∀ page ∈ s.app.openPage, page.comic = s.app.id ∧
        if page.tag then s.app.id ∈ s.app.shelf.listLike else s.Taken))
  | .app (.action (.select _)) | .app (.action .login) | .app (.action .loginTapped)
  | .app (.action .CancelLogin) | .app (.action .signUpTapped) | .app (.action .accountDidLoad)
  | .app (.action .accountWillAppear) | .app (.action (.Save _)) | .app (.action (.pathUpdate _))
  | .app (.action .relaunch) | .app (.reply _ _ _) | .read _ _ | .setData _ _ => .isTrue trivial

/-- `Shelf.listLike` holds the comics of the array, each once, and the button of the page opened last
shows whether its comic is one of them. -/
structure LikesAgree (UserID : String) (s : State) : Prop where
  nodup : s.app.shelf.listLike.Nodup
  mem : ∀ id, id ∈ s.app.shelf.listLike ↔ id ∈ (s.comicLike UserID).map some
  tag : ∀ page, s.app.openPage = some page →
    (page.tag = true ↔ page.comic ∈ (s.comicLike UserID).map some)

def State.pending (s : State) (UserID : String) (r : Ref) : List String :=
  if s.app.asked r.1 r.2 = none then [] else ids Profile.comicLike (s.snapshot UserID r)

section Documents
variable {s t : State} {UserID : String}

theorem State.Taken.lookup (h : s.Taken) {n k : ℕ} (hasked : s.app.asked n k ≠ none) :
    s.answers.lookup (n, k) ≠ none := by
  obtain ⟨user, huser⟩ := Option.ne_none_iff_exists'.mp hasked
  obtain ⟨link, hlink, -⟩ := Option.bind_eq_some_iff.mp huser
  obtain ⟨S, hS, hk⟩ := State.issued_of_link hlink
  exact h n (State.link_lt hlink) S hS k hk hasked

theorem comicLike_addToHistory (document : Option Profile) (id : String) :
    ids Profile.comicLike (document.map (.addToHistory id)) = ids Profile.comicLike document := by
  cases document <;> rfl

theorem comicLike_toggleLike (p : Profile) (tag : Bool) (id : String) :
    ids Profile.comicLike (some (p.toggleLike tag id)) =
      if tag then (ids Profile.comicLike (some p)).filter (· ≠ id)
      else arrayUnion (ids Profile.comicLike (some p)) id := by
  rw [← ids_getD Profile.comicLike p]
  cases tag <;> rfl

end Documents

structure Mirrors (UserID : String) (r : Ref) (s : State) : Prop extends Serves UserID s where
  only : ∀ n k user, s.app.asked n k = some user → (n, k) = r
  balance : s.app.shelf.likes + ((s.pending UserID r).map some : List (Option String)) =
    ((s.comicLike UserID).map some : List (Option String))
  tag : ∀ page, s.app.openPage = some page →
    ∃ id, page.comic = some id ∧ (page.tag = true ↔ id ∈ s.comicLike UserID)

theorem Fresh.mirrors {UserID : String} {r : Ref} {s : State} (h : Fresh UserID r s) :
    Mirrors UserID r s where
  toServes := h.toServes
  only n k user hasked := ((h.asked_iff n k user).mp hasked).1
  balance := by
    have hasked : s.app.asked r.1 r.2 ≠ none := by
      rw [(h.asked_iff r.1 r.2 UserID).mpr ⟨rfl, rfl⟩]
      nofun
    rw [State.pending, if_neg hasked, State.snapshot, h.unread, h.shelf]
    exact zero_add _
  tag page hpage := by
    rw [h.openPage] at hpage
    cases hpage

structure Taps (UserID id : String) (tag : Bool) (s t : State) : Prop where
  serves : Serves UserID t
  shelf : t.app.shelf = if tag then
    { s.app.shelf with listLike := s.app.shelf.listLike.erase (some id) }
    else s.app.shelf.expect 0 {some id}
  openPage : t.app.openPage = some ⟨some id, !tag⟩
  asked : t.app.asked = s.app.asked
  users : t.users UserID = (s.users UserID).map (.toggleLike tag id)
  answers : t.answers = s.answers

theorem Serves.taps {s t : State} {UserID id : String} (h : Serves UserID s) {n p : ℕ} {tag : Bool}
    (hstep : step s (.app (.action (.Like n p))) = some t) (hopen : s.app.IsOpen n p)
    (hpage : s.app.openPage = some ⟨some id, tag⟩) (hid : s.app.id = some id) :
    Taps UserID id tag s t := by
  obtain ⟨hadmits, app, happ, rfl⟩ := step_app hstep
  have hUserID : s.app.UserID ≠ none := by
    rw [h.signedIn]
    exact Option.some_ne_none UserID
  obtain ⟨tag', htag', rfl⟩ := Option.map_eq_some_iff.mp (step_action happ).2
  have hshown : s.app.tag n p = some tag := by
    rw [State.tag, ← State.openPage_of_isOpen hopen, hpage]
    rfl
  obtain rfl : tag = tag' := Option.some.inj (hshown.symm.trans htag')
  have hscreen := State.screen_onLike hUserID n p tag
  refine ⟨h.app hadmits happ (by simp) (congrArg Prod.fst hscreen) (by simp [State.started]), ?_, ?_, ?_,
    ?_, rfl⟩
  · have hshelf := State.shelf_onLike h.identified hUserID n p h.sessions hid tag
    rw [hid] at hshelf
    exact hshelf
  · exact (State.openPage_onLike hUserID hopen tag).trans (by rw [hpage]; rfl)
  · exact State.settled_asked.toShelved.onLike s.app n p tag
  · have hwritten : written s.app (.action (.Like n p)) = some (UserID, [.Like tag id]) := by
      rw [written, htag', h.signedIn, hid]
      rfl
    exact onApp_users hwritten

section Pending
variable {s t : State} {UserID : String} (r : Ref)

/-- A write to the array does not reach a request for which the client has taken the document. -/
theorem pending_eq (hasked : t.app.asked = s.app.asked) (hanswers : t.answers = s.answers)
    (hread : s.app.asked r.1 r.2 = none ∨ s.answers.lookup r ≠ none) :
    t.pending UserID r = s.pending UserID r := by
  unfold State.pending
  rw [hasked]
  rcases hread with hread | hread
  · rw [if_pos hread, if_pos hread]
  · obtain ⟨a, ha⟩ := Option.ne_none_iff_exists'.mp hread
    simp only [State.snapshot, hanswers, ha, Option.getD_some]

theorem pending_congr (hasked : t.app.asked r.1 r.2 = s.app.asked r.1 r.2)
    (hanswers : t.answers = s.answers) (husers : t.comicLike UserID = s.comicLike UserID) :
    t.pending UserID r = s.pending UserID r := by
  unfold State.pending
  rw [hasked, ids_snapshot hanswers husers]

end Pending

namespace Mirrors
variable {s t : State} {UserID : String} {r : Ref} (h : Mirrors UserID r s)
include h

theorem mem_comicLike {id : Option String} (hid : id ∈ s.app.shelf.listLike) :
    id ∈ (s.comicLike UserID).map some := by
  have hmem : id ∈ s.app.shelf.likes + ((s.pending UserID r).map some : List (Option String)) :=
    Multiset.mem_add.mpr (.inl (Multiset.mem_add.mpr (.inl hid)))
  rw [h.balance] at hmem
  exact hmem

/-- Where a comic is in the list, the client has taken the document for the request, if it is still
out. -/
theorem read_of_mem {id : Option String} (hid : id ∈ s.app.shelf.listLike) :
    s.app.asked r.1 r.2 = none ∨ s.answers.lookup r ≠ none := by
  by_contra! hunread
  have hpending : s.pending UserID r = s.comicLike UserID := by
    rw [State.pending, if_neg hunread.1, State.snapshot, hunread.2]
    rfl
  have hbalance := h.balance
  rw [hpending, add_eq_right] at hbalance
  have hmem : id ∈ s.app.shelf.likes := Multiset.mem_add.mpr (.inl hid)
  rw [hbalance] at hmem
  exact Multiset.notMem_zero id hmem

theorem selects (hs : Selects UserID s t) : Mirrors UserID r t := by
  have hlike : t.comicLike UserID = s.comicLike UserID := by
    rw [State.comicLike, hs.users]
    rfl
  refine ⟨hs.serves, ?_, ?_, ?_⟩
  · rw [hs.asked]
    exact h.only
  · rw [pending_congr r (congrFun₂ hs.asked _ _) hs.answers hlike, hlike, hs.shelf]
    exact h.balance
  · rw [hs.openPage, hlike]
    exact h.tag

theorem opens {id : String} (ho : Opens UserID id s t)
    (hloaded : some id ∈ (s.comicLike UserID).map some → some id ∈ s.app.shelf.listLike) :
    Mirrors UserID r t := by
  have hlike : t.comicLike UserID = s.comicLike UserID := by
    rw [State.comicLike, ho.users, comicLike_addToHistory]
    rfl
  refine ⟨ho.serves, ?_, ?_, fun page hpage => ?_⟩
  · rw [ho.asked]
    exact h.only
  · rw [pending_congr r (congrFun₂ ho.asked _ _) ho.answers hlike, hlike, ho.shelf, Shelf.likes_expect,
      add_zero]
    exact h.balance
  · rw [ho.openPage] at hpage
    obtain rfl := Option.some.inj hpage
    refine ⟨id, rfl, ?_⟩
    rw [hlike, decide_eq_true_iff]
    have hsome : some id ∈ (s.comicLike UserID).map some ↔ id ∈ s.comicLike UserID := by simp
    rw [← hsome]
    exact ⟨h.mem_comicLike, hloaded⟩

theorem removes {id : String} (htaps : Taps UserID id true s t)
    (hmem : some id ∈ s.app.shelf.listLike) : Mirrors UserID r t := by
  obtain ⟨p, hp, -⟩ := h.full
  have hlike : t.comicLike UserID = (s.comicLike UserID).erase id := by
    rw [State.comicLike, htaps.users, hp, Option.map_some, comicLike_toggleLike, if_pos rfl,
      State.comicLike, hp, (nodup_ids _ _).erase_eq_filter]
    refine List.filter_congr fun comic _ => ?_
    by_cases hcomic : comic = id <;> simp [hcomic]
  refine ⟨htaps.serves, ?_, ?_, fun page hpage => ?_⟩
  · rw [htaps.asked]
    exact h.only
  · have hin : id ∈ s.comicLike UserID := by simpa using h.mem_comicLike hmem
    have hremoved : ((s.comicLike UserID).map some : Multiset (Option String)) =
        some id ::ₘ (((s.comicLike UserID).erase id).map some : List (Option String)) :=
      Multiset.coe_eq_coe.mpr ((List.perm_cons_erase hin).map some)
    have hlikes : s.app.shelf.likes = some id ::ₘ t.app.shelf.likes := by
      rw [htaps.shelf, if_pos rfl]
      exact Shelf.likes_eq_cons_erase _ hmem
    refine (Multiset.cons_inj_right (some id)).mp ?_
    rw [pending_eq r htaps.asked htaps.answers (h.read_of_mem hmem), hlike, ← hremoved, ← h.balance,
      ← Multiset.cons_add, hlikes]
  · have hgone : id ∉ (s.comicLike UserID).erase id := (nodup_ids _ _).not_mem_erase
    rw [htaps.openPage] at hpage
    obtain rfl := Option.some.inj hpage
    refine ⟨id, rfl, ?_⟩
    rw [hlike]
    simp [hgone]

theorem adds {id : String} (htaps : Taps UserID id false s t) (hnew : id ∉ s.comicLike UserID)
    (hanswered : s.Taken) : Mirrors UserID r t := by
  obtain ⟨p, hp, -⟩ := h.full
  have hlike : t.comicLike UserID = s.comicLike UserID ++ [id] := by
    rw [State.comicLike, htaps.users, hp, Option.map_some, comicLike_toggleLike,
      if_neg Bool.false_ne_true, ← hp]
    exact if_neg hnew
  have hread : s.app.asked r.1 r.2 = none ∨ s.answers.lookup r ≠ none := by
    by_cases hasked : s.app.asked r.1 r.2 = none
    · exact .inl hasked
    · exact .inr (hanswered.lookup hasked)
  refine ⟨htaps.serves, ?_, ?_, fun page hpage => ?_⟩
  · rw [htaps.asked]
    exact h.only
  · rw [pending_eq r htaps.asked htaps.answers hread, hlike, htaps.shelf,
      if_neg Bool.false_ne_true, Shelf.likes_expect, add_right_comm, h.balance, List.map_append]
    rfl
  · rw [htaps.openPage] at hpage
    obtain rfl := Option.some.inj hpage
    refine ⟨id, rfl, ?_⟩
    rw [hlike]
    simp

theorem receives {n k : ℕ} {link : Link} {reply : Reply}
    (hr : Receives UserID n k link reply s t) (hlink : s.app.link n k = some link) :
    Mirrors UserID r t := by
  have hlike : t.comicLike UserID = s.comicLike UserID := by
    rw [State.comicLike, hr.users]
    rfl
  refine ⟨hr.serves, ?_, ?_, ?_⟩
  · intro m j user huser
    rw [hr.asked] at huser
    exact h.only m j user (State.asked_of_answer huser)
  · rw [hlike, ← h.balance]
    cases hlists : link.lists with
    | none =>
      have hasked : t.app.asked r.1 r.2 = s.app.asked r.1 r.2 := by
        rw [hr.asked]
        by_cases hrk : r = (n, k)
        · subst hrk
          rw [State.asked_answer_self, State.asked, hlink, Option.bind_some, hlists]
        · exact State.asked_answer_of_ne s.app hrk
      rw [hr.shelf.likes hlists, pending_congr r hasked hr.answers hlike]
    | some user =>
      have hrk : (n, k) = r := by
        refine h.only n k user ?_
        rw [State.asked, hlink, Option.bind_some, hlists]
      subst hrk
      have hasked : s.app.asked n k ≠ none := by
        rw [State.asked, hlink, Option.bind_some, hlists]
        exact Option.some_ne_none user
      have hpending : t.pending UserID (n, k) = [] := by
        refine if_pos ?_
        rw [hr.asked, State.asked_answer_self]
      obtain ⟨data, history, like, hl, hreply, hhistory, hlist, hshelf⟩ := hr.shelf.lists_arrive hlists
      have hperm := (hr.arrays user data history like hl hreply hhistory hlist).2
      rw [hpending, hshelf, Shelf.likes_expect, State.pending, if_neg hasked,
        Multiset.coe_eq_coe.mpr (hperm.map some)]
      exact add_zero _
  · intro page hpage
    have hopen : t.app.openPage = s.app.openPage :=
      congrArg (fun screen => screen.2.2.getLast?.bind List.getLast?) hr.screen
    rw [hlike]
    exact h.tag page (hopen ▸ hpage)

theorem read {n k : ℕ} (hlookup : s.answers.lookup (n, k) = none)
    (hasked : s.app.asked n k = some UserID) : Mirrors UserID r (s.onRead n k UserID) where
  toServes := h.toServes.read hlookup hasked
  only := h.only
  balance := by
    have hpending : (s.onRead n k UserID).pending UserID r = s.pending UserID r := by
      unfold State.pending
      rw [snapshot_onRead hlookup]
      rfl
    rw [hpending]
    exact h.balance
  tag := h.tag

theorem likes {n p : ℕ} (hready : InOrder UserID s (.app (.action (.Like n p))))
    (hstep : CloudSession.step s (.app (.action (.Like n p))) = some t) : Mirrors UserID r t := by
  obtain ⟨hopen, hready⟩ := hready
  obtain ⟨-, app, happ, -⟩ := step_app hstep
  obtain ⟨tag, htag, -⟩ := Option.map_eq_some_iff.mp (step_action happ).2
  obtain ⟨page, hpage, rfl⟩ := Option.map_eq_some_iff.mp htag
  have hpage := (State.openPage_of_isOpen hopen).trans hpage
  obtain ⟨hchosen, hready⟩ := hready page hpage
  obtain ⟨id, hcomic, hshown⟩ := h.tag page hpage
  obtain ⟨comic, tag⟩ := page
  obtain rfl : comic = some id := hcomic
  have htaps := h.toServes.taps hstep hopen hpage hchosen.symm
  rw [← hchosen] at hready
  cases tag with
  | true => exact h.removes htaps hready
  | false => exact h.adds htaps (mt hshown.mpr Bool.false_ne_true) hready

theorem step {e : Event} (hscope : Browses s e ∨ isLike e = true) (hsucceeds : Succeeds s e)
    (horder : InOrder UserID s e) (hstep : step s e = some t) : Mirrors UserID r t := by
  rcases hscope with hbrowses | hlike
  · cases h.toServes.browses hbrowses hsucceeds hstep with
    | selects id t hselects => exact h.selects hselects
    | opens id t hid hopens =>
      refine h.opens hopens ?_
      rw [← hid]
      exact horder
    | receives n k link reply t hlink hreceives => exact h.receives hreceives hlink
    | read n k hlookup hasked => exact h.read hlookup hasked
  · unfold isLike at hlike
    split at hlike
    · exact h.likes horder hstep
    · cases hlike

theorem likesAgree (hidle : s.app.Idle) : LikesAgree UserID s := by
  have hlink (n k : ℕ) (l : Link) : s.app.link n k ≠ some l :=
    fun hl => State.not_idle_of_link hl hidle
  have hlikes : s.app.shelf.likes = s.app.shelf.listLike :=
    (congrArg (_ + ·) (State.coming_eq_zero (fun n k l hl => absurd hl (hlink n k l)) _)).trans
      (add_zero _)
  have hpending : s.pending UserID r = [] := by
    refine if_pos ?_
    rw [State.asked, Option.eq_none_iff_forall_ne_some.mpr (hlink r.1 r.2), Option.bind_none]
  have hperm : s.app.shelf.listLike.Perm ((s.comicLike UserID).map some) := by
    rw [← Multiset.coe_eq_coe, ← h.balance, hlikes, hpending]
    exact (add_zero _).symm
  refine ⟨?_, fun id => hperm.mem_iff, fun page hpage => ?_⟩
  · exact hperm.nodup_iff.mpr ((nodup_ids _ _).map (Option.some_injective _))
  · obtain ⟨id, hid, hshown⟩ := h.tag page hpage
    rw [hshown, hid]
    simp

end Mirrors

/-- In every run of one user that is in order, the likes of the app agree with those of the server
once no request is in flight. -/
theorem likes_agree {UserID : String} {s t : State} {es : List Event} (hbegun : Begun UserID s)
    (hscope : Along step (fun s e => Browses s e ∨ isLike e = true) s es)
    (hsucceeds : Along step Succeeds s es) (horder : Along step (InOrder UserID) s es)
    (hrun : run step s es = some t) (hidle : t.app.Idle) : LikesAgree UserID t := by
  obtain ⟨r, hfresh⟩ := hbegun.fresh
  have hC := hscope.and step (hsucceeds.and step horder)
  have hmirrors : Mirrors UserID r t := run_invariant step hfresh.mirrors
    (fun _ _ _ h hC => h.step hC.1 hC.2.1 hC.2.2) hC hrun
  exact hmirrors.likesAgree hidle

def tapLike (taps : ℕ) : List Event :=
  [.read 1 1, .app (.reply 1 1 (.user (some newDocument))), .app (.action (.select (some "c"))),
    .app (.action .viewDidLoad), .app (.reply 1 2 (.comic (some comicDocument))),
    .app (.reply 1 3 (.listing (.success (1, 1)))),
    .app (.reply 1 4 (.data []))] ++
  List.replicate taps (.app (.action (.Like 1 0))) ++
  [.app (.reply 1 5 (.comic (some comicDocument))), .app (.reply 1 6 (.data []))]

theorem likes_agree_tapLike : ∃ t, run step signedIn (tapLike 1) = some t ∧ t.app.Idle ∧
    LikesAgree "a" t :=
  have hrun := (Option.some_get (x := run step signedIn (tapLike 1)) (by decide +kernel)).symm
  ⟨_, hrun, by decide +kernel, likes_agree begun_signedIn (by decide +kernel) (by decide +kernel)
    (by decide +kernel) hrun (by decide +kernel)⟩

/-- A like that is taken back before its replies have arrived still comes to the list. -/
theorem not_likes_agree : ¬ ∀ (UserID : String) (s t : State) (es : List Event), Begun UserID s →
    Along step (fun s e => Browses s e ∨ isLike e = true) s es → Along step Succeeds s es →
    run step s es = some t → t.app.Idle → LikesAgree UserID t := by
  intro h
  have hrun := (Option.some_get (x := run step signedIn (tapLike 2)) (by decide +kernel)).symm
  have hagree := h "a" signedIn _ (tapLike 2) begun_signedIn (by decide +kernel) (by decide +kernel)
    hrun (by decide +kernel)
  have hin : some "c" ∈ (State.comicLike _ "a").map some :=
    (hagree.mem (some "c")).mp (by decide +kernel)
  revert hin
  decide +kernel

end ComicApp.CloudSession
