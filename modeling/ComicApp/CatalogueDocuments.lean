import ComicApp.CatalogueSession

/-!
# Which documents the app tolerates

A document of the catalogue is complete if it exists, has an author, a category and a path of its
poster, an array of comments, a number of chapters that is not negative and, if there are any, a
folder. Complete documents never stop a callback that opens or downloads a comic, whatever else they
hold and in whatever order the replies arrive; and every other document does in some run.
-/

namespace ComicApp
open EventMachine

structure Fields.Complete (data : Fields) : Prop where
  author : data.string "author" ≠ none
  category : data.string "category" ≠ none
  posterPath : data.string "posterPath" ≠ none
  comment : data.comment ≠ none
  totalChap : ∃ n ∈ data.int "totalChap", 0 ≤ n ∧ (n = 0 ∨ data.string "filePath" ≠ none)

structure Call.Prepared (call : Call) : Prop where
  valid : call.Valid
  fetchable : call.poster = .waiting → call.Fetchable

namespace DownloadSession

def Event.Fetchable : Event → Prop
  | .document _ (.found data) => data.posterPath ≠ none ∧
      ∃ n ∈ data.totalChap, 0 ≤ n ∧ (n = 0 ∨ data.filePath ≠ none)
  | _ => True

theorem CallStep.prepared {e : Event} {call call' : Call} (h : CallStep e call call')
    (he : e.Fetchable) (hp : call.Prepared) : call'.Prepared := by
  refine ⟨h.valid hp.valid, ?_⟩
  cases h with
  | document c reply hw ho =>
    cases Call.onDocument_outcome ho with
    | error => exact hp.fetchable
    | missing => exact hp.fetchable
    | found data hposter => exact fun _ => he.2
  | posterFailed c hw =>
    intro hwaiting
    cases hwaiting
  | poster c data hw hf =>
    obtain ⟨hcall, -⟩ := Call.forChapters_spec hf (hp.valid.chapters_nil (by simp [hw]))
    rw [hcall]
    intro hwaiting
    cases hwaiting
  | _ => exact hp.fetchable

def Prepared (s : State) : Prop :=
  s.running = true → ∀ (c : ℕ) (call : Call), s.calls[c]? = some call → call.Prepared

theorem prepared_of_nil {s : State} (h : s.calls = []) : Prepared s := by
  intro _ c call hc
  simp [h] at hc

theorem Prepared.step {s t : State} {e : Event} (hp : Prepared s) (he : e.Fetchable)
    (hs : DownloadSession.step s e = some t) : Prepared t :=
  fun hr _ _ hc => calls_step
    (fun _ id _ _ => ⟨Call.valid_DownloadCommic id, nofun⟩)
    (fun _ _ _ _ _ h hp => h.prepared he hp) hp hs hr hc

theorem Prepared.not_traps {s t : State} {e : Event} (hp : Prepared s) (he : e.Fetchable)
    (hs : DownloadSession.step s e = some t) : ¬ Traps s e := by
  cases Transition.of_step hs with
  | documentTrap c reply call hr hc hw ht =>
    cases reply with
    | found data => exact he.1
    | _ => exact id
  | document c reply call call' hr hc hw ho =>
    cases reply with
    | found data => exact he.1
    | _ => exact id
  | poster c data call hr hc hw =>
    rintro ⟨call', hc', hnot⟩
    obtain rfl : call = call' := Option.some.inj (hc.symm.trans hc')
    exact hnot ((hp hr c call hc).fetchable hw)
  | _ => exact id

end DownloadSession

namespace CatalogueSession
open ShelfViewController

/-- The content of the documents that a reply carries is one of `D`; `none` is a missing document. -/
def Event.Carries (D : Option Fields → Prop) : Event → Prop
  | .DownloadCommic _ reply | .lookUp _ _ reply | .downloadListCommentComic _ reply =>
    match reply with
    | .error => True
    | .missing => D none
    | .found data => D (some data)
  | .shelf _ => True

def Complete (content : Option Fields) : Prop := ∃ data ∈ content, data.Complete

theorem complete_some {data : Fields} : Complete (some data) ↔ data.Complete :=
  ⟨fun ⟨_, hdata, h⟩ => Option.some.inj hdata ▸ h, fun h => ⟨data, rfl, h⟩⟩

theorem not_complete_none : ¬ Complete none := by
  rintro ⟨data, hdata, -⟩
  cases hdata

section complete
variable {D : Option Fields → Prop} (hD : ∀ content, D content → Complete content)
include hD

/-- An event of the shelf that stands for a complete document has what a download fetches. -/
theorem Event.Carries.fetchable {e : Event} (hc : e.Carries D) {d : DownloadSession.Event}
    (hd : e.shelf? = some (.download d)) : d.Fetchable := by
  cases e with
  | shelf f =>
    unfold Event.shelf? at hd
    dsimp only at hd
    split_ifs at hd with hplain
    obtain rfl := Option.some.inj hd
    cases d with
    | document c reply => cases hplain
    | _ => trivial
  | DownloadCommic c reply =>
    obtain rfl : DownloadSession.Event.document c reply.documentReply = d := by
      simpa [Event.shelf?] using hd
    cases reply with
    | found data =>
      have hdata := complete_some.mp (hD _ hc)
      exact ⟨hdata.posterPath, hdata.totalChap⟩
    | _ => trivial
  | lookUp n k reply => simp [Event.shelf?] at hd
  | downloadListCommentComic k reply => cases hd

/-- A complete document has what `upLoad` and `DownloadList` unwrap. -/
theorem Event.Carries.not_traps {e : Event} (hc : e.Carries D) {n k : ℕ}
    {reply : AccountSession.Reply} (hr : e.shelf? = some (.account (.reply n k reply)))
    (link : AccountSession.Link) : ¬ link.Traps reply := by
  cases e with
  | shelf f =>
    unfold Event.shelf? at hr
    dsimp only at hr
    split_ifs at hr with hplain
    obtain rfl := Option.some.inj hr
    cases reply with
    | comic document => cases hplain
    | _ => cases link <;> exact id
  | DownloadCommic c reply => simp [Event.shelf?] at hr
  | lookUp n' k' reply' =>
    obtain rfl : reply'.reply = reply := by
      simp only [Event.shelf?, Option.some.injEq, ShelfViewController.Event.account.injEq,
        AccountSession.Event.reply.injEq] at hr
      exact hr.2.2
    cases reply' with
    | error => cases link <;> exact id
    | missing => exact absurd (hD _ hc) not_complete_none
    | found data =>
      have hdata := complete_some.mp (hD _ hc)
      cases link with
      | infoDocument tmp =>
        rintro (hnone | hnone)
        · exact hdata.author hnone
        · exact hdata.category hnone
      | comicDocument chain comic =>
        rintro ⟨data', hdata', hnone⟩
        obtain rfl := Option.some.inj hdata'
        exact hdata.posterPath hnone
      | _ => exact id
  | downloadListCommentComic k reply => cases hr

theorem Event.Carries.provides {s t : State} {e : Event} (hc : e.Carries D)
    (hp : DownloadSession.Prepared s.shelf.downloads) (h : Transition s e t) : Provides s e := by
  cases h with
  | shelf e f shelf hf hs =>
    rw [provides_iff hf]
    intro _
    cases ShelfViewController.Transition.of_step hs with
    | download d downloads hr hd => exact hp.not_traps (hc.fetchable hD hf) hd
    | account e account hr ha =>
      cases e with
      | action a => exact id
      | reply n k reply =>
        rintro ⟨link, -, htraps⟩
        exact hc.not_traps hD hf link htraps
    | _ => exact id
  | comment k reply hr hw =>
    cases reply with
    | error => trivial
    | missing => exact absurd (hD _ hc) not_complete_none
    | found data => exact (complete_some.mp (hD _ hc)).comment

theorem Event.Carries.prepared {s t : State} {e : Event} (hc : e.Carries D)
    (hp : DownloadSession.Prepared s.shelf.downloads) (h : Transition s e t) :
    DownloadSession.Prepared t.shelf.downloads := by
  cases h with
  | shelf e f shelf hf hs =>
    rw [onShelf_shelf]
    cases ShelfViewController.Transition.of_step hs with
    | relaunch account ha => exact DownloadSession.prepared_of_nil rfl
    | download d downloads hr hd => exact hp.step (hc.fetchable hD hf) hd
    | account e account hr ha => exact hp
    | select id hr => exact hp
    | viewDidLoad hr =>
      have hcalls := (DownloadSession.onViewDidLoad_frame s.shelf.downloads).2.1
      intro _ c call hc'
      exact hp (ShelfViewController.State.running_iff.mp hr).1 c call (hcalls ▸ hc')
  | comment k reply hr hw =>
    cases reply with
    | error => exact hp
    | missing => exact nofun
    | found data =>
      unfold State.onComment
      dsimp only
      split
      · exact nofun
      · exact hp

/-- With complete documents only, no run stops one of the callbacks. -/
theorem faultFree_of_complete {realm : Realm} {luser : List AccountSession.LUser} {es : List Event}
    {s : State} (hes : ∀ e ∈ es, e.Carries D) (hrun : run step (launch realm luser) es = some s) :
    s.faulted = false := by
  have hinv : DownloadSession.Prepared s.shelf.downloads ∧ s.faulted = false := by
    refine run_invariant step
      (I := fun s => DownloadSession.Prepared s.shelf.downloads ∧ s.faulted = false)
      ⟨DownloadSession.prepared_of_nil rfl, rfl⟩ ?_ (along_of_forall_mem step hes) hrun
    rintro s e t ⟨hp, hfaulted⟩ hc hs
    have ht := Transition.of_step hs
    refine ⟨hc.prepared hD hp ht, ?_⟩
    rw [← Bool.not_eq_true, ht.faulted_iff, hfaulted]
    rintro (hfalse | hnot)
    · cases hfalse
    · exact hnot (hc.provides hD hp ht)
  exact hinv.2

end complete

/-- With documents of `D` no run stops a callback of the four functions. -/
def Tolerated (D : Option Fields → Prop) : Prop :=
  ∀ (realm : Realm) (luser : List AccountSession.LUser) (es : List Event) (s : State),
    (∀ e ∈ es, e.Carries D) → run step (launch realm luser) es = some s → s.faulted = false

def opening : List Event := [.shelf (.select (some "a")), .shelf .viewDidLoad]

def opened : State := (run step (launch [] []) opening).get (by decide +kernel)

theorem run_opening : run step (launch [] []) opening = some opened := (Option.some_get _).symm

def tapping : List Event := opening ++ [.shelf (.download (.download 0))]

def tapped : State := (run step (launch [] []) tapping).get (by decide +kernel)

theorem run_tapping : run step (launch [] []) tapping = some tapped := (Option.some_get _).symm

def fetching (data : Fields) : Call := (Shelf.DownloadCommic "a").documentFound data.document

def fetched (data : Fields) : State :=
  tapped.onShelf (.download (.document 0 (.found data.document)))
    ⟨tapped.shelf.downloads.setCall 0 (fetching data), tapped.shelf.account⟩

/-- The document is read; without `posterPath` the process stops there. -/
theorem step_tapped (data : Fields) :
    step tapped (.DownloadCommic 0 (.found data)) =
      some (if data.string "posterPath" = none then
        tapped.onShelf (.download (.document 0 (.found data.document)))
          ⟨tapped.shelf.downloads.trap, tapped.shelf.account⟩
        else fetched data) := by
  change (ShelfViewController.step tapped.shelf (.download (.document 0 (.found data.document)))).map
    (tapped.onShelf (.download (.document 0 (.found data.document)))) = _
  rw [fetched, Fields.document]
  cases data.string "posterPath" <;> rfl

section tolerated
variable {D : Option Fields → Prop} (h : Tolerated D)
include h

theorem Tolerated.provides {es : List Event} {s t : State} {e : Event}
    (hes : ∀ e ∈ es, e.Carries D) (hrun : run step (launch [] []) es = some s) (he : e.Carries D)
    (hs : step s e = some t) : Provides s e := by
  have hall : ∀ e' ∈ es ++ [e], e'.Carries D := by
    intro e' hm
    rcases List.mem_append.mp hm with hm | hm
    · exact hes e' hm
    · exact List.mem_singleton.mp hm ▸ he
  have hfaulted := h [] [] (es ++ [e]) t hall ((run_concat_eq_some step).mpr ⟨s, hrun, hs⟩)
  by_contra hnot
  have hfault := (Transition.of_step hs).faulted_iff.mpr (.inr hnot)
  rw [hfaulted] at hfault
  cases hfault

/-- The comments are read first: a document that is tolerated exists. -/
theorem Tolerated.exists_data {content : Option Fields} (hc : D content) :
    ∃ data, content = some data ∧ data.comment ≠ none := by
  have hopening : ∀ e ∈ opening, e.Carries D := by simp [opening, Event.Carries]
  cases content with
  | none =>
    have hprovides : Provides opened (.downloadListCommentComic 0 .missing) :=
      h.provides hopening run_opening hc rfl
    exact hprovides.elim
  | some data =>
    have hprovides : Provides opened (.downloadListCommentComic 0 (.found data)) :=
      h.provides hopening run_opening hc rfl
    exact ⟨data, rfl, hprovides⟩

/-- `upLoad` reads the author and the category. -/
theorem Tolerated.not_traps {data : Fields} (hc : D (some data)) :
    ¬ (AccountSession.Link.infoDocument 0).Traps (.comic (some data.comicDocument)) := by
  have hopening : ∀ e ∈ opening, e.Carries D := by simp [opening, Event.Carries]
  have hprovides : Provides opened (.lookUp 0 0 (.found data)) :=
    h.provides hopening run_opening hc rfl
  have hnot : ¬ Traps opened.shelf (.account (.reply 0 0 (.comic (some data.comicDocument)))) :=
    (provides_iff rfl).mp hprovides rfl
  exact fun htraps => hnot ⟨.infoDocument 0, rfl, htraps⟩

/-- The download reads `posterPath` at once. -/
theorem Tolerated.posterPath {data : Fields} (hc : D (some data)) :
    data.string "posterPath" ≠ none := by
  have htapping : ∀ e ∈ tapping, e.Carries D := by simp [tapping, opening, Event.Carries]
  have hprovides : Provides tapped (.DownloadCommic 0 (.found data)) :=
    h.provides htapping run_tapping hc (step_tapped data)
  exact (provides_iff rfl).mp hprovides rfl

/-- It reads the number of chapters and the folder when the poster arrives. -/
theorem Tolerated.fetchable {data : Fields} (hc : D (some data)) : (fetching data).Fetchable := by
  have hcarries : ∀ e ∈ tapping ++ [.DownloadCommic 0 (.found data)], e.Carries D := by
    simpa [tapping, opening, Event.Carries] using hc
  have hstep : step tapped (.DownloadCommic 0 (.found data)) = some (fetched data) := by
    rw [step_tapped, if_neg (h.posterPath hc)]
  have hprovides : Provides (fetched data) (.shelf (.download (.poster 0 (some [])))) :=
    h.provides hcarries ((run_concat_eq_some step).mpr ⟨tapped, run_tapping, hstep⟩) trivial rfl
  have htraps : ¬ Traps (fetched data).shelf (.download (.poster 0 (some []))) :=
    (provides_iff rfl).mp hprovides rfl
  by_contra hnot
  exact htraps ⟨fetching data, rfl, hnot⟩

theorem Tolerated.complete {content : Option Fields} (hc : D content) : Complete content := by
  obtain ⟨data, rfl, hcomment⟩ := h.exists_data hc
  have hinfo := h.not_traps hc
  exact ⟨data, rfl, fun hnone => hinfo (.inl hnone), fun hnone => hinfo (.inr hnone),
    h.posterPath hc, hcomment, h.fetchable hc⟩

end tolerated

/-- Whatever the documents of the catalogue may hold, the runs in which they arrive never stop a
callback that opens or downloads a comic exactly when every one of them is complete. -/
theorem catalogue_tolerated_iff (D : Option Fields → Prop) :
    (∀ (realm : Realm) (luser : List AccountSession.LUser) (es : List Event) (s : State),
      (∀ e ∈ es, e.Carries D) → run step (launch realm luser) es = some s → s.faulted = false) ↔
    ∀ content, D content → Complete content :=
  ⟨fun h _ hc => Tolerated.complete h hc,
    fun hD _ _ _ _ hes hrun => faultFree_of_complete hD hes hrun⟩

def uncommented : List Event :=
  opening ++ [.downloadListCommentComic 0 (.found
    [("name", .string "A"), ("author", .string "An"), ("category", .string "B"),
      ("totalChap", .integer 1), ("size", .integer 10), ("posterPath", .string "A.jpg"),
      ("filePath", .string "Comic/a")])]

theorem not_catalogue_tolerated :
    ¬ ∀ (realm : Realm) (luser : List AccountSession.LUser) (es : List Event) (s : State),
      run step (launch realm luser) es = some s → s.faulted = false := by
  intro h
  have hfaulted := h [] [] uncommented ((run step (launch [] []) uncommented).get (by decide +kernel))
    (Option.some_get _).symm
  exact absurd hfaulted (by decide +kernel)

end CatalogueSession

end ComicApp
