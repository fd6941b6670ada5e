import ComicApp.CloudSession
import ComicApp.OwnWrites
import Mathlib.Data.Fintype.Basic

/-!
# The writes to the document of a user

The writes of the app to its user's document in the `Users` collection, which no other device writes.
In every state that the client and the backend reach, a document that the app can read shows the shelf
arrays that the writes so far have made of the stored ones. In a run of `CloudSession` with the same
writes these are the arrays of the document there, so that it admits the document as a reply.
-/

namespace ComicApp.CloudSession
open EventMachine Firestore
open Firestore.TransformOperation (ArrayUnion ArrayRemove)

inductive UserField where
  | uid
  | fullName
  | gender
  | birthday
  | avatarUrl
  | email
  | comicHistory
  | comicLike
  deriving DecidableEq, Repr

instance : Fintype UserField where
  elems := {.uid, .fullName, .gender, .birthday, .avatarUrl, .email, .comicHistory, .comicLike}
  complete path := by cases path <;> decide

instance : DecidableEq (Write UserField String)
  | .setData data, .setData data' => decidable_of_iff (data = data') (by simp)
  | .updateData d, .updateData d' => decidable_of_iff (d.entries = d'.entries) (by simp [AList.ext_iff])
  | .setData _, .updateData _ | .updateData _, .setData _ => .isFalse nofun

inductive ProfileWrite where
  | signUp (uid fullName email : String)
  | touchHistory
  | touchLike
  | addToHistory (id : String)
  | Like (tag : Bool) (id : String)
  | Save (fullName birthday gender : String)
  | avatarUrl (url : String)
  deriving DecidableEq, Repr

namespace ProfileWrite

def string (s : String) : FieldValue String := .primitive (.other s)

def signUpData (uid fullName email : String) : ObjectValue UserField String
  | .uid => some (string uid)
  | .fullName => some (string fullName)
  | .gender => some (string "Other")
  | .birthday => some (string "01/01/2000")
  | .avatarUrl => some (string "")
  | .email => some (string email)
  | .comicHistory | .comicLike => none

def write : ProfileWrite → Write UserField String
  | signUp uid fullName email => .setData (signUpData uid fullName email)
  | touchHistory => .updateData (AList.singleton .comicHistory (.transform (ArrayUnion [])))
  | touchLike => .updateData (AList.singleton .comicLike (.transform (ArrayUnion [])))
  | addToHistory id =>
    .updateData (AList.singleton .comicHistory (.transform (ArrayUnion [.other id])))
  | Like tag id =>
    .updateData (AList.singleton .comicLike
      (.transform (if tag then ArrayRemove [.other id] else ArrayUnion [.other id])))
  | Save fullName birthday gender => .updateData <|
    ((AList.singleton .gender (.value (string gender))).insert .birthday
      (.value (string birthday))).insert .fullName (.value (string fullName))
  | avatarUrl url => .updateData (AList.singleton .avatarUrl (.value (string url)))

def onArrays : ProfileWrite → Option ArrayWrite
  | signUp _ _ _ => some .create
  | touchHistory => some .touchHistory
  | touchLike => some .touchLike
  | addToHistory id => some (.addToHistory id)
  | Like tag id => some (.Like tag id)
  | Save _ _ _ | avatarUrl _ => none

def perform (profile : Option Profile) (q : ProfileWrite) : Option Profile :=
  q.onArrays.elim profile (ArrayWrite.perform profile)

theorem foldl_perform (qs : List ProfileWrite) (profile : Option Profile) :
    qs.foldl perform profile = (qs.filterMap onArrays).foldl ArrayWrite.perform profile := by
  induction qs generalizing profile with
  | nil => rfl
  | cons q qs ih =>
    rw [List.foldl_cons, ih, perform]
    cases h : q.onArrays with
    | none => rw [List.filterMap_cons_none h, Option.elim_none]
    | some w => rw [List.filterMap_cons_some h, Option.elim_some, List.foldl_cons]

end ProfileWrite

def idArray (array : Option IdArray) : Option (FieldValue String) :=
  array.map fun array => .array (array.ids.map .other)

structure Profile.Of (profile : Profile) (data : ObjectValue UserField String) : Prop where
  comicHistory : data .comicHistory = idArray profile.comicHistory
  comicLike : data .comicLike = idArray profile.comicLike
  others : ∀ path, path ≠ .comicHistory → path ≠ .comicLike →
    CoercedFieldValuesArray (data path) = []

def Profile.Stored (profile : Option Profile) (document : Option (ObjectValue UserField String)) : Prop :=
  Option.Rel Profile.Of profile document

section Arrays
variable (server : Server UserField String)

theorem transform_touch (array : Option IdArray) :
    server.transform (ArrayUnion []) (idArray array) =
      .array ((array.getD .empty).ids.map .other) := by
  rw [server.arrayUnion]
  cases array <;> rfl

theorem other_injective : Function.Injective (Primitive.other (α := String)) :=
  fun _ _ => Primitive.other.inj

theorem transform_union (array : Option IdArray) (id : String) :
    server.transform (ArrayUnion [.other id]) (idArray array) =
      .array ((((array.getD .empty).union id).ids).map .other) := by
  have hmap (ids : List String) : arrayUnion (ids.map Primitive.other) (.other id) =
      (arrayUnion ids id).map .other := by
    unfold arrayUnion
    simp only [List.mem_map_of_injective other_injective]
    split_ifs
    · rfl
    · rw [List.map_append, List.map_singleton]
  rw [server.arrayUnion]
  cases array with
  | none => rfl
  | some array => exact congrArg FieldValue.array (hmap array.ids)

theorem transform_remove (array : Option IdArray) (id : String) :
    server.transform (ArrayRemove [.other id]) (idArray array) =
      .array ((((array.getD .empty).remove id).ids).map .other) := by
  have hmap (ids : List String) : (ids.map Primitive.other).filter (· ∉ [.other id]) =
      (ids.filter (· ≠ id)).map .other := by
    rw [List.filter_map]
    refine congrArg _ (List.filter_congr fun id' _ => ?_)
    simp [other_injective.eq_iff]
  rw [server.arrayRemove]
  cases array with
  | none => rfl
  | some array => exact congrArg FieldValue.array (hmap array.ids)

theorem nodup_idArray (array : Option IdArray) :
    (CoercedFieldValuesArray (idArray array)).Nodup := by
  cases array with
  | none => exact List.nodup_nil
  | some array => exact array.nodup.map other_injective

end Arrays

section Commit
variable {profile : Profile} {data : ObjectValue UserField String} (server : Server UserField String)

/-- An update of a single field. -/
theorem commit_singleton (path : UserField) (u : Update String) (data : ObjectValue UserField String) :
    server.commit (.updateData (AList.singleton path u)) (some data) =
      some (Function.update data path (server.update u (data path))) := by
  rw [server.updateData]
  refine congrArg some (funext fun path' => ?_)
  dsimp only
  by_cases hpath : path' = path
  · subst hpath
    have hlookup : (AList.singleton path' u : UpdateData UserField String).lookup path' = some u := by
      rw [← AList.insert_empty, AList.lookup_insert]
    rw [hlookup, Option.elim_some, Function.update_self]
  · have hlookup : (AList.singleton path u : UpdateData UserField String).lookup path' = none := by
      rw [← AList.insert_empty, AList.lookup_insert_ne hpath, AList.lookup_empty]
    rw [hlookup, Option.elim_none, Function.update_of_ne hpath]

/-- An update with one more value. -/
theorem commit_insert (d : UpdateData UserField String) (path : UserField) (v : FieldValue String)
    (data : ObjectValue UserField String) :
    server.commit (.updateData (d.insert path (.value v))) (some data) =
      (server.commit (.updateData d) (some data)).map fun data =>
        Function.update data path (some v) := by
  rw [server.updateData, server.updateData]
  refine congrArg some (funext fun path' => ?_)
  dsimp only
  by_cases hpath : path' = path
  · subst hpath
    rw [AList.lookup_insert, Function.update_self]
    rfl
  · rw [AList.lookup_insert_ne hpath, Function.update_of_ne hpath]

theorem Profile.Of.setHistory (h : profile.Of data) (array : IdArray) :
    { profile with comicHistory := some array }.Of
      (Function.update data .comicHistory (some (.array (array.ids.map .other)))) where
  comicHistory := rfl
  comicLike := h.comicLike
  others path hhistory hlike := by
    rw [Function.update_of_ne hhistory]
    exact h.others path hhistory hlike

theorem Profile.Of.setLike (h : profile.Of data) (array : IdArray) :
    { profile with comicLike := some array }.Of
      (Function.update data .comicLike (some (.array (array.ids.map .other)))) where
  comicHistory := h.comicHistory
  comicLike := rfl
  others path hhistory hlike := by
    rw [Function.update_of_ne hlike]
    exact h.others path hhistory hlike

theorem Profile.Of.setString (h : profile.Of data) (path : UserField) (hhistory : path ≠ .comicHistory)
    (hlike : path ≠ .comicLike) (value : String) :
    profile.Of (Function.update data path (some (ProfileWrite.string value))) where
  comicHistory := by rw [Function.update_of_ne (Ne.symm hhistory), h.comicHistory]
  comicLike := by rw [Function.update_of_ne (Ne.symm hlike), h.comicLike]
  others path' hhistory' hlike' := by
    by_cases hpath : path' = path
    · rw [hpath, Function.update_self]
      rfl
    · rw [Function.update_of_ne hpath]
      exact h.others path' hhistory' hlike'

end Commit

namespace Profile.Stored
variable {server : Server UserField String} {profile : Option Profile}
  {document : Option (ObjectValue UserField String)}

theorem distinct (h : Profile.Stored profile document) : Distinct document := by
  intro data hdata path
  cases h with
  | none => cases hdata
  | some hof =>
    obtain rfl := Option.some.inj hdata
    by_cases hhistory : path = .comicHistory
    · rw [hhistory, hof.comicHistory]
      exact nodup_idArray _
    · by_cases hlike : path = .comicLike
      · rw [hlike, hof.comicLike]
        exact nodup_idArray _
      · rw [hof.others path hhistory hlike]
        exact List.nodup_nil

/-- The backend does to the stored arrays what the write does. -/
theorem commit (h : Profile.Stored profile document) (q : ProfileWrite) :
    Profile.Stored (q.perform profile) (server.commit q.write document) := by
  cases h with
  | none =>
    cases q with
    | signUp uid fullName email =>
      rw [ProfileWrite.write, server.setData]
      exact .some ⟨rfl, rfl, fun path _ _ => by cases path <;> rfl⟩
    | touchHistory | touchLike | addToHistory id | Like tag id | Save fullName birthday gender
    | avatarUrl url =>
      rw [ProfileWrite.write, server.updateData_none]
      exact .none
  | @some profile data hof =>
    cases q with
    | signUp uid fullName email =>
      rw [ProfileWrite.write, server.setData]
      exact .some ⟨rfl, rfl, fun path _ _ => by cases path <;> rfl⟩
    | touchHistory =>
      rw [ProfileWrite.write, commit_singleton, server.update_transform, hof.comicHistory, transform_touch]
      exact .some (hof.setHistory _)
    | touchLike =>
      rw [ProfileWrite.write, commit_singleton, server.update_transform, hof.comicLike, transform_touch]
      exact .some (hof.setLike _)
    | addToHistory id =>
      rw [ProfileWrite.write, commit_singleton, server.update_transform, hof.comicHistory, transform_union]
      exact .some (hof.setHistory _)
    | Like tag id =>
      rw [ProfileWrite.write, commit_singleton, server.update_transform, hof.comicLike]
      cases tag with
      | false =>
        rw [if_neg Bool.false_ne_true, transform_union]
        exact .some (hof.setLike _)
      | true =>
        rw [if_pos rfl, transform_remove]
        exact .some (hof.setLike _)
    | Save fullName birthday gender =>
      rw [ProfileWrite.write, commit_insert, commit_insert, commit_singleton]
      have hgender := hof.setString .gender (by decide) (by decide) gender
      have hbirthday := hgender.setString .birthday (by decide) (by decide) birthday
      exact .some (hbirthday.setString .fullName (by decide) (by decide) fullName)
    | avatarUrl url =>
      rw [ProfileWrite.write, commit_singleton]
      exact .some (hof.setString .avatarUrl (by decide) (by decide) url)

theorem committed (h : Profile.Stored profile document) (qs : List ProfileWrite) :
    Profile.Stored (qs.foldl ProfileWrite.perform profile)
      (Firestore.committed server (qs.map ProfileWrite.write) document) := by
  induction qs generalizing profile document with
  | nil => exact h
  | cons q qs ih => exact ih (h.commit q)

end Profile.Stored

/-- What the app writes into a field: a string, or ids that are added or removed. -/
def Mild : Update String → Prop
  | .value v => CoercedFieldValuesArray (some v) = []
  | .delete => True
  | .transform (.Increment _) => False
  | .transform _ => True

theorem owns_of_mild {d : UpdateData UserField String} (h : ∀ path, ∀ u ∈ d.lookup path, Mild u) :
    (Write.updateData d).Distinct ∧ (Write.updateData d).Plain := by
  refine ⟨fun path v hlookup => ?_, fun path operand hlookup => ?_⟩
  · have hmild : CoercedFieldValuesArray (some v) = [] := h path _ hlookup
    rw [hmild]
    exact List.nodup_nil
  · exact h path _ hlookup

theorem mild_singleton (path : UserField) {u : Update String} (h : Mild u) :
    ∀ path', ∀ u' ∈ (AList.singleton path u : UpdateData UserField String).lookup path', Mild u' := by
  intro path' u' hu'
  rw [← AList.insert_empty] at hu'
  by_cases hpath : path' = path
  · subst hpath
    rw [AList.lookup_insert] at hu'
    obtain rfl := Option.some.inj hu'
    exact h
  · rw [AList.lookup_insert_ne hpath, AList.lookup_empty] at hu'
    cases hu'

theorem mild_insert {d : UpdateData UserField String} (h : ∀ path, ∀ u ∈ d.lookup path, Mild u)
    (path : UserField) {u : Update String} (hu : Mild u) :
    ∀ path', ∀ u' ∈ (d.insert path u).lookup path', Mild u' := by
  intro path' u' hu'
  by_cases hpath : path' = path
  · subst hpath
    rw [AList.lookup_insert] at hu'
    obtain rfl := Option.some.inj hu'
    exact hu
  · rw [AList.lookup_insert_ne hpath] at hu'
    exact h path' u' hu'

theorem ProfileWrite.owns (q : ProfileWrite) : q.write.Distinct ∧ q.write.Plain := by
  cases q with
  | signUp uid fullName email =>
    refine ⟨fun data hdata path => ?_, trivial⟩
    obtain rfl := Option.some.inj hdata
    cases path <;> exact List.nodup_nil
  | touchHistory => exact owns_of_mild (mild_singleton _ trivial)
  | touchLike => exact owns_of_mild (mild_singleton _ trivial)
  | addToHistory id => exact owns_of_mild (mild_singleton _ trivial)
  | Like tag id => cases tag <;> exact owns_of_mild (mild_singleton _ trivial)
  | Save fullName birthday gender =>
    have hstring (s : String) : Mild (.value (string s)) := rfl
    exact owns_of_mild (mild_insert (mild_insert (mild_singleton _ (hstring gender)) _
      (hstring birthday)) _ (hstring fullName))
  | avatarUrl url =>
    have hstring : Mild (.value (string url)) := rfl
    exact owns_of_mild (mild_singleton _ hstring)

def asString : FieldValue String → Option String
  | .primitive (.other s) => some s
  | _ => none

def asStrings : FieldValue String → Option (List String)
  | .array values => values.mapM fun value =>
    match value with
    | .other s => some s
    | .integer _ => none
  | .primitive _ => none

def asUserDocument (data : ObjectValue UserField String) : AccountSession.UserDocument where
  fullName := (data .fullName).bind asString
  gender := (data .gender).bind asString
  birthday := (data .birthday).bind asString
  email := (data .email).bind asString
  avatarUrl := (data .avatarUrl).bind asString
  comicHistory := (data .comicHistory).bind asStrings
  comicLike := (data .comicLike).bind asStrings

theorem asStrings_map (ids : List String) : asStrings (.array (ids.map .other)) = some ids := by
  induction ids with
  | nil => rfl
  | cons id ids ih =>
    simp only [asStrings, List.map_cons, List.mapM_cons] at ih ⊢
    rw [ih]
    rfl

/-- A permutation of ids is read as a permutation of ids. -/
theorem exists_map_other {values : List (Primitive String)} {ids : List String}
    (h : values.Perm (ids.map .other)) : ∃ ids' : List String, values = ids'.map .other ∧ ids'.Perm ids := by
  have hrange : values ∈ Set.range (List.map Primitive.other) := by
    rw [Set.range_list_map]
    intro value hvalue
    obtain ⟨id, -, rfl⟩ := List.mem_map.mp (h.subset hvalue)
    exact ⟨id, rfl⟩
  obtain ⟨ids', rfl⟩ := hrange
  exact ⟨ids', rfl, (List.map_perm_map_iff other_injective).mp h⟩

theorem rel_asStrings {v : Option (FieldValue String)} {array : Option IdArray}
    (h : Same v (idArray array)) :
    Option.Rel List.Perm (v.bind asStrings) (array.map IdArray.ids) := by
  rcases h with rfl | ⟨values, values', rfl, hvalues', hperm⟩
  · cases array with
    | none => exact .none
    | some array =>
      change Option.Rel List.Perm (asStrings (.array (array.ids.map .other))) (some array.ids)
      rw [asStrings_map]
      exact .some (List.Perm.refl _)
  · obtain ⟨array, rfl, harray⟩ := Option.map_eq_some_iff.mp hvalues'
    obtain rfl := FieldValue.array.inj harray
    obtain ⟨ids, rfl, hids⟩ := exists_map_other hperm
    change Option.Rel List.Perm (asStrings (.array (ids.map .other))) (some array.ids)
    rw [asStrings_map]
    exact .some hids

theorem shows_of_same {profile : Option Profile} {document document' : Option (ObjectValue UserField String)}
    (h : Profile.Stored profile document') (hsame : SameDocument document document') :
    Option.Rel Profile.Shows profile (document.map asUserDocument) := by
  cases h with
  | none =>
    cases hsame
    exact .none
  | some hof =>
    cases hsame with
    | some hsame =>
      refine .some ⟨rel_asStrings ?_, rel_asStrings ?_⟩
      · rw [← hof.comicHistory]
        exact hsame .comicHistory
      · rw [← hof.comicLike]
        exact hsame .comicLike

section Writes
variable {UserID : String} {s t : State} {e : Event} {es : List Event}

def writesOf (UserID : String) (s : State) : Event → List ArrayWrite
  | .app e => (written s.app e).elim [] fun w => if w.1 = UserID then w.2 else []
  | _ => []

/-- What a run writes to the arrays of the document of `UserID`. -/
def arrayWrites (UserID : String) : State → List Event → List ArrayWrite
  | _, [] => []
  | s, e :: es => writesOf UserID s e ++ (step s e).elim [] fun t => arrayWrites UserID t es

theorem step_users (hcreated : ∀ i, e ≠ .setData i false) (hstep : step s e = some t)
    (UserID : String) :
    t.users UserID = (writesOf UserID s e).foldl ArrayWrite.perform (s.users UserID) := by
  cases e with
  | app e =>
    obtain ⟨-, app, -, rfl⟩ := step_app hstep
    unfold writesOf
    dsimp only
    cases hw : written s.app e with
    | none => exact onApp_users_of_ne (by simp [hw])
    | some w =>
      obtain ⟨user, ws⟩ := w
      rw [Option.elim_some]
      split_ifs with huser
      · obtain rfl : user = UserID := huser
        exact onApp_users hw
      · refine onApp_users_of_ne fun w hmem => ?_
        obtain rfl := Option.some.inj (hw.symm.trans hmem)
        exact huser
  | read n k =>
    obtain ⟨-, user, -, rfl⟩ := step_read hstep
    rfl
  | setData i succeeds =>
    obtain ⟨uid, -, rfl⟩ := Option.map_eq_some_iff.mp hstep
    cases succeeds with
    | true => rfl
    | false => exact absurd rfl (hcreated i)

/-- As long as no creation is refused, the document is what the writes of the run have made of it. -/
theorem users_eq_foldl (hcreated : ∀ i, .setData i false ∉ es) (hrun : run step s es = some t) :
    t.users UserID = (arrayWrites UserID s es).foldl ArrayWrite.perform (s.users UserID) := by
  induction es generalizing s with
  | nil =>
    obtain rfl := Option.some.inj hrun
    rfl
  | cons e es ih =>
    obtain ⟨u, hu, hrun⟩ := (run_cons_eq_some _).mp hrun
    have hhead := step_users (fun i he => hcreated i (he ▸ List.mem_cons_self)) hu UserID
    rw [ih (fun i hmem => hcreated i (List.mem_cons_of_mem e hmem)) hrun, hhead, arrayWrites, hu,
      Option.elim_some, List.foldl_append]

end Writes

section Run
variable {server : Server UserField String} {backend : Backend String UserField String}
  {UserID : String}
  {s : SessionState String UserField String} {es : List (SessionEvent String UserField String)}

/-- The app writes the document of its user, and no other device does. -/
structure OwnProfile (UserID : String) (es : List (SessionEvent String UserField String)) : Prop where
  writes : ∀ w, .write UserID w ∈ es → ∃ q : ProfileWrite, w = q.write
  others : ∀ document version, .elsewhere UserID document version ∉ es

theorem OwnProfile.owns (h : OwnProfile UserID es) : ∀ e ∈ es, e.Owns UserID := by
  rintro e he
  cases e with
  | write key w =>
    rintro rfl
    obtain ⟨q, rfl⟩ := h.writes w he
    exact q.owns
  | elsewhere key document version =>
    rintro rfl
    exact h.others document version he
  | _ => trivial

/-- What the app has written to the document that is confirmed or unanswered. -/
theorem OwnProfile.exists_writes (h : OwnProfile UserID es)
    (hrun : run (SessionState.step server) (SessionState.launch backend) es = some s) :
    ∃ qs : List ProfileWrite,
      own UserID s.confirmed ++ own UserID s.writes = qs.map ProfileWrite.write := by
  have hmem : own UserID s.confirmed ++ own UserID s.writes ∈
      Set.range (List.map ProfileWrite.write) := by
    rw [Set.range_list_map]
    intro w hw
    obtain ⟨q, hq⟩ := SessionState.written_of_run h.writes hrun w hw
    exact ⟨q, hq.symm⟩
  obtain ⟨qs, hqs⟩ := hmem
  exact ⟨qs, hqs.symm⟩

/-- In every state that the client and the backend reach while no other device writes the document of
the user, a document that can be read shows the shelf arrays that the confirmed and the unanswered
writes make of the stored ones. A run of the app with these writes admits it as the reply to a request
for the lists. -/
theorem profile_shown {profile : Option Profile} {maybe_doc : Option (MaybeDocument UserField String)}
    (hown : OwnProfile UserID es)
    (hstored : Profile.Stored profile (backend.documents UserID).state)
    (hrun : run (SessionState.step server) (SessionState.launch backend) es = some s)
    (hview : s.client.local_store.GetDocument UserID = some maybe_doc)
    (hknown : contents maybe_doc ≠ none ∨
      ∃ doc, s.cache UserID = some doc ∧ ∀ version, doc ≠ .UnknownDocument version) :
    (∃ qs : List ProfileWrite,
      own UserID s.confirmed ++ own UserID s.writes = qs.map ProfileWrite.write) ∧
    ∀ qs : List ProfileWrite,
      own UserID s.confirmed ++ own UserID s.writes = qs.map ProfileWrite.write →
      Option.Rel Profile.Shows (qs.foldl ProfileWrite.perform profile)
        ((contents maybe_doc).map asUserDocument) ∧
      ∀ (users : String → Option Profile) (accounts : List String) (cs : List Event) (c : State),
        users UserID = profile → run step (launch users accounts) cs = some c →
        (∀ i, .setData i false ∉ cs) →
        arrayWrites UserID (launch users accounts) cs = qs.filterMap ProfileWrite.onArrays →
        ∀ n k, (c.onRead n k UserID).Admits
          (.reply n k (.user ((contents maybe_doc).map asUserDocument))) := by
  have howned := SessionState.owned_of_run hown.owns hstored.distinct hrun
  have hsame := SessionState.own_view (SessionState.sound_of_run hrun) howned hview hknown
  refine ⟨hown.exists_writes hrun, fun qs hqs => ?_⟩
  rw [hqs] at hsame
  have hshown := shows_of_same (hstored.committed qs) hsame
  refine ⟨hshown, fun users accounts cs c husers hcloud hcreated hwrites n k hasked => ?_⟩
  have hdocument : c.users UserID = qs.foldl ProfileWrite.perform profile := by
    rw [users_eq_foldl hcreated hcloud, hwrites, ProfileWrite.foldl_perform, ← husers]
    rfl
  refine ⟨c.users UserID, ?_, ?_⟩
  · exact List.lookup_cons_self
  · rw [hdocument]
    exact hshown

end Run

/-- The app signs its user in, opens a comic and likes it, while the network goes off and on. -/
theorem profile_shown_offline :
    let data : ObjectValue UserField String := fun path =>
      if path = .comicLike then some (.array [.other "3"]) else none
    let profile : Profile := ⟨none, some ⟨["3"], by decide⟩⟩
    let backend : Backend String UserField String := ⟨5, fun _ => ⟨5, some data⟩, fun _ => by decide⟩
    let es : List (SessionEvent String UserField String) := [.watch "u" 5,
      .write "u" (ProfileWrite.write .touchHistory), .write "u" (ProfileWrite.write .touchLike),
      .commit 6, .disableNetwork, .write "u" (ProfileWrite.write (.addToHistory "7")),
      .write "u" (ProfileWrite.write (.Like false "7")), .enableNetwork, .reply, .commit 6, .reply,
      .commit 8, .watch "u" 8]
    let cs : List Event := [.app (.action .login), .app (.action .loginTapped),
      .app (.reply 1 0 (.uid "u")), .app (.action (.select (some "7"))), .app (.action .viewDidLoad),
      .app (.action (.Like 1 0))]
    ∃ s maybe_doc c, run (SessionState.step .documented) (SessionState.launch backend) es = some s ∧
      s.client.local_store.GetDocument "u" = some maybe_doc ∧
      run step (launch (fun _ => some profile) ["u"]) cs = some c ∧ c.app.asked 1 1 = some "u" ∧
      (c.onRead 1 1 "u").Admits (.reply 1 1 (.user ((contents maybe_doc).map asUserDocument))) := by
  intro data profile backend es cs
  have hown : OwnProfile "u" es := by
    refine ⟨fun w hw => ?_, fun document version he => ?_⟩
    · simp only [es, List.mem_cons, SessionEvent.write.injEq, true_and, reduceCtorEq, false_or, or_false,
        List.not_mem_nil] at hw
      rcases hw with rfl | rfl | rfl | rfl <;> exact ⟨_, rfl⟩
    · simp [es] at he
  have hstored : Profile.Stored (some profile) (backend.documents "u").state := by
    refine .some ⟨rfl, rfl, fun path hhistory hlike => ?_⟩
    have hnone : data path = none := if_neg hlike
    rw [hnone]
    rfl
  have hreached : ((run (SessionState.step .documented) (SessionState.launch backend) es).bind fun s =>
      (s.client.local_store.GetDocument "u").bind contents).isSome := by
    decide +kernel
  obtain ⟨shown, hshown⟩ := Option.isSome_iff_exists.mp hreached
  obtain ⟨s, hrun, hshown⟩ := Option.bind_eq_some_iff.mp hshown
  obtain ⟨maybe_doc, hview, hshown⟩ := Option.bind_eq_some_iff.mp hshown
  have hknown : contents maybe_doc ≠ none := by
    rw [hshown]
    exact Option.some_ne_none _
  have hwrites : (run (SessionState.step .documented) (SessionState.launch backend) es).map
      (fun s => own "u" s.confirmed ++ own "u" s.writes) = some (List.map ProfileWrite.write
        [.touchHistory, .touchLike, .addToHistory "7", .Like false "7"]) := by
    decide +kernel
  rw [hrun] at hwrites
  have hcloud := (Option.some_get (x := run step (launch (fun _ => some profile) ["u"]) cs)
    (by decide +kernel)).symm
  have hshows := (profile_shown hown hstored hrun hview (.inl hknown)).2 _ (Option.some.inj hwrites)
  exact ⟨s, maybe_doc, _, hrun, hview, hcloud, by decide +kernel,
    hshows.2 (fun _ => some profile) ["u"] cs _ rfl hcloud (by simp [cs]) (by decide +kernel) 1 1⟩

end ComicApp.CloudSession
