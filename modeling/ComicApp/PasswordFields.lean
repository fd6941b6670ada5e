import ComicApp.Regex

/-!
# The password fields

`Utilities.isPasswordValid` matches the whole password against a regular expression, and the forms for
signing up and for changing the password apply it to the trimmed field. The texts that the forms show
announce another rule than the expression has: an accepted password consists of letters and digits only.
-/

namespace ComicApp

def asciiLetter (c : Char) : Bool := ('A' ≤ c && c ≤ 'Z') || ('a' ≤ c && c ≤ 'z')

def lineTerminator (c : Char) : Bool :=
  (0x0a ≤ c.toNat && c.toNat ≤ 0x0d) || c.toNat == 0x85 || c.toNat == 0x2028 || c.toNat == 0x2029

/-- The character classes of Unicode that the regular expressions and `CharacterSet` use, and the
canonical form by which Swift compares strings. `decimalDigit` is the class of `\d`. -/
structure Unicode where
  decimalDigit : Char → Bool
  alphanumeric : Char → Bool
  whitespaceOrNewline : Char → Bool
  canonical : String → String
  alphanumeric_of_letter : ∀ c, asciiLetter c = true → alphanumeric c = true
  alphanumeric_of_digit : ∀ c, decimalDigit c = true → alphanumeric c = true
  lineTerminator_of_digit : ∀ c, decimalDigit c = true → lineTerminator c = false
  canonical_eq_empty : ∀ s, canonical s = canonical "" ↔ s = ""

theorem lineTerminator_of_letter (c : Char) (h : asciiLetter c = true) :
    lineTerminator c = false := by
  simp only [asciiLetter, Bool.or_eq_true, Bool.and_eq_true, decide_eq_true_eq] at h
  have hletter : 65 ≤ c.toNat ∧ c.toNat ≤ 90 ∨ 97 ≤ c.toNat ∧ c.toNat ≤ 122 := h
  simp only [lineTerminator, Bool.or_eq_false_iff, Bool.and_eq_false_iff, decide_eq_false_iff_not,
    beq_eq_false_iff_ne]
  omega

namespace Unicode
variable (u : Unicode)

def Equal (s t : String) : Prop := u.canonical s = u.canonical t

instance (s t : String) : Decidable (u.Equal s t) := inferInstanceAs (Decidable (_ = _))

def trimmed (s : String) : String :=
  .ofList (((s.toList.dropWhile u.whitespaceOrNewline).reverse.dropWhile
    u.whitespaceOrNewline).reverse)

def caret : Regex Char := .test fun c => c.before.isEmpty

/-- `$` stands at the end of the text, or before a line terminator that ends it. -/
def dollar : Regex Char := .test fun c =>
  match c.after with
  | [] => true
  | [a] => lineTerminator a && !(a == '\n' && c.before.head? == some '\r')
  | [a, b] => a == '\r' && b == '\n'
  | _ => false

def lookFor (p : Char → Bool) : Regex Char :=
  .look (.seq (.atLeast 0 (.one fun c => !lineTerminator c)) (.one p))

def letterOrDigit (c : Char) : Bool := asciiLetter c || u.decimalDigit c

/-- `^(?=.*[A-Za-z])(?=.*\d)[A-Za-z\d]{8,}$`. -/
def passwordPattern : Regex Char :=
  .seq caret (.seq (lookFor asciiLetter) (.seq (lookFor u.decimalDigit)
    (.seq (.atLeast 8 (.one u.letterOrDigit)) dollar)))

def isPasswordValid (password : String) : Bool := u.passwordPattern.fullMatch password.toList

def Accepted (password : String) : Prop :=
  8 ≤ password.toList.length ∧ (∀ c ∈ password.toList, u.letterOrDigit c = true) ∧
    (∃ c ∈ password.toList, asciiLetter c = true) ∧ ∃ c ∈ password.toList, u.decimalDigit c = true

/-- What the texts of the forms announce. -/
def Announced (password : String) : Prop :=
  8 ≤ password.toList.length ∧ (∃ c ∈ password.toList, u.alphanumeric c = false) ∧
    ∃ c ∈ password.toList, u.decimalDigit c = true

variable {u}

theorem matches_lookFor {p : Char → Bool} {c d : Cursor Char} : (lookFor p).Matches c d ↔
    d = c ∧ ∃ w a rest, c.after = w ++ a :: rest ∧
      (∀ b ∈ w, (!lineTerminator b) = true) ∧ p a = true :=
  Regex.matches_look_one

theorem lineTerminator_of_letterOrDigit {c : Char} (h : u.letterOrDigit c = true) :
    lineTerminator c = false := by
  rcases Bool.or_eq_true _ _ |>.mp h with hletter | hdigit
  · exact lineTerminator_of_letter c hletter
  · exact u.lineTerminator_of_digit c hdigit

/-- In a text of letters and digits, a lookahead for a class finds every character of the class. -/
theorem lookFor_iff {p : Char → Bool} {text : List Char}
    (htext : ∀ c ∈ text, u.letterOrDigit c = true) {before : List Char} :
    (lookFor p).Matches ⟨before, text⟩ ⟨before, text⟩ ↔ ∃ c ∈ text, p c = true := by
  rw [matches_lookFor]
  constructor
  · rintro ⟨-, w, a, rest, hafter, -, ha⟩
    have hmem : a ∈ text := by
      rw [show text = w ++ a :: rest from hafter]
      exact List.mem_append_right _ List.mem_cons_self
    exact ⟨a, hmem, ha⟩
  · rintro ⟨a, hmem, ha⟩
    obtain ⟨w, rest, hafter⟩ := List.append_of_mem hmem
    refine ⟨rfl, w, a, rest, hafter, fun b hb => ?_, ha⟩
    have hb : b ∈ text := by
      rw [hafter]
      exact List.mem_append_left _ hb
    rw [lineTerminator_of_letterOrDigit (htext b hb), Bool.not_false]

theorem isPasswordValid_iff {password : String} :
    u.isPasswordValid password = true ↔ u.Accepted password := by
  rw [isPasswordValid, Regex.fullMatch_iff]
  generalize htext : password.toList = text
  constructor
  · rintro ⟨before, c₁, ⟨rfl, -⟩, c₂, hletter, c₃, hdigit, c₄, hclass, rfl, -⟩
    obtain ⟨rfl, -⟩ := id hletter
    obtain ⟨rfl, -⟩ := id hdigit
    obtain ⟨w, hlen, hw, hspan, -⟩ := Regex.matches_atLeast_one.mp hclass
    obtain rfl : text = w := by simpa using hspan
    unfold Accepted
    rw [htext]
    exact ⟨hlen, hw, (lookFor_iff hw).mp hletter, (lookFor_iff hw).mp hdigit⟩
  · intro h
    unfold Accepted at h
    rw [htext] at h
    obtain ⟨hlen, hw, hletter, hdigit⟩ := h
    refine ⟨text.reverse, ⟨[], text⟩, ⟨rfl, rfl⟩, ⟨[], text⟩, (lookFor_iff hw).mpr hletter,
      ⟨[], text⟩, (lookFor_iff hw).mpr hdigit, ⟨text.reverse, []⟩, ?_, rfl, rfl⟩
    exact Regex.matches_atLeast_one.mpr ⟨text, hlen, hw, (List.append_nil _).symm,
      (List.append_nil _).symm⟩

/-- An accepted password has no special character. -/
theorem Accepted.not_announced {password : String} (h : u.Accepted password) :
    ¬ u.Announced password := by
  rintro ⟨-, ⟨c, hc, hspecial⟩, -⟩
  rcases Bool.or_eq_true _ _ |>.mp (h.2.1 c hc) with hletter | hdigit
  · exact absurd (u.alphanumeric_of_letter c hletter) (by rw [hspecial]; decide)
  · exact absurd (u.alphanumeric_of_digit c hdigit) (by rw [hspecial]; decide)

end Unicode

structure SignUpViewController where
  txtFullName : String
  txtEmail : String
  txtPassword : String
  deriving DecidableEq, Repr

structure ChangePasswordViewController where
  txtCurrentPassword : String
  txtNewPassword : String
  txtRetypeNewPassword : String
  deriving DecidableEq, Repr

def Unicode.Blank (u : Unicode) (text : String) : Prop := u.Equal (u.trimmed text) ""

instance (u : Unicode) (text : String) : Decidable (u.Blank text) :=
  inferInstanceAs (Decidable (u.Equal _ _))

def SignUpViewController.validateFields (u : Unicode) (c : SignUpViewController) : Option String :=
  if u.Blank c.txtFullName ∨ u.Blank c.txtEmail ∨ u.Blank c.txtPassword then
    some "Please fill all fields."
  else if u.isPasswordValid (u.trimmed c.txtPassword) = false then
    some ("Please make sure your password is at least 8 characters, " ++
      "contains a special character and a number.")
  else none

def ChangePasswordViewController.validateFields (u : Unicode) (c : ChangePasswordViewController) :
    Option String :=
  if u.Blank c.txtCurrentPassword ∨ u.Blank c.txtNewPassword ∨ u.Blank c.txtRetypeNewPassword then
    some "Please fill all fields."
  else if ¬ u.Equal (u.trimmed c.txtNewPassword) (u.trimmed c.txtRetypeNewPassword) then
    some "You must enter the same password twice in order to confirm it."
  else if u.isPasswordValid (u.trimmed c.txtNewPassword) = false then
    some ("Please make sure your new password is at least 8 characters, " ++
      "contains a special character and a number.")
  else none

namespace PasswordFields
variable {u : Unicode}

theorem blank_iff {text : String} : u.Blank text ↔ u.trimmed text = "" := u.canonical_eq_empty _

theorem not_blank_of_accepted {text : String} (h : u.Accepted (u.trimmed text)) : ¬ u.Blank text := by
  intro hblank
  have hlen := h.1
  rw [blank_iff.mp hblank] at hlen
  exact absurd hlen (by decide)

theorem blank_congr {s t : String} (h : u.Equal (u.trimmed s) (u.trimmed t)) :
    u.Blank s ↔ u.Blank t := by
  unfold Unicode.Blank Unicode.Equal at *
  rw [h]

theorem signUp_iff (c : SignUpViewController) : c.validateFields u = none ↔
    ¬ u.Blank c.txtFullName ∧ ¬ u.Blank c.txtEmail ∧ u.Accepted (u.trimmed c.txtPassword) := by
  unfold SignUpViewController.validateFields
  rw [← Unicode.isPasswordValid_iff]
  split_ifs with hblank hvalid
  · refine iff_of_false (by simp) ?_
    rintro ⟨hname, hemail, hpassword⟩
    have hnot := not_blank_of_accepted (Unicode.isPasswordValid_iff.mp hpassword)
    exact hblank.elim hname fun h => h.elim hemail hnot
  · simp [hvalid]
  · simp_all

theorem changePassword_iff (c : ChangePasswordViewController) : c.validateFields u = none ↔
    ¬ u.Blank c.txtCurrentPassword ∧
      u.Equal (u.trimmed c.txtNewPassword) (u.trimmed c.txtRetypeNewPassword) ∧
      u.Accepted (u.trimmed c.txtNewPassword) := by
  unfold ChangePasswordViewController.validateFields
  rw [← Unicode.isPasswordValid_iff]
  split_ifs with hblank hequal hvalid
  · refine iff_of_false (by simp) ?_
    rintro ⟨hcurrent, hequal, hpassword⟩
    have hnot := not_blank_of_accepted (Unicode.isPasswordValid_iff.mp hpassword)
    rw [← blank_congr hequal, or_self] at hblank
    exact hblank.elim hcurrent hnot
  · simp [hvalid]
  · rw [not_or] at hblank
    exact iff_of_true rfl ⟨hblank.1, hequal, eq_true_of_ne_false hvalid⟩
  · simp [hequal]

/-- A rule that accepts only what is not announced agrees with the announced one where both
reject. -/
theorem agrees_iff {accepted announced : Prop} (h : accepted → ¬ announced) :
    (accepted ↔ announced) ↔ ¬ accepted ∧ ¬ announced := by
  constructor
  · intro heq
    have hnot : ¬ accepted := fun ha => h ha (heq.mp ha)
    exact ⟨hnot, fun hb => hnot (heq.mpr hb)⟩
  · rintro ⟨ha, hb⟩
    exact iff_of_false ha hb

/-- With the other fields filled in, the two forms follow the announced rule exactly for the passwords
that neither the expression nor the announced rule accepts. -/
theorem validateFields_announced_iff (u : Unicode) :
    (∀ c : SignUpViewController, ¬ u.Blank c.txtFullName → ¬ u.Blank c.txtEmail →
      ((c.validateFields u = none ↔ u.Announced (u.trimmed c.txtPassword)) ↔
        ¬ u.Accepted (u.trimmed c.txtPassword) ∧ ¬ u.Announced (u.trimmed c.txtPassword))) ∧
    ∀ c : ChangePasswordViewController, ¬ u.Blank c.txtCurrentPassword →
      u.Equal (u.trimmed c.txtNewPassword) (u.trimmed c.txtRetypeNewPassword) →
      ((c.validateFields u = none ↔ u.Announced (u.trimmed c.txtNewPassword)) ↔
        ¬ u.Accepted (u.trimmed c.txtNewPassword) ∧ ¬ u.Announced (u.trimmed c.txtNewPassword)) := by
  constructor
  · intro c hname hemail
    have hnone : c.validateFields u = none ↔ u.Accepted (u.trimmed c.txtPassword) := by
      simp [signUp_iff, hname, hemail]
    rw [hnone]
    exact agrees_iff Unicode.Accepted.not_announced
  · intro c hcurrent hequal
    have hnone : c.validateFields u = none ↔ u.Accepted (u.trimmed c.txtNewPassword) := by
      simp [changePassword_iff, hcurrent, hequal]
    rw [hnone]
    exact agrees_iff Unicode.Accepted.not_announced

def ascii : Unicode where
  decimalDigit c := c.isDigit
  alphanumeric c := asciiLetter c || c.isDigit
  whitespaceOrNewline c := c.isWhitespace
  canonical := id
  alphanumeric_of_letter c h := by rw [h, Bool.true_or]
  alphanumeric_of_digit c h := by rw [h, Bool.or_true]
  lineTerminator_of_digit c h := by
    simp only [Char.isDigit, Bool.and_eq_true, decide_eq_true_eq] at h
    have hdigit : 48 ≤ c.toNat ∧ c.toNat ≤ 57 := h
    simp only [lineTerminator, Bool.or_eq_false_iff, Bool.and_eq_false_iff,
      decide_eq_false_iff_not, beq_eq_false_iff_ne]
    omega
  canonical_eq_empty s := Iff.rfl

def signUpForm (txtPassword : String) : SignUpViewController := ⟨"An", "an@x.y", txtPassword⟩

def changeForm (txtNewPassword : String) : ChangePasswordViewController :=
  ⟨"old", txtNewPassword, txtNewPassword⟩

theorem validateFields_announced_short :
    ((signUpForm "abc 1").validateFields ascii = none ↔ ascii.Announced "abc 1") ∧
      ((changeForm "abc 1").validateFields ascii = none ↔ ascii.Announced "abc 1") := by
  have htrim : ascii.trimmed "abc 1" = "abc 1" := by decide +kernel
  have hshort : ¬ ascii.Accepted "abc 1" ∧ ¬ ascii.Announced "abc 1" :=
    ⟨fun h => absurd h.1 (by decide), fun h => absurd h.1 (by decide)⟩
  obtain ⟨hsignUp, hchange⟩ := validateFields_announced_iff ascii
  have h := hsignUp (signUpForm "abc 1") (by decide +kernel) (by decide +kernel)
  have h' := hchange (changeForm "abc 1") (by decide +kernel) rfl
  simp only [signUpForm, changeForm, htrim] at h h' ⊢
  exact ⟨h.mpr hshort, h'.mpr hshort⟩

/-- A password without a special character is accepted. -/
theorem not_validateFields_announced :
    ¬ ∀ u : Unicode,
      (∀ c : SignUpViewController, ¬ u.Blank c.txtFullName → ¬ u.Blank c.txtEmail →
        (c.validateFields u = none ↔ u.Announced (u.trimmed c.txtPassword))) ∧
      ∀ c : ChangePasswordViewController, ¬ u.Blank c.txtCurrentPassword →
        u.Equal (u.trimmed c.txtNewPassword) (u.trimmed c.txtRetypeNewPassword) →
        (c.validateFields u = none ↔ u.Announced (u.trimmed c.txtNewPassword)) := by
  intro h
  have hnone : (signUpForm "abcd1234").validateFields ascii = none := by decide +kernel
  obtain ⟨-, ⟨c, hc, hspecial⟩, -⟩ :=
    ((h ascii).1 (signUpForm "abcd1234") (by decide +kernel) (by decide +kernel)).mp hnone
  have hall : (ascii.trimmed "abcd1234").toList.all ascii.alphanumeric = true := by decide +kernel
  exact absurd (List.all_eq_true.mp hall c hc) (by rw [hspecial]; decide)

end PasswordFields
end ComicApp
