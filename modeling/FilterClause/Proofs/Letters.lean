import FilterClause.Clause.Token
import FilterClause.Clause.Item
import FilterClause.Clause.Literal
import Mathlib.Tactic.ByContra

/-!
# How the classes of characters lie to each other

A blank belongs to no other class, and a character that stands in no name is no letter of a
keyword. On ASCII the classes are known outright.
-/

namespace FilterClause

namespace Text

/-! ## Deciding along a text -/

-- Without these a bound over the characters of a text is decided over every character there is.
instance (priority := high) decidableForallMem (p : Char → Prop) [DecidablePred p] (t : Text) :
    Decidable (∀ c ∈ t, p c) :=
  List.decidableBAll p t

instance (priority := high) decidableForallMemOption (p : Char → Prop) [DecidablePred p]
    (o : Option Char) : Decidable (∀ c ∈ o, p c) :=
  decidable_of_iff (∀ c ∈ o.toList, p c) (by simp)

/-! ## ASCII -/

/-- What holds of the first 128 characters one by one holds of every one of them. -/
theorem forall_ascii {P : Char → Prop} (h : ∀ n : Nat, n < 128 → P (Char.ofNat n)) {c : Char}
    (hc : c.toNat < 128) : P c := by
  have hp := h c.toNat hc
  rwa [Char.ofNat_toNat] at hp

/-- The characters of words and of names in ASCII. -/
theorem classes_of_ascii {c : Char} (h : c.toNat < 128) :
    isWord c = (c.isAlphanum || c == '_') ∧ isName c = (c.isAlphanum || c == '_') ∧
      isWordDigit c = c.isDigit :=
  forall_ascii (P := fun c => isWord c = (c.isAlphanum || c == '_') ∧
    isName c = (c.isAlphanum || c == '_') ∧ isWordDigit c = c.isDigit) (by decide +kernel) h

theorem toNat_lt_of_toLower {c : Char} (h : c.toLower.toNat < 128) : c.toNat < 128 := by
  unfold Char.toLower at h
  split at h
  · next hc =>
    have hz : c.toNat ≤ 'Z'.toNat := hc.2
    have : 'Z'.toNat = 90 := rfl
    omega
  · exact h

theorem toNat_lt_of_isAlphanum {c : Char} (h : c.isAlphanum = true) : c.toNat < 128 := by
  have hclass : ((c.isUpper || c.isLower) || c.isDigit) = true := h
  rw [Bool.or_eq_true, Bool.or_eq_true] at hclass
  rcases hclass with (hupper | hlower) | hdigit
  · have hz : c.toNat ≤ 90 := (of_decide_eq_true hupper).2
    omega
  · have hz : c.toNat ≤ 122 := of_decide_eq_true (Bool.and_eq_true_iff.mp hlower).2
    omega
  · have hz : c.toNat ≤ 57 := of_decide_eq_true (Bool.and_eq_true_iff.mp hdigit).2
    omega

/-- An ASCII letter or digit may stand in words and in names. -/
theorem isWord_and_isName_of_isAlphanum {c : Char} (h : c.isAlphanum = true) :
    isWord c = true ∧ isName c = true := by
  obtain ⟨hword, hname, -⟩ := classes_of_ascii (toNat_lt_of_isAlphanum h)
  rw [hword, hname, h]
  exact ⟨rfl, rfl⟩

/-! ## Blanks -/

/-- The characters with the property White_Space. -/
def blanks : List Char :=
  ['\t', '\n', '\x0b', '\x0c', '\r', ' ', '\u0085', '\u00a0', '\u1680', '\u2000', '\u2001',
   '\u2002', '\u2003', '\u2004', '\u2005', '\u2006', '\u2007', '\u2008', '\u2009', '\u200a',
   '\u2028', '\u2029', '\u202f', '\u205f', '\u3000']

theorem mem_blanks_of_isBlank {c : Char} (h : isBlank c = true) : c ∈ blanks := by
  have hc : c = Char.ofNat c.toNat := (Char.ofNat_toNat c).symm
  simp only [isBlank, Bool.or_eq_true, Bool.and_eq_true, beq_iff_eq, decide_eq_true_eq] at h
  have hmem : c.toNat ∈ blanks.map Char.toNat := by
    rw [show blanks.map Char.toNat =
      [9, 10, 11, 12, 13, 32, 133, 160, 5760, 8192, 8193, 8194, 8195, 8196, 8197, 8198, 8199,
       8200, 8201, 8202, 8232, 8233, 8239, 8287, 12288] from rfl]
    simp only [List.mem_cons, List.not_mem_nil, or_false]
    omega
  obtain ⟨d, hd, e⟩ := List.mem_map.mp hmem
  rw [hc, ← e, Char.ofNat_toNat]
  exact hd

section Blank

variable {c : Char} (h : isBlank c = true)

include h

/-- A blank is none of the marks that a clause gives a meaning to. -/
theorem ne_of_isBlank {d : Char} (hd : isBlank d = false) : c ≠ d := by
  rintro rfl
  rw [h] at hd
  exact Bool.noConfusion hd

theorem not_isWord_and_not_isName_of_isBlank : isWord c = false ∧ isName c = false :=
  (by decide +kernel : ∀ b ∈ blanks, isWord b = false ∧ isName b = false) c
    (mem_blanks_of_isBlank h)

theorem isWord_of_isBlank : isWord c = false := (not_isWord_and_not_isName_of_isBlank h).1

theorem isName_of_isBlank : isName c = false := (not_isWord_and_not_isName_of_isBlank h).2

theorem isWordPart_of_isBlank : Token.isWordPart c = false := by
  have hmark : ∀ d, isBlank d = false → (c == d) = false := fun d hd =>
    beq_eq_false_iff_ne.mpr (ne_of_isBlank h hd)
  rw [Token.isWordPart, isWord_of_isBlank h, hmark '.' rfl, hmark '%' rfl, hmark ':' rfl,
    hmark '+' rfl, hmark '-' rfl]
  rfl

theorem isWordDigit_of_isBlank : isWordDigit c = false := by
  have hw := isWord_of_isBlank h
  cases hd : isWordDigit c with
  | false => rfl
  | true => rw [isWord_of_isWordDigit hd] at hw; exact hw

theorem isQuote_of_isBlank : Lifted.isQuote c = false := by
  have hsingle : c ≠ singleQuote := ne_of_isBlank h rfl
  have hdouble : c ≠ doubleQuote := ne_of_isBlank h rfl
  simp [Lifted.isQuote, hsingle, hdouble]

end Blank

theorem isBlank_of_isWordPart {c : Char} (h : Token.isWordPart c = true) : isBlank c = false := by
  by_contra hb
  rw [isWordPart_of_isBlank (by simpa using hb)] at h
  cases h

theorem isBlank_of_isWord {c : Char} (h : isWord c = true) : isBlank c = false :=
  isBlank_of_isWordPart (by simp [Token.isWordPart, h])

theorem isBlank_of_isName {c : Char} (h : isName c = true) : isBlank c = false := by
  by_contra hb
  rw [isName_of_isBlank (by simpa using hb)] at h
  cases h

theorem isBlank_of_isWordDigit {c : Char} (h : isWordDigit c = true) : isBlank c = false :=
  isBlank_of_isWord (isWord_of_isWordDigit h)

theorem not_isWord_of_not_isWordPart {c : Char} (h : Token.isWordPart c = false) :
    isWord c = false := by
  cases hw : isWord c with
  | false => rfl
  | true => simp [Token.isWordPart, hw] at h

/-- A character of words that may stand in names is a word character, not one of the signs. -/
theorem isWord_of_isWordPart_of_isName {c : Char} (h : Token.isWordPart c = true)
    (hname : isName c = true) : isWord c = true := by
  simp only [Token.isWordPart, Bool.or_eq_true, beq_iff_eq] at h
  rcases h with ((((h | rfl) | rfl) | rfl) | rfl) | rfl
  · exact h
  all_goals
    rw [(classes_of_ascii (by decide)).2.1] at hname
    exact absurd hname (by decide)

/-! ## Marks -/

/-- The marks that a clause gives a meaning to. -/
def marks : List Char := ['=', '<', '>', '!', '(', ')', singleQuote, doubleQuote]

theorem classes_of_mem_marks {c : Char} (h : c ∈ marks) :
    isWord c = false ∧ isName c = false ∧ isWordDigit c = false := by
  obtain ⟨hascii, halnum, hdigit⟩ := (by decide : ∀ d ∈ marks, d.toNat < 128 ∧
    (d.isAlphanum || d == '_') = false ∧ d.isDigit = false) c h
  obtain ⟨hword, hname, hwordDigit⟩ := classes_of_ascii hascii
  exact ⟨hword.trans halnum, hname.trans halnum, hwordDigit.trans hdigit⟩

theorem isWordPart_of_mem_marks (c : Char) (h : c ∈ marks) : Token.isWordPart c = false := by
  have hsign := (by decide : ∀ d ∈ marks,
    (d == '.' || d == '%' || d == ':' || d == '+' || d == '-') = false) c h
  rw [Token.isWordPart, (classes_of_mem_marks h).1, Bool.false_or]
  exact hsign

theorem isName_of_mem_marks (c : Char) (h : c ∈ marks) : isName c = false :=
  (classes_of_mem_marks h).2.1

theorem not_mem_marks_of_isWordPart {c : Char} (h : Token.isWordPart c = true) : c ∉ marks := by
  intro hc
  rw [isWordPart_of_mem_marks c hc] at h
  cases h

/-! ## Letter case -/

theorem isAlphanum_of_toLower {c : Char} (h : c.toLower.isAlphanum = true) :
    c.isAlphanum = true := by
  unfold Char.toLower at h
  split at h
  · next hc =>
    have hupper : c.isUpper = true := decide_eq_true hc
    show ((c.isUpper || c.isLower) || c.isDigit) = true
    rw [hupper]
    rfl
  · exact h

theorem foldLetter_of_lt {c : Char} (h : c.toNat < 128) : foldLetter c = c.toLower := by
  have hne : c ≠ '\u212a' := by
    rintro rfl
    exact absurd h (by decide)
  rw [foldLetter, if_neg hne]

theorem toUpper_of_le {c : Char} (h : 128 ≤ c.toNat) : c.toUpper = c := by
  unfold Char.toUpper
  split
  · next hz =>
    have hle : c.toNat ≤ 'z'.toNat := hz.2
    have : 'z'.toNat = 122 := rfl
    omega
  · rfl

/-- A character in capitals is the character itself or a letter. -/
theorem mem_upper {t : Text} {c : Char} (h : c ∈ upper t) : c ∈ t ∨ c.isAlphanum = true := by
  obtain ⟨d, hd, rfl⟩ := List.mem_map.mp h
  by_cases hd' : d.toNat < 128
  · have key : d.toUpper = d ∨ d.toUpper.isAlphanum = true :=
      forall_ascii (P := fun d => d.toUpper = d ∨ d.toUpper.isAlphanum = true) (by decide) hd'
    rcases key with hsame | halnum
    · exact .inl (hsame.symm ▸ hd)
    · exact .inr halnum
  · exact .inl ((toUpper_of_le (Nat.le_of_not_lt hd')).symm ▸ hd)

/-- Capitals are compared with keywords like small letters. -/
theorem foldLetter_toUpper (c : Char) : foldLetter c.toUpper = foldLetter c := by
  by_cases hc : c.toNat < 128
  · exact forall_ascii (P := fun c => foldLetter c.toUpper = foldLetter c) (by decide) hc
  · rw [toUpper_of_le (Nat.le_of_not_lt hc)]

section Same

variable {s t : Text} (h : sameIgnoringCase s t = true)
  (ht : ∀ c ∈ t.map Char.toLower, c.isAlphanum = true)

include h ht

/-- A spelling of ASCII letters and digits is made of them. -/
theorem isAlphanum_of_sameIgnoringCase : ∀ c ∈ s, c.isAlphanum = true := by
  intro c hc
  have hmem : c.toLower ∈ s.map Char.toLower := List.mem_map_of_mem hc
  rw [sameIgnoringCase_iff.mp h] at hmem
  exact isAlphanum_of_toLower (ht _ hmem)

theorem isWordPart_of_sameIgnoringCase : ∀ c ∈ s, Token.isWordPart c = true := by
  intro c hc
  have halnum := isAlphanum_of_sameIgnoringCase h ht c hc
  simp [Token.isWordPart, (isWord_and_isName_of_isAlphanum halnum).1]

theorem map_foldLetter_of_sameIgnoringCase : s.map foldLetter = t.map Char.toLower := by
  rw [← sameIgnoringCase_iff.mp h]
  exact List.map_congr_left fun c hc =>
    foldLetter_of_lt (toNat_lt_of_isAlphanum (isAlphanum_of_sameIgnoringCase h ht c hc))

theorem upper_of_sameIgnoringCase : upper s = (t.map Char.toLower).map Char.toUpper := by
  have key : ∀ c : Char, c.toNat < 128 → c.toUpper = c.toLower.toUpper := fun c hc =>
    forall_ascii (P := fun c => c.toUpper = c.toLower.toUpper) (by decide) hc
  rw [upper, ← sameIgnoringCase_iff.mp h, List.map_map]
  exact List.map_congr_left fun c hc =>
    key c (toNat_lt_of_isAlphanum (isAlphanum_of_sameIgnoringCase h ht c hc))

end Same

/-! ## Letters of keywords -/

/-- The small letters that keywords are compared with. -/
def keywordLetters : List Char := ['w', 'h', 'e', 'r', 'l', 'i', 'k', 'm', 't']

/-- A spelling of a keyword has letters of keywords. -/
theorem foldLetter_mem_of_spelling {keyword w : Text} (hw : w.map foldLetter = keyword)
    (hk : ∀ k ∈ keyword, k ∈ keywordLetters) : ∀ c ∈ w, foldLetter c ∈ keywordLetters :=
  fun _ hc => hk _ (hw ▸ List.mem_map_of_mem hc)

/-- What holds of the letters of keywords in ASCII and of the Kelvin sign holds of them all. -/
theorem of_foldLetter {P : Char → Prop} {c : Char} (h : foldLetter c ∈ keywordLetters)
    (ascii : ∀ n : Nat, n < 128 → foldLetter (Char.ofNat n) ∈ keywordLetters → P (Char.ofNat n))
    (kelvin : P '\u212a') : P c := by
  by_cases hk : c = '\u212a'
  · exact hk ▸ kelvin
  · have hl : foldLetter c = c.toLower := by rw [foldLetter, if_neg hk]
    have hlt : c.toLower.toNat < 128 := by
      rw [hl] at h
      exact (by decide : ∀ k ∈ keywordLetters, k.toNat < 128) _ h
    exact forall_ascii (P := fun c => foldLetter c ∈ keywordLetters → P c) ascii
      (toNat_lt_of_toLower hlt) h

/-- A letter of a keyword may stand in words and in names, and it is no digit. -/
theorem classes_of_foldLetter {c : Char} (h : foldLetter c ∈ keywordLetters) :
    isWord c = true ∧ isName c = true ∧ isWordDigit c = false := by
  refine of_foldLetter (P := fun c => isWord c = true ∧ isName c = true ∧ isWordDigit c = false) h
    (fun n hn hk => ?_) (by decide +kernel)
  have hletter : ∀ n : Nat, n < 128 → foldLetter (Char.ofNat n) ∈ keywordLetters →
      (Char.ofNat n).isAlphanum = true ∧ (Char.ofNat n).isDigit = false := by decide
  obtain ⟨halnum, hdigit⟩ := hletter n hn hk
  obtain ⟨hword, hname⟩ := isWord_and_isName_of_isAlphanum halnum
  exact ⟨hword, hname, (classes_of_ascii (toNat_lt_of_isAlphanum halnum)).2.2.trans hdigit⟩

theorem isWord_of_foldLetter {c : Char} (h : foldLetter c ∈ keywordLetters) : isWord c = true :=
  (classes_of_foldLetter h).1

theorem isName_of_foldLetter {c : Char} (h : foldLetter c ∈ keywordLetters) : isName c = true :=
  (classes_of_foldLetter h).2.1

theorem isWordDigit_of_foldLetter {c : Char} (h : foldLetter c ∈ keywordLetters) :
    isWordDigit c = false :=
  (classes_of_foldLetter h).2.2

end Text

namespace Item

/-- A blank is no bracket. -/
theorem not_bracket_of_isBlank {b : Char} (h : Text.isBlank b = true) :
    char b ≠ .char '(' ∧ char b ≠ .char ')' :=
  ⟨fun e => Text.ne_of_isBlank h (by decide) (char.inj e),
    fun e => Text.ne_of_isBlank h (by decide) (char.inj e)⟩

section Blanks

variable {bs : Text} (h : ∀ b ∈ bs, Text.isBlank b = true)

include h

theorem not_bracket_of_mem_blanks : ∀ i ∈ bs.map char, i ≠ .char '(' ∧ i ≠ .char ')' := by
  intro i hi
  obtain ⟨b, hb, rfl⟩ := List.mem_map.mp hi
  exact not_bracket_of_isBlank (h b hb)

theorem isName_of_mem_blanks : ∀ i ∈ bs.map char, i.isName = false := by
  intro i hi
  obtain ⟨b, hb, rfl⟩ := List.mem_map.mp hi
  exact Text.isName_of_isBlank (h b hb)

end Blanks

end Item

end FilterClause
