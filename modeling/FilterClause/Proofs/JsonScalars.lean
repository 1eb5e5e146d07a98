import FilterClause.Json.NumberText
import FilterClause.Json.StringText
import FilterClause.Json.Value
import FilterClause.Proofs.Texts
import Mathlib.Tactic.SplitIfs

/-!
# Written strings and numbers

A string is read back up to its quote, as a quote inside is escaped (`readString_flatMap_escape`).
A number is read back as its digits where nothing stands behind it that could belong to it
(`take_ofNat`), and with its value if that fits 64 bits (`value?_ofNat`).
-/

namespace FilterClause.Json

open Text

@[simp] theorem ok_bind {ε α β : Type} (a : α) (f : α → Except ε β) :
    (Except.ok a >>= f) = f a :=
  rfl

@[simp] theorem map_ok {ε α β : Type} (f : α → β) (a : α) :
    (Except.ok a : Except ε α).map f = .ok (f a) :=
  rfl

/-! ## Strings -/

/-- The controls that are escaped by a letter. -/
def letteredControls : List Char := ['\x08', '\x0c', '\n', '\r', '\t']

/-- The code unit that an escaped character is read as. -/
def CodeUnit.ofChar (c : Char) : CodeUnit :=
  if c < ' ' ∧ c ∉ letteredControls then .code c.toNat else .char c

theorem toNat_lt_of_lt_space {c : Char} (h : c < ' ') : c.toNat < 32 := h

theorem hexCode?_hexDigit : ∀ n < 32,
    hexCode? '0' '0' (hexDigit (n / 16)) (hexDigit (n % 16)) = some n := by
  decide

theorem readUnits_quote (t : Text) : readUnits (doubleQuote :: t) = ([], .ok t) := by
  rw [readUnits.eq_def]
  simp

theorem readUnits_code {n : Nat} (hn : n < 32) (t : Text) :
    readUnits ('\\' :: 'u' :: '0' :: '0' :: hexDigit (n / 16) :: hexDigit (n % 16) :: t) =
      (.code n :: (readUnits t).1, (readUnits t).2) := by
  rw [readUnits]
  simp [hexCode?_hexDigit n hn, doubleQuote]

theorem readUnits_letter {e x : Char} (he : e ≠ 'u') (h : unescape? e = some x) (t : Text) :
    readUnits ('\\' :: e :: t) = (.char x :: (readUnits t).1, (readUnits t).2) := by
  rw [readUnits.eq_def]
  simp [he, h, doubleQuote]

theorem readUnits_plain {c : Char} (hc : ¬ (c = doubleQuote ∨ c = '\\')) (h : ¬ c < ' ')
    (t : Text) : readUnits (c :: t) = (.char c :: (readUnits t).1, (readUnits t).2) := by
  rw [not_or] at hc
  rw [readUnits.eq_def]
  simp [hc.1, hc.2, h]

/-- An escaped character is read as its code unit. -/
theorem readUnits_escape (c : Char) (t : Text) :
    readUnits (escape c ++ t) = (.ofChar c :: (readUnits t).1, (readUnits t).2) := by
  unfold escape
  split_ifs with hquote hb hf hn hr ht hspace
  · rcases (by simpa using hquote : c = doubleQuote ∨ c = '\\') with rfl | rfl
    · exact readUnits_letter (by decide) rfl t
    · exact readUnits_letter (by decide) rfl t
  · subst hb; exact readUnits_letter (by decide) rfl t
  · subst hf; exact readUnits_letter (by decide) rfl t
  · subst hn; exact readUnits_letter (by decide) rfl t
  · subst hr; exact readUnits_letter (by decide) rfl t
  · subst ht; exact readUnits_letter (by decide) rfl t
  · have hunit : CodeUnit.ofChar c = .code c.toNat :=
      if_pos ⟨hspace, by simp [letteredControls, hb, hf, hn, hr, ht]⟩
    rw [hunit]
    exact readUnits_code (toNat_lt_of_lt_space hspace) t
  · have hunit : CodeUnit.ofChar c = .char c := if_neg fun h => hspace h.1
    rw [hunit]
    exact readUnits_plain (by simpa using hquote) hspace t

/-- An escaped text in front of a quote is read up to it. -/
theorem readUnits_flatMap_escape (s t : Text) :
    readUnits (s.flatMap escape ++ doubleQuote :: t) = (s.map .ofChar, .ok t) := by
  induction s with
  | nil => exact readUnits_quote t
  | cons c s ih => rw [List.flatMap_cons, List.append_assoc, readUnits_escape, ih]; rfl

theorem joinUnits_ofChar {result : Except StringFault Text} (c : Char) (units : List CodeUnit) :
    joinUnits result (.ofChar c :: units) = (joinUnits result units).map (c :: ·) := by
  unfold CodeUnit.ofChar
  split_ifs with h
  · have hc := toNat_lt_of_lt_space h.1
    have hleading : isLeading c.toNat = false := by simp [isLeading]; omega
    have htrailing : isTrailing c.toNat = false := by simp [isTrailing]; omega
    rw [joinUnits.eq_def]
    simp [hleading, htrailing]
  · rw [joinUnits]

/-- A written string is read back, whatever follows it. -/
theorem readString_flatMap_escape (s t : Text) :
    readString (s.flatMap escape ++ doubleQuote :: t) = (.ok s, .ok t) := by
  have hjoin : joinUnits (.ok t) (s.map .ofChar) = .ok s := by
    induction s with
    | nil => rw [List.map_nil, joinUnits]
    | cons c s ih => rw [List.map_cons, joinUnits_ofChar, ih]; rfl
  rw [readString, readUnits_flatMap_escape]
  simp only [hjoin]

/-! ## Numbers -/

/-- Nothing that could belong to a number stands at the start of the text. -/
def EndsNumber (t : Text) : Prop :=
  ∀ c ∈ t.head?, c.isDigit = false ∧ c ≠ '.' ∧ c ≠ 'e' ∧ c ≠ 'E'

theorem ofNat_ne_nil (n : Nat) : ofNat n ≠ [] := Nat.toDigits_ne_nil

theorem isDigit_of_mem_ofNat {n : Nat} {c : Char} (h : c ∈ ofNat n) : c.isDigit = true :=
  Nat.isDigit_of_mem_toDigits (by decide) (by decide) h

theorem digitChar_ne_zero : ∀ n < 10, 0 < n → Nat.digitChar n ≠ '0' := by decide

/-- A number but zero has no leading zero. -/
theorem head?_ofNat {n : Nat} (hn : 0 < n) : (ofNat n).head? ≠ some '0' := by
  unfold ofNat
  induction n using Nat.strongRecOn with
  | ind n ih =>
    rw [Nat.toDigits_eq_if (by decide)]
    split_ifs with h
    · simpa using digitChar_ne_zero n h hn
    · have hhead : (Nat.toDigits 10 (n / 10)).head? ≠ none := by simp
      rw [List.head?_append, Option.or_of_isSome (Option.isSome_iff_ne_none.mpr hhead)]
      exact ih (n / 10) (by omega) (by omega)

theorem takeWhole_ofNat (n : Nat) {t : Text} (ht : EndsNumber t) :
    NumberText.takeWhole (ofNat n ++ t) = .ok (ofNat n, t) := by
  have hstop : ∀ c ∈ t.head?, c.isDigit = false := fun c hc => (ht c hc).1
  have hdigits : ∀ c ∈ ofNat n, c.isDigit = true := fun c hc => isDigit_of_mem_ofNat hc
  have htake : NumberText.takeDigits (ofNat n ++ t) = .ok (ofNat n, t) := by
    rw [NumberText.takeDigits, takeWhile_append_of_head hdigits hstop,
      dropWhile_append_of_head hdigits hstop, if_neg (by simpa using ofNat_ne_nil n)]
  have hzero : ¬ ((ofNat n).head? = some '0' && (ofNat n).length != 1) = true := by
    rcases Nat.eq_zero_or_pos n with rfl | hn
    · decide
    · simp [head?_ofNat hn]
  rw [NumberText.takeWhole, htake]
  exact if_neg hzero

theorem takeFraction_of_ends {t : Text} (ht : EndsNumber t) :
    NumberText.takeFraction t = .ok (none, t) := by
  unfold NumberText.takeFraction
  split
  · exact absurd rfl (ht '.' rfl).2.1
  · rfl

theorem takeExponent_of_ends {t : Text} (ht : EndsNumber t) :
    NumberText.takeExponent t = .ok (none, t) := by
  unfold NumberText.takeExponent
  split
  · next c rest =>
    obtain ⟨-, -, he, hE⟩ := ht c rfl
    exact if_neg (by simp [he, hE])
  · rfl

/-- A written number is taken back, as its digits alone. -/
theorem take_ofNat (n : Nat) {t : Text} (ht : EndsNumber t) :
    NumberText.take (ofNat n ++ t) = .ok (⟨false, ofNat n, none, none⟩, t) := by
  have hwhole := takeWhole_ofNat n ht
  cases hn : ofNat n with
  | nil => exact absurd hn (ofNat_ne_nil n)
  | cons d digits =>
    have hd : d ≠ '-' := by
      rintro rfl
      exact absurd (isDigit_of_mem_ofNat (hn ▸ List.mem_cons_self)) (by decide)
    rw [hn, List.cons_append] at hwhole
    rw [NumberText.take]
    · simp only [List.cons_append, hwhole, takeFraction_of_ends ht, takeExponent_of_ends ht,
        ok_bind]
      rfl
    · rintro rest hminus
      exact hd (List.cons.inj hminus).1

theorem le_ofDigitChars (t : Text) (n : Nat) : n ≤ Nat.ofDigitChars 10 t n := by
  induction t generalizing n with
  | nil => exact Nat.le_refl n
  | cons c t ih =>
    rw [Nat.ofDigitChars_cons]
    exact Nat.le_trans (by omega) (ih _)

theorem accumulate_eq {t : Text} {n : Nat} (h : Nat.ofDigitChars 10 t n < Nat.pow 2 64) :
    NumberText.accumulate n t = (Nat.ofDigitChars 10 t n, []) := by
  induction t generalizing n with
  | nil => rfl
  | cons c t ih =>
    rw [Nat.ofDigitChars_cons] at h ⊢
    rw [NumberText.accumulate]
    exact (if_pos (Nat.lt_of_le_of_lt (le_ofDigitChars t _) h)).trans (ih h)

/-- The digits of a number of 64 bits have its value. -/
theorem value?_ofNat {n : Nat} (h : n < Nat.pow 2 64) :
    NumberText.value? ⟨false, ofNat n, none, none⟩ = some (.natural n) := by
  have hvalue : Nat.ofDigitChars 10 (ofNat n) 0 = n := Nat.ofDigitChars_ten_toDigits
  have hacc : NumberText.accumulate 0 (ofNat n) = (n, []) := by
    rw [accumulate_eq (by rwa [hvalue]), hvalue]
  simp [NumberText.value?, hacc]

end FilterClause.Json
