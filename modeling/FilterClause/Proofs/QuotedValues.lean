import FilterClause.Proofs.Quoting
import FilterClause.Proofs.SqlLiterals

/-!
# Quoted values as SQL literals

A value that is to be quoted is written as one SQL literal, whatever it is made of. What the literal
means is the value without wildcards at its ends, between two wildcards if it is matched as a
pattern (`Comparison.quotedAs`): trimming comes before the doubling of apostrophes, so it can never
break up a pair of them.
-/

namespace FilterClause

open Text

namespace Text

/-- A text is another one without the characters of a class at its ends. -/
structure Stripped (p : Char → Bool) (t s : Text) : Prop where
  between : ∃ l r, t = l ++ s ++ r ∧ (∀ c ∈ l, p c = true) ∧ ∀ c ∈ r, p c = true
  head : ∀ c ∈ s.head?, p c = false
  last : ∀ c ∈ s.getLast?, p c = false

/-- Nothing else is left of a text when its ends are trimmed. -/
theorem stripped_iff {p : Char → Bool} {t s : Text} : Stripped p t s ↔ s = dropEnds p t := by
  constructor
  · rintro ⟨⟨l, r, rfl, hl, hr⟩, hhead, hlast⟩
    exact (dropEnds_padded hl hr hhead hlast).symm
  · rintro rfl
    exact ⟨exists_eq_append_dropEnds p t, head?_dropEnds t, getLast?_dropEnds t⟩

end Text

namespace Comparison

/-- A comparison whose value is written as a literal. -/
structure QuotedAs (c : Comparison) (p : Places) (options : Options) (literal inner : Text) :
    Prop where
  text : c.render p options = c.column ++ ' ' :: upper c.operator ++ ' ' :: literal
  /-- The literal ends with its last character. -/
  reads : Sql.readLiteral literal = some (if c.isLike then '%' :: inner ++ ['%'] else inner, [])
  /-- A literal on its own loses quotes and wildcards at its ends. -/
  alone : ∀ index text offset, c.value = [⟨.literal index, text, offset⟩] →
    Stripped (fun x => x == '%' || x == singleQuote || x == doubleQuote) (p.literal index) inner
  /-- Any other value, literals unquoted and groups between brackets, loses wildcards. -/
  mixed : (∀ index text offset, c.value ≠ [⟨.literal index, text, offset⟩]) →
    Stripped (· == '%') (joinSpaced (c.value.map p.renderBare)) inner
  head : inner.head? ≠ some '%'
  last : inner.getLast? ≠ some '%'

/-- A value that is to be quoted stays one literal and keeps its meaning. -/
theorem quotedAs (c : Comparison) (p : Places) (options : Options)
    (h : c.needsQuotes p options = true) :
    ∃ literal inner, c.QuotedAs p options literal inner := by
  obtain ⟨hhead, hlast⟩ := not_wildcard_inner c p
  refine ⟨quoteValue (c.pattern p), c.inner p, ?_, ?_, ?_, ?_, hhead, hlast⟩
  · rw [render, renderValue, if_pos h, ← pattern]
    exact (if_neg Bool.false_ne_true).trans (by simp)
  · have hend : ([] : Text).head? ≠ some singleQuote := by simp
    have hreads := Sql.readLiteral_quoteValue (c.pattern p) hend
    rwa [List.append_nil] at hreads
  · intro index text offset hvalue
    rw [stripped_iff, inner, hvalue]
  · intro hother
    rw [stripped_iff]
    unfold inner
    split
    · next index text offset hvalue => exact absurd hvalue (hother index text offset)
    · rfl

/-- A pattern made of a literal with an apostrophe, a word and a group that is already quoted. -/
theorem quotedAs_mixed :
    needsQuotes ⟨"Name".toList, "like".toList,
        [⟨.literal 0, [], 10⟩, ⟨.word, "Corp".toList, 11⟩, ⟨.group 0, [], 16⟩]⟩
      ⟨["%O'Brien".toList], ["A = 'x''y'".toList]⟩ .standard = true ∧
    ∃ literal inner, QuotedAs ⟨"Name".toList, "like".toList,
        [⟨.literal 0, [], 10⟩, ⟨.word, "Corp".toList, 11⟩, ⟨.group 0, [], 16⟩]⟩
      ⟨["%O'Brien".toList], ["A = 'x''y'".toList]⟩ .standard literal inner :=
  ⟨by decide +kernel, quotedAs _ _ _ (by decide +kernel)⟩

end Comparison

end FilterClause
