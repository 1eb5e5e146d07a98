import FilterClause.Clause.Normal
import FilterClause.Proofs.QuotedValues
import FilterClause.Proofs.TokenPlaces

/-!
# LIKE in three notions of letter case

LIKE is found in a text in any letter case there is, told from other operators in any ASCII letter
case, and written with its ASCII letters in capitals. The three part at one letter: the Kelvin sign
is a case sibling of `K`. So the operators that are found are written as the known ones and matched
as patterns exactly when no Kelvin sign is in them (`Token.operator_agrees_iff`).
-/

namespace FilterClause

open Text

/-! ## The Kelvin sign -/

section Kelvin

variable {s : Text} (h : s.map foldLetter = ['l', 'i', 'k', 'e'])

include h

/-- A spelling of LIKE is one in ASCII unless it holds the Kelvin sign. -/
theorem sameIgnoringCase_like_iff :
    sameIgnoringCase s ['L', 'I', 'K', 'E'] = true ↔ '\u212a' ∉ s := by
  constructor
  · intro hsame hmem
    exact absurd (isAlphanum_of_sameIgnoringCase hsame (by decide) _ hmem) (by decide)
  · intro hmem
    rw [sameIgnoringCase_iff, show ['L', 'I', 'K', 'E'].map Char.toLower = ['l', 'i', 'k', 'e']
      from rfl, ← h]
    refine List.map_congr_left fun c hc => ?_
    rw [foldLetter, if_neg]
    rintro rfl
    exact hmem hc

/-- In capitals a spelling of LIKE is the keyword unless it holds the Kelvin sign. -/
theorem upper_like_iff : upper s = ['L', 'I', 'K', 'E'] ↔ '\u212a' ∉ s := by
  constructor
  · intro hupper hmem
    have hkelvin : '\u212a'.toUpper ∈ upper s := List.mem_map_of_mem hmem
    rw [hupper] at hkelvin
    exact absurd hkelvin (by decide)
  · intro hmem
    exact upper_of_sameIgnoringCase ((sameIgnoringCase_like_iff h).mpr hmem) (by decide)

end Kelvin

namespace Token

/-! ## Operators that are found -/

/-- The operators as they are written. -/
def operators : List Text := signs ++ [['L', 'I', 'K', 'E']]

theorem spellsOperator_of_mem_ofText {offset : Nat} {u : Text} {t : Token}
    (ht : t ∈ ofText offset u) (hop : t.kind = .operator) : SpellsOperator t.text := by
  have hfill : (⟨[], []⟩ : Places).fill t = .operator t.text := by rw [Places.fill, hop]
  have hmem : Lexeme.operator t.text ∈ Lexeme.ofText u := by
    rw [← hfill, ← Lexeme.map_fill_ofText _ offset u]
    exact List.mem_map_of_mem ht
  obtain ⟨rest, kind, n, -, hl, he⟩ := Lexeme.exists_of_mem_ofText hmem
  cases kind with
  | operator =>
    rw [Lexeme.operator.inj he]
    exact spellsOperator_of_operatorLength? (operatorLength?_of_lexeme? hl)
  | word => cases he
  | call => cases he
  | literal index => cases he
  | group index => cases he

/-- An operator is a sign or a spelling of LIKE, whatever the segments are. -/
theorem spellsOperator_of_mem {offset : Nat} {segments : List Segment} {t : Token}
    (ht : t ∈ behind offset segments) (hop : t.kind = .operator) : SpellsOperator t.text := by
  induction segments generalizing offset with
  | nil => cases ht
  | cons s segments ih =>
    rw [behind_cons] at ht
    rcases List.mem_append.mp ht with ht | ht
    · cases s with
      | text u => exact spellsOperator_of_mem_ofText (Row.tokens_ofScan offset _ ▸ ht) hop
      | call u =>
        cases List.mem_singleton.mp ht
        cases hop
      | literal index =>
        cases List.mem_singleton.mp ht
        cases hop
      | group index =>
        cases List.mem_singleton.mp ht
        cases hop
    · exact ih ht

theorem kelvin_not_mem_of_mem_signs {s : Text} (h : s ∈ signs) : '\u212a' ∉ s :=
  (by decide : ∀ r ∈ signs, '\u212a' ∉ r) s h

/-- An operator in capitals is one of the known ones unless the Kelvin sign is in it. -/
theorem SpellsOperator.upper_mem_operators_iff {s : Text} (h : SpellsOperator s) :
    Text.upper s ∈ operators ↔ '\u212a' ∉ s := by
  rw [operators, List.mem_append, List.mem_singleton]
  rcases h with hsign | hlike
  · rw [upper_of_mem_signs hsign]
    exact iff_of_true (.inl hsign) (kelvin_not_mem_of_mem_signs hsign)
  · rw [← upper_like_iff hlike, or_iff_right]
    -- No sign is as long as LIKE.
    intro hsign
    have hlen : (Text.upper s).length = 4 := by
      rw [Text.upper, List.length_map]
      simpa using congrArg List.length hlike
    exact (by decide : ∀ r ∈ signs, r.length ≠ 4) _ hsign hlen

/-- What an operator is written as and how a quoted value behind it is written: an operator in
capitals is one of the known ones exactly if the Kelvin sign is not in it, and an operator that is
none of the signs has its quoted values between two `%` exactly if the Kelvin sign is not in it. -/
theorem operator_agrees_iff {segments : List Segment} {t : Token} (ht : t ∈ ofSegments segments)
    (hop : t.kind = .operator) :
    (upper t.text ∈ operators ↔ '\u212a' ∉ t.text) ∧
    ∀ (c : Comparison) (p : Places) (options : Options), c.operator = t.text → t.text ∉ signs →
      c.needsQuotes p options = true →
      (c.renderValue p options = quoteValue ('%' :: c.inner p ++ ['%']) ↔ '\u212a' ∉ t.text) ∧
      (c.renderValue p options = quoteValue (c.inner p) ↔ '\u212a' ∈ t.text) := by
  have hspells := spellsOperator_of_mem ht hop
  refine ⟨hspells.upper_mem_operators_iff, fun c p options hoperator hsign hquotes => ?_⟩
  have hlike : c.isLike = true ↔ '\u212a' ∉ t.text := by
    rw [Comparison.isLike, hoperator]
    exact sameIgnoringCase_like_iff (hspells.resolve_left hsign)
  -- The two ways to write a value differ, in their lengths already.
  have hdiffer : quoteValue ('%' :: c.inner p ++ ['%']) ≠ quoteValue (c.inner p) := by
    intro e
    have hpercent : '%' ≠ singleQuote := by decide
    have hlen := congrArg List.length e
    simp only [quoteValue, List.cons_append, List.flatMap_cons, List.flatMap_append,
      if_neg hpercent, List.length_cons, List.length_append] at hlen
    omega
  rw [Comparison.renderValue, if_pos hquotes]
  by_cases hkelvin : '\u212a' ∈ t.text
  · rw [if_neg fun h => hlike.mp h hkelvin]
    exact ⟨iff_of_false hdiffer.symm (not_not_intro hkelvin), iff_of_true rfl hkelvin⟩
  · rw [if_pos (hlike.mpr hkelvin)]
    exact ⟨iff_of_true rfl hkelvin, iff_of_false hdiffer hkelvin⟩

/-- A LIKE in small letters, which is written in capitals and matches a pattern. -/
theorem operator_agrees_small :
    upper "like".toList ∈ operators ∧
      (⟨['A'], "like".toList, [⟨.word, ['b'], 7⟩]⟩ : Comparison).renderValue ⟨[], []⟩
        Options.standard = "'%b%'".toList := by
  have ht : ⟨.operator, "like".toList, 2⟩ ∈ ofSegments [.text "A like b".toList] := by
    decide +kernel
  obtain ⟨hupper, hvalue⟩ := operator_agrees_iff ht rfl
  exact ⟨hupper.mpr (by decide), (hvalue ⟨['A'], "like".toList, [⟨.word, ['b'], 7⟩]⟩ ⟨[], []⟩
    Options.standard rfl (by decide) (by decide +kernel)).1.mpr (by decide)⟩

/-- A LIKE that is spelled with the Kelvin sign is an operator, but it is not written as LIKE and
matches no pattern. -/
theorem kelvin_like_disagrees :
    cleanClause "A LI\u212aE b".toList = "A LI\u212aE 'b'".toList ∧
    ¬ ∀ (segments : List Segment) (t : Token), t ∈ ofSegments segments → t.kind = .operator →
      upper t.text ∈ operators ∧
      ∀ (c : Comparison) (p : Places) (options : Options), c.operator = t.text →
        t.text ∉ signs → c.needsQuotes p options = true →
        c.renderValue p options = quoteValue ('%' :: c.inner p ++ ['%']) := by
  refine ⟨by decide +kernel, fun h => ?_⟩
  have ht : ⟨.operator, "LI\u212aE".toList, 2⟩ ∈ ofSegments [.text "A LI\u212aE b".toList] := by
    decide +kernel
  exact absurd (h _ _ ht rfl).1 (by decide)

end Token

end FilterClause
