import FilterClause.Proofs.LooseConditions
import FilterClause.Proofs.Quoting

/-!
# Normal forms of loosely written comparisons

A comparison is written from its lexemes: the column, the operator in capitals, and the value, in
quotes or as it is.
-/

namespace FilterClause

open Text

/-! ## Values -/

namespace Comparand

variable (v : Comparand)

theorem isLoneCall_lexemes : Lexeme.isLoneCall v.lexemes = false := by
  rcases v with ⟨first, _ | ⟨x, rest⟩⟩ | _ <;> rfl

theorem map_render_words (first : Word) (rest : List (Gap × Word)) :
    joinSpaced ((lexemes (.words first rest)).map Lexeme.render) = plain (.words first rest) := by
  rw [lexemes, plain, List.map_cons, List.map_map]
  rfl

theorem map_renderBare_words (first : Word) (rest : List (Gap × Word)) :
    joinSpaced ((lexemes (.words first rest)).map Lexeme.renderBare) =
      plain (.words first rest) := by
  rw [lexemes, plain, List.map_cons, List.map_map]
  rfl

/-- Words and the spaces between them. -/
theorem mem_plain_words {first : Word} {rest : List (Gap × Word)} {c : Char}
    (h : c ∈ plain (.words first rest)) : c = ' ' ∨ isWordSign c = true := by
  refine (mem_joinSpaced h).imp_right ?_
  rintro ⟨t, ht, hc⟩
  rcases List.mem_cons.mp ht with rfl | ht
  · exact first.signs c hc
  · obtain ⟨⟨gap, word⟩, -, rfl⟩ := List.mem_map.mp ht
    exact word.signs c hc

theorem inner_lexemes : Lexeme.inner v.lexemes = v.inner := by
  cases v with
  | literal q content closed => rfl
  | words first rest =>
    have hinner : Lexeme.inner (lexemes (.words first rest)) =
        dropEnds (· == '%') (joinSpaced ((lexemes (.words first rest)).map Lexeme.renderBare)) := by
      cases rest <;> rfl
    rw [hinner, map_renderBare_words]
    refine dropEnds_of_forall fun c hc => ?_
    rcases mem_plain_words hc with rfl | hsign
    · decide
    · rw [beq_eq_false_iff_ne]
      rintro rfl
      exact absurd hsign (by decide)

/-- Whether a value is a truth value shows in lower case. -/
theorem isBoolean_lexemes :
    Comparison.isBoolean (lower (joinSpaced (v.lexemes.map Lexeme.render))) = v.isTruth := by
  cases v with
  | words first rest =>
    have hascii : ∀ c ∈ plain (.words first rest), c.toNat < 128 := by
      intro c hc
      rcases mem_plain_words hc with rfl | hsign
      · decide
      · exact toNat_lt_of_isWordSign hsign
    have htrue : "true".toList.map Char.toLower = "true".toList := by decide
    have hfalse : "false".toList.map Char.toLower = "false".toList := by decide
    rw [map_render_words, lower_of_ascii hascii, isTruth, sameIgnoringCase, sameIgnoringCase,
      htrue, hfalse, Comparison.isBoolean]
  | literal q content closed =>
    show Comparison.isBoolean (lower (joinSpaced [singleQuote :: content ++ [singleQuote]])) = false
    rw [joinSpaced_singleton, List.cons_append, Comparison.not_isBoolean_quoted]

theorem bare_ne_nil : v.bare ≠ [] := by
  cases v with
  | words first rest =>
    obtain ⟨c, t, ht⟩ := List.exists_cons_of_ne_nil first.nonempty
    rw [bare, plain, ht]
    cases rest with
    | nil => simp
    | cons x rest => simp
  | literal q content closed => exact List.cons_ne_nil _ _

end Comparand

/-! ## Comparators -/

namespace Comparator

variable (o : Comparator)

theorem upper_operator : upper o.operator = o.normal := by
  cases o with
  | sign before s after => cases s <;> rfl
  | like before spelling after =>
    rw [operator, upper_of_sameIgnoringCase spelling.same (by decide)]
    show ("LIKE".toList.map Char.toLower).map Char.toUpper = "LIKE".toList
    decide

theorem length_like (spelling : Spelling "LIKE".toList) : spelling.text.length = 4 := by
  simpa using congrArg List.length (sameIgnoringCase_iff.mp spelling.same)

theorem isRange_operator (column : Text) (value : List Token) :
    Comparison.isRange ⟨column, o.operator, value⟩ = o.isOrder := by
  cases o with
  | sign before s after => cases s <;> rfl
  | like before spelling after =>
    have hlen := length_like spelling
    rw [Comparison.isRange, operator, isOrder, List.contains_eq_mem, decide_eq_false_iff_not]
    intro hmem
    simp only [List.mem_cons, List.not_mem_nil, or_false] at hmem
    rcases hmem with h | h | h | h <;> rw [h] at hlen <;> cases hlen

/-- What is written for a value to be matched, in quotes. -/
theorem pattern_operator (column : Text) (value : List Token) (t : Text) :
    (if Comparison.isLike ⟨column, o.operator, value⟩ then '%' :: t ++ ['%'] else t) =
      o.pattern t := by
  cases o with
  | sign before s after => cases s <;> rfl
  | like before spelling after =>
    have hlike : Comparison.isLike ⟨column, spelling.text, value⟩ = true := spelling.same
    rw [operator, hlike]
    rfl

end Comparator

/-! ## Comparisons -/

/-- Tokens that no connective separates are one comparison, if an operator stands behind a token that
is no group. -/
theorem Condition.renderAll_of_uncut {p : Places} {options : Options} {t u : Token}
    {value : List Token} (hsplit : splitBehind [] (t :: u :: value) = ⟨t :: u :: value, []⟩)
    (hgroup : t.isGroup = false) (hop : u.isOperator = true) :
    renderAll p options (t :: u :: value) =
      Comparison.render ⟨p.render t, u.text, value⟩ p options := by
  rw [renderAll_eq, hsplit]
  show joinSpaced [render p options (t :: u :: value)] = _
  rw [joinSpaced_singleton, render, hgroup, if_neg Bool.false_ne_true, hop, if_pos rfl]

/-- A fragment that is read as a word, an operator and a value is cleaned to the comparison of
them. -/
theorem Fragment.cleaned_comparison (options : Options) (levels : Nat) {text column operator : Text}
    {ls : List Lexeme} (h : Fragment text)
    (hlex : lexemes options levels text = .word column :: .operator operator :: ls)
    (hgroups : groups options levels text = [])
    (hconnective : ∀ l ∈ ls, l.connective? = none) :
    ∃ (p : Places) (value : List Token), value.map p.fill = ls ∧
      cleaned options (levels + 1) text =
        ⟨Comparison.render ⟨column, operator, value⟩ p options, false, false⟩ := by
  obtain ⟨p, hp⟩ : ∃ p, p = places options levels text := ⟨_, rfl⟩
  rw [← map_fill_tokens, ← hp] at hlex
  obtain ⟨t, rest, htokens, ht, hrest⟩ := List.map_eq_cons_iff.mp hlex
  obtain ⟨u, value, rfl, hu, hvalue⟩ := List.map_eq_cons_iff.mp hrest
  have hgroup : t.isGroup = false := by rw [← isGroup_fill p, ht]; rfl
  have hop : u.isOperator = true := by rw [← isOperator_fill p, hu]; rfl
  have hcolumn : p.render t = column := by rw [← render_fill, ht]; rfl
  have hoperator : u.text = operator := by
    rw [fill_of_isOperator hop] at hu
    exact Lexeme.operator.inj hu
  have hsplit : Condition.splitBehind [] (t :: u :: value) = ⟨t :: u :: value, []⟩ := by
    rw [Condition.splitBehind_cons_of_not (Condition.separates_nil t _),
      Condition.splitBehind_of_no_connective fun x hx => ?_]
    · rfl
    · rw [← connective?_fill p]
      rcases List.mem_cons.mp hx with rfl | hx
      · rw [hu]
        rfl
      · exact hconnective _ (hvalue ▸ List.mem_map_of_mem hx)
  refine ⟨p, value, hvalue, ?_⟩
  rw [cleaned_eq options levels h, hgroups, ← hp, htokens,
    Condition.renderAll_of_uncut hsplit hgroup hop, hcolumn, hoperator]
  rfl

namespace LooseCondition

open Fragment

variable {options : Options} (c : LooseCondition options)

/-- Where the value is left as it is, its lexemes give it. -/
theorem render_bare (h : c.isBare = true) :
    joinSpaced (c.value.lexemes.map Lexeme.render) = c.value.bare := by
  cases hv : c.value with
  | words first rest => exact Comparand.map_render_words first rest
  | literal q content closed =>
    have hplain : singleQuote ∉ content := by
      refine c.verbatim ?_ content (by rw [hv]; rfl)
      rw [isBare, hv] at h
      simpa [Comparand.isTruth] using h
    rw [Comparand.bare, quoteValue_of_not_mem hplain]
    exact joinSpaced_singleton _

/-- A comparison of the lexemes is written in normal form. -/
theorem render_comparison {p : Places} {value : List Token}
    (hvalue : value.map p.fill = c.value.lexemes) :
    Comparison.render ⟨c.column.text, c.comparator.operator, value⟩ p options = c.normal := by
  have hcall : Comparison.isCall ⟨c.column.text, c.comparator.operator, value⟩ = false := by
    rw [← isLoneCall_fill p, hvalue, Comparand.isLoneCall_lexemes]
  have hinner : Comparison.inner ⟨c.column.text, c.comparator.operator, value⟩ p =
      c.value.inner := by
    rw [← inner_fill, hvalue, Comparand.inner_lexemes]
  have hneeds : Comparison.needsQuotes ⟨c.column.text, c.comparator.operator, value⟩ p options =
      !c.isBare := by
    rw [Comparison.needsQuotes, hcall, Comparator.isRange_operator, renderAll_fill, hvalue,
      Comparand.isBoolean_lexemes, isBare, Bool.not_or, Bool.not_or, Bool.not_false, Bool.true_and]
  have htext : Comparison.renderValue ⟨c.column.text, c.comparator.operator, value⟩ p options =
      if c.isBare then c.value.bare else quoteValue (c.comparator.pattern c.value.inner) := by
    rw [Comparison.renderValue, hneeds, hinner, Comparator.pattern_operator, renderAll_fill, hvalue]
    cases hbare : c.isBare with
    | true => exact c.render_bare hbare
    | false => rfl
  have hne : (if c.isBare then c.value.bare
      else quoteValue (c.comparator.pattern c.value.inner)).isEmpty = false := by
    split
    · exact List.isEmpty_eq_false_iff.mpr c.value.bare_ne_nil
    · rfl
  rw [Comparison.render, htext]
  dsimp only
  rw [hne, if_neg Bool.false_ne_true, Comparator.upper_operator, normal]

/-- The tokens of a comparison and its lexemes. -/
theorem tokens_text (o : Options) (levels : Nat) :
    ∃ t u value, tokens c.text = t :: u :: value ∧
      (places o levels c.text).fill t = .word c.column.text ∧
      (places o levels c.text).fill u = .operator c.comparator.operator ∧
      value.map (places o levels c.text).fill = c.value.lexemes := by
  have hlex := c.lexemes_text o levels
  rw [← map_fill_tokens] at hlex
  obtain ⟨t, rest, htokens, ht, hrest⟩ := List.map_eq_cons_iff.mp hlex
  obtain ⟨u, value, rfl, hu, hvalue⟩ := List.map_eq_cons_iff.mp hrest
  exact ⟨t, u, value, htokens, ht, hu, hvalue⟩

/-- No token of a comparison is a connective. -/
theorem not_connective (l : Lexeme)
    (h : l ∈ Lexeme.word c.column.text :: .operator c.comparator.operator :: c.value.lexemes) :
    l.connective? = none := by
  have hword : ∀ w : Word, (Lexeme.word w.text).connective? = none := by
    intro w
    simp [Lexeme.connective?, Token.connective?, w.noConnective]
  rcases List.mem_cons.mp h with rfl | h
  · exact hword c.column
  rcases List.mem_cons.mp h with rfl | h
  · rfl
  cases hv : c.value with
  | words first rest =>
    rw [hv, Comparand.lexemes, List.mem_cons, List.mem_map] at h
    rcases h with rfl | ⟨⟨gap, word⟩, -, rfl⟩
    · exact hword first
    · exact hword word
  | literal q content closed =>
    rw [hv, Comparand.lexemes, List.mem_singleton] at h
    rw [h]
    rfl

theorem splitBehind_tokens : Condition.splitBehind [] (tokens c.text) = ⟨tokens c.text, []⟩ := by
  refine Condition.splitBehind_of_no_connective fun t ht => ?_
  rw [← connective?_fill (places ⟨[]⟩ 0 c.text)]
  refine c.not_connective _ ?_
  rw [← c.lexemes_text ⟨[]⟩ 0, ← map_fill_tokens]
  exact List.mem_map_of_mem ht

theorem complete : Complete c.text := by
  obtain ⟨t, u, value, htokens, -⟩ := c.tokens_text ⟨[]⟩ 0
  have hsplit := c.splitBehind_tokens
  rw [Complete, Condition.lastPart, hsplit, htokens]
  rfl

theorem starts : Starts c.text := by
  obtain ⟨t, u, value, htokens, ht, hu, -⟩ := c.tokens_text ⟨[]⟩ 0
  have hword : t.isWord = true := by rw [← isWord_fill (places ⟨[]⟩ 0 c.text), ht]; rfl
  have hop : u.isOperator = true := by rw [← isOperator_fill (places ⟨[]⟩ 0 c.text), hu]; rfl
  rw [Starts, htokens, Condition.startsHere, hword, hop]
  rfl

/-- A comparison is cleaned to its normal form. -/
theorem cleaned_text (levels : Nat) :
    cleaned options (levels + 1) c.text = ⟨c.normal, false, false⟩ := by
  obtain ⟨p, value, hvalue, hcleaned⟩ := cleaned_comparison options levels c.fragment
    (c.lexemes_text options levels) (c.groups_text options levels) fun l hl =>
      c.not_connective l (List.mem_cons_of_mem _ (List.mem_cons_of_mem _ hl))
  rw [hcleaned, c.render_comparison hvalue]

end LooseCondition

end FilterClause
