import FilterClause.Proofs.LowerCase
import FilterClause.Proofs.Spellings

/-!
# Quoted values

What is written between the quotes of a value has lost its wildcards and comes without the quotes
of a literal. Read back as a literal, it gives the same content again, if no quote is left in it
(`render_pattern`). Nothing in a comparison depends on the letter case of its operator.
-/

namespace FilterClause

open Text

/-! ## Truth values -/

/-- An apostrophe is its own lower case. -/
theorem Text.head?_lower_quoted (t : Text) :
    (lower (singleQuote :: t)).head? = some singleQuote := by
  obtain ⟨hne, hlower⟩ := lowerChar_of_ascii (c := singleQuote) (by decide)
  rw [lower, lowerAfter, if_neg hne, hlower]
  rfl

namespace Comparison

/-- Text that starts with an apostrophe is no truth value. -/
theorem not_isBoolean_quoted (t : Text) : isBoolean (lower (singleQuote :: t)) = false := by
  have hne : ∀ u : Text, u.head? ≠ some singleQuote → (lower (singleQuote :: t) == u) = false := by
    intro u hu
    rw [beq_eq_false_iff_ne]
    intro e
    exact hu (e ▸ head?_lower_quoted t)
  rw [isBoolean, hne _ (by decide), hne _ (by decide)]
  rfl

end Comparison

/-! ## Quotes -/

/-- Without apostrophes, quoting adds the quotes and nothing else. -/
theorem quoteValue_of_not_mem {t : Text} (h : singleQuote ∉ t) :
    quoteValue t = singleQuote :: t ++ [singleQuote] := by
  have hself : t.flatMap (fun c => if c = singleQuote then [singleQuote, singleQuote] else [c]) =
      t := by
    induction t with
    | nil => rfl
    | cons c t ih =>
      rw [List.mem_cons, not_or] at h
      rw [List.flatMap_cons, if_neg (Ne.symm h.1), ih h.2, List.singleton_append]
  rw [quoteValue, hself]

/-! ## Operators in capitals -/

namespace Text

/-- Capitals are their own capitals. -/
theorem upper_upper (t : Text) : upper (upper t) = upper t := by
  rw [upper, upper, List.map_map]
  refine List.map_congr_left fun c _ => ?_
  by_cases hc : c.toNat < 128
  · exact forall_ascii (P := fun c => c.toUpper.toUpper = c.toUpper) (by decide) hc
  · have hsame := toUpper_of_le (Nat.le_of_not_lt hc)
    rw [Function.comp_apply, hsame, hsame]

theorem sameIgnoringCase_upper (s t : Text) :
    sameIgnoringCase (upper s) t = sameIgnoringCase s t := by
  have hlower : (upper s).map Char.toLower = s.map Char.toLower := by
    rw [upper, List.map_map]
    refine List.map_congr_left fun c _ => ?_
    by_cases hc : c.toNat < 128
    · exact forall_ascii (P := fun c => c.toUpper.toLower = c.toLower) (by decide) hc
    · rw [Function.comp_apply, toUpper_of_le (Nat.le_of_not_lt hc)]
  rw [sameIgnoringCase, sameIgnoringCase, hlower]

end Text

namespace Comparison

variable {c d : Comparison} {p q : Places} {options : Options}

theorem isLike_upper (h : d.operator = upper c.operator) : d.isLike = c.isLike := by
  rw [isLike, isLike, h, sameIgnoringCase_upper]

theorem isRange_upper (hop : Token.SpellsOperator c.operator)
    (h : d.operator = upper c.operator) : d.isRange = c.isRange := by
  rw [isRange, isRange, h]
  rcases hop with hsign | hlike
  · rw [Token.upper_of_mem_signs hsign]
  · have hnot : ∀ s : Text, s.length = 4 →
        [['>'], ['<'], ['>', '='], ['<', '=']].contains s = false := by
      intro s hs
      rw [List.contains_eq_mem, decide_eq_false_iff_not]
      intro hm
      have hshort : ∀ r ∈ [['>'], ['<'], ['>', '='], ['<', '=']], r.length < 4 := by decide
      exact absurd hs (Nat.ne_of_lt (hshort s hm))
    have hlen : c.operator.length = 4 := by simpa using congrArg List.length hlike
    rw [hnot _ hlen, hnot _ (by rw [upper, List.length_map, hlen])]

/-- The operator may be written in capitals beforehand. -/
theorem render_upper (hop : Token.SpellsOperator c.operator) (hcolumn : d.column = c.column)
    (hoperator : d.operator = upper c.operator) (hvalue : d.value = c.value) :
    d.render p options = c.render p options := by
  have hquotes : d.needsQuotes p options = c.needsQuotes p options := by
    rw [needsQuotes, needsQuotes, isRange_upper hop hoperator, hcolumn, hvalue, isCall, isCall,
      hvalue]
  have hwritten : d.renderValue p options = c.renderValue p options := by
    rw [renderValue, renderValue, hquotes, isLike_upper hoperator, inner, inner, hvalue]
  rw [render, render, hwritten, hcolumn, hoperator, upper_upper]

/-! ## Quoted values read back -/

/-- What is matched by LIKE, or what is compared, before it is quoted. -/
def pattern (c : Comparison) (p : Places) : Text :=
  if c.isLike then '%' :: c.inner p ++ ['%'] else c.inner p

/-- No wildcard is left at the ends of what stands between the quotes. -/
theorem not_wildcard_inner (c : Comparison) (p : Places) :
    '%' ∉ (c.inner p).head? ∧ '%' ∉ (c.inner p).getLast? := by
  have hends : ∀ (isEnd : Char → Bool) (t : Text), isEnd '%' = true →
      '%' ∉ (dropEnds isEnd t).head? ∧ '%' ∉ (dropEnds isEnd t).getLast? :=
    fun isEnd t h => ⟨fun hm => Bool.false_ne_true ((head?_dropEnds t _ hm).symm.trans h),
      fun hm => Bool.false_ne_true ((getLast?_dropEnds t _ hm).symm.trans h)⟩
  unfold inner
  split
  · exact hends _ _ rfl
  · exact hends _ _ rfl

/-- A quoted value that is read back as a literal is written the same again, if no quote is left
where quotes would be dropped. -/
theorem render_pattern (hop : Token.SpellsOperator c.operator) (hcolumn : d.column = c.column)
    (hoperator : d.operator = upper c.operator)
    (hvalue : d.value.map q.fill = [.literal (c.pattern p)])
    (hquotes : c.needsQuotes p options = true) (happ : singleQuote ∉ c.pattern p)
    (hhead : (c.inner p).head? ≠ some doubleQuote)
    (hlast : (c.inner p).getLast? ≠ some doubleQuote) :
    d.render q options = c.render p options := by
  have hlike : d.isLike = c.isLike := isLike_upper hoperator
  have hinner : d.inner q = c.inner p := by
    obtain ⟨hhead', hlast'⟩ := not_wildcard_inner c p
    have hsub : c.inner p ⊆ c.pattern p := by
      unfold pattern
      split
      · exact fun x hx => List.mem_append_left _ (List.mem_cons_of_mem _ hx)
      · exact List.Subset.refl _
    have hends : ∀ o : Option Char, (∀ x ∈ o, x ∈ c.inner p) → '%' ∉ o → o ≠ some doubleQuote →
        ∀ x ∈ o, (x == '%' || x == singleQuote || x == doubleQuote) = false := by
      intro o hmem hpercent hquote x hx
      have hsingle : x ≠ singleQuote := fun e => happ (hsub (e ▸ hmem x hx))
      have hwild : x ≠ '%' := fun e => hpercent (e ▸ hx)
      have hdouble : x ≠ doubleQuote := fun e => hquote (e ▸ hx)
      simp [hsingle, hwild, hdouble]
    have hfirst := hends _ (fun x => List.mem_of_head?) hhead' hhead
    have hend := hends _ (fun x => List.mem_of_getLast?) hlast' hlast
    rw [← inner_fill q, hvalue, Lexeme.inner, pattern]
    split
    · exact dropEnds_padded (l := ['%']) (by decide) (by decide) hfirst hend
    · have hbare := dropEnds_padded (l := []) (r := []) (by simp) (by simp) hfirst hend
      rwa [List.nil_append, List.append_nil] at hbare
  have hquotes' : d.needsQuotes q options = true := by
    rw [needsQuotes, ← isLoneCall_fill q, hvalue, isRange_upper hop hoperator, hcolumn,
      renderAll_fill, hvalue, List.map_singleton, joinSpaced_singleton, Lexeme.render,
      List.cons_append, not_isBoolean_quoted]
    rw [needsQuotes, Bool.and_eq_true, Bool.and_eq_true, Bool.and_eq_true] at hquotes
    obtain ⟨⟨⟨-, hrange⟩, hdate⟩, -⟩ := hquotes
    rw [hrange, hdate]
    rfl
  rw [render, render, renderValue, renderValue, hquotes, hquotes', if_pos rfl, if_pos rfl, hlike,
    hinner, hcolumn, hoperator, upper_upper]

end Comparison

end FilterClause
