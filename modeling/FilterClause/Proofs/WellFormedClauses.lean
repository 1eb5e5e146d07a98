import FilterClause.Proofs.Containment
import FilterClause.Proofs.Endings
import FilterClause.Proofs.LooseBrackets
import FilterClause.Proofs.LosslessLifting
import FilterClause.Proofs.SqlBrackets
import FilterClause.Proofs.WholeClauses

/-!
# Cleaned clauses are well formed

Apostrophes and brackets reach cleaned text only as parts of what is well formed by itself: a
literal, a quoted value, the interior of a group or the arguments of a call, which balance. A
bracket without a partner stands in no token, so it is dropped on every way but one: a lead is kept
as it was written. So cleaned text is well formed if the clause balances or has no lead
(`cleanClauseWith_wellFormed`).
-/

namespace FilterClause

open Text Sql

/-! ## Tokens -/

section Items

variable {literals : List Text} (hliterals : ∀ content ∈ literals, singleQuote ∉ content)

include hliterals

theorem Item.wellFormed_quoted (index : Nat) : WellFormed (quoted literals index) := by
  refine .quoted ?_
  rw [List.getD_eq_getElem?_getD]
  cases hget : literals[index]? with
  | none => exact List.not_mem_nil
  | some content => exact hliterals content (List.mem_of_getElem? hget)

/-- Balanced items are written as well-formed text. -/
theorem Item.wellFormed_renderAll {items : List Item} (h : Bracket.Balanced items)
    (hclear : Clear items) : WellFormed (renderAll literals items) := by
  induction h with
  | nil => exact .nil
  | @item i rest hopen hclose _ ih =>
    have hi : WellFormed (render literals i) := by
      cases i with
      | literal index => exact wellFormed_quoted hliterals index
      | char c =>
        exact .singleton hclear.ne_of_char (fun e => hopen (e ▸ rfl)) fun e => hclose (e ▸ rfl)
    exact hi.append (ih (hclear.of_subset (List.subset_cons_self _ _)))
  | @group interior rest _ _ ihi ihr =>
    have hinterior := ihi (hclear.of_subset fun i hi => by simp [hi])
    have hrest := ihr (hclear.of_subset fun i hi => by simp [hi])
    have hall : renderAll literals (.char '(' :: (interior ++ .char ')' :: rest)) =
        '(' :: renderAll literals interior ++ [')'] ++ renderAll literals rest := by
      simp [renderAll, render]
    rw [hall]
    exact hinterior.bracketed.append hrest

/-- A token is written as well-formed text, if the groups are. -/
theorem Lexeme.ReadFrom.wellFormed {interior : List Item → Text} {items : List Item}
    (hclear : Item.Clear items)
    (hinterior : ∀ inside, Bracket.Balanced inside → Item.Clear inside →
      WellFormed (interior inside))
    {l : Lexeme} (h : l.ReadFrom literals interior (Bracket.groups items)) :
    WellFormed l.render := by
  have hgroup : ∀ {inside : List Item}, .inr inside ∈ Bracket.groups items →
      Bracket.Balanced inside ∧ Item.Clear inside := fun hi =>
    ⟨Bracket.balanced_of_mem_groups hi, hclear.of_subset (Bracket.mem_groups hi)⟩
  cases l with
  | operator s => exact .of_plain (Token.SpellsOperator.plain h)
  | word s => exact .of_plain (.of_isWordPart h.2.1)
  | call s =>
    obtain ⟨name, arguments, rfl, -, hsub | ⟨hname, inside, hinside, rfl⟩⟩ := h
    · -- The brackets of a call in the text would have no partners.
      have hbrackets : ['(', ')'].Sublist (name ++ '(' :: arguments ++ [')']) :=
        ((List.singleton_sublist.mpr List.mem_cons_self).trans
          (List.sublist_append_right name _)).append (List.Sublist.refl _)
      exact absurd (hbrackets.trans hsub) (Piece.not_sublist_outerChars items)
    · obtain ⟨hbalanced, hclear'⟩ := hgroup hinside
      have harguments := (Item.wellFormed_renderAll hliterals hbalanced hclear').bracketed
      have hcall := (WellFormed.of_plain (.of_isName hname)).append harguments
      rwa [← List.append_assoc] at hcall
  | literal content =>
    obtain ⟨index, -, rfl⟩ := h
    exact Item.wellFormed_quoted hliterals index
  | group t =>
    obtain ⟨inside, hinside, rfl⟩ := h
    exact (hinterior inside (hgroup hinside).1 (hgroup hinside).2).bracketed

end Items

/-! ## Conditions -/

/-- Whether a token is written as well-formed text, and so is an operator in capitals. -/
structure Places.WritesWell (p : Places) (t : Token) : Prop where
  render : WellFormed (p.render t)
  upper : t.isOperator = true → WellFormed (upper t.text)

theorem Chain.wellFormed_text {c : Chain Text} (h : ∀ t ∈ c.things, WellFormed t) :
    WellFormed c.text := by
  obtain ⟨hfirst, hrest⟩ := List.forall_mem_cons.mp h
  refine .joinSpaced (List.forall_mem_cons.mpr ⟨hfirst, fun t ht => ?_⟩)
  obtain ⟨⟨k, u⟩, hmem, ht⟩ := List.mem_flatMap.mp ht
  rcases List.mem_pair.mp ht with rfl | rfl
  · have hplain : ∀ k : Connective, ∀ c ∈ k.text, isName c = true := by
      rintro (_ | _) <;> decide +kernel
    exact .of_plain (.of_isName (hplain k))
  · exact hrest _ (List.mem_map_of_mem hmem)

section Conditions

variable {p : Places} {options : Options}

theorem Places.wellFormed_renderAll {ts : List Token} (h : ∀ t ∈ ts, p.WritesWell t) :
    WellFormed (p.renderAll ts) :=
  .joinSpaced (List.forall_mem_map.mpr fun t ht => (h t ht).render)

theorem Comparison.wellFormed_render {c : Comparison} (hcolumn : WellFormed c.column)
    (hop : WellFormed (upper c.operator)) (hvalue : ∀ t ∈ c.value, p.WritesWell t) :
    WellFormed (c.render p options) := by
  have hfront := hcolumn.space_append hop
  have hwritten : WellFormed (c.renderValue p options) := by
    unfold renderValue
    split
    · exact .quoteValue _
    · exact Places.wellFormed_renderAll hvalue
  unfold render
  dsimp only
  split
  · exact hfront
  · exact hfront.space_append hwritten

theorem Condition.wellFormed_render {ts : List Token} (h : ∀ t ∈ ts, p.WritesWell t) :
    WellFormed (render p options ts) := by
  match ts, h with
  | [], _ => exact .nil
  | [only], h => exact (h only (by simp)).render
  | first :: second :: value, h =>
    have hfirst := h first (by simp)
    rw [render]
    split
    · exact hfirst.render
    · split
      · next hop =>
        exact Comparison.wellFormed_render hfirst.render ((h second (by simp)).upper hop)
          fun t ht => h t (by simp [ht])
      · exact Places.wellFormed_renderAll h

theorem Condition.wellFormed_renderAll {ts : List Token} (h : ∀ t ∈ ts, p.WritesWell t) :
    WellFormed (renderAll p options ts) := by
  rw [renderAll_eq]
  refine Chain.wellFormed_text ?_
  rw [Chain.things_map]
  refine List.forall_mem_map.mpr fun part hpart => wellFormed_render fun t ht => ?_
  exact h t ((of_mem_things hpart).1 ht)

end Conditions

/-! ## Clauses -/

namespace Cleaned

variable {literals : List Text} {options : Options} {interior : List Item → Cleaned}
  {items : List Item} (hliterals : ∀ content ∈ literals, singleQuote ∉ content)
  (hclear : Item.Clear items)

include hliterals hclear

section Interior

variable (hinterior : ∀ inside, Bracket.Balanced inside → Item.Clear inside →
  WellFormed (interior inside).text)

include hinterior

/-- A predicate is cleaned to well-formed text, whether its brackets balance or not. -/
theorem wellFormed_predicate :
    WellFormed (predicate literals options interior items).text := by
  rw [predicate_eq]
  refine Condition.wellFormed_renderAll fun t ht => ?_
  have hread := readFrom_tokensOf literals interior ht
  refine ⟨?_, fun hop => ?_⟩
  · rw [← render_fill]
    exact hread.wellFormed hliterals hclear hinterior
  · rw [fill_of_isOperator hop] at hread
    exact (hread.upper literals _ _).wellFormed hliterals hclear hinterior

/-- A clause is cleaned to well-formed text if its leads balance. -/
theorem wellFormed_clause (hleads : ∀ lead ∈ (Subselect.split items).1, Bracket.Balanced lead) :
    WellFormed (clause literals options interior items).text := by
  obtain ⟨hsub, hrest⟩ := Subselect.subset_split items
  have hpredicate : WellFormed
      (predicate literals options interior (Subselect.split items).2).text :=
    wellFormed_predicate hliterals (hclear.of_subset hrest) hinterior
  refine .joinSpaced fun t ht => ?_
  rcases List.mem_append.mp ht with ht | ht
  · obtain ⟨lead, hlead, rfl⟩ := List.mem_map.mp ht
    exact (Item.wellFormed_renderAll hliterals (hleads lead hlead)
      (hclear.of_subset (hsub lead hlead))).trim
  · split at ht
    · cases ht
    · exact List.mem_singleton.mp ht ▸ hpredicate

end Interior

/-- The interior of a group is cleaned to well-formed text, however deep the group is. -/
theorem wellFormed_group (levels : Nat) (h : Bracket.Balanced items) :
    WellFormed (group literals options levels items).text := by
  induction levels generalizing items with
  | zero => exact (Item.wellFormed_renderAll hliterals h hclear).trim
  | succ levels ih =>
    exact wellFormed_clause hliterals hclear (fun inside hb hc => ih hc hb)
      (Subselect.balanced_split h).1

end Cleaned

/-! ## Whole clauses -/

namespace Lifted

/-- A literal holds no quote of the kind that it stands between. -/
theorem exists_quote_of_mem_parts {t content : Text} (h : .inr content ∈ parts t) :
    ∃ q ∈ t, isQuote q = true ∧ q ∉ content := by
  rw [← map_unquoted, List.mem_map] at h
  obtain ⟨_ | ⟨q, content⟩, hpart, he⟩ := h
  · cases he
  · obtain rfl := Sum.inr.inj he
    obtain ⟨hquote, hnot⟩ := quote_of_mem hpart
    have hq : q ∈ (quotedParts t).flatMap written :=
      List.mem_flatMap.mpr ⟨_, hpart, List.mem_cons_self⟩
    exact ⟨q, flatMap_written t ▸ hq, hquote, hnot⟩

section Apostrophes

variable {t : Text} (hdouble : doubleQuote ∉ t)

include hdouble

theorem eq_singleQuote_of_isQuote : ∀ q ∈ t, isQuote q = true → q = singleQuote := by
  intro q hq hquote
  have hne : q ≠ doubleQuote := fun e => hdouble (e ▸ hq)
  simpa [isQuote, hne] using hquote

/-- Without double quotes no literal holds an apostrophe. -/
theorem singleQuote_not_mem_literals : ∀ content ∈ Fragment.literals t, singleQuote ∉ content := by
  intro content hcontent
  obtain ⟨part, hpart, he⟩ := List.mem_filterMap.mp hcontent
  obtain rfl := Sum.getRight?_eq_some_iff.mp he
  obtain ⟨q, hq, hquote, hnot⟩ := exists_quote_of_mem_parts hpart
  exact eq_singleQuote_of_isQuote hdouble q hq hquote ▸ hnot

/-- Without double quotes an even number of apostrophes closes every literal. -/
theorem closed_of_even (heven : Even (t.count singleQuote)) : Closed t :=
  (closed_iff_even rfl (eq_singleQuote_of_isQuote hdouble)).mpr heven

end Apostrophes

end Lifted

/-- Cleaned text is well formed if the quotes of the clause are apostrophes that close, and its
brackets balance or it has no WHERE. -/
theorem cleanClauseWith_wellFormed (options : Options) {raw : Text} (hdouble : doubleQuote ∉ raw)
    (heven : Even (raw.count singleQuote))
    (h : Bracket.Balanced (Lifted.items raw) ∨ Subselect.LacksWhere (Lifted.items raw)) :
    WellFormed (cleanClauseWith options raw) := by
  obtain ⟨⟨body, limit⟩, hd⟩ :
      ∃ parts, RowLimit.detach (Normal.stripLeadingWhere (trim raw)) = parts := ⟨_, rfl⟩
  obtain ⟨front, back, rfl, hfront, hback⟩ := Normal.exists_eq_of_detach hd
  have hdouble' : doubleQuote ∉ body := fun hm => hdouble (by simp [hm])
  have heven' : Even (body.count singleQuote) := by
    rwa [List.count_append, List.count_append, count_quote_of_plain hfront,
      count_quote_of_plain hback, Nat.zero_add, Nat.add_zero] at heven
  have hliterals := Lifted.singleQuote_not_mem_literals hdouble'
  have hclear := (Lifted.closed_of_even hdouble' heven').clear_items
  have hleads : ∀ lead ∈ (Subselect.split (Lifted.items body)).1, Bracket.Balanced lead := by
    rcases h with h | h
    · exact (Subselect.balanced_split (Fragment.balanced_of_padded hfront hback h)).1
    · rw [Fragment.items_padded hfront hback] at h
      rw [Subselect.split_of_whereFree (h.of_append.whereFree false)]
      exact nofun
  have hbody : WellFormed (Fragment.cleaned options (Cleaned.maxNesting + 1) body).text :=
    Cleaned.wellFormed_clause hliterals hclear
      (fun inside hb hc => Cleaned.wellFormed_group hliterals hc _ hb) hleads
  rw [cleanClauseWith_of_detach options hd]
  cases limit with
  | none => exact hbody
  | some limit =>
    obtain ⟨-, -, -, -, hspelled, -, -⟩ := RowLimit.exists_of_detach hd
    have hlimit := WellFormed.of_plain hspelled.plain
    unfold RowLimit.attach
    dsimp only
    split
    · exact hlimit
    · exact hbody.space_append hlimit

/-- A clause with brackets that have no partner, a literal that holds one, and a call. -/
theorem cleanClauseWith_wellFormed_unbalanced :
    WellFormed (cleanClauseWith Options.standard
      "a ) = 'it (' AND ( ( b like f('(') %) OR c > 'y' limit 3".toList) :=
  cleanClauseWith_wellFormed Options.standard (by decide +kernel) (by decide +kernel)
    (.inr (by decide +kernel))

/-- A lead is kept with its brackets. -/
example : ¬ WellFormed (cleanClauseWith Options.standard "Id) from T where a = 1".toList) := by
  decide +kernel

end FilterClause
