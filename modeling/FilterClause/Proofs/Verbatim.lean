import FilterClause.Proofs.KeptItems
import FilterClause.Proofs.Retention
import FilterClause.Proofs.WholeClauses

/-!
# Clauses without operators

A clause without operators is written token by token. What is seen of it is what is seen of the
clause, save for two things that are lost: characters that belong to no token, and what stands
behind a group at the start of a condition. So nothing is added, and nothing is lost exactly if
neither of the two is there at any level (`cleanClauseWith_verbatim_iff`).
-/

namespace FilterClause

open Text

/-! ## Conditions without operators -/

/-- A chain of texts is three texts joined where a connective is taken off the front. -/
theorem Chain.text_cons (t : Text) (k : Connective) (c : Chain Text) :
    text ⟨t, (k, c.first) :: c.rest⟩ = joinSpaced [t, k.text, c.text] := by
  unfold text
  rw [List.flatMap_cons, List.cons_append, List.cons_append, List.nil_append,
    joinSpaced_cons_cons, joinSpaced_cons_cons, joinSpaced_cons_cons, joinSpaced_cons_cons,
    joinSpaced_singleton]

namespace Condition

variable {p : Places} {options : Options}

/-- A condition without an operator is written token by token. -/
theorem render_of_no_operator {ts : List Token} (h : ∀ t ∈ ts, t.isOperator = false) :
    render p options ts = joinSpaced ((keptOf ts).map p.render) := by
  rcases ts with _ | ⟨t, _ | ⟨u, value⟩⟩
  · exact joinSpaced_nil.symm
  · rw [keptOf, ite_self]
    exact (joinSpaced_singleton _).symm
  · have hu : u.isOperator = false := h u (by simp)
    rw [render, keptOf, hu, if_neg Bool.false_ne_true]
    split
    · exact (joinSpaced_singleton _).symm
    · rfl

section View

variable {view : List (Char ⊕ Text) → List (Char ⊕ Text)} (hv : Lifted.View view)

include hv

/-- A condition without operators closes its quotes if its tokens do, and it is looked at token by
token. -/
theorem view_render (options : Options) {ts : List Token}
    (hclosed : ∀ t ∈ ts, Lifted.Closed (p.render t)) (hop : ∀ t ∈ ts, t.isOperator = false) :
    Lifted.Closed (render p options ts) ∧
      view (Lifted.parts (render p options ts)) =
        (keptOf ts).flatMap fun t => view (Lifted.parts (p.render t)) := by
  have hkept : ∀ u ∈ (keptOf ts).map p.render, Lifted.Closed u := by
    intro u hu
    obtain ⟨t, ht, rfl⟩ := List.mem_map.mp hu
    exact hclosed t ((keptOf_sublist ts).subset ht)
  rw [render_of_no_operator hop]
  exact ⟨.joinSpaced hkept, by rw [hv.joinSpaced hkept, List.flatMap_map]⟩

/-- A connective has no quotes, and it is looked at like the word that spells it. -/
theorem view_connective {t : Token} {k : Connective} (hk : t.connective? = some k) :
    Lifted.Closed k.text ∧ view (Lifted.parts k.text) = view (Lifted.parts (p.render t)) := by
  have hspells := Token.spells_of_connective? hk
  have hplain : Fragment.Plain t.text :=
    .of_isWordPart (Connective.isWordPart_of_spelling hspells)
  have hplainText : Fragment.Plain k.text :=
    .of_isWordPart (Connective.isWordPart_of_spelling (sameIgnoringCase_refl k.text))
  have htext : p.render t = t.text := by
    have hword := isWord_of_connective? hk
    obtain ⟨kind, text, offset⟩ := t
    cases kind <;> first | rfl | cases hword
  refine ⟨Lifted.closed_of_no_quotes hplainText.not_quote, ?_⟩
  rw [htext, Lifted.parts_of_no_quotes hplain.not_quote,
    Lifted.parts_of_no_quotes hplainText.not_quote, hv.connective hspells]

/-- Conditions without operators close their quotes if their tokens do, and they are looked at token
by token. -/
theorem view_splitBehind {back ts : List Token}
    (hclosed : ∀ t ∈ back.reverse ++ ts, Lifted.Closed (p.render t))
    (hop : ∀ t ∈ back.reverse ++ ts, t.isOperator = false) :
    Lifted.Closed ((splitBehind back ts).map (render p options)).text ∧
      view (Lifted.parts ((splitBehind back ts).map (render p options)).text) =
        (keptBehind back ts).flatMap fun t => view (Lifted.parts (p.render t)) := by
  induction ts generalizing back with
  | nil =>
    rw [List.append_nil] at hclosed hop
    show Lifted.Closed (joinSpaced [render p options back.reverse]) ∧
      view (Lifted.parts (joinSpaced [render p options back.reverse])) = _
    rw [joinSpaced_singleton]
    exact view_render hv options hclosed hop
  | cons t rest ih =>
    cases hsep : separates back t rest with
    | false =>
      have hmove : (t :: back).reverse ++ rest = back.reverse ++ t :: rest := by simp
      unfold keptBehind
      rw [splitBehind_cons_of_not hsep, hsep, if_neg Bool.false_ne_true]
      exact ih (by rwa [hmove]) (by rwa [hmove])
    | true =>
      obtain ⟨k, hk⟩ := (of_separates hsep).1
      obtain ⟨hclosedBack, hclosedRest⟩ := List.forall_mem_append.mp hclosed
      obtain ⟨hopBack, hopRest⟩ := List.forall_mem_append.mp hop
      obtain ⟨hfirst, hviewFirst⟩ := view_render hv options hclosedBack hopBack
      obtain ⟨hconnective, hviewConnective⟩ := view_connective (p := p) hv hk
      obtain ⟨hlater, hviewLater⟩ := @ih []
        (fun u hu => hclosedRest u (List.mem_cons_of_mem _ hu))
        (fun u hu => hopRest u (List.mem_cons_of_mem _ hu))
      have hchain : ((splitBehind back (t :: rest)).map (render p options)).text =
          joinSpaced [render p options back.reverse, k.text,
            ((splitBehind [] rest).map (render p options)).text] := by
        rw [splitBehind_cons hk hsep]
        exact Chain.text_cons (render p options back.reverse) k
          ((splitBehind [] rest).map (render p options))
      have hall : ∀ u ∈ [render p options back.reverse, k.text,
          ((splitBehind [] rest).map (render p options)).text], Lifted.Closed u := by
        simpa using ⟨hfirst, hconnective, hlater⟩
      unfold keptBehind
      rw [hchain, hsep, if_pos rfl, hv.joinSpaced hall, List.flatMap_append, ← hviewFirst,
        List.flatMap_cons (x := t), ← hviewConnective, ← hviewLater]
      exact ⟨.joinSpaced hall, by simp⟩

end View

end Condition

/-! ## Levels -/

/-- Items that are a predicate of their own: brackets balance, no quote stands outside the literals,
and no WHERE stands alone. -/
structure Item.Proper (items : List Item) : Prop where
  balanced : Bracket.Balanced items
  quoteless : Quoteless items
  whereFree : Subselect.WhereFree false items

/-- What a group holds is a predicate of its own, too. -/
theorem Item.Proper.of_mem_groups {items interior : List Item} (h : Proper items)
    (hi : .inr interior ∈ Bracket.groups items) : Proper interior := by
  obtain ⟨hb, hq, hw⟩ := h
  have hsub : interior ⊆ items := Bracket.mem_groups hi
  refine ⟨Bracket.balanced_of_mem_groups hi, hq.of_subset hsub, ?_⟩
  suffices key : ∀ inName, Subselect.WhereFree inName items →
      Subselect.WhereFree false interior from key false hw
  clear hq hw hsub
  induction hb with
  | nil => cases hi
  | item hopen _ _ ih =>
    rw [Bracket.groups_cons_item hopen, List.mem_cons] at hi
    rcases hi with hi | hi
    · cases hi
    · exact fun _ hw => ih hi _ hw.2
  | @group inside rest hinterior _ _ ih =>
    intro _ hw
    have hopen : Item.isName (.char '(') = false := isName_of_mem_marks '(' (by decide)
    have hclose : Item.isName (.char ')') = false := isName_of_mem_marks ')' (by decide)
    obtain ⟨hinside, hrest⟩ := Subselect.WhereFree.of_append hclose (hopen ▸ hw.2)
    rw [Bracket.groups_group hinterior, List.mem_cons] at hi
    rcases hi with hi | hi
    · obtain rfl := Sum.inr.inj hi
      exact hinside
    · exact ih hi _ hrest

/-- Whether the items have no operator among their tokens. -/
def Item.OperatorFree (literals : List Text) (items : List Item) : Prop :=
  ∀ t ∈ Cleaned.tokensOf literals items, t.isOperator = false

instance (literals : List Text) : DecidablePred (Item.OperatorFree literals) := fun items =>
  inferInstanceAs (Decidable (∀ t ∈ Cleaned.tokensOf literals items, t.isOperator = false))

/-- Whether a piece is text that holds something else than words and blanks. -/
def Piece.isLossy : Piece → Bool
  | .text t => t.any fun c => !isKept c
  | _ => false

/-- Whether nothing is lost of the items: their text holds nothing but words and blanks, and a group
that starts a condition is all of it. -/
def Item.Lossless (literals : List Text) (items : List Item) : Prop :=
  (∀ p ∈ Piece.ofItems items, p.isLossy = false) ∧
    ∀ part ∈ (Condition.splitBehind [] (Cleaned.tokensOf literals items)).things,
      ∀ g ∈ part.head?, g.isGroup = true → part = [g]

instance (literals : List Text) : DecidablePred (Item.Lossless literals) := fun items =>
  inferInstanceAs (Decidable ((∀ p ∈ Piece.ofItems items, p.isLossy = false) ∧
    ∀ part ∈ (Condition.splitBehind [] (Cleaned.tokensOf literals items)).things,
      ∀ g ∈ part.head?, g.isGroup = true → part = [g]))

/-- No token is written with nothing to see. -/
theorem Cleaned.ink_render_ne_nil {literals : List Text} {items : List Item}
    (f : List Item → Cleaned) {t : Token} (ht : t ∈ tokensOf literals items) :
    Lifted.ink (Lifted.parts ((placesOf literals f items).render t)) ≠ [] := by
  intro hnil
  obtain ⟨c, hc, hsolid⟩ := (reads_tokensOf literals f ht).solid
  rw [Lifted.forall_blank_of_ink_nil hnil c (List.mem_of_getLast? hc)] at hsolid
  cases hsolid

/-- A predicate without operators is looked at token by token. -/
theorem Cleaned.view_predicate {literals : List Text} {items : List Item} (f : List Item → Cleaned)
    (options : Options) {view : List (Char ⊕ Text) → List (Char ⊕ Text)} (hv : Lifted.View view)
    (hclosed : ∀ t ∈ tokensOf literals items,
      Lifted.Closed ((placesOf literals f items).render t))
    (hop : Item.OperatorFree literals items) :
    Lifted.Closed (predicate literals options f items).text ∧
      view (Lifted.parts (predicate literals options f items).text) =
        (Condition.keptBehind [] (tokensOf literals items)).flatMap fun t =>
          view (Lifted.parts ((placesOf literals f items).render t)) := by
  rw [predicate_eq, Condition.renderAll_eq]
  exact Condition.view_splitBehind hv hclosed hop

section Level

variable {literals : List Text} (hliterals : ∀ content ∈ literals, singleQuote ∉ content)
  {items : List Item} (hitems : Item.Proper items) (f : List Item → Cleaned)
  {whole : List Item → Prop}
  (hf : ∀ interior ∈ (Piece.ofItems items).filterMap Piece.interior?,
    Item.KeptIn literals interior [(f interior).text] (whole interior))

include hliterals hitems hf

/-- What the lexemes of a piece keep of it. -/
theorem Piece.keptIn {p : Piece} (hp : p ∈ ofItems items)
    (hop : ∀ l ∈ p.lexemes literals fun i => (f i).text, l.isOperator = false) :
    Item.KeptIn literals p.items
      ((p.lexemes literals fun i => (f i).text).map Lexeme.render)
      (p.isLossy = false ∧ ∀ interior ∈ p.interior?, whole interior) := by
  have hquoteless := hitems.quoteless.of_subset (items_subset hitems.balanced hp)
  have hwritten : ∀ {t : Text} {lossy : Prop}, Item.renderAll literals p.items = t → lossy →
      Item.KeptIn literals p.items [t] lossy := by
    intro t lossy ht hlossy
    have hkept := Item.KeptIn.renderAll hquoteless (.of_forall hliterals p.items)
    rw [ht] at hkept
    exact hkept.congr (iff_of_true trivial hlossy)
  cases p with
  | text t =>
    have hplain := plain_text hitems.balanced hitems.quoteless hp
    refine (Item.KeptIn.ofText hplain hop).congr ?_
    simp [isLossy, interior?]
  | literal index => exact hwritten (List.flatMap_singleton _ _) ⟨rfl, by simp [interior?]⟩
  | call name arguments =>
    exact hwritten (renderAll_call literals name arguments) ⟨rfl, by simp [interior?]⟩
  | group interior =>
    have hinterior : interior ∈ (ofItems items).filterMap interior? :=
      List.mem_filterMap.mpr ⟨.group interior, hp, rfl⟩
    refine (hf interior hinterior).bracketed.congr ?_
    simp [isLossy, interior?]

/-- The lexemes of a predicate without operators, one by one, keep what is not lost of the pieces. -/
theorem Cleaned.keptIn_tokensOf (hop : Item.OperatorFree literals items) :
    Item.KeptIn literals items
      ((tokensOf literals items).map (placesOf literals f items).render)
      (∀ p ∈ Piece.ofItems items,
        p.isLossy = false ∧ ∀ interior ∈ p.interior?, whole interior) := by
  have hfill := map_fill_tokensOf literals f items
  have hlexemes : ∀ l ∈ lexemesOf literals f items, l.isOperator = false := by
    rw [← hfill]
    intro l hl
    obtain ⟨t, ht, rfl⟩ := List.mem_map.mp hl
    rw [isOperator_fill, hop t ht]
  have hrender : (tokensOf literals items).map (placesOf literals f items).render =
      (Piece.ofItems items).flatMap
        fun p => (p.lexemes literals fun i => (f i).text).map Lexeme.render := by
    rw [← List.map_flatMap, ← lexemesOf, ← hfill, List.map_map]
    exact (List.map_congr_left fun t _ => render_fill _ t).symm
  rw [hrender]
  exact .pieces hitems.balanced fun p hp => Piece.keptIn hliterals hitems f hf hp fun l hl =>
    hlexemes l (List.mem_flatMap.mpr ⟨p, hp, hl⟩)

/-- A predicate without operators keeps what is not lost of the items. -/
theorem Cleaned.keptIn_predicate (options : Options) (hop : Item.OperatorFree literals items) :
    Item.KeptIn literals items [(predicate literals options f items).text]
      (Item.Lossless literals items ∧
        ∀ interior ∈ (Piece.ofItems items).filterMap Piece.interior?, whole interior) := by
  have htokens := keptIn_tokensOf hliterals hitems f hf hop
  have hsub := Condition.keptBehind_sublist [] (tokensOf literals items)
  -- What is left out has ink, so it shows.
  have hkept := htokens.sublist (hsub.map (placesOf literals f items).render) fun t ht => by
    obtain ⟨u, hu, rfl⟩ := List.mem_map.mp ht
    exact ink_render_ne_nil f hu
  rw [Condition.map_keptBehind_eq_iff] at hkept
  have hclosed : ∀ t ∈ tokensOf literals items,
      Lifted.Closed ((placesOf literals f items).render t) := fun t ht =>
    htokens.closed _ (List.mem_map_of_mem ht)
  refine (hkept.of_view (view_predicate f options Lifted.view_ink hclosed hop).1
    fun hv => ?_).congr ?_
  · rw [(view_predicate f options hv hclosed hop).2, List.flatMap_map]
  · constructor
    · rintro ⟨hparts, hp⟩
      refine ⟨⟨fun p hm => (hp p hm).1, hparts⟩, fun interior hi => ?_⟩
      obtain ⟨p, hm, hp'⟩ := List.mem_filterMap.mp hi
      exact (hp p hm).2 interior hp'
    · rintro ⟨⟨hlossy, hparts⟩, hi⟩
      exact ⟨hparts, fun p hm => ⟨hlossy p hm, fun interior hp' =>
        hi interior (List.mem_filterMap.mpr ⟨p, hm, hp'⟩)⟩⟩

end Level

/-- A group without operators at any level keeps what is lost at none. -/
theorem Cleaned.keptIn_group {literals : List Text}
    (hliterals : ∀ content ∈ literals, singleQuote ∉ content) (options : Options) (levels : Nat)
    {items : List Item} (hitems : Item.Proper items)
    (hop : Cleaned.Throughout (fun _ => Item.OperatorFree literals) levels items) :
    Item.KeptIn literals items [(group literals options levels items).text]
      (Throughout (fun _ => Item.Lossless literals) levels items) := by
  induction levels generalizing items with
  | zero =>
    have hwritten := Item.KeptIn.renderAll hitems.quoteless (.of_forall hliterals items)
    refine hwritten.of_view (hwritten.closed _ List.mem_cons_self).trim fun hv => ?_
    rw [List.flatMap_singleton]
    exact hv.trim _
  | succ levels ih =>
    have huncut := Subselect.split_of_whereFree hitems.whereFree
    rw [Throughout, huncut] at hop ⊢
    obtain ⟨hhere, hgroups⟩ := hop
    rw [group, clause_of_uncut _ _ _ huncut]
    refine keptIn_predicate hliterals hitems _ (fun interior hi => ?_) options hhere
    exact ih (hitems.of_mem_groups (Piece.mem_groups_of_interior hi)) (hgroups interior hi)

/-! ## Whole clauses -/

instance (t : Text) : Decidable (Fragment t) :=
  decidable_of_iff (Lifted.Closed t ∧ Bracket.Balanced (Lifted.items t) ∧
      Subselect.WhereFree false (Lifted.items t))
    ⟨fun ⟨hc, hb, hw⟩ => ⟨hc, hb, hw⟩, fun h => ⟨h.closed, h.balanced, h.whereFree⟩⟩

/-- A clause without operators at any level, its literals between single quotes, is written as it
is, up to blanks outside the literals and the letter case of AND and OR, exactly if nothing is lost
at any level. In any case nothing is added. -/
theorem cleanClauseWith_verbatim_iff (options : Options) {raw : Text} (hraw : Fragment raw)
    (hquoted : SingleQuoted raw)
    (hwhere : Normal.stripLeadingWhere (trim raw) = trim raw)
    (hlimit : (RowLimit.detach raw).2 = none)
    (hop : Cleaned.Throughout (fun _ => Item.OperatorFree (Fragment.literals raw))
      (Cleaned.maxNesting + 1) (Lifted.items raw)) :
    (Lifted.ink (Lifted.parts (cleanClauseWith options raw))).Sublist
        (Lifted.ink (Lifted.parts raw)) ∧
      ((cleanClauseWith options raw).visible = raw.visible ↔
        Cleaned.Throughout (fun _ => Item.Lossless (Fragment.literals raw))
          (Cleaned.maxNesting + 1) (Lifted.items raw)) := by
  have hkept := Cleaned.keptIn_group hquoted.not_mem_content options (Cleaned.maxNesting + 1)
    ⟨hraw.balanced, hraw.closed.quoteless, hraw.whereFree⟩ hop
  have hclean : cleanClauseWith options raw = (Cleaned.group (Fragment.literals raw) options
      (Cleaned.maxNesting + 1) (Lifted.items raw)).text :=
    cleanClauseWith_of_balanced options hraw.balanced hwhere hlimit
  rw [← hclean] at hkept
  obtain ⟨-, hink, hlossless, hvisible⟩ := hkept
  simp only [List.flatMap_singleton, Lifted.parts_items] at hink hlossless hvisible
  refine ⟨hink, fun he => hlossless ?_, hvisible⟩
  have hsmall := congrArg (List.map Lifted.small) he
  rwa [Text.visible, Text.visible, Lifted.map_small_visible, Lifted.map_small_visible] at hsmall

/-- The comma of a list of values is lost. -/
theorem cleanClause_drops_comma :
    (Fragment "Status IN ('Open', 'Closed')".toList ∧
      SingleQuoted "Status IN ('Open', 'Closed')".toList ∧
      Bracket.Nested 128 (Lifted.items "Status IN ('Open', 'Closed')".toList) ∧
      Normal.stripLeadingWhere (trim "Status IN ('Open', 'Closed')".toList) =
        trim "Status IN ('Open', 'Closed')".toList ∧
      (RowLimit.detach "Status IN ('Open', 'Closed')".toList).2 = none ∧
      Cleaned.Throughout
        (fun _ => Item.OperatorFree (Fragment.literals "Status IN ('Open', 'Closed')".toList))
        (Cleaned.maxNesting + 1) (Lifted.items "Status IN ('Open', 'Closed')".toList)) ∧
    cleanClause "Status IN ('Open', 'Closed')".toList = "Status IN ('Open' 'Closed')".toList ∧
    (cleanClause "Status IN ('Open', 'Closed')".toList).visible ≠
      Text.visible "Status IN ('Open', 'Closed')".toList := by
  decide +kernel

/-- A clause of words, literals and a group that stands alone is written as it is. -/
theorem cleanClauseWith_verbatim_group :
    (cleanClauseWith Options.standard "not  X and ( 'a, b' or f(1,2) )".toList).visible =
      Text.visible "not  X and ( 'a, b' or f(1,2) )".toList :=
  (cleanClauseWith_verbatim_iff Options.standard (by decide +kernel) (by decide +kernel)
    (by decide +kernel) (by decide +kernel) (by decide +kernel)).2.mpr (by decide +kernel)

end FilterClause
