import FilterClause.Proofs.DepthCounter
import FilterClause.Proofs.KeptLimits

/-!
# Silent clauses

A clause is cleaned to nothing exactly if nothing in it is read: it holds no closed literal, no pair
of brackets, and no character that words or operators are made of (`cleanClauseWith_eq_nil_iff`).
The last one is told token by token, the other two piece by piece. A keyword before a predicate and
a row limit are spelled by characters that are read, so both may be there without a special case.
-/

namespace FilterClause

open Text

/-! ## Characters -/

namespace Token

/-- Whether a character is read wherever it stands. An exclamation mark is read before an equals
sign only, which is read itself. -/
def isRead (c : Char) : Bool := isWordPart c || ['=', '<', '>'].contains c

theorem isRead_eq_false_iff {c : Char} :
    isRead c = false ↔ isWordPart c = false ∧ c ∉ ['=', '<', '>'] := by
  simp [isRead]

theorem isRead_of_isWord {c : Char} (h : Text.isWord c = true) : isRead c = true := by
  simp [isRead, isWordPart, h]

theorem find?_ne_none {c : Char} (h : isRead c = true) (rest : Text) : find? c rest ≠ none := by
  have hstart : operatorLength? (c :: rest) ≠ none ∨ wordLength? (c :: rest) ≠ none := by
    rcases Bool.or_eq_true_iff.mp h with hword | hop
    · exact .inr (by simp [wordLength?, List.takeWhile_cons_of_pos hword])
    · left
      rw [operatorLength?_cons]
      have hmem : c = '=' ∨ c = '<' ∨ c = '>' := by simpa using hop
      rcases hmem with rfl | rfl | rfl
      · simp
      · rw [if_pos (.inr rfl)]
        split <;> simp
      · rw [if_pos (.inl rfl)]
        split <;> simp
  rw [find?, ne_eq, Option.map_eq_none_iff, lexeme?]
  split
  · simp
  · next hop =>
    split
    · simp
    · simpa using hstart.resolve_left (not_not.mpr hop)

theorem find?_eq_none {c : Char} {rest : Text} (h : isRead c = false)
    (hrest : ∀ d ∈ rest.head?, isRead d = false) : find? c rest = none := by
  obtain ⟨hword, hop⟩ := isRead_eq_false_iff.mp h
  have hnot : c ≠ '=' ∧ c ≠ '<' ∧ c ≠ '>' := by simpa using hop
  have hequals : rest.head? ≠ some '=' := fun he => absurd (hrest '=' he) (by decide)
  have hlike : likeLength? (c :: rest) = none :=
    likeLength?_append_stop (not_isWord_of_not_isWordPart hword) [] rest
  have hoperator : operatorLength? (c :: rest) = none := by
    rw [operatorLength?_cons, if_neg (by simp [hnot]), if_neg hnot.1, if_neg (by simp [hequals]),
      hlike]
  have hcall : callLength? (c :: rest) = none := by
    simp [callLength?, not_isWord_of_not_isWordPart hword]
  have hwordLength : wordLength? (c :: rest) = none := by simp [wordLength?, hword]
  rw [find?, lexeme?, hoperator, hcall, hwordLength]
  rfl

end Token

/-- A text has no lexemes exactly if no character of it is read. -/
theorem Lexeme.ofText_eq_nil_iff {t : Text} :
    ofText t = [] ↔ ∀ c ∈ t, Token.isRead c = false := by
  induction t with
  | nil => simp
  | cons c t ih =>
    rw [List.forall_mem_cons]
    constructor
    · intro h
      cases hfind : Token.find? c t with
      | none =>
        rw [ofText_cons_of_none hfind] at h
        exact ⟨Bool.eq_false_iff.mpr fun hread => Token.find?_ne_none hread t hfind, ih.mp h⟩
      | some found =>
        rw [ofText_cons_of_some hfind] at h
        cases h
    · rintro ⟨hc, ht⟩
      rw [ofText_cons_of_none (Token.find?_eq_none hc fun d hd => ht d (List.mem_of_mem_head? hd))]
      exact ih.mpr ht

/-! ## Items -/

/-- Whether an item is a character that is not read where it stands. -/
def Item.Unread (i : Item) : Prop := ∃ c, i = .char c ∧ Token.isRead c = false

theorem Bracket.forall_groups_iff {items : List Item} {P : Item → Prop} :
    (∀ g ∈ groups items, ∃ i, g = .inl i ∧ P i) ↔ (∀ i ∈ items, P i) ∧ ¬ Deep 1 items := by
  rw [deep_succ_iff]
  constructor
  · intro h
    refine ⟨fun i hi => ?_, fun ⟨interior, hgroup, _⟩ => ?_⟩
    · rw [← flatMap_ungroup_groups items] at hi
      obtain ⟨g, hg, hig⟩ := List.mem_flatMap.mp hi
      obtain ⟨j, rfl, hj⟩ := h g hg
      exact List.mem_singleton.mp hig ▸ hj
    · obtain ⟨i, he, -⟩ := h _ hgroup
      cases he
  · rintro ⟨hitems, hpair⟩ (i | interior) hg
    · exact ⟨i, rfl, hitems i (mem_groups hg (List.mem_singleton_self i))⟩
    · exact absurd ⟨interior, hg, trivial⟩ hpair

namespace Cleaned

variable (literals : List Text) (options : Options) (interior : List Item → Cleaned)
  {items : List Item}

/-- A predicate has no lexemes exactly if it holds no pair and nothing that is read. -/
theorem lexemesOf_eq_nil_iff : lexemesOf literals interior items = [] ↔
    (∀ i ∈ items, i.Unread) ∧ ¬ Bracket.Deep 1 items := by
  rw [← Bracket.forall_groups_iff, ← Piece.flatMap_parts_ofItems, lexemesOf,
    List.flatMap_eq_nil_iff, List.forall_mem_flatMap]
  refine forall₂_congr fun p _ => ?_
  cases p with
  | text t => simp [Piece.lexemes, Piece.parts, Lexeme.ofText_eq_nil_iff, Item.Unread]
  | literal index => simp [Piece.lexemes, Piece.parts, Item.Unread]
  | call name arguments => simp [Piece.lexemes, Piece.parts]
  | group inside => simp [Piece.lexemes, Piece.parts]

theorem predicate_eq_nil_iff : (predicate literals options interior items).text = [] ↔
    (∀ i ∈ items, i.Unread) ∧ ¬ Bracket.Deep 1 items := by
  rw [predicate_eq, ← lexemesOf_eq_nil_iff literals interior, ← map_fill_tokensOf,
    List.map_eq_nil_iff]
  refine ⟨fun h => ?_, fun h => by rw [h]; rfl⟩
  by_contra hne
  exact (Condition.solid_renderAll hne fun t ht =>
    reads_tokensOf literals interior ht).ne_nil h

theorem clause_ne_nil_of_leads (h : (Subselect.split items).1 ≠ []) :
    (clause literals options interior items).text ≠ [] := by
  obtain ⟨lead, hlead⟩ := List.exists_mem_of_ne_nil _ h
  obtain ⟨front, c, htrim, -⟩ := exists_lead_eq literals items hlead
  have hmem : front ++ [c] ⊆ (clause literals options interior items).text :=
    subset_joinSpaced (List.mem_append_left _ (List.mem_map.mpr ⟨lead, hlead, htrim⟩))
  exact List.ne_nil_of_mem (hmem (by simp : c ∈ front ++ [c]))

/-- A clause is cleaned to nothing exactly if it holds no pair and nothing that is read. -/
theorem clause_eq_nil_iff : (clause literals options interior items).text = [] ↔
    (∀ i ∈ items, i.Unread) ∧ ¬ Bracket.Deep 1 items := by
  cases hend : Subselect.endOfWhere items with
  | none =>
    rw [clause_of_uncut literals interior options (Subselect.split_of_none hend)]
    exact predicate_eq_nil_iff literals options interior
  | some n =>
    -- A keyword is cut off, which is kept, and its letters are read.
    refine iff_of_false (clause_ne_nil_of_leads literals options interior ?_) fun h => ?_
    · rw [Subselect.split_of_some hend]
      exact List.cons_ne_nil _ _
    · obtain ⟨before, w, hw, -, hitems⟩ := Subselect.endOfWhereFrom_eq_some hend
      obtain ⟨c, w, rfl⟩ := List.exists_cons_of_ne_nil
        (show w ≠ [] from fun hnil => by rw [hnil] at hw; cases hw)
      have hc : Token.isRead c = true := Token.isRead_of_isWord
        (isWord_of_foldLetter (by rw [(List.cons.inj hw).1]; decide))
      obtain ⟨d, hd, hunread⟩ := h.1 (.char c) (by rw [hitems]; simp)
      rw [← Item.char.inj hd, hc] at hunread
      cases hunread

end Cleaned

/-! ## Texts -/

namespace Lifted

/-- Whether a quote in the text is closed. -/
def HoldsLiteral (t : Text) : Prop := ∃ before q content after,
  t = before ++ q :: (content ++ q :: after) ∧ isQuote q = true ∧ q ∉ content

theorem parts_of_not_holdsLiteral {t : Text} (h : ¬ HoldsLiteral t) : parts t = t.map .inl := by
  refine scan_eq_map_inl fun q rest ⟨before, hsuffix⟩ => ?_
  by_contra hne
  obtain ⟨⟨content, n⟩, hfind⟩ := Option.ne_none_iff_exists'.mp hne
  obtain ⟨hq, hcontent, -, hrest⟩ := literal?_eq_some hfind
  rw [hrest] at hsuffix
  exact h ⟨before, q, content, rest.drop n, hsuffix.symm, hq, hcontent⟩

theorem exists_mem_parts {t : Text} (h : HoldsLiteral t) : ∃ content, .inr content ∈ parts t := by
  obtain ⟨before, q, content, after, ht, hq, hcontent⟩ := h
  unfold parts
  induction t using scan_induction literal? generalizing before with
  | nil => simp at ht
  | pass c rest hfind ih =>
    rw [scan_cons_of_none hfind]
    cases before with
    | nil =>
      obtain ⟨rfl, rfl⟩ := List.cons.inj ht
      rw [literal?_closed hq hcontent] at hfind
      cases hfind
    | cons d before =>
      obtain ⟨found, hfound⟩ := ih before (List.cons.inj ht).2
      exact ⟨found, List.mem_cons_of_mem _ hfound⟩
  | take c rest found n hfind _ =>
    rw [scan_cons_of_some hfind]
    exact ⟨found, List.mem_cons_self⟩

end Lifted

/-- A text in which nothing is read: no closed literal, no pair of brackets, no character of words
and none of the operators `=`, `<` and `>`. -/
structure Silent (t : Text) : Prop where
  no_literal : ¬ Lifted.HoldsLiteral t
  no_pair : ¬ Bracket.Deep 1 (Lifted.items t)
  unread : ∀ c ∈ t, Token.isWordPart c = false ∧ c ∉ ['=', '<', '>']

/-- The items of a text tell whether it is silent. -/
theorem silent_iff {t : Text} :
    Silent t ↔ (∀ i ∈ Lifted.items t, i.Unread) ∧ ¬ Bracket.Deep 1 (Lifted.items t) := by
  have hchars (h : ¬ Lifted.HoldsLiteral t) : Lifted.items t = t.map .char := by
    rw [Lifted.items, Lifted.parts_of_not_holdsLiteral h, Item.number_map_inl]
  constructor
  · rintro ⟨hliteral, hpair, hunread⟩
    refine ⟨?_, hpair⟩
    rw [hchars hliteral]
    exact List.forall_mem_map.mpr fun c hc => ⟨c, rfl, Token.isRead_eq_false_iff.mpr (hunread c hc)⟩
  · rintro ⟨hitems, hpair⟩
    have hliteral : ¬ Lifted.HoldsLiteral t := fun h => by
      obtain ⟨content, hcontent⟩ := Lifted.exists_mem_parts h
      obtain ⟨n, hn⟩ := Item.exists_literal_mem_number hcontent
      obtain ⟨c, hc, -⟩ := hitems (.literal n) hn
      cases hc
    refine ⟨hliteral, hpair, fun c hc => Token.isRead_eq_false_iff.mp ?_⟩
    obtain ⟨d, hd, hunread⟩ := hitems (.char c)
      (by rw [hchars hliteral]; exact List.mem_map_of_mem hc)
    exact Item.char.inj hd ▸ hunread

/-! ## Whole clauses -/

namespace RowLimit.Spelled

variable {limit : RowLimit} (h : limit.Spelled)

include h

theorem exists_isRead : ∃ c ∈ limit.text, Token.isRead c = true := by
  obtain ⟨keyword, gap, digits, rfl, -, -, -, hne, hdigits⟩ := h
  obtain ⟨c, hc⟩ := List.exists_mem_of_ne_nil _ hne
  exact ⟨c, List.mem_append_right _ hc,
    Token.isRead_of_isWord (isWord_of_isWordDigit (hdigits c hc))⟩

theorem attach_ne_nil (body : Text) : attach body (some limit) ≠ [] := by
  rw [attach]
  split
  · exact h.flush.ne_nil
  · exact List.append_ne_nil_of_right_ne_nil _ (List.cons_ne_nil _ _)

end RowLimit.Spelled

/-- The digits of a row limit are read. -/
theorem RowLimit.not_silent_of_detach {t body : Text} {limit : RowLimit}
    (h : detach t = (body, some limit)) : ¬ Silent t := by
  obtain ⟨before, after, rfl, -, hspelled, -, -⟩ := exists_of_detach h
  obtain ⟨c, hc, hread⟩ := hspelled.exists_isRead
  intro hsilent
  have hunread := Token.isRead_eq_false_iff.mpr
    (hsilent.unread c (List.mem_append_left _ (List.mem_append_right _ hc)))
  rw [hread] at hunread
  cases hunread

/-- A clause is cleaned to nothing exactly if nothing is read in it behind one leading WHERE. Then
the written clause has no WHERE either, and otherwise it has one before what is left. -/
theorem cleanClauseWith_eq_nil_iff (options : Options) (raw : Text) :
    (cleanClauseWith options raw = [] ↔ Silent (Normal.stripLeadingWhere (trim raw))) ∧
      (withWhere (cleanClauseWith options raw) = [] ↔
        Silent (Normal.stripLeadingWhere (trim raw))) ∧
      (¬ Silent (Normal.stripLeadingWhere (trim raw)) →
        withWhere (cleanClauseWith options raw) =
          "WHERE ".toList ++ cleanClauseWith options raw) := by
  obtain ⟨body, limit, hd⟩ : ∃ body limit,
      RowLimit.detach (Normal.stripLeadingWhere (trim raw)) = (body, limit) := ⟨_, _, rfl⟩
  have hclean : cleanClauseWith options raw = [] ↔
      Silent (Normal.stripLeadingWhere (trim raw)) := by
    rw [cleanClauseWith_of_detach options hd]
    cases limit with
    | none =>
      have hnone := RowLimit.detach_eq_of_none (congrArg Prod.snd hd)
      rw [← (Prod.mk.inj (hnone.symm.trans hd)).1, silent_iff]
      exact Cleaned.clause_eq_nil_iff _ options _
    | some limit =>
      obtain ⟨-, -, -, -, hspelled, -, -⟩ := RowLimit.exists_of_detach hd
      exact iff_of_false (hspelled.attach_ne_nil _) (RowLimit.not_silent_of_detach hd)
  rw [← hclean]
  cases cleanClauseWith options raw with
  | nil => simp [withWhere]
  | cons c t => simp [withWhere]

/-- Quotes that are not closed, brackets that are no pair and an exclamation mark alone are dropped,
but an empty literal is not. -/
theorem cleanClauseWith_eq_nil_iff_marks :
    let silent := " Where )!(, \x27;\x22 ".toList
    let literal := "where , \x27\x27 ".toList
    Silent (Normal.stripLeadingWhere (trim silent)) ∧
      withWhere (cleanClauseWith Options.standard silent) = [] ∧
      ¬ Silent (Normal.stripLeadingWhere (trim literal)) ∧
      withWhere (cleanClauseWith Options.standard literal) = "WHERE \x27\x27".toList := by
  intro silent literal
  obtain ⟨hsilent, -, -⟩ := cleanClauseWith_eq_nil_iff Options.standard silent
  obtain ⟨hliteral, -, -⟩ := cleanClauseWith_eq_nil_iff Options.standard literal
  exact ⟨hsilent.mp (by decide +kernel), by decide +kernel,
    mt hliteral.mpr (by decide +kernel), by decide +kernel⟩

end FilterClause
