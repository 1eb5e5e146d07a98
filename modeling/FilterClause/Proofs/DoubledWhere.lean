import FilterClause.Proofs.DepthCounter
import FilterClause.Proofs.KeptLimits

/-!
# A keyword that is written twice

A clause loses one WHERE at its start before it is cleaned, and one is written in front of it when
it is formatted. The cleaned clause may still start with the keyword: it was there twice, or what
stood before it was dropped. Whether it does is seen at its first lead, or at its first token if it
is not cut (`opensWithWhere_clause_iff`); everything else stands behind a space.
-/

namespace FilterClause

open Text

/-! ## Texts that open with WHERE -/

/-- The keyword WHERE in any letter case stands alone at the start of the text. -/
def OpensWithWhere (t : Text) : Prop :=
  ∃ keyword rest, t = keyword ++ rest ∧ keyword.map foldLetter = ['w', 'h', 'e', 'r', 'e'] ∧
    startsWithWord rest = false

/-- The keyword WHERE, blanks, and the keyword again. -/
def DoublesWhere (t : Text) : Prop :=
  ∃ keyword gap rest, t = keyword ++ gap ++ rest ∧
    keyword.map foldLetter = ['w', 'h', 'e', 'r', 'e'] ∧ gap ≠ [] ∧
    (∀ c ∈ gap, isBlank c = true) ∧ OpensWithWhere rest

theorem opensWithWhere_iff {t : Text} :
    OpensWithWhere t ↔
      ∃ rest, stripKeyword ['w', 'h', 'e', 'r', 'e'] t = some rest ∧
        startsWithWord rest = false := by
  constructor
  · rintro ⟨keyword, rest, ht, hk, hrest⟩
    exact ⟨rest, stripKeyword_eq_some_iff.mpr ⟨keyword, ht, hk⟩, hrest⟩
  · rintro ⟨rest, hs, hrest⟩
    obtain ⟨keyword, ht, hk⟩ := stripKeyword_eq_some_iff.mp hs
    exact ⟨keyword, rest, ht, hk, hrest⟩

theorem not_opensWithWhere_nil : ¬ OpensWithWhere [] := by
  rw [opensWithWhere_iff]
  rintro ⟨rest, hs, -⟩
  cases hs

theorem not_opensWithWhere_cons {c : Char} (hc : foldLetter c ≠ 'w') (t : Text) :
    ¬ OpensWithWhere (c :: t) := by
  rw [opensWithWhere_iff]
  rintro ⟨rest, hs, -⟩
  rw [stripKeyword, if_neg hc] at hs
  cases hs

/-- What stands behind a character that is in no word and not in the keyword does not matter. -/
theorem opensWithWhere_append_stop {c : Char} (hk : foldLetter c ∉ ['w', 'h', 'e', 'r', 'e'])
    (hc : isWord c = false) (s t : Text) : OpensWithWhere (s ++ c :: t) ↔ OpensWithWhere s := by
  rw [opensWithWhere_iff, opensWithWhere_iff, stripKeyword_append_stop hk]
  constructor
  · rintro ⟨rest, hs, hrest⟩
    obtain ⟨u, hu, rfl⟩ := Option.map_eq_some_iff.mp hs
    rw [startsWithWord_append_stop hc] at hrest
    exact ⟨u, hu, hrest⟩
  · rintro ⟨u, hu, hrest⟩
    refine ⟨u ++ c :: t, by rw [hu, Option.map_some], ?_⟩
    rwa [startsWithWord_append_stop hc]

theorem opensWithWhere_append_space (s t : Text) :
    OpensWithWhere (s ++ ' ' :: t) ↔ OpensWithWhere s :=
  opensWithWhere_append_stop (by decide) (by decide) s t

theorem opensWithWhere_joinSpaced (t : Text) (ts : List Text) :
    OpensWithWhere (joinSpaced (t :: ts)) ↔ OpensWithWhere t := by
  cases ts with
  | nil => rw [joinSpaced_singleton]
  | cons u us => rw [joinSpaced_cons_cons, opensWithWhere_append_space]

/-- A clause behind the keyword doubles it exactly if the clause opens with it. -/
theorem doublesWhere_withWhere {clause : Text} (h : clause = [] ∨ Flush clause) :
    DoublesWhere (withWhere clause) ↔ OpensWithWhere clause := by
  by_cases hempty : clause = []
  · subst hempty
    refine iff_of_false ?_ not_opensWithWhere_nil
    rintro ⟨keyword, gap, rest, ht, -, hgap, -⟩
    have hnil : keyword ++ gap ++ rest = [] := ht.symm
    simp [hgap] at hnil
  · obtain ⟨c, hc, hflush⟩ := h.resolve_left hempty
    obtain ⟨clause, rfl⟩ := List.head?_eq_some_iff.mp hc
    have hwith : withWhere (c :: clause) = ['W', 'H', 'E', 'R', 'E'] ++ [' '] ++ c :: clause := rfl
    rw [hwith]
    constructor
    · rintro ⟨keyword, gap, rest, ht, hk, hgap, hblank, hopens⟩
      have hlen : keyword.length = 5 := by simpa using congrArg List.length hk
      rw [List.append_assoc, List.append_assoc] at ht
      obtain ⟨rfl, htail⟩ := List.append_inj ht hlen.symm
      obtain ⟨b, gap, rfl⟩ := List.exists_cons_of_ne_nil hgap
      have hrest : c :: clause = gap ++ rest := (List.cons.inj htail).2
      cases gap with
      | nil => rwa [hrest]
      | cons d gap =>
        have hd := hblank d (by simp)
        rw [← (List.cons.inj hrest).1, hflush] at hd
        cases hd
    · exact fun hopens => ⟨_, _, _, rfl, by decide, by simp, by decide, hopens⟩

/-! ## The start of a predicate -/

theorem Token.SpellsOperator.not_opensWithWhere {s : Text} (h : SpellsOperator s) :
    ¬ OpensWithWhere s := by
  cases s with
  | nil => exact not_opensWithWhere_nil
  | cons c s =>
    apply not_opensWithWhere_cons
    rcases h with h | h
    · have hsign : c ∈ ['=', '<', '>', '!'] :=
        (by decide : ∀ r ∈ signs, ∀ d ∈ r.head?, d ∈ ['=', '<', '>', '!']) _ h c rfl
      exact (by decide : ∀ d ∈ ['=', '<', '>', '!'], foldLetter d ≠ 'w') c hsign
    · rw [(List.cons.inj h).1]
      decide

section Tokens

variable {p : Places} {options : Options}

/-- A written token opens with the keyword if it is a word or a call that does. -/
theorem Places.opensWithWhere_render {t : Token} (h : p.Reads t) :
    OpensWithWhere (p.render t) ↔
      (t.kind = .word ∨ t.kind = .call) ∧ OpensWithWhere t.text := by
  obtain ⟨kind, text, offset⟩ := t
  cases kind with
  | operator =>
    obtain ⟨literals, interior, gs, hread⟩ := h
    have hspells : Token.SpellsOperator text := hread
    exact iff_of_false hspells.not_opensWithWhere (by simp)
  | word => simp [Places.render]
  | call => simp [Places.render]
  | literal index => exact iff_of_false (not_opensWithWhere_cons (by decide) _) (by simp)
  | group index => exact iff_of_false (not_opensWithWhere_cons (by decide) _) (by simp)

/-- The first condition goes on from the tokens that it has. -/
theorem Condition.exists_first_eq (back ts : List Token) :
    ∃ us, (splitBehind back ts).first = back.reverse ++ us := by
  induction ts generalizing back with
  | nil => exact ⟨[], (List.append_nil _).symm⟩
  | cons t ts ih =>
    cases hsep : separates back t ts with
    | true =>
      obtain ⟨⟨k, hk⟩, -, -⟩ := of_separates hsep
      rw [splitBehind_cons hk hsep]
      exact ⟨[], (List.append_nil _).symm⟩
    | false =>
      obtain ⟨us, hus⟩ := ih (t :: back)
      rw [splitBehind_cons_of_not hsep, hus, List.reverse_cons, List.append_assoc]
      exact ⟨_, rfl⟩

theorem Condition.opensWithWhere_render (t : Token) (ts : List Token) :
    OpensWithWhere (render p options (t :: ts)) ↔ OpensWithWhere (p.render t) := by
  cases ts with
  | nil => rfl
  | cons second value =>
    rw [render]
    split
    · rfl
    · split
      · unfold Comparison.render
        dsimp only
        split
        · exact opensWithWhere_append_space _ _
        · rw [List.append_assoc]
          exact opensWithWhere_append_space _ _
      · exact opensWithWhere_joinSpaced _ _

theorem Condition.opensWithWhere_renderAll (t : Token) (ts : List Token) :
    OpensWithWhere (renderAll p options (t :: ts)) ↔ OpensWithWhere (p.render t) := by
  obtain ⟨us, hus⟩ := exists_first_eq [t] ts
  rw [renderAll_eq, splitBehind_cons_of_not (separates_nil t ts)]
  show OpensWithWhere (joinSpaced (render p options (splitBehind [t] ts).first :: _)) ↔ _
  rw [opensWithWhere_joinSpaced, hus]
  exact opensWithWhere_render t us

end Tokens

/-! ## The start of a clause -/

namespace Cleaned

variable (literals : List Text) (options : Options) (interior : List Item → Cleaned)
  (items : List Item)

/-- Whether the first part of a clause opens with WHERE: its first lead, or the first token of a
clause that is not cut, as a word or as a call. -/
def ShowsWhere : Prop :=
  match (Subselect.split items).1 with
  | lead :: _ => OpensWithWhere (trim (Item.renderAll literals lead))
  | [] => ∃ t ∈ (tokensOf literals (Subselect.split items).2).head?,
      (t.kind = .word ∨ t.kind = .call) ∧ OpensWithWhere t.text

theorem opensWithWhere_predicate_iff :
    OpensWithWhere (predicate literals options interior items).text ↔
      ∃ t ∈ (tokensOf literals items).head?,
        (t.kind = .word ∨ t.kind = .call) ∧ OpensWithWhere t.text := by
  rw [predicate_eq]
  cases htokens : tokensOf literals items with
  | nil => exact iff_of_false not_opensWithWhere_nil (by simp)
  | cons t ts =>
    have hread : (placesOf literals interior items).Reads t :=
      reads_tokensOf literals interior (htokens ▸ List.mem_cons_self)
    dsimp only
    rw [Condition.opensWithWhere_renderAll, Places.opensWithWhere_render hread, List.head?_cons]
    simp

/-- A cleaned clause opens with WHERE exactly if its first part does. -/
theorem opensWithWhere_clause_iff :
    OpensWithWhere (clause literals options interior items).text ↔ ShowsWhere literals items := by
  rw [clause, ShowsWhere]
  dsimp only
  cases hleads : (Subselect.split items).1 with
  | nil =>
    dsimp only
    rw [← opensWithWhere_predicate_iff literals options interior, List.map_nil, List.nil_append]
    cases htext : (predicate literals options interior (Subselect.split items).2).text with
    | nil => rw [List.isEmpty_nil, if_pos rfl, joinSpaced_nil]
    | cons c t => rw [List.isEmpty_cons, if_neg Bool.false_ne_true, joinSpaced_singleton]
  | cons lead leads =>
    rw [List.map_cons, List.cons_append]
    exact opensWithWhere_joinSpaced _ _

end Cleaned

/-- A row limit does not open with WHERE, and does not matter behind a body. -/
theorem RowLimit.opensWithWhere_attach {body : Text} {limit : Option RowLimit}
    (hl : ∀ l ∈ limit, l.Spelled) :
    OpensWithWhere (attach body limit) ↔ OpensWithWhere body := by
  cases limit with
  | none => rfl
  | some l =>
    rw [attach]
    split
    · next hempty =>
      obtain ⟨keyword, gap, digits, htext, hk, -⟩ := hl l rfl
      rw [List.isEmpty_iff.mp hempty, htext]
      refine iff_of_false ?_ not_opensWithWhere_nil
      cases keyword with
      | nil => cases hk
      | cons c keyword =>
        apply not_opensWithWhere_cons
        rw [(List.cons.inj hk).1]
        decide
    · exact opensWithWhere_append_space body l.text

/-! ## Clauses without a further WHERE -/

section Lacks

variable {literals : List Text} {items : List Item}

theorem Piece.infix_items {p : Piece} (hp : p ∈ ofItems items) : p.items <:+: items := by
  obtain ⟨front, back, hpieces⟩ := List.append_of_mem hp
  have hitems := flatMap_items_ofItems items
  rw [hpieces, List.flatMap_append, List.flatMap_cons] at hitems
  exact ⟨front.flatMap Piece.items, back.flatMap Piece.items, by rw [← hitems, List.append_assoc]⟩

/-- What opens with WHERE in a piece spells it in the clause. -/
theorem Piece.not_lacksWhere {p : Piece} (hp : p ∈ ofItems items) {s : Text}
    (hs : s.map .char <:+: p.items) (hopens : OpensWithWhere s) :
    ¬ Subselect.LacksWhere items := by
  obtain ⟨keyword, rest, rfl, hk, -⟩ := hopens
  intro hlacks
  have hpart := hlacks.of_part (hs.trans (infix_items hp)) _ (List.suffix_refl _)
  rw [List.map_append, Subselect.spellsWhere_map_char_append hk] at hpart
  cases hpart

/-- A word or a call that opens with WHERE has its letters from the clause. -/
theorem Cleaned.not_lacksWhere {t : Token} (ht : t ∈ tokensOf literals items)
    (hkind : t.kind = .word ∨ t.kind = .call) (hopens : OpensWithWhere t.text) :
    ¬ Subselect.LacksWhere items := by
  have hmem := List.mem_map_of_mem
    (f := (placesOf literals (fun _ => ⟨[], false, false⟩) items).fill) ht
  rw [map_fill_tokensOf, lexemesOf, List.mem_flatMap] at hmem
  obtain ⟨piece, hpiece, hl⟩ := hmem
  obtain ⟨kind, text, offset⟩ := t
  cases piece with
  | text s =>
    obtain ⟨tail, found, n, hsuffix, -, he⟩ := Lexeme.exists_of_mem_ofText hl
    obtain rfl : text = tail.take n := by
      rcases hkind with rfl | rfl
      · cases found <;> cases he
        rfl
      · cases found <;> cases he <;> rfl
    apply Piece.not_lacksWhere hpiece _ hopens
    exact ((List.take_prefix n tail).isInfix.trans hsuffix.isInfix).map Item.char
  | call name arguments =>
    have hcall := List.mem_singleton.mp hl
    obtain rfl : text = name ++ '(' :: (Item.renderAll literals arguments ++ [')']) := by
      rcases hkind with rfl | rfl
      · cases hcall
      · exact (Lexeme.call.inj hcall).trans (by rw [List.append_assoc, List.cons_append])
    apply Piece.not_lacksWhere hpiece (s := name)
    · rw [Piece.items, List.append_assoc]
      exact (List.prefix_append _ _).isInfix
    · exact (opensWithWhere_append_stop (by decide) (by decide) name _).mp hopens
  | literal index =>
    have hliteral := List.mem_singleton.mp hl
    rcases hkind with rfl | rfl <;> cases hliteral
  | group inside =>
    have hgroup := List.mem_singleton.mp hl
    rcases hkind with rfl | rfl <;> cases hgroup

/-- Where WHERE is nowhere spelled, no part opens with it. -/
theorem Cleaned.not_showsWhere (h : Subselect.LacksWhere items) : ¬ ShowsWhere literals items := by
  rw [ShowsWhere, Subselect.split_of_whereFree (h.whereFree false)]
  rintro ⟨t, ht, hkind, hopens⟩
  exact not_lacksWhere (List.mem_of_mem_head? ht) hkind hopens h

end Lacks

/-! ## Formatted clauses -/

/-- A formatted clause has its keyword twice exactly if the first part of the clause opens with
WHERE once one WHERE at its start and the row limit are gone: its first lead, or its first token if
it is not cut. So it has it once if the letters of WHERE stand nowhere else outside literals. -/
theorem withWhere_doubles_iff (options : Options) (raw : Text) :
    (DoublesWhere (withWhere (cleanClauseWith options raw)) ↔
        Cleaned.ShowsWhere (Fragment.literals (Normal.detached raw).1) (Normal.body raw)) ∧
      (Subselect.LacksWhere (Normal.body raw) →
        ¬ DoublesWhere (withWhere (cleanClauseWith options raw))) := by
  have hends : cleanClauseWith options raw = [] ∨ Flush (cleanClauseWith options raw) :=
    (cleanClauseWith_ends options raw).imp id And.left
  have hl : ∀ l ∈ (Normal.detached raw).2, l.Spelled := by
    intro l hl
    have hd : Normal.detached raw = ((Normal.detached raw).1, some l) := Prod.ext rfl hl
    obtain ⟨-, -, -, -, hspelled, -, -⟩ := RowLimit.exists_of_detach hd
    exact hspelled
  have hiff : DoublesWhere (withWhere (cleanClauseWith options raw)) ↔
      Cleaned.ShowsWhere (Fragment.literals (Normal.detached raw).1) (Normal.body raw) := by
    rw [doublesWhere_withWhere hends, cleanClauseWith, Normal.ofText_eq]
    dsimp only
    rw [RowLimit.opensWithWhere_attach hl, Fragment.cleaned, Cleaned.group]
    exact Cleaned.opensWithWhere_clause_iff _ _ _ _
  exact ⟨hiff, fun hlacks hdoubles => Cleaned.not_showsWhere hlacks (hiff.mp hdoubles)⟩

/-- The letters of WHERE in a literal do not count. -/
theorem withWhere_doubles_iff_literal :
    Subselect.LacksWhere (Normal.body "where\tName = 'WHERE WHERE' LIMIT 5".toList) ∧
      ¬ DoublesWhere (withWhere (cleanClauseWith Options.standard
        "where\tName = 'WHERE WHERE' LIMIT 5".toList)) := by
  have hlacks : Subselect.LacksWhere
      (Normal.body "where\tName = 'WHERE WHERE' LIMIT 5".toList) := by
    decide +kernel
  exact ⟨hlacks, (withWhere_doubles_iff Options.standard _).2 hlacks⟩

/-- One WHERE is stripped, the other is kept as a lead. -/
theorem formatClause_doubles_where :
    formatClause "WHERE WHERE Name = Acme".toList = "WHERE WHERE Name = 'Acme'".toList ∧
      DoublesWhere (formatClause "WHERE WHERE Name = Acme".toList) ∧
      ¬ ∀ raw, ¬ DoublesWhere (formatClause raw) := by
  have htext : formatClause "WHERE WHERE Name = Acme".toList =
      "WHERE WHERE Name = 'Acme'".toList := by
    decide +kernel
  have hdoubles : DoublesWhere (formatClause "WHERE WHERE Name = Acme".toList) := by
    rw [htext]
    exact ⟨"WHERE".toList, [' '], "WHERE Name = 'Acme'".toList, by decide, by decide, by decide,
      by decide, "WHERE".toList, " Name = 'Acme'".toList, by decide, by decide, by decide⟩
  exact ⟨htext, hdoubles, fun h => h _ hdoubles⟩

end FilterClause
