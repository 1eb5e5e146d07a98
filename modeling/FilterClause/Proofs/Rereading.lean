import FilterClause.Proofs.ReadBack
import FilterClause.Proofs.Runs
import FilterClause.Proofs.Spellings
import Mathlib.Data.List.TakeWhile

/-!
# Lexemes that are read back

A lexeme is written so that it is read as the same lexeme, wherever it stands between blanks: a
word stays a word and an operator an operator, also in capitals; a literal without apostrophes, a
call of such literals, and a group whose interior is cleaned to itself. So texts joined by spaces
are read as their lexemes in a row (`ReadAs.renderAll`).
-/

namespace FilterClause

open Text

namespace Lexeme

/-- An operator alone is read as one. -/
theorem ofText_of_spellsOperator {s : Text} (h : Token.SpellsOperator s) :
    ofText s = [.operator s] := by
  rcases h with h | h
  · exact (by decide : ∀ r ∈ Token.signs, ofText r = [.operator r]) s h
  · have hlen : s.length = 4 := by simpa using congrArg List.length h
    have hstrip : stripKeyword ['l', 'i', 'k', 'e'] s = some [] :=
      stripKeyword_eq_some_iff.mpr ⟨s, (List.append_nil s).symm, h⟩
    have hlike : Token.likeLength? s = some 4 := by
      rw [Token.likeLength?, hstrip]
      rfl
    have hop : Token.operatorLength? s = some 4 := by
      cases s with
      | nil => cases hlen
      | cons c t =>
        have hletter : foldLetter c ∈ keywordLetters := by
          rw [(List.cons.inj h).1]
          decide
        have hpart : Token.isWordPart c = true := by
          simp [Token.isWordPart, isWord_of_foldLetter hletter]
        rw [Token.operatorLength?_of_isWordPart hpart, hlike]
    have hlex : Token.lexeme? (s ++ []) = some (.operator, s.length) := by
      rw [List.append_nil, Token.lexeme?, hop, hlen]
    have hne : s ≠ [] := fun e => by simp [e] at hlen
    have hread := ofText_append hne hlex
    rwa [List.append_nil] at hread

end Lexeme

/-! ## Calls -/

namespace Piece

/-- The items between the brackets of a call. -/
def arguments? : Piece → Option (List Item)
  | .call _ arguments => some arguments
  | _ => none

/-- A call is a piece alone. -/
theorem ofItems_call {name : Text} {arguments : List Item} (hne : name ≠ [])
    (hname : ∀ c ∈ name, isName c = true) (hb : Bracket.Balanced arguments) :
    ofItems (items (.call name arguments)) = [.call name arguments] := by
  have hopen : '(' ∉ name := (Fragment.Plain.of_isName hname).not_mem_open
  have hback : ∀ c ∈ name.reverse, isName c = true := fun c hc => hname c (List.mem_reverse.mp hc)
  have htake := List.takeWhile_eq_self_iff.mpr hback
  have hdrop := List.dropWhile_eq_nil_iff.mpr hback
  rw [items, List.append_assoc, ofItems_map_char_append hopen, List.cons_append,
    Bracket.groups_group hb []]
  simp [behindRun, ofRun, htake, hdrop, hne]

end Piece

/-! ## Texts that are read as lexemes -/

namespace Fragment

/-- Whether a text is cleaned to itself, when so many levels of groups are left. -/
structure Fixed (options : Options) (levels : Nat) (t : Text) : Prop where
  closed : Lifted.Closed t
  balanced : Bracket.Balanced (Lifted.items t)
  cleaned : (cleaned options levels t).text = t

/-- Whether a text is read as lexemes, wherever it stands between blanks, when so many levels of
groups are left. -/
structure ReadAs (options : Options) (levels : Nat) (t : Text) (ls : List Lexeme) : Prop where
  closed : Lifted.Closed t
  balanced : Bracket.Balanced (Lifted.items t)
  lexemes : lexemes options levels t = ls

namespace ReadAs

variable {options : Options} {levels : Nat}

theorem nil : ReadAs options levels [] [] := ⟨Lifted.closed_nil, .nil, rfl⟩

/-- Two texts with a space between them are read one after the other. -/
theorem append {s t : Text} {ls ms : List Lexeme} (hs : ReadAs options levels s ls)
    (ht : ReadAs options levels t ms) : ReadAs options levels (s ++ ' ' :: t) (ls ++ ms) := by
  have hspace : isBlank ' ' = true := by decide
  have hbracket := Item.not_bracket_of_isBlank hspace
  have hclosed : Lifted.Closed [' '] := Lifted.closed_of_no_quotes (by decide)
  refine ⟨hs.closed.append (hclosed.append ht.closed), ?_, ?_⟩
  · rw [items_append_blank hs.closed hspace]
    exact hs.balanced.append (.item hbracket.1 hbracket.2 (ht.balanced.renumber _))
  · rw [(cutAtBlanks_lexemes options levels).append_blank hs.closed hs.balanced hspace,
      hs.lexemes, ht.lexemes]

/-- Lexemes that are each read back are read back in a row. -/
theorem renderAll {ls : List Lexeme} (h : ∀ l ∈ ls, ReadAs options levels l.render [l]) :
    ReadAs options levels (joinSpaced (ls.map Lexeme.render)) ls := by
  induction ls with
  | nil =>
    rw [List.map_nil, joinSpaced_nil]
    exact nil
  | cons l ls ih =>
    obtain ⟨hl, hls⟩ := List.forall_mem_cons.mp h
    cases ls with
    | nil =>
      rw [List.map_singleton, joinSpaced_singleton]
      exact hl
    | cons m ms =>
      rw [List.map_cons, joinSpaced_cons (by simp)]
      exact hl.append (ih hls)

/-- A text without quotes and brackets is read as it is read as text. -/
theorem of_plain {t : Text} (h : Plain t) : ReadAs options levels t (Lexeme.ofText t) := by
  refine ⟨Lifted.closed_of_no_quotes h.not_quote, ?_, lexemes_of_plain options levels h⟩
  rw [Lifted.items_of_no_quotes h.not_quote]
  exact h.balanced

theorem word {s : Text} (hne : s ≠ []) (hpart : ∀ c ∈ s, Token.isWordPart c = true)
    (hlike : Token.likeLength? s = none) : ReadAs options levels s [.word s] := by
  have h : ReadAs options levels s (Lexeme.ofText s) := of_plain (.of_isWordPart hpart)
  rwa [Lexeme.ofText_run hpart hlike, words_of_forall hne hpart] at h

theorem operator {s : Text} (h : Token.SpellsOperator s) :
    ReadAs options levels s [.operator s] := by
  rw [← Lexeme.ofText_of_spellsOperator h]
  exact of_plain h.plain

theorem connective (k : Connective) : ReadAs options levels k.text [.word k.text] := by
  have hspells := sameIgnoringCase_refl k.text
  rw [← k.ofText_of_spelling hspells]
  exact of_plain (.of_isWordPart (k.isWordPart_of_spelling hspells))

/-- A literal without apostrophes. -/
theorem literal {content : Text} (h : singleQuote ∉ content) :
    ReadAs options levels (singleQuote :: content ++ [singleQuote]) [.literal content] := by
  have hplain : Plain [] := nofun
  have hquote : Lifted.isQuote singleQuote = true := rfl
  refine ⟨fun c hc => ?_, ?_, lexemes_plain_literal options levels hplain hquote h⟩
  · have hparts : Lifted.parts (singleQuote :: content ++ [singleQuote]) = [.inr content] :=
      parts_plain_literal hplain hquote h
    rw [hparts] at hc
    cases List.mem_singleton.mp hc
  · have hitems : Lifted.items (singleQuote :: content ++ [singleQuote]) = [.literal 0] :=
      items_plain_literal hplain hquote h
    rw [hitems]
    exact .item nofun nofun .nil

/-- A text that is cleaned to itself, between brackets. -/
theorem group {t : Text} (h : Fixed options levels t) :
    ReadAs options levels ('(' :: t ++ [')']) [.group t] := by
  refine ⟨h.closed.bracketed, ?_, ?_⟩
  · rw [List.cons_append, items_bracketed]
    exact .group h.balanced .nil
  · rw [List.cons_append, lexemes_bracketed options levels h.balanced, h.cleaned]

/-- A call whose literals hold no apostrophes. -/
theorem call {literals : List Text} {name : Text} {arguments : List Item} (hne : name ≠ [])
    (hname : ∀ c ∈ name, isName c = true) (hb : Bracket.Balanced arguments)
    (hq : Item.Quoteless (Piece.items (.call name arguments)))
    (hw : Item.Writable literals arguments) :
    ReadAs options levels (name ++ '(' :: Item.renderAll literals arguments ++ [')'])
      [.call (name ++ '(' :: Item.renderAll literals arguments ++ [')'])] := by
  have hplain : Plain name := .of_isName hname
  have hwritable : Item.Writable literals (Piece.items (.call name arguments)) := by
    intro index hi
    refine hw index ?_
    simpa [Piece.items] using hi
  have hbalanced : Bracket.Balanced (Piece.items (.call name arguments)) := by
    have hgroup := hplain.balanced.append (.group hb .nil)
    simpa [Piece.items] using hgroup
  have hlexemes := lexemes_renderAll hq hwritable options levels
  rw [← Piece.renderAll_call]
  refine ⟨Item.closed_renderAll hq hwritable,
    hbalanced.of_parts (Item.parts_items_renderAll hq hwritable).symm, ?_⟩
  rw [hlexemes, Cleaned.lexemesOf, Piece.ofItems_call hne hname hb, List.flatMap_singleton,
    Piece.lexemes, Piece.renderAll_call]

/-- A lexeme of text is read back as it is written. -/
theorem of_mem_ofText {t : Text} (ht : Plain t) {l : Lexeme} (hl : l ∈ Lexeme.ofText t) :
    ReadAs options levels l.render [l] := by
  let gs : List (Item ⊕ List Item) := t.map fun c => .inl (.char c)
  have houter : Piece.outerChars gs = t := by
    have happend := Piece.outerChars_append t []
    rw [List.append_nil] at happend
    exact happend.trans (List.append_nil t)
  have hflat : ∀ g ∈ gs, ∃ c, g = .inl (.char c) := by
    intro g hg
    obtain ⟨c, -, rfl⟩ := List.mem_map.mp hg
    exact ⟨c, rfl⟩
  have hread := Lexeme.readFrom_ofText [] (fun _ => []) gs (houter ▸ List.Sublist.refl _) l hl
  cases l with
  | operator s => exact operator hread
  | word s => exact word hread.1 hread.2.1 hread.2.2
  | call s =>
    obtain ⟨name, arguments, rfl, -, hsub | ⟨-, items, hitems, -⟩⟩ := hread
    · rw [houter] at hsub
      exact absurd (hsub.subset (by simp)) ht.not_mem_open
    · obtain ⟨c, hc⟩ := hflat _ hitems
      cases hc
  | literal content =>
    obtain ⟨index, hindex, -⟩ := hread
    obtain ⟨c, hc⟩ := hflat _ hindex
    cases hc
  | group t =>
    obtain ⟨items, hitems, -⟩ := hread
    obtain ⟨c, hc⟩ := hflat _ hitems
    cases hc

end ReadAs

end Fragment

/-! ## Lexemes of a predicate -/

namespace Cleaned

open Fragment

/-- A lexeme of a predicate is read back as it is written, if it is no literal with an apostrophe. -/
theorem readAs_lexemesOf {options : Options} {levels : Nat} {literals : List Text}
    {f : List Item → Cleaned} {items : List Item} (hb : Bracket.Balanced items)
    (hq : Item.Quoteless items)
    (hcalls : ∀ arguments ∈ (Piece.ofItems items).filterMap Piece.arguments?,
      Item.Writable literals arguments)
    (hgroups : ∀ interior ∈ (Piece.ofItems items).filterMap Piece.interior?,
      Fixed options levels (f interior).text)
    {l : Lexeme} (hl : l ∈ lexemesOf literals f items)
    (hliteral : ∀ content, l = .literal content → singleQuote ∉ content) :
    ReadAs options levels l.render [l] := by
  obtain ⟨p, hp, hl⟩ := List.mem_flatMap.mp hl
  cases p with
  | text t => exact .of_mem_ofText (Piece.plain_text hb hq hp) hl
  | literal index =>
    obtain rfl := List.mem_singleton.mp hl
    exact .literal (hliteral _ rfl)
  | call name arguments =>
    obtain rfl := List.mem_singleton.mp hl
    obtain ⟨hne, hname, harguments⟩ := Piece.within_ofItems hp
    exact .call hne hname (Bracket.balanced_of_mem_groups harguments)
      (hq.of_subset (Piece.items_subset hb hp))
      (hcalls arguments (List.mem_filterMap.mpr ⟨_, hp, rfl⟩))
  | group interior =>
    obtain rfl := List.mem_singleton.mp hl
    exact .group (hgroups interior (List.mem_filterMap.mpr ⟨_, hp, rfl⟩))

end Cleaned

end FilterClause
