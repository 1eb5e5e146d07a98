import FilterClause.Proofs.Renumbering
import Mathlib.Data.List.GetD

/-!
# Fragments

A fragment is a text that can stand for a whole clause or for the interior of a group: its quotes
close, its brackets balance and no WHERE stands alone in it. Such a text is cleaned by its lexemes,
and the lexemes of two fragments with blanks between them are those of the first and then those of
the second, and so are its groups (`CutAtBlanks`).
-/

namespace FilterClause

open Text

/-- A text that is a predicate of its own. -/
structure Fragment (t : Text) : Prop where
  closed : Lifted.Closed t
  balanced : Bracket.Balanced (Lifted.items t)
  whereFree : Subselect.WhereFree false (Lifted.items t)

namespace Fragment

/-! ## Reading a text -/

/-- The contents of the literals of a text. -/
def literals (t : Text) : List Text := Lifted.contents (Lifted.parts t)

/-- The tokens of a text. -/
def tokens (t : Text) : List Token := Cleaned.tokensOf (literals t) (Lifted.items t)

variable (options : Options) (levels : Nat)

/-- A text cleaned with so many levels of groups left. -/
def cleaned (t : Text) : Cleaned := Cleaned.group (literals t) options levels (Lifted.items t)

/-- The groups of a text, cleaned with so many levels left. -/
def groups (t : Text) : List Cleaned :=
  Cleaned.groupsOf (Cleaned.group (literals t) options levels) (Lifted.items t)

/-- What the places in the tokens of a text stand for. -/
def places (t : Text) : Places :=
  Cleaned.placesOf (literals t) (Cleaned.group (literals t) options levels) (Lifted.items t)

/-- The lexemes of a text. -/
def lexemes (t : Text) : List Lexeme :=
  Cleaned.lexemesOf (literals t) (Cleaned.group (literals t) options levels) (Lifted.items t)

theorem map_fill_tokens (t : Text) :
    (tokens t).map (places options levels t).fill = lexemes options levels t :=
  Cleaned.map_fill_tokensOf _ _ _

/-! ## Texts with blanks between them -/

theorem literals_append {x : Text} (hx : Lifted.Closed x) (y : Text) :
    literals (x ++ y) = literals x ++ literals y := by
  rw [literals, Lifted.parts_append_of_closed hx, Lifted.contents_append, literals, literals]

/-- The items of joined texts: those of the second have moved on by the literals of the first. -/
theorem items_append {x : Text} (hx : Lifted.Closed x) (y : Text) :
    Lifted.items (x ++ y) =
      Lifted.items x ++ (Lifted.items y).map (Item.renumber (· + (literals x).length)) := by
  rw [Lifted.items, Lifted.parts_append_of_closed hx, Item.number_append, Item.number_add]
  rfl

theorem literals_append_blank {x : Text} (hx : Lifted.Closed x) {b : Char}
    (hb : isBlank b = true) (y : Text) : literals (x ++ b :: y) = literals x ++ literals y := by
  rw [literals_append hx]
  refine congrArg (literals x ++ ·) ?_
  rw [literals, Lifted.parts_cons_of_not_quote (isQuote_of_isBlank hb)]
  rfl

theorem items_append_blank {x : Text} (hx : Lifted.Closed x) {b : Char} (hb : isBlank b = true)
    (y : Text) :
    Lifted.items (x ++ b :: y) = Lifted.items x ++
      .char b :: (Lifted.items y).map (Item.renumber (· + (literals x).length)) := by
  rw [items_append hx]
  refine congrArg (Lifted.items x ++ ·) ?_
  rw [Lifted.items, Lifted.parts_cons_of_not_quote (isQuote_of_isBlank hb)]
  rfl

section Contents

variable (x y : Text)

/-- Numbers of the literals of a text among those of it and more texts behind. -/
def keep (n : Nat) : Nat := if n < (literals x).length then n else n + (literals y).length

theorem map_renumber_keep : (Lifted.items x).map (Item.renumber (keep x y)) = Lifted.items x := by
  refine Item.map_renumber_of_fixed _ fun n hn => if_pos ?_
  have := Item.number_lt hn
  rwa [Nat.zero_add] at this

theorem getD_keep (n : Nat) :
    (literals x ++ literals y).getD (keep x y n) [] = (literals x).getD n [] := by
  unfold keep
  split
  · next h => rw [List.getD_append _ _ _ _ h]
  · next h =>
    have hle : (literals x).length ≤ n := Nat.le_of_not_lt h
    rw [List.getD_eq_default _ _ hle, List.getD_eq_default]
    rw [List.length_append]
    omega

theorem getD_shift (n : Nat) :
    (literals x ++ literals y).getD (n + (literals x).length) [] = (literals y).getD n [] := by
  rw [List.getD_append_right _ _ _ _ (Nat.le_add_left _ _), Nat.add_sub_cancel]

end Contents

/-! ## Cutting at blanks -/

/-- What is read off a text part by part: blanks outside literals and groups cut it. -/
structure CutAtBlanks {α : Type} (f : Text → List α) : Prop where
  nil : f [] = []
  append_blank : ∀ {x : Text} {b : Char}, Lifted.Closed x → Bracket.Balanced (Lifted.items x) →
    isBlank b = true → ∀ y, f (x ++ b :: y) = f x ++ f y

theorem cutAtBlanks_lexemes : CutAtBlanks (lexemes options levels) where
  nil := rfl
  append_blank := by
    intro x b hx hb hblank y
    have hkeep := Cleaned.lexemesOf_renumber (getD_keep x y) _ _
      (Cleaned.group_renumber (getD_keep x y) options levels) (Lifted.items x)
    have hshift := Cleaned.lexemesOf_renumber (getD_shift x y) _ _
      (Cleaned.group_renumber (getD_shift x y) options levels) (Lifted.items y)
    rw [map_renumber_keep] at hkeep
    rw [lexemes, items_append_blank hx hblank, literals_append_blank hx hblank, Cleaned.lexemesOf,
      Piece.flatMap_ofItems_append (Piece.partsAtBlanks_lexemes _ _) hblank hb,
      ← Cleaned.lexemesOf, ← Cleaned.lexemesOf, hkeep, hshift, lexemes, lexemes]

theorem cutAtBlanks_groups : CutAtBlanks (groups options levels) where
  nil := rfl
  append_blank := by
    intro x b hx hb hblank y
    have hkeep := Cleaned.groupsOf_renumber _ _
      (Cleaned.group_renumber (getD_keep x y) options levels) (Lifted.items x)
    have hshift := Cleaned.groupsOf_renumber _ _
      (Cleaned.group_renumber (getD_shift x y) options levels) (Lifted.items y)
    rw [map_renumber_keep] at hkeep
    rw [groups, items_append_blank hx hblank, literals_append_blank hx hblank, Cleaned.groupsOf,
      Piece.filterMap_interior?,
      Piece.flatMap_ofItems_append Piece.partsAtBlanks_interior hblank hb,
      ← Piece.filterMap_interior?, ← Piece.filterMap_interior?, List.map_append,
      ← Cleaned.groupsOf, ← Cleaned.groupsOf, hkeep, hshift, groups, groups]

namespace CutAtBlanks

variable {α : Type} {f : Text → List α} (hf : CutAtBlanks f) {bs : Text}
  (hall : ∀ b ∈ bs, isBlank b = true)

include hf hall

/-- Nothing is read off blanks. -/
theorem blanks_append (y : Text) : f (bs ++ y) = f y := by
  induction bs with
  | nil => rfl
  | cons b bs ih =>
    have hb := hf.append_blank Lifted.closed_nil .nil (hall b List.mem_cons_self) (bs ++ y)
    rw [List.nil_append, hf.nil, List.nil_append] at hb
    exact hb.trans (ih fun c hc => hall c (List.mem_cons_of_mem _ hc))

variable {x : Text} (hx : Lifted.Closed x) (hb : Bracket.Balanced (Lifted.items x))

include hx hb

/-- Texts with blanks between them are read one after the other. -/
theorem append_blanks (hne : bs ≠ []) (y : Text) : f (x ++ bs ++ y) = f x ++ f y := by
  obtain ⟨b, bs, rfl⟩ := List.exists_cons_of_ne_nil hne
  rw [List.append_assoc, List.cons_append, hf.append_blank hx hb (hall b List.mem_cons_self),
    hf.blanks_append fun c hc => hall c (List.mem_cons_of_mem _ hc)]

end CutAtBlanks

/-! ## Plain text and groups -/

/-- A text without quotes and brackets. -/
def Plain (t : Text) : Prop := ∀ c ∈ t, Lifted.isQuote c = false ∧ c ≠ '(' ∧ c ≠ ')'

namespace Plain

theorem append {s t : Text} (hs : Plain s) (ht : Plain t) : Plain (s ++ t) :=
  fun c hc => (List.mem_append.mp hc).elim (hs c) (ht c)

theorem of_blanks {t : Text} (h : ∀ c ∈ t, isBlank c = true) : Plain t := fun c hc =>
  ⟨isQuote_of_isBlank (h c hc), ne_of_isBlank (h c hc) (by decide),
    ne_of_isBlank (h c hc) (by decide)⟩

theorem of_not_mem_marks {t : Text} (h : ∀ c ∈ t, c ∉ marks) : Plain t := by
  intro c hc
  have h₁ : c ≠ singleQuote := fun e => h c hc (e ▸ by decide)
  have h₂ : c ≠ doubleQuote := fun e => h c hc (e ▸ by decide)
  exact ⟨by simp [Lifted.isQuote, h₁, h₂], fun e => h c hc (e ▸ by decide),
    fun e => h c hc (e ▸ by decide)⟩

theorem of_isWordPart {t : Text} (h : ∀ c ∈ t, Token.isWordPart c = true) : Plain t :=
  .of_not_mem_marks fun c hc => not_mem_marks_of_isWordPart (h c hc)

theorem of_isName {t : Text} (h : ∀ c ∈ t, isName c = true) : Plain t :=
  .of_not_mem_marks fun c hc hm =>
    Bool.false_ne_true ((isName_of_mem_marks c hm).symm.trans (h c hc))

theorem of_spelling {keyword w : Text} (hw : w.map foldLetter = keyword)
    (hk : ∀ k ∈ keyword, k ∈ keywordLetters) : Plain w :=
  .of_isName fun c hc => isName_of_foldLetter (foldLetter_mem_of_spelling hw hk c hc)

variable {t : Text} (h : Plain t)

include h

theorem not_quote : ∀ c ∈ t, Lifted.isQuote c = false := fun c hc => (h c hc).1

theorem not_mem_singleQuote : singleQuote ∉ t :=
  fun hm => absurd (h.not_quote _ hm) (by decide)

theorem not_mem_open : '(' ∉ t := fun hm => (h _ hm).2.1 rfl

theorem not_mem_close : ')' ∉ t := fun hm => (h _ hm).2.2 rfl

theorem not_bracket : ∀ i ∈ t.map Item.char, i ≠ .char '(' ∧ i ≠ .char ')' := by
  intro i hi
  obtain ⟨c, hc, rfl⟩ := List.mem_map.mp hi
  exact ⟨fun e => (h c hc).2.1 (Item.char.inj e), fun e => (h c hc).2.2 (Item.char.inj e)⟩

theorem balanced : Bracket.Balanced (t.map .char) := Bracket.balanced_of_no_brackets h.not_bracket

end Plain

section Padded

variable {l r : Text} (hl : Plain l) (hr : Plain r) (t : Text)

include hl hr

/-- Text without quotes and brackets at the ends of a text has no part in its literals. -/
theorem parts_padded :
    Lifted.parts (l ++ t ++ r) = l.map .inl ++ (Lifted.parts t ++ r.map .inl) := by
  rw [List.append_assoc, Lifted.parts_append_of_closed (Lifted.closed_of_no_quotes hl.not_quote),
    Lifted.parts_of_no_quotes hl.not_quote, Lifted.parts_append_of_no_quotes _ hr.not_quote]

theorem literals_padded : literals (l ++ t ++ r) = literals t := by
  rw [literals, parts_padded hl hr, Lifted.contents_append, Lifted.contents_append,
    Lifted.contents_map_inl, Lifted.contents_map_inl, List.append_nil, List.nil_append, literals]

theorem items_padded :
    Lifted.items (l ++ t ++ r) = l.map .char ++ (Lifted.items t ++ r.map .char) := by
  rw [Lifted.items, parts_padded hl hr, Item.number_append, Item.number_append,
    Item.number_map_inl, Item.number_map_inl, Lifted.contents_map_inl]
  rfl

variable {t}

theorem balanced_of_padded (h : Bracket.Balanced (Lifted.items (l ++ t ++ r))) :
    Bracket.Balanced (Lifted.items t) := by
  rw [items_padded hl hr] at h
  exact .of_append_items hr.not_bracket (.of_items_append hl.not_bracket h)

end Padded

section Plain

variable {t : Text} (h : Plain t)

include h

/-- A text without quotes and brackets has the lexemes of its words. -/
theorem lexemes_of_plain : lexemes options levels t = Lexeme.ofText t := by
  rw [lexemes, Cleaned.lexemesOf, Lifted.items_of_no_quotes h.not_quote,
    Piece.ofItems_map_char h.not_mem_open, Piece.flatMap_ofRun (Piece.partsAtBlanks_lexemes _ _),
    List.reverse_reverse, Piece.lexemes]

theorem groups_of_plain : groups options levels t = [] := by
  rw [groups, Cleaned.groupsOf, Lifted.items_of_no_quotes h.not_quote,
    Piece.ofItems_map_char h.not_mem_open, Piece.filterMap_interior?,
    Piece.flatMap_ofRun Piece.partsAtBlanks_interior]
  rfl

variable {q : Char} (hq : Lifted.isQuote q = true) {content : Text} (hc : q ∉ content)

include hq hc

theorem parts_plain_literal :
    Lifted.parts (t ++ (q :: content ++ [q])) = t.map .inl ++ [.inr content] := by
  rw [Lifted.parts_append_of_closed (Lifted.closed_of_no_quotes h.not_quote),
    Lifted.parts_of_no_quotes h.not_quote, List.cons_append, Lifted.parts_literal hq hc,
    Lifted.parts_nil]

theorem items_plain_literal :
    Lifted.items (t ++ (q :: content ++ [q])) = t.map .char ++ [.literal 0] := by
  rw [Lifted.items, parts_plain_literal h hq hc, Item.number_append, Item.number_map_inl,
    Lifted.contents_map_inl]
  rfl

theorem literals_plain_literal : literals (t ++ (q :: content ++ [q])) = [content] := by
  rw [literals, parts_plain_literal h hq hc, Lifted.contents_append, Lifted.contents_map_inl]
  rfl

/-- A literal behind a text without quotes and brackets. -/
theorem lexemes_plain_literal :
    lexemes options levels (t ++ (q :: content ++ [q])) =
      Lexeme.ofText t ++ [.literal content] := by
  rw [lexemes, Cleaned.lexemesOf, items_plain_literal h hq hc, literals_plain_literal h hq hc,
    Piece.ofItems_map_char_literal h.not_mem_open, List.flatMap_append,
    Piece.flatMap_ofRun (Piece.partsAtBlanks_lexemes _ _), List.reverse_reverse, Piece.lexemes]
  rfl

theorem groups_plain_literal : groups options levels (t ++ (q :: content ++ [q])) = [] := by
  rw [groups, Cleaned.groupsOf, items_plain_literal h hq hc,
    Piece.ofItems_map_char_literal h.not_mem_open, Piece.filterMap_interior?, List.flatMap_append,
    Piece.flatMap_ofRun Piece.partsAtBlanks_interior]
  rfl

end Plain

theorem literals_bracketed (t : Text) : literals ('(' :: (t ++ [')'])) = literals t := by
  rw [literals, Lifted.parts_bracketed]
  show Lifted.contents (Lifted.parts t ++ [.inl ')']) = literals t
  rw [Lifted.contents_append]
  exact List.append_nil _

theorem items_bracketed (t : Text) :
    Lifted.items ('(' :: (t ++ [')'])) = .char '(' :: (Lifted.items t ++ [.char ')']) := by
  rw [Lifted.items, Lifted.parts_bracketed, Item.number, Item.number_append]
  rfl

section Bracketed

variable {t : Text} (hb : Bracket.Balanced (Lifted.items t))

include hb

theorem ofItems_bracketed :
    Piece.ofItems (Lifted.items ('(' :: (t ++ [')']))) = [.group (Lifted.items t)] := by
  rw [items_bracketed, Piece.ofItems, Bracket.groups_group hb []]
  rfl

/-- A text between brackets is one lexeme, the cleaned text. -/
theorem lexemes_bracketed :
    lexemes options levels ('(' :: (t ++ [')'])) =
      [.group (cleaned options levels t).text] := by
  rw [lexemes, Cleaned.lexemesOf, ofItems_bracketed hb, literals_bracketed]
  rfl

theorem groups_bracketed :
    groups options levels ('(' :: (t ++ [')'])) = [cleaned options levels t] := by
  rw [groups, Cleaned.groupsOf, ofItems_bracketed hb, literals_bracketed]
  rfl

end Bracketed

/-! ## Cleaning a fragment -/

/-- A text that is not cut is cleaned by its tokens and its groups. -/
theorem cleaned_of_uncut {t : Text}
    (h : Subselect.split (Lifted.items t) = ([], Lifted.items t)) :
    cleaned options (levels + 1) t =
      ⟨Condition.renderAll (places options levels t) options (tokens t),
        (Piece.ofItems (Lifted.items t)).any Piece.hasLooseBracket ||
          (groups options levels t).any Cleaned.looseBracket,
        (groups options levels t).any Cleaned.tooDeep⟩ := by
  rw [cleaned, Cleaned.group, Cleaned.clause_of_uncut _ _ _ h, Cleaned.predicate_eq]
  rfl

/-- A fragment is cleaned by its tokens and its groups. -/
theorem cleaned_eq {t : Text} (h : Fragment t) :
    cleaned options (levels + 1) t =
      ⟨Condition.renderAll (places options levels t) options (tokens t),
        (groups options levels t).any Cleaned.looseBracket,
        (groups options levels t).any Cleaned.tooDeep⟩ := by
  have hloose : (Piece.ofItems (Lifted.items t)).any Piece.hasLooseBracket = false :=
    Piece.not_hasLooseBracket_of_balanced h.balanced
  rw [cleaned_of_uncut options levels (Subselect.split_of_whereFree h.whereFree), hloose,
    Bool.false_or]

/-! ## Building fragments -/

theorem nil : Fragment [] := ⟨Lifted.closed_nil, .nil, trivial⟩

section Build

variable {bs : Text} (hall : ∀ b ∈ bs, isBlank b = true)

include hall

theorem blanks_append_iff {t : Text} : Fragment (bs ++ t) ↔ Fragment t := by
  induction bs with
  | nil => rfl
  | cons b bs ih =>
    have hb := hall b List.mem_cons_self
    have hparts := Lifted.parts_cons_of_not_quote (isQuote_of_isBlank hb) (bs ++ t)
    obtain ⟨hopen, hclose⟩ := Item.not_bracket_of_isBlank hb
    have hname : (Item.char b).isName = false := isName_of_isBlank hb
    have hitems : Lifted.items (b :: (bs ++ t)) = .char b :: Lifted.items (bs ++ t) := by
      rw [Lifted.items, hparts]
      rfl
    rw [List.cons_append, ← ih fun c hc => hall c (List.mem_cons_of_mem _ hc)]
    constructor
    · rintro ⟨hclosed, hbal, hfree⟩
      rw [hitems] at hbal hfree
      rw [Lifted.Closed, hparts] at hclosed
      refine ⟨fun c hc => hclosed c (List.mem_cons_of_mem _ hc),
        (Bracket.balanced_cons_iff hopen hclose).mp hbal, ?_⟩
      rw [Subselect.WhereFree, hname] at hfree
      exact hfree.2
    · rintro ⟨hclosed, hbal, hfree⟩
      constructor
      case closed =>
        intro c hc
        rw [hparts, List.mem_cons] at hc
        rcases hc with e | hc
        · exact Sum.inl.inj e ▸ isQuote_of_isBlank hb
        · exact hclosed c hc
      case balanced =>
        rw [hitems]
        exact .item hopen hclose hbal
      case whereFree =>
        rw [hitems]
        have hnil : Subselect.WhereFree false [] := trivial
        exact Subselect.WhereFree.append hname hnil hfree

/-- Two fragments with blanks between them are one. -/
theorem append_blanks (hne : bs ≠ []) {x y : Text} (hx : Fragment x) (hy : Fragment y) :
    Fragment (x ++ bs ++ y) := by
  obtain ⟨b, bs, rfl⟩ := List.exists_cons_of_ne_nil hne
  have hb := hall b List.mem_cons_self
  obtain ⟨hopen, hclose⟩ := Item.not_bracket_of_isBlank hb
  have hname : (Item.char b).isName = false := isName_of_isBlank hb
  have hrest : Fragment (bs ++ y) :=
    (blanks_append_iff fun c hc => hall c (List.mem_cons_of_mem _ hc)).mpr hy
  have htail : Lifted.Closed (b :: (bs ++ y)) := by
    intro c hc
    rw [Lifted.parts_cons_of_not_quote (isQuote_of_isBlank hb), List.mem_cons] at hc
    rcases hc with e | hc
    · exact Sum.inl.inj e ▸ isQuote_of_isBlank hb
    · exact hrest.closed c hc
  rw [List.append_assoc, List.cons_append]
  refine ⟨hx.closed.append htail, ?_, ?_⟩
  · rw [items_append_blank hx.closed hb]
    exact hx.balanced.append (.item hopen hclose (hrest.balanced.renumber _))
  · rw [items_append_blank hx.closed hb]
    exact Subselect.WhereFree.append hname hx.whereFree
      (hrest.whereFree.renumber _)

theorem lacksWhere_append_blanks (hne : bs ≠ []) {x y : Text} (hx : Lifted.Closed x)
    (hlx : Subselect.LacksWhere (Lifted.items x)) (hly : Subselect.LacksWhere (Lifted.items y)) :
    Subselect.LacksWhere (Lifted.items (x ++ bs ++ y)) := by
  induction bs generalizing x with
  | nil => exact absurd rfl hne
  | cons b bs ih =>
    have hb := hall b List.mem_cons_self
    have htail : ∀ c ∈ bs, isBlank c = true := fun c hc => hall c (List.mem_cons_of_mem _ hc)
    rw [List.append_assoc, List.cons_append, items_append_blank hx hb]
    refine Subselect.LacksWhere.append (i := .char b) (isName_of_isBlank hb) hlx
      (Subselect.LacksWhere.renumber _ ?_)
    cases bs with
    | nil => exact hly
    | cons b' bs =>
      exact ih htail (List.cons_ne_nil _ _) Lifted.closed_nil (x := [])
        (Subselect.lacksWhere_of_length_lt (by decide))

end Build

end Fragment

end FilterClause
