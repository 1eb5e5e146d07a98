import FilterClause.Clause.Nesting
import FilterClause.Proofs.Balance
import FilterClause.Proofs.Grouping
import Mathlib.Data.List.Basic
import Mathlib.Data.List.Chain

/-!
# Pieces of joined predicates

What is read off the pieces one by one — their lexemes, the interiors of their groups — is read
off two predicates with a blank between them one after the other, if brackets balance. The tokens
of a predicate have the lexemes of its pieces, however its groups are numbered.
-/

namespace FilterClause

open Text

namespace Piece

/-! ## Reading pieces at a blank -/

section Blank

variable {γ : Type} {F : Piece → List γ}

/-- What is read off text is read off its parts at a blank. -/
structure PartsAtBlanks (F : Piece → List γ) : Prop where
  nil : F (.text []) = []
  blank : ∀ {b : Char}, isBlank b = true → ∀ {s : Text}, '(' ∉ s → ∀ t,
    F (.text (s ++ b :: t)) = F (.text s) ++ F (.text t)

variable (hF : PartsAtBlanks F)

include hF

theorem flatMap_ofRun (back : Text) : (ofRun back).flatMap F = F (.text back.reverse) := by
  cases back with
  | nil => exact hF.nil.symm
  | cons c back => simp [ofRun]

variable {b : Char} (hb : isBlank b = true)

include hb

/-- A blank in the run of text before items parts what is read. -/
theorem flatMap_behindRun_blank {back : Text} (hback : '(' ∉ back) (run : Text)
    (gs : List (Item ⊕ List Item)) :
    (behindRun (run ++ b :: back) gs).flatMap F =
      F (.text back.reverse) ++ (behindRun run gs).flatMap F := by
  have hsplit : ∀ u : Text, (ofRun (u ++ b :: back)).flatMap F =
      F (.text back.reverse) ++ (ofRun u).flatMap F := by
    intro u
    rw [flatMap_ofRun hF, flatMap_ofRun hF, List.reverse_append, List.reverse_cons,
      List.append_assoc, List.singleton_append]
    exact hF.blank hb (fun h => hback (List.mem_reverse.mp h)) _
  induction gs generalizing run with
  | nil => exact hsplit run
  | cons g gs ih =>
    rcases g with (c | index) | interior
    · exact ih (c :: run)
    · simp only [behindRun, List.flatMap_append, hsplit, List.append_assoc]
    · have hname := isName_of_isBlank hb
      simp only [behindRun, takeWhile_append_stop hname, dropWhile_append_stop hname,
        List.flatMap_append, hsplit, List.append_assoc]

theorem flatMap_behindRun_append {back : Text} (hback : '(' ∉ back)
    {gs : List (Item ⊕ List Item)} (hgs : .inl (.char '(') ∉ gs) (hs : List (Item ⊕ List Item)) :
    (behindRun back (gs ++ .inl (.char b) :: hs)).flatMap F =
      (behindRun back gs).flatMap F ++ (behindRun [] hs).flatMap F := by
  induction gs generalizing back with
  | nil =>
    have := flatMap_behindRun_blank hF hb hback [] hs
    rw [List.nil_append, behindRun, behindRun, flatMap_ofRun hF]
    exact this
  | cons g gs ih =>
    have htail : .inl (.char '(') ∉ gs := fun h => hgs (List.mem_cons_of_mem _ h)
    rcases g with (c | index) | interior
    · have hc : '(' ∉ c :: back := by
        rw [List.mem_cons, not_or]
        exact ⟨fun e => hgs (e ▸ List.mem_cons_self), hback⟩
      exact ih hc htail
    · simp only [List.cons_append, behindRun, List.flatMap_append, List.flatMap_cons,
        ih List.not_mem_nil htail, List.append_assoc]
    · simp only [List.cons_append, behindRun, List.flatMap_append, List.flatMap_cons,
        ih List.not_mem_nil htail, List.append_assoc]

/-- Two predicates with a blank between them are read one after the other. -/
theorem flatMap_ofItems_append {xs : List Item} (hx : Bracket.Balanced xs) (ys : List Item) :
    (ofItems (xs ++ .char b :: ys)).flatMap F =
      (ofItems xs).flatMap F ++ (ofItems ys).flatMap F := by
  have hopen := (Item.not_bracket_of_isBlank hb).1
  have hgs : .inl (.char '(') ∉ Bracket.groups xs := fun h =>
    (Bracket.not_bracket_of_mem_groups hx h).1 rfl
  rw [ofItems, Bracket.groups_append hx, Bracket.groups_cons_item hopen]
  exact flatMap_behindRun_append hF hb List.not_mem_nil hgs _

end Blank

/-! ## Text alone -/

/-- Text without an opening bracket lengthens the run that it comes behind. -/
theorem behindRun_map_char_append {t : Text} (h : '(' ∉ t) (back : Text) (items : List Item) :
    behindRun back (Bracket.groups (t.map .char ++ items)) =
      behindRun (t.reverse ++ back) (Bracket.groups items) := by
  induction t generalizing back with
  | nil => rfl
  | cons c t ih =>
    have hc : Item.char c ≠ .char '(' := fun e => h (Item.char.inj e ▸ List.mem_cons_self)
    rw [List.map_cons, List.cons_append, Bracket.groups_cons_item hc, behindRun,
      ih fun hm => h (List.mem_cons_of_mem _ hm), List.reverse_cons, List.append_assoc,
      List.singleton_append]

/-- Text without an opening bracket runs on into what follows. -/
theorem ofItems_map_char_append {t : Text} (h : '(' ∉ t) (items : List Item) :
    ofItems (t.map .char ++ items) = behindRun t.reverse (Bracket.groups items) := by
  rw [ofItems, behindRun_map_char_append h, List.append_nil]

theorem ofItems_map_char {t : Text} (h : '(' ∉ t) :
    ofItems (t.map .char) = ofRun t.reverse := by
  have := ofItems_map_char_append h []
  rwa [List.append_nil] at this

theorem ofItems_map_char_literal {t : Text} (h : '(' ∉ t) (index : Nat) :
    ofItems (t.map .char ++ [.literal index]) = ofRun t.reverse ++ [.literal index] := by
  rw [ofItems_map_char_append h]
  rfl

/-! ## What pieces are made of -/

/-- The characters outside all groups. -/
def outerChars (gs : List (Item ⊕ List Item)) : Text :=
  gs.filterMap fun
    | .inl (.char c) => some c
    | _ => none

theorem outerChars_append (t : Text) (gs : List (Item ⊕ List Item)) :
    outerChars ((t.map fun c => .inl (.char c)) ++ gs) = t ++ outerChars gs := by
  rw [outerChars, List.filterMap_append, List.filterMap_map]
  exact congrArg (· ++ outerChars gs) List.filterMap_some

theorem mem_of_mem_outerChars {gs : List (Item ⊕ List Item)} {c : Char} (h : c ∈ outerChars gs) :
    .inl (.char c) ∈ gs := by
  obtain ⟨g, hg, he⟩ := List.mem_filterMap.mp h
  rcases g with (d | index) | interior
  · exact Option.some.inj he ▸ hg
  · cases he
  · cases he

/-- Whether a piece is made of characters outside the groups, a literal outside them, or a group
with a name before it or without one. -/
def Within (gs : List (Item ⊕ List Item)) : Piece → Prop
  | .text t => t.Sublist (outerChars gs)
  | .literal index => .inl (.literal index) ∈ gs
  | .call name arguments =>
    name ≠ [] ∧ (∀ c ∈ name, Text.isName c = true) ∧ .inr arguments ∈ gs
  | .group interior => .inr interior ∈ gs

theorem Within.mono {gs hs : List (Item ⊕ List Item)} (h : gs.Sublist hs) {p : Piece}
    (hp : p.Within gs) : p.Within hs := by
  have hchars : (outerChars gs).Sublist (outerChars hs) := h.filterMap _
  cases p with
  | text t => exact List.Sublist.trans hp hchars
  | literal index => exact h.subset hp
  | call name arguments => exact ⟨hp.1, hp.2.1, h.subset hp.2.2⟩
  | group interior => exact h.subset hp

theorem within_behindRun (back : Text) (gs : List (Item ⊕ List Item)) :
    ∀ p ∈ behindRun back gs, p.Within (back.reverse.map (fun c => .inl (.char c)) ++ gs) := by
  have hrun : ∀ (back back' : Text) (gs : List (Item ⊕ List Item)), back'.Sublist back →
      ∀ p ∈ ofRun back', p.Within (back.reverse.map (fun c => .inl (.char c)) ++ gs) := by
    intro back back' gs hsub p hp
    unfold ofRun at hp
    split at hp
    · cases hp
    · rw [List.mem_singleton.mp hp, Within, outerChars_append]
      exact hsub.reverse.trans (List.sublist_append_left _ _)
  induction gs generalizing back with
  | nil => exact hrun back back [] (List.Sublist.refl _)
  | cons g gs ih =>
    have htail : ∀ p ∈ behindRun [] gs,
        p.Within (back.reverse.map (fun c => .inl (.char c)) ++ g :: gs) := fun p hp =>
      (ih [] p hp).mono ((List.sublist_cons_self g gs).trans (List.sublist_append_right _ _))
    have hg : g ∈ back.reverse.map (fun c => .inl (.char c)) ++ g :: gs := by simp
    intro p hp
    rcases g with (c | index) | interior
    · have hmem := ih (c :: back) p hp
      rw [List.reverse_cons, List.map_append, List.append_assoc] at hmem
      exact hmem
    · rw [behindRun, List.mem_append, List.mem_cons] at hp
      rcases hp with hp | rfl | hp
      · exact hrun back back _ (List.Sublist.refl _) p hp
      · exact hg
      · exact htail p hp
    · rw [behindRun, List.mem_append, List.mem_cons] at hp
      rcases hp with hp | rfl | hp
      · exact hrun back _ _ (List.dropWhile_sublist _) p hp
      · split
        · exact hg
        · next hne =>
          exact ⟨by simpa using hne, fun c hc => all_of_mem_takeWhile (List.mem_reverse.mp hc), hg⟩
      · exact htail p hp

theorem within_ofItems {items : List Item} {p : Piece} (h : p ∈ ofItems items) :
    p.Within (Bracket.groups items) :=
  within_behindRun [] _ p h

/-- Balanced items leave no bracket in the text. -/
theorem not_hasLooseBracket_of_balanced {items : List Item} (h : Bracket.Balanced items) :
    (ofItems items).any hasLooseBracket = false := by
  rw [List.any_eq_false]
  intro p hp
  cases p with
  | text t =>
    have ht : t.Sublist (outerChars (Bracket.groups items)) := within_ofItems hp
    have hchar : ∀ c ∈ t, c ≠ '(' ∧ c ≠ ')' := fun c hc => by
      have := Bracket.not_bracket_of_mem_groups h (mem_of_mem_outerChars (ht.subset hc))
      exact ⟨fun e => this.1 (e ▸ rfl), fun e => this.2 (e ▸ rfl)⟩
    simpa [hasLooseBracket] using hchar
  | literal index => exact Bool.false_ne_true
  | call name arguments => exact Bool.false_ne_true
  | group inside => exact Bool.false_ne_true

/-- A call as text. -/
theorem renderAll_call (literals : List Text) (name : Text) (arguments : List Item) :
    Item.renderAll literals (items (.call name arguments)) =
      name ++ '(' :: Item.renderAll literals arguments ++ [')'] := by
  rw [items, Item.renderAll_append, Item.renderAll_append, Item.renderAll_map_char]
  rfl

/-! ## Neighbours -/

/-- What may stand behind a piece: no two texts touch, and a call takes the whole name off the text
before it. -/
def Apart : Piece → Piece → Prop
  | .text _, .text _ => False
  | .text s, .call _ _ => ∀ c ∈ s.getLast?, Text.isName c = false
  | _, _ => True

/-- The pieces of text touch none of their kind. -/
theorem isChain_behindRun (back : Text) (gs : List (Item ⊕ List Item)) :
    (behindRun back gs).IsChain Apart := by
  have hrun : ∀ (u : Text) (p : Piece) (rest : List Piece), Apart (.text u.reverse) p →
      (∀ q, Apart p q) → rest.IsChain Apart → (ofRun u ++ p :: rest).IsChain Apart := by
    intro u p rest hu hp hrest
    have hchain : (p :: rest).IsChain Apart := List.isChain_cons.mpr ⟨fun q _ => hp q, hrest⟩
    unfold ofRun
    split
    · exact hchain
    · refine List.isChain_cons.mpr ⟨?_, hchain⟩
      rintro q ⟨⟩
      exact hu
  induction gs generalizing back with
  | nil =>
    rw [behindRun, ofRun]
    split
    · exact .nil
    · exact .singleton _
  | cons g gs ih =>
    rcases g with (c | index) | interior
    · exact ih (c :: back)
    · exact hrun _ _ _ trivial (fun _ => trivial) (ih [])
    · rw [behindRun]
      split
      · exact hrun _ _ _ trivial (fun _ => trivial) (ih [])
      · refine hrun _ _ _ ?_ (fun _ => trivial) (ih [])
        intro c hc
        have hhead := List.head?_dropWhile_not Text.isName back
        rw [List.getLast?_reverse] at hc
        rwa [Option.mem_def.mp hc] at hhead

theorem isChain_ofItems (items : List Item) : (ofItems items).IsChain Apart :=
  isChain_behindRun [] _

/-- A piece that is no text ends in a literal or in a closing bracket. -/
theorem getLast?_items {p : Piece} (h : ∀ t, p ≠ .text t) :
    (∃ index, p.items.getLast? = some (.literal index)) ∨
      p.items.getLast? = some (.char ')') := by
  cases p with
  | text t => exact absurd rfl (h t)
  | literal index => exact .inl ⟨index, rfl⟩
  | call name arguments => exact .inr List.getLast?_concat
  | group interior => exact .inr List.getLast?_concat

/-! ## Interiors -/

theorem partsAtBlanks_interior : PartsAtBlanks fun p => p.interior?.toList where
  nil := rfl
  blank := fun _ _ _ _ => rfl

theorem filterMap_interior? (pieces : List Piece) :
    pieces.filterMap interior? = pieces.flatMap fun p => p.interior?.toList :=
  List.filterMap_eq_flatMap_toList interior? pieces

/-! ## Lexemes -/

/-- The lexemes of a piece, when `interior` gives the text of what groups hold. -/
def lexemes (literals : List Text) (interior : List Item → Text) : Piece → List Lexeme
  | .text t => Lexeme.ofText t
  | .literal index => [.literal (literals.getD index [])]
  | .call name arguments => [.call (name ++ '(' :: Item.renderAll literals arguments ++ [')'])]
  | .group inside => [.group (interior inside)]

theorem partsAtBlanks_lexemes (literals : List Text) (interior : List Item → Text) :
    PartsAtBlanks (lexemes literals interior) where
  nil := rfl
  blank := fun hb _ hs t => Lexeme.ofText_append_blank hb hs t

/-- The tokens of pieces have the lexemes of the pieces. -/
theorem map_fill_behind (literals before : List Text) (interior : List Item → Text)
    (pieces : List Piece) (offset : Nat) :
    (Token.behind offset (segmentsFrom literals before.length pieces)).map
        (Places.fill ⟨literals, before ++ (pieces.filterMap interior?).map interior⟩) =
      pieces.flatMap (lexemes literals interior) := by
  induction pieces generalizing before offset with
  | nil => rfl
  | cons p pieces ih =>
    cases p with
    | text t =>
      rw [segmentsFrom, Token.behind, List.map_append, Lexeme.map_fill_ofText, List.flatMap_cons,
        lexemes]
      exact congrArg _ (ih before _)
    | literal index =>
      rw [segmentsFrom, Token.behind, List.map_cons, List.flatMap_cons, lexemes,
        List.singleton_append]
      exact congrArg _ (ih before _)
    | call name arguments =>
      rw [segmentsFrom, Token.behind, List.map_cons, List.flatMap_cons, lexemes,
        List.singleton_append]
      exact congrArg _ (ih before _)
    | group inside =>
      have hlen : (before ++ [interior inside]).length = before.length + 1 := by simp
      have hall : before ++ ((Piece.group inside :: pieces).filterMap interior?).map interior =
          (before ++ [interior inside]) ++ (pieces.filterMap interior?).map interior := by
        simp [interior?]
      have hplace : (before ++ [interior inside] ++
          (pieces.filterMap interior?).map interior).getD before.length [] = interior inside := by
        simp
      rw [segmentsFrom, Token.behind, List.map_cons, List.flatMap_cons, lexemes,
        List.singleton_append, hall, ← hlen, ih]
      refine congrArg (· :: _) ?_
      exact congrArg Lexeme.group hplace

end Piece

/-! ## What a predicate is cleaned from -/

theorem Item.exists_of_blank {items : List Item} (h : ∀ i ∈ items, i.isBlank = true) :
    ∃ bs : Text, items = bs.map .char ∧ ∀ b ∈ bs, Text.isBlank b = true := by
  induction items with
  | nil => exact ⟨[], rfl, by simp⟩
  | cons i rest ih =>
    obtain ⟨hi, hrest⟩ := List.forall_mem_cons.mp h
    obtain ⟨bs, rfl, hbs⟩ := ih hrest
    cases i with
    | literal index => cases hi
    | char b => exact ⟨b :: bs, rfl, List.forall_mem_cons.mpr ⟨hi, hbs⟩⟩

namespace Cleaned

/-- The tokens of a predicate. -/
def tokensOf (literals : List Text) (items : List Item) : List Token :=
  Token.ofSegments (Piece.segmentsFrom literals 0 (Piece.ofItems items))

variable (literals : List Text) (interior : List Item → Cleaned)

/-- The groups of a predicate, when `interior` cleans what they hold. -/
def groupsOf (items : List Item) : List Cleaned :=
  ((Piece.ofItems items).filterMap Piece.interior?).map interior

/-- What the places in the tokens of a predicate stand for. -/
def placesOf (items : List Item) : Places := ⟨literals, (groupsOf interior items).map text⟩

/-- The lexemes of a predicate. -/
def lexemesOf (items : List Item) : List Lexeme :=
  (Piece.ofItems items).flatMap (Piece.lexemes literals fun i => (interior i).text)

theorem map_fill_tokensOf (items : List Item) :
    (tokensOf literals items).map (placesOf literals interior items).fill =
      lexemesOf literals interior items := by
  have := Piece.map_fill_behind literals [] (fun i => (interior i).text) (Piece.ofItems items) 0
  rw [placesOf, groupsOf, List.map_map]
  exact this

section Blank

variable {items : List Item} (h : items.all Item.isBlank = true)

include h

/-- Blank items are one run of blanks. -/
theorem ofItems_of_blank :
    ∃ back : Text, (∀ c ∈ back, isBlank c = true) ∧ Piece.ofItems items = Piece.ofRun back := by
  obtain ⟨t, rfl, ht⟩ := Item.exists_of_blank (List.all_eq_true.mp h)
  have hopen : '(' ∉ t := fun hm => ne_of_isBlank (ht _ hm) (by decide) rfl
  exact ⟨t.reverse, fun c hc => ht c (List.mem_reverse.mp hc), Piece.ofItems_map_char hopen⟩

theorem tokensOf_of_blank : tokensOf literals items = [] := by
  obtain ⟨back, hback, hpieces⟩ := ofItems_of_blank h
  have hlex : lexemesOf literals (fun _ => ⟨[], false, false⟩) items = [] := by
    rw [lexemesOf, hpieces, Piece.flatMap_ofRun (Piece.partsAtBlanks_lexemes _ _), Piece.lexemes,
      ← List.append_nil back.reverse, Lexeme.ofText_blanks_append]
    · rfl
    · exact fun c hc => hback c (List.mem_reverse.mp hc)
  rw [← map_fill_tokensOf] at hlex
  exact List.map_eq_nil_iff.mp hlex

theorem groupsOf_of_blank : groupsOf interior items = [] := by
  obtain ⟨back, -, hpieces⟩ := ofItems_of_blank h
  rw [groupsOf, hpieces, Piece.filterMap_interior?,
    Piece.flatMap_ofRun Piece.partsAtBlanks_interior]
  rfl

theorem not_hasLooseBracket_of_blank :
    (Piece.ofItems items).any Piece.hasLooseBracket = false := by
  refine Piece.not_hasLooseBracket_of_balanced (Bracket.balanced_of_no_brackets fun i hi => ?_)
  have hi' := List.all_eq_true.mp h i hi
  cases i with
  | literal n => exact ⟨nofun, nofun⟩
  | char c => exact Item.not_bracket_of_isBlank hi'

end Blank

/-- A predicate is cleaned by its tokens and its groups, blank or not. -/
theorem predicate_eq (options : Options) (items : List Item) :
    predicate literals options interior items =
      ⟨Condition.renderAll (placesOf literals interior items) options (tokensOf literals items),
        (Piece.ofItems items).any Piece.hasLooseBracket ||
          (groupsOf interior items).any looseBracket,
        (groupsOf interior items).any tooDeep⟩ := by
  unfold predicate
  split
  · next h =>
    rw [tokensOf_of_blank literals h, groupsOf_of_blank interior h,
      not_hasLooseBracket_of_blank h]
    rfl
  · rfl

/-- Without a cut, a clause is cleaned as its predicate. -/
theorem clause_of_uncut (options : Options) {items : List Item}
    (h : Subselect.split items = ([], items)) :
    clause literals options interior items = predicate literals options interior items := by
  have hjoin : ∀ u : Text, joinSpaced ([] ++ if u.isEmpty then [] else [u]) = u := by
    intro u
    cases u <;> simp
  rw [clause, h]
  dsimp only
  rw [List.map_nil, hjoin]

end Cleaned

end FilterClause
