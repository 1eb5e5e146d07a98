import FilterClause.Proofs.LosslessLifting
import FilterClause.Proofs.Subclauses

/-!
# Extraction loses nothing

A predicate is taken apart into segments, with its groups kept aside in a list. Each segment was
made of items that follow those of the segment before it, and all these items together are the
predicate (`Piece.rowsFrom`). The brackets that are left in the text have no partner, and a closing
one never comes behind an opening one, so nothing in the text looks like a call. All this holds of
any items, whatever is made of what the groups hold, and so at every level (`Cleaned.extracted`).
-/

namespace FilterClause

open Text

namespace Bracket

/-! ## Brackets without a partner -/

/-- Balanced items do not balance any more with a further closing bracket behind them. -/
theorem Balanced.not_balanced_append_close {xs : List Item} (h : Balanced xs) (ys : List Item) :
    ¬ Balanced (xs ++ .char ')' :: ys) := by
  intro hb
  have hwaiting := waiting_of_balanced hb
  rw [(pair_append h _).2, pair_cons_close] at hwaiting
  cases hwaiting

/-- Whether a closing bracket behind these items has its partner among them. -/
def Opened (before : List Item) : Prop :=
  ∃ front interior, before = front ++ .char '(' :: interior ∧ Balanced interior

theorem not_opened_nil : ¬ Opened [] := by
  rintro ⟨front, interior, h, -⟩
  simp at h

theorem opened_cons_iff {i : Item} {before : List Item} :
    Opened (i :: before) ↔ i = .char '(' ∧ Balanced before ∨ Opened before := by
  constructor
  · rintro ⟨front, interior, h, hb⟩
    cases front with
    | nil =>
      obtain ⟨rfl, rfl⟩ := List.cons.inj h
      exact .inl ⟨rfl, hb⟩
    | cons j front => exact .inr ⟨front, interior, (List.cons.inj h).2, hb⟩
  · rintro (⟨rfl, hb⟩ | ⟨front, interior, rfl, hb⟩)
    · exact ⟨[], before, rfl, hb⟩
    · exact ⟨i :: front, interior, rfl, hb⟩

/-- A bracket that closes nothing behind a pair closes nothing before it. -/
theorem not_opened_group {interior before : List Item} (hb : Balanced interior)
    (h : ¬ Opened before) : ¬ Opened (.char '(' :: (interior ++ .char ')' :: before)) := by
  rw [opened_cons_iff, not_or]
  refine ⟨fun hopen => hb.not_balanced_append_close _ hopen.2, ?_⟩
  rintro ⟨front, inside, hcut, hinside⟩
  rcases cut_of_append hcut with ⟨front', -, hbefore⟩ | ⟨back, hi, rfl⟩
  · cases front' with
    | nil => simp at hbefore
    | cons j front' => exact h ⟨front', inside, (List.cons.inj hbefore).2, hinside⟩
  · -- The bracket stands in the pair, where it has its partner already.
    obtain ⟨inside', after, rfl, hb'⟩ := hb.partnered hi
    rw [List.append_assoc, List.cons_append] at hinside
    exact hb'.not_balanced_append_close _ hinside

/-- Whether a character between items is no bracket with a partner. -/
def Loose (before : List Item) (c : Char) (behind : List Item) : Prop :=
  (c = '(' → ¬ Partnered behind) ∧ (c = ')' → ¬ Opened before)

/-- A character outside all groups is no bracket with a partner. -/
theorem loose_of_groups {items : List Item} {gs hs : List (Item ⊕ List Item)} {c : Char}
    (h : groups items = gs ++ .inl (.char c) :: hs) :
    Loose (gs.flatMap ungroup) c (hs.flatMap ungroup) := by
  induction items using pair_induction generalizing gs with
  | nil => simp at h
  | item i rest hopen ih =>
    rw [groups_cons_item hopen] at h
    cases gs with
    | nil =>
      obtain ⟨hi, -⟩ := List.cons.inj h
      cases hi
      exact ⟨fun hc => absurd (congrArg Item.char hc) hopen, fun _ => not_opened_nil⟩
    | cons g gs =>
      obtain ⟨rfl, hrest⟩ := List.cons.inj h
      refine ⟨(ih hrest).1, fun hc hbefore => ?_⟩
      rcases opened_cons_iff.mp hbefore with ⟨hi, -⟩ | hbefore
      · exact hopen hi
      · exact (ih hrest).2 hc hbefore
  | loose rest hp ih =>
    rw [groups_loose hp] at h
    have hrest : ∀ gs', groups rest = gs' ++ .inl (.char c) :: hs →
        rest = gs'.flatMap ungroup ++ .char c :: hs.flatMap ungroup := fun gs' hgs => by
      rw [← flatMap_ungroup_groups rest, hgs, List.flatMap_append, List.flatMap_cons]
      rfl
    cases gs with
    | nil =>
      obtain ⟨hc, rfl⟩ := List.cons.inj h
      cases hc
      rw [flatMap_ungroup_groups]
      exact ⟨fun _ => hp, fun hc => absurd hc (by decide)⟩
    | cons g gs =>
      obtain ⟨rfl, hgs⟩ := List.cons.inj h
      refine ⟨(ih hgs).1, fun hc hbefore => ?_⟩
      -- Were the loose bracket its partner, that bracket would not be loose.
      rcases opened_cons_iff.mp hbefore with ⟨-, hb⟩ | hbefore
      · exact hp ⟨_, _, hc ▸ hrest gs hgs, hb⟩
      · exact (ih hgs).2 hc hbefore
  | group interior rest hb ih =>
    rw [groups_group hb] at h
    cases gs with
    | nil => cases (List.cons.inj h).1
    | cons g gs =>
      obtain ⟨rfl, hgs⟩ := List.cons.inj h
      refine ⟨(ih hgs).1, fun hc => ?_⟩
      rw [List.flatMap_cons, ungroup, List.append_assoc, List.cons_append]
      exact not_opened_group hb ((ih hgs).2 hc)

end Bracket

namespace Piece

open FilterClause.Bracket

/-! ## Pieces with their places -/

/-- A character in the text of a piece is no bracket with a partner. -/
theorem loose_of_text {items : List Item} {ps qs : List Piece} {u v : Text} {c : Char}
    (h : ofItems items = ps ++ .text (u ++ c :: v) :: qs) :
    Loose (ps.flatMap Piece.items ++ u.map .char) c (v.map .char ++ qs.flatMap Piece.items) := by
  have hgroups : groups items = (ps.flatMap parts ++ u.map fun c => .inl (.char c)) ++
      .inl (.char c) :: ((v.map fun c => .inl (.char c)) ++ qs.flatMap parts) := by
    rw [← flatMap_parts_ofItems, h, List.flatMap_append, List.flatMap_cons, parts, List.map_append,
      List.map_cons]
    simp only [List.append_assoc, List.cons_append]
  have hloose := loose_of_groups hgroups
  rwa [List.flatMap_append, List.flatMap_append, flatMap_parts_items, flatMap_parts_items,
    flatMap_ungroup_map_char, flatMap_ungroup_map_char] at hloose

/-- The places of the literals outside all groups. -/
def outerLiterals (gs : List (Item ⊕ List Item)) : List Nat :=
  gs.filterMap fun
    | .inl (.literal index) => some index
    | _ => none

/-! ## Pieces as segments -/

/-- The segment of a piece, a group with the number `index`. -/
def segment (literals : List Text) (index : Nat) : Piece → Segment
  | .text t => .text t
  | .literal i => .literal i
  | .call name arguments => .call (name ++ '(' :: Item.renderAll literals arguments ++ [')'])
  | .group _ => .group index

/-- Segments of pieces with the items that each of them was made of. -/
def rowsFrom (literals : List Text) (index : Nat) : List Piece → List (Segment × List Item)
  | [] => []
  | p :: ps =>
    (p.segment literals index, p.items) ::
      rowsFrom literals (index + p.interior?.toList.length) ps

variable (literals : List Text)

theorem segmentsFrom_cons (index : Nat) (p : Piece) (ps : List Piece) :
    segmentsFrom literals index (p :: ps) =
      p.segment literals index ::
        segmentsFrom literals (index + p.interior?.toList.length) ps := by
  cases p <;> rfl

theorem map_fst_rowsFrom (index : Nat) (ps : List Piece) :
    (rowsFrom literals index ps).map Prod.fst = segmentsFrom literals index ps := by
  induction ps generalizing index with
  | nil => rfl
  | cons p ps ih => rw [rowsFrom, segmentsFrom_cons, List.map_cons, ih]

theorem flatMap_snd_rowsFrom (index : Nat) (ps : List Piece) :
    (rowsFrom literals index ps).flatMap Prod.snd = ps.flatMap items := by
  induction ps generalizing index with
  | nil => rfl
  | cons p ps ih => rw [rowsFrom, List.flatMap_cons, List.flatMap_cons, ih]

/-- A row is that of a piece, between the rows of the pieces before and behind it. -/
theorem exists_of_rowsFrom {index : Nat} {ps : List Piece}
    {front back : List (Segment × List Item)} {s : Segment} {made : List Item}
    (h : rowsFrom literals index ps = front ++ (s, made) :: back) :
    ∃ ps₁ p ps₂ i, ps = ps₁ ++ p :: ps₂ ∧ s = p.segment literals i ∧
      front.flatMap Prod.snd = ps₁.flatMap items ∧ back.flatMap Prod.snd = ps₂.flatMap items := by
  induction ps generalizing index front with
  | nil => simp [rowsFrom] at h
  | cons p ps ih =>
    rw [rowsFrom] at h
    cases front with
    | nil =>
      obtain ⟨hrow, rfl⟩ := List.cons.inj h
      exact ⟨[], p, ps, index, rfl, (Prod.mk.inj hrow).1.symm, rfl,
        flatMap_snd_rowsFrom literals _ ps⟩
    | cons row front =>
      obtain ⟨rfl, hrest⟩ := List.cons.inj h
      obtain ⟨ps₁, q, ps₂, i, rfl, hs, hfront, hback⟩ := ih hrest
      refine ⟨p :: ps₁, q, ps₂, i, rfl, hs, ?_, hback⟩
      rw [List.flatMap_cons, List.flatMap_cons, hfront]

end Piece

namespace Segment

/-- The group whose place the segment is. -/
def group? : Segment → Option Nat
  | .group index => some index
  | _ => none

/-- Whether a segment was made of these items, when `interiors` are the insides of the groups. -/
def MadeOf (literals : List Text) (interiors : List (List Item)) : Segment → List Item → Prop
  | .text t, made => t ≠ [] ∧ made = t.map .char
  | .literal index, made => made = [.literal index]
  | .call t, made => t = Item.renderAll literals made ∧
      ∃ name arguments, made = name.map .char ++ .char '(' :: arguments ++ [.char ')'] ∧
        name ≠ [] ∧ (∀ c ∈ name, isName c = true) ∧ Bracket.Balanced arguments
  | .group index, made => ∃ interior, interiors[index]? = some interior ∧
      made = .char '(' :: interior ++ [.char ')'] ∧ Bracket.Balanced interior

end Segment

namespace Piece

open FilterClause.Bracket

/-! ## Rows of a predicate -/

/-- No piece of text is empty. -/
theorem ne_nil_of_text_mem {back t : Text} {gs : List (Item ⊕ List Item)}
    (h : .text t ∈ behindRun back gs) : t ≠ [] := by
  have hrun : ∀ u : Text, .text t ∈ ofRun u → t ≠ [] := fun u hu => by
    cases u with
    | nil => cases hu
    | cons c u =>
      cases List.mem_singleton.mp hu
      simp
  induction gs generalizing back with
  | nil => exact hrun back h
  | cons g gs ih =>
    rcases g with (c | index) | interior
    · exact ih h
    · rcases List.mem_append.mp h with h | h
      · exact hrun _ h
      · exact ih ((List.mem_cons.mp h).resolve_left nofun)
    · rw [behindRun, List.mem_append, List.mem_cons] at h
      rcases h with h | h | h
      · exact hrun _ h
      · split at h <;> cases h
      · exact ih h

section Rows

variable (literals : List Text) {items : List Item}

theorem madeOf_segment {p : Piece} (hp : p ∈ ofItems items) {interiors : List (List Item)}
    {index : Nat} (hindex : ∀ interior, p = .group interior → interiors[index]? = some interior) :
    (p.segment literals index).MadeOf literals interiors p.items := by
  have hwithin := within_ofItems hp
  cases p with
  | text t => exact ⟨ne_nil_of_text_mem hp, rfl⟩
  | literal i => rfl
  | call name arguments =>
    obtain ⟨hne, hname, hgroup⟩ := hwithin
    refine ⟨?_, name, arguments, rfl, hne, hname, balanced_of_mem_groups hgroup⟩
    rw [Piece.items, Item.renderAll_append, Item.renderAll_append, Item.renderAll_map_char]
    rfl
  | group interior => exact ⟨interior, hindex interior rfl, rfl, balanced_of_mem_groups hwithin⟩

/-- Every segment was made of the items of its row. -/
theorem madeOf_rowsFrom (before : List (List Item)) {ps : List Piece}
    (hps : ∀ p ∈ ps, p ∈ ofItems items) :
    ∀ row ∈ rowsFrom literals before.length ps,
      row.1.MadeOf literals (before ++ ps.filterMap interior?) row.2 := by
  induction ps generalizing before with
  | nil => nofun
  | cons p ps ih =>
    obtain ⟨hp, hrest⟩ := List.forall_mem_cons.mp hps
    have hinteriors : before ++ (p :: ps).filterMap interior? =
        (before ++ p.interior?.toList) ++ ps.filterMap interior? := by
      rw [List.append_assoc, filterMap_interior?, List.flatMap_cons, ← filterMap_interior?]
    rw [rowsFrom, List.forall_mem_cons]
    constructor
    · refine madeOf_segment literals hp fun interior hgroup => ?_
      subst hgroup
      simp [interior?]
    · rw [hinteriors, ← List.length_append]
      exact ih _ hrest

/-! ## Segments of pieces -/

theorem filterMap_group?_segmentsFrom (index : Nat) (ps : List Piece) :
    (segmentsFrom literals index ps).filterMap Segment.group? =
      List.range' index (ps.filterMap interior?).length := by
  induction ps generalizing index with
  | nil => rfl
  | cons p ps ih =>
    cases p with
    | group interior => exact congrArg (index :: ·) (ih (index + 1))
    | text t => exact ih index
    | literal i => exact ih index
    | call name arguments => exact ih index

theorem filterMap_literal?_segmentsFrom (index : Nat) (ps : List Piece) :
    (segmentsFrom literals index ps).filterMap Segment.literal? =
      outerLiterals (ps.flatMap parts) := by
  have hchars : ∀ (t : Text) (gs : List (Item ⊕ List Item)),
      outerLiterals (t.map (fun c => .inl (.char c)) ++ gs) = outerLiterals gs := fun t gs => by
    rw [outerLiterals, List.filterMap_append, List.filterMap_map]
    exact congrArg (· ++ _) (List.filterMap_eq_nil_iff.mpr fun c _ => rfl)
  induction ps generalizing index with
  | nil => rfl
  | cons p ps ih =>
    rw [List.flatMap_cons]
    cases p with
    | group interior => exact ih (index + 1)
    | text t => exact (ih index).trans (hchars t _).symm
    | literal i => exact congrArg (i :: ·) (ih index)
    | call name arguments =>
      rw [parts, List.append_assoc, hchars]
      exact ih index

/-- The text of the segments is text outside all groups. -/
theorem loose_sublist_outerChars (index : Nat) (ps : List Piece) :
    ((segmentsFrom literals index ps).flatMap Segment.loose).Sublist
      (outerChars (ps.flatMap parts)) := by
  induction ps generalizing index with
  | nil => exact .slnil
  | cons p ps ih =>
    rw [List.flatMap_cons]
    cases p with
    | group interior => exact ih (index + 1)
    | text t =>
      rw [parts, outerChars_append]
      exact (ih index).append_left t
    | literal i => exact ih index
    | call name arguments =>
      rw [parts, List.append_assoc, outerChars_append]
      exact (ih index).trans (List.sublist_append_right name _)

theorem isChain_segmentsFrom (index : Nat) {ps : List Piece} (h : ps.IsChain Apart) :
    (segmentsFrom literals index ps).IsChain fun s s' => s.isText = true → s'.isText = false := by
  induction ps generalizing index with
  | nil => exact .nil
  | cons p ps ih =>
    obtain ⟨hp, hps⟩ := List.isChain_cons.mp h
    rw [segmentsFrom_cons, List.isChain_cons]
    refine ⟨fun s hs hp' => ?_, ih _ hps⟩
    cases ps with
    | nil => cases hs
    | cons q ps =>
      rw [segmentsFrom_cons] at hs
      cases hs
      have hapart : Apart p q := hp q rfl
      cases p with
      | text t =>
        cases q with
        | text u => cases hapart
        | literal i => rfl
        | call name arguments => rfl
        | group interior => rfl
      | literal i => cases hp'
      | call name arguments => cases hp'
      | group interior => cases hp'

end Rows

end Piece

/-! ## Literals of a text -/

theorem Item.lt_of_literal_mem_number {index i : Nat} {ps : List (Char ⊕ Text)}
    (h : .literal i ∈ number index ps) : i < index + (Lifted.contents ps).length := by
  induction ps generalizing index with
  | nil => cases h
  | cons p ps ih =>
    cases p with
    | inl c => exact ih ((List.mem_cons.mp h).resolve_left nofun)
    | inr content =>
      have hlength : (Lifted.contents (.inr content :: ps)).length =
          (Lifted.contents ps).length + 1 := rfl
      rcases List.mem_cons.mp h with he | h
      · cases he
        omega
      · have := ih h
        omega

/-- The items of a text name no literal that was not lifted out of it. -/
theorem Lifted.lt_of_literal_mem_items {t : Text} {i : Nat} (h : .literal i ∈ items t) :
    i < (ofText t).literals.length := by
  have hlt := Item.lt_of_literal_mem_number h
  rwa [Nat.zero_add] at hlt

/-- What is read of a part of a clause are items of the clause. -/
theorem Subclause.predicate_subset {whole before part behind : List Item}
    (h : Subclause whole before part behind) : (Subselect.split part).2 ⊆ whole := by
  intro i hi
  rw [h.eq_append, ← Subselect.flatten_split part]
  simp [hi]

/-! ## Extraction -/

namespace Cleaned

/-- The segments of a predicate. -/
def segmentsOf (literals : List Text) (items : List Item) : List Segment :=
  Piece.segmentsFrom literals 0 (Piece.ofItems items)

/-- Whether rows of segments and items put a predicate together again, when `interiors` are the
insides of its groups. -/
structure RestoredBy (literals : List Text) (interiors : List (List Item)) (items : List Item)
    (segments : List Segment) (rows : List (Segment × List Item)) : Prop where
  segments_eq : rows.map Prod.fst = segments
  items_eq : rows.flatMap Prod.snd = items
  madeOf : ∀ row ∈ rows, row.1.MadeOf literals interiors row.2
  /-- No bracket that is left in a text has a partner among the items. -/
  loose : ∀ front u c v made back, rows = front ++ (.text (u ++ c :: v), made) :: back →
    Bracket.Loose (front.flatMap Prod.snd ++ u.map .char) c
      (v.map .char ++ back.flatMap Prod.snd)

/-- What taking items apart into segments and groups keeps, when `interior` cleans what the groups
hold. -/
structure Extracted (literals : List Text) (interior : List Item → Cleaned) (items : List Item)
    (segments : List Segment) (groups : List Cleaned) : Prop where
  /-- The places of groups are numbered in order, one for each entry of the list. -/
  numbered : segments.filterMap Segment.group? = List.range groups.length
  /-- The literals outside groups and calls are kept in order. -/
  kept : segments.filterMap Segment.literal? = Piece.outerLiterals (Bracket.groups items)
  /-- With the items that each segment was made of the predicate is put together again. -/
  restored : ∃ rows interiors, RestoredBy literals interiors items segments rows ∧
    groups = interiors.map interior
  /-- No two texts are adjacent. -/
  apart : segments.IsChain fun s s' => s.isText = true → s'.isText = false
  /-- No closing bracket that is left comes behind an opening one. -/
  ordered : ¬ ['(', ')'].Sublist (segments.flatMap Segment.loose)
  /-- Nowhere in a text does a call start. -/
  callFree : ∀ t, .text t ∈ segments → ∀ u, u <:+ t → Token.callLength? u = none
  groupFound : ∀ index, .group index ∈ segments → index < groups.length
  /-- Items of a text name literals of that text only. -/
  literalFound : ∀ t, items ⊆ Lifted.items t → ∀ index, .literal index ∈ segments →
    index < (Lifted.ofText t).literals.length

section

variable (literals : List Text) (interior : List Item → Cleaned) (items : List Item)

theorem filterMap_group?_segmentsOf :
    (segmentsOf literals items).filterMap Segment.group? =
      List.range (groupsOf interior items).length := by
  rw [segmentsOf, Piece.filterMap_group?_segmentsFrom, groupsOf, List.length_map,
    List.range_eq_range']

theorem filterMap_literal?_segmentsOf :
    (segmentsOf literals items).filterMap Segment.literal? =
      Piece.outerLiterals (Bracket.groups items) := by
  rw [segmentsOf, Piece.filterMap_literal?_segmentsFrom, Piece.flatMap_parts_ofItems]

theorem not_sublist_loose_segmentsOf :
    ¬ ['(', ')'].Sublist ((segmentsOf literals items).flatMap Segment.loose) := by
  have hsub := Piece.loose_sublist_outerChars literals 0 (Piece.ofItems items)
  rw [Piece.flatMap_parts_ofItems] at hsub
  exact fun h => Piece.not_sublist_outerChars items (h.trans hsub)

theorem restoredBy_rowsFrom :
    RestoredBy literals ((Piece.ofItems items).filterMap Piece.interior?) items
      (segmentsOf literals items) (Piece.rowsFrom literals 0 (Piece.ofItems items)) where
  segments_eq := Piece.map_fst_rowsFrom literals 0 _
  items_eq := by rw [Piece.flatMap_snd_rowsFrom, Piece.flatMap_items_ofItems]
  madeOf := Piece.madeOf_rowsFrom literals [] fun _ hp => hp
  loose := by
    intro front u c v made back hrows
    obtain ⟨ps, p, qs, i, hpieces, hs, hfront, hback⟩ := Piece.exists_of_rowsFrom literals hrows
    obtain rfl : p = .text (u ++ c :: v) := by
      cases p <;> cases hs
      rfl
    rw [hfront, hback]
    exact Piece.loose_of_text hpieces

/-- A literal that a segment names is one of the items. -/
theorem literal_mem_of_mem_segmentsOf {index : Nat}
    (h : .literal index ∈ segmentsOf literals items) : .literal index ∈ items := by
  have hmem : index ∈ Piece.outerLiterals (Bracket.groups items) := by
    rw [← filterMap_literal?_segmentsOf literals]
    exact List.mem_filterMap.mpr ⟨_, h, rfl⟩
  obtain ⟨g, hg, he⟩ := List.mem_filterMap.mp hmem
  rcases g with (c | i) | inside
  · cases he
  · cases he
    exact Bracket.mem_groups hg List.mem_cons_self
  · cases he

/-- Taking a predicate apart loses nothing, whatever its items are and whatever `interior` makes of
what its groups hold. The items that are taken apart at any level of a clause are items of it. -/
theorem extracted :
    Extracted literals interior items (segmentsOf literals items) (groupsOf interior items) ∧
      ∀ t before part behind, Subclause (Lifted.items t) before part behind →
        (Subselect.split part).2 = items → items ⊆ Lifted.items t := by
  have hnumbered := filterMap_group?_segmentsOf literals interior items
  have hordered := not_sublist_loose_segmentsOf literals items
  refine ⟨⟨hnumbered, filterMap_literal?_segmentsOf literals items,
    ⟨_, _, restoredBy_rowsFrom literals items, rfl⟩,
    Piece.isChain_segmentsFrom literals 0 (Piece.isChain_behindRun [] _), hordered, ?_, ?_, ?_⟩, ?_⟩
  · intro t ht u hu
    have hsub : t.Sublist ((segmentsOf literals items).flatMap Segment.loose) :=
      List.sublist_flatten_of_mem (List.mem_map_of_mem ht)
    exact Token.callLength?_of_no_pair fun h => hordered ((h.trans hu.sublist).trans hsub)
  · intro index hindex
    rw [← List.mem_range, ← hnumbered]
    exact List.mem_filterMap.mpr ⟨_, hindex, rfl⟩
  · exact fun t hitems index hindex =>
      Lifted.lt_of_literal_mem_items (hitems (literal_mem_of_mem_segmentsOf literals items hindex))
  · rintro t before part behind hpart rfl
    exact hpart.predicate_subset

end

/-- A name before a pair of brackets makes it a call, and brackets without a partner stay text. -/
example : segmentsOf [] (")a f(b) (c) ((d".toList.map .char) =
      [.text ")a ".toList, .call "f(b)".toList, .text " ".toList, .group 0,
        .text " ((d".toList] ∧
    (groupsOf (fun items => ⟨Item.renderAll [] items, false, false⟩)
      (")a f(b) (c) ((d".toList.map .char)).map text = ["c".toList] := by
  decide +kernel

end Cleaned

end FilterClause
