import FilterClause.Proofs.Nesting
import FilterClause.Proofs.Slots

/-!
# Cleaning is uniform in what literals hold

How tokens fall into conditions does not depend on what the literals hold. What is written of them
may depend on it, but only as a sketch allows: between apostrophes, or in the choice between two
ways to go on. The sketch of items is made without the literals (`Cleaned.sketch`), and with them it
is what the items are cleaned to (`Cleaned.draws_sketch`).
-/

namespace FilterClause

open Text

/-! ## Chains -/

namespace Chain

theorem map_map {α β γ : Type} (g : β → γ) (f : α → β) (c : Chain α) :
    (c.map f).map g = c.map fun a => g (f a) := by
  rw [map, map, map, List.map_map]
  rfl

/-- The sketch of a chain of sketches and its connectives, separated by spaces. -/
def sketch (c : Chain Sketch) : Sketch :=
  .joinSpaced (c.first :: c.rest.flatMap fun (k, s) => [.ofText k.text, s])

theorem draws_sketch {α : Type} {c : Chain α} {k : α → Sketch} {f : List Text → α → Text}
    (h : ∀ a ∈ c.things, (k a).Draws fun literals => f literals a) :
    (c.map k).sketch.Draws fun literals => (c.map (f literals)).text := by
  obtain ⟨first, rest⟩ := c
  obtain ⟨hfirst, hrest⟩ := List.forall_mem_cons.mp h
  have hconnective : ∀ k : Connective, (Sketch.ofText k.text).Draws fun _ => k.text := by
    rintro (_ | _) <;> exact .ofText (by decide)
  have hall : List.Forall₂ Sketch.Draws
      ((rest.map fun x => (x.1, k x.2)).flatMap fun x => [.ofText x.1.text, x.2])
      (rest.flatMap fun x => [fun _ => x.1.text, fun literals => f literals x.2]) := by
    clear h hfirst
    induction rest with
    | nil => exact .nil
    | cons x rest ih =>
      obtain ⟨hx, hrest⟩ := List.forall_mem_cons.mp hrest
      exact .cons (hconnective x.1) (.cons hx (ih hrest))
  have hjoined := Sketch.Draws.joinSpaced (.cons hfirst hall)
  simp only [List.map_cons, List.map_flatMap, List.map_nil] at hjoined
  simp only [map, text, List.flatMap_map]
  exact hjoined

end Chain

namespace Condition

/-! ## Splitting slots -/

/-- Slots in conditions when those of the first condition so far, given backwards, are `back`. What
the literals hold does not matter to it, so they are left empty. -/
def splitSlots (back : List Slot) : List Slot → Chain (List Slot)
  | [] => ⟨back.reverse, []⟩
  | s :: rest =>
    match (s.token []).connective? with
    | some k =>
      if isLeftSide (back.map (Slot.token [])) && startsHere (rest.map (Slot.token [])) then
        let behind := splitSlots [] rest
        ⟨back.reverse, (k, behind.first) :: behind.rest⟩
      else splitSlots (s :: back) rest
    | none => splitSlots (s :: back) rest

theorem splitSlots_subset (back slots : List Slot) :
    ∀ part ∈ (splitSlots back slots).things, part ⊆ back ++ slots := by
  induction slots generalizing back with
  | nil => simp [splitSlots, Chain.things]
  | cons s slots ih =>
    have hnext : ∀ part ∈ (splitSlots (s :: back) slots).things, part ⊆ back ++ s :: slots :=
      fun part hpart x hx => List.perm_middle.mem_iff.mpr (ih (s :: back) part hpart hx)
    rw [splitSlots]
    split
    · split
      · refine List.forall_mem_cons.mpr ⟨by simp, fun part hpart x hx => ?_⟩
        have hx' := ih [] part hpart hx
        rw [List.nil_append] at hx'
        exact List.mem_append_right _ (List.mem_cons_of_mem _ hx')
      · exact hnext
    · exact hnext

section Splitting

variable (literals : List Text)

theorem connective?_token {s : Slot} (hs : s.Uniform) :
    (s.token literals).connective? = (s.token []).connective? := by
  by_cases hk : s.kind = .call
  · simp [Token.connective?, Token.isWord, Slot.token, hk]
  · rw [hs.token_eq hk literals []]

theorem isLeftSide_tokens (back : List Slot) :
    isLeftSide (back.map (Slot.token literals)) = isLeftSide (back.map (Slot.token [])) := by
  rcases back with _ | ⟨s, _ | ⟨u, back⟩⟩ <;> rfl

theorem startsHere_tokens (rest : List Slot) :
    startsHere (rest.map (Slot.token literals)) = startsHere (rest.map (Slot.token [])) := by
  rcases rest with _ | ⟨s, _ | ⟨u, rest⟩⟩ <;> rfl

/-- Slots fall into the same conditions whatever the literals hold. -/
theorem splitBehind_tokens (back : List Slot) {slots : List Slot} (h : ∀ s ∈ slots, s.Uniform) :
    splitBehind (back.map (Slot.token literals)) (slots.map (Slot.token literals)) =
      (splitSlots back slots).map (List.map (Slot.token literals)) := by
  induction slots generalizing back with
  | nil => simp [splitSlots, splitBehind, Chain.map]
  | cons s slots ih =>
    obtain ⟨hs, hslots⟩ := List.forall_mem_cons.mp h
    rw [List.map_cons, splitBehind, splitSlots, connective?_token literals hs, isLeftSide_tokens,
      startsHere_tokens, ← List.map_cons, ih (s :: back) hslots]
    cases (s.token []).connective? with
    | none => rfl
    | some k =>
      have hbehind := ih [] hslots
      rw [List.map_nil] at hbehind
      dsimp only
      rw [hbehind]
      split
      · simp [Chain.map]
      · rfl

end Splitting

/-! ## Writing slots -/

section Writing

variable (groups : List Sketch)

/-- What the places stand for, given the contents of the literals. -/
def placesAt (literals : List Text) : Places := ⟨literals, groups.map (Sketch.text literals)⟩

/-- The sketch of one slot. -/
def sketchSlot (s : Slot) : Sketch :=
  match s.kind with
  | .literal index => .literal index
  | .group index =>
    .append (.ofText ['(']) (.append (groups.getD index (.ofText [])) (.ofText [')']))
  | _ => .fixed s.skeleton

/-- The sketch of slots with one space between neighbours. -/
def sketchSlots (slots : List Slot) : Sketch := .joinSpaced (slots.map (sketchSlot groups))

/-- A comparison of slots, given the contents of the literals. -/
def comparisonAt (column operator : Slot) (value : List Slot) (literals : List Text) : Comparison :=
  ⟨(placesAt groups literals).render (column.token literals), (operator.token literals).text,
    value.map (Slot.token literals)⟩

/-- The sketch of a value. It is quoted or not, as the column and the value demand. -/
def sketchValue (options : Options) (column operator : Slot) (value : List Slot) : Sketch :=
  let compared := comparisonAt groups column operator value
  .choice (fun literals => (compared literals).needsQuotes (placesAt groups literals) options)
    (.value fun literals =>
      let inner := (compared literals).inner (placesAt groups literals)
      if (compared literals).isLike then '%' :: inner ++ ['%'] else inner)
    (sketchSlots groups value)

/-- The sketch of a comparison. -/
def sketchComparison (options : Options) (column operator : Slot) (value : List Slot) : Sketch :=
  let compared := comparisonAt groups column operator value
  let front : Sketch :=
    .append (sketchSlot groups column) (.ofText (' ' :: upper (operator.token []).text))
  .choice
    (fun literals =>
      ((compared literals).renderValue (placesAt groups literals) options).isEmpty)
    front
    (.append front (.append (.ofText [' ']) (sketchValue groups options column operator value)))

/-- The sketch of one condition. -/
def sketchCondition (options : Options) : List Slot → Sketch
  | [] => .ofText []
  | [only] => sketchSlot groups only
  | first :: second :: value =>
    if (first.token []).isGroup then sketchSlot groups first
    else if (second.token []).isOperator then
      sketchComparison groups options first second value
    else sketchSlots groups (first :: second :: value)

/-- The sketch of all conditions of a list of slots. -/
def sketchAll (options : Options) (slots : List Slot) : Sketch :=
  ((splitSlots [] slots).map (sketchCondition groups options)).sketch

variable {groups} (hgroups : ∀ k ∈ groups, k.Clear)

include hgroups

theorem draws_group (index : Nat) :
    (groups.getD index (.ofText [])).Draws
      fun literals => (placesAt groups literals).group index where
  clear := by
    rw [List.getD_eq_getElem?_getD]
    cases hg : groups[index]? with
    | none => exact Sketch.Draws.nil.clear
    | some k => exact hgroups k (List.mem_of_getElem? hg)
  text_eq literals := by
    show (groups.map (Sketch.text literals)).getD index [] = _
    rw [List.getD_eq_getElem?_getD, List.getD_eq_getElem?_getD, List.getElem?_map]
    cases groups[index]? with
    | none => exact Sketch.Draws.nil.text_eq literals
    | some k => rfl

theorem draws_sketchSlot {s : Slot} (hs : s.Uniform) :
    (sketchSlot groups s).Draws
      fun literals => (placesAt groups literals).render (s.token literals) := by
  obtain ⟨kind, skeleton⟩ := s
  cases kind with
  | literal index => exact .literal index
  | group index =>
    have hopen : (Sketch.ofText ['(']).Draws fun _ => ['('] := .ofText (by decide)
    have hclose : (Sketch.ofText [')']).Draws fun _ => [')'] := .ofText (by decide)
    exact hopen.append ((draws_group hgroups index).append hclose)
  | operator => exact ⟨hs.clear, fun _ => rfl⟩
  | word => exact ⟨hs.clear, fun _ => rfl⟩
  | call => exact ⟨hs.clear, fun _ => rfl⟩

theorem draws_sketchSlots {slots : List Slot} (h : ∀ s ∈ slots, s.Uniform) :
    (sketchSlots groups slots).Draws
      fun literals => (placesAt groups literals).renderAll (slots.map (Slot.token literals)) := by
  have hslots : List.Forall₂ Sketch.Draws (slots.map (sketchSlot groups))
      (slots.map fun s literals => (placesAt groups literals).render (s.token literals)) := by
    rw [List.forall₂_map_left_iff, List.forall₂_map_right_iff, List.forall₂_same]
    exact fun s hs => draws_sketchSlot hgroups (h s hs)
  have hjoined := Sketch.Draws.joinSpaced hslots
  simp only [List.map_map] at hjoined
  simp only [Places.renderAll, List.map_map]
  exact hjoined

theorem draws_sketchValue (options : Options) (column operator : Slot) {value : List Slot}
    (hv : ∀ s ∈ value, s.Uniform) :
    (sketchValue groups options column operator value).Draws fun literals =>
      (comparisonAt groups column operator value literals).renderValue (placesAt groups literals)
        options :=
  .choice _ (.value _) (draws_sketchSlots hgroups hv)

theorem draws_sketchComparison (options : Options) {column operator : Slot} {value : List Slot}
    (hc : column.Uniform) (ho : operator.Uniform) (hkind : operator.kind = .operator)
    (hv : ∀ s ∈ value, s.Uniform) :
    (sketchComparison groups options column operator value).Draws fun literals =>
      (comparisonAt groups column operator value literals).render (placesAt groups literals)
        options := by
  have hfixed : ∀ literals, operator.token literals = operator.token [] := fun literals =>
    ho.token_eq (by simp [hkind]) literals []
  have hupper : singleQuote ∉ ' ' :: upper (operator.token []).text := by
    rw [List.mem_cons, not_or]
    exact ⟨by decide, fun hm => (mem_upper hm).elim (ho.not_mem_text (by simp [hkind]))
      (absurd · (by decide))⟩
  have hfront : (Sketch.append (sketchSlot groups column)
      (.ofText (' ' :: upper (operator.token []).text))).Draws fun literals =>
        (placesAt groups literals).render (column.token literals) ++
          ' ' :: upper (operator.token literals).text := by
    simp only [hfixed]
    exact (draws_sketchSlot hgroups hc).append (.ofText hupper)
  have hspace : (Sketch.ofText [' ']).Draws fun _ => [' '] := .ofText (by decide)
  exact .choice _ hfront (hfront.append
    (hspace.append (draws_sketchValue hgroups options column operator hv)))

theorem draws_sketchCondition (options : Options) {part : List Slot}
    (h : ∀ s ∈ part, s.Uniform) :
    (sketchCondition groups options part).Draws fun literals =>
      render (placesAt groups literals) options (part.map (Slot.token literals)) := by
  rcases part with _ | ⟨column, _ | ⟨operator, value⟩⟩
  · exact .nil
  · exact draws_sketchSlot hgroups (h column List.mem_cons_self)
  · obtain ⟨hc, hrest⟩ := List.forall_mem_cons.mp h
    obtain ⟨ho, hv⟩ := List.forall_mem_cons.mp hrest
    have hgroup : ∀ literals, (column.token literals).isGroup = (column.token []).isGroup :=
      fun _ => rfl
    have hoperator : ∀ literals,
        (operator.token literals).isOperator = (operator.token []).isOperator := fun _ => rfl
    simp only [sketchCondition, List.map_cons, render, hgroup, hoperator]
    split
    · exact draws_sketchSlot hgroups hc
    · split
      · next hop =>
        have hkind : operator.kind = .operator := by simpa [Token.isOperator, Slot.token] using hop
        exact draws_sketchComparison hgroups options hc ho hkind hv
      · exact draws_sketchSlots hgroups h

/-- All conditions are written by their sketch. -/
theorem draws_sketchAll (options : Options) {slots : List Slot} (h : ∀ s ∈ slots, s.Uniform) :
    (sketchAll groups options slots).Draws fun literals =>
      renderAll (placesAt groups literals) options (slots.map (Slot.token literals)) := by
  have hpart : ∀ part ∈ (splitSlots [] slots).things,
      (sketchCondition groups options part).Draws fun literals =>
        render (placesAt groups literals) options (part.map (Slot.token literals)) :=
    fun part hp => draws_sketchCondition hgroups options fun s hs =>
      h s (splitSlots_subset [] slots part hp hs)
  have hsplit : ∀ literals, splitBehind [] (slots.map (Slot.token literals)) =
      (splitSlots [] slots).map (List.map (Slot.token literals)) := fun literals =>
    splitBehind_tokens literals [] h
  simp only [renderAll_eq, hsplit, Chain.map_map]
  exact Chain.draws_sketch hpart

end Writing

end Condition

/-! ## Predicates, clauses and groups -/

namespace Cleaned

variable (options : Options)

/-- The sketch of a predicate, given those of its groups. -/
def sketchPredicate (interior : List Item → Sketch) (items : List Item) : Sketch :=
  Condition.sketchAll (((Piece.ofItems items).filterMap Piece.interior?).map interior) options
    (Piece.slots 0 (Piece.ofItems items))

/-- The sketch of a clause, given those of its groups. -/
def sketchClause (interior : List Item → Sketch) (items : List Item) : Sketch :=
  let (leads, rest) := Subselect.split items
  let leads := leads.map Item.sketchTrimmed
  let predicate := sketchPredicate options interior rest
  .choice (fun literals => (predicate.text literals).isEmpty) (.joinSpaced leads)
    (.joinSpaced (leads ++ [predicate]))

/-- The sketch of a clause with so many levels of groups left. -/
def sketch : Nat → List Item → Sketch
  | 0, items => Item.sketchTrimmed items
  | levels + 1, items => sketchClause options (sketch levels) items

section Interior

variable {interior : List Item → Sketch} {f : List Text → List Item → Cleaned}
  (hinterior : ∀ inside, Item.Clear inside →
    (interior inside).Draws fun literals => (f literals inside).text)
  {items : List Item} (h : Item.Clear items)

include hinterior h

/-- A predicate is written by its sketch, if its groups are. -/
theorem draws_sketchPredicate :
    (sketchPredicate options interior items).Draws fun literals =>
      (predicate literals options (f literals) items).text := by
  have hpieces : ∀ p ∈ Piece.ofItems items, Item.Clear p.items := fun p => Piece.clear_ofItems h
  have hinside : ∀ inside ∈ (Piece.ofItems items).filterMap Piece.interior?,
      (interior inside).Draws fun literals => (f literals inside).text := fun inside hi =>
    hinterior inside (h.of_subset (Bracket.mem_groups (Piece.mem_groups_of_interior hi)))
  have hgroups : ∀ k ∈ ((Piece.ofItems items).filterMap Piece.interior?).map interior,
      k.Clear := by
    intro k hk
    obtain ⟨inside, hi, rfl⟩ := List.mem_map.mp hk
    exact (hinside inside hi).clear
  have hplaces : ∀ literals, placesOf literals (f literals) items =
      Condition.placesAt (((Piece.ofItems items).filterMap Piece.interior?).map interior)
        literals := by
    intro literals
    rw [placesOf, groupsOf, Condition.placesAt, List.map_map, List.map_map]
    exact congrArg _ (List.map_congr_left fun inside hi => (hinside inside hi).text_eq literals)
  have htext : ∀ literals, (predicate literals options (f literals) items).text =
      Condition.renderAll
        (Condition.placesAt (((Piece.ofItems items).filterMap Piece.interior?).map interior)
          literals)
        options ((Piece.slots 0 (Piece.ofItems items)).map (Slot.token literals)) := by
    intro literals
    rw [predicate_eq, hplaces]
    exact condition_renderAll_congr (Piece.map_fill_slots _ literals _ 0 0) options
  simp only [htext]
  exact Condition.draws_sketchAll hgroups options (Piece.uniform_slots hpieces 0)

theorem draws_sketchClause :
    (sketchClause options interior items).Draws fun literals =>
      (clause literals options (f literals) items).text := by
  obtain ⟨hleads, hrest⟩ := Subselect.subset_split items
  have hpredicate := draws_sketchPredicate options hinterior (h.of_subset hrest)
  have hlead : List.Forall₂ Sketch.Draws ((Subselect.split items).1.map Item.sketchTrimmed)
      ((Subselect.split items).1.map
        fun lead literals => trim (Item.renderAll literals lead)) := by
    rw [List.forall₂_map_left_iff, List.forall₂_map_right_iff, List.forall₂_same]
    exact fun lead hl => Item.draws_sketchTrimmed (h.of_subset (hleads lead hl))
  have hwithout := Sketch.Draws.joinSpaced hlead
  have hwith := Sketch.Draws.joinSpaced (List.rel_append hlead (.cons hpredicate .nil))
  simp only [List.map_append, List.map_cons, List.map_nil, List.map_map] at hwithout hwith
  have htext : ∀ literals, (clause literals options (f literals) items).text =
      if ((sketchPredicate options interior (Subselect.split items).2).text literals).isEmpty then
        joinSpaced ((Subselect.split items).1.map
          fun lead => trim (Item.renderAll literals lead))
      else joinSpaced ((Subselect.split items).1.map
          (fun lead => trim (Item.renderAll literals lead)) ++
        [(predicate literals options (f literals) (Subselect.split items).2).text]) := by
    intro literals
    rw [← hpredicate.text_eq]
    unfold clause
    dsimp only
    split
    · rw [List.append_nil]
    · rfl
  simp only [htext]
  exact .choice _ hwithout hwith

end Interior

/-- Whatever the literals hold, cleaned text is what its sketch comes to. -/
theorem draws_sketch (levels : Nat) {items : List Item} (h : Item.Clear items) :
    (sketch options levels items).Draws fun literals =>
      (group literals options levels items).text := by
  induction levels generalizing items with
  | zero => exact Item.draws_sketchTrimmed h
  | succ levels ih => exact draws_sketchClause options (fun inside hi => ih hi) h

end Cleaned

end FilterClause
