import FilterClause.Proofs.Agreement

/-!
# The outline of a clause

A clause is divided at its WHERE keywords, its groups and its connectives, level by level, and what
is written of it follows this division (`Division.text_ofText`). The outline of a division, which
forgets all texts, depends neither on the options nor on what the literals hold; nor do the row
limit and the warnings (`outline_of_agree`).
-/

namespace FilterClause

open Text

/-- The connectives of a chain, in order. -/
def Chain.connectives {α : Type} (c : Chain α) : List Connective := c.rest.map Prod.fst

theorem Chain.connectives_map {α β : Type} (f : α → β) (c : Chain α) :
    (c.map f).connectives = c.connectives := by
  rw [connectives, map, List.map_map]
  rfl

theorem Chain.length_things {α : Type} (c : Chain α) :
    c.things.length = c.connectives.length + 1 := by
  rw [things, connectives, List.length_cons, List.length_map, List.length_map]

/-! ## Divisions -/

/-- A clause in its parts: its leads, its conditions with the connectives between them, and its
groups in turn. A group that is too deep is not divided. -/
inductive Division where
  | verbatim (text : Text)
  | clause (leads : List Text) (conditions : Option (Chain Text)) (groups : List Division)

/-- A division without its texts: at every level the number of leads, the number of conditions and
the connectives between them. -/
inductive Outline where
  | verbatim
  | clause (leads conditions : Nat) (connectives : List Connective) (groups : List Outline)

namespace Division

/-- The clause that is written of a division. -/
def text : Division → Text
  | verbatim t => t
  | clause leads conditions _ =>
    let predicate := (conditions.map Chain.text).getD []
    joinSpaced (leads ++ if predicate.isEmpty then [] else [predicate])

mutual

/-- The outline of a division. -/
def outline : Division → Outline
  | verbatim _ => .verbatim
  | clause leads conditions groups =>
    .clause leads.length (conditions.elim 0 fun c => c.things.length)
      (conditions.elim [] Chain.connectives) (outlines groups)

/-- The outlines of divisions, in order. -/
def outlines : List Division → List Outline
  | [] => []
  | d :: ds => outline d :: outlines ds

end

theorem outlines_eq_map (ds : List Division) : outlines ds = ds.map outline := by
  induction ds with
  | nil => rfl
  | cons d ds ih => rw [outlines, ih, List.map_cons]

variable (literals : List Text) (options : Options)

/-- The division of a clause with so many levels of groups left. -/
def ofItems : Nat → List Item → Division
  | 0, items => .verbatim (trim (Item.renderAll literals items))
  | levels + 1, items =>
    let (leads, rest) := Subselect.split items
    let groups := ((Piece.ofItems rest).filterMap Piece.interior?).map (ofItems levels)
    .clause (leads.map fun lead => trim (Item.renderAll literals lead))
      ((Condition.split (Cleaned.tokensOf literals rest)).map
        (Chain.map (Condition.render ⟨literals, groups.map text⟩ options)))
      groups

/-- The division of a whole clause without its row limit. -/
def ofText (raw : Text) : Division :=
  ofItems (Fragment.literals (Normal.detached raw).1) options (Cleaned.maxNesting + 1)
    (Lifted.items (Normal.detached raw).1)

/-- What is written of a division is the cleaned text. -/
theorem text_ofItems (levels : Nat) (items : List Item) :
    (ofItems literals options levels items).text =
      (Cleaned.group literals options levels items).text := by
  induction levels generalizing items with
  | zero => rfl
  | succ levels ih =>
    have hgroups : (((Piece.ofItems (Subselect.split items).2).filterMap Piece.interior?).map
        (ofItems literals options levels)).map text =
        (Cleaned.groupsOf (Cleaned.group literals options levels)
          (Subselect.split items).2).map Cleaned.text := by
      rw [Cleaned.groupsOf, List.map_map, List.map_map]
      exact List.map_congr_left fun inside _ => ih inside
    have hpredicate : (Cleaned.predicate literals options (Cleaned.group literals options levels)
        (Subselect.split items).2).text =
        (((Condition.split (Cleaned.tokensOf literals (Subselect.split items).2)).map
          (Chain.map (Condition.render (Cleaned.placesOf literals
            (Cleaned.group literals options levels) (Subselect.split items).2)
              options))).map Chain.text).getD [] := by
      rw [Cleaned.predicate_eq, Condition.renderAll]
      cases Condition.split (Cleaned.tokensOf literals (Subselect.split items).2) <;> rfl
    unfold Cleaned.group Cleaned.clause
    dsimp only
    rw [hpredicate, Cleaned.placesOf, ← hgroups]
    rfl

/-- The cleaned clause is what is written of its division, with the row limit behind it. -/
theorem text_ofText (raw : Text) :
    cleanClauseWith options raw =
      RowLimit.attach (ofText options raw).text (Normal.ofText options raw).limit := by
  rw [cleanClauseWith, Normal.ofText_eq, ofText, text_ofItems]
  rfl

end Division

/-! ## What depends on the items alone -/

/-- Tokens fall into as many conditions, with the same connectives, whatever the literals hold. -/
theorem Condition.connectives_split {items : List Item} (h : Item.Clear items)
    (literals literals' : List Text) :
    (split (Cleaned.tokensOf literals items)).map Chain.connectives =
      (split (Cleaned.tokensOf literals' items)).map Chain.connectives := by
  have hslots := Piece.uniform_slots (fun p hp => Piece.clear_ofItems h (p := p) hp) 0
  have hsplit : ∀ ls, (split (Cleaned.tokensOf ls items)).map Chain.connectives =
      if (Piece.slots 0 (Piece.ofItems items)).isEmpty then none
      else some (splitSlots [] (Piece.slots 0 (Piece.ofItems items))).connectives := by
    intro ls
    have hfill := Piece.map_fill_slots ⟨[], []⟩ ls (Piece.ofItems items) 0 0
    have hempty : (Cleaned.tokensOf ls items).isEmpty =
        (Piece.slots 0 (Piece.ofItems items)).isEmpty := by
      have hmap := congrArg List.isEmpty hfill
      rwa [List.isEmpty_map, List.isEmpty_map, List.isEmpty_map] at hmap
    rw [split, hempty]
    split
    · rfl
    · have hcongr := @splitBehind_congr _ _ [] [] _ _ rfl hfill
      rw [← List.map_nil (f := Slot.token ls), splitBehind_tokens ls [] hslots] at hcongr
      have := congrArg Chain.connectives hcongr
      simp only [Chain.connectives_map] at this
      exact congrArg some this
  rw [hsplit, hsplit]

namespace Cleaned

variable (literals literals' : List Text) (options options' : Options)

/-- Brackets without a partner and groups too deep are noticed whatever the literals hold. -/
theorem notices_congr (levels : Nat) (items : List Item) :
    (group literals options levels items).looseBracket =
        (group literals' options' levels items).looseBracket ∧
      (group literals options levels items).tooDeep =
        (group literals' options' levels items).tooDeep := by
  induction levels generalizing items with
  | zero => exact ⟨rfl, rfl⟩
  | succ levels ih =>
    have hany : ∀ f : Cleaned → Bool,
        (∀ inside, f (group literals options levels inside) =
          f (group literals' options' levels inside)) →
        (groupsOf (group literals options levels) (Subselect.split items).2).any f =
          (groupsOf (group literals' options' levels) (Subselect.split items).2).any f := by
      intro f hf
      rw [groupsOf, groupsOf, List.any_map, List.any_map]
      exact congrArg _ (funext hf)
    have hloose := hany looseBracket fun inside => (ih inside).1
    have hdeep := hany tooDeep fun inside => (ih inside).2
    simp only [group, clause, predicate_eq]
    exact ⟨by rw [hloose], hdeep⟩

end Cleaned

namespace Division

/-- Clauses with as many leads and the same connectives and groups have one outline. -/
theorem outline_clause {leads leads' : List Text} {c d : Option (Chain Text)}
    {groups groups' : List Division} (hleads : leads.length = leads'.length)
    (hc : c.map Chain.connectives = d.map Chain.connectives)
    (hgroups : groups.map outline = groups'.map outline) :
    (clause leads c groups).outline = (clause leads' d groups').outline := by
  rw [outline, outline, outlines_eq_map, outlines_eq_map, hleads, hgroups]
  cases c with
  | none =>
    cases d with
    | none => rfl
    | some d => cases hc
  | some c =>
    cases d with
    | none => cases hc
    | some d =>
      have hconnectives : c.connectives = d.connectives := Option.some.inj hc
      simp only [Option.elim_some, Chain.length_things, hconnectives]

variable (literals literals' : List Text) (options options' : Options)

theorem outline_ofItems (levels : Nat) {items : List Item} (h : Item.Clear items) :
    (ofItems literals options levels items).outline =
      (ofItems literals' options' levels items).outline := by
  induction levels generalizing items with
  | zero => rfl
  | succ levels ih =>
    have hrest := h.of_subset (Subselect.subset_split items).2
    have hgroups : ∀ inside ∈ (Piece.ofItems (Subselect.split items).2).filterMap Piece.interior?,
        (ofItems literals options levels inside).outline =
          (ofItems literals' options' levels inside).outline :=
      fun inside hi => ih (hrest.of_subset (Bracket.mem_groups (Piece.mem_groups_of_interior hi)))
    have hconditions := Condition.connectives_split hrest literals literals'
    unfold ofItems
    refine outline_clause ?_ ?_ ?_
    · rw [List.length_map, List.length_map]
    · simp only [Option.map_map, Function.comp_def, Chain.connectives_map]
      exact hconditions
    · rw [List.map_map, List.map_map]
      exact List.map_congr_left hgroups

end Division

/-! ## Clauses that agree outside their literals -/

namespace Lifted.Agree

variable {s t : Text} (h : Agree s t)

include h

theorem items_eq : items s = items t := by
  rw [← ofSegments_ofText, ← ofSegments_ofText, h.segments_eq]

theorem hasStrayQuote_eq : (ofText s).hasStrayQuote = (ofText t).hasStrayQuote := by
  rw [hasStrayQuote, hasStrayQuote, h.segments_eq]

theorem notices_eq (options options' : Options) (levels : Nat) :
    (Fragment.cleaned options levels s).looseBracket =
        (Fragment.cleaned options' levels t).looseBracket ∧
      (Fragment.cleaned options levels s).tooDeep =
        (Fragment.cleaned options' levels t).tooDeep := by
  unfold Fragment.cleaned
  rw [h.items_eq]
  exact Cleaned.notices_congr _ _ options options' levels (items t)

end Lifted.Agree

theorem Normal.warnings_congr {m n : Normal} (hstray : m.strayQuote = n.strayQuote)
    (hloose : m.looseBracket = n.looseBracket) (hdeep : m.tooDeep = n.tooDeep) :
    m.warnings = n.warnings := by
  unfold warnings
  rw [hstray, hloose, hdeep]

/-- Clauses that agree outside their literals have the same row limit, the same warnings and the
same outline, whatever the options. The outline is that of the division by which each of them is
written. -/
theorem outline_of_agree {raw other : Text} (h : Lifted.Agree raw other)
    (options options' : Options) :
    (Normal.ofText options raw).limit = (Normal.ofText options' other).limit ∧
      (Normal.ofText options raw).warnings = (Normal.ofText options' other).warnings ∧
      (Division.ofText options raw).outline = (Division.ofText options' other).outline ∧
      cleanClauseWith options raw = RowLimit.attach (Division.ofText options raw).text
        (Normal.ofText options raw).limit ∧
      cleanClauseWith options' other = RowLimit.attach (Division.ofText options' other).text
        (Normal.ofText options' other).limit := by
  obtain ⟨hbody, hlimit⟩ := h.detached
  obtain ⟨hloose, hdeep⟩ := hbody.notices_eq options options' (Cleaned.maxNesting + 1)
  refine ⟨?_, ?_, ?_, Division.text_ofText options raw, Division.text_ofText options' other⟩
  · rw [Normal.ofText_eq, Normal.ofText_eq]
    exact hlimit
  · rw [Normal.ofText_eq, Normal.ofText_eq]
    apply Normal.warnings_congr
    · exact hbody.hasStrayQuote_eq
    · dsimp only
      rw [hloose]
    · dsimp only
      rw [hdeep]
  · unfold Division.ofText
    rw [hbody.items_eq]
    exact Division.outline_ofItems _ _ _ _ _ (hbody.items_eq ▸ hbody.closed.clear_items)

/-- A literal with brackets, a connective and a row limit in it changes nothing. -/
theorem outline_of_agree_keywords :
    Lifted.Agree "(Name = 'x' OR Id = y) LIMIT 5".toList
        "(Name = ') or (a LIMIT 7' OR Id = y) LIMIT 5".toList ∧
      (Normal.ofText Options.standard "(Name = 'x' OR Id = y) LIMIT 5".toList).limit =
        (Normal.ofText ⟨["name".toList]⟩
          "(Name = ') or (a LIMIT 7' OR Id = y) LIMIT 5".toList).limit ∧
      (Normal.ofText Options.standard "(Name = 'x' OR Id = y) LIMIT 5".toList).warnings =
        (Normal.ofText ⟨["name".toList]⟩
          "(Name = ') or (a LIMIT 7' OR Id = y) LIMIT 5".toList).warnings ∧
      (Division.ofText Options.standard "(Name = 'x' OR Id = y) LIMIT 5".toList).outline =
        (Division.ofText ⟨["name".toList]⟩
          "(Name = ') or (a LIMIT 7' OR Id = y) LIMIT 5".toList).outline ∧
      cleanClauseWith Options.standard "(Name = 'x' OR Id = y) LIMIT 5".toList =
        RowLimit.attach
          (Division.ofText Options.standard "(Name = 'x' OR Id = y) LIMIT 5".toList).text
          (Normal.ofText Options.standard "(Name = 'x' OR Id = y) LIMIT 5".toList).limit ∧
      cleanClauseWith ⟨["name".toList]⟩ "(Name = ') or (a LIMIT 7' OR Id = y) LIMIT 5".toList =
        RowLimit.attach
          (Division.ofText ⟨["name".toList]⟩
            "(Name = ') or (a LIMIT 7' OR Id = y) LIMIT 5".toList).text
          (Normal.ofText ⟨["name".toList]⟩
            "(Name = ') or (a LIMIT 7' OR Id = y) LIMIT 5".toList).limit := by
  have hfront : Lifted.Agree "(Name = ".toList "(Name = ".toList :=
    .of_no_quotes (by decide +kernel)
  have hback : Lifted.Agree " OR Id = y) LIMIT 5".toList " OR Id = y) LIMIT 5".toList :=
    .of_no_quotes (by decide +kernel)
  have hagree : Lifted.Agree "(Name = 'x' OR Id = y) LIMIT 5".toList
      "(Name = ') or (a LIMIT 7' OR Id = y) LIMIT 5".toList :=
    hfront.append (.literal (q := singleQuote) (r := singleQuote) (u := ['x'])
      (v := ") or (a LIMIT 7".toList) rfl (by decide) rfl (by decide +kernel) hback)
  exact ⟨hagree, outline_of_agree hagree Options.standard ⟨["name".toList]⟩⟩

end FilterClause
