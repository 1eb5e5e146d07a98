import FilterClause.Proofs.Pieces
import FilterClause.Proofs.Subselects

/-!
# Nesting of groups

How deep the groups of balanced items are nested. A cut behind WHERE tears no group, and groups
that are nested less deep than levels are left do not notice how many are left (`group_levels`).
-/

namespace FilterClause

open Text

namespace Bracket

/-- Items whose brackets all have partners and are nested at most so deep. -/
inductive Nested : Nat → List Item → Prop
  | nil {depth : Nat} : Nested depth []
  | item {depth : Nat} {i : Item} {rest : List Item} (hopen : i ≠ .char '(')
      (hclose : i ≠ .char ')') (h : Nested depth rest) : Nested depth (i :: rest)
  | group {depth : Nat} {interior rest : List Item} (hinterior : Nested depth interior)
      (hrest : Nested (depth + 1) rest) :
      Nested (depth + 1) (.char '(' :: (interior ++ .char ')' :: rest))

namespace Nested

variable {depth : Nat} {items : List Item}

theorem balanced (h : Nested depth items) : Balanced items := by
  induction h with
  | nil => exact .nil
  | item hopen hclose _ ih => exact .item hopen hclose ih
  | group _ _ ihi ihr => exact .group ihi ihr

theorem mono {depth' : Nat} (h : Nested depth items) (hle : depth ≤ depth') :
    Nested depth' items := by
  induction h generalizing depth' with
  | nil => exact .nil
  | item hopen hclose _ ih => exact .item hopen hclose (ih hle)
  | group _ _ ihi ihr =>
    obtain ⟨d, rfl⟩ : ∃ d, depth' = d + 1 := ⟨depth' - 1, by omega⟩
    exact .group (ihi (Nat.le_of_succ_le_succ hle)) (ihr hle)

/-- Items that are no brackets may go from the start. -/
theorem of_items_append {xs : List Item} (hxs : ∀ i ∈ xs, i ≠ .char '(' ∧ i ≠ .char ')')
    (h : Nested depth (xs ++ items)) : Nested depth items := by
  induction xs with
  | nil => exact h
  | cons x xs ih =>
    have hx := hxs x List.mem_cons_self
    refine ih (fun i hi => hxs i (List.mem_cons_of_mem _ hi)) ?_
    rw [List.cons_append] at h
    generalize xs ++ items = ys at h ⊢
    cases h with
    | item _ _ h => exact h
    | group => exact absurd rfl hx.1

/-- An outermost group is nested less deep. -/
theorem of_mem_groups (h : Nested depth items) {interior : List Item}
    (hi : .inr interior ∈ groups items) : ∃ d, depth = d + 1 ∧ Nested d interior := by
  induction h with
  | nil => cases hi
  | item hopen _ _ ih =>
    rw [groups_cons_item hopen, List.mem_cons] at hi
    rcases hi with e | hi
    · cases e
    · exact ih hi
  | @group d inside rest hinside _ _ ih =>
    rw [groups_group hinside.balanced, List.mem_cons] at hi
    rcases hi with e | hi
    · obtain rfl := Sum.inr.inj e
      exact ⟨d, rfl, hinside⟩
    · exact ih hi

end Nested

/-- Items are nested at most as deep as they are many. -/
theorem Balanced.nested {items : List Item} (h : Balanced items) : Nested items.length items := by
  induction h with
  | nil => exact .nil
  | item hopen hclose _ ih => exact .item hopen hclose (ih.mono (Nat.le_succ _))
  | @group interior rest _ _ ihi ihr =>
    have hlen : (Item.char '(' :: (interior ++ .char ')' :: rest)).length =
        interior.length + rest.length + 1 + 1 := by
      simp
      omega
    rw [hlen]
    exact .group (ihi.mono (by omega)) (ihr.mono (by omega))

end Bracket

/-! ## Cuts tear no group -/

namespace Subselect

open FilterClause.Bracket

theorem not_bracket_of_foldLetter {w : Text} (hw : w.map foldLetter = ['w', 'h', 'e', 'r', 'e']) :
    ∀ i ∈ w.map Item.char, i ≠ .char '(' ∧ i ≠ .char ')' := by
  intro i hi
  obtain ⟨c, hc, rfl⟩ := List.mem_map.mp hi
  have hfold : foldLetter c ∈ w.map foldLetter := List.mem_map_of_mem hc
  rw [hw] at hfold
  constructor
  · rintro h
    rw [Item.char.inj h] at hfold
    exact absurd hfold (by decide)
  · rintro h
    rw [Item.char.inj h] at hfold
    exact absurd hfold (by decide)

/-- A cut of balanced items leaves balanced items on both sides. -/
theorem nested_of_cut {depth n : Nat} {inName : Bool} {items : List Item} (h : Nested depth items)
    (hn : endOfWhereFrom 0 inName items = some n) :
    Balanced (items.take n) ∧ Nested depth (items.drop n) := by
  induction h generalizing inName n with
  | nil => cases hn
  | @item depth i rest hopen hclose hrest ih =>
    have hdepth : depthAfter 0 i = 0 := by simp [depthAfter, hopen, hclose]
    rw [endOfWhereFrom, hdepth] at hn
    split at hn
    · next hcond =>
      obtain rfl := Option.some.inj hn
      have hspells := spellsWhere_of_startsWithWhere (Bool.and_eq_true_iff.mp hcond).2
      obtain ⟨w, hw, hitems⟩ := exists_of_spellsWhere hspells
      have hletters := not_bracket_of_foldLetter hw
      have hlen : (w.map Item.char).length = 5 := by simpa using congrArg List.length hw
      have htake : (i :: rest).take 5 = w.map .char := by
        rw [hitems, List.take_left' hlen]
      have hwhole : Nested depth (w.map .char ++ (i :: rest).drop 5) :=
        hitems ▸ .item hopen hclose hrest
      rw [htake]
      exact ⟨balanced_of_no_brackets hletters, hwhole.of_items_append hletters⟩
    · obtain ⟨m, hm, rfl⟩ := Option.map_eq_some_iff.mp hn
      obtain ⟨htake, hdrop⟩ := ih hm
      rw [List.take_succ_cons, List.drop_succ_cons]
      exact ⟨.item hopen hclose htake, hdrop⟩
  | @group depth interior rest hinterior _ _ ih =>
    rw [endOfWhereFrom_group hinterior.balanced] at hn
    obtain ⟨m, hm, rfl⟩ := Option.map_eq_some_iff.mp hn
    obtain ⟨htake, hdrop⟩ := ih hm
    have hshape : Item.char '(' :: (interior ++ .char ')' :: rest) =
        (.char '(' :: (interior ++ [.char ')'])) ++ rest := by simp
    have hlen : m + (interior.length + 2) =
        (Item.char '(' :: (interior ++ [.char ')'])).length + m := by
      simp
      omega
    rw [hshape, hlen, List.take_length_add_append, List.drop_length_add_append]
    refine ⟨?_, hdrop⟩
    rw [List.cons_append, List.append_assoc]
    exact .group hinterior.balanced htake

/-- The leads of balanced items balance, and so does what is left behind them. -/
theorem nested_split {depth : Nat} {items : List Item} (h : Nested depth items) :
    (∀ lead ∈ (split items).1, Balanced lead) ∧ Nested depth (split items).2 := by
  induction items using split_induction with
  | uncut items hn =>
    rw [split_of_none hn]
    exact ⟨nofun, h⟩
  | cut items n hn ih =>
    obtain ⟨htake, hdrop⟩ := nested_of_cut h hn
    obtain ⟨hleads, hrest⟩ := ih hdrop
    rw [split_of_some hn]
    exact ⟨List.forall_mem_cons.mpr ⟨htake, hleads⟩, hrest⟩

theorem balanced_split {items : List Item} (h : Balanced items) :
    (∀ lead ∈ (split items).1, Balanced lead) ∧ Balanced (split items).2 := by
  obtain ⟨hleads, hrest⟩ := nested_split h.nested
  exact ⟨hleads, hrest.balanced⟩

end Subselect

/-! ## Levels that are left -/

/-- The interiors of groups are those of the outermost groups of the items. -/
theorem Piece.mem_groups_of_interior {items interior : List Item}
    (h : interior ∈ (ofItems items).filterMap interior?) :
    .inr interior ∈ Bracket.groups items := by
  obtain ⟨p, hp, hi⟩ := List.mem_filterMap.mp h
  cases p with
  | group inside =>
    obtain rfl := Option.some.inj hi
    exact within_ofItems hp
  | text t => cases hi
  | literal index => cases hi
  | call name arguments => cases hi

namespace Cleaned

variable {literals : List Text} {options : Options}

/-- Whether a clause and the groups behind its leads have a property, down to so many levels. The
property may ask how many levels are left. -/
def Throughout (P : Nat → List Item → Prop) : Nat → List Item → Prop
  | 0, _ => True
  | levels + 1, items => P levels items ∧
    ∀ interior ∈ (Piece.ofItems (Subselect.split items).2).filterMap Piece.interior?,
      Throughout P levels interior

instance decidableThroughout (P : Nat → List Item → Prop) [∀ levels, DecidablePred (P levels)] :
    ∀ (levels : Nat) (items : List Item), Decidable (Throughout P levels items)
  | 0, _ => .isTrue trivial
  | levels + 1, items =>
    haveI := decidableThroughout P levels
    inferInstanceAs (Decidable (P levels items ∧
      ∀ interior ∈ (Piece.ofItems (Subselect.split items).2).filterMap Piece.interior?,
        Throughout P levels interior))

/-- Cleaning asks only for the interiors of the groups behind the leads. -/
theorem clause_congr {f g : List Item → Cleaned} {items : List Item}
    (h : ∀ interior, .inr interior ∈ Bracket.groups (Subselect.split items).2 →
      f interior = g interior) :
    clause literals options f items = clause literals options g items := by
  have hgroups : groupsOf f (Subselect.split items).2 = groupsOf g (Subselect.split items).2 :=
    List.map_congr_left fun i hi => h i (Piece.mem_groups_of_interior hi)
  have hpred : predicate literals options f (Subselect.split items).2 =
      predicate literals options g (Subselect.split items).2 := by
    rw [predicate_eq, predicate_eq, placesOf, placesOf, hgroups]
  simp only [clause, hpred]

/-- Groups that are nested less deep than levels are left are cleaned the same with more levels. -/
theorem group_levels {depth : Nat} {items : List Item} (h : Bracket.Nested depth items)
    (more : Nat) :
    group literals options (depth + 1 + more) items = group literals options (depth + 1) items := by
  induction depth generalizing items with
  | zero =>
    rw [Nat.add_right_comm, group, group]
    refine clause_congr fun interior hi => ?_
    obtain ⟨d, hd, -⟩ := (Subselect.nested_split h).2.of_mem_groups hi
    cases hd
  | succ depth ih =>
    rw [Nat.add_right_comm, group, group]
    refine clause_congr fun interior hi => ?_
    obtain ⟨d, hd, hinterior⟩ := (Subselect.nested_split h).2.of_mem_groups hi
    obtain rfl := Nat.succ.inj hd
    exact ih hinterior

end Cleaned

end FilterClause
