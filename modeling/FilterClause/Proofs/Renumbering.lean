import FilterClause.Clause.Nesting
import FilterClause.Proofs.Pieces

/-!
# Numbers of literals

Items name a literal by a number. Cleaning uses the numbers to look contents up and for nothing
else: with other numbers for the same contents, a clause is cleaned the same
(`group_renumber`).
-/

namespace FilterClause

open Text

namespace Item

/-- The item with the number of its literal changed. -/
def renumber (σ : Nat → Nat) : Item → Item
  | .char c => .char c
  | .literal index => .literal (σ index)

variable (σ : Nat → Nat)

theorem renumber_eq_char_iff {i : Item} {c : Char} : renumber σ i = .char c ↔ i = .char c := by
  cases i <;> simp [renumber]

@[simp] theorem isName_renumber (i : Item) : (renumber σ i).isName = i.isName := by
  cases i <;> rfl

@[simp] theorem letter?_renumber (i : Item) :
    Subselect.letter? (renumber σ i) = Subselect.letter? i := by
  cases i <;> rfl

@[simp] theorem depthAfter_renumber (depth : Nat) (i : Item) :
    Subselect.depthAfter depth (renumber σ i) = Subselect.depthAfter depth i := by
  simp [Subselect.depthAfter, renumber_eq_char_iff]

/-- Literals numbered from a later start. -/
theorem number_add (k index : Nat) (ps : List (Char ⊕ Text)) :
    number (index + k) ps = (number index ps).map (renumber (· + k)) := by
  induction ps generalizing index with
  | nil => rfl
  | cons p ps ih =>
    cases p with
    | inl c =>
      rw [number, number, List.map_cons, ih]
      rfl
    | inr content =>
      rw [number, number, List.map_cons, Nat.add_right_comm, ih]
      rfl

theorem number_lt {index n : Nat} {ps : List (Char ⊕ Text)} (h : .literal n ∈ number index ps) :
    n < index + (Lifted.contents ps).length := by
  induction ps generalizing index with
  | nil => cases h
  | cons p ps ih =>
    cases p with
    | inl c =>
      rw [number, List.mem_cons] at h
      rcases h with h | h
      · cases h
      · exact ih h
    | inr content =>
      have hlen : (Lifted.contents (.inr content :: ps)).length =
          (Lifted.contents ps).length + 1 := rfl
      rw [number, List.mem_cons] at h
      rcases h with h | h
      · cases h
        omega
      · have := ih h
        omega

theorem map_renumber_of_fixed {items : List Item}
    (h : ∀ n, .literal n ∈ items → σ n = n) : items.map (renumber σ) = items := by
  have hid : ∀ i ∈ items, renumber σ i = id i := by
    intro i hi
    cases i with
    | char c => rfl
    | literal n =>
      rw [renumber, h n hi]
      rfl
  rw [List.map_congr_left hid, List.map_id]

end Item

/-! ## The stages under other numbers -/

section Stages

variable (σ : Nat → Nat)

namespace Subselect

theorem spellsWhere_renumber (items : List Item) :
    spellsWhere (items.map (Item.renumber σ)) = spellsWhere items := by
  have hletters : ((items.map (Item.renumber σ)).take 5).map letter? =
      (items.take 5).map letter? := by
    rw [← List.map_take, List.map_map]
    exact List.map_congr_left fun i _ => Item.letter?_renumber σ i
  rw [spellsWhere, hletters, spellsWhere]

theorem startsWithWhere_renumber (items : List Item) :
    startsWithWhere (items.map (Item.renumber σ)) = startsWithWhere items := by
  rw [startsWithWhere_eq, startsWithWhere_eq, spellsWhere_renumber, ← List.map_drop]
  cases items.drop 5 with
  | nil => rfl
  | cons i rest =>
    rw [List.map_cons, List.head?_cons, List.head?_cons, Option.any_some, Option.any_some,
      Item.isName_renumber]

theorem LacksWhere.renumber {items : List Item} (h : LacksWhere items) :
    LacksWhere (items.map (Item.renumber σ)) := by
  intro s hs
  obtain ⟨t, ht, rfl⟩ := List.suffix_map_iff.mp hs
  rw [spellsWhere_renumber]
  exact h t ht

theorem endOfWhereFrom_renumber (depth : Nat) (inName : Bool) (items : List Item) :
    endOfWhereFrom depth inName (items.map (Item.renumber σ)) =
      endOfWhereFrom depth inName items := by
  induction items generalizing depth inName with
  | nil => rfl
  | cons i rest ih =>
    rw [List.map_cons, endOfWhereFrom, ← List.map_cons, startsWithWhere_renumber,
      Item.depthAfter_renumber, ih, Item.isName_renumber, endOfWhereFrom]

theorem splitWithin_renumber (cuts : Nat) (items : List Item) :
    splitWithin cuts (items.map (Item.renumber σ)) =
      ((splitWithin cuts items).1.map (List.map (Item.renumber σ)),
        (splitWithin cuts items).2.map (Item.renumber σ)) := by
  induction cuts generalizing items with
  | zero => rfl
  | succ cuts ih =>
    rw [splitWithin, splitWithin, endOfWhere, endOfWhere, endOfWhereFrom_renumber]
    cases endOfWhereFrom 0 false items with
    | none => rfl
    | some n =>
      dsimp only
      rw [← List.map_drop, ih, ← List.map_take]
      rfl

theorem split_renumber (items : List Item) :
    split (items.map (Item.renumber σ)) =
      ((split items).1.map (List.map (Item.renumber σ)),
        (split items).2.map (Item.renumber σ)) := by
  rw [split, List.length_map, splitWithin_renumber, split]

theorem WhereFree.renumber {inName : Bool} {items : List Item} (h : WhereFree inName items) :
    WhereFree inName (items.map (Item.renumber σ)) := by
  induction items generalizing inName with
  | nil => trivial
  | cons i rest ih =>
    refine ⟨h.1.imp_right (startsWithWhere_renumber σ (i :: rest)).trans, ?_⟩
    rw [Item.isName_renumber]
    exact ih h.2

end Subselect

namespace Bracket

theorem Balanced.renumber {items : List Item} (h : Balanced items) :
    Balanced (items.map (Item.renumber σ)) := by
  induction h with
  | nil => exact .nil
  | item hopen hclose _ ih =>
    exact .item (fun e => hopen ((Item.renumber_eq_char_iff σ).mp e))
      (fun e => hclose ((Item.renumber_eq_char_iff σ).mp e)) ih
  | group _ _ ihi ihr =>
    rw [List.map_cons, List.map_append, List.map_cons]
    exact .group ihi ihr

theorem pair_renumber (items : List Item) : pair (items.map (Item.renumber σ)) = pair items := by
  induction items with
  | nil => rfl
  | cons i rest ih => simp only [List.map_cons, pair, ih, Item.renumber_eq_char_iff]

theorem groups_renumber (items : List Item) :
    groups (items.map (Item.renumber σ)) =
      (groups items).map (Sum.map (Item.renumber σ) (List.map (Item.renumber σ))) := by
  have hzip : (items.map (Item.renumber σ)).zip (reaches (items.map (Item.renumber σ))) =
      (items.zip (reaches items)).map (Prod.map (Item.renumber σ) id) := by
    rw [reaches, pair_renumber, ← reaches, List.zip_map_left]
  have hgroup : ∀ (a : Item × Option Nat) (rest : List (Item × Option Nat)),
      group? (Prod.map (Item.renumber σ) id a) (rest.map (Prod.map (Item.renumber σ) id)) =
        (group? a rest).map (Prod.map (List.map (Item.renumber σ)) id) := by
    intro a rest
    rw [group?, group?, Prod.map_snd, id, Option.map_map]
    refine congrArg (Option.map · a.2) (funext fun reach => ?_)
    simp [← List.map_take, Function.comp_def]
  rw [groups, hzip, scan_map (Prod.map (Item.renumber σ) id) (List.map (Item.renumber σ)) hgroup,
    List.map_map, groups, List.map_map]
  refine congrArg (List.map · _) (funext fun s => ?_)
  cases s <;> rfl

end Bracket

namespace Piece

/-- The piece with the numbers of its literals changed. -/
def renumber (σ : Nat → Nat) : Piece → Piece
  | .text t => .text t
  | .literal index => .literal (σ index)
  | .call name arguments => .call name (arguments.map (Item.renumber σ))
  | .group interior => .group (interior.map (Item.renumber σ))

theorem behindRun_renumber (back : Text) (gs : List (Item ⊕ List Item)) :
    behindRun back (gs.map (Sum.map (Item.renumber σ) (List.map (Item.renumber σ)))) =
      (behindRun back gs).map (renumber σ) := by
  have hrun : ∀ run : Text, (ofRun run).map (renumber σ) = ofRun run := by
    intro run
    cases run <;> rfl
  induction gs generalizing back with
  | nil => exact (hrun back).symm
  | cons g gs ih =>
    rcases g with (c | index) | interior
    · exact ih (c :: back)
    · simp only [List.map_cons, Sum.map_inl, Item.renumber, behindRun, ih, List.map_append, hrun,
        renumber]
    · simp only [List.map_cons, Sum.map_inr, behindRun, ih, List.map_append, hrun]
      split <;> rfl

theorem ofItems_renumber (items : List Item) :
    ofItems (items.map (Item.renumber σ)) = (ofItems items).map (renumber σ) := by
  rw [ofItems, Bracket.groups_renumber, behindRun_renumber, ofItems]

theorem interior?_renumber (p : Piece) :
    (p.renumber σ).interior? = p.interior?.map (List.map (Item.renumber σ)) := by
  cases p <;> rfl

theorem hasLooseBracket_renumber (p : Piece) :
    (p.renumber σ).hasLooseBracket = p.hasLooseBracket := by
  cases p <;> rfl

end Piece

end Stages

/-! ## Same contents under other numbers -/

section Contents

variable {σ : Nat → Nat} {literals literals' : List Text}
  (h : ∀ n, literals'.getD (σ n) [] = literals.getD n [])

include h

theorem Item.renderAll_renumber (items : List Item) :
    Item.renderAll literals' (items.map (Item.renumber σ)) = Item.renderAll literals items := by
  rw [Item.renderAll, List.flatMap_map, Item.renderAll]
  refine congrArg (List.flatMap · items) (funext fun i => ?_)
  cases i with
  | char c => rfl
  | literal n => rw [Item.renumber, Item.render, Item.quoted, h n]; rfl

theorem Piece.lexemes_renumber (interior interior' : List Item → Text)
    (hi : ∀ items, interior' (items.map (Item.renumber σ)) = interior items) (p : Piece) :
    (p.renumber σ).lexemes literals' interior' = p.lexemes literals interior := by
  cases p with
  | text t => rfl
  | literal n => rw [Piece.renumber, Piece.lexemes, h n, Piece.lexemes]
  | call name arguments =>
    rw [Piece.renumber, Piece.lexemes, Item.renderAll_renumber h, Piece.lexemes]
  | group inside => rw [Piece.renumber, Piece.lexemes, hi, Piece.lexemes]

namespace Cleaned

section Interior

variable (interior interior' : List Item → Cleaned)
  (hi : ∀ items, interior' (items.map (Item.renumber σ)) = interior items)

include hi

omit h in
theorem groupsOf_renumber (items : List Item) :
    groupsOf interior' (items.map (Item.renumber σ)) = groupsOf interior items := by
  rw [groupsOf, Piece.ofItems_renumber, List.filterMap_map, List.map_filterMap, groupsOf,
    List.map_filterMap]
  refine congrArg (List.filterMap · _) (funext fun p => ?_)
  rw [Function.comp_apply, Piece.interior?_renumber]
  cases p.interior? with
  | none => rfl
  | some inside => exact congrArg some (hi inside)

theorem lexemesOf_renumber (items : List Item) :
    lexemesOf literals' interior' (items.map (Item.renumber σ)) =
      lexemesOf literals interior items := by
  rw [lexemesOf, Piece.ofItems_renumber, List.flatMap_map, lexemesOf]
  exact congrArg (List.flatMap · _) (funext fun p =>
    Piece.lexemes_renumber h _ _ (fun i => congrArg Cleaned.text (hi i)) p)

theorem predicate_renumber (options : Options) (items : List Item) :
    predicate literals' options interior' (items.map (Item.renumber σ)) =
      predicate literals options interior items := by
  have hloose : ((Piece.ofItems items).map (Piece.renumber σ)).any Piece.hasLooseBracket =
      (Piece.ofItems items).any Piece.hasLooseBracket := by
    rw [List.any_map]
    exact congrArg (List.any _) (funext fun p => Piece.hasLooseBracket_renumber σ p)
  have htokens := map_fill_tokensOf literals' interior' (items.map (Item.renumber σ))
  rw [lexemesOf_renumber h interior interior' hi, ← map_fill_tokensOf] at htokens
  rw [predicate_eq, predicate_eq, condition_renderAll_congr htokens options,
    groupsOf_renumber interior interior' hi, Piece.ofItems_renumber, hloose]

end Interior

theorem group_renumber (options : Options) (levels : Nat) (items : List Item) :
    group literals' options levels (items.map (Item.renumber σ)) =
      group literals options levels items := by
  induction levels generalizing items with
  | zero => rw [group, Item.renderAll_renumber h, group]
  | succ levels ih =>
    have hpred := predicate_renumber h _ _ ih options
    have hleads : ∀ leads : List (List Item),
        (leads.map (List.map (Item.renumber σ))).map
            (fun lead => trim (Item.renderAll literals' lead)) =
          leads.map fun lead => trim (Item.renderAll literals lead) := by
      intro leads
      rw [List.map_map]
      exact congrArg (List.map · leads) (funext fun lead => by
        rw [Function.comp_apply, Item.renderAll_renumber h])
    simp only [group, clause, Subselect.split_renumber, hpred, hleads]

end Cleaned

end Contents

end FilterClause
