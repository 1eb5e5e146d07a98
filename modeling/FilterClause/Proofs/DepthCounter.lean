import FilterClause.Proofs.NestingLimit

/-!
# Counting open groups

Cleaning may be read as a walk from left to right that counts the groups it has entered and not yet
left, and that notices loose brackets and groups that are too deep on the way. The count is shared
by all groups of a clause. It is what it was whenever a part of the clause is done, and it never
passes the limit, so the walk writes and notices what cleaning level by level does, and no group
feels what its neighbours were (`Walk.faithful`, `Walk.pieces_apart`).
-/

namespace FilterClause

open Text FilterClause.Bracket

/-- What a walk has in mind. -/
structure Walk where
  /-- The number of groups that are open. -/
  depth : Nat
  /-- The greatest number of groups that were open at once. -/
  deepest : Nat
  looseBracket : Bool
  tooDeep : Bool

/-- Outermost groups and the items outside them are all the items. -/
theorem Bracket.flatMap_ungroup_groups (items : List Item) :
    (groups items).flatMap ungroup = items := by
  induction items using pair_induction with
  | nil => rfl
  | item i rest hopen ih =>
    rw [groups_cons_item hopen, List.flatMap_cons, ih]
    rfl
  | loose rest hp ih =>
    rw [groups_loose hp, List.flatMap_cons, ih]
    rfl
  | group interior rest hb ih =>
    rw [groups_group hb, List.flatMap_cons, ih, ungroup]
    simp

/-- The pieces of a predicate hold its items in order, whether brackets balance or not. -/
theorem Piece.flatMap_items_ofItems (items : List Item) :
    (ofItems items).flatMap Piece.items = items := by
  rw [← flatMap_parts_items, flatMap_parts_ofItems, flatMap_ungroup_groups]

/-- The number of items that pieces were made of. -/
def Piece.size (pieces : List Piece) : Nat := (pieces.flatMap Piece.items).length

theorem Piece.size_cons (p : Piece) (pieces : List Piece) :
    size (p :: pieces) = p.items.length + size pieces := by
  simp [size]

theorem Piece.size_le_cons (p : Piece) (pieces : List Piece) :
    size pieces ≤ size (p :: pieces) := by
  rw [size_cons]
  omega

theorem Piece.length_lt_size (interior : List Item) (pieces : List Piece) :
    interior.length < size (.group interior :: pieces) := by
  rw [size_cons, items, List.length_append, List.length_cons]
  omega

theorem Piece.size_ofItems (items : List Item) : size (ofItems items) = items.length := by
  rw [size, flatMap_items_ofItems]

theorem Subselect.length_split_le (items : List Item) :
    (split items).2.length ≤ items.length := by
  have hlength := congrArg List.length (flatten_split items)
  rw [List.length_append] at hlength
  omega

namespace Walk

/-- A group is entered. -/
def enter (w : Walk) : Walk :=
  { w with depth := w.depth + 1, deepest := max w.deepest (w.depth + 1) }

/-- A group is left. -/
def leave (w : Walk) : Walk := { w with depth := w.depth - 1 }

/-- A piece that is no group is passed. -/
def pass (w : Walk) (p : Piece) : Walk :=
  { w with looseBracket := w.looseBracket || p.hasLooseBracket }

variable (literals : List Text) (options : Options)

mutual

/-- Walk through the interior of a group. -/
def group (interior : List Item) (w : Walk) : Text × Walk :=
  if Cleaned.maxNesting ≤ w.depth then
    (trim (Item.renderAll literals interior), { w with tooDeep := true })
  else
    let (text, w) := clause interior w.enter
    (text, w.leave)
termination_by (interior.length, 3, 0)

/-- Walk along pieces. It gives the texts of their groups. -/
def pieces (ps : List Piece) (w : Walk) : List Text × Walk :=
  match ps with
  | [] => ([], w)
  | .group interior :: rest =>
    let (text, w) := group interior w
    let (texts, w) := pieces rest w
    (text :: texts, w)
  | p :: rest => pieces rest (w.pass p)
termination_by (Piece.size ps, 0, ps.length)
decreasing_by
  · exact Prod.Lex.left _ _ (Piece.length_lt_size interior rest)
  · exact Prod.Lex.right' _ (Piece.size_le_cons _ rest) (Prod.Lex.right _ (Nat.lt_succ_self _))
  · exact Prod.Lex.right' _ (Piece.size_le_cons _ rest) (Prod.Lex.right _ (Nat.lt_succ_self _))

/-- Walk through a predicate. -/
def predicate (items : List Item) (w : Walk) : Text × Walk :=
  if items.all Item.isBlank then ([], w)
  else
    let (groups, w) := pieces (Piece.ofItems items) w
    (Condition.renderAll ⟨literals, groups⟩ options (Cleaned.tokensOf literals items), w)
termination_by (items.length, 1, 0)
decreasing_by exact Prod.Lex.right' _ (Piece.size_ofItems items).le (Prod.Lex.left _ _ (by decide))

/-- Walk through a clause. -/
def clause (items : List Item) (w : Walk) : Text × Walk :=
  let (text, w) := predicate (Subselect.split items).2 w
  let leads := (Subselect.split items).1.map fun lead => trim (Item.renderAll literals lead)
  (joinSpaced (leads ++ if text.isEmpty then [] else [text]), w)
termination_by (items.length, 2, 0)
decreasing_by
  exact Prod.Lex.right' _ (Subselect.length_split_le items) (Prod.Lex.left _ _ (by decide))

end

/-- What a walk has in mind behind a part, when it was told there of loose brackets (`loose`) and of
groups that are too deep (`deep`). -/
structure Follows (w : Walk) (loose deep : Bool) (behind : Walk) : Prop where
  depth : behind.depth = w.depth
  deepest : behind.deepest ≤ max w.deepest Cleaned.maxNesting
  looseBracket : behind.looseBracket = (w.looseBracket || loose)
  tooDeep : behind.tooDeep = (w.tooDeep || deep)

namespace Follows

theorem refl (w : Walk) : w.Follows false false w :=
  ⟨rfl, le_max_left _ _, (Bool.or_false _).symm, (Bool.or_false _).symm⟩

theorem trans {w w₁ w₂ : Walk} {loose deep loose' deep' : Bool} (h : w.Follows loose deep w₁)
    (h' : w₁.Follows loose' deep' w₂) : w.Follows (loose || loose') (deep || deep') w₂ where
  depth := h'.depth.trans h.depth
  deepest := h'.deepest.trans (max_le h.deepest (le_max_right _ _))
  looseBracket := by rw [h'.looseBracket, h.looseBracket, Bool.or_assoc]
  tooDeep := by rw [h'.tooDeep, h.tooDeep, Bool.or_assoc]

/-- A group that may be entered is left again. -/
theorem leave {w behind : Walk} {loose deep : Bool} (hw : w.depth < Cleaned.maxNesting)
    (h : w.enter.Follows loose deep behind) : w.Follows loose deep behind.leave where
  depth := by
    rw [Walk.leave, h.depth]
    rfl
  deepest := by
    have hinside : behind.deepest ≤ max (max w.deepest (w.depth + 1)) Cleaned.maxNesting :=
      h.deepest
    show behind.deepest ≤ _
    omega
  looseBracket := h.looseBracket
  tooDeep := h.tooDeep

end Follows

/-- A walk through a part writes what cleaning gives, notices what is noticed there, and ends as
deep as it began. -/
structure Mirrors (w : Walk) (c : Cleaned) (result : Text × Walk) : Prop where
  text : result.1 = c.text
  follows : w.Follows c.looseBracket c.tooDeep result.2

variable {literals options}

theorem pieces_of_no_group {p : Piece} (h : p.interior? = none) (rest : List Piece) (w : Walk) :
    pieces literals options (p :: rest) w = pieces literals options rest (w.pass p) := by
  cases p with
  | group interior => cases h
  | text t => rw [pieces]; simp
  | literal index => rw [pieces]; simp
  | call name arguments => rw [pieces]; simp

/-- Walks through groups with so many levels left do what cleaning does there. -/
def Faithful (literals : List Text) (options : Options) (levels : Nat) : Prop :=
  ∀ (interior : List Item) (w : Walk), w.depth + levels = Cleaned.maxNesting →
    w.Mirrors (Cleaned.group literals options levels interior) (group literals options interior w)

section

variable {levels : Nat} (hgroup : Faithful literals options levels)

include hgroup

/-- The pieces of a predicate share the count. None of them changes it for the next one. -/
theorem pieces_follows (ps : List Piece) {w : Walk} (hw : w.depth + levels = Cleaned.maxNesting) :
    (pieces literals options ps w).1 = ((ps.filterMap Piece.interior?).map
        (Cleaned.group literals options levels)).map Cleaned.text ∧
      w.Follows
        (ps.any Piece.hasLooseBracket || ((ps.filterMap Piece.interior?).map
          (Cleaned.group literals options levels)).any Cleaned.looseBracket)
        (((ps.filterMap Piece.interior?).map
          (Cleaned.group literals options levels)).any Cleaned.tooDeep)
        (pieces literals options ps w).2 := by
  induction ps generalizing w with
  | nil =>
    rw [pieces]
    exact ⟨rfl, .refl w⟩
  | cons p rest ih =>
    by_cases hp : p.interior? = none
    · have hpassed : w.Follows p.hasLooseBracket false (w.pass p) :=
        ⟨rfl, le_max_left _ _, rfl, (Bool.or_false _).symm⟩
      obtain ⟨htexts, hrest⟩ := ih (w := w.pass p) hw
      rw [pieces_of_no_group hp, List.filterMap_cons_none hp, List.any_cons, Bool.or_assoc]
      exact ⟨htexts, hpassed.trans hrest⟩
    · obtain ⟨interior, rfl⟩ : ∃ interior, p = .group interior := by
        cases p <;> simp [Piece.interior?] at hp ⊢
      obtain ⟨htext, hbehind⟩ := hgroup interior w hw
      obtain ⟨htexts, hrest⟩ := ih (w := (group literals options interior w).2)
        (hbehind.depth ▸ hw)
      have hboth := hbehind.trans hrest
      rw [pieces]
      refine ⟨?_, ?_⟩
      · exact congrArg₂ List.cons htext htexts
      · rwa [Bool.or_left_comm] at hboth

theorem predicate_mirrors (items : List Item) {w : Walk}
    (hw : w.depth + levels = Cleaned.maxNesting) :
    w.Mirrors (Cleaned.predicate literals options (Cleaned.group literals options levels) items)
      (predicate literals options items w) := by
  rw [predicate, Cleaned.predicate]
  split
  · exact ⟨rfl, .refl w⟩
  · obtain ⟨htexts, hbehind⟩ := pieces_follows hgroup (Piece.ofItems items) hw
    refine ⟨?_, hbehind⟩
    exact congrArg (fun texts => Condition.renderAll ⟨literals, texts⟩ options
      (Cleaned.tokensOf literals items)) htexts

theorem clause_mirrors (items : List Item) {w : Walk}
    (hw : w.depth + levels = Cleaned.maxNesting) :
    w.Mirrors (Cleaned.group literals options (levels + 1) items)
      (clause literals options items w) := by
  obtain ⟨htext, hbehind⟩ := predicate_mirrors hgroup (Subselect.split items).2 hw
  rw [clause, Cleaned.group, Cleaned.clause]
  refine ⟨?_, hbehind⟩
  exact congrArg (fun text => joinSpaced
    ((Subselect.split items).1.map (fun lead => trim (Item.renderAll literals lead)) ++
      if text.isEmpty then [] else [text])) htext

end

/-- The count is the number of levels that are used up. -/
theorem faithful (literals : List Text) (options : Options) (levels : Nat) :
    Faithful literals options levels := by
  induction levels with
  | zero =>
    intro interior w hw
    have hfull : Cleaned.maxNesting ≤ w.depth := Nat.le_of_eq hw.symm
    rw [group, if_pos hfull]
    exact ⟨rfl, rfl, le_max_left _ _, (Bool.or_false _).symm, (Bool.or_true _).symm⟩
  | succ levels ih =>
    intro interior w hw
    have hlt : w.depth < Cleaned.maxNesting := by omega
    have hinside : w.depth + 1 + levels = Cleaned.maxNesting := by omega
    obtain ⟨htext, hbehind⟩ := clause_mirrors ih interior (w := w.enter) hinside
    rw [group, if_neg hlt.not_ge]
    exact ⟨htext, hbehind.leave hlt⟩

/-! ## The count and the limit -/

/-- Nothing is open, and nothing was noticed. -/
def start : Walk := ⟨0, 0, false, false⟩

section

variable (literals options) {w : Walk} (hw : w.depth ≤ Cleaned.maxNesting)

include hw

theorem add_levels : w.depth + (Cleaned.maxNesting - w.depth) = Cleaned.maxNesting :=
  Nat.add_sub_cancel' hw

/-- A group does what cleaning does with the levels that are left. -/
theorem group_mirrors (interior : List Item) :
    w.Mirrors (Cleaned.group literals options (Cleaned.maxNesting - w.depth) interior)
      (group literals options interior w) :=
  faithful literals options _ interior w (add_levels hw)

/-- Groups side by side are cleaned, and found too deep, as each of them is alone. -/
theorem pieces_apart (ps : List Piece) :
    (pieces literals options ps w).1 =
        (ps.filterMap Piece.interior?).map (fun interior => (group literals options interior w).1) ∧
      (pieces literals options ps w).2.depth = w.depth ∧
      (pieces literals options ps w).2.deepest ≤ max w.deepest Cleaned.maxNesting ∧
      ((pieces literals options ps w).2.tooDeep = true ↔
        w.tooDeep = true ∨ ∃ interior ∈ ps.filterMap Piece.interior?,
          (group literals options interior { w with tooDeep := false }).2.tooDeep = true) := by
  obtain ⟨htexts, hbehind⟩ := pieces_follows (faithful literals options _) ps (add_levels hw)
  refine ⟨?_, hbehind.depth, hbehind.deepest, ?_⟩
  · rw [htexts, List.map_map]
    exact List.map_congr_left fun interior _ =>
      (group_mirrors literals options hw interior).text.symm
  · rw [hbehind.tooDeep, Bool.or_eq_true, List.any_map, List.any_eq_true]
    refine or_congr_right (exists_congr fun interior => and_congr_right fun _ => ?_)
    have halone := group_mirrors literals options (w := { w with tooDeep := false }) hw interior
    rw [halone.follows.tooDeep, Bool.false_or]
    rfl

/-- Without calls and subselects, a group is found too deep exactly if it holds as many pairs, each
inside the one before, as groups may still be entered. -/
theorem tooDeep_group_iff (hnone : w.tooDeep = false) {interior : List Item}
    (hcalls : CallFree false interior) (hwhere : Subselect.LacksWhere interior) :
    (group literals options interior w).2.tooDeep = true ↔
      Deep (Cleaned.maxNesting - w.depth) interior := by
  rw [(group_mirrors literals options hw interior).follows.tooDeep, hnone, Bool.false_or]
  exact Cleaned.tooDeep_group_iff literals options _ hcalls hwhere

end

end Walk

/-- The limit of nesting is exact. A clause is told to be too deep if one of its pairs lies inside
at least as many others as may be open; the count of open groups does not pass that number, comes
back from every part of a clause to what it was, and lets groups side by side be judged one by one;
and a tower of brackets is cleaned up to that height and kept above it. -/
theorem nestingLimit_exact (options : Options) :
    (∀ r : Request, CallFree false (Lifted.items r.clause) →
      Subselect.LacksWhere (Lifted.items r.clause) →
        (Issue.tooDeep ∈ (clean r).issues ↔
          Deep (Cleaned.maxNesting + 1) (Lifted.items r.clause))) ∧
      (∀ (literals : List Text) (items : List Item), Walk.start.Mirrors
        (Cleaned.ofItems literals options items) (Walk.clause literals options items .start)) ∧
      (∀ (literals : List Text) (w : Walk), w.depth ≤ Cleaned.maxNesting →
        (∀ items, w.Mirrors (Cleaned.group literals options (Cleaned.maxNesting - w.depth) items)
            (Walk.group literals options items w)) ∧
          (∀ items, w.Mirrors
            (Cleaned.group literals options (Cleaned.maxNesting - w.depth + 1) items)
            (Walk.clause literals options items w)) ∧
          (∀ items, w.Mirrors (Cleaned.predicate literals options
              (Cleaned.group literals options (Cleaned.maxNesting - w.depth)) items)
            (Walk.predicate literals options items w)) ∧
          (∀ ps : List Piece,
            (Walk.pieces literals options ps w).1 = (ps.filterMap Piece.interior?).map
                (fun interior => (Walk.group literals options interior w).1) ∧
              (Walk.pieces literals options ps w).2.depth = w.depth ∧
              (Walk.pieces literals options ps w).2.deepest ≤ max w.deepest Cleaned.maxNesting ∧
              ((Walk.pieces literals options ps w).2.tooDeep = true ↔
                w.tooDeep = true ∨ ∃ interior ∈ ps.filterMap Piece.interior?,
                  (Walk.group literals options interior
                    { w with tooDeep := false }).2.tooDeep = true)) ∧
          (∀ interior, w.tooDeep = false → CallFree false interior →
            Subselect.LacksWhere interior →
              ((Walk.group literals options interior w).2.tooDeep = true ↔
                Deep (Cleaned.maxNesting - w.depth) interior))) ∧
      (∀ (t : Text) (height : Nat), Fragment.Plain t → Subselect.LacksWhere (t.map .char) →
        (RowLimit.detach t).2 = none →
          (height ≤ Cleaned.maxNesting →
              cleanClauseWith options (tower height t) = tower height (cleanClauseWith options t)) ∧
            cleanClauseWith options (tower (Cleaned.maxNesting + 1) t) =
              tower (Cleaned.maxNesting + 1) (trim t) ∧
            (Cleaned.maxNesting + 1 < height →
              cleanClauseWith options (tower height t) = tower height t)) := by
  refine ⟨tooDeep_mem_issues_iff, fun literals items => ?_, fun literals w hw => ?_,
    fun t height hplain hwhere hlimit =>
      cleanClauseWith_tower options hplain hwhere hlimit height⟩
  · exact Walk.clause_mirrors (Walk.faithful literals options _) items (w := .start) rfl
  · exact ⟨Walk.group_mirrors literals options hw,
      fun items => Walk.clause_mirrors (Walk.faithful literals options _) items
        (Walk.add_levels hw),
      fun items => Walk.predicate_mirrors (Walk.faithful literals options _) items
        (Walk.add_levels hw),
      Walk.pieces_apart literals options hw,
      fun interior hnone => Walk.tooDeep_group_iff literals options hw hnone⟩

/-- A clause with siblings, a walk with one level left, and a tower. -/
theorem nestingLimit_exact_siblings :
    Issue.tooDeep ∉ (clean ⟨"((a = x) or b = '((') and (c = y) )".toList, none, none⟩).issues ∧
      ((Walk.group [] Options.standard ("(a = x) or b".toList.map .char)
        ⟨127, 127, false, false⟩).2.tooDeep = true ↔ Deep 1 ("(a = x) or b".toList.map .char)) ∧
      cleanClauseWith Options.standard (tower 128 "a = some word".toList) =
        tower 128 (cleanClauseWith Options.standard "a = some word".toList) := by
  obtain ⟨hreported, -, hwalk, htower⟩ := nestingLimit_exact Options.standard
  refine ⟨fun hissue => ?_, ?_, ?_⟩
  · have hdeep := (hreported _ (by decide +kernel) (by decide +kernel)).mp hissue
    exact absurd hdeep.length_le (by decide +kernel)
  · exact (hwalk [] ⟨127, 127, false, false⟩ (by decide)).2.2.2.2 _ rfl (by decide +kernel)
      (by decide +kernel)
  · have hplain : Fragment.Plain "a = some word".toList := by
      unfold Fragment.Plain
      decide +kernel
    exact (htower _ 128 hplain (by decide +kernel) (by decide +kernel)).1 (by decide)

end FilterClause
