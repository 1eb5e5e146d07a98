import FilterClause.Proofs.Nesting

/-!
# Brackets without partners

Any items can be cut at the brackets that have no partner: first come closing ones, then opening
ones, and the items between two of them balance (`Resolved`). So a group always holds balanced
items, and among the characters outside all groups no closing bracket comes behind an opening one.
Where no bracket is left in the text of the pieces, the items balance and the pieces hold them in
order. On the other side stands the count of open brackets, which decides whether items balance and
how deep they are nested.
-/

namespace FilterClause

namespace Bracket

/-! ## Cutting at brackets without a partner -/

/-- Items cut at the brackets that have no partner. -/
inductive Resolved : List Item → Prop
  | balanced {xs : List Item} (h : Balanced xs) : Resolved xs
  | opening {xs ys : List Item} (hx : Balanced xs) (hy : Resolved ys)
      (hwaiting : (pair ys).waiting = []) : Resolved (xs ++ .char '(' :: ys)
  | closing {xs ys : List Item} (hx : Balanced xs) (hy : Resolved ys) :
      Resolved (xs ++ .char ')' :: ys)

theorem waiting_of_balanced {xs : List Item} (h : Balanced xs) : (pair xs).waiting = [] := by
  have := (pair_append h []).2
  rwa [List.append_nil] at this

theorem waiting_open (ys : List Item) :
    (pair (.char '(' :: ys)).waiting = (pair ys).waiting.tail := by
  simp [pair]

theorem Resolved.balanced_append {xs ys : List Item} (hx : Balanced xs) (hy : Resolved ys) :
    Resolved (xs ++ ys) := by
  cases hy with
  | balanced h => exact .balanced (hx.append h)
  | opening hb hr hw =>
    rw [← List.append_assoc]
    exact .opening (hx.append hb) hr hw
  | closing hb hr =>
    rw [← List.append_assoc]
    exact .closing (hx.append hb) hr

/-- Any items can be cut so. -/
theorem resolved (items : List Item) : Resolved items := by
  induction items with
  | nil => exact .balanced .nil
  | cons i rest ih =>
    by_cases hopen : i = .char '('
    · subst hopen
      cases ih with
      | balanced h => exact .opening .nil (.balanced h) (waiting_of_balanced h)
      | @opening xs ys hb hr hw =>
        refine .opening .nil (.opening hb hr hw) ?_
        rw [(pair_append hb _).2, waiting_open, hw]
        rfl
      | @closing xs ys hb hr =>
        -- The bracket takes the first closing one that waits, and a group is put in front.
        have hgroup : Balanced (.char '(' :: (xs ++ [.char ')'])) := .group hb .nil
        have := Resolved.balanced_append hgroup hr
        rwa [List.cons_append, List.append_assoc] at this
    · by_cases hclose : i = .char ')'
      · subst hclose
        exact .closing .nil ih
      · exact Resolved.balanced_append (.item hopen hclose .nil) ih

/-! ## Groups of any items -/

theorem reaches_open {ys : List Item} (h : (pair ys).waiting = []) :
    reaches (.char '(' :: ys) = none :: reaches ys := by
  simp [reaches, pair, h]

theorem groups_open {ys : List Item} (h : (pair ys).waiting = []) :
    groups (.char '(' :: ys) = .inl (.char '(') :: groups ys := by
  have hfind : group? (Item.char '(', none) (ys.zip (reaches ys)) = none := rfl
  rw [groups, reaches_open h, List.zip_cons_cons, scan_cons_of_none hfind]
  rfl

/-- Whatever the items, a group holds balanced ones. -/
theorem balanced_of_mem_groups {items interior : List Item} (h : .inr interior ∈ groups items) :
    Balanced interior := by
  have hbalanced : ∀ {xs : List Item}, Balanced xs → .inr interior ∈ groups xs →
      Balanced interior := fun hx hm => by
    obtain ⟨depth, -, hn⟩ := hx.nested.of_mem_groups hm
    exact hn.balanced
  induction resolved items with
  | balanced hx => exact hbalanced hx h
  | opening hx _ hw ih =>
    rw [groups_append hx, groups_open hw, List.mem_append, List.mem_cons] at h
    rcases h with h | h | h
    · exact hbalanced hx h
    · cases h
    · exact ih h
  | closing hx _ ih =>
    rw [groups_append hx, groups_cons_item (by decide), List.mem_append, List.mem_cons] at h
    rcases h with h | h | h
    · exact hbalanced hx h
    · cases h
    · exact ih h

end Bracket

namespace Piece

open FilterClause.Bracket

theorem outerChars_append_char (gs : List (Item ⊕ List Item)) (c : Char)
    (hs : List (Item ⊕ List Item)) :
    outerChars (gs ++ .inl (.char c) :: hs) = outerChars gs ++ c :: outerChars hs :=
  List.filterMap_append

theorem not_mem_outerChars {xs : List Item} (hx : Balanced xs) :
    '(' ∉ outerChars (groups xs) ∧ ')' ∉ outerChars (groups xs) :=
  ⟨fun h => (not_bracket_of_mem_groups hx (mem_of_mem_outerChars h)).1 rfl,
    fun h => (not_bracket_of_mem_groups hx (mem_of_mem_outerChars h)).2 rfl⟩

/-- Outside all groups no closing bracket comes behind an opening one. -/
theorem not_sublist_outerChars (items : List Item) :
    ¬ ['(', ')'].Sublist (outerChars (groups items)) := by
  have hclosed : ∀ {ys : List Item}, Resolved ys → (pair ys).waiting = [] →
      ')' ∉ outerChars (groups ys) := by
    intro ys hy hw
    induction hy with
    | balanced h => exact (not_mem_outerChars h).2
    | @opening xs ys hx hy hys ih =>
      rw [groups_append hx, groups_open hys, outerChars_append_char, List.mem_append,
        List.mem_cons]
      rintro (h | h | h)
      · exact (not_mem_outerChars hx).2 h
      · exact absurd h (by decide)
      · exact ih hys h
    | closing hx _ _ =>
      rw [(pair_append hx _).2, pair_cons_close] at hw
      cases hw
  have hskip : ∀ {s r : Text}, '(' ∉ s → ['(', ')'].Sublist (s ++ r) → ['(', ')'].Sublist r := by
    intro s r hs h
    obtain ⟨l, k, he, hl, hk⟩ := List.sublist_append_iff.mp h
    cases l with
    | nil => exact he ▸ hk
    | cons c l => exact absurd ((List.cons.inj he).1 ▸ hl.subset List.mem_cons_self) hs
  induction resolved items with
  | balanced h => exact fun hs => (not_mem_outerChars h).1 (hs.subset (by simp))
  | @opening xs ys hx hy hw _ =>
    have hwaiting : (pair (xs ++ .char '(' :: ys)).waiting = [] := by
      rw [(pair_append hx _).2, waiting_open, hw]
      rfl
    exact fun hs => hclosed (.opening hx hy hw) hwaiting (hs.subset (by simp))
  | closing hx _ ih =>
    rw [groups_append hx, groups_cons_item (by decide), outerChars_append_char,
      List.append_cons]
    refine fun hs => ih (hskip ?_ hs)
    rw [List.mem_append, List.mem_singleton]
    rintro (h | h)
    · exact (not_mem_outerChars hx).1 h
    · exact absurd h (by decide)

/-- A character that stands in no name is in a piece of text. -/
theorem exists_text_of_mem {c : Char} (hc : Text.isName c = false) {back : Text}
    {gs : List (Item ⊕ List Item)} (h : c ∈ back ∨ .inl (.char c) ∈ gs) :
    ∃ t, .text t ∈ behindRun back gs ∧ c ∈ t := by
  have hrun : ∀ {u : Text}, c ∈ u → ∃ t, .text t ∈ ofRun u ∧ c ∈ t := by
    intro u hu
    refine ⟨u.reverse, ?_, List.mem_reverse.mpr hu⟩
    rw [ofRun, if_neg (by simpa using List.ne_nil_of_mem hu)]
    exact List.mem_singleton.mpr rfl
  induction gs generalizing back with
  | nil => exact hrun (h.resolve_right List.not_mem_nil)
  | cons g gs ih =>
    rcases g with (d | index) | interior
    · refine ih ?_
      rw [List.mem_cons] at h ⊢
      rcases h with h | h | h
      · exact .inl (.inr h)
      · cases h
        exact .inl (.inl rfl)
      · exact .inr h
    · rw [behindRun]
      rcases h with h | h
      · obtain ⟨t, ht, hct⟩ := hrun h
        exact ⟨t, List.mem_append_left _ ht, hct⟩
      · obtain ⟨t, ht, hct⟩ := ih (.inr ((List.mem_cons.mp h).resolve_left (by simp)))
        exact ⟨t, List.mem_append_right _ (List.mem_cons_of_mem _ ht), hct⟩
    · rw [behindRun]
      rcases h with h | h
      · obtain ⟨t, ht, hct⟩ := hrun (Text.mem_dropWhile_of_not h hc)
        exact ⟨t, List.mem_append_left _ ht, hct⟩
      · obtain ⟨t, ht, hct⟩ := ih (.inr ((List.mem_cons.mp h).resolve_left (by simp)))
        exact ⟨t, List.mem_append_right _ (List.mem_cons_of_mem _ ht), hct⟩

/-- The text of a predicate holds no bracket exactly if all brackets have partners. -/
theorem not_hasLooseBracket_iff {items : List Item} :
    (ofItems items).any hasLooseBracket = false ↔ Balanced items := by
  refine ⟨fun h => ?_, not_hasLooseBracket_of_balanced⟩
  have hnone : ∀ c, c = '(' ∨ c = ')' → .inl (.char c) ∉ groups items := by
    intro c hc hm
    have hname : Text.isName c = false :=
      Text.isName_of_mem_marks c (by rcases hc with rfl | rfl <;> decide)
    obtain ⟨t, ht, hct⟩ := exists_text_of_mem hname (.inr hm)
    have hloose := List.any_eq_false.mp h _ ht
    exact hloose (List.any_eq_true.mpr ⟨c, hct, by simpa using hc⟩)
  cases resolved items with
  | balanced hb => exact hb
  | opening hx _ hw =>
    refine absurd ?_ (hnone '(' (.inl rfl))
    rw [groups_append hx, groups_open hw]
    exact List.mem_append_right _ List.mem_cons_self
  | closing hx _ =>
    refine absurd ?_ (hnone ')' (.inr rfl))
    rw [groups_append hx, groups_cons_item (by decide)]
    exact List.mem_append_right _ List.mem_cons_self

end Piece

/-! ## Items put together again -/

/-- The items that an item or a group was made of. -/
def Bracket.ungroup : Item ⊕ List Item → List Item
  | .inl i => [i]
  | .inr interior => .char '(' :: interior ++ [.char ')']

theorem Bracket.flatMap_ungroup {items : List Item} (h : Balanced items) :
    (groups items).flatMap ungroup = items := by
  induction h with
  | nil => rfl
  | item hopen _ _ ih =>
    rw [groups_cons_item hopen, List.flatMap_cons, ih]
    rfl
  | group hinterior _ _ ih =>
    rw [groups_group hinterior, List.flatMap_cons, ih]
    simp [ungroup]

namespace Piece

open FilterClause.Bracket

/-- The items outside groups, and the groups, that a piece was made of. -/
def parts : Piece → List (Item ⊕ List Item)
  | .text t => t.map fun c => .inl (.char c)
  | .literal index => [.inl (.literal index)]
  | .call name arguments => name.map (fun c => .inl (.char c)) ++ [.inr arguments]
  | .group interior => [.inr interior]

theorem flatMap_ungroup_map_char (t : Text) :
    (t.map fun c => (.inl (.char c) : Item ⊕ List Item)).flatMap ungroup = t.map .char := by
  rw [List.flatMap_map]
  exact List.flatMap_pure_eq_map _ t

theorem flatMap_ungroup_parts (p : Piece) : p.parts.flatMap ungroup = p.items := by
  cases p with
  | text t => exact flatMap_ungroup_map_char t
  | literal index => rfl
  | call name arguments =>
    rw [parts, List.flatMap_append, flatMap_ungroup_map_char, List.flatMap_singleton, items,
      List.append_assoc]
    rfl
  | group interior =>
    rw [parts, List.flatMap_singleton]
    rfl

theorem flatMap_parts_items (ps : List Piece) :
    (ps.flatMap parts).flatMap ungroup = ps.flatMap items := by
  rw [List.flatMap_assoc]
  exact congrArg (ps.flatMap ·) (funext flatMap_ungroup_parts)

/-- The pieces behind a run of text are made of the run and of what is read. -/
theorem flatMap_parts_behindRun (back : Text) (gs : List (Item ⊕ List Item)) :
    (behindRun back gs).flatMap parts = back.reverse.map (fun c => .inl (.char c)) ++ gs := by
  have hrun : ∀ u : Text,
      (ofRun u).flatMap parts = u.reverse.map fun c => .inl (.char c) := fun u => by
    cases u <;> simp [ofRun, parts]
  induction gs generalizing back with
  | nil => rw [behindRun, hrun, List.append_nil]
  | cons g gs ih =>
    rcases g with (c | index) | interior
    · rw [behindRun, ih]
      simp
    · rw [behindRun, List.flatMap_append, List.flatMap_cons, hrun, ih]
      rfl
    · have hname : (back.dropWhile Text.isName).reverse ++ (back.takeWhile Text.isName).reverse =
          back.reverse := by
        rw [← List.reverse_append, List.takeWhile_append_dropWhile]
      rw [behindRun, List.flatMap_append, List.flatMap_cons, hrun, ih, ← hname]
      split
      · next hempty =>
        rw [List.isEmpty_iff.mp hempty]
        simp [parts]
      · simp [parts]

theorem flatMap_parts_ofItems (items : List Item) : (ofItems items).flatMap parts = groups items :=
  flatMap_parts_behindRun [] _

/-- The pieces of balanced items hold the items in order. -/
theorem flatMap_items {items : List Item} (h : Balanced items) :
    (ofItems items).flatMap Piece.items = items := by
  rw [← flatMap_parts_items, flatMap_parts_ofItems, flatMap_ungroup h]

theorem items_subset {items : List Item} (h : Balanced items) {p : Piece} (hp : p ∈ ofItems items) :
    p.items ⊆ items := by
  intro i hi
  rw [← flatMap_items h]
  exact List.mem_flatMap.mpr ⟨p, hp, hi⟩

end Piece

namespace Bracket

/-! ## Counting open brackets -/

/-- Whether brackets balance behind `opened` open ones, with never more than `limit` open. -/
def closesWithin (limit : Nat) : Nat → List Item → Bool
  | opened, [] => opened == 0
  | opened, i :: rest =>
    if i = .char '(' then decide (opened < limit) && closesWithin limit (opened + 1) rest
    else if i = .char ')' then decide (0 < opened) && closesWithin limit (opened - 1) rest
    else closesWithin limit opened rest

section Counting

variable {limit depth opened : Nat}

theorem closesWithin_open (rest : List Item) :
    closesWithin limit opened (.char '(' :: rest) =
      (decide (opened < limit) && closesWithin limit (opened + 1) rest) := rfl

theorem closesWithin_close (rest : List Item) :
    closesWithin limit opened (.char ')' :: rest) =
      (decide (0 < opened) && closesWithin limit (opened - 1) rest) := rfl

/-- Items that are not nested too deep leave the count as it was. -/
theorem Nested.closesWithin_append {xs : List Item} (h : Nested depth xs)
    (hle : opened + depth ≤ limit) (ys : List Item) :
    closesWithin limit opened (xs ++ ys) = closesWithin limit opened ys := by
  induction h generalizing opened ys with
  | nil => rfl
  | item hopen hclose _ ih =>
    rw [List.cons_append, closesWithin, if_neg hopen, if_neg hclose]
    exact ih hle ys
  | group _ _ ihi ihr =>
    have hlt : decide (opened < limit) = true := decide_eq_true (by omega)
    have hpos : decide (0 < opened + 1) = true := decide_eq_true (by omega)
    rw [List.cons_append, List.append_assoc, List.cons_append, closesWithin_open, hlt,
      ihi (by omega), closesWithin_close, hpos, Bool.true_and, Bool.true_and, Nat.add_sub_cancel]
    exact ihr hle ys

/-- Balanced items that the count allows are not nested too deep. -/
theorem Balanced.nested_of_closesWithin {xs ys : List Item} (h : Balanced xs)
    (hc : closesWithin limit opened (xs ++ ys) = true) :
    Nested (limit - opened) xs ∧ closesWithin limit opened ys = true := by
  induction h generalizing opened ys with
  | nil => exact ⟨.nil, hc⟩
  | item hopen hclose _ ih =>
    rw [List.cons_append, closesWithin, if_neg hopen, if_neg hclose] at hc
    obtain ⟨hn, hys⟩ := ih hc
    exact ⟨.item hopen hclose hn, hys⟩
  | group _ _ ihi ihr =>
    rw [List.cons_append, List.append_assoc, List.cons_append, closesWithin_open,
      Bool.and_eq_true, decide_eq_true_eq] at hc
    obtain ⟨hinterior, hc'⟩ := ihi hc.2
    rw [closesWithin_close, Bool.and_eq_true, Nat.add_sub_cancel] at hc'
    obtain ⟨hrest, hys⟩ := ihr hc'.2
    obtain ⟨d, hd⟩ : ∃ d, limit - opened = d + 1 := ⟨limit - opened - 1, by omega⟩
    rw [hd] at hrest ⊢
    rw [show limit - (opened + 1) = d by omega] at hinterior
    exact ⟨.group hinterior hrest, hys⟩

/-- A bracket that is open stays open if no closing one waits. -/
theorem closesWithin_of_waiting {ys : List Item} (hw : (pair ys).waiting = []) :
    closesWithin limit (opened + 1) ys = false := by
  by_contra hc
  rw [Bool.not_eq_false] at hc
  induction resolved ys generalizing opened with
  | @balanced ys h =>
    rw [← List.append_nil ys] at hc
    cases (h.nested_of_closesWithin hc).2
  | opening hx _ hys ih =>
    have := (hx.nested_of_closesWithin hc).2
    rw [closesWithin_open, Bool.and_eq_true] at this
    exact ih hys this.2
  | closing hx _ _ =>
    rw [(pair_append hx _).2, pair_cons_close] at hw
    cases hw

/-- How deep items are nested is told by counting open brackets. -/
theorem nested_iff {items : List Item} :
    Nested depth items ↔ closesWithin depth 0 items = true := by
  constructor
  · intro h
    have hcount : closesWithin depth 0 (items ++ []) = closesWithin depth 0 [] :=
      h.closesWithin_append (Nat.le_of_eq (Nat.zero_add depth)) []
    rwa [List.append_nil] at hcount
  · intro hc
    cases resolved items with
    | balanced h =>
      rw [← List.append_nil items] at hc
      exact (h.nested_of_closesWithin hc).1
    | opening hx _ hw =>
      have := (hx.nested_of_closesWithin hc).2
      rw [closesWithin_open, closesWithin_of_waiting hw, Bool.and_false] at this
      cases this
    | closing hx _ =>
      have := (hx.nested_of_closesWithin hc).2
      cases this

instance (depth : Nat) (items : List Item) : Decidable (Nested depth items) :=
  decidable_of_iff _ nested_iff.symm

instance (items : List Item) : Decidable (Balanced items) :=
  decidable_of_iff (Nested items.length items) ⟨Nested.balanced, Balanced.nested⟩

end Counting

end Bracket

end FilterClause
