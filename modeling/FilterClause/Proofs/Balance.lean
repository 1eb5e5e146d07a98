import FilterClause.Clause.Bracket
import FilterClause.Proofs.Scanning

/-!
# Balanced brackets

Items balance if every bracket has a partner. The grammar of such items is the second side of the
bracket search: it tells the outermost groups without any counting.
-/

namespace FilterClause

namespace Bracket

/-- Items whose brackets all have partners. -/
inductive Balanced : List Item → Prop
  | nil : Balanced []
  | item {i : Item} {rest : List Item} (hopen : i ≠ .char '(') (hclose : i ≠ .char ')')
      (h : Balanced rest) : Balanced (i :: rest)
  | group {interior rest : List Item} (hinterior : Balanced interior) (hrest : Balanced rest) :
      Balanced (.char '(' :: (interior ++ .char ')' :: rest))

theorem Balanced.append {xs ys : List Item} (hx : Balanced xs) (hy : Balanced ys) :
    Balanced (xs ++ ys) := by
  induction hx with
  | nil => exact hy
  | item hopen hclose _ ih => exact .item hopen hclose ih
  | group hinterior _ _ ih =>
    rw [List.cons_append, List.append_assoc, List.cons_append]
    exact .group hinterior ih

theorem balanced_of_no_brackets {items : List Item}
    (h : ∀ i ∈ items, i ≠ .char '(' ∧ i ≠ .char ')') : Balanced items := by
  induction items with
  | nil => exact .nil
  | cons i rest ih =>
    have hi := h i List.mem_cons_self
    exact .item hi.1 hi.2 (ih fun j hj => h j (List.mem_cons_of_mem _ hj))

theorem balanced_cons_iff {i : Item} (hopen : i ≠ .char '(') (hclose : i ≠ .char ')')
    {rest : List Item} : Balanced (i :: rest) ↔ Balanced rest := by
  constructor
  · intro h
    cases h with
    | item _ _ h => exact h
    | group => exact absurd rfl hopen
  · exact .item hopen hclose

/-- Items that are no brackets may go from the start. -/
theorem Balanced.of_items_append {xs ys : List Item}
    (hxs : ∀ i ∈ xs, i ≠ .char '(' ∧ i ≠ .char ')') (h : Balanced (xs ++ ys)) : Balanced ys := by
  induction xs with
  | nil => exact h
  | cons x xs ih =>
    have hx := hxs x List.mem_cons_self
    exact ih (fun i hi => hxs i (List.mem_cons_of_mem _ hi))
      ((balanced_cons_iff hx.1 hx.2).mp h)

/-- Items that are no brackets may go from the end. -/
theorem Balanced.of_append_items {xs ys : List Item}
    (hys : ∀ i ∈ ys, i ≠ .char '(' ∧ i ≠ .char ')') (h : Balanced (xs ++ ys)) : Balanced xs := by
  generalize hzs : xs ++ ys = zs at h
  induction h generalizing xs with
  | nil => rw [(List.append_eq_nil_iff.mp hzs).1]; exact .nil
  | @item i rest hopen hclose _ ih =>
    cases xs with
    | nil => exact .nil
    | cons x xs =>
      obtain ⟨rfl, hrest⟩ := List.cons.inj hzs
      exact .item hopen hclose (ih hrest)
  | @group interior rest hinterior _ _ ih =>
    cases xs with
    | nil =>
      have : Item.char '(' ∈ ys := by
        rw [List.nil_append] at hzs
        rw [hzs]
        exact List.mem_cons_self
      exact absurd rfl (hys _ this).1
    | cons x xs =>
      obtain ⟨rfl, hrest⟩ := List.cons.inj hzs
      obtain ⟨back, rfl, hback⟩ := exists_of_append_right (fun hm => (hys _ hm).2 rfl) hrest
      exact .group hinterior (ih hback.symm)

/-! ## Partners -/

theorem pair_cons_item {i : Item} (hopen : i ≠ .char '(') (hclose : i ≠ .char ')')
    (rest : List Item) :
    pair (i :: rest) =
      ⟨(pair rest).count + 1, none :: (pair rest).reaches, (pair rest).waiting⟩ := by
  simp [pair, hopen, hclose]

theorem pair_cons_close (rest : List Item) :
    pair (.char ')' :: rest) =
      ⟨(pair rest).count + 1, none :: (pair rest).reaches,
        (pair rest).count :: (pair rest).waiting⟩ := by
  simp [pair]

theorem reaches_cons_item {i : Item} (hopen : i ≠ .char '(') (rest : List Item) :
    reaches (i :: rest) = none :: reaches rest := by
  by_cases hclose : i = .char ')'
  · rw [hclose, reaches, pair_cons_close, reaches]
  · rw [reaches, pair_cons_item hopen hclose, reaches]

/-- Balanced items keep their partners whatever follows, and take none from it. -/
theorem pair_append {xs : List Item} (h : Balanced xs) (ys : List Item) :
    reaches (xs ++ ys) = reaches xs ++ reaches ys ∧
      (pair (xs ++ ys)).waiting = (pair ys).waiting := by
  induction h generalizing ys with
  | nil => exact ⟨rfl, rfl⟩
  | item hopen hclose _ ih =>
    obtain ⟨hr, hw⟩ := ih ys
    simp only [reaches] at hr
    simp [reaches, pair_cons_item hopen hclose, hr, hw]
  | @group interior rest hinterior hrest ihi ihr =>
    obtain ⟨hr, hw⟩ := ihr ys
    obtain ⟨hr₀, hw₀⟩ := ihr []
    obtain ⟨hir, hiw⟩ := ihi (.char ')' :: (rest ++ ys))
    obtain ⟨hir₀, hiw₀⟩ := ihi (.char ')' :: rest)
    simp only [reaches, pair_cons_close, List.append_nil] at hr hr₀ hir hiw hir₀ hiw₀ hw₀
    simp only [List.cons_append, List.append_assoc]
    simp [reaches, pair, hir, hiw, hir₀, hiw₀, hr, hw]
    omega

/-- An opening bracket before balanced items reaches the bracket right behind them. -/
theorem reaches_group {interior : List Item} (h : Balanced interior) (rest : List Item) :
    reaches (.char '(' :: (interior ++ .char ')' :: rest)) =
      some (interior.length + 1) :: (reaches interior ++ none :: reaches rest) := by
  obtain ⟨hr, hw⟩ := pair_append h (.char ')' :: rest)
  rw [pair_cons_close] at hw
  simp only [reaches, pair_cons_close] at hr
  simp [reaches, pair, hw, hr]
  omega

/-! ## Outermost groups -/

/-- Groups hold items of the list they are read off, whether it balances or not. -/
theorem mem_groups {items : List Item} {g : Item ⊕ List Item} (h : g ∈ groups items) :
    g.elim (fun i => [i]) id ⊆ items := by
  have key : ∀ l : List (Item × Option Nat), ∀ g ∈ (scan group? l).map (Sum.map Prod.fst id),
      g.elim (fun i => [i]) id ⊆ l.map Prod.fst := by
    intro l
    induction l using scan_induction group? with
    | nil => exact nofun
    | pass a rest ha ih =>
      intro g hg
      rw [scan_cons_of_none ha, List.map_cons, List.mem_cons] at hg
      rcases hg with rfl | hg
      · simp
      · exact List.subset_cons_of_subset _ (ih g hg)
    | take a rest found n ha ih =>
      intro g hg
      rw [scan_cons_of_some ha, List.map_cons, List.mem_cons] at hg
      rcases hg with rfl | hg
      · obtain ⟨reach, -, hfound⟩ := Option.map_eq_some_iff.mp ha
        obtain ⟨rfl, rfl⟩ := Prod.mk.inj hfound
        refine List.subset_cons_of_subset _ ?_
        exact List.map_subset _ (List.take_subset _ _)
      · refine List.subset_cons_of_subset _ (List.Subset.trans (ih g hg) ?_)
        exact List.map_subset _ (List.drop_subset _ _)
  have hzip : (items.zip (reaches items)).map Prod.fst = items :=
    List.map_fst_zip (Nat.le_of_eq (length_reaches items).symm)
  have := key _ g h
  rwa [hzip] at this

theorem groups_cons_item {i : Item} (hopen : i ≠ .char '(') (rest : List Item) :
    groups (i :: rest) = .inl i :: groups rest := by
  have hfind : group? (i, none) (rest.zip (reaches rest)) = none := rfl
  rw [groups, reaches_cons_item hopen, List.zip_cons_cons, scan_cons_of_none hfind, List.map_cons]
  rfl

theorem groups_group {interior : List Item} (h : Balanced interior) (rest : List Item) :
    groups (.char '(' :: (interior ++ .char ')' :: rest)) = .inr interior :: groups rest := by
  have hzip : (interior ++ .char ')' :: rest).zip (reaches interior ++ none :: reaches rest) =
      interior.zip (reaches interior) ++ (.char ')', none) :: rest.zip (reaches rest) := by
    rw [List.zip_append (length_reaches _).symm, List.zip_cons_cons]
  have hlen : (interior.zip (reaches interior)).length = interior.length := by
    simp
  have hfind : group? (.char '(', some (interior.length + 1))
      (interior.zip (reaches interior) ++ (.char ')', none) :: rest.zip (reaches rest)) =
        some (interior, interior.length + 1) := by
    rw [group?, Option.map_some, Nat.add_sub_cancel,
      List.take_append_of_le_length (Nat.le_of_eq hlen.symm),
      List.take_of_length_le (Nat.le_of_eq hlen),
      List.map_fst_zip (Nat.le_of_eq (length_reaches _).symm)]
  have hdrop : (interior.zip (reaches interior) ++ (.char ')', none) ::
      rest.zip (reaches rest)).drop (interior.length + 1) = rest.zip (reaches rest) := by
    rw [← hlen, List.drop_length_add_append, List.drop_one, List.tail_cons]
  rw [groups, reaches_group h, List.zip_cons_cons, hzip, scan_cons_of_some hfind, hdrop,
    List.map_cons]
  rfl

/-- The outermost groups of balanced items come before those of what follows. -/
theorem groups_append {xs : List Item} (h : Balanced xs) (ys : List Item) :
    groups (xs ++ ys) = groups xs ++ groups ys := by
  induction h with
  | nil => rfl
  | item hopen _ _ ih =>
    rw [List.cons_append, groups_cons_item hopen, groups_cons_item hopen, ih, List.cons_append]
  | group hinterior _ _ ih =>
    rw [List.cons_append, List.append_assoc, List.cons_append, groups_group hinterior,
      groups_group hinterior, ih, List.cons_append]

/-- No bracket of balanced items stands outside their groups. -/
theorem not_bracket_of_mem_groups {xs : List Item} (h : Balanced xs) {i : Item}
    (hi : .inl i ∈ groups xs) : i ≠ .char '(' ∧ i ≠ .char ')' := by
  induction h with
  | nil => cases hi
  | item hopen hclose _ ih =>
    rw [groups_cons_item hopen, List.mem_cons] at hi
    rcases hi with e | hi
    · cases e
      exact ⟨hopen, hclose⟩
    · exact ih hi
  | group hinterior _ _ ih =>
    rw [groups_group hinterior, List.mem_cons] at hi
    rcases hi with e | hi
    · cases e
    · exact ih hi

end Bracket

end FilterClause
