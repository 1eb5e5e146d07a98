import FilterClause.Proofs.Balance
import FilterClause.Proofs.Keywords

/-!
# Where a clause is cut

A clause is cut behind every WHERE that stands alone outside all brackets. What holds of the cuts
is proved along them (`split_induction`). A balanced group is passed over as a whole, and items
that may stand in no name add or take no cut at the ends of a clause.
-/

namespace FilterClause

open Text

namespace Subselect

/-! ## One cut -/

/-- The keyword in items. -/
theorem exists_of_spellsWhere {items : List Item} (h : spellsWhere items = true) :
    ∃ w : Text, w.map foldLetter = ['w', 'h', 'e', 'r', 'e'] ∧
      items = w.map .char ++ items.drop 5 := by
  have key : ∀ (l : List Item) (ks : List Char), l.map letter? = ks.map some →
      ∃ w : Text, w.map foldLetter = ks ∧ l = w.map .char := by
    intro l
    induction l with
    | nil =>
      intro ks hks
      obtain rfl := List.map_eq_nil_iff.mp hks.symm
      exact ⟨[], rfl, rfl⟩
    | cons i l ih =>
      intro ks hks
      cases ks with
      | nil => cases hks
      | cons k ks =>
        rw [List.map_cons, List.map_cons, List.cons.injEq] at hks
        obtain ⟨w, hw, rfl⟩ := ih ks hks.2
        cases i with
        | literal index => cases hks.1
        | char c =>
          refine ⟨c :: w, ?_, rfl⟩
          rw [List.map_cons, Option.some.inj hks.1, hw]
  obtain ⟨w, hw, htake⟩ := key _ _ (beq_iff_eq.mp h)
  exact ⟨w, hw, by rw [← htake, List.take_append_drop]⟩

theorem spellsWhere_of_startsWithWhere {items : List Item} (h : startsWithWhere items = true) :
    spellsWhere items = true := by
  rw [startsWithWhere_eq] at h
  exact (Bool.and_eq_true_iff.mp h).1

/-- A cut takes the items up to a keyword and the keyword. -/
theorem endOfWhereFrom_eq_some {depth n : Nat} {inName : Bool} {items : List Item}
    (h : endOfWhereFrom depth inName items = some n) :
    ∃ (before : List Item) (w : Text), w.map foldLetter = ['w', 'h', 'e', 'r', 'e'] ∧
      n = before.length + 5 ∧ items = before ++ w.map .char ++ items.drop n := by
  induction items generalizing depth inName n with
  | nil => cases h
  | cons i rest ih =>
    unfold endOfWhereFrom at h
    dsimp only at h
    split at h
    · next hcond =>
      obtain rfl := Option.some.inj h
      have hspells := spellsWhere_of_startsWithWhere (Bool.and_eq_true_iff.mp hcond).2
      obtain ⟨w, hw, hitems⟩ := exists_of_spellsWhere hspells
      exact ⟨[], w, hw, rfl, hitems⟩
    · obtain ⟨m, hm, rfl⟩ := Option.map_eq_some_iff.mp h
      obtain ⟨before, w, hw, hn, hrest⟩ := ih hm
      refine ⟨i :: before, w, hw, ?_, ?_⟩
      · rw [hn, List.length_cons, Nat.add_right_comm]
      · rw [List.drop_succ_cons, List.cons_append, List.cons_append, ← hrest]

theorem endOfWhereFrom_bounds {depth n : Nat} {inName : Bool} {items : List Item}
    (h : endOfWhereFrom depth inName items = some n) : 5 ≤ n ∧ n ≤ items.length := by
  obtain ⟨before, w, hw, hn, hitems⟩ := endOfWhereFrom_eq_some h
  have hlen : w.length = 5 := by simpa using congrArg List.length hw
  have := congrArg List.length hitems
  rw [List.length_append, List.length_append, List.length_map] at this
  omega

/-- What stands behind the keyword is not needed to find it. -/
theorem endOfWhereFrom_take {depth n : Nat} {inName : Bool} {items : List Item}
    (h : endOfWhereFrom depth inName items = some n) :
    endOfWhereFrom depth inName (items.take n) = some n := by
  induction items generalizing depth inName n with
  | nil => cases h
  | cons i rest ih =>
    unfold endOfWhereFrom at h
    dsimp only at h
    split at h
    · next hcond =>
      obtain rfl := Option.some.inj h
      obtain ⟨houtside, hstart⟩ := Bool.and_eq_true_iff.mp hcond
      have hspells := spellsWhere_of_startsWithWhere hstart
      have htake : startsWithWhere ((i :: rest).take 5) = true := by
        rw [startsWithWhere_eq, spellsWhere, List.take_take, List.drop_take]
        simpa [spellsWhere] using hspells
      rw [List.take_succ_cons] at htake ⊢
      rw [endOfWhereFrom, houtside, htake]
      rfl
    · next hcond =>
      obtain ⟨m, hm, rfl⟩ := Option.map_eq_some_iff.mp h
      have hfive := (endOfWhereFrom_bounds hm).1
      have hsame : startsWithWhere (i :: rest.take m) = startsWithWhere (i :: rest) := by
        have htake : (rest.take m).take 4 = rest.take 4 := by
          rw [List.take_take, Nat.min_eq_left (by omega)]
        have hdrop : ((rest.take m).drop 4).head? = (rest.drop 4).head? := by
          rw [List.drop_take, List.head?_take, if_neg (by omega)]
        rw [startsWithWhere, startsWithWhere, List.take_succ_cons, List.take_succ_cons,
          List.drop_succ_cons, List.drop_succ_cons, htake, hdrop]
      rw [List.take_succ_cons, endOfWhereFrom, hsame, if_neg hcond, ih hm]
      rfl

/-- An item that may stand in no name hides no keyword before it. -/
theorem endOfWhereFrom_append_item {depth n : Nat} {inName : Bool} {xs : List Item}
    (h : endOfWhereFrom depth inName xs = some n) {i : Item} (hi : i.isName = false)
    (ys : List Item) : endOfWhereFrom depth inName (xs ++ i :: ys) = some n := by
  induction xs generalizing depth inName n with
  | nil => cases h
  | cons x xs ih =>
    have hstart : startsWithWhere (x :: (xs ++ i :: ys)) = startsWithWhere (x :: xs) :=
      startsWithWhere_append hi (x :: xs) ys
    rw [List.cons_append, endOfWhereFrom, hstart]
    unfold endOfWhereFrom at h
    dsimp only at h ⊢
    split at h
    · next hcond => rw [if_pos hcond, h]
    · next hcond =>
      obtain ⟨m, hm, rfl⟩ := Option.map_eq_some_iff.mp h
      rw [if_neg hcond, ih hm]
      rfl

/-! ## All cuts -/

/-- More cuts than there are items are never needed. -/
theorem splitWithin_eq {items : List Item} {cuts cuts' : Nat} (h : items.length ≤ cuts)
    (h' : items.length ≤ cuts') : splitWithin cuts items = splitWithin cuts' items := by
  induction cuts generalizing cuts' items with
  | zero =>
    obtain rfl : items = [] := List.length_eq_zero_iff.mp (Nat.le_zero.mp h)
    cases cuts' <;> rfl
  | succ cuts ih =>
    cases cuts' with
    | zero =>
      obtain rfl : items = [] := List.length_eq_zero_iff.mp (Nat.le_zero.mp h')
      rfl
    | succ cuts' =>
      rw [splitWithin, splitWithin]
      cases hn : endOfWhere items with
      | none => rfl
      | some n =>
        have hbounds := endOfWhereFrom_bounds hn
        have hdrop := List.length_drop (i := n) (l := items)
        have hrec : splitWithin cuts (items.drop n) = splitWithin cuts' (items.drop n) :=
          ih (by omega) (by omega)
        dsimp only
        rw [hrec]

theorem split_of_none {items : List Item} (h : endOfWhere items = none) :
    split items = ([], items) := by
  unfold split
  cases items.length with
  | zero => rfl
  | succ m => rw [splitWithin, h]

theorem split_of_some {items : List Item} {n : Nat} (h : endOfWhere items = some n) :
    split items = (items.take n :: (split (items.drop n)).1, (split (items.drop n)).2) := by
  have hbounds := endOfWhereFrom_bounds h
  obtain ⟨m, hm⟩ : ∃ m, items.length = m + 1 := ⟨items.length - 1, by omega⟩
  have hdrop : (items.drop n).length ≤ m := by
    rw [List.length_drop]
    omega
  rw [split, hm, splitWithin, h]
  dsimp only
  rw [splitWithin_eq hdrop (Nat.le_refl _), split]

/-- Induction along the cuts of a clause. -/
theorem split_induction {motive : List Item → Prop}
    (uncut : ∀ items, endOfWhere items = none → motive items)
    (cut : ∀ items n, endOfWhere items = some n → motive (items.drop n) → motive items)
    (items : List Item) : motive items := by
  induction h : items.length using Nat.strong_induction_on generalizing items with
  | h m ih =>
    cases hn : endOfWhere items with
    | none => exact uncut items hn
    | some n =>
      have hbounds := endOfWhereFrom_bounds hn
      refine cut items n hn (ih (items.drop n).length ?_ _ rfl)
      rw [List.length_drop]
      omega

/-- The parts of a clause are made of its items. -/
theorem subset_split (items : List Item) :
    (∀ lead ∈ (split items).1, lead ⊆ items) ∧ (split items).2 ⊆ items := by
  induction items using split_induction with
  | uncut items hn =>
    rw [split_of_none hn]
    exact ⟨nofun, List.Subset.refl _⟩
  | cut items n hn ih =>
    obtain ⟨hleads, hrest⟩ := ih
    have hdrop := List.drop_subset n items
    rw [split_of_some hn]
    exact ⟨List.forall_mem_cons.mpr ⟨List.take_subset _ _, fun lead hl =>
      List.Subset.trans (hleads lead hl) hdrop⟩, List.Subset.trans hrest hdrop⟩

/-- Every lead ends in the keyword. -/
theorem exists_of_mem_leads {items lead : List Item} (h : lead ∈ (split items).1) :
    ∃ (before : List Item) (w : Text), w.map foldLetter = ['w', 'h', 'e', 'r', 'e'] ∧
      lead = before ++ w.map .char := by
  induction items using split_induction with
  | uncut items hn =>
    rw [split_of_none hn] at h
    cases h
  | cut items n hn ih =>
    rw [split_of_some hn, List.mem_cons] at h
    rcases h with rfl | h
    · obtain ⟨before, w, hw, hlen, hitems⟩ := endOfWhereFrom_eq_some hn
      have hwlen : w.length = 5 := by simpa using congrArg List.length hw
      refine ⟨before, w, hw, ?_⟩
      have htake : (before ++ w.map Item.char ++ items.drop n).take n =
          before ++ w.map Item.char :=
        List.take_left' (by rw [List.length_append, List.length_map, hwlen, hlen])
      rwa [← hitems] at htake
    · exact ih h

/-! ## Brackets -/

/-- Inside a bracket, balanced items are passed over. -/
theorem endOfWhereFrom_balanced {xs : List Item} (h : Bracket.Balanced xs) (depth : Nat)
    (inName : Bool) (ys : List Item) :
    ∃ inName', endOfWhereFrom (depth + 1) inName (xs ++ ys) =
      (endOfWhereFrom (depth + 1) inName' ys).map (· + xs.length) := by
  have hpass : ∀ (depth depth' : Nat) (inName : Bool) (i : Item) (rest : List Item),
      depthAfter depth i = depth' + 1 →
      endOfWhereFrom depth inName (i :: rest) =
        (endOfWhereFrom (depth' + 1) i.isName rest).map (· + 1) := by
    intro depth depth' inName i rest hdepth
    rw [endOfWhereFrom, hdepth]
    simp
  induction h generalizing depth inName ys with
  | nil => exact ⟨inName, by simp⟩
  | @item i rest hopen hclose _ ih =>
    obtain ⟨inName', hrest⟩ := ih depth i.isName ys
    refine ⟨inName', ?_⟩
    have hdepth : depthAfter (depth + 1) i = depth + 1 := by simp [depthAfter, hopen, hclose]
    rw [List.cons_append, hpass _ _ _ _ _ hdepth, hrest, Option.map_map]
    rfl
  | @group interior rest _ _ ihi ihr =>
    obtain ⟨inName₁, hinterior⟩ :=
      ihi (depth + 1) (Item.isName (.char '(')) (.char ')' :: (rest ++ ys))
    obtain ⟨inName₂, hrest⟩ := ihr depth (Item.isName (.char ')')) ys
    refine ⟨inName₂, ?_⟩
    have hopen : depthAfter (depth + 1) (.char '(') = depth + 1 + 1 := rfl
    have hclose : depthAfter (depth + 1 + 1) (.char ')') = depth + 1 := rfl
    rw [List.cons_append, List.append_assoc, List.cons_append, hpass _ _ _ _ _ hopen, hinterior,
      hpass _ _ _ _ _ hclose, hrest, Option.map_map, Option.map_map, Option.map_map]
    refine congrArg (Option.map · _) (funext fun n => ?_)
    simp only [Function.comp_apply, List.length_cons, List.length_append]
    omega

/-- An item that may stand in no name starts no keyword. -/
theorem startsWithWhere_of_not_isName {i : Item} (h : i.isName = false) (rest : List Item) :
    startsWithWhere (i :: rest) = false :=
  startsWithWhere_append h [] rest

/-- A group outside all brackets is passed over. -/
theorem endOfWhereFrom_group {interior : List Item} (h : Bracket.Balanced interior)
    (inName : Bool) (rest : List Item) :
    endOfWhereFrom 0 inName (.char '(' :: (interior ++ .char ')' :: rest)) =
      (endOfWhereFrom 0 false rest).map (· + (interior.length + 2)) := by
  have hname : Item.isName (.char ')') = false := isName_of_mem_marks ')' (by decide)
  obtain ⟨inName', hinterior⟩ :=
    endOfWhereFrom_balanced h 0 (Item.isName (.char '(')) (.char ')' :: rest)
  have hopen : endOfWhereFrom 0 inName (.char '(' :: (interior ++ .char ')' :: rest)) =
      (endOfWhereFrom 1 (Item.isName (.char '(')) (interior ++ .char ')' :: rest)).map (· + 1) := by
    rw [endOfWhereFrom]
    rfl
  have hclose : endOfWhereFrom 1 inName' (.char ')' :: rest) =
      (endOfWhereFrom 0 false rest).map (· + 1) := by
    rw [endOfWhereFrom, startsWithWhere_of_not_isName hname, Bool.and_false,
      if_neg Bool.false_ne_true, hname]
    rfl
  rw [hopen, hinterior, hclose, Option.map_map, Option.map_map]
  refine congrArg (Option.map · _) (funext fun n => ?_)
  simp only [Function.comp_apply]
  omega

/-- Balanced items without a keyword that stands alone are passed over as a whole. -/
theorem endOfWhereFrom_append_of_whereFree {xs : List Item} (hb : Bracket.Balanced xs)
    {inName : Bool} (hfree : WhereFree inName xs) {i : Item} (hi : i.isName = false)
    (ys : List Item) :
    ∃ inName', endOfWhereFrom 0 inName (xs ++ i :: ys) =
      (endOfWhereFrom 0 inName' (i :: ys)).map (· + xs.length) := by
  induction hb generalizing inName with
  | nil => exact ⟨inName, by simp⟩
  | @item x rest hopen hclose _ ih =>
    obtain ⟨inName', hrest⟩ := ih hfree.2
    have hdepth : depthAfter 0 x = 0 := by rw [depthAfter, if_neg hopen, if_neg hclose]
    have hpass : ¬ (decide (0 = 0) && !inName && startsWithWhere (x :: (rest ++ i :: ys))) = true := by
      rw [← List.cons_append, startsWithWhere_append hi]
      rcases hfree.1 with h | h <;> simp [h]
    refine ⟨inName', ?_⟩
    rw [List.cons_append, endOfWhereFrom, hdepth, if_neg hpass, hrest, Option.map_map]
    rfl
  | @group interior rest hinterior _ _ ih =>
    have hclose : Item.isName (.char ')') = false := isName_of_mem_marks ')' (by decide)
    rw [← List.cons_append] at hfree
    obtain ⟨inName', hrest⟩ := ih (hfree.of_append hclose).2
    refine ⟨inName', ?_⟩
    rw [List.cons_append, List.append_assoc, List.cons_append, endOfWhereFrom_group hinterior, hrest,
      Option.map_map]
    refine congrArg (Option.map · _) (funext fun n => ?_)
    simp only [Function.comp_apply, List.length_cons, List.length_append]
    omega

/-! ## Items that stand in no name -/

section Separators

variable {seps : List Item} (hseps : ∀ i ∈ seps, i.isName = false)

include hseps

theorem whereFree_of_not_isName (inName : Bool) : WhereFree inName seps := by
  induction seps generalizing inName with
  | nil => trivial
  | cons i seps ih =>
    exact ⟨.inr (startsWithWhere_of_not_isName (hseps i List.mem_cons_self) seps),
      ih (fun j hj => hseps j (List.mem_cons_of_mem _ hj)) _⟩

/-- Behind a clause they make no cut. -/
theorem endOfWhereFrom_append (depth : Nat) (inName : Bool) (items : List Item) :
    endOfWhereFrom depth inName (items ++ seps) = endOfWhereFrom depth inName items := by
  induction items generalizing depth inName with
  | nil => exact endOfWhereFrom_of_whereFree (whereFree_of_not_isName hseps inName) depth
  | cons i items ih =>
    have hstart : startsWithWhere (i :: (items ++ seps)) = startsWithWhere (i :: items) := by
      cases seps with
      | nil => rw [List.append_nil]
      | cons s seps => exact startsWithWhere_append (hseps s List.mem_cons_self) (i :: items) seps
    rw [List.cons_append, endOfWhereFrom, endOfWhereFrom, hstart, ih]

theorem split_append (items : List Item) :
    split (items ++ seps) = ((split items).1, (split items).2 ++ seps) := by
  induction items using split_induction with
  | uncut items hn =>
    have hn' : endOfWhere (items ++ seps) = none :=
      (endOfWhereFrom_append hseps 0 false items).trans hn
    rw [split_of_none hn', split_of_none hn]
  | cut items n hn ih =>
    have hn' : endOfWhere (items ++ seps) = some n :=
      (endOfWhereFrom_append hseps 0 false items).trans hn
    have hle := (endOfWhereFrom_bounds hn).2
    rw [split_of_some hn', split_of_some hn, List.take_append_of_le_length hle,
      List.drop_append_of_le_length hle, ih]

variable (hopen : .char '(' ∉ seps) (hclose : .char ')' ∉ seps)

include hopen hclose

/-- Before a clause they make no cut. -/
theorem endOfWhere_append_left (items : List Item) :
    endOfWhere (seps ++ items) = (endOfWhere items).map (· + seps.length) := by
  unfold endOfWhere
  induction seps with
  | nil => simp
  | cons i seps ih =>
    have hi := hseps i List.mem_cons_self
    have hdepth : depthAfter 0 i = 0 := by
      have h₁ : i ≠ .char '(' := fun e => hopen (e ▸ List.mem_cons_self)
      have h₂ : i ≠ .char ')' := fun e => hclose (e ▸ List.mem_cons_self)
      simp [depthAfter, h₁, h₂]
    rw [List.cons_append, endOfWhereFrom, startsWithWhere_of_not_isName hi, Bool.and_false,
      if_neg Bool.false_ne_true, hdepth, hi,
      ih (fun j hj => hseps j (List.mem_cons_of_mem _ hj))
        (fun hm => hopen (List.mem_cons_of_mem _ hm)) fun hm => hclose (List.mem_cons_of_mem _ hm),
      Option.map_map]
    rfl

/-- Before a clause they go to its first part. -/
theorem split_append_left (items : List Item) :
    split (seps ++ items) =
      match (split items).1 with
      | [] => ([], seps ++ (split items).2)
      | lead :: leads => ((seps ++ lead) :: leads, (split items).2) := by
  have hleft := endOfWhere_append_left hseps hopen hclose items
  cases hn : endOfWhere items with
  | none =>
    rw [hn, Option.map_none] at hleft
    rw [split_of_none hleft, split_of_none hn]
  | some n =>
    rw [hn, Option.map_some] at hleft
    rw [split_of_some hleft, split_of_some hn, Nat.add_comm, List.drop_length_add_append,
      List.take_length_add_append]

end Separators

end Subselect

end FilterClause
