import FilterClause.Proofs.Partners

/-!
# Cuts tear no group

Cuts are looked for with a count of open brackets that never falls below zero, and partners with a
stack. The count is the size of the stack (`length_opened_foldl`), so where it is zero no opening
bracket waits, and every bracket before a cut has its partner there or has none. The items before
a cut and those behind it may therefore be searched for partners and groups one after the other
(`split_tears_no_pair`), whatever brackets without partners there are.
-/

namespace FilterClause

open FilterClause.Bracket

/-! ## Count and stack -/

namespace Bracket

theorem groups_append_of_apart {xs ys : List Item} (h : Apart ys xs) :
    groups (xs ++ ys) = groups xs ++ groups ys := by
  induction h with
  | nil => rfl
  | item hopen _ ih =>
    rw [List.cons_append, groups_cons_item hopen, groups_cons_item hopen, ih, List.cons_append]
  | loose hp _ ih =>
    rw [List.cons_append, groups_loose hp, groups_loose fun h => hp (h.append ys), ih,
      List.cons_append]
  | group hb _ ih =>
    rw [List.cons_append, List.append_assoc, List.cons_append, groups_group hb, groups_group hb,
      ih, List.cons_append]

open Subselect

theorem length_opened_next (r : Reading) (i : Item) :
    (r.next i).opened.length = depthAfter r.opened.length i := by
  rw [Reading.next, depthAfter]
  split
  · rfl
  split
  · split
    · next hnone =>
      show r.opened.length = _
      rw [hnone]
      rfl
    · next hcons => rw [hcons, List.length_cons, Nat.add_sub_cancel]
  · rfl

/-- The count of open brackets is the size of the stack. -/
theorem length_opened_foldl (r : Reading) (items : List Item) :
    (items.foldl Reading.next r).opened.length = items.foldl depthAfter r.opened.length := by
  induction items generalizing r with
  | nil => rfl
  | cons i rest ih => rw [List.foldl_cons, List.foldl_cons, ih, length_opened_next]

/-- Where the count is zero, no opening bracket waits. -/
theorem shut_of_depth {items : List Item} (h : items.foldl depthAfter 0 = 0) : Shut items := by
  have hwaits := (knows_append items []).opened
  have hlength := length_opened_foldl (.start (items ++ []).length) items
  rw [List.length_eq_zero_iff.mp (hlength.trans h)] at hwaits
  exact hwaits.shut_of_nil

theorem Shut.flatten {parts : List (List Item)} (h : ∀ part ∈ parts, Shut part) :
    Shut parts.flatten := by
  induction parts with
  | nil => exact Balanced.nil.shut
  | cons part parts ih =>
    obtain ⟨hpart, hrest⟩ := List.forall_mem_cons.mp h
    exact hpart.append (ih hrest)

/-- A place of a clause that no pair reaches across, so that the two sides may be searched for
partners and groups one after the other. -/
structure Untorn (items : List Item) (n : Nat) : Prop where
  outside : ∀ i j, (partners items)[i]? = some (some j) → j < n ∨ n ≤ i
  before : (partners items).take n = partners (items.take n)
  behind : (partners items).drop n = (partners (items.drop n)).map (Option.map (n + ·))
  groups_eq : groups items = groups (items.take n) ++ groups (items.drop n)

/-- No pair reaches across the end of items in which every opening bracket has its partner. -/
theorem Shut.untorn {xs : List Item} (h : Shut xs) (ys : List Item) :
    Untorn (xs ++ ys) xs.length := by
  have hpartners := partners_append (h.apart ys)
  refine ⟨fun i j hij => ?_, ?_, ?_, ?_⟩
  · by_cases hi : i < xs.length
    · rw [hpartners, List.getElem?_append_left (by rwa [length_partners]),
        getElem?_partners_iff] at hij
      exact .inl (List.getElem?_eq_some_iff.mp hij.closes).1
    · exact .inr (Nat.le_of_not_lt hi)
  · rw [hpartners, List.take_left, List.take_left' (length_partners xs)]
  · rw [hpartners, List.drop_left, List.drop_left' (length_partners xs)]
  · rw [List.take_left, List.drop_left, groups_append_of_apart (h.apart ys)]

end Bracket

/-! ## Leads -/

namespace Subselect

theorem depthAfter_of_isName {i : Item} (h : i.isName = true) (depth : Nat) :
    depthAfter depth i = depth := by
  have hnot : ∀ c ∈ Text.marks, i ≠ .char c := by
    rintro c hc rfl
    rw [Item.isName, Text.isName_of_mem_marks c hc] at h
    cases h
  rw [depthAfter, if_neg (hnot '(' (by decide)), if_neg (hnot ')' (by decide))]

theorem foldl_depthAfter_of_names {items : List Item} (h : ∀ i ∈ items, i.isName = true)
    (depth : Nat) : items.foldl depthAfter depth = depth := by
  induction items with
  | nil => rfl
  | cons i rest ih =>
    rw [List.foldl_cons, depthAfter_of_isName (h i List.mem_cons_self)]
    exact ih fun j hj => h j (List.mem_cons_of_mem _ hj)

theorem isName_of_spelled {w : Text} (h : w.map Text.foldLetter = ['w', 'h', 'e', 'r', 'e']) :
    ∀ i ∈ w.map Item.char, i.isName = true := by
  have hletters : ∀ k ∈ ['w', 'h', 'e', 'r', 'e'], k ∈ Text.keywordLetters := by decide
  intro i hi
  obtain ⟨c, hc, rfl⟩ := List.mem_map.mp hi
  exact Text.isName_of_foldLetter (hletters _ (h ▸ List.mem_map_of_mem hc))

/-- At a cut the count is zero. -/
theorem foldl_depthAfter_take {depth n : Nat} {inName : Bool} {items : List Item}
    (h : endOfWhereFrom depth inName items = some n) :
    (items.take n).foldl depthAfter depth = 0 := by
  induction items generalizing depth inName n with
  | nil => cases h
  | cons i rest ih =>
    unfold endOfWhereFrom at h
    dsimp only at h
    split at h
    · next hcond =>
      obtain rfl := Option.some.inj h
      obtain ⟨houtside, hstart⟩ := Bool.and_eq_true_iff.mp hcond
      obtain ⟨w, hw, hitems⟩ := exists_of_spellsWhere (spellsWhere_of_startsWithWhere hstart)
      have hnames := isName_of_spelled hw
      have htake : (i :: rest).take 5 = w.map .char := by
        rw [hitems]
        exact List.take_left' (by simpa using congrArg List.length hw)
      have hfirst : i ∈ w.map Item.char := htake ▸ List.mem_cons_self
      rw [htake, foldl_depthAfter_of_names hnames]
      simpa [depthAfter_of_isName (hnames i hfirst)] using (Bool.and_eq_true_iff.mp houtside).1
    · obtain ⟨m, hm, rfl⟩ := Option.map_eq_some_iff.mp h
      exact ih hm

/-- Every opening bracket of a lead has its partner there. -/
theorem shut_of_mem_leads {items lead : List Item} (h : lead ∈ (split items).1) : Shut lead := by
  induction items using split_induction with
  | uncut items hn =>
    rw [split_of_none hn] at h
    cases h
  | cut items n hn ih =>
    rw [split_of_some hn, List.mem_cons] at h
    rcases h with rfl | h
    · exact shut_of_depth (foldl_depthAfter_take hn)
    · exact ih h

theorem groups_leads {leads : List (List Item)} (h : ∀ lead ∈ leads, Shut lead) (rest : List Item) :
    groups (leads.flatten ++ rest) = leads.flatMap groups ++ groups rest := by
  induction leads with
  | nil => rfl
  | cons lead leads ih =>
    obtain ⟨hlead, hleads⟩ := List.forall_mem_cons.mp h
    rw [List.flatten_cons, List.append_assoc, groups_append_of_apart (hlead.apart _), ih hleads,
      List.flatMap_cons, List.append_assoc]

/-- The search behind some leads finds the next one. -/
theorem endOfWhere_behind {items lead : List Item} {front back : List (List Item)}
    (h : (split items).1 = front ++ lead :: back) :
    endOfWhere (items.drop front.flatten.length) = some lead.length ∧
      split (items.drop (front ++ [lead]).flatten.length) = (back, (split items).2) := by
  induction items using split_induction generalizing front with
  | uncut items hn =>
    rw [split_of_none hn] at h
    simp at h
  | cut items n hn ih =>
    have hlength : (items.take n).length = n :=
      List.length_take_of_le (endOfWhereFrom_bounds hn).2
    rw [split_of_some hn] at h ⊢
    cases front with
    | nil =>
      obtain ⟨rfl, rfl⟩ := List.cons.inj h
      simp [hlength, hn]
    | cons first front =>
      obtain ⟨rfl, hrest⟩ := List.cons.inj h
      obtain ⟨hfound, hsplit⟩ := ih hrest
      rw [List.cons_append, List.flatten_cons, List.flatten_cons, List.length_append,
        List.length_append, hlength, ← List.drop_drop, ← List.drop_drop]
      exact ⟨hfound, hsplit⟩

theorem endOfWhere_predicate (items : List Item) : endOfWhere (split items).2 = none := by
  induction items using split_induction with
  | uncut items hn => rwa [split_of_none hn]
  | cut items n hn ih => rwa [split_of_some hn]

/-- A cut is no place inside a pair. -/
theorem untorn_behind {items lead : List Item} {front back : List (List Item)}
    (h : (split items).1 = front ++ lead :: back) :
    Untorn items (front ++ [lead]).flatten.length := by
  have hleads : ∀ part ∈ front ++ [lead], part ∈ (split items).1 := fun part hpart => by
    rw [h, List.append_cons]
    exact List.mem_append_left _ hpart
  have hshut : Shut (front ++ [lead]).flatten :=
    Shut.flatten fun part hpart => shut_of_mem_leads (hleads part hpart)
  have hitems : (front ++ [lead]).flatten ++ (back.flatten ++ (split items).2) = items := by
    rw [← List.append_assoc, ← List.flatten_append, ← List.append_cons, ← h, flatten_split]
  have huntorn := hshut.untorn (back.flatten ++ (split items).2)
  rwa [hitems] at huntorn

/-- Cutting tears no group. The count that cuts are looked for with is at every place the size of
the stack that partners are found with. So, whatever brackets have no partner, no pair reaches
across a cut, and the partners and groups on the two sides of it are those of the whole clause; the
groups of the leads and of the predicate are those of the whole clause. Every cut is found by the
search behind the cut before it, and takes at least five items. -/
theorem split_tears_no_pair (items : List Item) :
    (∀ n, (items.take n).foldl depthAfter 0 =
        ((items.take n).foldl Reading.next (.start items.length)).opened.length) ∧
      (∀ front lead back, (split items).1 = front ++ lead :: back →
        endOfWhere (items.drop front.flatten.length) = some lead.length ∧ 5 ≤ lead.length ∧
          split (items.drop (front ++ [lead]).flatten.length) = (back, (split items).2) ∧
          Untorn items (front ++ [lead]).flatten.length) ∧
      endOfWhere (split items).2 = none ∧
      (split items).1.flatten ++ (split items).2 = items ∧
      groups items = (split items).1.flatMap groups ++ groups (split items).2 := by
  refine ⟨fun n => ?_, fun front lead back h => ?_,
    endOfWhere_predicate items, flatten_split items, ?_⟩
  · exact (length_opened_foldl (.start items.length) (items.take n)).symm
  · obtain ⟨hfound, hsplit⟩ := endOfWhere_behind h
    exact ⟨hfound, (endOfWhereFrom_bounds hfound).1, hsplit, untorn_behind h⟩
  · have hshut : ∀ lead ∈ (split items).1, Shut lead := fun _ => shut_of_mem_leads
    rw [← groups_leads hshut, flatten_split]

/-- A closing bracket too many, a group before each of two cuts, and an opening bracket too many. -/
theorem split_tears_no_pair_unbalanced :
    let items := ") a (b where c) where (d) where (e".toList.map Item.char
    let leads := [") a (b where c) where".toList.map Item.char]
    let lead := " (d) where".toList.map Item.char
    (split items).1 = leads ++ [lead] ∧ 5 ≤ lead.length ∧ Untorn items 31 ∧
      partners (" (e".toList.map Item.char) = [none, none, none] := by
  have hleads : (split (") a (b where c) where (d) where (e".toList.map Item.char)).1 =
      [") a (b where c) where".toList.map Item.char] ++ [" (d) where".toList.map Item.char] := by
    decide +kernel
  obtain ⟨-, hcuts, -⟩ :=
    split_tears_no_pair (") a (b where c) where (d) where (e".toList.map Item.char)
  obtain ⟨-, hfive, -, huntorn⟩ := hcuts _ _ _ hleads
  exact ⟨hleads, hfive, huntorn, rfl⟩

end Subselect

end FilterClause
