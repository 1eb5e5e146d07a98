import FilterClause.Proofs.Extraction

/-!
# Partners by their places

Partners are told by their places in the items. Two places are those of a pair exactly if the one
holds an opening bracket, the other a closing one, and the items between them balance (`Matched`),
so pairs never cross and no bracket is in two of them. The same places come out when items are read
from the left and the opening brackets that wait for a partner are kept on a stack (`Reading`): on
the stack are those brackets behind which nothing but balanced items was read (`Waits`).
-/

namespace FilterClause

namespace Bracket

/-! ## Items that no pair leaves -/

/-- Items of which no opening bracket has its partner in the items `behind`. -/
inductive Apart (behind : List Item) : List Item → Prop
  | nil : Apart behind []
  | item {i : Item} {rest : List Item} (hopen : i ≠ .char '(') (h : Apart behind rest) :
      Apart behind (i :: rest)
  | loose {rest : List Item} (hp : ¬ Partnered (rest ++ behind)) (h : Apart behind rest) :
      Apart behind (.char '(' :: rest)
  | group {interior rest : List Item} (hb : Balanced interior) (h : Apart behind rest) :
      Apart behind (.char '(' :: (interior ++ .char ')' :: rest))

/-- Whether every opening bracket of the items has its partner among them. -/
def Shut (items : List Item) : Prop :=
  ∀ before rest, items = before ++ .char '(' :: rest → Partnered rest

theorem Balanced.shut {items : List Item} (h : Balanced items) : Shut items :=
  fun _ _ hitems => h.partnered hitems

theorem shut_singleton {i : Item} (hopen : i ≠ .char '(') : Shut [i] := by
  intro before rest h
  have hmem : .char '(' ∈ [i] := h ▸ List.mem_append_right _ List.mem_cons_self
  exact absurd (List.mem_singleton.mp hmem).symm hopen

theorem Shut.append {xs ys : List Item} (hx : Shut xs) (hy : Shut ys) : Shut (xs ++ ys) := by
  intro before rest h
  rcases cut_of_append h with ⟨front, -, hys⟩ | ⟨back, hxs, rfl⟩
  · exact hy front rest hys
  · exact (hx before back hxs).append ys

theorem Shut.of_append {xs ys : List Item} (h : Shut (xs ++ ys)) : Shut ys := by
  rintro before rest rfl
  exact h (xs ++ before) rest (List.append_assoc _ _ _).symm

theorem Shut.of_cons {i : Item} {rest : List Item} (h : Shut (i :: rest)) : Shut rest := by
  rw [← List.singleton_append] at h
  exact h.of_append

theorem Shut.apart {xs : List Item} (h : Shut xs) (ys : List Item) : Apart ys xs := by
  induction xs using pair_induction with
  | nil => exact .nil
  | item i rest hopen ih => exact .item hopen (ih h.of_cons)
  | loose rest hp ih => exact absurd (h [] rest rfl) hp
  | group interior rest hb ih =>
    rw [List.append_cons, ← List.cons_append] at h
    exact .group hb (ih h.of_append)

/-- Without a closing bracket that waits in one of two lists, none waits in both together. -/
theorem not_partnered_append {xs ys : List Item} (hx : ¬ Partnered xs) (hy : ¬ Partnered ys) :
    ¬ Partnered (xs ++ ys) := by
  rw [not_partnered_iff] at hx hy ⊢
  induction resolved xs with
  | balanced hb => rw [(pair_append hb ys).2, hy]
  | opening hb _ hw ih =>
    rw [List.append_assoc, (pair_append hb _).2, List.cons_append, waiting_open, ih hw]
    rfl
  | closing hb _ _ =>
    rw [(pair_append hb _).2, pair_cons_close] at hx
    cases hx

theorem apart_of_not_partnered {ys : List Item} (h : ¬ Partnered ys) (xs : List Item) :
    Apart ys xs := by
  induction xs using pair_induction with
  | nil => exact .nil
  | item i rest hopen ih => exact .item hopen ih
  | loose rest hp ih => exact .loose (not_partnered_append hp h) ih
  | group interior rest hb ih => exact .group hb ih

theorem reaches_append {xs ys : List Item} (h : Apart ys xs) :
    reaches (xs ++ ys) = reaches xs ++ reaches ys := by
  induction h with
  | nil => rfl
  | item hopen _ ih =>
    rw [List.cons_append, reaches_cons_item hopen, reaches_cons_item hopen, ih, List.cons_append]
  | loose hp _ ih =>
    rw [List.cons_append, reaches_loose hp, reaches_loose fun h => hp (h.append ys), ih,
      List.cons_append]
  | group hb _ ih =>
    rw [List.cons_append, List.append_assoc, List.cons_append, reaches_group hb, reaches_group hb,
      ih]
    simp

/-! ## Places of partners -/

/-- For every item the place of its closing bracket, if it is an opening one that has a partner. -/
def partners (items : List Item) : List (Option Nat) :=
  (reaches items).mapIdx fun place reach => reach.map (place + ·)

/-- Two places that hold the brackets of a pair. -/
structure Matched (items : List Item) (opening closing : Nat) : Prop where
  opens : items[opening]? = some (.char '(')
  closes : items[closing]? = some (.char ')')
  lt : opening < closing
  between : Balanced ((items.take closing).drop (opening + 1))

@[simp] theorem length_partners (items : List Item) : (partners items).length = items.length := by
  rw [partners, List.length_mapIdx, length_reaches]

/-- Items that no pair reaches across keep their partners, and so do those behind them. -/
theorem partners_append {xs ys : List Item} (h : Apart ys xs) :
    partners (xs ++ ys) = partners xs ++ (partners ys).map (Option.map (xs.length + ·)) := by
  rw [partners, reaches_append h, List.mapIdx_append, length_reaches]
  refine congrArg (_ ++ ·) (List.mapIdx_eq_iff.mpr fun place => ?_)
  simp [partners, Function.comp_def, Nat.add_assoc, Nat.add_left_comm]

theorem reaches_drop (items : List Item) (n : Nat) :
    reaches (items.drop n) = (reaches items).drop n := by
  induction items generalizing n with
  | nil => simp
  | cons i rest ih =>
    cases n with
    | zero => rfl
    | succ n => rw [List.drop_succ_cons, ih, ← tail_reaches_cons i rest, List.drop_tail]

/-- The first item opens a pair exactly if balanced items and a closing bracket follow it. -/
theorem head?_reaches_iff {i : Item} {rest : List Item} {reach : Nat} :
    (reaches (i :: rest)).head? = some (some reach) ↔
      i = .char '(' ∧ ∃ interior after, rest = interior ++ .char ')' :: after ∧
        Balanced interior ∧ reach = interior.length + 1 := by
  constructor
  · intro h
    by_cases hopen : i = .char '('
    · subst hopen
      by_cases hp : Partnered rest
      · obtain ⟨interior, after, rfl, hb⟩ := hp
        rw [reaches_group hb] at h
        exact ⟨rfl, interior, after, rfl, hb, by simpa using h.symm⟩
      · rw [reaches_loose hp] at h
        simp at h
    · rw [reaches_cons_item hopen] at h
      simp at h
  · rintro ⟨rfl, interior, after, rfl, hb, rfl⟩
    rw [reaches_group hb]
    rfl

/-- A list is cut at any of its places. -/
theorem exists_cut_of_getElem? {l : List Item} {i : Item} {n : Nat} (h : l[n]? = some i) :
    ∃ before behind, l = before ++ i :: behind ∧ before.length = n := by
  obtain ⟨hn, rfl⟩ := List.getElem?_eq_some_iff.mp h
  refine ⟨l.take n, l.drop (n + 1), ?_, List.length_take_of_le hn.le⟩
  rw [← List.drop_eq_getElem_cons hn, List.take_append_drop]

/-- Items that hold an opening bracket and behind it a closing one, cut at both. -/
theorem exists_cuts {items : List Item} {i j : Nat} (hi : items[i]? = some (.char '('))
    (hj : items[j]? = some (.char ')')) (hij : i < j) :
    ∃ before interior after,
      items = before ++ .char '(' :: (interior ++ .char ')' :: after) ∧ before.length = i ∧
        j = i + (interior.length + 1) := by
  obtain ⟨front, after, rfl, rfl⟩ := exists_cut_of_getElem? hj
  rw [List.getElem?_append_left hij] at hi
  obtain ⟨before, interior, rfl, rfl⟩ := exists_cut_of_getElem? hi
  exact ⟨before, interior, after, by simp, rfl, by simp⟩

theorem matched_append_iff {before interior after : List Item} :
    Matched (before ++ .char '(' :: (interior ++ .char ')' :: after)) before.length
      (before.length + (interior.length + 1)) ↔ Balanced interior := by
  have hbetween : ((before ++ Item.char '(' :: (interior ++ .char ')' :: after)).take
      (before.length + (interior.length + 1))).drop (before.length + 1) = interior := by
    rw [List.take_length_add_append, List.take_succ_cons, List.take_left,
      List.drop_length_add_append, List.drop_one, List.tail_cons]
  exact ⟨fun h => hbetween ▸ h.between, fun h => ⟨by simp, by simp, by omega, hbetween.symm ▸ h⟩⟩

/-- Two places are those of a pair exactly if the items behind the first one are the pair and what
follows it. -/
theorem matched_iff {items : List Item} {i j : Nat} :
    Matched items i j ↔ ∃ interior after,
      items.drop i = .char '(' :: (interior ++ .char ')' :: after) ∧ Balanced interior ∧
        j = i + (interior.length + 1) := by
  constructor
  · intro h
    obtain ⟨before, interior, after, rfl, rfl, rfl⟩ := exists_cuts h.opens h.closes h.lt
    exact ⟨interior, after, List.drop_left, matched_append_iff.mp h, rfl⟩
  · rintro ⟨interior, after, hitems, hb, rfl⟩
    have hi : i ≤ items.length := by
      by_contra hlt
      rw [List.drop_of_length_le (by omega)] at hitems
      cases hitems
    obtain ⟨before, rfl, rfl⟩ : ∃ before, items =
        before ++ .char '(' :: (interior ++ .char ')' :: after) ∧ before.length = i :=
      ⟨items.take i, by rw [← hitems, List.take_append_drop], List.length_take_of_le hi⟩
    exact matched_append_iff.mpr hb

/-- The places of partners are exactly those of pairs. -/
theorem getElem?_partners_iff {items : List Item} {i j : Nat} :
    (partners items)[i]? = some (some j) ↔ Matched items i j := by
  have hentry : (partners items)[i]? =
      (reaches (items.drop i)).head?.map (Option.map (i + ·)) := by
    rw [partners, List.getElem?_mapIdx, reaches_drop, List.head?_drop]
  rw [hentry, matched_iff]
  constructor
  · intro h
    obtain ⟨entry, hhead, hj⟩ := Option.map_eq_some_iff.mp h
    obtain ⟨reach, rfl, rfl⟩ := Option.map_eq_some_iff.mp hj
    cases hitems : items.drop i with
    | nil =>
      rw [hitems] at hhead
      cases hhead
    | cons x rest =>
      rw [hitems] at hhead
      obtain ⟨rfl, interior, after, rfl, hb, rfl⟩ := head?_reaches_iff.mp hhead
      exact ⟨interior, after, rfl, hb, rfl⟩
  · rintro ⟨interior, after, hitems, hb, rfl⟩
    rw [hitems, head?_reaches_iff.mpr ⟨rfl, interior, after, rfl, hb, rfl⟩]
    rfl

namespace Matched

variable {items : List Item} {i j k l : Nat}

theorem unique (h : Matched items i j) (h' : Matched items i l) : j = l := by
  rw [← getElem?_partners_iff] at h h'
  exact Option.some.inj (Option.some.inj (h.symm.trans h'))

/-- A bracket that stands in a pair has its partner there. -/
theorem nested (h : Matched items i j) (h' : Matched items k l) (hik : i < k) (hkj : k < j) :
    l < j := by
  obtain ⟨interior, after, hitems, hb, rfl⟩ := matched_iff.mp h
  obtain ⟨inside, behind, hinner, hinside, rfl⟩ := matched_iff.mp h'
  obtain ⟨n, rfl⟩ : ∃ n, k = i + 1 + n := ⟨k - (i + 1), by omega⟩
  rw [← List.drop_drop, ← List.drop_drop, hitems, List.drop_one, List.tail_cons] at hinner
  have hn : n < interior.length := by omega
  rw [List.drop_append_of_le_length hn.le, List.drop_eq_getElem_cons hn, List.cons_append] at hinner
  obtain ⟨hopen, hrest⟩ := List.cons.inj hinner
  have hcut : interior = interior.take n ++ .char '(' :: interior.drop (n + 1) := by
    rw [← hopen, ← List.drop_eq_getElem_cons hn, List.take_append_drop]
  obtain ⟨inside', after', hpartner, hinside'⟩ := hb.partnered hcut
  rw [hpartner, List.append_assoc, List.cons_append] at hrest
  obtain ⟨rfl, -⟩ := pair_unique hinside' hinside hrest
  have hlength := congrArg List.length hpartner
  rw [List.length_drop, List.length_append, List.length_cons] at hlength
  omega

/-- Of two pairs the one that opens first closes before the other opens, or behind it. -/
theorem not_crossing (h : Matched items i j) (h' : Matched items k l) (hik : i < k) :
    j < k ∨ l < j := by
  rcases Nat.lt_trichotomy j k with hjk | rfl | hkj
  · exact .inl hjk
  · have hboth := h.closes.symm.trans h'.opens
    exact absurd hboth (by simp)
  · exact .inr (h.nested h' hik hkj)

theorem opening_unique (h : Matched items i j) (h' : Matched items k j) : i = k := by
  rcases Nat.lt_trichotomy i k with hik | hik | hki
  · have := h.nested h' hik h'.lt
    omega
  · exact hik
  · have := h'.nested h hki h.lt
    omega

/-- A bracket belongs to one pair only. -/
theorem eq_of_shared (h : Matched items i j) (h' : Matched items k l)
    (hshared : i = k ∨ i = l ∨ j = k ∨ j = l) : i = k ∧ j = l := by
  have hopen : ∀ {n : Nat}, items[n]? = some (.char '(') → items[n]? ≠ some (.char ')') := by
    intro n hn
    rw [hn]
    decide
  rcases hshared with rfl | rfl | rfl | rfl
  · exact ⟨rfl, h.unique h'⟩
  · exact absurd h'.closes (hopen h.opens)
  · exact absurd h.closes (hopen h'.opens)
  · exact ⟨h.opening_unique h', rfl⟩

end Matched

/-! ## Brackets without a partner -/

/-- Whether the item at a place belongs to no pair. -/
def Unmatched (items : List Item) (i : Nat) : Prop :=
  ∀ j, ¬ Matched items i j ∧ ¬ Matched items j i

/-- Items in which no closing bracket waits balance, or an opening one waits in them. -/
theorem balanced_or_opened {items : List Item} (h : ¬ Partnered items) :
    Balanced items ∨ Opened items := by
  rw [not_partnered_iff] at h
  induction resolved items with
  | balanced hb => exact .inl hb
  | @opening xs ys hb _ hw ih =>
    rcases ih hw with hy | ⟨front, interior, rfl, hy⟩
    · exact .inr ⟨xs, ys, rfl, hy⟩
    · exact .inr ⟨xs ++ .char '(' :: front, interior, by simp, hy⟩
  | closing hb _ _ =>
    rw [(pair_append hb _).2, pair_cons_close] at h
    cases h

/-- Brackets without a partner are closing ones first. -/
theorem Unmatched.lt {items : List Item} {i j : Nat} (hi : Unmatched items i)
    (hj : Unmatched items j) (hopens : items[i]? = some (.char '('))
    (hcloses : items[j]? = some (.char ')')) : j < i := by
  by_contra hle
  have hne : i ≠ j := by
    rintro rfl
    exact absurd (hopens.symm.trans hcloses) (by decide)
  obtain ⟨before, interior, after, rfl, rfl, rfl⟩ := exists_cuts hopens hcloses (by omega)
  have hloose : ¬ Partnered interior := by
    rintro ⟨inside, behind, rfl, hb⟩
    refine (hi _).1 (matched_iff.mpr ⟨inside, behind ++ .char ')' :: after, ?_, hb, rfl⟩)
    rw [List.drop_left, List.append_assoc, List.cons_append]
  rcases balanced_or_opened hloose with hb | ⟨front, inside, rfl, hb⟩
  · exact (hi _).1 (matched_append_iff.mpr hb)
  · have hitems : before ++ .char '(' :: (front ++ .char '(' :: inside ++ .char ')' :: after) =
        (before ++ .char '(' :: front) ++ .char '(' :: (inside ++ .char ')' :: after) := by simp
    have hplace : before.length + ((front ++ Item.char '(' :: inside).length + 1) =
        (before ++ Item.char '(' :: front).length + (inside.length + 1) := by
      simp
      omega
    rw [hitems, hplace] at hj
    exact (hj _).2 (matched_append_iff.mpr hb)

/-! ## Reading from the left -/

/-- What is known of the brackets when items were read from the left. -/
structure Reading where
  /-- Number of items that were read. -/
  place : Nat
  /-- Places of the opening brackets that wait for a partner, nearest first. -/
  opened : List Nat
  /-- For every item the place of its closing bracket, as far as it was found. -/
  found : List (Option Nat)

namespace Reading

/-- Nothing was read of so many items. -/
def start (count : Nat) : Reading := ⟨0, [], List.replicate count none⟩

/-- An item is read. -/
def next (r : Reading) (i : Item) : Reading :=
  if i = .char '(' then { r with place := r.place + 1, opened := r.place :: r.opened }
  else if i = .char ')' then
    match r.opened with
    | [] => { r with place := r.place + 1 }
    | nearest :: others => ⟨r.place + 1, others, r.found.set nearest (some r.place)⟩
  else { r with place := r.place + 1 }

end Reading

/-- The partners that are found when items are read from the left. -/
def partnersFromLeft (items : List Item) : List (Option Nat) :=
  (items.foldl Reading.next (.start items.length)).found

/-- The places of opening brackets behind which only balanced items come. All other opening
brackets have partners. -/
inductive Waits : List Item → List Nat → Prop
  | shut {items : List Item} (h : Shut items) : Waits items []
  | opened {before interior : List Item} {places : List Nat} (h : Waits before places)
      (hb : Balanced interior) :
      Waits (before ++ .char '(' :: interior) (before.length :: places)

theorem Waits.append {xs ys : List Item} {places : List Nat} (h : Waits xs places)
    (hy : Balanced ys) : Waits (xs ++ ys) places := by
  cases h with
  | shut h => exact .shut (h.append hy.shut)
  | opened h hb =>
    rw [List.append_assoc, List.cons_append]
    exact .opened h (hb.append hy)

/-- Items of which none opens a bracket without a partner are shut. -/
theorem Waits.shut_of_nil {items : List Item} (h : Waits items []) : Shut items := by
  cases h with
  | shut h => exact h

theorem not_partnered_singleton {i : Item} (h : i ≠ .char ')') : ¬ Partnered [i] := by
  rw [not_partnered_iff]
  by_cases hopen : i = .char '('
  · subst hopen
    rfl
  · rw [pair_cons_item hopen h]
    rfl

theorem partners_append_singleton {items : List Item} {i : Item} (h : Apart [i] items) :
    partners (items ++ [i]) = partners items ++ [none] := by
  have hsingle : partners [i] = [none] := by
    by_cases hopen : i = .char '('
    · subst hopen
      rfl
    · rw [partners, reaches_cons_item hopen]
      rfl
  rw [partners_append h, hsingle]
  rfl

/-- A closing bracket is the partner of the nearest opening one that waits. -/
theorem partners_close {before interior : List Item} (hb : Balanced interior) :
    partners (before ++ .char '(' :: interior ++ [.char ')']) =
      (partners (before ++ .char '(' :: interior)).set before.length
        (some (before ++ Item.char '(' :: interior).length) ++ [none] := by
  have hopen : ¬ Partnered (.char '(' :: interior) := by
    rw [not_partnered_iff, waiting_open, waiting_of_balanced hb]
    rfl
  have hgroup : ¬ Partnered (.char '(' :: (interior ++ [.char ')'])) :=
    not_partnered_iff.mpr (waiting_of_balanced (.group hb .nil))
  have hinterior : ¬ Partnered interior := not_partnered_iff.mpr (waiting_of_balanced hb)
  rw [List.append_assoc, List.cons_append, partners_append (apart_of_not_partnered hgroup before),
    partners_append (apart_of_not_partnered hopen before)]
  simp only [partners, reaches_group hb, reaches_loose hinterior, List.mapIdx_cons, List.map_cons]
  rw [List.set_append_right _ _ (by simp)]
  simp

/-- What is known behind some items, with so many left to read. -/
structure Reading.Knows (r : Reading) (items : List Item) (left : Nat) : Prop where
  place : r.place = items.length
  opened : Waits items r.opened
  found : r.found = partners items ++ List.replicate left none

namespace Reading

variable {r : Reading} {items : List Item} {left : Nat}

theorem knows_start (count : Nat) : (start count).Knows [] count :=
  ⟨rfl, .shut Balanced.nil.shut, rfl⟩

/-- An item that adds no partner is known to have none so far. -/
theorem Knows.found_append {i : Item} (h : r.Knows items (left + 1)) (hi : Apart [i] items) :
    r.found = partners (items ++ [i]) ++ List.replicate left none := by
  rw [partners_append_singleton hi, List.append_assoc, h.found, List.replicate_succ]
  rfl

theorem Knows.next (h : r.Knows items (left + 1)) (i : Item) :
    (r.next i).Knows (items ++ [i]) left := by
  have hplace : r.place + 1 = (items ++ [i]).length := by rw [h.place, List.length_append]; rfl
  have hfound : i ≠ .char ')' → r.found = partners (items ++ [i]) ++ List.replicate left none :=
    fun hi => h.found_append (apart_of_not_partnered (not_partnered_singleton hi) items)
  by_cases hopen : i = .char '('
  · subst hopen
    rw [Reading.next, if_pos rfl]
    exact ⟨hplace, h.place ▸ .opened h.opened .nil, hfound (by decide)⟩
  by_cases hclose : i = .char ')'
  · subst hclose
    rw [Reading.next, if_neg hopen, if_pos rfl]
    have hwaits := h.opened
    split
    · -- Nothing waits, so the bracket has no partner.
      next hnone =>
      rw [hnone] at hwaits
      have hshut := hwaits.shut_of_nil
      refine ⟨hplace, ?_, h.found_append (hshut.apart _)⟩
      show Waits _ r.opened
      rw [hnone]
      exact .shut (hshut.append (shut_singleton hopen))
    · -- Behind the nearest bracket that waits all items balance, so it is the partner.
      next nearest others hcons =>
      rw [hcons] at hwaits
      generalize hitems : items = whole at hwaits
      cases hwaits with
      | @opened before interior _ hbefore hb =>
        subst hitems
        refine ⟨hplace, ?_, ?_⟩
        · rw [List.append_assoc, List.cons_append]
          exact hbefore.append (.group hb .nil)
        · show r.found.set _ (some r.place) = _
          rw [h.found, h.place, partners_close hb, List.append_assoc,
            List.set_append_left _ _ (by simp), List.replicate_succ]
          rfl
  · rw [Reading.next, if_neg hopen, if_neg hclose]
    exact ⟨hplace, h.opened.append (.item hopen hclose .nil), hfound hclose⟩

/-- Reading on keeps what is known. -/
theorem Knows.foldl {rest : List Item} (h : r.Knows items (rest.length + left)) :
    (rest.foldl Reading.next r).Knows (items ++ rest) left := by
  induction rest generalizing r items with
  | nil =>
    rw [List.length_nil, Nat.zero_add] at h
    rwa [List.append_nil]
  | cons i rest ih =>
    rw [List.length_cons, Nat.add_right_comm] at h
    have hrest := ih (h.next i)
    rwa [List.append_assoc] at hrest

end Reading

/-- What is known behind the first items of a list. -/
theorem knows_append (xs ys : List Item) :
    (xs.foldl Reading.next (.start (xs ++ ys).length)).Knows xs ys.length := by
  have hstart := Reading.knows_start (xs ++ ys).length
  rw [List.length_append] at hstart ⊢
  exact hstart.foldl

theorem partnersFromLeft_eq (items : List Item) : partnersFromLeft items = partners items := by
  have hall := (knows_append items []).found
  rwa [List.length_nil, List.replicate_zero, List.append_nil, List.append_nil] at hall

/-- Partners are found exactly. Reading from either side gives for every item the place of its
closing bracket, if the item and that one are brackets with balanced items between them. So the
spans of pairs never cross, no bracket is in two pairs, and of the brackets in none the closing ones
come before the opening ones. -/
theorem partners_exact (items : List Item) :
    partnersFromLeft items = partners items ∧
      (partners items).length = items.length ∧
      (∀ i j, (partners items)[i]? = some (some j) ↔ Matched items i j) ∧
      (∀ i j k l, Matched items i j → Matched items k l → i < k → j < k ∨ l < j) ∧
      (∀ i j k l, Matched items i j → Matched items k l → i = k ∨ i = l ∨ j = k ∨ j = l →
        i = k ∧ j = l) ∧
      ∀ i j, Unmatched items i → Unmatched items j → items[i]? = some (.char '(') →
        items[j]? = some (.char ')') → j < i :=
  ⟨partnersFromLeft_eq items, length_partners items, fun _ _ => getElem?_partners_iff,
    fun _ _ _ _ => Matched.not_crossing, fun _ _ _ _ => Matched.eq_of_shared,
    fun _ _ => Unmatched.lt⟩

/-- A closing bracket too many, two pairs of which one lies in the other, a literal, and an opening
bracket too many. -/
theorem partners_exact_unbalanced :
    let items := ")(a(".toList.map Item.char ++ .literal 0 :: "))(".toList.map Item.char
    partnersFromLeft items = [none, some 6, none, some 5, none, none, none, none] ∧
      Matched items 1 6 ∧ (6 < 3 ∨ 5 < 6) ∧ (∀ i, Matched items i 6 → i = 1) ∧ 0 < 7 := by
  obtain ⟨hleft, -, hmatched, hcross, hshared, hloose⟩ := partners_exact
    (")(a(".toList.map Item.char ++ .literal 0 :: "))(".toList.map Item.char)
  have houter := (hmatched 1 6).mp rfl
  refine ⟨hleft.trans rfl, houter, hcross 1 6 3 5 houter ((hmatched 3 5).mp rfl) (by decide),
    fun i h => (hshared i 6 1 6 h houter (.inr (.inr (.inr rfl)))).1, hloose 7 0 ?_ ?_ rfl rfl⟩
  · exact fun j => ⟨fun h => absurd ((hmatched 7 j).mpr h) nofun, fun h => absurd h.closes nofun⟩
  · exact fun j => ⟨fun h => absurd h.opens nofun, fun h => absurd h.lt (Nat.not_lt_zero j)⟩

end Bracket

end FilterClause
