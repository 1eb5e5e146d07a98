import FilterClause.Proofs.LooseBrackets

/-!
# Pairs of brackets

A pair is an opening and a closing bracket with balanced items between them, wherever it stands and
whatever brackets without partners are around it. Items are taken apart at their pairs by
`pair_induction`. Pairs inside pairs tell how deep items are nested (`Deep`), and a name right
before a pair makes it a call (`CallFree`). Every pair lies in an outermost group or is one
(`exists_group_of_pair`), so the depth is told group by group (`deep_succ_iff`).
-/

namespace FilterClause

namespace Bracket

/-! ## Partners -/

/-- Whether an opening bracket before these items has its partner among them. -/
def Partnered (rest : List Item) : Prop :=
  ∃ interior after, rest = interior ++ .char ')' :: after ∧ Balanced interior

theorem partnered_iff {rest : List Item} : Partnered rest ↔ (pair rest).waiting ≠ [] := by
  constructor
  · rintro ⟨interior, after, rfl, h⟩
    rw [(pair_append h _).2, pair_cons_close]
    exact List.cons_ne_nil _ _
  · intro h
    cases resolved rest with
    | balanced hb => exact absurd (waiting_of_balanced hb) h
    | @opening xs ys hx _ hw =>
      have hnone : (pair (xs ++ .char '(' :: ys)).waiting = [] := by
        rw [(pair_append hx _).2, waiting_open, hw, List.tail_nil]
      exact absurd hnone h
    | @closing xs ys hx _ => exact ⟨xs, ys, rfl, hx⟩

instance : DecidablePred Partnered := fun _ => decidable_of_iff _ partnered_iff.symm

theorem Partnered.append {xs : List Item} (h : Partnered xs) (ys : List Item) :
    Partnered (xs ++ ys) := by
  obtain ⟨interior, after, rfl, hb⟩ := h
  exact ⟨interior, after ++ ys, by simp, hb⟩

/-- A bracket has one partner only. -/
theorem pair_unique {xs ys as bs : List Item} (hx : Balanced xs) (hy : Balanced ys)
    (h : xs ++ .char ')' :: as = ys ++ .char ')' :: bs) : xs = ys ∧ as = bs := by
  have hreach : some (xs.length + 1) = some (ys.length + 1) := by
    have hhead := congrArg (fun items => (reaches (.char '(' :: items)).head?) h
    simpa [reaches_group hx, reaches_group hy] using hhead
  have hlength : xs.length = ys.length := by simpa using hreach
  obtain ⟨hxs, hrest⟩ := List.append_inj h hlength
  exact ⟨hxs, (List.cons.inj hrest).2⟩

/-- Every opening bracket of balanced items has a partner. -/
theorem Balanced.partnered {items : List Item} (h : Balanced items) {before rest : List Item}
    (hitems : items = before ++ .char '(' :: rest) : Partnered rest := by
  induction h generalizing before rest with
  | nil => simp at hitems
  | item hopen _ _ ih =>
    cases before with
    | nil => exact absurd (List.cons.inj hitems).1 hopen
    | cons i before => exact ih (List.cons.inj hitems).2
  | @group interior behind hinterior hbehind ihi ihb =>
    cases before with
    | nil => exact ⟨interior, behind, (List.cons.inj hitems).2.symm, hinterior⟩
    | cons i before =>
      rcases cut_of_append (List.cons.inj hitems).2 with ⟨front, -, hfront⟩ | ⟨back, hi, rfl⟩
      · cases front with
        | nil => simp at hfront
        | cons i front => exact ihb (List.cons.inj hfront).2
      · exact (ihi hi).append _

/-! ## Taking items apart -/

/-- Items are taken apart at their pairs: what stands before a bracket with a partner or behind it,
and what stands between the two. -/
theorem pair_induction {motive : List Item → Prop} (nil : motive [])
    (item : ∀ i rest, i ≠ .char '(' → motive rest → motive (i :: rest))
    (loose : ∀ rest, ¬ Partnered rest → motive rest → motive (.char '(' :: rest))
    (group : ∀ interior rest, Balanced interior → motive rest →
      motive (.char '(' :: (interior ++ .char ')' :: rest))) (items : List Item) :
    motive items := by
  suffices h : ∀ n, ∀ items : List Item, items.length = n → motive items from h _ items rfl
  intro n
  induction n using Nat.strong_induction_on with
  | _ n ih =>
    intro items hn
    cases items with
    | nil => exact nil
    | cons i rest =>
      rw [List.length_cons] at hn
      by_cases hopen : i = .char '('
      · subst hopen
        by_cases hp : Partnered rest
        · obtain ⟨interior, after, rfl, hb⟩ := hp
          rw [List.length_append, List.length_cons] at hn
          exact group interior after hb (ih _ (by omega) after rfl)
        · exact loose rest hp (ih _ (by omega) rest rfl)
      · exact item i rest hopen (ih _ (by omega) rest rfl)

theorem not_partnered_iff {rest : List Item} : ¬ Partnered rest ↔ (pair rest).waiting = [] :=
  partnered_iff.not_left

theorem reaches_loose {rest : List Item} (h : ¬ Partnered rest) :
    reaches (.char '(' :: rest) = none :: reaches rest :=
  reaches_open (not_partnered_iff.mp h)

theorem groups_loose {rest : List Item} (h : ¬ Partnered rest) :
    groups (.char '(' :: rest) = .inl (.char '(') :: groups rest :=
  groups_open (not_partnered_iff.mp h)

/-- An outermost group is a pair. -/
theorem exists_pair_of_group {items interior : List Item} (h : .inr interior ∈ groups items) :
    ∃ before after, items = before ++ .char '(' :: (interior ++ .char ')' :: after) := by
  induction items using pair_induction with
  | nil => simp at h
  | item i rest hopen ih =>
    rw [groups_cons_item hopen, List.mem_cons] at h
    obtain ⟨before, after, rfl⟩ := ih (h.resolve_left (by simp))
    exact ⟨i :: before, after, rfl⟩
  | loose rest hp ih =>
    rw [groups_loose hp, List.mem_cons] at h
    obtain ⟨before, after, rfl⟩ := ih (h.resolve_left (by simp))
    exact ⟨.char '(' :: before, after, rfl⟩
  | group inside rest hb ih =>
    rw [groups_group hb, List.mem_cons] at h
    rcases h with h | h
    · obtain rfl := Sum.inr.inj h
      exact ⟨[], rest, rfl⟩
    · obtain ⟨before, after, rfl⟩ := ih h
      exact ⟨.char '(' :: (inside ++ .char ')' :: before), after, by simp⟩

/-- Every pair is an outermost group or lies in one. -/
theorem exists_group_of_pair {items before inside after : List Item} (hb : Balanced inside)
    (h : items = before ++ .char '(' :: (inside ++ .char ')' :: after)) :
    ∃ interior, .inr interior ∈ groups items ∧ inside <:+: interior := by
  induction items using pair_induction generalizing before with
  | nil => simp at h
  | item i rest hopen ih =>
    cases before with
    | nil => exact absurd (List.cons.inj h).1 hopen
    | cons j before =>
      obtain ⟨interior, hi, hsub⟩ := ih (List.cons.inj h).2
      rw [groups_cons_item hopen]
      exact ⟨interior, List.mem_cons_of_mem _ hi, hsub⟩
  | loose rest hp ih =>
    cases before with
    | nil => exact absurd ⟨inside, after, (List.cons.inj h).2, hb⟩ hp
    | cons j before =>
      obtain ⟨interior, hi, hsub⟩ := ih (List.cons.inj h).2
      rw [groups_loose hp]
      exact ⟨interior, List.mem_cons_of_mem _ hi, hsub⟩
  | group interior rest hbi ih =>
    rw [groups_group hbi]
    cases before with
    | nil =>
      obtain ⟨rfl, -⟩ := pair_unique hbi hb (List.cons.inj h).2
      exact ⟨interior, List.mem_cons_self, List.infix_rfl⟩
    | cons j before =>
      -- The pair stands behind the group, or its opening bracket stands in the group and so does
      -- its partner.
      rcases cut_of_append (List.cons.inj h).2 with ⟨front, -, hfront⟩ | ⟨back, hi, hinside⟩
      · cases front with
        | nil => simp at hfront
        | cons i front =>
          obtain ⟨interior', hi', hsub⟩ := ih (List.cons.inj hfront).2
          exact ⟨interior', List.mem_cons_of_mem _ hi', hsub⟩
      · obtain ⟨inside', after', rfl, hb'⟩ := hbi.partnered hi
        have hwhole : inside ++ .char ')' :: after =
            inside' ++ .char ')' :: (after' ++ .char ')' :: rest) := by
          simpa using hinside
        obtain ⟨rfl, -⟩ := pair_unique hb hb' hwhole
        refine ⟨interior, List.mem_cons_self, before ++ [.char '('], .char ')' :: after', ?_⟩
        rw [hi]
        simp

/-! ## Depth -/

/-- Whether items hold so many pairs, each between the brackets of the one before. -/
def Deep : Nat → List Item → Prop
  | 0, _ => True
  | n + 1, items => ∃ before interior after,
      items = before ++ .char '(' :: (interior ++ .char ')' :: after) ∧ Balanced interior ∧
        Deep n interior

namespace Deep

variable {n : Nat} {items : List Item}

theorem of_part {part : List Item} (h : Deep n part) (hp : part <:+: items) : Deep n items := by
  cases n with
  | zero => trivial
  | succ n =>
    obtain ⟨before, interior, after, rfl, hb, hdeep⟩ := h
    obtain ⟨front, back, rfl⟩ := hp
    exact ⟨front ++ before, interior, after ++ back, by simp, hb, hdeep⟩

/-- Every pair takes two items. -/
theorem length_le (h : Deep n items) : 2 * n ≤ items.length := by
  induction n generalizing items with
  | zero => omega
  | succ n ih =>
    obtain ⟨before, interior, after, rfl, -, hdeep⟩ := h
    have hle := ih hdeep
    simp only [List.length_append, List.length_cons]
    omega

/-- Items that are no brackets make nothing deeper. -/
theorem of_padded {l r : List Item} (hl : ∀ i ∈ l, i ≠ .char '(' ∧ i ≠ .char ')')
    (hr : ∀ i ∈ r, i ≠ .char '(' ∧ i ≠ .char ')') (h : Deep n (l ++ (items ++ r))) :
    Deep n items := by
  cases n with
  | zero => trivial
  | succ n =>
    obtain ⟨before, interior, after, hitems, hb, hdeep⟩ := h
    obtain ⟨front, -, hfront⟩ := exists_of_append_left (fun hm => (hl _ hm).1 rfl) hitems
    obtain ⟨rest, hrest, hbehind⟩ := exists_of_append_right (fun hm => (hr _ hm).1 rfl) hfront
    obtain ⟨back, hback, -⟩ := exists_of_append_right (fun hm => (hr _ hm).2 rfl) hbehind.symm
    exact ⟨front, interior, back, hback ▸ hrest, hb, hdeep⟩

end Deep

/-- Items are one pair deeper than one of their outermost groups. -/
theorem deep_succ_iff {n : Nat} {items : List Item} :
    Deep (n + 1) items ↔ ∃ interior, .inr interior ∈ groups items ∧ Deep n interior := by
  constructor
  · rintro ⟨before, inside, after, rfl, hb, hdeep⟩
    obtain ⟨interior, hi, hsub⟩ := exists_group_of_pair hb rfl
    exact ⟨interior, hi, hdeep.of_part hsub⟩
  · rintro ⟨interior, hi, hdeep⟩
    obtain ⟨before, after, rfl⟩ := exists_pair_of_group hi
    exact ⟨before, interior, after, rfl, balanced_of_mem_groups hi, hdeep⟩

/-! ## Calls -/

/-- Whether no pair stands right behind a name character, when `inName` says that such a character
stands before the items. -/
def CallFree : Bool → List Item → Prop
  | _, [] => True
  | inName, i :: rest =>
    (inName = true → i = .char '(' → ¬ Partnered rest) ∧ CallFree i.isName rest

instance decidableCallFree : ∀ (inName : Bool) (items : List Item),
    Decidable (CallFree inName items)
  | _, [] => .isTrue trivial
  | inName, i :: rest =>
    haveI := decidableCallFree i.isName rest
    inferInstanceAs (Decidable
      ((inName = true → i = .char '(' → ¬ Partnered rest) ∧ CallFree i.isName rest))

namespace CallFree

theorem weaken {inName : Bool} {items : List Item} (h : CallFree inName items) :
    CallFree false items := by
  cases items with
  | nil => trivial
  | cons i rest => exact ⟨by simp, h.2⟩

theorem of_append {inName : Bool} {xs ys : List Item} (h : CallFree inName (xs ++ ys)) :
    CallFree inName xs ∧ CallFree false ys := by
  induction xs generalizing inName with
  | nil => exact ⟨trivial, h.weaken⟩
  | cons x xs ih =>
    obtain ⟨hx, hy⟩ := ih h.2
    exact ⟨⟨fun hn hi hp => h.1 hn hi (hp.append ys), hx⟩, hy⟩

theorem of_part {inName : Bool} {part items : List Item} (h : CallFree inName items)
    (hp : part <:+: items) : CallFree false part := by
  obtain ⟨front, back, rfl⟩ := hp
  exact (of_append h).1.of_append.2

end CallFree

end Bracket

end FilterClause
