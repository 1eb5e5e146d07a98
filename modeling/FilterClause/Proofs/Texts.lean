import FilterClause.Text.Basic
import FilterClause.Text.Blank

/-!
# Joining, splitting and trimming

Texts joined by single spaces, texts split at a separator, and texts without the characters of a
class at their ends. A class that stops at a character stops there whatever follows.
-/

namespace FilterClause

namespace Text

/-! ## Runs of a class -/

section Run

variable {α : Type} {p : α → Bool} {b : α}

theorem takeWhile_append_stop (hb : p b = false) (xs ys : List α) :
    (xs ++ b :: ys).takeWhile p = xs.takeWhile p := by
  induction xs with
  | nil => simp [hb]
  | cons x xs ih =>
    cases hx : p x with
    | true => simp [hx, ih]
    | false => simp [hx]

theorem dropWhile_append_stop (hb : p b = false) (xs ys : List α) :
    (xs ++ b :: ys).dropWhile p = xs.dropWhile p ++ b :: ys := by
  induction xs with
  | nil => simp [hb]
  | cons x xs ih =>
    cases hx : p x with
    | true => simp [hx, ih]
    | false => simp [hx]

theorem takeWhile_append_of_exists {xs : List α} (h : ∃ x ∈ xs, p x = false) (ys : List α) :
    (xs ++ ys).takeWhile p = xs.takeWhile p := by
  obtain ⟨x, hx, hp⟩ := h
  obtain ⟨us, vs, rfl⟩ := List.append_of_mem hx
  rw [List.append_assoc, List.cons_append, takeWhile_append_stop hp, takeWhile_append_stop hp]

theorem dropWhile_append_of_exists {xs : List α} (h : ∃ x ∈ xs, p x = false) (ys : List α) :
    (xs ++ ys).dropWhile p = xs.dropWhile p ++ ys := by
  obtain ⟨x, hx, hp⟩ := h
  obtain ⟨us, vs, rfl⟩ := List.append_of_mem hx
  rw [List.append_assoc, List.cons_append, dropWhile_append_stop hp, dropWhile_append_stop hp,
    List.append_assoc, List.cons_append]

theorem mem_dropWhile_of_not {x : α} {xs : List α} (hx : x ∈ xs) (hp : p x = false) :
    x ∈ xs.dropWhile p := by
  obtain ⟨us, vs, rfl⟩ := List.append_of_mem hx
  rw [dropWhile_append_stop hp]
  exact List.mem_append_right _ List.mem_cons_self

theorem mem_of_mem_dropWhile {x : α} {xs : List α} (h : x ∈ xs.dropWhile p) : x ∈ xs :=
  (List.dropWhile_sublist p).subset h

theorem all_of_mem_takeWhile {x : α} {xs : List α} (h : x ∈ xs.takeWhile p) : p x = true :=
  List.all_eq_true.mp List.all_takeWhile x h

theorem takeWhile_of_head {xs : List α} (h : ∀ x ∈ xs.head?, p x = false) :
    xs.takeWhile p = [] := by
  cases xs with
  | nil => rfl
  | cons x xs => exact List.takeWhile_cons_of_neg (by simp [h x rfl])

theorem dropWhile_of_head {xs : List α} (h : ∀ x ∈ xs.head?, p x = false) :
    xs.dropWhile p = xs := by
  cases xs with
  | nil => rfl
  | cons x xs => exact List.dropWhile_cons_of_neg (by simp [h x rfl])

/-- A run of a class ends where a character outside the class follows. -/
theorem takeWhile_append_of_head {xs ys : List α} (hx : ∀ x ∈ xs, p x = true)
    (hy : ∀ y ∈ ys.head?, p y = false) : (xs ++ ys).takeWhile p = xs := by
  rw [List.takeWhile_append_of_pos hx, takeWhile_of_head hy, List.append_nil]

theorem dropWhile_append_of_head {xs ys : List α} (hx : ∀ x ∈ xs, p x = true)
    (hy : ∀ y ∈ ys.head?, p y = false) : (xs ++ ys).dropWhile p = ys := by
  rw [List.dropWhile_append_of_pos hx, dropWhile_of_head hy]

end Run

/-! ## Joining -/

@[simp] theorem joinSpaced_nil : joinSpaced [] = [] := by
  simp [joinSpaced, join, List.intercalate]

@[simp] theorem joinSpaced_singleton (t : Text) : joinSpaced [t] = t := by
  simp [joinSpaced, join, List.intercalate]

@[simp] theorem joinSpaced_cons_cons (s t : Text) (ts : List Text) :
    joinSpaced (s :: t :: ts) = s ++ ' ' :: joinSpaced (t :: ts) := by
  simp [joinSpaced, join, List.intercalate]

theorem joinSpaced_cons {ts : List Text} (h : ts ≠ []) (t : Text) :
    joinSpaced (t :: ts) = t ++ ' ' :: joinSpaced ts := by
  cases ts with
  | nil => exact absurd rfl h
  | cons u us => rw [joinSpaced_cons_cons]

theorem joinSpaced_append {ss ts : List Text} (hs : ss ≠ []) (ht : ts ≠ []) :
    joinSpaced (ss ++ ts) = joinSpaced ss ++ ' ' :: joinSpaced ts := by
  induction ss with
  | nil => exact absurd rfl hs
  | cons s ss ih =>
    cases ss with
    | nil => rw [List.singleton_append, joinSpaced_cons ht, joinSpaced_singleton]
    | cons u us =>
      rw [List.cons_append, joinSpaced_cons (by simp), ih (by simp), joinSpaced_cons_cons,
        List.append_assoc, List.cons_append]

theorem mem_joinSpaced {ts : List Text} {c : Char} (h : c ∈ joinSpaced ts) :
    c = ' ' ∨ ∃ t ∈ ts, c ∈ t := by
  induction ts with
  | nil => simp at h
  | cons t ts ih =>
    cases ts with
    | nil => exact .inr ⟨t, List.mem_cons_self, by simpa using h⟩
    | cons u us =>
      rw [joinSpaced_cons_cons, List.mem_append, List.mem_cons] at h
      rcases h with h | h | h
      · exact .inr ⟨t, List.mem_cons_self, h⟩
      · exact .inl h
      · exact (ih h).imp_right fun ⟨s, hs, hc⟩ => ⟨s, List.mem_cons_of_mem _ hs, hc⟩

theorem subset_joinSpaced {ts : List Text} {t : Text} (h : t ∈ ts) : t ⊆ joinSpaced ts := by
  intro c hc
  induction ts with
  | nil => cases h
  | cons s ts ih =>
    cases ts with
    | nil =>
      rw [joinSpaced_singleton]
      rwa [List.mem_singleton.mp h] at hc
    | cons u us =>
      rw [joinSpaced_cons_cons, List.mem_append, List.mem_cons]
      rcases List.mem_cons.mp h with rfl | h
      · exact .inl hc
      · exact .inr (.inr (ih h))

/-- Texts behind another one are told by what they are joined to, unless one is empty. -/
theorem joinSpaced_cons_eq {ts : List Text} (h : ∀ t ∈ ts, t ≠ []) (s : Text) :
    joinSpaced (s :: ts) =
      s ++ if (joinSpaced ts).isEmpty then [] else ' ' :: joinSpaced ts := by
  cases ts with
  | nil => simp
  | cons t ts =>
    have hne : joinSpaced (t :: ts) ≠ [] := fun e =>
      h t List.mem_cons_self (List.subset_nil.mp (e ▸ subset_joinSpaced List.mem_cons_self))
    rw [joinSpaced_cons_cons, if_neg (by simpa using hne)]

/-- Joining leaves a space between any two neighbours. -/
theorem length_le_count_joinSpaced (ts : List Text) :
    ts.length ≤ (joinSpaced ts).count ' ' + 1 := by
  induction ts with
  | nil => exact Nat.zero_le _
  | cons t ts ih =>
    cases ts with
    | nil => exact Nat.le_add_left 1 _
    | cons u us =>
      rw [joinSpaced_cons_cons, List.count_append, List.count_cons_self, List.length_cons]
      omega

/-! ## Splitting -/

theorem split_ne_nil (sep : Char) (t : Text) : split sep t ≠ [] := by
  cases t with
  | nil => exact List.cons_ne_nil _ _
  | cons c t =>
    rw [split]
    split
    · exact List.cons_ne_nil _ _
    · split <;> exact List.cons_ne_nil _ _

theorem not_mem_of_mem_split {sep : Char} {t : Text} : ∀ part ∈ split sep t, sep ∉ part := by
  induction t with
  | nil => exact List.forall_mem_singleton.mpr List.not_mem_nil
  | cons c t ih =>
    rw [split]
    split
    · exact List.forall_mem_cons.mpr ⟨List.not_mem_nil, ih⟩
    · next hc =>
      split
      · next hnil => exact absurd hnil (split_ne_nil sep t)
      · next part parts hparts =>
        obtain ⟨hpart, hrest⟩ := List.forall_mem_cons.mp (hparts ▸ ih)
        refine List.forall_mem_cons.mpr ⟨?_, hrest⟩
        exact List.not_mem_cons_of_ne_of_not_mem (Ne.symm hc) hpart

theorem split_append_cons {sep : Char} {s : Text} (h : sep ∉ s) (t : Text) :
    split sep (s ++ sep :: t) = s :: split sep t := by
  induction s with
  | nil => simp [split]
  | cons c s ih =>
    rw [List.mem_cons, not_or] at h
    rw [List.cons_append, split, if_neg (Ne.symm h.1), ih h.2]

theorem split_of_not_mem {sep : Char} {t : Text} (h : sep ∉ t) : split sep t = [t] := by
  induction t with
  | nil => rfl
  | cons c t ih =>
    rw [List.mem_cons, not_or] at h
    rw [split, if_neg (Ne.symm h.1), ih h.2]

theorem join_cons_cons (sep t u : Text) (ts : List Text) :
    join sep (t :: u :: ts) = t ++ (sep ++ join sep (u :: ts)) := by
  rw [join, List.intercalate_cons_cons, List.append_assoc, join]

/-- Pieces without the separator are found again in the joined text. -/
theorem split_join {sep : Char} {ts : List Text} (hne : ts ≠ []) (h : ∀ t ∈ ts, sep ∉ t) :
    split sep (join [sep] ts) = ts := by
  induction ts with
  | nil => exact absurd rfl hne
  | cons t ts ih =>
    obtain ⟨ht, hts⟩ := List.forall_mem_cons.mp h
    cases ts with
    | nil => rw [join, List.intercalate_singleton, split_of_not_mem ht]
    | cons u us =>
      rw [join_cons_cons, List.singleton_append, split_append_cons ht,
        ih (List.cons_ne_nil u us) hts]

theorem join_split (sep : Char) (t : Text) : join [sep] (split sep t) = t := by
  induction t with
  | nil => rfl
  | cons c t ih =>
    obtain ⟨piece, pieces, hpieces⟩ := List.exists_cons_of_ne_nil (split_ne_nil sep t)
    rw [hpieces] at ih
    rw [split, hpieces]
    split
    · next hc => rw [join_cons_cons, ih, hc, List.nil_append, List.singleton_append]
    · cases pieces with
      | nil =>
        rw [join, List.intercalate_singleton] at ih ⊢
        rw [ih]
      | cons u us =>
        rw [join_cons_cons] at ih ⊢
        rw [← ih, List.cons_append]

/-! ## Trimming -/

section Trim

variable {p : Char → Bool}

theorem dropEnd_append_of_all (t : Text) {r : Text} (h : ∀ c ∈ r, p c = true) :
    dropEnd p (t ++ r) = dropEnd p t := by
  rw [dropEnd, List.reverse_append,
    List.dropWhile_append_of_pos fun c hc => h c (List.mem_reverse.mp hc), dropEnd]

theorem dropEnd_append_stop (t : Text) {c : Char} (h : p c = false) (r : Text) :
    dropEnd p (t ++ c :: r) = t ++ c :: dropEnd p r := by
  rw [dropEnd, List.reverse_append, List.reverse_cons, List.append_assoc, List.singleton_append,
    dropWhile_append_stop h, List.reverse_append, List.reverse_cons, List.reverse_reverse,
    List.append_assoc, List.singleton_append, dropEnd]

theorem dropEnds_append_of_all {l : Text} (h : ∀ c ∈ l, p c = true) (t : Text) :
    dropEnds p (l ++ t) = dropEnds p t := by
  rw [dropEnds, List.dropWhile_append_of_pos h, dropEnds]

/-- A text is what is left of it and a run of the class behind. -/
theorem exists_eq_dropEnd_append (p : Char → Bool) (t : Text) :
    ∃ r, t = dropEnd p t ++ r ∧ ∀ c ∈ r, p c = true := by
  refine ⟨(t.reverse.takeWhile p).reverse, ?_, fun c hc =>
    all_of_mem_takeWhile (List.mem_reverse.mp hc)⟩
  rw [dropEnd, ← List.reverse_append, List.takeWhile_append_dropWhile, List.reverse_reverse]

theorem dropEnd_of_last {t : Text} (h : ∀ c ∈ t.getLast?, p c = false) : dropEnd p t = t := by
  rcases List.eq_nil_or_concat t with rfl | ⟨s, c, rfl⟩
  · rfl
  · rw [List.concat_eq_append] at h ⊢
    rw [dropEnd_append_stop s (h c (by simp))]
    rfl

/-- A text ends in no character of the class if it ends in a run of others. -/
theorem last_append_run {r : Text} (hne : r ≠ []) (h : ∀ c ∈ r, p c = false) (s : Text) :
    ∀ c ∈ (s ++ r).getLast?, p c = false := by
  intro c hc
  rw [List.getLast?_append, List.getLast?_eq_some_getLast hne, Option.some_or] at hc
  cases hc
  exact h _ (List.getLast_mem hne)

/-- What stands before a run of the class, and the run, are told by the whole text. -/
theorem append_inj_of_last {s s' r r' : Text} (hs : ∀ c ∈ s.getLast?, p c = false)
    (hr : ∀ c ∈ r, p c = true) (hs' : ∀ c ∈ s'.getLast?, p c = false)
    (hr' : ∀ c ∈ r', p c = true) (h : s ++ r = s' ++ r') : s = s' ∧ r = r' := by
  have key : s = s' := by
    rw [← dropEnd_of_last hs, ← dropEnd_append_of_all s hr, h, dropEnd_append_of_all s' hr',
      dropEnd_of_last hs']
  subst key
  exact ⟨rfl, List.append_cancel_left h⟩

theorem dropEnds_of_forall {t : Text} (h : ∀ c ∈ t, p c = false) : dropEnds p t = t := by
  rw [dropEnds, dropWhile_of_head fun c hc => h c (List.mem_of_head? hc),
    dropEnd_of_last fun c hc => h c (List.mem_of_getLast? hc)]

/-- No character of the class is left at the ends. -/
theorem getLast?_dropEnds (t : Text) : ∀ c ∈ (dropEnds p t).getLast?, p c = false := by
  intro c hc
  rw [dropEnds, dropEnd, List.getLast?_reverse] at hc
  have hstop := List.head?_dropWhile_not p (t.dropWhile p).reverse
  rwa [Option.mem_def.mp hc] at hstop

theorem head?_dropEnds (t : Text) : ∀ c ∈ (dropEnds p t).head?, p c = false := by
  intro c hc
  obtain ⟨r, hr, -⟩ := exists_eq_dropEnd_append p (t.dropWhile p)
  obtain ⟨s, hs⟩ := List.head?_eq_some_iff.mp hc
  have hstop := List.head?_dropWhile_not p t
  rwa [hr, ← dropEnds, hs] at hstop

theorem dropEnds_dropEnds (t : Text) : dropEnds p (dropEnds p t) = dropEnds p t := by
  rw [dropEnds, dropWhile_of_head (head?_dropEnds t), dropEnd_of_last (getLast?_dropEnds t)]

/-- A text is what trimming leaves of it, between two runs of the class. -/
theorem exists_eq_append_dropEnds (p : Char → Bool) (t : Text) :
    ∃ l r, t = l ++ dropEnds p t ++ r ∧ (∀ c ∈ l, p c = true) ∧ ∀ c ∈ r, p c = true := by
  obtain ⟨r, hr, hall⟩ := exists_eq_dropEnd_append p (t.dropWhile p)
  refine ⟨t.takeWhile p, r, ?_, fun c hc => all_of_mem_takeWhile hc, hall⟩
  rw [dropEnds, List.append_assoc, ← hr, List.takeWhile_append_dropWhile]

theorem dropEnds_padded {l t r : Text} (hl : ∀ c ∈ l, p c = true) (hr : ∀ c ∈ r, p c = true)
    (hhead : ∀ c ∈ t.head?, p c = false) (hlast : ∀ c ∈ t.getLast?, p c = false) :
    dropEnds p (l ++ t ++ r) = t := by
  cases t with
  | nil =>
    have hall : (l ++ r).dropWhile p = [] := by
      rw [List.dropWhile_append_of_pos hl, ← List.append_nil r, List.dropWhile_append_of_pos hr]
      rfl
    rw [dropEnds, List.append_nil, hall]
    rfl
  | cons c t =>
    have hfront : (l ++ (c :: t ++ r)).dropWhile p = c :: t ++ r :=
      dropWhile_append_of_head hl hhead
    rw [dropEnds, List.append_assoc, hfront, dropEnd_append_of_all _ hr, dropEnd_of_last hlast]

/-- A run of the class behind a text goes with its end. -/
theorem dropEnds_append_run (t : Text) {r : Text} (h : ∀ c ∈ r, p c = true) :
    dropEnds p (t ++ r) = dropEnds p t := by
  obtain ⟨l, back, ht, hl, hback⟩ := exists_eq_append_dropEnds p t
  have hsplit : t ++ r = l ++ dropEnds p t ++ (back ++ r) := by
    rw [← List.append_assoc, ← ht]
  rw [hsplit, dropEnds_padded hl (List.forall_mem_append.mpr ⟨hback, h⟩) (head?_dropEnds t)
    (getLast?_dropEnds t)]

end Trim

end Text

end FilterClause
