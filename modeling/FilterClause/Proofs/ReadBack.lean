import FilterClause.Proofs.Fragments
import FilterClause.Proofs.LooseBrackets

/-!
# Items that are read back

Items are written with every literal between single quotes. If no quote stands outside the literals
and no apostrophe inside, the text is read back as the same parts. Literals may have other numbers
then, but cleaning sees nothing of them but the parts (`lexemesOf_congr`).
-/

namespace FilterClause

open Text

/-! ## Parts of items -/

namespace Item

/-- An item as a part of a text. -/
def part (literals : List Text) : Item → Char ⊕ Text
  | .char c => .inl c
  | .literal index => .inr (literals.getD index [])

/-- Items as the parts of a text. -/
def parts (literals : List Text) (items : List Item) : List (Char ⊕ Text) :=
  items.map (part literals)

/-- A part as it is written. -/
def renderPart : Char ⊕ Text → Text
  | .inl c => [c]
  | .inr content => singleQuote :: content ++ [singleQuote]

theorem renderAll_eq (literals : List Text) (items : List Item) :
    renderAll literals items = (parts literals items).flatMap renderPart := by
  rw [renderAll, parts, List.flatMap_map]
  refine List.flatMap_congr fun i _ => ?_
  cases i <;> rfl

end Item

/-- A call is written with its brackets. -/
theorem Lifted.parts_items (t : Text) : Item.parts (Fragment.literals t) (items t) = parts t := by
  have key : ∀ (before : List Text) (ps : List (Char ⊕ Text)),
      (Item.number before.length ps).map (Item.part (before ++ contents ps)) = ps := by
    intro before ps
    induction ps generalizing before with
    | nil => rfl
    | cons p ps ih =>
      cases p with
      | inl c =>
        rw [Item.number, List.map_cons]
        exact congrArg (_ :: ·) (ih before)
      | inr content =>
        have hcontents : before ++ contents (.inr content :: ps) =
            (before ++ [content]) ++ contents ps := by
          rw [List.append_assoc]
          rfl
        have hrest := ih (before ++ [content])
        rw [List.length_append, List.length_singleton] at hrest
        rw [Item.number, List.map_cons, hcontents, hrest, Item.part,
          List.getD_append _ _ _ _ (by simp), List.getD_append_right _ _ _ _ (Nat.le_refl _),
          Nat.sub_self]
        rfl
  exact key [] (parts t)

/-! ## Other numbers for the same parts -/

section Congruence

theorem Item.le_of_literal_mem_number {index n : Nat} {ps : List (Char ⊕ Text)}
    (h : .literal n ∈ number index ps) : index ≤ n := by
  induction ps generalizing index with
  | nil => cases h
  | cons p ps ih =>
    cases p with
    | inl c =>
      rw [number, List.mem_cons] at h
      rcases h with h | h
      · cases h
      · exact ih h
    | inr content =>
      rw [number, List.mem_cons] at h
      rcases h with h | h
      · cases h
        exact Nat.le_refl _
      · exact Nat.le_of_succ_le (ih h)

/-- Items are those of their parts, numbered in order, with the numbers changed. -/
theorem Item.exists_renumber (literals : List Text) (items : List Item) :
    ∃ σ : Nat → Nat, (number 0 (parts literals items)).map (renumber σ) = items ∧
      ∀ n, literals.getD (σ n) [] = (Lifted.contents (parts literals items)).getD n [] := by
  have key : ∀ k, ∃ σ : Nat → Nat, (number k (parts literals items)).map (renumber σ) = items ∧
      ∀ n, literals.getD (σ (n + k)) [] =
        (Lifted.contents (parts literals items)).getD n [] := by
    induction items with
    | nil => exact fun _ => ⟨fun _ => literals.length, rfl, fun n => by simp [parts]⟩
    | cons i items ih =>
      intro k
      cases i with
      | char c =>
        obtain ⟨σ, hσ, hget⟩ := ih k
        exact ⟨σ, congrArg (_ :: ·) hσ, hget⟩
      | literal index =>
        obtain ⟨σ, hσ, hget⟩ := ih (k + 1)
        let τ : Nat → Nat := fun n => if n = k then index else σ n
        have hhead : τ k = index := if_pos rfl
        have hne : ∀ n, k < n → τ n = σ n := fun n hn => if_neg (Nat.ne_of_gt hn)
        have hrest : (number (k + 1) (parts literals items)).map (renumber τ) =
            (number (k + 1) (parts literals items)).map (renumber σ) := by
          refine List.map_congr_left fun j hj => ?_
          cases j with
          | char c => rfl
          | literal n => rw [renumber, renumber, hne n (le_of_literal_mem_number hj)]
        refine ⟨τ, ?_, fun n => ?_⟩
        · show .literal (τ k) :: (number (k + 1) (parts literals items)).map (renumber τ) = _
          rw [hhead, hrest, hσ]
        · cases n with
          | zero =>
            rw [Nat.zero_add, hhead]
            rfl
          | succ n =>
            rw [hne _ (by omega), Nat.add_right_comm, Nat.add_assoc, hget]
            rfl
  obtain ⟨σ, hσ, hget⟩ := key 0
  exact ⟨σ, hσ, hget⟩

theorem Bracket.closesWithin_renumber (σ : Nat → Nat) (limit opened : Nat) (items : List Item) :
    closesWithin limit opened (items.map (Item.renumber σ)) =
      closesWithin limit opened items := by
  induction items generalizing opened with
  | nil => rfl
  | cons i rest ih =>
    rw [List.map_cons, closesWithin, closesWithin]
    simp only [Item.renumber_eq_char_iff, ih]

variable {literals literals' : List Text} {xs ys : List Item}
  (h : Item.parts literals xs = Item.parts literals' ys)

include h

theorem Bracket.Balanced.of_parts (hx : Balanced xs) : Balanced ys := by
  obtain ⟨σ, hσ, -⟩ := Item.exists_renumber literals xs
  obtain ⟨τ, hτ, -⟩ := Item.exists_renumber literals' ys
  have hcloses := nested_iff.mp hx.nested
  rw [← hσ, closesWithin_renumber, h] at hcloses
  rw [← hτ]
  exact (nested_iff.mpr ((closesWithin_renumber τ _ _ _).trans hcloses)).balanced

theorem Subselect.endOfWhere_congr : endOfWhere xs = endOfWhere ys := by
  obtain ⟨σ, hσ, -⟩ := Item.exists_renumber literals xs
  obtain ⟨τ, hτ, -⟩ := Item.exists_renumber literals' ys
  rw [← hσ, ← hτ, h, endOfWhere, endOfWhere, endOfWhereFrom_renumber, endOfWhereFrom_renumber]

namespace Cleaned

theorem lexemesOf_congr (options : Options) (levels : Nat) :
    lexemesOf literals (group literals options levels) xs =
      lexemesOf literals' (group literals' options levels) ys := by
  obtain ⟨σ, hσ, hget⟩ := Item.exists_renumber literals xs
  obtain ⟨τ, hτ, hget'⟩ := Item.exists_renumber literals' ys
  rw [← hσ, ← hτ, h]
  rw [h] at hget
  rw [lexemesOf_renumber hget _ _ (group_renumber hget options levels),
    lexemesOf_renumber hget' _ _ (group_renumber hget' options levels)]

end Cleaned

end Congruence

/-! ## Written items -/

/-- No quote stands outside the literals. -/
def Item.Quoteless (items : List Item) : Prop := ∀ c, .char c ∈ items → Lifted.isQuote c = false

theorem Item.Quoteless.of_subset {xs ys : List Item} (hy : Quoteless ys) (h : xs ⊆ ys) :
    Quoteless xs := fun c hc => hy c (h hc)

theorem Lifted.Closed.quoteless {t : Text} (h : Closed t) : Item.Quoteless (items t) := by
  intro c hc
  refine h c ?_
  rw [← parts_items]
  exact List.mem_map_of_mem hc

/-- The text of balanced items is plain. -/
theorem Piece.plain_text {items : List Item} (hb : Bracket.Balanced items)
    (hq : Item.Quoteless items) {t : Text} (ht : .text t ∈ ofItems items) : Fragment.Plain t := by
  have hloose := List.any_eq_false.mp (not_hasLooseBracket_of_balanced hb) _ ht
  intro c hc
  have hbracket : c ≠ '(' ∧ c ≠ ')' := by
    rw [hasLooseBracket, List.any_eq_true] at hloose
    exact ⟨fun h => hloose ⟨c, hc, by simp [h]⟩, fun h => hloose ⟨c, hc, by simp [h]⟩⟩
  exact ⟨hq c (items_subset hb ht (List.mem_map_of_mem hc)), hbracket⟩

/-- No literal of the items holds an apostrophe, so that all can be written between apostrophes. -/
def Item.Writable (literals : List Text) (items : List Item) : Prop :=
  ∀ index, .literal index ∈ items → singleQuote ∉ literals.getD index []

/-- The place that an item stands for. -/
def Item.place? : Item → Option Nat
  | .char _ => none
  | .literal index => some index

instance (literals : List Text) (items : List Item) : Decidable (Item.Writable literals items) :=
  decidable_of_iff (∀ index ∈ items.filterMap Item.place?, singleQuote ∉ literals.getD index [])
    ⟨fun h index hi => h index (List.mem_filterMap.mpr ⟨_, hi, rfl⟩), fun h index hi => by
      obtain ⟨i, hi, hplace⟩ := List.mem_filterMap.mp hi
      cases i with
      | char c => cases hplace
      | literal n => exact h index (Option.some.inj hplace ▸ hi)⟩

theorem Item.Writable.of_subset {literals : List Text} {xs ys : List Item} (hy : Writable literals ys)
    (h : xs ⊆ ys) : Writable literals xs := fun index hi => hy index (h hi)

theorem Item.Writable.of_forall {literals : List Text}
    (h : ∀ content ∈ literals, singleQuote ∉ content) (items : List Item) :
    Writable literals items := by
  intro index _
  rw [List.getD_eq_getElem?_getD]
  cases hget : literals[index]? with
  | none => exact List.not_mem_nil
  | some content => exact h content (List.mem_of_getElem? hget)

section Written

variable {literals : List Text} {items : List Item} (hq : Item.Quoteless items)
  (hw : Item.Writable literals items)

include hq hw

/-- Written items are read back as they are. -/
theorem Item.parts_renderAll :
    Lifted.parts (renderAll literals items) = parts literals items := by
  induction items with
  | nil => rfl
  | cons i items ih =>
    have hsub := List.subset_cons_self i items
    have hrest := ih (hq.of_subset hsub) (hw.of_subset hsub)
    cases i with
    | char c =>
      show Lifted.parts (c :: renderAll literals items) = _
      rw [Lifted.parts_cons_of_not_quote (hq c List.mem_cons_self), hrest]
      rfl
    | literal index =>
      have hquoted : renderAll literals (.literal index :: items) =
          singleQuote :: (literals.getD index [] ++ singleQuote :: renderAll literals items) := by
        simp [renderAll, render, quoted]
      rw [hquoted, Lifted.parts_literal rfl (hw index List.mem_cons_self), hrest]
      rfl

theorem Item.closed_renderAll : Lifted.Closed (renderAll literals items) := by
  intro c hc
  rw [Item.parts_renderAll hq hw] at hc
  obtain ⟨i, hi, hpart⟩ := List.mem_map.mp hc
  cases i with
  | char d =>
    obtain rfl : d = c := Sum.inl.inj hpart
    exact hq d hi
  | literal index => cases hpart

theorem Item.parts_items_renderAll :
    parts (Fragment.literals (renderAll literals items)) (Lifted.items (renderAll literals items)) =
      parts literals items := by
  rw [Lifted.parts_items, parts_renderAll hq hw]

/-- Written items have the lexemes of the items. -/
theorem Fragment.lexemes_renderAll (options : Options) (levels : Nat) :
    lexemes options levels (Item.renderAll literals items) =
      Cleaned.lexemesOf literals (Cleaned.group literals options levels) items :=
  Cleaned.lexemesOf_congr (Item.parts_items_renderAll hq hw) options levels

end Written

/-! ## Literals between single quotes -/

/-- Whether every literal of a text stands between single quotes: its items are written as the text
itself. -/
def Text.SingleQuoted (t : Text) : Prop :=
  Item.renderAll (Fragment.literals t) (Lifted.items t) = t

instance : DecidablePred SingleQuoted := fun t =>
  inferInstanceAs (Decidable (Item.renderAll (Fragment.literals t) (Lifted.items t) = t))

theorem Text.singleQuoted_iff {t : Text} :
    SingleQuoted t ↔ (Lifted.parts t).flatMap Item.renderPart = t := by
  rw [SingleQuoted, Item.renderAll_eq, Lifted.parts_items]

theorem Text.singleQuoted_renderAll {literals : List Text} {items : List Item}
    (hq : Item.Quoteless items) (hw : Item.Writable literals items) :
    SingleQuoted (Item.renderAll literals items) := by
  rw [singleQuoted_iff, Item.parts_renderAll hq hw, Item.renderAll_eq]

theorem Text.SingleQuoted.trim {t : Text} (h : SingleQuoted t) : SingleQuoted (Text.trim t) := by
  obtain ⟨l, r, ht, hl, hr⟩ := exists_eq_append_dropEnds isBlank t
  have hparts : Lifted.parts t = l.map .inl ++ (Lifted.parts (Text.trim t) ++ r.map .inl) := by
    conv_lhs => rw [ht]
    exact Fragment.parts_padded (.of_blanks hl) (.of_blanks hr) _
  have hchars : ∀ s : Text, (s.map Sum.inl).flatMap Item.renderPart = s := fun s => by
    rw [List.flatMap_map]
    exact List.flatMap_singleton' s
  rw [singleQuoted_iff, hparts, List.flatMap_append, List.flatMap_append, hchars, hchars] at h
  rw [singleQuoted_iff]
  have hboth : l ++ ((Lifted.parts (Text.trim t)).flatMap Item.renderPart ++ r) =
      l ++ (Text.trim t ++ r) := by
    rw [h, ← List.append_assoc]
    exact ht
  exact List.append_cancel_right (List.append_cancel_left hboth)

/-- No literal between single quotes holds one. -/
theorem Text.SingleQuoted.not_mem_content {t : Text} (h : SingleQuoted t) :
    ∀ content ∈ Fragment.literals t, singleQuote ∉ content := by
  rw [singleQuoted_iff] at h
  unfold Fragment.literals
  induction t using scan_induction Lifted.literal? with
  | nil => nofun
  | pass c rest hf ih =>
    rw [Lifted.parts, scan_cons_of_none hf] at h ⊢
    exact ih (List.cons.inj h).2
  | take c rest content n hf ih =>
    obtain ⟨-, hcontent, -, hrest⟩ := Lifted.literal?_eq_some hf
    rw [Lifted.parts, scan_cons_of_some hf] at h ⊢
    rw [List.flatMap_cons, Item.renderPart, List.cons_append, List.cons_append,
      List.append_assoc] at h
    obtain ⟨hquote, hbody⟩ := List.cons.inj h
    conv_rhs at hbody => rw [hrest]
    have hbehind := (List.cons.inj (List.append_cancel_left hbody)).2
    exact List.forall_mem_cons.mpr ⟨hquote ▸ hcontent, ih hbehind⟩

end FilterClause
