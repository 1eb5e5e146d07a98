import FilterClause.Proofs.Fragments
import FilterClause.Proofs.SqlLiterals
import Mathlib.Algebra.Group.Nat.Even

/-!
# Brackets in SQL text

A text is well formed if its apostrophes come to an even number and the brackets outside its
literals balance. Nothing is supposed of how it came about: the brackets are counted. Texts stay
well formed when they are joined, put between brackets, quoted, or trimmed.
-/

namespace FilterClause

open Text

namespace Sql

/-- The characters of a text behind an even number of apostrophes. `isOpen` says that an odd number
stands before the text. -/
def outside : Bool → Text → Text
  | _, [] => []
  | isOpen, c :: rest =>
    (if isOpen then [] else [c]) ++ outside (isOpen ^^ (c == singleQuote)) rest

/-- Whether the apostrophes of a text come to an even number and its brackets behind an even number
of apostrophes balance: no beginning closes more than it opens, and all are closed in the end. -/
structure WellFormed (t : Text) : Prop where
  quotes : Even (t.count singleQuote)
  prefixes : ∀ s, s <+: t → (outside false s).count ')' ≤ (outside false s).count '('
  total : (outside false t).count '(' = (outside false t).count ')'

instance (t : Text) : Decidable (WellFormed t) :=
  decidable_of_iff (Even (t.count singleQuote) ∧
      (∀ s ∈ t.inits, (outside false s).count ')' ≤ (outside false s).count '(') ∧
      (outside false t).count '(' = (outside false t).count ')')
    ⟨fun ⟨hquotes, hprefixes, htotal⟩ =>
      ⟨hquotes, fun s hs => hprefixes s ((List.mem_inits s t).mpr hs), htotal⟩,
      fun h => ⟨h.quotes, fun s hs => h.prefixes s ((List.mem_inits s t).mp hs), h.total⟩⟩

/-! ## Characters outside literals -/

theorem outside_append (isOpen : Bool) (s t : Text) :
    outside isOpen (s ++ t) = outside isOpen s ++ outside (openBehind isOpen s) t := by
  induction s generalizing isOpen with
  | nil => cases isOpen <;> rfl
  | cons c s ih => rw [List.cons_append, outside, ih, outside, openBehind_cons, List.append_assoc]

theorem outside_cons_of_ne {c : Char} (h : c ≠ singleQuote) (t : Text) :
    outside false (c :: t) = c :: outside false t := by
  rw [outside, beq_false_of_ne h]
  rfl

/-- A literal is open behind an odd number of apostrophes. -/
theorem openBehind_eq_false_iff (t : Text) :
    openBehind false t = false ↔ Even (t.count singleQuote) := by
  have key : ∀ isOpen, openBehind isOpen t = isOpen ↔ Even (t.count singleQuote) := by
    induction t with
    | nil => intro isOpen; cases isOpen <;> simp [openBehind]
    | cons c t ih =>
      intro isOpen
      rw [openBehind_cons]
      by_cases hc : c = singleQuote
      · have hflip := ih (isOpen ^^ true)
        rw [hc, beq_self_eq_true, List.count_cons_self, Nat.even_add_one, ← hflip]
        cases openBehind (isOpen ^^ true) t <;> cases isOpen <;> decide
      · rw [beq_false_of_ne hc, Bool.xor_false, List.count_cons_of_ne hc]
        exact ih isOpen
  exact key false

section Plain

variable {t : Text} (h : Fragment.Plain t)

include h

theorem count_quote_of_plain : t.count singleQuote = 0 :=
  List.count_eq_zero_of_not_mem h.not_mem_singleQuote

theorem openBehind_of_plain : openBehind false t = false :=
  (openBehind_eq_false_iff t).mpr (count_quote_of_plain h ▸ .zero)

theorem outside_of_plain : outside false t = t := by
  induction t with
  | nil => rfl
  | cons c t ih =>
    obtain ⟨hc, ht⟩ := List.forall_mem_cons.mp h
    have hquote : c ≠ singleQuote := fun e => absurd hc.1 (e ▸ by decide)
    rw [outside_cons_of_ne hquote, ih ht]

/-- Text without quotes and brackets adds no bracket in front of a text. -/
theorem count_outside_plain_append {c : Char} (hc : c = '(' ∨ c = ')') (s : Text) :
    (outside false (t ++ s)).count c = (outside false s).count c := by
  have hnot : c ∉ t := by
    rcases hc with rfl | rfl
    · exact h.not_mem_open
    · exact h.not_mem_close
  rw [outside_append, openBehind_of_plain h, outside_of_plain h, List.count_append,
    List.count_eq_zero_of_not_mem hnot, Nat.zero_add]

end Plain

/-- Nothing but apostrophes stands outside the literals of a text that is literals from end to
end. -/
theorem eq_singleQuote_of_mem_outside {isOpen : Bool} {t : Text}
    (h : ∀ b ∈ inLiteral isOpen t, b = true) : ∀ c ∈ outside isOpen t, c = singleQuote := by
  induction t generalizing isOpen with
  | nil => cases isOpen <;> nofun
  | cons c t ih =>
    rw [inLiteral_cons, List.forall_mem_cons, Bool.or_eq_true, beq_iff_eq] at h
    intro d hd
    rw [outside, List.mem_append] at hd
    rcases hd with hd | hd
    · cases isOpen with
      | true => cases hd
      | false => exact (List.mem_singleton.mp hd).trans (h.1.resolve_left Bool.false_ne_true)
    · exact ih h.2 d hd

/-! ## Well-formed texts -/

namespace WellFormed

variable {s t : Text}

/-- A text with no bracket outside its literals. -/
theorem of_not_mem_outside (hquotes : Even (t.count singleQuote)) (hopen : '(' ∉ outside false t)
    (hclose : ')' ∉ outside false t) : WellFormed t where
  quotes := hquotes
  prefixes := by
    rintro s ⟨r, rfl⟩
    rw [outside_append, List.mem_append, not_or] at hclose
    rw [List.count_eq_zero_of_not_mem hclose.1]
    exact Nat.zero_le _
  total := by rw [List.count_eq_zero_of_not_mem hopen, List.count_eq_zero_of_not_mem hclose]

theorem of_plain (h : Fragment.Plain t) : WellFormed t :=
  of_not_mem_outside (count_quote_of_plain h ▸ .zero)
    (by rw [outside_of_plain h]; exact h.not_mem_open)
    (by rw [outside_of_plain h]; exact h.not_mem_close)

theorem nil : WellFormed [] := .of_plain nofun

theorem singleton {c : Char} (hquote : c ≠ singleQuote) (hopen : c ≠ '(') (hclose : c ≠ ')') :
    WellFormed [c] := by
  have houtside : outside false [c] = [c] := outside_cons_of_ne hquote []
  refine of_not_mem_outside ?_ ?_ ?_
  · rw [List.count_singleton, beq_false_of_ne hquote]
    exact .zero
  · rw [houtside, List.mem_singleton]
    exact hopen.symm
  · rw [houtside, List.mem_singleton]
    exact hclose.symm

/-- Whatever stands inside literals. -/
theorem of_enclosed (h : Enclosed t) : WellFormed t := by
  have houtside := eq_singleQuote_of_mem_outside h.1
  exact of_not_mem_outside ((openBehind_eq_false_iff t).mp h.2)
    (fun hm => absurd (houtside _ hm) (by decide)) fun hm => absurd (houtside _ hm) (by decide)

theorem quoteValue (value : Text) : WellFormed (quoteValue value) :=
  .of_enclosed (isLiteral_quoteValue value).enclosed

theorem quoted (h : singleQuote ∉ t) : WellFormed (singleQuote :: t ++ [singleQuote]) := by
  refine .of_enclosed ((enclosed_iff t).mpr ?_)
  induction t using isPaired.induct with
  | case1 => rfl
  | case2 c =>
    have hc : c ≠ singleQuote := fun e => h (e ▸ List.mem_singleton_self c)
    simp [isPaired, hc]
  | case3 d rest _ => exact absurd List.mem_cons_self h
  | case4 c d rest hc ih =>
    rw [isPaired, if_neg hc]
    exact ih fun hm => h (List.mem_cons_of_mem _ hm)

theorem openBehind_eq (h : WellFormed t) : openBehind false t = false :=
  (openBehind_eq_false_iff t).mpr h.quotes

theorem outside_append (h : WellFormed s) (t : Text) :
    outside false (s ++ t) = outside false s ++ outside false t := by
  rw [Sql.outside_append, h.openBehind_eq]

theorem append (hs : WellFormed s) (ht : WellFormed t) : WellFormed (s ++ t) where
  quotes := by
    rw [List.count_append]
    exact hs.quotes.add ht.quotes
  prefixes := by
    intro u hu
    rcases List.prefix_or_prefix_of_prefix hu (List.prefix_append s t) with hus | ⟨v, rfl⟩
    · exact hs.prefixes u hus
    · have hv := ht.prefixes v ((List.prefix_append_right_inj s).mp hu)
      rw [hs.outside_append, List.count_append, List.count_append, hs.total]
      exact Nat.add_le_add_left hv _
  total := by rw [hs.outside_append, List.count_append, List.count_append, hs.total, ht.total]

theorem bracketed (h : WellFormed t) : WellFormed ('(' :: t ++ [')']) := by
  have hopen : ∀ u, outside false ('(' :: u) = '(' :: outside false u :=
    outside_cons_of_ne (by decide)
  have hall : outside false ('(' :: t ++ [')']) = '(' :: (outside false t ++ [')']) := by
    rw [List.cons_append, hopen, h.outside_append]
    rfl
  refine ⟨?_, fun u hu => ?_, ?_⟩
  · rw [List.count_append, List.count_cons_of_ne (by decide)]
    exact h.quotes
  · rw [List.cons_append] at hu
    rcases List.prefix_cons_iff.mp hu with rfl | ⟨v, rfl, hv⟩
    · exact Nat.zero_le _
    · rcases List.prefix_concat_iff.mp hv with rfl | hv
      · rw [← List.cons_append, hall]
        simp [h.total]
      · have := h.prefixes v hv
        rw [hopen, List.count_cons_self, List.count_cons_of_ne (by decide)]
        omega
  · rw [hall]
    simp [h.total]

theorem space_append (hs : WellFormed s) (ht : WellFormed t) : WellFormed (s ++ ' ' :: t) := by
  have hspace : WellFormed [' '] := .of_plain (.of_blanks (by decide))
  exact hs.append (hspace.append ht)

theorem joinSpaced {ts : List Text} (h : ∀ t ∈ ts, WellFormed t) : WellFormed (joinSpaced ts) := by
  induction ts with
  | nil => rw [joinSpaced_nil]; exact .nil
  | cons t ts ih =>
    obtain ⟨ht, hts⟩ := List.forall_mem_cons.mp h
    by_cases hne : ts = []
    · rw [hne, joinSpaced_singleton]
      exact ht
    · rw [joinSpaced_cons hne]
      exact ht.space_append (ih hts)

/-- Text without quotes and brackets may go from both ends. -/
theorem of_padded {l r : Text} (hl : Fragment.Plain l) (hr : Fragment.Plain r)
    (h : WellFormed (l ++ t ++ r)) : WellFormed t := by
  have hquotes : Even (t.count singleQuote) := by
    have := h.quotes
    rwa [List.count_append, List.count_append, count_quote_of_plain hl, count_quote_of_plain hr,
      Nat.zero_add, Nat.add_zero] at this
  rw [List.append_assoc] at h
  refine ⟨hquotes, fun s hs => ?_, ?_⟩
  · have := h.prefixes (l ++ s) ((List.prefix_append_right_inj l).mpr
      (hs.trans (List.prefix_append t r)))
    rwa [count_outside_plain_append hl (.inl rfl), count_outside_plain_append hl (.inr rfl)] at this
  · have htotal := h.total
    rw [count_outside_plain_append hl (.inl rfl), count_outside_plain_append hl (.inr rfl),
      Sql.outside_append, (openBehind_eq_false_iff t).mpr hquotes, outside_of_plain hr,
      List.count_append, List.count_append,
      List.count_eq_zero_of_not_mem hr.not_mem_open,
      List.count_eq_zero_of_not_mem hr.not_mem_close] at htotal
    exact htotal

theorem trim (h : WellFormed t) : WellFormed (trim t) := by
  obtain ⟨l, r, ht, hl, hr⟩ := exists_eq_append_dropEnds isBlank t
  exact of_padded (.of_blanks hl) (.of_blanks hr) (ht ▸ h)

end WellFormed

end Sql

end FilterClause
