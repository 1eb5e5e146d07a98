import FilterClause.Proofs.Joining
import FilterClause.Proofs.LooseWords

/-!
# Comparisons of loosely written clauses

A loosely written comparison has the lexemes of its column, its operator and its value, however it
is spaced. From them it is cleaned to its normal form.
-/

namespace FilterClause

open Text

/-! ## Values -/

namespace Comparand

theorem plain_wordsText (rest : List (Gap × Word)) : Fragment.Plain (wordsText rest) := by
  induction rest with
  | nil => exact nofun
  | cons x rest ih =>
    obtain ⟨gap, word⟩ := x
    exact ((Fragment.Plain.of_blanks gap.blank).append (.of_isWordPart word.isWordPart)).append ih

theorem head_wordsText (rest : List (Gap × Word)) :
    ∀ c ∈ (wordsText rest).head?, Token.isWordPart c = false ∧ c ≠ '(' := by
  cases rest with
  | nil => exact nofun
  | cons x rest =>
    obtain ⟨gap, word⟩ := x
    obtain ⟨b, bs, hgap, hb⟩ := gap.exists_cons
    intro c hc
    rw [wordsText, hgap] at hc
    obtain rfl : b = c := Option.some.inj hc
    exact ⟨isWordPart_of_isBlank hb, ne_of_isBlank hb (by decide)⟩

theorem ofText_wordsText (rest : List (Gap × Word)) :
    Lexeme.ofText (wordsText rest) = rest.map fun x => .word x.2.text := by
  induction rest with
  | nil => rfl
  | cons x rest ih =>
    obtain ⟨gap, word⟩ := x
    rw [wordsText, List.append_assoc, Lexeme.ofText_blanks_append gap.blank,
      word.ofText_append (head_wordsText rest), ih, List.map_cons]

/-- The lexemes of a value. -/
def lexemes : Comparand → List Lexeme
  | .words first rest => .word first.text :: rest.map fun x => .word x.2.text
  | .literal _ content _ => [.literal content]

end Comparand

/-! ## Lexemes of a comparison -/

theorem Comparand.whereFree_append (rest : List (Gap × Word)) {inName : Bool} {xs : List Item}
    (hx : Subselect.WhereFree inName xs) :
    Subselect.WhereFree inName (xs ++ (wordsText rest).map .char) := by
  induction rest generalizing inName xs with
  | nil => exact (List.append_nil xs).symm ▸ hx
  | cons x rest ih =>
    obtain ⟨gap, word⟩ := x
    have hgap : ∀ i ∈ gap.text.map Item.char, i.isName = false := by
      intro i hi
      obtain ⟨b, hb, rfl⟩ := List.mem_map.mp hi
      exact isName_of_isBlank (gap.blank b hb)
    rw [wordsText, List.map_append, List.map_append, List.append_assoc]
    exact Subselect.WhereFree.append_separator hgap
      (fun e => gap.nonempty (List.map_eq_nil_iff.mp e)) hx (ih word.whereFree)

namespace LooseCondition

open Fragment

variable {options : Options} (c : LooseCondition options)

theorem plain_front : Plain (c.column.text ++ c.comparator.text) :=
  c.column.toColumn.plain_front c.comparator

theorem ofText_front {rest : Text} (h : rest.head? ≠ some '=') :
    Lexeme.ofText (c.column.text ++ c.comparator.text ++ rest) =
      .word c.column.text :: .operator c.comparator.operator :: Lexeme.ofText rest :=
  c.column.toColumn.ofText_front c.comparator h

theorem head_word (w : Word) (rest : Text) : (w.text ++ rest).head? ≠ some '=' := by
  obtain ⟨d, t, ht⟩ := List.exists_cons_of_ne_nil w.nonempty
  rw [ht]
  intro e
  obtain rfl : d = '=' := Option.some.inj e
  exact absurd (w.signs '=' (ht ▸ List.mem_cons_self)) (by decide)

/-- The lexemes of a comparison, however it is spaced. -/
theorem lexemes_text (o : Options) (levels : Nat) :
    lexemes o levels c.text =
      .word c.column.text :: .operator c.comparator.operator :: c.value.lexemes := by
  unfold text
  cases hv : c.value with
  | words first rest =>
    have hplain : Plain (c.column.text ++ c.comparator.text ++
        (first.text ++ Comparand.wordsText rest)) :=
      c.plain_front.append
        ((Plain.of_isWordPart first.isWordPart).append (Comparand.plain_wordsText rest))
    have hhead : ∀ d ∈ (Comparand.wordsText rest).head?, Token.isWordPart d = false ∧ d ≠ '(' :=
      Comparand.head_wordsText rest
    rw [Comparand.text, lexemes_of_plain o levels hplain, c.ofText_front (head_word first _),
      first.ofText_append hhead, Comparand.ofText_wordsText]
    rfl
  | literal q content closed =>
    exact c.column.toColumn.lexemes_literal c.comparator o levels q closed

theorem groups_text (o : Options) (levels : Nat) : groups o levels c.text = [] := by
  unfold text
  cases hv : c.value with
  | words first rest =>
    exact groups_of_plain o levels (c.plain_front.append
      ((Plain.of_isWordPart first.isWordPart).append (Comparand.plain_wordsText rest)))
  | literal q content closed =>
    exact c.column.toColumn.groups_literal c.comparator o levels q closed

theorem fragment : Fragment c.text := by
  unfold text
  cases hv : c.value with
  | words first rest =>
    have hplain := c.plain_front.append
      ((Plain.of_isWordPart first.isWordPart).append (Comparand.plain_wordsText rest))
    have hitems := Lifted.items_of_no_quotes hplain.not_quote
    refine ⟨Lifted.closed_of_no_quotes hplain.not_quote, ?_, ?_⟩
    · rw [Comparand.text, hitems]
      exact hplain.balanced
    · rw [Comparand.text, hitems, List.map_append, List.map_append, List.map_append,
        List.append_assoc]
      exact c.comparator.whereFree_append c.column.whereFree
        (Comparand.whereFree_append rest first.whereFree)
  | literal q content closed => exact c.column.toColumn.fragment_literal c.comparator q closed

end LooseCondition

end FilterClause
