import FilterClause.Proofs.Joining
import FilterClause.Proofs.WholeClauses

/-!
# Normal forms of joined clauses

Two clauses that read as clauses of their own are joined by AND or OR. The normal form of the
joined clause is the two normal forms with the connective between them (`cleanClauseWith_join`).
-/

namespace FilterClause

open Text

/-- A clause that may stand on either side of a connective: no quote is left open, every bracket has
a partner, the letters of WHERE stand nowhere outside the literals, and no row limit ends it. -/
structure Operand (t : Text) : Prop where
  noStrayQuote : (Lifted.ofText t).hasStrayQuote = false
  balanced : Bracket.Balanced (Lifted.items t)
  lacksWhere : Subselect.LacksWhere (Lifted.items t)
  noLimit : (RowLimit.detach t).2 = none

namespace Operand

theorem fragment {t : Text} (h : Operand t) : Fragment t :=
  ⟨(Lifted.hasStrayQuote_eq_false_iff t).mp h.noStrayQuote, h.balanced, h.lacksWhere.whereFree _⟩

/-- An operand is cleaned as a fragment. -/
theorem cleanClauseWith_eq (options : Options) {t : Text} (h : Operand t) :
    cleanClauseWith options t =
      (Fragment.cleaned options (Cleaned.maxNesting + 1) t).text :=
  cleanClauseWith_of_balanced options h.balanced
    (Normal.stripLeadingWhere_of_lacksWhere h.lacksWhere) h.noLimit

end Operand

/-! ## Joined clauses -/

section Join

variable {x y k b₁ b₂ : Text} {conn : Connective}

theorem Operand.join (hx : Operand x) (hy : Operand y) (hk : sameIgnoringCase k conn.text = true)
    (h₁ : ∀ b ∈ b₁, isBlank b = true) (hne₁ : b₁ ≠ []) (h₂ : ∀ b ∈ b₂, isBlank b = true)
    (hne₂ : b₂ ≠ []) (hys : Fragment.Starts y) : Operand (x ++ b₁ ++ k ++ b₂ ++ y) := by
  have hz := Fragment.join hx.fragment hy.fragment hk h₁ hne₁ h₂ hne₂
  refine ⟨(Lifted.hasStrayQuote_eq_false_iff _).mpr hz.closed, hz.balanced, ?_, ?_⟩
  · have hk' := Fragment.of_connective hk
    have hshort : Subselect.LacksWhere (Lifted.items k) := by
      rw [Lifted.items_of_no_quotes (Fragment.plain_connective hk).not_quote]
      refine Subselect.lacksWhere_of_length_lt ?_
      rw [List.length_map]
      exact Nat.lt_succ_of_lt (Connective.length_of_spelling hk).2
    exact Fragment.lacksWhere_append_blanks h₂ hne₂
      (Fragment.append_blanks h₁ hne₁ hx.fragment hk').closed
      (Fragment.lacksWhere_append_blanks h₁ hne₁ hx.fragment.closed hx.lacksWhere hshort)
      hy.lacksWhere
  · rcases List.eq_nil_or_concat b₂ with rfl | ⟨bs, b, rfl⟩
    · exact absurd rfl hne₂
    · rw [List.concat_eq_append, ← List.append_assoc, List.append_assoc (_ ++ bs),
        List.singleton_append, RowLimit.limit_append (h₂ b (by simp)) hys.exists_stop]
      exact hy.noLimit

/-- A connective behind a complete condition and before the start of another one: each side is
cleaned as if it stood alone. -/
theorem cleanClauseWith_join (options : Options) (hx : Operand x) (hy : Operand y)
    (hxs : Fragment.Complete x) (hys : Fragment.Starts y)
    (hk : sameIgnoringCase k conn.text = true)
    (h₁ : ∀ b ∈ b₁, isBlank b = true) (hne₁ : b₁ ≠ [])
    (h₂ : ∀ b ∈ b₂, isBlank b = true) (hne₂ : b₂ ≠ []) :
    cleanClauseWith options (x ++ b₁ ++ k ++ b₂ ++ y) =
      cleanClauseWith options x ++ ' ' :: conn.text ++ ' ' :: cleanClauseWith options y := by
  rw [(hx.join hy hk h₁ hne₁ h₂ hne₂ hys).cleanClauseWith_eq, hx.cleanClauseWith_eq,
    hy.cleanClauseWith_eq,
    Fragment.cleaned_join options _ hx.fragment hy.fragment hk h₁ hne₁ h₂ hne₂ hxs hys]

end Join

/-- A group with a literal in it, joined to a comparison without a gap. -/
theorem cleanClauseWith_join_group :
    cleanClauseWith Options.standard
        ("(A='x')".toList ++ [' '] ++ "Or".toList ++ ['\n', ' '] ++ "B>=2".toList) =
      cleanClauseWith Options.standard "(A='x')".toList ++ ' ' :: Connective.text .or ++
        ' ' :: cleanClauseWith Options.standard "B>=2".toList :=
  cleanClauseWith_join Options.standard
    { noStrayQuote := by decide +kernel
      balanced := .group (.item (by decide) (by decide) (.item (by decide) (by decide)
        (.item (by decide) (by decide) .nil))) .nil
      lacksWhere := by decide +kernel
      noLimit := by decide +kernel }
    { noStrayQuote := by decide +kernel
      balanced := Bracket.balanced_of_no_brackets (by decide +kernel)
      lacksWhere := by decide +kernel
      noLimit := by decide +kernel }
    (by decide +kernel) (by decide +kernel) (by decide +kernel) (by decide) (by decide)
    (by decide) (by decide)

end FilterClause
