import FilterClause.Proofs.Joining
import FilterClause.Proofs.LooseBrackets
import FilterClause.Proofs.WholeClauses

/-!
# Normal forms of bracketed clauses

A whole clause and the interior of a group take two ways through the cleaning: the one is trimmed
and cleaned at the first level, the other is kept with its blanks and cleaned one level further
down. The normal form of a clause between brackets is its own normal form between brackets all the
same (`cleanClauseWith_bracketed`).
-/

namespace FilterClause

open Text

/-- A clause that may stand between brackets: its own brackets balance outside its literals and
leave room for one more level, and neither a leading WHERE nor a row limit would be taken off it. -/
structure Enclosable (t : Text) : Prop where
  nested : Bracket.Nested (Cleaned.maxNesting - 1) (Lifted.items t)
  noLeadingWhere : Normal.stripLeadingWhere (trim t) = trim t
  noLimit : (RowLimit.detach t).2 = none

variable {t : Text}

namespace Enclosable

variable (options : Options) (h : Enclosable t)

include h

/-- One level more or less makes no difference. -/
theorem cleaned_levels :
    Fragment.cleaned options (Cleaned.maxNesting + 1) t =
      Fragment.cleaned options Cleaned.maxNesting t :=
  Cleaned.group_levels h.nested 1

theorem cleanClauseWith_eq :
    cleanClauseWith options t = (Fragment.cleaned options Cleaned.maxNesting t).text := by
  rw [cleanClauseWith_of_balanced options h.nested.balanced h.noLeadingWhere h.noLimit,
    h.cleaned_levels options]

end Enclosable

/-- Between brackets nothing is trimmed. -/
theorem trim_bracketed (t : Text) : trim ('(' :: (t ++ [')'])) = '(' :: (t ++ [')']) := by
  have hblank : isBlank '(' = false ∧ isBlank ')' = false := by decide
  have := dropEnds_padded (p := isBlank) (l := []) (t := '(' :: (t ++ [')'])) (r := []) nofun
    nofun (fun c hc => Option.some.inj hc ▸ hblank.1) fun c hc => by
      rw [← List.cons_append, List.getLast?_concat] at hc
      exact Option.some.inj hc ▸ hblank.2
  rwa [List.nil_append, List.append_nil] at this

/-- Between brackets nothing is stripped or detached either. -/
theorem cleanClauseWith_bracketed_eq (options : Options)
    (hb : Bracket.Balanced (Lifted.items t)) :
    cleanClauseWith options ('(' :: (t ++ [')'])) =
      (Fragment.cleaned options (Cleaned.maxNesting + 1) ('(' :: (t ++ [')']))).text := by
  have hbracketed : Bracket.Balanced (Lifted.items ('(' :: (t ++ [')']))) := by
    rw [Fragment.items_bracketed]
    exact .group hb .nil
  refine cleanClauseWith_of_balanced options hbracketed ?_ ?_
  · rw [trim_bracketed]
    rfl
  · rw [← List.cons_append]
    exact RowLimit.limit_of_last (RowLimit.isStop_of_mem_marks ')' (by decide)) _

/-- Brackets around a clause stand around its normal form. -/
theorem cleanClauseWith_bracketed (options : Options) (h : Enclosable t) :
    cleanClauseWith options ('(' :: (t ++ [')'])) =
      '(' :: cleanClauseWith options t ++ [')'] := by
  rw [cleanClauseWith_bracketed_eq options h.nested.balanced,
    Fragment.cleaned_bracketed options _ h.nested.balanced, h.cleanClauseWith_eq options]

/-- A clause with a subselect, a call, a bracket in a literal, a group, an unknown sign and a quote
that is left open. -/
theorem cleanClauseWith_bracketed_subselect :
    cleanClauseWith Options.standard
        ('(' :: ("Id From T Where a like '(O%' and f( b ,1) > 2 OR ( c # =\t3 ) \" ".toList ++
          [')'])) =
      '(' :: cleanClauseWith Options.standard
        "Id From T Where a like '(O%' and f( b ,1) > 2 OR ( c # =\t3 ) \" ".toList ++ [')'] :=
  cleanClauseWith_bracketed Options.standard
    { nested := by decide +kernel
      noLeadingWhere := by decide +kernel
      noLimit := by decide +kernel }

end FilterClause
