import FilterClause.Proofs.BracketPairs
import FilterClause.Proofs.Containment

/-!
# Warnings about brackets

Which warnings a result carries is told by its clause alone. A bracket without a partner is seen
only behind the last WHERE that a clause is cut at: what stands before it is kept without being
looked at, and what stands in a group balances anyway. So the warning is never wrong, and it is
missed exactly if no bracket but one of a lead has no partner (`looseBracket_mem_issues_iff`).
-/

namespace FilterClause

open Text FilterClause.Bracket

/-! ## Warnings of a result -/

section Issues

variable (r : Request)

/-- The normal form that a request asks for. -/
def Request.normal : Normal := Normal.ofText r.chosenOptions.1 r.clause

/-- A warning is told exactly if it is a warning about the clause. -/
theorem mem_issues_iff {issue : Issue} (h : issue.severity = .warning) :
    issue ∈ (clean r).issues ↔ issue ∈ r.normal.warnings := by
  have herror : ∀ e ∈ r.chosenOptions.2, e.severity = .error := by
    unfold Request.chosenOptions
    split
    · simp
    · split
      · simp
      · intro e he
        rw [List.mem_singleton.mp he]
        rfl
  constructor
  · intro hm
    rcases List.mem_append.mp hm with hm | hm
    · have hsame := herror issue hm
      rw [h] at hsame
      simp at hsame
    · exact hm
  · intro hm
    exact List.mem_append_right _ hm

theorem looseBracket_mem_issues : Issue.looseBracket ∈ (clean r).issues ↔
    r.normal.looseBracket = true := by
  have hdistinct : Issue.looseBracket ≠ Issue.strayQuote ∧ Issue.looseBracket ≠ Issue.tooDeep := by
    decide
  rw [mem_issues_iff r rfl]
  cases hs : r.normal.strayQuote <;> cases hl : r.normal.looseBracket <;>
    cases hd : r.normal.tooDeep <;> simp [Normal.warnings, hs, hl, hd, hdistinct]

theorem tooDeep_mem_issues : Issue.tooDeep ∈ (clean r).issues ↔ r.normal.tooDeep = true := by
  have hdistinct : Issue.tooDeep ≠ Issue.strayQuote ∧ Issue.tooDeep ≠ Issue.looseBracket := by
    decide
  rw [mem_issues_iff r rfl]
  cases hs : r.normal.strayQuote <;> cases hl : r.normal.looseBracket <;>
    cases hd : r.normal.tooDeep <;> simp [Normal.warnings, hs, hl, hd, hdistinct]

end Issues

/-! ## Cuts -/

namespace Subselect

/-- The leads and what stands behind them are the whole clause. -/
theorem flatten_split (items : List Item) : (split items).1.flatten ++ (split items).2 = items := by
  induction items using split_induction with
  | uncut items hn =>
    rw [split_of_none hn]
    rfl
  | cut items n hn ih =>
    rw [split_of_some hn, List.flatten_cons, List.append_assoc, ih, List.take_append_drop]

/-- A clause balances exactly if its leads and what stands behind them do. -/
theorem balanced_iff_split {items : List Item} :
    Balanced items ↔ (∀ lead ∈ (split items).1, Balanced lead) ∧ Balanced (split items).2 := by
  refine ⟨balanced_split, fun ⟨hleads, hrest⟩ => ?_⟩
  have hjoined : ∀ leads : List (List Item), (∀ lead ∈ leads, Balanced lead) →
      Balanced leads.flatten := by
    intro leads
    induction leads with
    | nil => exact fun _ => .nil
    | cons lead leads ih =>
      intro h
      obtain ⟨hlead, hrest⟩ := List.forall_mem_cons.mp h
      exact hlead.append (ih hrest)
  have hwhole := (hjoined _ hleads).append hrest
  rwa [flatten_split] at hwhole

end Subselect

/-! ## Brackets without partners -/

namespace Cleaned

variable (literals : List Text) (options : Options)

/-- In balanced items nothing loose is found at any level. -/
theorem not_looseBracket_group {items : List Item} (h : Balanced items) (levels : Nat) :
    (group literals options levels items).looseBracket = false := by
  induction levels generalizing items with
  | zero => rfl
  | succ levels ih =>
    have hrest := (Subselect.balanced_split h).2
    show (predicate literals options (group literals options levels)
      (Subselect.split items).2).looseBracket = false
    rw [predicate_eq, Piece.not_hasLooseBracket_of_balanced hrest, Bool.false_or, List.any_eq_false]
    intro cleaned hc
    obtain ⟨interior, hi, rfl⟩ := List.mem_map.mp hc
    rw [ih (balanced_of_mem_groups (Piece.mem_groups_of_interior hi))]
    exact Bool.false_ne_true

/-- A clause is found loose by the items behind its leads. -/
theorem looseBracket_group_iff (levels : Nat) (items : List Item) :
    (group literals options (levels + 1) items).looseBracket = true ↔
      ¬ Balanced (Subselect.split items).2 := by
  constructor
  · intro h hb
    have hnone := not_looseBracket_group literals options hb (levels + 1)
    have hsame : (predicate literals options (group literals options levels)
        (Subselect.split items).2).looseBracket = true := h
    rw [predicate_eq, Piece.not_hasLooseBracket_of_balanced hb, Bool.false_or,
      List.any_eq_true] at hsame
    obtain ⟨cleaned, hc, hloose⟩ := hsame
    obtain ⟨interior, hi, rfl⟩ := List.mem_map.mp hc
    rw [not_looseBracket_group literals options
      (balanced_of_mem_groups (Piece.mem_groups_of_interior hi))] at hloose
    exact Bool.false_ne_true hloose
  · intro h
    have hloose : (Piece.ofItems (Subselect.split items).2).any Piece.hasLooseBracket = true :=
      Bool.of_not_eq_false fun hf => h (Piece.not_hasLooseBracket_iff.mp hf)
    show (predicate literals options (group literals options levels)
      (Subselect.split items).2).looseBracket = true
    rw [predicate_eq, hloose, Bool.true_or]

end Cleaned

/-- The items of a clause without its row limit. -/
def Normal.body (raw : Text) : List Item := Lifted.items (detached raw).1

/-- The warning about loose brackets is told exactly if the items behind the last cut do not
balance. That is exactly if the clause does not balance, unless there are brackets without partners
but all of them stand before a cut. -/
theorem looseBracket_mem_issues_iff (r : Request) :
    (Issue.looseBracket ∈ (clean r).issues ↔
        ¬ Balanced (Subselect.split (Normal.body r.clause)).2) ∧
      ((Issue.looseBracket ∈ (clean r).issues ↔ ¬ Balanced (Normal.body r.clause)) ↔
        (∀ lead ∈ (Subselect.split (Normal.body r.clause)).1, Balanced lead) ∨
          ¬ Balanced (Subselect.split (Normal.body r.clause)).2) := by
  have htold : Issue.looseBracket ∈ (clean r).issues ↔
      ¬ Balanced (Subselect.split (Normal.body r.clause)).2 := by
    rw [looseBracket_mem_issues]
    simp only [Request.normal, Normal.ofText_eq, Fragment.cleaned]
    exact Cleaned.looseBracket_group_iff (Fragment.literals (Normal.detached r.clause).1)
      r.chosenOptions.1 Cleaned.maxNesting (Normal.body r.clause)
  have hparts : Balanced (Normal.body r.clause) ↔ _ := Subselect.balanced_iff_split
  refine ⟨htold, ?_⟩
  by_cases hrest : Balanced (Subselect.split (Normal.body r.clause)).2
  · rw [and_iff_left hrest] at hparts
    rw [htold, hparts]
    simp [hrest]
  · have hwhole : ¬ Balanced (Normal.body r.clause) := fun h => hrest (hparts.mp h).2
    rw [htold]
    simp [hrest, hwhole]

/-- The closing bracket stands before a cut. -/
theorem clean_misses_loose_bracket :
    (clean ⟨"A) WHERE B = 1".toList, none, none⟩).issues = [] ∧
      ¬ Balanced (Normal.body "A) WHERE B = 1".toList) := by
  decide +kernel

end FilterClause
