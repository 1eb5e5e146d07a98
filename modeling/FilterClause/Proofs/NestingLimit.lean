import FilterClause.Proofs.Bracketing
import FilterClause.Proofs.Warnings

/-!
# The limit of nesting

A clause without calls and subselects is found too deep exactly if it holds one pair of brackets
more, each inside the one before, than there are levels (`Cleaned.tooDeep_group_iff`). Towers of
brackets show both sides of the limit: a low one is cleaned to a tower around the cleaned interior,
a high one is kept as it is written.
-/

namespace FilterClause

open Text FilterClause.Bracket

/-! ## Groups where nothing is a call -/

namespace Piece

theorem filterMap_interior?_ofRun (back : Text) : (ofRun back).filterMap interior? = [] := by
  unfold ofRun
  split <;> rfl

/-- Where no pair is a call, the groups of the pieces are the outermost groups. -/
theorem interiors_of_callFree {items : List Item} (h : CallFree false items) :
    (ofItems items).filterMap interior? = (groups items).filterMap Sum.getRight? := by
  have key : ∀ items : List Item, ∀ back : Text, CallFree (back.head?.any Text.isName) items →
      (behindRun back (groups items)).filterMap interior? =
        (groups items).filterMap Sum.getRight? := by
    intro items
    induction items using pair_induction with
    | nil =>
      intro back _
      rw [groups_nil, behindRun, filterMap_interior?_ofRun]
      rfl
    | item i rest hopen ih =>
      intro back h
      rw [groups_cons_item hopen]
      cases i with
      | char c => exact ih (c :: back) h.2
      | literal index =>
        rw [behindRun, List.filterMap_append, filterMap_interior?_ofRun]
        exact ih [] h.2
    | loose rest hp ih =>
      intro back h
      rw [groups_loose hp]
      exact ih ('(' :: back) h.2
    | group inside rest hb ih =>
      intro back h
      have hname : back.head?.any Text.isName = false :=
        Bool.of_not_eq_true fun hn => h.1 hn rfl ⟨inside, rest, rfl, hb⟩
      have htake : back.takeWhile Text.isName = [] := by
        refine Text.takeWhile_of_head fun c hc => ?_
        rw [Option.mem_def.mp hc] at hname
        exact hname
      rw [groups_group hb, behindRun, htake, List.filterMap_append, filterMap_interior?_ofRun]
      exact congrArg (inside :: ·) (ih [] (h.2.of_append.2.2))
  exact key items [] h

theorem mem_interiors_iff {items interior : List Item} (h : CallFree false items) :
    interior ∈ (ofItems items).filterMap interior? ↔ .inr interior ∈ groups items := by
  rw [interiors_of_callFree h, List.mem_filterMap]
  constructor
  · rintro ⟨g, hg, hright⟩
    rwa [Sum.getRight?_eq_some_iff.mp hright] at hg
  · exact fun hg => ⟨_, hg, rfl⟩

end Piece

/-- A group is a part of the items. -/
theorem Bracket.infix_of_mem_groups {items interior : List Item}
    (h : .inr interior ∈ groups items) : interior <:+: items := by
  obtain ⟨before, after, rfl⟩ := exists_pair_of_group h
  exact ⟨before ++ [.char '('], .char ')' :: after, by simp⟩

/-! ## Clauses that are too deep -/

/-- Without calls and subselects, items are too deep exactly if they hold as many pairs, each inside
the one before, as levels are left. -/
theorem Cleaned.tooDeep_group_iff (literals : List Text) (options : Options) (levels : Nat)
    {items : List Item} (hcalls : CallFree false items) (hwhere : Subselect.LacksWhere items) :
    (group literals options levels items).tooDeep = true ↔ Deep levels items := by
  induction levels generalizing items with
  | zero => exact iff_of_true rfl trivial
  | succ levels ih =>
    have huncut := Subselect.split_of_whereFree (hwhere.whereFree false)
    have hinside : ∀ interior, .inr interior ∈ groups items →
        ((group literals options levels interior).tooDeep = true ↔ Deep levels interior) := by
      intro interior hi
      have hpart := infix_of_mem_groups hi
      exact ih (hcalls.of_part hpart) (hwhere.of_part hpart)
    rw [group, clause_of_uncut _ _ _ huncut, predicate_eq, deep_succ_iff]
    constructor
    · intro h
      obtain ⟨cleaned, hc, hdeep⟩ := List.any_eq_true.mp h
      obtain ⟨interior, hi, rfl⟩ := List.mem_map.mp hc
      have hgroup := (Piece.mem_interiors_iff hcalls).mp hi
      exact ⟨interior, hgroup, (hinside interior hgroup).mp hdeep⟩
    · rintro ⟨interior, hi, hdeep⟩
      have hmem := (Piece.mem_interiors_iff hcalls).mpr hi
      exact List.any_eq_true.mpr
        ⟨_, List.mem_map_of_mem hmem, (hinside interior hi).mpr hdeep⟩

/-- The body of a clause is a part of its items, and as deep as they are. -/
theorem Normal.exists_items_eq (raw : Text) :
    ∃ front back : Text, Fragment.Plain front ∧ Fragment.Plain back ∧
      Lifted.items raw = front.map .char ++ (body raw ++ back.map .char) := by
  have hdetached : RowLimit.detach (stripLeadingWhere (trim raw)) =
      ((detached raw).1, (detached raw).2) := rfl
  obtain ⟨front, back, hraw, hfront, hback⟩ := exists_eq_of_detach hdetached
  refine ⟨front, back, hfront, hback, ?_⟩
  conv_lhs => rw [hraw]
  exact Fragment.items_padded hfront hback _

/-- Without calls and subselects, a clause is told to be too deep exactly if it holds one pair more
than there are levels, each inside the one before. -/
theorem tooDeep_mem_issues_iff (r : Request) (hcalls : CallFree false (Lifted.items r.clause))
    (hwhere : Subselect.LacksWhere (Lifted.items r.clause)) :
    Issue.tooDeep ∈ (clean r).issues ↔ Deep (Cleaned.maxNesting + 1) (Lifted.items r.clause) := by
  obtain ⟨front, back, hfront, hback, hitems⟩ := Normal.exists_items_eq r.clause
  have hpart : Normal.body r.clause <:+: Lifted.items r.clause :=
    ⟨front.map .char, back.map .char, by rw [hitems, List.append_assoc]⟩
  have hdeep : Deep (Cleaned.maxNesting + 1) (Lifted.items r.clause) ↔
      Deep (Cleaned.maxNesting + 1) (Normal.body r.clause) := by
    refine ⟨fun h => ?_, fun h => h.of_part hpart⟩
    rw [hitems] at h
    exact h.of_padded hfront.not_bracket hback.not_bracket
  rw [tooDeep_mem_issues, hdeep]
  simp only [Request.normal, Normal.ofText_eq, Fragment.cleaned]
  exact Cleaned.tooDeep_group_iff (Fragment.literals (Normal.detached r.clause).1)
    r.chosenOptions.1 (Cleaned.maxNesting + 1) (hcalls.of_part hpart) (hwhere.of_part hpart)

/-! ## Towers of brackets -/

theorem Bracket.nested_of_no_brackets {depth : Nat} {items : List Item}
    (h : ∀ i ∈ items, i ≠ .char '(' ∧ i ≠ .char ')') : Nested depth items := by
  induction items with
  | nil => exact .nil
  | cons i rest ih =>
    obtain ⟨hi, hrest⟩ := List.forall_mem_cons.mp h
    exact .item hi.1 hi.2 (ih hrest)

/-- A text between so many pairs of brackets. -/
def tower : Nat → Text → Text
  | 0, t => t
  | height + 1, t => '(' :: (tower height t ++ [')'])

namespace Fragment

theorem balanced_tower {t : Text} (h : Balanced (Lifted.items t)) (height : Nat) :
    Balanced (Lifted.items (tower height t)) := by
  induction height with
  | zero => exact h
  | succ height ih =>
    rw [tower, items_bracketed]
    exact .group ih .nil

/-- A tower within the levels that are left is cleaned to one around the cleaned interior. -/
theorem cleaned_tower (options : Options) {t : Text} (h : Balanced (Lifted.items t))
    (height levels : Nat) :
    (cleaned options (levels + height) (tower height t)).text =
      tower height (cleaned options levels t).text := by
  induction height with
  | zero => rfl
  | succ height ih =>
    rw [← Nat.add_assoc, tower, cleaned_bracketed options _ (balanced_tower h height), ih]
    rfl

end Fragment

theorem tower_add (m n : Nat) (t : Text) : tower (m + n) t = tower m (tower n t) := by
  induction m with
  | zero => rw [Nat.zero_add, tower]
  | succ m ih => rw [Nat.add_right_comm, tower, tower, ih]

/-- A tower is what it looks like. -/
theorem tower_eq (height : Nat) (t : Text) :
    tower height t = List.replicate height '(' ++ t ++ List.replicate height ')' := by
  induction height with
  | zero => simp [tower]
  | succ height ih =>
    rw [tower, ih, List.replicate_succ, List.replicate_succ']
    simp

theorem plain_tower {t : Text} (h : ∀ c ∈ t, Lifted.isQuote c = false) (height : Nat) :
    ∀ c ∈ tower height t, Lifted.isQuote c = false := by
  have hmarks : Lifted.isQuote '(' = false ∧ Lifted.isQuote ')' = false := by decide
  intro c hc
  rw [tower_eq, List.mem_append, List.mem_append, List.mem_replicate, List.mem_replicate] at hc
  rcases hc with (⟨-, rfl⟩ | hc) | ⟨-, rfl⟩
  · exact hmarks.1
  · exact h c hc
  · exact hmarks.2

/-- Without quotes, a text for which no level is left is trimmed. -/
theorem Fragment.cleaned_zero (options : Options) {t : Text}
    (h : ∀ c ∈ t, Lifted.isQuote c = false) : (cleaned options 0 t).text = trim t := by
  rw [cleaned, Cleaned.group, Lifted.items_of_no_quotes h, Item.renderAll_map_char]

/-- Of a text without brackets, the number of levels that are left is not noticed. -/
theorem Fragment.cleaned_succ (options : Options) {t : Text} (h : Nested 0 (Lifted.items t))
    (levels : Nat) : cleaned options (levels + 1) t = cleaned options 1 t := by
  have hsame : Cleaned.group (Fragment.literals t) options (0 + 1 + levels) (Lifted.items t) =
      Cleaned.group (Fragment.literals t) options (0 + 1) (Lifted.items t) :=
    Cleaned.group_levels h levels
  rwa [Nat.zero_add, Nat.add_comm 1] at hsame

section Tower

variable (options : Options) {t : Text} (hplain : Fragment.Plain t)

include hplain

theorem Fragment.Plain.balanced_items : Balanced (Lifted.items t) :=
  Lifted.items_of_no_quotes hplain.not_quote ▸ hplain.balanced

/-- A tower above the limit keeps the whole interior of the last level. -/
theorem cleanClauseWith_tower_above (n : Nat) :
    cleanClauseWith options (tower (Cleaned.maxNesting + 1 + n) t) =
      tower (Cleaned.maxNesting + 1) (trim (tower n t)) := by
  have hinside := Fragment.balanced_tower hplain.balanced_items n
  have hbody := Fragment.balanced_tower hinside Cleaned.maxNesting
  have hclean := Fragment.cleaned_tower options hinside (Cleaned.maxNesting + 1) 0
  rw [Nat.zero_add, Fragment.cleaned_zero options (plain_tower hplain.not_quote n)] at hclean
  rw [tower_add, ← hclean, tower, cleanClauseWith_bracketed_eq options hbody]

variable (hwhere : Subselect.LacksWhere (t.map .char)) (hlimit : (RowLimit.detach t).2 = none)

include hwhere hlimit

/-- A tower within the limit is cleaned inside. -/
theorem cleanClauseWith_tower_within {height : Nat} (hle : height ≤ Cleaned.maxNesting) :
    cleanClauseWith options (tower height t) = tower height (cleanClauseWith options t) := by
  have hitems := Lifted.items_of_no_quotes hplain.not_quote
  cases height with
  | zero => rfl
  | succ n =>
    have hnested : Nested 0 (Lifted.items t) := hitems ▸ nested_of_no_brackets hplain.not_bracket
    have hstrip : Normal.stripLeadingWhere (trim t) = trim t :=
      Normal.stripLeadingWhere_of_lacksWhere (hitems.symm ▸ hwhere)
    obtain ⟨levels, hlevels⟩ : ∃ levels, levels + 1 + (n + 1) = Cleaned.maxNesting + 1 :=
      ⟨Cleaned.maxNesting - (n + 1), by omega⟩
    have hcleaned := Fragment.cleaned_tower options hplain.balanced_items (n + 1) (levels + 1)
    rw [hlevels, tower] at hcleaned
    rw [cleanClauseWith_of_balanced options hplain.balanced_items hstrip hlimit, tower,
      cleanClauseWith_bracketed_eq options (Fragment.balanced_tower hplain.balanced_items n),
      hcleaned, Fragment.cleaned_succ options hnested levels,
      Fragment.cleaned_succ options hnested Cleaned.maxNesting]

/-- Towers up to the limit are cleaned inside. Higher ones stay as they are written, but for the
blanks around the interior of a tower that is higher by one. -/
theorem cleanClauseWith_tower (height : Nat) :
    (height ≤ Cleaned.maxNesting →
        cleanClauseWith options (tower height t) = tower height (cleanClauseWith options t)) ∧
      cleanClauseWith options (tower (Cleaned.maxNesting + 1) t) =
        tower (Cleaned.maxNesting + 1) (trim t) ∧
      (Cleaned.maxNesting + 1 < height →
        cleanClauseWith options (tower height t) = tower height t) := by
  refine ⟨cleanClauseWith_tower_within options hplain hwhere hlimit,
    cleanClauseWith_tower_above options hplain 0, fun hlt => ?_⟩
  obtain ⟨n, rfl⟩ : ∃ n, height = Cleaned.maxNesting + 1 + (n + 1) :=
    ⟨height - Cleaned.maxNesting - 2, by omega⟩
  have htrim : trim (tower (n + 1) t) = tower (n + 1) t := trim_bracketed _
  rw [cleanClauseWith_tower_above options hplain, htrim]
  exact (tower_add _ _ t).symm

end Tower

end FilterClause
