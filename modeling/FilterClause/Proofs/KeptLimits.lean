import FilterClause.Proofs.Endings
import FilterClause.Proofs.WholeClauses

/-!
# Row limits that are kept

A row limit that is detached from a clause is put back behind the cleaned body. As that never ends
in a blank, the limit is found there again, and with it the body, whatever the body holds. So a
clause in normal form has no blanks at its ends, with or without a limit.
-/

namespace FilterClause

open Text

namespace RowLimit

theorem Spelled.flush {limit : RowLimit} (h : limit.Spelled) : Flush limit.text := by
  obtain ⟨keyword, gap, digits, rfl, hkeyword, -⟩ := h
  cases keyword with
  | nil => cases hkeyword
  | cons c keyword =>
    have hletter : foldLetter c ∈ keywordLetters := by
      rw [(List.cons.inj hkeyword).1]
      decide
    exact .cons (isBlank_of_isWord (isWord_of_foldLetter hletter)) _

theorem Spelled.solid {limit : RowLimit} (h : limit.Spelled) : Solid limit.text := by
  obtain ⟨keyword, gap, digits, rfl, -, -, -, hne, hdigits⟩ := h
  exact (Solid.of_forall hne fun c hc => isBlank_of_isWordDigit (hdigits c hc)).append _

section Attach

variable {body : Text} {limit : Option RowLimit} (hl : ∀ l ∈ limit, l.Spelled)

include hl

theorem flush_attach (h : body = [] ∨ Flush body) :
    attach body limit = [] ∨ Flush (attach body limit) := by
  cases limit with
  | none => exact h
  | some l =>
    rw [attach]
    split
    · exact .inr (hl l rfl).flush
    · next hne => exact .inr ((h.resolve_left (by simpa using hne)).append _)

theorem solid_attach (h : body = [] ∨ Solid body) :
    attach body limit = [] ∨ Solid (attach body limit) := by
  cases limit with
  | none => exact h
  | some l =>
    rw [attach]
    split
    · exact .inr (hl l rfl).solid
    · exact .inr (((hl l rfl).solid.cons ' ').append _)

end Attach

end RowLimit

/-- A row limit is detached again from where it is put. -/
theorem RowLimit.detach_attach {body : Text} {limit : RowLimit} (hl : limit.Spelled)
    (hbody : body = [] ∨ Solid body) :
    detach (attach body (some limit)) = (body, some limit) := by
  rcases hbody with rfl | hsolid
  · have hnil : ∀ c ∈ ([] : Text).getLast?, isWord c = false := nofun
    exact detach_append_limit hl hnil
  · have hspace : ∀ c ∈ [' '], isBlank c = true := by decide
    have hword : ∀ c ∈ (body ++ [' ']).getLast?, isWord c = false := by
      intro c hc
      rw [List.getLast?_concat] at hc
      exact isWord_of_isBlank (hspace c (List.mem_singleton.mpr (Option.some.inj hc).symm))
    rw [attach, List.isEmpty_eq_false_iff.mpr hsolid.ne_nil, if_neg Bool.false_ne_true,
      List.append_cons, detach_append_limit hl hword, trimEnd, dropEnd_append_of_all body hspace,
      dropEnd_of_last hsolid.last]

/-- A clause in normal form is empty, or neither starts nor ends with a blank. -/
theorem cleanClauseWith_ends (options : Options) (raw : Text) :
    cleanClauseWith options raw = [] ∨
      Flush (cleanClauseWith options raw) ∧ Solid (cleanClauseWith options raw) := by
  obtain ⟨body, limit, hd⟩ : ∃ body limit,
      RowLimit.detach (Normal.stripLeadingWhere (trim raw)) = (body, limit) := ⟨_, _, rfl⟩
  have hl : ∀ l ∈ limit, l.Spelled := by
    rintro l rfl
    obtain ⟨-, -, -, -, hspelled, -, -⟩ := RowLimit.exists_of_detach hd
    exact hspelled
  rw [cleanClauseWith_of_detach options hd]
  rcases RowLimit.flush_attach hl (Cleaned.flush_clause (Fragment.literals body) options
    (Cleaned.group (Fragment.literals body) options Cleaned.maxNesting) (Lifted.items body)) with
    hnil | hflush
  · exact .inl hnil
  · exact (RowLimit.solid_attach hl (Cleaned.solid_clause (Fragment.literals body) options _
      (Lifted.items body))).imp id fun hsolid => ⟨hflush, hsolid⟩

/-- The row limit of a clause ends its normal form as it was written, alone or one space behind a
body that ends in no blank, and is detached from it again. -/
theorem cleanClauseWith_keeps_limit (options : Options) {raw rest : Text} {limit : RowLimit}
    (h : RowLimit.detach (Normal.stripLeadingWhere (trim raw)) = (rest, some limit)) :
    ∃ body : Text,
      (body = [] ∧ cleanClauseWith options raw = limit.text ∨
        Solid body ∧ cleanClauseWith options raw = body ++ ' ' :: limit.text) ∧
      RowLimit.detach (cleanClauseWith options raw) = (body, some limit) := by
  obtain ⟨-, -, -, -, hspelled, -, -⟩ := RowLimit.exists_of_detach h
  have hbody : (Fragment.cleaned options (Cleaned.maxNesting + 1) rest).text = [] ∨
      Solid (Fragment.cleaned options (Cleaned.maxNesting + 1) rest).text :=
    Cleaned.solid_clause _ options _ _
  rw [cleanClauseWith_of_detach options h]
  refine ⟨_, hbody.imp (fun hnil => ⟨hnil, ?_⟩) fun hsolid => ⟨hsolid, ?_⟩,
    RowLimit.detach_attach hspelled hbody⟩
  · rw [hnil, RowLimit.attach_nil]
  · rw [RowLimit.attach, List.isEmpty_eq_false_iff.mpr hsolid.ne_nil, if_neg Bool.false_ne_true]

/-- A limit behind text that reads like another one. -/
theorem cleanClauseWith_keeps_limit_behind_limit :
    ∃ body : Text,
      (body = [] ∧ cleanClauseWith Options.standard "where a = x LIMIT 5; \tLimit\n7 ".toList =
          "Limit\n7".toList ∨
        Solid body ∧ cleanClauseWith Options.standard "where a = x LIMIT 5; \tLimit\n7 ".toList =
          body ++ ' ' :: "Limit\n7".toList) ∧
      RowLimit.detach (cleanClauseWith Options.standard
        "where a = x LIMIT 5; \tLimit\n7 ".toList) = (body, some ⟨"Limit\n7".toList, some 7⟩) := by
  have h : RowLimit.detach
      (Normal.stripLeadingWhere (trim "where a = x LIMIT 5; \tLimit\n7 ".toList)) =
        ("a = x LIMIT 5;".toList, some ⟨"Limit\n7".toList, some 7⟩) := by
    decide +kernel
  exact cleanClauseWith_keeps_limit Options.standard h

end FilterClause
