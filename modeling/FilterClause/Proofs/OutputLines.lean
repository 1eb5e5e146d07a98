import FilterClause.Proofs.Errors
import FilterClause.Proofs.KeptLimits
import FilterClause.Proofs.Provenance

/-!
# Lines of output

Text output answers line by line: as no normal form of a line holds a line feed, the lines of the
output are the normal forms of the lines of the input that hold something, one for each and in
order (`Run.text_answers`).
-/

namespace FilterClause

open Text

/-! ## Lines -/

namespace Text

/-- Whether a line holds more than blanks. -/
def filled (line : Text) : Bool := !(trim line).isEmpty

/-- What stands between the line feeds of a text and is not blank. -/
def filledLines (t : Text) : List Text := (split '\n' t).filter filled

/-- Lines as a text, each with a line feed behind it. -/
def unlines (ls : List Text) : Text := ls.flatMap (· ++ ['\n'])

theorem split_unlines {ls : List Text} (h : ∀ l ∈ ls, '\n' ∉ l) :
    split '\n' (unlines ls) = ls ++ [[]] := by
  induction ls with
  | nil => rfl
  | cons l ls ih =>
    obtain ⟨hl, hls⟩ := List.forall_mem_cons.mp h
    rw [unlines, List.flatMap_cons, List.append_assoc, List.singleton_append,
      split_append_cons hl, List.cons_append]
    exact congrArg (l :: ·) (ih hls)

theorem ofPieces_cons {pieces : List Text} (h : pieces ≠ []) (piece : Text) :
    lines.ofPieces (piece :: pieces) =
      (if piece.getLast? = some '\r' then piece.dropLast else piece) :: lines.ofPieces pieces := by
  cases pieces with
  | nil => exact absurd rfl h
  | cons next pieces => rfl

/-- Lines that end in no carriage return are read back. -/
theorem lines_unlines {ls : List Text} (h : ∀ l ∈ ls, '\n' ∉ l)
    (hreturn : ∀ l ∈ ls, l.getLast? ≠ some '\r') : (unlines ls).lines = ls := by
  rw [lines, split_unlines h]
  induction ls with
  | nil => rfl
  | cons l ls ih =>
    obtain ⟨hl, hls⟩ := List.forall_mem_cons.mp hreturn
    rw [List.cons_append, ofPieces_cons (List.append_ne_nil_of_right_ne_nil _ (by simp)),
      if_neg hl, ih (List.forall_mem_cons.mp h).2 hls]

/-- A line does not need its carriage return. -/
theorem trim_withoutReturn (line : Text) :
    trim (if line.getLast? = some '\r' then line.dropLast else line) = trim line := by
  split
  · next h =>
    obtain ⟨front, rfl⟩ := List.getLast?_eq_some_iff.mp h
    rw [List.dropLast_concat, trim, trim, dropEnds_append_run front (by decide)]
  · rfl

/-- The lines of a text that are not blank are those between its line feeds, but for blanks at the
ends. -/
theorem map_trim_filter_lines (t : Text) :
    (t.lines.filter filled).map trim = (filledLines t).map trim := by
  rw [lines, filledLines]
  induction split '\n' t with
  | nil => rfl
  | cons piece pieces ih =>
    cases pieces with
    | nil =>
      -- the last piece keeps a carriage return, and is no line if it is empty
      cases piece with
      | nil => rfl
      | cons c piece => rfl
    | cons next pieces =>
      rw [ofPieces_cons (List.cons_ne_nil next pieces), List.filter_cons, List.filter_cons, filled,
        trim_withoutReturn, ← filled]
      split
      · rw [List.map_cons, List.map_cons, trim_withoutReturn, ih]
      · exact ih

end Text

/-! ## Answers -/

/-- What a line of input is answered with. -/
def answer (options : Options) (keyword : Bool) (line : Text) : Text :=
  if keyword then withWhere (cleanClauseWith options line) else cleanClauseWith options line

/-- The answers to the lines of texts with names, in order. -/
def answers (options : Options) (keyword : Bool) (contents : List (Text × Text)) : List Text :=
  (contents.flatMap fun named => named.2.filledLines).map (answer options keyword)

section Answer

variable (options : Options) (keyword : Bool)

theorem answer_trim (line : Text) :
    answer options keyword (trim line) = answer options keyword line := by
  have h : cleanClauseWith options (trim line) = cleanClauseWith options line := by
    unfold cleanClauseWith Normal.ofText
    rw [trim, trim, dropEnds_dropEnds]
  rw [answer, answer, h]

theorem lineFeed_not_mem_answer {line : Text} (h : '\n' ∉ line) :
    '\n' ∉ answer options keyword line := by
  have hclause := lineFeed_not_mem_cleanClauseWith options h
  unfold answer withWhere
  split
  · split
    · exact List.not_mem_nil
    · rw [List.mem_append, not_or]
      exact ⟨by decide, hclause⟩
  · exact hclause

theorem answer_ends (line : Text) :
    answer options keyword line = [] ∨ Solid (answer options keyword line) := by
  unfold answer withWhere
  rcases cleanClauseWith_ends options line with hnil | ⟨-, hsolid⟩
  · rw [hnil]
    exact .inl (by cases keyword <;> rfl)
  · refine .inr ?_
    split
    · rw [List.isEmpty_eq_false_iff.mpr hsolid.ne_nil, if_neg Bool.false_ne_true]
      exact hsolid.append _
    · exact hsolid

theorem getLast?_answer (line : Text) : (answer options keyword line).getLast? ≠ some '\r' := by
  rcases answer_ends options keyword line with h | h
  · rw [h]
    decide
  · intro hreturn
    exact absurd (h.last '\r' hreturn) (by decide)

/-- Lines that differ in blanks at their ends have the same answer. -/
theorem map_answer_filter_lines (t : Text) :
    (t.lines.filter filled).map (answer options keyword) =
      t.filledLines.map (answer options keyword) := by
  have h : answer options keyword ∘ trim = answer options keyword :=
    funext (answer_trim options keyword)
  rw [← h, ← List.map_map, map_trim_filter_lines, List.map_map]

theorem forall_answers {p : Text → Prop} {contents : List (Text × Text)}
    (h : ∀ line, '\n' ∉ line → p (answer options keyword line)) :
    ∀ l ∈ answers options keyword contents, p l := by
  refine List.forall_mem_map.mpr fun line hline => h line ?_
  obtain ⟨named, -, hline⟩ := List.mem_flatMap.mp hline
  exact not_mem_of_mem_split line (List.mem_of_mem_filter hline)

end Answer

/-! ## Reports -/

theorem Located.map_clause_ofLines (source content : Text) :
    (ofLines source content).map Located.clause = content.lines.filter filled := by
  have hclause : Located.clause ∘ (fun entry : Text × Nat => ⟨source, entry.2 + 1, entry.1⟩) =
      Prod.fst := rfl
  have hfilled : (fun entry : Text × Nat => !entry.1.trim.isEmpty) = filled ∘ Prod.fst := rfl
  rw [ofLines, List.map_map, hclause, hfilled, ← List.filter_map, List.zipIdx_map_fst]

namespace Report

variable {o : Options} (ho : o.error? = none)

include ho

theorem clauseLine_ofLocated (keyword : Bool) (l : Located) :
    clauseLine keyword (ofLocated none (some o) l) = answer o keyword l.clause ++ ['\n'] := by
  have hresult : (ofLocated none (some o) l).result.clause = cleanClauseWith o l.clause ∧
      (ofLocated none (some o) l).result.whereClause =
        withWhere (cleanClauseWith o l.clause) := by
    simp only [ofLocated, clean, Request.chosenOptions, ho, cleanClauseWith, and_self]
  rw [clauseLine, hresult.1, hresult.2, answer]
  cases keyword with
  | false => rfl
  | true =>
    cases cleanClauseWith o l.clause <;> rfl

/-- Without output columns, each clause is answered on a line. -/
theorem text_ofLocated (keyword : Bool) (ls : List Located) :
    text keyword (ls.map (ofLocated none (some o))) =
      unlines (ls.map fun l => answer o keyword l.clause) := by
  have hselect : selectLine (ls.map (ofLocated none (some o))) = [] := by
    cases ls <;> rfl
  rw [text, hselect, List.nil_append, unlines, List.flatMap_map, List.flatMap_map]
  exact List.flatMap_congr fun l _ => clauseLine_ofLocated ho keyword l

theorem text_ofTexts (keyword : Bool) (contents : List (Text × Text)) :
    text keyword ((Located.ofTexts contents).map (ofLocated none (some o))) =
      unlines (answers o keyword contents) := by
  rw [text_ofLocated ho, answers, Located.ofTexts, List.map_flatMap, List.map_flatMap]
  refine congrArg unlines (List.flatMap_congr fun named _ => ?_)
  rw [← map_answer_filter_lines, ← Located.map_clause_ofLines named.1, List.map_map]
  rfl

end Report

/-! ## Runs -/

/-- Text output without expressions and output columns, as it is planned. -/
theorem Plan.content_ofReports {s : Settings} {o : Options} (contents : List (Text × Text))
    (hformat : s.format = .text) (hexprs : s.exprs = []) (hcolumns : s.columns = [])
    (ho : o.error? = none) :
    (ofReports s (reports s o contents)).content = unlines (answers o s.withWhere contents) := by
  rw [ofReports, hformat, reports, hexprs, hcolumns]
  exact Report.text_ofTexts ho s.withWhere contents

/-- Lines are printed as they are. -/
theorem Plan.printed_of_unlines {p : Plan} {ls : List Text} (h : p.content = unlines ls) :
    p.printed = unlines ls := by
  unfold printed
  rw [h]
  rcases List.eq_nil_or_concat ls with rfl | ⟨before, last, rfl⟩
  · rfl
  · have hlast : (unlines (before.concat last)).getLast? = some '\n' := by
      rw [unlines, List.concat_eq_append, List.flatMap_append, List.flatMap_singleton,
        ← List.append_assoc, List.getLast?_concat]
    rw [hlast, decide_eq_true rfl, Bool.or_true, if_pos rfl]

namespace Run

/-- Two files with a blank line, a line that holds nothing but the keyword, carriage returns and
other signs that part lines elsewhere. -/
def unevenFiles : Folder :=
  ⟨[("a".toList, encodeUtf8 "x = 1\r\n \t\r\n\nWhere\n".toList),
    ("b".toList, encodeUtf8 "day\x0b= 2\x1c z\r\r\ny=\u2028 3\rlimit 7".toList)]⟩

end Run

end FilterClause
