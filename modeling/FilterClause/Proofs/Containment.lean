import FilterClause.Cleaning
import FilterClause.Proofs.LooseRendering
import FilterClause.Proofs.Uniformity
import FilterClause.Proofs.WholeClauses

/-!
# What comes from inside a literal

The skeletons of a clause are told by all but what its literals hold (`Normal.skeletons`); what they
hold only chooses one of them (`Normal.skeleton`) and fills it in. So the contents of literals stand
between apostrophes in cleaned text. They stay there when the text is read as SQL unless a literal
that is written as it is has an apostrophe too many.
-/

namespace FilterClause

open Text

/-! ## Shape and contents of a clause -/

namespace Normal

/-- The body of a clause and its row limit. -/
def detached (raw : Text) : Text × Option RowLimit := RowLimit.detach (stripLeadingWhere (trim raw))

/-- What is noticed of a clause, told by its body. -/
theorem ofText_eq (options : Options) (raw : Text) :
    ofText options raw =
      { text := RowLimit.attach (Fragment.cleaned options (Cleaned.maxNesting + 1)
          (detached raw).1).text (detached raw).2
        limit := (detached raw).2
        strayQuote := (Lifted.ofText (detached raw).1).hasStrayQuote
        looseBracket :=
          (Fragment.cleaned options (Cleaned.maxNesting + 1) (detached raw).1).looseBracket
        tooDeep := (Fragment.cleaned options (Cleaned.maxNesting + 1) (detached raw).1).tooDeep } :=
  ofText_of_detach options rfl

/-- All of a clause but what its literals hold. -/
def shape (raw : Text) : List Segment × Option RowLimit :=
  ((Lifted.ofText (detached raw).1).segments, (detached raw).2)

/-- What the literals of a clause hold. -/
def contents (raw : Text) : List Text := (Lifted.ofText (detached raw).1).literals

/-- The normal form of a clause of a shape. -/
def ofShape (options : Options) (shape : List Segment × Option RowLimit) (literals : List Text) :
    Text :=
  RowLimit.attach
    (if Segment.allBlank shape.1 then []
      else (Cleaned.ofItems literals options (Item.ofSegments shape.1)).text) shape.2

/-- The sketch of the normal form of a clause of a shape. -/
def sketch (options : Options) (shape : List Segment × Option RowLimit) : Sketch :=
  let body : Sketch :=
    if Segment.allBlank shape.1 then .ofText []
    else Cleaned.sketch options (Cleaned.maxNesting + 1) (Item.ofSegments shape.1)
  match shape.2 with
  | none => body
  | some limit =>
    .choice (fun literals => (body.text literals).isEmpty) (.ofText limit.text)
      (.append body (.ofText (' ' :: limit.text)))

/-- The skeletons of all clauses of a shape. -/
def skeletons (options : Options) (shape : List Segment × Option RowLimit) : List Skeleton :=
  (sketch options shape).skeletons

/-- The skeleton of a clause: its normal form with the contents of its literals left open. -/
def skeleton (options : Options) (raw : Text) : Skeleton :=
  (sketch options (shape raw)).skeleton (contents raw)

theorem text_ofText (options : Options) (raw : Text) :
    (ofText options raw).text = ofShape options (shape raw) (contents raw) := by
  have htrimmed : (ofTrimmed options (trim raw)).text =
      ofShape options (shape raw) (contents raw) := by
    simp only [ofTrimmed, ofShape, shape, contents, detached, apply_ite Cleaned.text]
    rfl
  by_cases h : (trim raw).isEmpty
  · have hnil : trim raw = [] := List.isEmpty_iff.mp h
    rw [ofText, if_pos h, ← htrimmed, hnil]
    rfl
  · rw [ofText, if_neg h, htrimmed]

theorem strayQuote_ofText (options : Options) (raw : Text) :
    (ofText options raw).strayQuote = (Lifted.ofText (detached raw).1).hasStrayQuote := by
  rw [ofText_eq]

end Normal

/-- Where every quote closes, no apostrophe is left in the items. -/
theorem Lifted.Closed.clear_items {t : Text} (h : Closed t) : Item.Clear (items t) :=
  fun hm => absurd (h _ (Item.mem_of_char_mem_number hm)) (by decide)

/-- Clauses of one shape are written by its sketch. -/
theorem Normal.draws_sketch (options : Options) {raw : Text}
    (h : (ofText options raw).strayQuote = false) :
    (sketch options (shape raw)).Draws fun literals => ofShape options (shape raw) literals := by
  rw [strayQuote_ofText, Lifted.hasStrayQuote_eq_false_iff] at h
  have hclear : Item.Clear (Item.ofSegments (shape raw).1) := by
    rw [shape, Lifted.ofSegments_ofText]
    exact h.clear_items
  obtain ⟨body, hbody⟩ : ∃ body : Sketch, body = if Segment.allBlank (shape raw).1 then .ofText []
      else Cleaned.sketch options (Cleaned.maxNesting + 1) (Item.ofSegments (shape raw).1) :=
    ⟨_, rfl⟩
  have hdraws : body.Draws fun literals => if Segment.allBlank (shape raw).1 then []
      else (Cleaned.ofItems literals options (Item.ofSegments (shape raw).1)).text := by
    rw [hbody]
    split
    · exact .nil
    · exact Cleaned.draws_sketch options (Cleaned.maxNesting + 1) hclear
  cases hlimit : (shape raw).2 with
  | none =>
    simp only [sketch, ofShape, hlimit, RowLimit.attach_none, ← hbody]
    exact hdraws
  | some limit =>
    have hdetached : detached raw = ((detached raw).1, some limit) := Prod.ext rfl hlimit
    obtain ⟨-, -, -, -, hspelled, -, -⟩ := RowLimit.exists_of_detach hdetached
    have hplain : singleQuote ∉ limit.text := hspelled.plain.not_mem_singleQuote
    have hspaced : singleQuote ∉ ' ' :: limit.text := by
      rw [List.mem_cons, not_or]
      exact ⟨by decide, hplain⟩
    simp only [sketch, ofShape, hlimit, RowLimit.attach, ← hbody, hdraws.text_eq]
    exact .choice _ (.ofText hplain) (.append ⟨hdraws.clear, fun _ => rfl⟩ (.ofText hspaced))

/-- Without a stray quote, the normal form of a clause is its skeleton filled in, which is one of
those of its shape and has no apostrophe of its own. -/
theorem Normal.skeleton_fits (options : Options) {raw : Text}
    (h : (ofText options raw).strayQuote = false) :
    skeleton options raw ∈ skeletons options (shape raw) ∧ (skeleton options raw).Clear ∧
      (ofText options raw).text = (skeleton options raw).text (contents raw) := by
  have hdraws := draws_sketch options h
  have hmem := Sketch.skeleton_mem (contents raw) (sketch options (shape raw))
  refine ⟨hmem, hdraws.clear.of_mem _ hmem, ?_⟩
  rw [text_ofText]
  exact hdraws.text_eq (contents raw)

/-- Whether a quote is stray is told by the shape. -/
theorem Normal.strayQuote_congr (options : Options) {raw other : Text}
    (h : shape other = shape raw) :
    (ofText options other).strayQuote = (ofText options raw).strayQuote := by
  have hsegments : (Lifted.ofText (detached other).1).segments =
      (Lifted.ofText (detached raw).1).segments := congrArg Prod.fst h
  rw [strayQuote_ofText, strayQuote_ofText, Lifted.hasStrayQuote, Lifted.hasStrayQuote, hsegments]

/-- Without the warning, no quote is stray. -/
theorem Normal.strayQuote_of_warnings {n : Normal} (h : Issue.strayQuote ∉ n.warnings) :
    n.strayQuote = false := by
  cases hs : n.strayQuote with
  | false => rfl
  | true => exact absurd (by simp [warnings, hs]) h

/-! ## A column compared with a literal -/

namespace Column

open Fragment

variable (options : Options) (column : Column) (o : Comparator)

/-- A literal that a column is compared with, as it is written. Before an order and behind a date
field it is left as it is. -/
def writtenLiteral (content : Text) : Text :=
  if o.isOrder || options.isDateField column.text then singleQuote :: content ++ [singleQuote]
  else quoteValue (o.pattern
    (dropEnds (fun c => c == '%' || c == singleQuote || c == doubleQuote) content))

/-- What is written is one literal if it is quoted anew, or has its apostrophes in pairs. -/
theorem isLiteral_writtenLiteral (content : Text) :
    Sql.IsLiteral (column.writtenLiteral options o content) ↔
      ((o.isOrder || options.isDateField column.text) = true → Sql.isPaired content = true) := by
  unfold writtenLiteral
  cases o.isOrder || options.isDateField column.text with
  | true =>
    rw [if_pos rfl, Sql.isLiteral_iff]
    exact ⟨fun h _ => h, fun h => h rfl⟩
  | false =>
    rw [if_neg Bool.false_ne_true]
    exact ⟨fun _ => nofun, fun _ => Sql.isLiteral_quoteValue _⟩

variable {q : Quote} {content : Text} (h : q.char ∉ content)

include h

theorem render_literal {p : Places} {value : List Token}
    (hvalue : value.map p.fill = [.literal content]) :
    Comparison.render ⟨column.text, o.operator, value⟩ p options =
      column.text ++ ' ' :: o.normal ++ ' ' :: column.writtenLiteral options o content := by
  obtain ⟨v, hv⟩ : ∃ v, v = Comparand.literal q content h := ⟨_, rfl⟩
  have hlex : value.map p.fill = v.lexemes := by rw [hv, hvalue, Comparand.lexemes]
  have hcall : Comparison.isCall ⟨column.text, o.operator, value⟩ = false := by
    rw [← isLoneCall_fill p, hlex, Comparand.isLoneCall_lexemes]
  have hinner : Comparison.inner ⟨column.text, o.operator, value⟩ p = v.inner := by
    rw [← inner_fill, hlex, Comparand.inner_lexemes]
  have hneeds : Comparison.needsQuotes ⟨column.text, o.operator, value⟩ p options =
      !(o.isOrder || options.isDateField column.text) := by
    have htruth : v.isTruth = false := by rw [hv, Comparand.isTruth]
    rw [Comparison.needsQuotes, hcall, Comparator.isRange_operator, renderAll_fill, hlex,
      Comparand.isBoolean_lexemes, htruth, Bool.not_or, Bool.not_false, Bool.true_and,
      Bool.and_true]
  have hwritten : Comparison.renderValue ⟨column.text, o.operator, value⟩ p options =
      column.writtenLiteral options o content := by
    rw [Comparison.renderValue, hneeds, hinner, Comparator.pattern_operator, renderAll_fill, hlex,
      hv, writtenLiteral]
    cases o.isOrder || options.isDateField column.text with
    | true => exact joinSpaced_singleton _
    | false => rfl
  have hne : (column.writtenLiteral options o content).isEmpty = false := by
    unfold writtenLiteral
    split <;> rfl
  rw [Comparison.render, hwritten]
  dsimp only
  rw [hne, if_neg Bool.false_ne_true, Comparator.upper_operator]

/-- A column compared with a literal is cleaned to the column, the operator and what is written of
the literal. -/
theorem cleanClauseWith_literal :
    cleanClauseWith options (column.text ++ o.text ++ (q.char :: content ++ [q.char])) =
      column.text ++ ' ' :: o.normal ++ ' ' :: column.writtenLiteral options o content := by
  obtain ⟨t, ht⟩ : ∃ t, t = column.text ++ o.text ++ (q.char :: content ++ [q.char]) := ⟨_, rfl⟩
  have hquote : isBlank q.char = false := (RowLimit.isStop_iff.mp q.isStop).1
  have hlast : t = (column.text ++ o.text ++ q.char :: content) ++ [q.char] := by
    rw [ht, List.append_assoc _ (q.char :: content)]
  obtain ⟨d, u, hd, hdb⟩ := column.exists_head o (q.char :: content ++ [q.char])
  have htrim : trim t = t := by
    have := dropEnds_padded (p := isBlank) (l := []) (t := t) (r := []) nofun nofun
      (fun c hc => by rw [ht, hd] at hc; exact Option.some.inj hc ▸ hdb)
      (fun c hc => by rw [hlast, List.getLast?_concat] at hc; exact Option.some.inj hc ▸ hquote)
    rwa [List.nil_append, List.append_nil] at this
  have hdetach : RowLimit.detach (Normal.stripLeadingWhere t) = (t, none) := by
    have hstrip : Normal.stripLeadingWhere t = t := ht ▸ column.stripLeadingWhere_front o _
    rw [hstrip]
    refine RowLimit.detach_eq_of_none ?_
    rw [hlast]
    exact RowLimit.limit_of_last q.isStop _
  have hne : t.isEmpty = false := by rw [ht, hd]; rfl
  have hfragment : Fragment t := ht ▸ column.fragment_literal o q h
  obtain ⟨p, value, hvalue, hcleaned⟩ := cleaned_comparison options Cleaned.maxNesting hfragment
    (ht ▸ column.lexemes_literal o options _ q h) (ht ▸ column.groups_literal o options _ q h)
    (by simp [Lexeme.connective?])
  rw [← ht, cleanClauseWith, Normal.ofText, htrim, hne, if_neg Bool.false_ne_true,
    Normal.ofTrimmed_eq options hdetach hfragment, hcleaned, RowLimit.attach_none]
  exact column.render_literal options o h hvalue

end Column

/-! ## Containment -/

/-- Where no quote is stray, a clause is cleaned to its skeleton, filled in with what its literals
hold. The skeleton is one of finitely many, which are told by the shape of the clause alone and have
no apostrophe of their own. The literals stay in literals when the cleaned text is read as SQL
exactly if what is quoted in it is literals from end to end, so at least if the literals that are
written as they are have their apostrophes in pairs. For a column compared with one literal that is
needed before an order and behind a date field, and nowhere else. -/
theorem cleanClauseWith_contains (options : Options) :
    (∀ raw, Issue.strayQuote ∉ (Normal.ofText options raw).warnings →
      (∀ s ∈ Normal.skeletons options (Normal.shape raw), s.Clear) ∧
        ∀ other, Normal.shape other = Normal.shape raw →
          Normal.skeleton options other ∈ Normal.skeletons options (Normal.shape raw) ∧
          cleanClauseWith options other =
            (Normal.skeleton options other).text (Normal.contents other) ∧
          ((Normal.skeleton options other).Contained (Normal.contents other) ↔
            Sql.Enclosed ((Normal.skeleton options other).quotedText (Normal.contents other))) ∧
          ((∀ index, .literal index ∈ Normal.skeleton options other →
              Sql.isPaired ((Normal.contents other).getD index []) = true) →
            (Normal.skeleton options other).ReadsAsWritten (Normal.contents other))) ∧
    ∀ (column : Column) (o : Comparator) (content : Text), doubleQuote ∉ content →
      cleanClauseWith options
          (column.text ++ o.text ++ (doubleQuote :: content ++ [doubleQuote])) =
        column.text ++ ' ' :: o.normal ++ ' ' :: column.writtenLiteral options o content ∧
      (Sql.IsLiteral (column.writtenLiteral options o content) ↔
        ((o.isOrder || options.isDateField column.text) = true →
          Sql.isPaired content = true)) := by
  refine ⟨fun raw hwarnings => ?_, fun column o content hcontent => ?_⟩
  · have hquotes := Normal.strayQuote_of_warnings hwarnings
    refine ⟨(Normal.draws_sketch options hquotes).clear.of_mem, fun other hshape => ?_⟩
    have hother := (Normal.strayQuote_congr options hshape).trans hquotes
    obtain ⟨hmem, hclear, htext⟩ := Normal.skeleton_fits options hother
    exact ⟨hshape ▸ hmem, htext, Skeleton.contained_iff hclear, Skeleton.readsAsWritten hclear⟩
  · have hclean := column.cleanClauseWith_literal options o (q := .double) hcontent
    exact ⟨hclean, column.isLiteral_writtenLiteral options o content⟩

/-- An apostrophe in a literal before an order ends the literal too early. -/
theorem cleanClause_spills :
    Issue.strayQuote ∉
      (Normal.ofText Options.standard "Amount > \"x' OR '1'='1\"".toList).warnings ∧
    cleanClause "Amount > \"x' OR '1'='1\"".toList = "Amount > 'x' OR '1'='1'".toList ∧
    ((Sql.inLiteral false (cleanClause "Amount > \"x' OR '1'='1\"".toList)).drop 12).take 4 =
      [false, false, false, false] ∧
    ¬ ∃ value, Sql.IsLiteral value ∧
      cleanClause "Amount > \"x' OR '1'='1\"".toList = "Amount > ".toList ++ value := by
  have hclean : cleanClause "Amount > \"x' OR '1'='1\"".toList =
      "Amount > 'x' OR '1'='1'".toList := by decide +kernel
  refine ⟨by decide +kernel, hclean, by rw [hclean]; decide, ?_⟩
  rintro ⟨value, hliteral, h⟩
  have hvalue : value = singleQuote :: "x' OR '1'='1".toList ++ [singleQuote] := by
    have hvalue : "Amount > ".toList ++ "'x' OR '1'='1'".toList = "Amount > ".toList ++ value :=
      hclean.symm.trans h
    exact (List.append_cancel_left hvalue).symm
  rw [hvalue, Sql.isLiteral_iff] at hliteral
  exact absurd hliteral (by decide)

/-- A name with an apostrophe in place of another, and a number in quotes behind an order. -/
theorem cleanClauseWith_contains_sample :
    Normal.skeleton Options.standard "Name = \"O'Brien\"".toList ∈
        Normal.skeletons Options.standard (Normal.shape "Name = \"Acme\"".toList) ∧
      (Normal.skeleton Options.standard "Name = \"O'Brien\"".toList).Clear ∧
      cleanClauseWith Options.standard "Name = \"O'Brien\"".toList =
        (Normal.skeleton Options.standard "Name = \"O'Brien\"".toList).text
          ["O'Brien".toList] ∧
      (Normal.skeleton Options.standard "Name = \"O'Brien\"".toList).ReadsAsWritten
        ["O'Brien".toList] ∧
    cleanClauseWith Options.standard "Id > \"5\"".toList = "Id > '5'".toList ∧
    Sql.IsLiteral "'5'".toList := by
  obtain ⟨hshape, hliteral⟩ := cleanClauseWith_contains Options.standard
  obtain ⟨hclear, hskeletons⟩ := hshape "Name = \"Acme\"".toList (by decide +kernel)
  obtain ⟨hmem, htext, -, hreads⟩ :=
    hskeletons "Name = \"O'Brien\"".toList (by decide +kernel)
  have hcontents : Normal.contents "Name = \"O'Brien\"".toList = ["O'Brien".toList] := by
    decide +kernel
  rw [hcontents] at htext hreads
  obtain ⟨hid, hiff⟩ := hliteral
    ⟨"Id".toList, by decide, by decide +kernel, by decide +kernel,
      Subselect.whereFree_of_length_lt (by decide) _⟩
    (.sign ⟨[' '], by decide⟩ .greater ⟨[' '], by decide⟩) "5".toList (by decide)
  have hinput : "Id > \"5\"".toList =
      "Id".toList ++ [' ', '>', ' '] ++ (doubleQuote :: "5".toList ++ [doubleQuote]) := by decide
  -- The name is quoted anew, so no literal is written as it is.
  have hquoted : ((Normal.skeleton Options.standard "Name = \"O'Brien\"".toList).all
      fun | .literal _ => false | _ => true) = true := by
    decide +kernel
  refine ⟨hmem, hclear _ hmem, htext,
    hreads fun index hi => Bool.noConfusion (List.all_eq_true.mp hquoted _ hi), ?_,
    hiff.mpr fun _ => by decide⟩
  rw [hinput]
  exact hid.trans (by decide +kernel)

end FilterClause
