import FilterClause.Proofs.Requoting

/-!
# Calls as they are written

A call is kept like a lead, but for the quotes of its literals. It is one lexeme, whatever stands
between its brackets, so as a column or as a value it is compared as a whole. Together with the facts
on leads this tells what of a clause is kept character by character
(`cleanClauseWith_keeps_but_quotes`).
-/

namespace FilterClause

open Text

/-- A call as it is written: a name and, between brackets, a text whose quotes all close and whose
brackets balance. -/
structure WrittenCall where
  name : Text
  arguments : Text
  nonempty : name ≠ []
  isName : ∀ c ∈ name, Text.isName c = true
  closed : Lifted.Closed arguments
  balanced : Bracket.Balanced (Lifted.items arguments)

namespace WrittenCall

variable (g : WrittenCall)

/-- The call as a text. -/
def text : Text := g.name ++ '(' :: (g.arguments ++ [')'])

theorem not_quote : ∀ c ∈ g.name, Lifted.isQuote c = false :=
  (Fragment.Plain.of_isName g.isName).not_quote

theorem flush : Flush g.text :=
  (Flush.of_forall g.nonempty fun c hc => isBlank_of_isName (g.isName c hc)).append _

theorem text_eq : g.text = g.name ++ '(' :: g.arguments ++ [')'] := by simp [text]

theorem solid : Solid g.text := by
  rw [text_eq]
  exact .concat _ (by decide)

theorem items_text :
    Lifted.items g.text = Piece.items (.call g.name (Lifted.items g.arguments)) := by
  rw [text, Lifted.items_append_of_no_quotes g.not_quote, Fragment.items_bracketed, Piece.items]
  simp

/-- A call is read as a call, its literals between single quotes. -/
theorem readAs (options : Options) (levels : Nat) :
    Fragment.ReadAs options levels g.text [.call (requoted g.text)] where
  closed := (Lifted.closed_of_no_quotes g.not_quote).append g.closed.bracketed
  balanced := by
    have hgroup := (Fragment.Plain.of_isName g.isName).balanced.append (.group g.balanced .nil)
    rw [items_text]
    simpa [Piece.items] using hgroup
  lexemes := by
    rw [Fragment.lexemes, items_text, Cleaned.lexemesOf,
      Piece.ofItems_call g.nonempty g.isName g.balanced, List.flatMap_singleton, Piece.lexemes,
      requoted, items_text, Piece.renderAll_call]

theorem whereFree_name (h : g.name.map foldLetter ≠ ['w', 'h', 'e', 'r', 'e']) :
    Subselect.WhereFree false (g.name.map .char) := by
  have hinside : ∀ cs : Text, (∀ c ∈ cs, Text.isName c = true) →
      Subselect.WhereFree true (cs.map .char) := by
    intro cs hcs
    induction cs with
    | nil => trivial
    | cons c cs ih =>
      obtain ⟨hc, hcs⟩ := List.forall_mem_cons.mp hcs
      have hrest := ih hcs
      rw [← hc] at hrest
      exact ⟨.inl rfl, hrest⟩
  have hstart : Subselect.startsWithWhere (g.name.map .char) = false := by
    refine Bool.of_not_eq_true fun hs => ?_
    obtain ⟨w, rest, hname, hfold, hrest⟩ := Subselect.exists_of_startsWithWhere hs
    cases rest with
    | nil =>
      rw [List.append_nil] at hname
      exact h (hname ▸ hfold)
    | cons d rest =>
      have hd := g.isName d (by rw [hname]; simp)
      rw [hrest d rfl] at hd
      cases hd
  obtain ⟨c, cs, hname⟩ := List.exists_cons_of_ne_nil g.nonempty
  have hall := g.isName
  rw [hname] at hstart hall ⊢
  obtain ⟨hc, hcs⟩ := List.forall_mem_cons.mp hall
  have hrest := hinside cs hcs
  rw [← hc] at hrest
  exact ⟨.inr hstart, hrest⟩

/-- Whatever stands between its brackets, a call is in no lead. -/
theorem endOfWhere_append (h : g.name.map foldLetter ≠ ['w', 'h', 'e', 'r', 'e'])
    {items : List Item} (hitems : Subselect.WhereFree false items) :
    Subselect.endOfWhere (Lifted.items g.text ++ items) = none := by
  have hshape : Lifted.items g.text ++ items = g.name.map .char ++
      .char '(' :: (Lifted.items g.arguments ++ .char ')' :: items) := by
    rw [items_text, Piece.items]
    simp
  obtain ⟨inName, hfound⟩ := Subselect.endOfWhereFrom_append_of_whereFree
    (Fragment.Plain.of_isName g.isName).balanced (g.whereFree_name h) (i := .char '(')
    (isName_of_mem_marks '(' (by decide)) (Lifted.items g.arguments ++ .char ')' :: items)
  rw [hshape, Subselect.endOfWhere, hfound, Subselect.endOfWhereFrom_group g.balanced,
    Subselect.endOfWhereFrom_of_whereFree hitems]
  rfl

/-- A call does not start with WHERE, if its name does not. -/
theorem stripLeadingWhere_append (h : Normal.stripLeadingWhere g.name = g.name) (rest : Text) :
    Normal.stripLeadingWhere (g.text ++ rest) = g.text ++ rest := by
  have hshape : g.text ++ rest = g.name ++ '(' :: (g.arguments ++ [')'] ++ rest) := by simp [text]
  rw [hshape]
  exact Normal.stripLeadingWhere_append_stop h (by decide) (by decide) _

/-- A name that is not taken off is not the keyword. -/
theorem ne_where (h : Normal.stripLeadingWhere g.name = g.name) :
    g.name.map foldLetter ≠ ['w', 'h', 'e', 'r', 'e'] := by
  intro hfold
  have hs : stripKeyword ['w', 'h', 'e', 'r', 'e'] g.name = some [] :=
    stripKeyword_eq_some_iff.mpr ⟨g.name, (List.append_nil _).symm, hfold⟩
  rw [Normal.stripLeadingWhere, hs] at h
  exact g.nonempty h.symm

end WrittenCall

/-! ## Comparisons -/

/-- A text that is read as a column, an operator and one value is cleaned to the comparison of
them. -/
theorem Fragment.ReadAs.text_comparison {options : Options} {levels : Nat} {t operator : Text}
    {column value : Lexeme} (h : ReadAs options levels t [column, .operator operator, value])
    (hcolumn : column.isGroup = false) (huncut : Subselect.endOfWhere (Lifted.items t) = none) :
    ∃ (p : Places) (v : Token), p.fill v = value ∧
      (cleaned options (levels + 1) t).text =
        Comparison.render ⟨column.render, operator, [v]⟩ p options := by
  have hlexemes := h.lexemes
  obtain ⟨p, hp⟩ : ∃ p, p = places options levels t := ⟨_, rfl⟩
  rw [← map_fill_tokens, ← hp] at hlexemes
  obtain ⟨a, rest, htokens, ha, hrest⟩ := List.map_eq_cons_iff.mp hlexemes
  obtain ⟨b, rest, rfl, hb, hrest⟩ := List.map_eq_cons_iff.mp hrest
  obtain ⟨v, rest, rfl, hv, hrest⟩ := List.map_eq_cons_iff.mp hrest
  obtain rfl := List.map_eq_nil_iff.mp hrest
  have hgroup : a.isGroup = false := by rw [← isGroup_fill p, ha, hcolumn]
  have hop : b.isOperator = true := by rw [← isOperator_fill p, hb]; rfl
  have hoperator : b.text = operator := by
    rw [fill_of_isOperator hop] at hb
    exact Lexeme.operator.inj hb
  -- The operator is no connective, and behind the value no condition starts.
  have hsplit : Condition.splitBehind [] [a, b, v] = ⟨[a, b, v], []⟩ := by
    have hb' : Condition.separates [a] b [v] = false := by
      rw [Condition.separates, ← connective?_fill p, hb]
      rfl
    have hv' : Condition.separates [b, a] v [] = false := by
      rw [Condition.separates, Condition.startsHere, Bool.and_false]
    rw [Condition.splitBehind_cons_of_not (Condition.separates_nil a _),
      Condition.splitBehind_cons_of_not hb', Condition.splitBehind_cons_of_not hv']
    rfl
  refine ⟨p, v, hv, ?_⟩
  rw [cleaned_of_uncut options levels (Subselect.split_of_none huncut), ← hp, htokens,
    Condition.renderAll_of_uncut hsplit hgroup hop, ← render_fill, ha, hoperator]

/-- The same for a whole clause that has neither leads nor a row limit. -/
theorem Fragment.ReadAs.cleanClauseWith_comparison {options : Options} {t operator : Text}
    {column value : Lexeme}
    (h : ReadAs options Cleaned.maxNesting t [column, .operator operator, value])
    (hcolumn : column.isGroup = false) (huncut : Subselect.endOfWhere (Lifted.items t) = none)
    (hflush : Flush t) (hsolid : Solid t) (hstrip : Normal.stripLeadingWhere t = t)
    (hlimit : (RowLimit.detach t).2 = none) :
    ∃ (p : Places) (v : Token), p.fill v = value ∧
      cleanClauseWith options t = Comparison.render ⟨column.render, operator, [v]⟩ p options := by
  obtain ⟨p, v, hv, htext⟩ := h.text_comparison hcolumn huncut
  refine ⟨p, v, hv, ?_⟩
  rw [← htext]
  exact cleanClauseWith_of_balanced options h.balanced ((hflush.trim hsolid).symm ▸ hstrip) hlimit

/-- Two texts with an equals sign between them are read side by side. -/
theorem Fragment.ReadAs.equals {options : Options} {levels : Nat} {s t : Text}
    {column value : Lexeme} (hs : ReadAs options levels s [column]) (ht : ReadAs options levels t [value]) :
    ReadAs options levels (s ++ " = ".toList ++ t) [column, .operator ['='], value] := by
  have hsign : Token.SpellsOperator ['='] := .inl (by decide)
  have hshape : s ++ ' ' :: (['='] ++ ' ' :: t) = s ++ " = ".toList ++ t := by simp
  rw [← hshape]
  exact hs.append ((Fragment.ReadAs.operator hsign).append ht)

namespace Comparison

variable {p : Places} {v : Token} (options : Options) (column : Text)

theorem render_eq_sign {value : Text}
    (h : renderValue ⟨column, ['='], [v]⟩ p options = value) (hne : value ≠ []) :
    render ⟨column, ['='], [v]⟩ p options = column ++ " = ".toList ++ value := by
  have hsign : upper ['='] = ['='] := rfl
  rw [render, h, if_neg (by simpa using hne), hsign]
  simp

/-- A call as a value is written as it is. -/
theorem render_call {t : Text} (hv : p.fill v = .call t) (hne : t ≠ []) :
    render ⟨column, ['='], [v]⟩ p options = column ++ " = ".toList ++ t := by
  have hcall : isCall ⟨column, ['='], [v]⟩ = true := by
    rw [← isLoneCall_fill p, List.map_singleton, hv]
    rfl
  refine render_eq_sign options column ?_ hne
  rw [renderValue, needsQuotes, hcall, Bool.not_true, Bool.false_and, Bool.false_and,
    Bool.false_and, if_neg Bool.false_ne_true, renderAll_fill, List.map_singleton, hv]
  exact joinSpaced_singleton t

/-- A word as a value is quoted unless the column is a date field or the word names a truth
value. -/
theorem render_word {t : Text} (hv : p.fill v = .word t) (hne : t ≠ []) :
    render ⟨column, ['='], [v]⟩ p options = column ++ " = ".toList ++
      if options.isDateField column || isBoolean (lower t) then t
      else quoteValue (dropEnds (· == '%') t) := by
  have hcall : isCall ⟨column, ['='], [v]⟩ = false := by
    rw [← isLoneCall_fill p, List.map_singleton, hv]
    rfl
  have hwritten : p.renderAll [v] = t := by
    rw [renderAll_fill, List.map_singleton, hv]
    exact joinSpaced_singleton t
  have hinner : inner ⟨column, ['='], [v]⟩ p = dropEnds (· == '%') t := by
    rw [← inner_fill, List.map_singleton, hv]
    exact congrArg (dropEnds (· == '%')) (joinSpaced_singleton t)
  have hneeds : needsQuotes ⟨column, ['='], [v]⟩ p options =
      !(options.isDateField column || isBoolean (lower t)) := by
    rw [needsQuotes, hcall, hwritten, Bool.not_or]
    rfl
  refine render_eq_sign options column ?_ ?_
  · rw [renderValue, hneeds, hinner, hwritten]
    cases options.isDateField column || isBoolean (lower t) <;> rfl
  · split
    · exact hne
    · exact List.cons_ne_nil _ _

end Comparison

namespace Column

variable (column : Column)

theorem not_isBlank : ∀ c ∈ column.text, isBlank c = false := fun c hc =>
  isBlank_of_isWordPart (column.wordParts c hc)

theorem flush : Flush column.text := .of_forall column.nonempty column.not_isBlank

theorem solid : Solid column.text := .of_forall column.nonempty column.not_isBlank

/-- No WHERE stands alone in a column compared with a text in which none does. -/
theorem endOfWhere_equals {t : Text} (h : Subselect.endOfWhere (Lifted.items t) = none) :
    Subselect.endOfWhere (Lifted.items (column.text ++ " = ".toList ++ t)) = none := by
  have hplain : Fragment.Plain (column.text ++ " =".toList) :=
    .append (.of_isWordPart column.wordParts) (by unfold Fragment.Plain; decide)
  have hfree : Subselect.WhereFree false ((column.text ++ " =".toList).map .char) := by
    rw [List.map_append]
    exact .append (i := .char ' ') (isName_of_isBlank (by decide)) column.whereFree
      (Subselect.whereFree_of_length_lt (by decide) false)
  have hspace : Item.isName (.char ' ') = false := isName_of_isBlank (by decide)
  obtain ⟨inName, hfound⟩ := Subselect.endOfWhereFrom_append_of_whereFree hplain.balanced hfree
    hspace (Lifted.items t)
  have hbehind : Subselect.endOfWhereFrom 0 inName (.char ' ' :: Lifted.items t) = none := by
    rw [Subselect.endOfWhereFrom, Subselect.startsWithWhere_of_not_isName hspace, Bool.and_false,
      if_neg Bool.false_ne_true, hspace]
    exact congrArg (Option.map (· + 1)) h
  have hitems : Lifted.items (column.text ++ " = ".toList ++ t) =
      (column.text ++ " =".toList).map .char ++ .char ' ' :: Lifted.items t := by
    have hquote := (hplain.append (t := [' ']) (by unfold Fragment.Plain; decide)).not_quote
    simpa using Lifted.items_append_of_no_quotes hquote t
  rw [hitems, Subselect.endOfWhere, hfound, hbehind]
  rfl

/-- A column as a value is no row limit. -/
theorem limit_equals (t : Text) :
    (RowLimit.detach (t ++ " = ".toList ++ column.text)).2 = none := by
  have hlast : '=' ∈ (t ++ " =".toList).getLast? := by simp
  have hnone : (RowLimit.detach (t ++ " =".toList ++ [' '] ++ column.text)).2 = none :=
    RowLimit.limit_of_word_behind column.nonempty column.not_isBlank (by decide) hlast (by decide)
      (by simp) (by decide)
  have hshape : t ++ " =".toList ++ [' '] = t ++ " = ".toList := by simp
  rwa [hshape] at hnone

end Column

namespace WrittenCall

variable (g : WrittenCall) (options : Options)

theorem requoted_ne_nil : requoted g.text ≠ [] := by
  obtain ⟨c, cs, hname⟩ := List.exists_cons_of_ne_nil g.nonempty
  have hc := g.not_quote c (by simp [hname])
  rw [text, hname, List.cons_append, requoted_cons hc]
  exact List.cons_ne_nil _ _

/-- No WHERE stands alone in a call compared with a word. -/
theorem endOfWhere_equals_word (hname : g.name.map foldLetter ≠ ['w', 'h', 'e', 'r', 'e'])
    (x : Column) :
    Subselect.endOfWhere (Lifted.items (g.text ++ " = ".toList ++ x.text)) = none := by
  have hplain : Fragment.Plain (" = ".toList ++ x.text) :=
    .append (by unfold Fragment.Plain; decide) (.of_isWordPart x.wordParts)
  have hfree : Subselect.WhereFree false
      ([.char ' ', .char '='] ++ .char ' ' :: x.text.map .char) :=
    .append (i := .char ' ') (isName_of_isBlank (by decide))
      (Subselect.whereFree_of_length_lt (by decide) false) x.whereFree
  rw [List.append_assoc, Lifted.items_append_right g.text hplain.not_quote]
  exact g.endOfWhere_append hname hfree

/-- A call compared with a word. -/
theorem cleanClauseWith_word (hname : Normal.stripLeadingWhere g.name = g.name) (x : Column) :
    cleanClauseWith options (g.text ++ " = ".toList ++ x.text) =
      requoted g.text ++ " = ".toList ++
        if options.isDateField (requoted g.text) || Comparison.isBoolean (lower x.text) then x.text
        else quoteValue (dropEnds (· == '%') x.text) := by
  have hread := (g.readAs options Cleaned.maxNesting).equals
    (.word x.nonempty x.wordParts x.notLike)
  have hstrip := g.stripLeadingWhere_append hname (" = ".toList ++ x.text)
  rw [← List.append_assoc] at hstrip
  obtain ⟨p, v, hv, hclean⟩ := hread.cleanClauseWith_comparison rfl
    (g.endOfWhere_equals_word (g.ne_where hname) x) ((g.flush.append _).append _)
    (x.solid.append _) hstrip (x.limit_equals g.text)
  rw [hclean, Comparison.render_word options _ hv x.nonempty]
  rfl

/-- A column compared with a call. -/
theorem cleanClauseWith_value (hname : g.name.map foldLetter ≠ ['w', 'h', 'e', 'r', 'e'])
    (column : Column) :
    cleanClauseWith options (column.text ++ " = ".toList ++ g.text) =
      column.text ++ " = ".toList ++ requoted g.text := by
  have hread := Fragment.ReadAs.equals
    (.word column.nonempty column.wordParts column.notLike)
    (g.readAs options Cleaned.maxNesting)
  have huncut : Subselect.endOfWhere (Lifted.items g.text ++ []) = none :=
    g.endOfWhere_append hname trivial
  rw [List.append_nil] at huncut
  have hstrip : Normal.stripLeadingWhere (column.text ++ (" = ".toList ++ g.text)) =
      column.text ++ (" = ".toList ++ g.text) :=
    column.stripLeadingWhere_append fun c hc => by
      obtain rfl : ' ' = c := Option.some.inj hc
      decide
  rw [← List.append_assoc] at hstrip
  have hlimit : (RowLimit.detach (column.text ++ " = ".toList ++ g.text)).2 = none := by
    rw [text_eq, ← List.append_assoc]
    exact RowLimit.limit_of_last (by decide) _
  obtain ⟨p, v, hv, hclean⟩ := hread.cleanClauseWith_comparison rfl
    (column.endOfWhere_equals huncut) ((column.flush.append _).append _) (g.solid.append _)
    hstrip hlimit
  rw [hclean, Comparison.render_call options _ hv g.requoted_ne_nil]
  rfl

end WrittenCall

/-! ## What is kept -/

/-- Leads and calls are kept, but for the quotes of their literals. What stands behind a lead and
its WHERE is cleaned as if it stood alone, and a call as a column or a value is written as a whole.
Each literal in them is put between single quotes, so a lead or a call is kept character by
character exactly if no literal in it is opened by a double quote. -/
theorem cleanClauseWith_keeps_but_quotes (options : Options) :
    (∀ lead q : Text, lead ≠ [] → trim lead = lead → Lifted.Closed lead →
      Bracket.Balanced (Lifted.items lead) → Subselect.LacksWhere (Lifted.items lead) →
      (∀ c ∈ q.head?, isBlank c = false) → Normal.stripLeadingWhere (trim q) = trim q →
      cleanClauseWith options q ≠ [] →
        cleanClauseWith options (lead ++ " WHERE ".toList ++ q) =
          requoted lead ++ " WHERE ".toList ++ cleanClauseWith options q) ∧
      (∀ (g : WrittenCall) (x : Column), Normal.stripLeadingWhere g.name = g.name →
        cleanClauseWith options (g.text ++ " = ".toList ++ x.text) =
          requoted g.text ++ " = ".toList ++
            if options.isDateField (requoted g.text) || Comparison.isBoolean (lower x.text) then
              x.text
            else quoteValue (dropEnds (· == '%') x.text)) ∧
      (∀ (g : WrittenCall) (column : Column), g.name.map foldLetter ≠ "where".toList →
        cleanClauseWith options (column.text ++ " = ".toList ++ g.text) =
          column.text ++ " = ".toList ++ requoted g.text) ∧
      ∀ t : Text, Lifted.Closed t → (requoted t = t ↔ ∀ before content rest,
        t = before ++ doubleQuote :: (content ++ doubleQuote :: rest) → Lifted.Closed before →
          doubleQuote ∈ content) :=
  ⟨fun _ _ hne htrim hclosed hb hwhere hq hstrip hresult =>
      cleanClauseWith_lead hne htrim hclosed hb hwhere options hq hstrip hresult,
    fun g x hname => g.cleanClauseWith_word options hname x,
    fun g column hname => g.cleanClauseWith_value options hname column,
    fun _ hclosed => requoted_eq_self_iff hclosed⟩

/-- A lead with literals in both kinds of quotes, before a predicate with a row limit, and a call
with a keyword and brackets among its arguments, as a column and as a value. -/
theorem cleanClauseWith_keeps_but_quotes_sample :
    cleanClauseWith Options.standard
        "SELECT f(x, 'it') FROM \"My (Table\" WHERE A = x LIMIT 5".toList =
      "SELECT f(x, 'it') FROM 'My (Table' WHERE A = 'x' LIMIT 5".toList ∧
    cleanClauseWith Options.standard "f( a, \"b)\" where (c) ) = x".toList =
      "f( a, 'b)' where (c) ) = 'x'".toList ∧
    cleanClauseWith Options.standard "x = f( a, \"b)\" where (c) )".toList =
      "x = f( a, 'b)' where (c) )".toList ∧
    requoted "SELECT f(x, 'it') FROM T".toList = "SELECT f(x, 'it') FROM T".toList := by
  obtain ⟨hlead, hword, hvalue, hsame⟩ := cleanClauseWith_keeps_but_quotes Options.standard
  let g : WrittenCall := ⟨['f'], " a, \"b)\" where (c) ".toList, by decide, by decide +kernel,
    by decide +kernel, by decide +kernel⟩
  let x : Column := ⟨['x'], by decide, by decide +kernel, by decide, by decide +kernel⟩
  refine ⟨?_, ?_, ?_, ?_⟩
  · refine (hlead "SELECT f(x, 'it') FROM \"My (Table\"".toList "A = x LIMIT 5".toList
      (by decide +kernel) (by decide +kernel) (by decide +kernel) (by decide +kernel)
      (by decide +kernel) (by decide +kernel) (by decide +kernel) (by decide +kernel)).trans ?_
    decide +kernel
  · exact (hword g x (by decide +kernel)).trans (by decide +kernel)
  · exact (hvalue g x (by decide +kernel)).trans (by decide +kernel)
  · refine (hsame _ (by decide +kernel)).mpr fun before content rest ht _ => ?_
    have hquote : doubleQuote ∈ "SELECT f(x, 'it') FROM T".toList := by
      rw [ht]
      simp
    exact absurd hquote (by decide +kernel)

/-- A literal between double quotes comes back between single quotes, in a lead and in a call. -/
theorem cleanClause_requotes :
    trim "SELECT Id FROM \"My Table\"".toList = "SELECT Id FROM \"My Table\"".toList ∧
      Lifted.Closed "SELECT Id FROM \"My Table\"".toList ∧
      Bracket.Balanced (Lifted.items "SELECT Id FROM \"My Table\"".toList) ∧
      Subselect.LacksWhere (Lifted.items "SELECT Id FROM \"My Table\"".toList) ∧
      cleanClause "A = x".toList ≠ [] ∧
      cleanClause "SELECT Id FROM \"My Table\" WHERE A = x".toList =
        "SELECT Id FROM 'My Table' WHERE A = 'x'".toList ∧
      cleanClause "SELECT Id FROM \"My Table\" WHERE A = x".toList ≠
        "SELECT Id FROM \"My Table\"".toList ++ " WHERE ".toList ++ cleanClause "A = x".toList ∧
      cleanClause "A = f(\"b\")".toList = "A = f('b')".toList := by
  decide +kernel

end FilterClause
