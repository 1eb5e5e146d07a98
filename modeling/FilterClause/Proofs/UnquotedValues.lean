import FilterClause.Proofs.Containment
import FilterClause.Proofs.LooseNormalForm

/-!
# Values without quotes

A value that is written without quotes is read as its words. What stands between the words is
dropped, and the words are quoted with one space between neighbours. So the value is quoted as it
stands exactly if it holds nothing but characters of words and spaces
(`Column.cleanClauseWith_unquoted`).
-/

namespace FilterClause

open Text

/-- The keywords that an unquoted value does not hold. -/
def valueKeywords : List Text :=
  ["and".toList, "or".toList, "like".toList, "where".toList, "limit".toList, "true".toList,
   "false".toList]

/-- A value without quotes: runs without blanks, with one space between neighbours. It holds no
mark, and no keyword stands alone in it. -/
structure UnquotedValue where
  runs : List Text
  nonempty : runs ≠ []
  solid : ∀ r ∈ runs, r ≠ [] ∧ ∀ c ∈ r, isBlank c = false
  noMark : ∀ r ∈ runs, ∀ c ∈ r, c ∉ marks ∧ c ≠ '%'
  noKeyword : ∀ k ∈ valueKeywords, Lacks isWord k (joinSpaced runs)
  noWhere : Lacks isName "where".toList (joinSpaced runs)

/-- The value as it is written. -/
def UnquotedValue.text (v : UnquotedValue) : Text := joinSpaced v.runs

namespace Text

theorem isWord_of_foldLetter_isAlphanum {c : Char} (h : (foldLetter c).isAlphanum = true) :
    isWord c = true := by
  unfold foldLetter at h
  split at h
  · next hkelvin =>
    rw [hkelvin]
    decide +kernel
  · exact (isWord_and_isName_of_isAlphanum (isAlphanum_of_toLower h)).1

end Text

namespace UnquotedValue

variable (v : UnquotedValue)

theorem not_mark {c : Char} (h : c ∈ v.text) : c ∉ marks ∧ c ≠ '%' := by
  rcases mem_joinSpaced h with rfl | ⟨r, hr, hc⟩
  · decide
  · exact v.noMark r hr c hc

theorem plain : Fragment.Plain v.text := .of_not_mem_marks fun _ hc => (v.not_mark hc).1

theorem ofText_eq : Lexeme.ofText v.text = (words v.text).map .word :=
  Lexeme.ofText_eq_words (fun _ hc => (v.not_mark hc).1) (v.noKeyword _ (by decide))

/-- No word of the value spells a keyword. -/
theorem not_keyword {w k : Text} (hw : w ∈ words v.text) (hk : k ∈ valueKeywords) :
    w.map foldLetter ≠ k := by
  intro hfold
  have halnum : ∀ k ∈ valueKeywords, ∀ c ∈ k, c.isAlphanum = true := by decide
  have hword : ∀ c ∈ w, isWord c = true := fun c hc =>
    isWord_of_foldLetter_isAlphanum (halnum k hk _ (hfold ▸ List.mem_map_of_mem hc))
  have hpart : ∀ c, isWord c = true → Token.isWordPart c = true := fun c hc => by
    simp [Token.isWordPart, hc]
  exact v.noKeyword k hk w (mem_runsOf_of_le hpart (mem_words hw).1 hword) hfold

theorem not_connective {l : Lexeme} (h : l ∈ (words v.text).map .word) : l.connective? = none := by
  obtain ⟨w, hw, rfl⟩ := List.mem_map.mp h
  have hspell : ∀ k : Connective, sameIgnoringCase w k.text = false := by
    intro k
    cases hs : sameIgnoringCase w k.text with
    | false => rfl
    | true =>
      refine absurd (map_foldLetter_of_sameIgnoringCase hs ?_) (v.not_keyword hw ?_)
      · cases k <;> decide
      · cases k <;> decide
  simp [Lexeme.connective?, Token.connective?, hspell]

/-- The value is no truth value. -/
theorem not_isBoolean : Comparison.isBoolean (lower (joinSpaced (words v.text))) = false := by
  have key : ∀ k ∈ ["true".toList, "false".toList], lower (joinSpaced (words v.text)) ≠ k := by
    intro k hk h
    have hletters : ∀ k ∈ ["true".toList, "false".toList],
        ∀ d ∈ k, d.toNat < 128 ∧ d ∉ ['i', 'k', '\x00'] := by decide
    have hfold := map_foldLetter_of_lower (hletters k hk) h
    have hspace : ' ' ∉ joinSpaced (words v.text) := by
      intro hm
      have hnone : ∀ k ∈ ["true".toList, "false".toList], foldLetter ' ' ∉ k := by decide
      exact hnone k hk (hfold ▸ List.mem_map_of_mem hm)
    have hlength := length_le_count_joinSpaced (words v.text)
    rw [List.count_eq_zero_of_not_mem hspace] at hlength
    match hwords : words v.text with
    | [] =>
      rw [hwords] at hfold
      subst hfold
      simp at hk
    | [w] =>
      rw [hwords, joinSpaced_singleton] at hfold
      refine v.not_keyword (w := w) (by simp [hwords]) ?_ hfold
      simp only [List.mem_cons, List.not_mem_nil, or_false] at hk
      rcases hk with rfl | rfl <;> decide
    | w :: w' :: ws =>
      rw [hwords] at hlength
      simp at hlength
  simp [Comparison.isBoolean, key]

/-- Words and the spaces between them. -/
theorem mem_joinSpaced_words {c : Char} (h : c ∈ joinSpaced (words v.text)) :
    c = ' ' ∨ Token.isWordPart c = true ∧ c ∈ v.text := by
  refine (mem_joinSpaced h).imp_right ?_
  rintro ⟨w, hw, hc⟩
  obtain ⟨hrun, -, hparts⟩ := mem_words hw
  obtain ⟨u, u', ht, -, -, -⟩ := mem_runsOf_iff.mp hrun
  exact ⟨hparts c hc, by simp [ht, hc]⟩

theorem not_mem_joinSpaced_words : singleQuote ∉ joinSpaced (words v.text) ∧
    '%' ∉ joinSpaced (words v.text) := by
  constructor
  · intro h
    rcases v.mem_joinSpaced_words h with he | ⟨-, hm⟩
    · exact absurd he (by decide)
    · exact (v.not_mark hm).1 (by decide)
  · intro h
    rcases v.mem_joinSpaced_words h with he | ⟨-, hm⟩
    · exact absurd he (by decide)
    · exact (v.not_mark hm).2 rfl

/-- The words of the value are the value exactly if nothing in it is dropped. -/
theorem joinSpaced_words_iff :
    joinSpaced (words v.text) = v.text ↔
      ∀ c ∈ v.text, c = ' ' ∨ Token.isWordPart c = true := by
  constructor
  · intro h c hc
    rw [← h] at hc
    exact (v.mem_joinSpaced_words hc).imp_right And.left
  · intro h
    have key : ∀ rs : List Text, (∀ r ∈ rs, r ≠ [] ∧ ∀ c ∈ r, Token.isWordPart c = true) →
        words (joinSpaced rs) = rs := by
      intro rs
      induction rs with
      | nil => exact fun _ => rfl
      | cons r rs ih =>
        intro hrs
        obtain ⟨⟨hne, hr⟩, hrest⟩ := List.forall_mem_cons.mp hrs
        cases rs with
        | nil => rw [joinSpaced_singleton, words_of_forall hne hr]
        | cons s rs =>
          rw [joinSpaced_cons_cons, words_cut (by decide +kernel), words_of_forall hne hr,
            ih hrest, List.singleton_append]
    have hruns : ∀ r ∈ v.runs, r ≠ [] ∧ ∀ c ∈ r, Token.isWordPart c = true := by
      intro r hr
      obtain ⟨hne, hsolid⟩ := v.solid r hr
      refine ⟨hne, fun c hc => (h c (subset_joinSpaced hr hc)).resolve_left ?_⟩
      rintro rfl
      exact absurd (hsolid ' ' hc) (by decide)
    rw [text, key v.runs hruns]

theorem last_text : ∃ c ∈ v.text.getLast?, isBlank c = false := by
  have key : ∀ rs : List Text, rs ≠ [] → (∀ r ∈ rs, r ≠ [] ∧ ∀ c ∈ r, isBlank c = false) →
      ∃ c ∈ (joinSpaced rs).getLast?, isBlank c = false := by
    intro rs
    induction rs with
    | nil => exact fun h => absurd rfl h
    | cons r rs ih =>
      intro _ hrs
      obtain ⟨⟨hne, hsolid⟩, hrest⟩ := List.forall_mem_cons.mp hrs
      cases rs with
      | nil =>
        rw [joinSpaced_singleton]
        exact ⟨_, List.getLast_mem_getLast? hne, hsolid _ (List.getLast_mem hne)⟩
      | cons s rs =>
        obtain ⟨c, hc, hblank⟩ := ih (List.cons_ne_nil s rs) hrest
        rw [joinSpaced_cons_cons]
        refine ⟨c, List.mem_getLast?_append_of_mem_getLast? ?_, hblank⟩
        rw [List.getLast?_cons, Option.mem_def.mp hc]
        rfl
  exact key v.runs v.nonempty v.solid

end UnquotedValue

/-! ## A column compared with an unquoted value -/

/-- A comparator ends in a letter or a sign that no LIMIT has, and blanks. -/
theorem Comparator.exists_stop (o : Comparator) :
    ∃ s c bs, o.text = s ++ c :: bs ∧ RowLimit.isStop c = true ∧
      foldLetter c ∉ ['l', 'i', 'm', 'i', 't'] ∧ ∀ b ∈ bs, isBlank b = true := by
  cases o with
  | sign before s after =>
    obtain ⟨u, c, hs, hmark, hfold⟩ : ∃ u c, s.text = u ++ [c] ∧ c ∈ marks ∧
        foldLetter c ∉ ['l', 'i', 'm', 'i', 't'] := by
      cases s
      case notEqual => exact ⟨['!'], '=', rfl, by decide, by decide⟩
      case greaterEqual => exact ⟨['>'], '=', rfl, by decide, by decide⟩
      case lessEqual => exact ⟨['<'], '=', rfl, by decide, by decide⟩
      all_goals exact ⟨[], _, rfl, by decide, by decide⟩
    refine ⟨before.text ++ u, c, after.text, ?_, RowLimit.isStop_of_mem_marks c hmark, hfold,
      after.blank⟩
    rw [text, hs]
    simp
  | like before spelling after =>
    have hfold := map_foldLetter_of_sameIgnoringCase spelling.same (by decide)
    rcases List.eq_nil_or_concat spelling.text with hs | ⟨u, c, hs⟩
    · rw [hs] at hfold
      cases hfold
    · have hmap : u.map foldLetter ++ [foldLetter c] = ['l', 'i', 'k'] ++ ['e'] := by
        rw [hs, List.concat_eq_append, List.map_append] at hfold
        exact hfold
      have hlast : foldLetter c = 'e' :=
        List.singleton_inj.mp (List.append_inj' hmap rfl).2
      refine ⟨before.text ++ u, c, after.text, ?_, RowLimit.isStop_of_foldLetter ?_, ?_,
        after.blank⟩
      · rw [text, hs]
        simp
      · rw [hlast]
        decide
      · rw [hlast]
        decide

theorem Comparator.pattern_inj (o : Comparator) {s t : Text} (h : o.pattern s = o.pattern t) :
    s = t := by
  cases o with
  | sign before s after => exact h
  | like before spelling after => exact List.append_cancel_right (List.cons.inj h).2

namespace Column

open Fragment

/-- An identifier that is no keyword is a column. -/
def ofIdentifier (name : Text) (hne : name ≠ [])
    (h : ∀ c ∈ name, isWord c = true ∧ isName c = true)
    (hlike : name.map foldLetter ≠ "like".toList)
    (hwhere : name.map foldLetter ≠ "where".toList) : Column where
  text := name
  nonempty := hne
  wordParts := fun c hc => by simp [Token.isWordPart, h c hc]
  notLike := Token.likeLength?_of_lacks (.of_forall (fun c hc => (h c hc).1) hlike)
  whereFree := Subselect.whereFree_of_lacks (.of_forall (fun c hc => (h c hc).2) hwhere)

variable (options : Options) (column : Column) (o : Comparator) (v : UnquotedValue)

/-- No row limit ends a comparison with an unquoted value. -/
theorem limit_unquoted : (RowLimit.detach (column.text ++ o.text ++ v.text)).2 = none := by
  obtain ⟨s, c, bs, ho, hc, hfold, hbs⟩ := o.exists_stop
  have hlacks : Lacks isWord ['l', 'i', 'm', 'i', 't'] (bs ++ v.text) :=
    (v.noKeyword _ (by decide)).append (by decide) fun b hb => isWord_of_isBlank (hbs b hb)
  have hlimit := RowLimit.limit_of_lacks hc hfold hlacks (column.text ++ s)
  rw [ho]
  simpa using hlimit

theorem trim_unquoted :
    trim (column.text ++ o.text ++ v.text) = column.text ++ o.text ++ v.text := by
  obtain ⟨t, ht⟩ : ∃ t, t = column.text ++ o.text ++ v.text := ⟨_, rfl⟩
  obtain ⟨d, u, hd, hdb⟩ := column.exists_head o v.text
  obtain ⟨e, he, heb⟩ := v.last_text
  have := dropEnds_padded (p := isBlank) (l := []) (t := t) (r := []) nofun nofun
    (fun c hc => by rw [ht, hd] at hc; exact Option.some.inj hc ▸ hdb)
    (fun c hc => by
      rw [ht] at hc
      rwa [Option.mem_unique hc (List.mem_getLast?_append_of_mem_getLast? he)])
  rwa [List.nil_append, List.append_nil, ht] at this

theorem plain_unquoted : Plain (column.text ++ o.text ++ v.text) :=
  (column.plain_front o).append v.plain

theorem fragment_unquoted : Fragment (column.text ++ o.text ++ v.text) := by
  have hplain := column.plain_unquoted o v
  have hitems := Lifted.items_of_no_quotes hplain.not_quote
  refine ⟨Lifted.closed_of_no_quotes hplain.not_quote, ?_, ?_⟩
  · rw [hitems]
    exact hplain.balanced
  · rw [hitems, List.map_append, List.map_append, List.append_assoc]
    exact o.whereFree_append column.whereFree (Subselect.whereFree_of_lacks v.noWhere)

theorem lexemes_unquoted (levels : Nat) :
    lexemes options levels (column.text ++ o.text ++ v.text) =
      .word column.text :: .operator o.operator :: (words v.text).map .word := by
  have hhead : v.text.head? ≠ some '=' := by
    intro h
    exact (v.not_mark (List.mem_of_mem_head? h)).1 (by decide)
  rw [lexemes_of_plain options levels (column.plain_unquoted o v), column.ofText_front o hhead,
    v.ofText_eq]

/-- The words of the value are quoted, with one space between neighbours. -/
theorem render_unquoted {p : Places} {value : List Token} (horder : o.isOrder = false)
    (hdate : options.isDateField column.text = false)
    (hvalue : value.map p.fill = (words v.text).map .word) :
    Comparison.render ⟨column.text, o.operator, value⟩ p options =
      column.text ++ ' ' :: o.normal ++ ' ' ::
        (singleQuote :: o.pattern (joinSpaced (words v.text)) ++ [singleQuote]) := by
  have hcall : Comparison.isCall ⟨column.text, o.operator, value⟩ = false := by
    rw [← isLoneCall_fill p, hvalue]
    rcases words v.text with _ | ⟨w, _ | ⟨w', ws⟩⟩ <;> rfl
  have hrender : p.renderAll value = joinSpaced (words v.text) := by
    rw [renderAll_fill, hvalue, List.map_map]
    exact congrArg joinSpaced (List.map_id _)
  have hinner : Comparison.inner ⟨column.text, o.operator, value⟩ p =
      joinSpaced (words v.text) := by
    have hbare : ∀ ws : List Text, Lexeme.inner (ws.map .word) =
        dropEnds (· == '%') (joinSpaced ((ws.map .word).map Lexeme.renderBare)) := by
      rintro (_ | ⟨w, _ | ⟨w', ws⟩⟩) <;> rfl
    have hmap : ((words v.text).map .word).map Lexeme.renderBare = words v.text := by
      rw [List.map_map]
      exact List.map_id _
    rw [← inner_fill, hvalue, hbare, hmap]
    refine dropEnds_of_forall fun c hc => ?_
    rw [beq_eq_false_iff_ne]
    rintro rfl
    exact v.not_mem_joinSpaced_words.2 hc
  have hneeds : Comparison.needsQuotes ⟨column.text, o.operator, value⟩ p options = true := by
    rw [Comparison.needsQuotes, hcall, Comparator.isRange_operator, horder, hdate, hrender,
      v.not_isBoolean]
    rfl
  have hpattern : singleQuote ∉ o.pattern (joinSpaced (words v.text)) := by
    have hnot := v.not_mem_joinSpaced_words.1
    cases o with
    | sign before s after => exact hnot
    | like before spelling after => simp [Comparator.pattern, hnot]; decide
  rw [Comparison.render, Comparison.renderValue, hneeds, if_pos rfl, hinner,
    Comparator.pattern_operator, quoteValue_of_not_mem hpattern, Comparator.upper_operator]
  rfl

/-- A column compared with an unquoted value is cleaned to the column, the operator and the words
of the value in quotes. The value is quoted as it stands exactly if it holds nothing but
characters of words and spaces. -/
theorem cleanClauseWith_unquoted (horder : o.isOrder = false)
    (hdate : options.isDateField column.text = false) :
    cleanClauseWith options (column.text ++ o.text ++ v.text) =
        column.text ++ ' ' :: o.normal ++ ' ' ::
          (singleQuote :: o.pattern (joinSpaced (words v.text)) ++ [singleQuote]) ∧
      (cleanClauseWith options (column.text ++ o.text ++ v.text) =
          column.text ++ ' ' :: o.normal ++ ' ' ::
            (singleQuote :: o.pattern v.text ++ [singleQuote]) ↔
        ∀ c ∈ v.text, c = ' ' ∨ Token.isWordPart c = true) := by
  have htrim := column.trim_unquoted o v
  have hdetach : RowLimit.detach (Normal.stripLeadingWhere
      (trim (column.text ++ o.text ++ v.text))) = (column.text ++ o.text ++ v.text, none) := by
    rw [htrim, column.stripLeadingWhere_front o v.text]
    exact RowLimit.detach_eq_of_none (column.limit_unquoted o v)
  obtain ⟨p, value, hvalue, hcleaned⟩ := cleaned_comparison options Cleaned.maxNesting
    (column.fragment_unquoted o v) (column.lexemes_unquoted options o v _)
    (groups_of_plain options _ (column.plain_unquoted o v)) fun l hl => v.not_connective hl
  have htext : cleanClauseWith options (column.text ++ o.text ++ v.text) =
      column.text ++ ' ' :: o.normal ++ ' ' ::
        (singleQuote :: o.pattern (joinSpaced (words v.text)) ++ [singleQuote]) := by
    rw [cleanClauseWith_of_detach options hdetach, hcleaned, RowLimit.attach_none]
    exact column.render_unquoted options o v horder hdate hvalue
  refine ⟨htext, ?_⟩
  rw [htext, ← v.joinSpaced_words_iff]
  constructor
  · intro h
    have hvalue := List.append_cancel_left h
    simp only [List.cons.injEq, true_and, List.append_cancel_right_eq] at hvalue
    exact o.pattern_inj hvalue
  · intro h
    rw [h]

/-- A sign inside a value is dropped. -/
theorem cleanClause_drops_sign :
    ∃ (column : Column) (v : UnquotedValue), column.text = "Email".toList ∧
      (∀ c ∈ column.text, isWord c = true ∧ isName c = true) ∧
      Options.standard.isDateField column.text = false ∧
      v.text = "john@example.com".toList ∧
      cleanClause (column.text ++ " = ".toList ++ v.text) = "Email = 'john example.com'".toList ∧
      cleanClause (column.text ++ " = ".toList ++ v.text) ≠
        column.text ++ " = '".toList ++ v.text ++ "'".toList := by
  refine ⟨ofIdentifier "Email".toList (by decide) (by decide +kernel) (by decide) (by decide),
    { runs := ["john@example.com".toList]
      nonempty := by decide
      solid := by decide +kernel
      noMark := by decide +kernel
      noKeyword := by decide +kernel
      noWhere := by decide +kernel }, rfl, ?_⟩
  decide +kernel

/-- A value of words is quoted as it stands. -/
theorem cleanClauseWith_unquoted_version :
    cleanClauseWith Options.standard "Version != 2.0-rc+1 x_y".toList =
      "Version != '2.0-rc+1 x_y'".toList := by
  have hspace : ∀ b ∈ [' '], isBlank b = true := by decide
  exact (cleanClauseWith_unquoted Options.standard
    (ofIdentifier "Version".toList (by decide) (by decide +kernel) (by decide) (by decide))
    (.sign ⟨[' '], hspace⟩ .notEqual ⟨[' '], hspace⟩)
    { runs := ["2.0-rc+1".toList, "x_y".toList]
      nonempty := by decide
      solid := by decide +kernel
      noMark := by decide +kernel
      noKeyword := by decide +kernel
      noWhere := by decide +kernel } rfl (by decide +kernel)).2.mpr (by decide +kernel)

end Column

end FilterClause
