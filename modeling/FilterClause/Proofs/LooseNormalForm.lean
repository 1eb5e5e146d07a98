import FilterClause.Proofs.LooseRendering

/-!
# The normal form of what was written

Every loosely written clause is cleaned to the normal form of its syntax tree, with no warning. The
proof goes along the tree: a comparison by its lexemes, a group by what it holds, two clauses by the
law of joined fragments.
-/

namespace FilterClause

open Text

/-! ## No row limit ends a clause -/

theorem Gap.isBlank_last (gap : Gap) (p : Text) :
    ∀ c ∈ (p ++ gap.text).getLast?, isBlank c = true := by
  intro c hc
  rw [List.getLast?_append_of_ne_nil _ gap.nonempty] at hc
  exact gap.blank c (List.mem_of_getLast? hc)

theorem Word.exists_last (w : Word) : ∃ c ∈ w.text.getLast?, isBlank c = false :=
  ⟨_, List.getLast_mem_getLast? w.nonempty,
    isBlank_of_isWordSign (w.signs _ (List.getLast_mem w.nonempty))⟩

/-- Behind what does not go on into it, a word does not end in a LIMIT of its own. -/
theorem Word.limit_goes_on (w : Word) {p : Text} (hp : ∀ c ∈ p.getLast?, isWord c = false)
    {u r : Text} (h : p ++ w.text = u ++ r) (hr : r.map foldLetter = ['l', 'i', 'm', 'i', 't']) :
    ∃ c ∈ u.getLast?, isWord c = true := by
  rcases List.append_eq_append_iff.mp h with ⟨v, rfl, hv⟩ | ⟨v, rfl, hv⟩
  · obtain ⟨c, hc, hword⟩ := w.not_limit hv hr
    refine ⟨c, ?_, hword⟩
    rw [List.getLast?_append, Option.mem_def.mp hc]
    rfl
  · rcases List.eq_nil_or_concat v with rfl | ⟨v, c, rfl⟩
    · obtain ⟨c, hc, -⟩ := w.not_limit (u := []) hv.symm hr
      cases hc
    · exfalso
      have hfold : foldLetter c ∈ keywordLetters :=
        foldLetter_mem_of_spelling hr (by decide) c (by simp [hv])
      have := hp c (by simp)
      rw [isWord_of_foldLetter hfold] at this
      cases this

/-- Further words keep a value free of limits. -/
theorem Comparand.limit_wordsText (rest : List (Gap × Word)) (w : Word) {p : Text}
    (hp : ∀ c ∈ p.getLast?, isWord c = false) (hw : (RowLimit.detach (p ++ w.text)).2 = none) :
    (RowLimit.detach (p ++ w.text ++ wordsText rest)).2 = none := by
  induction rest generalizing p w with
  | nil => rwa [wordsText, List.append_nil]
  | cons x rest ih =>
    obtain ⟨gap, word⟩ := x
    have hblank : ∀ c ∈ word.text, isBlank c = false := fun c hc =>
      isBlank_of_isWordSign (word.signs c hc)
    have hlast : ∀ c ∈ (p ++ w.text).getLast?, isBlank c = false := by
      intro c hc
      obtain ⟨d, hd, hb⟩ := w.exists_last
      rw [Option.mem_unique hc (List.mem_getLast?_append_of_mem_getLast? hd)]
      exact hb
    have hword : (RowLimit.detach (p ++ w.text ++ gap.text ++ word.text)).2 = none :=
      RowLimit.limit_of_word word.nonempty hblank gap.blank hlast
        (fun h => absurd h gap.nonempty) fun u r => w.limit_goes_on hp
    have := ih word (fun c hc => isWord_of_isBlank (gap.isBlank_last (p ++ w.text) c hc)) hword
    unfold wordsText
    simp only [List.append_assoc] at this ⊢
    exact this

/-- A sign ends in a mark. -/
theorem Sign.exists_last (s : Sign) : ∃ d ∈ s.text.getLast?, d ∈ marks := by
  cases s <;> exact ⟨_, rfl, by decide⟩

/-- Between a column and its value stands no word character. -/
theorem Comparator.isWord_last (o : Comparator) (p : Text) :
    ∀ d ∈ (p ++ o.text).getLast?, isWord d = false := by
  intro d hd
  cases o with
  | sign before s after =>
    rw [Comparator.text, ← List.append_assoc] at hd
    by_cases hempty : after.text = []
    · obtain ⟨e, he, hmark⟩ := s.exists_last
      rw [hempty, List.append_nil, ← List.append_assoc] at hd
      rw [Option.mem_unique hd (List.mem_getLast?_append_of_mem_getLast? he)]
      exact (classes_of_mem_marks hmark).1
    · rw [List.getLast?_append_of_ne_nil _ hempty] at hd
      exact isWord_of_isBlank (after.blank d (List.mem_of_getLast? hd))
  | like before spelling after =>
    rw [Comparator.text, ← List.append_assoc] at hd
    exact isWord_of_isBlank (after.isBlank_last _ d hd)

/-- The first word of a value does not end in a limit. -/
theorem Comparator.limit_first (o : Comparator) (p : Text) (w : Word) :
    (RowLimit.detach (p ++ o.text ++ w.text)).2 = none := by
  have hblank : ∀ d ∈ w.text, isBlank d = false := fun d hd => isBlank_of_isWordSign (w.signs d hd)
  cases o with
  | sign before s after =>
    obtain ⟨d, hd, hmark⟩ := s.exists_last
    obtain ⟨hb, hdigit⟩ := RowLimit.isStop_iff.mp (RowLimit.isStop_of_mem_marks d hmark)
    have hfold : foldLetter d ≠ 't' := (by decide : ∀ d ∈ marks, foldLetter d ≠ 't') d hmark
    have hlimit := RowLimit.limit_of_word_behind (p := p ++ before.text ++ s.text) w.nonempty hblank
      after.blank (List.mem_getLast?_append_of_mem_getLast? hd) hb (fun _ => hdigit) hfold
    simp only [Comparator.text, List.append_assoc] at hlimit ⊢
    exact hlimit
  | like before spelling after =>
    have hletters := map_foldLetter_of_sameIgnoringCase spelling.same (by decide)
    obtain ⟨d, hd, hfold⟩ : ∃ d ∈ spelling.text.getLast?, foldLetter d = 'e' := by
      have hlast : (spelling.text.map foldLetter).getLast? = some 'e' := by
        rw [hletters]
        decide
      rw [List.getLast?_map] at hlast
      exact Option.map_eq_some_iff.mp hlast
    have hstop : RowLimit.isStop d = true :=
      RowLimit.isStop_of_foldLetter (by rw [hfold]; decide)
    have hlimit := RowLimit.limit_of_word_behind (p := p ++ before.text ++ spelling.text) w.nonempty
      hblank after.blank (List.mem_getLast?_append_of_mem_getLast? hd)
      (RowLimit.isStop_iff.mp hstop).1 (fun h => absurd h after.nonempty) (by rw [hfold]; decide)
    simp only [Comparator.text, List.append_assoc] at hlimit ⊢
    exact hlimit

namespace LooseCondition

variable {options : Options} (c : LooseCondition options)

theorem limit_text : (RowLimit.detach c.text).2 = none := by
  unfold text
  cases hv : c.value with
  | words first rest =>
    rw [Comparand.text, ← List.append_assoc]
    exact Comparand.limit_wordsText rest first (c.comparator.isWord_last _)
      (c.comparator.limit_first _ first)
  | literal q content closed =>
    rw [Comparand.text, ← List.append_assoc]
    exact RowLimit.limit_of_last q.isStop _

/-- A comparison starts with its column, which is no WHERE. -/
theorem stripLeadingWhere_append (rest : Text) :
    Normal.stripLeadingWhere (c.text ++ rest) = c.text ++ rest := by
  rw [text, List.append_assoc]
  exact c.column.toColumn.stripLeadingWhere_front c.comparator (c.value.text ++ rest)

theorem exists_head : ∃ d t, c.text = d :: t ∧ isBlank d = false :=
  c.column.toColumn.exists_head c.comparator c.value.text

theorem exists_last : ∃ d ∈ c.text.getLast?, isBlank d = false := by
  have hwords : ∀ (rest : List (Gap × Word)) (w : Word),
      ∃ d ∈ (w.text ++ Comparand.wordsText rest).getLast?, isBlank d = false := by
    intro rest
    induction rest with
    | nil =>
      intro w
      rw [Comparand.wordsText, List.append_nil]
      exact w.exists_last
    | cons x rest ih =>
      intro w
      obtain ⟨gap, word⟩ := x
      obtain ⟨d, hd, hb⟩ := ih word
      rw [Comparand.wordsText, List.append_assoc]
      exact ⟨d, List.mem_getLast?_append_of_mem_getLast?
        (List.mem_getLast?_append_of_mem_getLast? hd), hb⟩
  obtain ⟨d, hd, hb⟩ : ∃ d ∈ c.value.text.getLast?, isBlank d = false := by
    cases c.value with
    | words first rest => exact hwords rest first
    | literal q content closed =>
      exact ⟨q.char, List.getLast?_concat, (RowLimit.isStop_iff.mp q.isStop).1⟩
  exact ⟨d, List.mem_getLast?_append_of_mem_getLast? hd, hb⟩

end LooseCondition

/-! ## Clauses -/

namespace LooseClause

open Fragment

variable {options : Options}

/-- Every loosely written clause is a fragment that starts with a condition and ends with one. -/
theorem reads (c : LooseClause options) : Fragment c.text ∧ Complete c.text ∧ Starts c.text := by
  induction c with
  | condition c => exact ⟨c.fragment, c.complete, c.starts⟩
  | group before clause after ih =>
    have hinner := ih.1.padded before.blank after.blank
    exact ⟨hinner.bracketed, complete_bracketed hinner, starts_bracketed hinner⟩
  | joined left before k spelling after right ihl ihr =>
    obtain ⟨hl, hlc, hls⟩ := ihl
    obtain ⟨hr, hrc, hrs⟩ := ihr
    exact ⟨join hl hr spelling.same before.blank before.nonempty after.blank after.nonempty,
      complete_join hl spelling.same before.blank before.nonempty after.blank after.nonempty hlc
        hrs hrc,
      starts_join hl spelling.same before.blank before.nonempty after.blank after.nonempty hrs hls⟩

theorem exists_head (c : LooseClause options) : ∃ d t, c.text = d :: t ∧ isBlank d = false := by
  induction c with
  | condition c => exact c.exists_head
  | group before clause after _ => exact ⟨_, _, rfl, by decide⟩
  | joined left before k spelling after right ihl _ =>
    obtain ⟨d, t, h, hd⟩ := ihl
    exact ⟨d, t ++ before.text ++ spelling.text ++ after.text ++ right.text,
      by rw [text, h]; rfl, hd⟩

theorem exists_last (c : LooseClause options) : ∃ d ∈ c.text.getLast?, isBlank d = false := by
  induction c with
  | condition c => exact c.exists_last
  | group before clause after _ =>
    refine ⟨')', ?_, by decide⟩
    rw [text, ← List.cons_append]
    exact List.getLast?_concat
  | joined left before k spelling after right _ ihr =>
    obtain ⟨d, hd, hb⟩ := ihr
    exact ⟨d, List.mem_getLast?_append_of_mem_getLast? hd, hb⟩

theorem stripLeadingWhere_append (c : LooseClause options) (rest : Text) :
    Normal.stripLeadingWhere (c.text ++ rest) = c.text ++ rest := by
  induction c generalizing rest with
  | condition c => exact c.stripLeadingWhere_append rest
  | group before clause after _ => rfl
  | joined left before k spelling after right ihl _ =>
    have := ihl (before.text ++ spelling.text ++ after.text ++ right.text ++ rest)
    simp only [text, List.append_assoc] at this ⊢
    exact this

theorem limit_text (c : LooseClause options) : (RowLimit.detach c.text).2 = none := by
  induction c with
  | condition c => exact c.limit_text
  | group before clause after _ =>
    rw [text, ← List.cons_append]
    exact RowLimit.limit_of_last (RowLimit.isStop_of_mem_marks ')' (by decide)) _
  | joined left before k spelling after right _ ihr =>
    rcases List.eq_nil_or_concat after.text with h | ⟨bs, b, h⟩
    · exact absurd h after.nonempty
    · have hb : isBlank b = true := after.blank b (by simp [h])
      rw [text, h, List.concat_eq_append, ← List.append_assoc _ bs, List.append_assoc _ [b],
        List.singleton_append, RowLimit.limit_append hb right.reads.2.2.exists_stop]
      exact ihr

/-- Blanks around a clause are trimmed off, and nothing of the clause. -/
theorem trim_padded (c : LooseClause options) (l r : Blanks) :
    trim (l.text ++ c.text ++ r.text) = c.text := by
  obtain ⟨d, t, hd, hdb⟩ := c.exists_head
  obtain ⟨e, he, heb⟩ := c.exists_last
  refine dropEnds_padded l.blank r.blank (fun x hx => ?_) fun x hx => ?_
  · rw [hd] at hx
    exact Option.some.inj hx ▸ hdb
  · exact Option.mem_unique he hx ▸ heb

/-- A clause that is not too deep is cleaned to its normal form. -/
theorem cleaned_text (c : LooseClause options) {levels : Nat} (h : c.depth ≤ levels) :
    cleaned options (levels + 1) c.text = ⟨c.normal, false, false⟩ := by
  induction c generalizing levels with
  | condition c => exact c.cleaned_text levels
  | group before clause after ih =>
    obtain ⟨m, rfl⟩ : ∃ m, levels = m + 1 := ⟨levels - 1, by rw [depth] at h; omega⟩
    have hinner := clause.reads.1.padded before.blank after.blank
    have htrim := cleaned_trim options m hinner.balanced
    rw [clause.trim_padded before after, ih (Nat.le_of_succ_le_succ h)] at htrim
    rw [text, cleaned_bracketed options (m + 1) hinner.balanced, ← htrim]
    rfl
  | joined left before k spelling after right ihl ihr =>
    have hl : left.depth ≤ levels := Nat.le_trans (Nat.le_max_left _ _) h
    have hr : right.depth ≤ levels := Nat.le_trans (Nat.le_max_right _ _) h
    rw [text, cleaned_join options levels left.reads.1 right.reads.1 spelling.same before.blank
      before.nonempty after.blank after.nonempty left.reads.2.1 right.reads.2.2, ihl hl, ihr hr]
    rfl

theorem normal_ne_nil (c : LooseClause options) : c.normal ≠ [] := by
  induction c with
  | condition c =>
    obtain ⟨d, t, h⟩ := List.exists_cons_of_ne_nil c.column.nonempty
    rw [normal, LooseCondition.normal, h]
    exact List.cons_ne_nil _ _
  | group before clause after _ => exact List.cons_ne_nil _ _
  | joined left before k spelling after right ihl _ =>
    rw [normal, List.append_assoc]
    exact List.append_ne_nil_of_left_ne_nil ihl _

end LooseClause

/-! ## Whole clauses -/

namespace WrittenClause

variable {options : Options} (w : WrittenClause options)

/-- What is left without a leading WHERE. -/
theorem stripLeadingWhere_text :
    Normal.stripLeadingWhere (w.leadText ++ w.clause.text ++ w.suffixText) =
      w.clause.text ++ w.suffixText := by
  unfold leadText
  cases w.lead with
  | none => exact w.clause.stripLeadingWhere_append _
  | some lead =>
    obtain ⟨spelling, gap⟩ := lead
    obtain ⟨b, bs, hgap, hb⟩ := gap.exists_cons
    obtain ⟨d, t, hd, hdb⟩ := w.clause.exists_head
    have hletters := map_foldLetter_of_sameIgnoringCase spelling.same (by decide)
    have hstrip : stripKeyword ['w', 'h', 'e', 'r', 'e']
        (spelling.text ++ (gap.text ++ (w.clause.text ++ w.suffixText))) =
          some (gap.text ++ (w.clause.text ++ w.suffixText)) :=
      stripKeyword_eq_some_iff.mpr ⟨_, rfl, hletters⟩
    have hword : startsWithWord (gap.text ++ (w.clause.text ++ w.suffixText)) = false := by
      rw [hgap]
      exact isWord_of_isBlank hb
    have htrim : trimStart (gap.text ++ (w.clause.text ++ w.suffixText)) =
        w.clause.text ++ w.suffixText := by
      refine dropWhile_append_of_head gap.blank fun c hc => ?_
      rw [hd] at hc
      exact Option.some.inj hc ▸ hdb
    show Normal.stripLeadingWhere (spelling.text ++ gap.text ++ w.clause.text ++ w.suffixText) = _
    rw [List.append_assoc, List.append_assoc, Normal.stripLeadingWhere, hstrip]
    dsimp only
    rw [hword, if_neg Bool.false_ne_true, htrim]

/-- The row limit is detached from the clause. -/
theorem detach_text :
    RowLimit.detach (w.clause.text ++ w.suffixText) =
      (w.clause.text, w.suffix.map LimitSuffix.rowLimit) := by
  unfold suffixText
  cases w.suffix with
  | none =>
    rw [Option.elim_none, List.append_nil]
    exact RowLimit.detach_eq_of_none w.clause.limit_text
  | some s =>
    obtain ⟨d, hd, hb⟩ := w.clause.exists_last
    exact RowLimit.detach_append (fun c hc => Option.mem_unique hd hc ▸ hb) s.before.blank
      s.before.nonempty (map_foldLetter_of_sameIgnoringCase s.spelling.same (by decide))
      s.gap.blank s.gap.nonempty s.decimal s.nonempty

theorem trim_text : trim w.text = w.leadText ++ w.clause.text ++ w.suffixText := by
  obtain ⟨d, t, hd, hdb⟩ := w.clause.exists_head
  obtain ⟨e, he, heb⟩ := w.clause.exists_last
  refine dropEnds_padded w.before.blank w.after.blank (fun c hc => ?_) fun c hc => ?_
  · unfold leadText at hc
    cases hlead : w.lead with
    | none =>
      rw [hlead, hd] at hc
      exact Option.some.inj hc ▸ hdb
    | some lead =>
      obtain ⟨spelling, gap⟩ := lead
      have hpart := isWordPart_of_sameIgnoringCase spelling.same (by decide)
      have hne : spelling.text ≠ [] := fun h => by
        have := sameIgnoringCase_iff.mp spelling.same
        rw [h] at this
        cases this
      obtain ⟨a, v, ha⟩ := List.exists_cons_of_ne_nil hne
      rw [hlead, Option.elim_some, show (spelling, gap).1.text = a :: v from ha] at hc
      exact Option.some.inj hc ▸ isBlank_of_isWordPart (hpart a (ha ▸ List.mem_cons_self))
  · unfold suffixText at hc
    cases hsuffix : w.suffix with
    | none =>
      rw [hsuffix, Option.elim_none, List.append_nil] at hc
      exact Option.mem_unique (List.mem_getLast?_append_of_mem_getLast? he) hc ▸ heb
    | some s =>
      rw [hsuffix, Option.elim_some, LimitSuffix.text, ← List.append_assoc,
        List.getLast?_append_of_ne_nil _ s.nonempty] at hc
      exact isBlank_of_isWordDigit (s.decimal c (List.mem_of_getLast? hc))

/-- What was written is cleaned to its normal form, without any warning. -/
theorem ofText_written (h : w.clause.depth ≤ 128) :
    Normal.ofText options w.text =
      { text := w.normal
        limit := w.suffix.map LimitSuffix.rowLimit
        strayQuote := false
        looseBracket := false
        tooDeep := false } := by
  have hbody : RowLimit.detach (Normal.stripLeadingWhere (trim w.text)) =
      (w.clause.text, w.suffix.map LimitSuffix.rowLimit) := by
    rw [w.trim_text, w.stripLeadingWhere_text, w.detach_text]
  have hne : (trim w.text).isEmpty = false := by
    obtain ⟨d, t, hd, -⟩ := w.clause.exists_head
    rw [w.trim_text, hd]
    simp
  have hattach :
      RowLimit.attach w.clause.normal (w.suffix.map LimitSuffix.rowLimit) = w.normal := by
    unfold normal
    cases w.suffix with
    | none => exact (List.append_nil _).symm
    | some s =>
      rw [Option.map_some, RowLimit.attach,
        List.isEmpty_eq_false_iff.mpr w.clause.normal_ne_nil, if_neg Bool.false_ne_true]
      rfl
  have hcleaned := w.clause.cleaned_text (show w.clause.depth ≤ Cleaned.maxNesting from h)
  rw [Normal.ofText, hne, if_neg Bool.false_ne_true,
    Normal.ofTrimmed_eq options hbody w.clause.reads.1, hcleaned, hattach]

/-- A clause with a WHERE, a group, quotes of both kinds and a row limit. -/
def sample : WrittenClause Options.standard where
  before := ⟨[' '], by decide⟩
  lead := some (⟨"Where".toList, by decide⟩, ⟨⟨[' '], by decide⟩, by decide⟩)
  clause :=
    .joined
      (.condition
        { column :=
            ⟨"Stage".toList, by decide, by decide, fun k => by cases k <;> decide, by decide⟩
          comparator := .sign ⟨[], by decide⟩ .notEqual ⟨[' ', ' '], by decide⟩
          value := .words
            ⟨"Closed".toList, by decide, by decide, fun k => by cases k <;> decide, by decide⟩
            [(⟨⟨['\t'], by decide⟩, by decide⟩,
              ⟨"Won".toList, by decide, by decide, fun k => by cases k <;> decide, by decide⟩)]
          verbatim := fun _ _ h => by cases h })
      ⟨⟨['\n'], by decide⟩, by decide⟩ .or ⟨"Or".toList, by decide⟩
      ⟨⟨[' '], by decide⟩, by decide⟩
      (.group ⟨[' '], by decide⟩
        (.condition
          { column :=
              ⟨"Name".toList, by decide, by decide, fun k => by cases k <;> decide, by decide⟩
            comparator := .like ⟨⟨[' '], by decide⟩, by decide⟩ ⟨"like".toList, by decide⟩
              ⟨⟨[' '], by decide⟩, by decide⟩
            value := .literal .double "%O'Neil".toList (by decide)
            verbatim := fun h => absurd h (by decide +kernel) })
        ⟨[], by decide⟩)
  suffix := some ⟨⟨⟨[' '], by decide⟩, by decide⟩, ⟨"limit".toList, by decide⟩,
    ⟨⟨[' '], by decide⟩, by decide⟩, "5".toList, by decide, by decide +kernel⟩
  after := ⟨[], by decide⟩

/-- The sample is cleaned as the law says. -/
theorem ofText_written_sample :
    Normal.ofText Options.standard
        " Where Stage!=  Closed\tWon\nOr ( Name like \"%O'Neil\") limit 5".toList =
      { text := "Stage != 'Closed Won' OR (Name LIKE '%O\x27\x27Neil%') limit 5".toList
        limit := some ⟨"limit 5".toList, some 5⟩
        strayQuote := false
        looseBracket := false
        tooDeep := false } := by
  have htext : sample.text =
      " Where Stage!=  Closed\tWon\nOr ( Name like \"%O'Neil\") limit 5".toList := by decide
  have hnormal : sample.normal =
      "Stage != 'Closed Won' OR (Name LIKE '%O\x27\x27Neil%') limit 5".toList := by
    decide +kernel
  have hlimit : sample.suffix.map LimitSuffix.rowLimit = some ⟨"limit 5".toList, some 5⟩ := by
    decide
  rw [← htext, ← hnormal, ← hlimit]
  exact ofText_written sample (by decide)

end WrittenClause

end FilterClause
