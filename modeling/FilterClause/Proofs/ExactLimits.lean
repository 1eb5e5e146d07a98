import FilterClause.Proofs.RowLimits

/-!
# Where a row limit stands

A text may hold many keywords, gaps and numbers. It can be cut in at most one way into a body, the
keyword LIMIT, a gap, digits and blanks with no word going on before the keyword
(`RowLimit.Cut.eq_of_ends`), and where it can be, what is detached is that limit
(`RowLimit.detach_exact`). The digits may be of any script; only ASCII digits denote a number.
-/

namespace FilterClause

open Text

namespace RowLimit

/-! ## The number -/

/-- Digits have a value if they are ASCII digits, and then it is the one they denote. -/
theorem digitsValue_eq_some_iff {digits : Text} {acc n : Nat} :
    digitsValue acc digits = some n ↔
      (∀ c ∈ digits, c.isDigit = true) ∧ Nat.ofDigitChars 10 digits acc = n := by
  induction digits generalizing acc with
  | nil => simp [digitsValue]
  | cons c digits ih =>
    rw [digitsValue, List.forall_mem_cons, Nat.ofDigitChars_cons]
    split
    · next hc => rw [ih, and_iff_right hc]
    · next hc => simp [hc]

/-- The number of a limit is the one its digits denote, if they are ASCII digits and it fits. -/
theorem count?_eq_iff {digits : Text} {n : Nat} :
    (count? digits).map UInt64.toNat = some n ↔
      (∀ c ∈ digits, c.isDigit = true) ∧ Nat.ofDigitChars 10 digits 0 = n ∧ n < UInt64.size := by
  rw [← and_assoc, ← digitsValue_eq_some_iff, count?]
  cases digitsValue 0 digits with
  | none => simp
  | some m =>
    by_cases h : m < UInt64.size
    · have hvalue : (UInt64.ofNatLT m h).toNat = m := UInt64.toNat_ofNatLT
      simp only [dif_pos h, Option.map_some, hvalue, Option.some.injEq]
      exact ⟨fun e => ⟨e, e ▸ h⟩, fun e => e.1⟩
    · simp only [dif_neg h, Option.map_none, Option.some.injEq]
      exact ⟨nofun, fun e => absurd (e.1 ▸ e.2) h⟩

/-! ## The keyword -/

/-- No letter of LIMIT has a case sibling outside ASCII. -/
theorem map_foldLetter_limit_iff {keyword : Text} :
    keyword.map foldLetter = ['l', 'i', 'm', 'i', 't'] ↔
      sameIgnoringCase keyword ['L', 'I', 'M', 'I', 'T'] = true := by
  constructor
  · intro h
    rw [sameIgnoringCase_iff, show ['L', 'I', 'M', 'I', 'T'].map Char.toLower =
      ['l', 'i', 'm', 'i', 't'] from rfl, ← h]
    refine List.map_congr_left fun c hc => ?_
    have hmem : foldLetter c ∈ ['l', 'i', 'm', 'i', 't'] := h ▸ List.mem_map_of_mem hc
    rw [foldLetter, if_neg]
    rintro rfl
    exact absurd hmem (by decide)
  · exact fun h => map_foldLetter_of_sameIgnoringCase h (by decide)

/-! ## Cuts -/

/-- A text in five parts. -/
@[ext] structure Cut where
  before : Text
  keyword : Text
  gap : Text
  digits : Text
  after : Text

namespace Cut

/-- The row limit of a cut as it is written. -/
def written (c : Cut) : Text := c.keyword ++ c.gap ++ c.digits

/-- Whether a cut shows that a text ends in a row limit. -/
structure Ends (c : Cut) (t : Text) : Prop where
  whole : t = c.before ++ c.keyword ++ c.gap ++ c.digits ++ c.after
  /-- No word goes on before the keyword. -/
  before : ∀ d ∈ c.before.getLast?, isWord d = false
  /-- The keyword is LIMIT, its ASCII letters in any case. -/
  keyword : sameIgnoringCase c.keyword ['L', 'I', 'M', 'I', 'T'] = true
  gap : c.gap ≠ [] ∧ ∀ d ∈ c.gap, isBlank d = true
  digits : c.digits ≠ [] ∧ ∀ d ∈ c.digits, isWordDigit d = true
  after : ∀ d ∈ c.after, isBlank d = true

section Ends

variable {c : Cut} {t : Text} (h : c.Ends t)

include h

theorem Ends.spelled : Spelled ⟨c.written, count? c.digits⟩ :=
  ⟨c.keyword, c.gap, c.digits, rfl, map_foldLetter_limit_iff.mpr h.keyword, h.gap.1, h.gap.2,
    h.digits.1, h.digits.2⟩

theorem Ends.eq_written : t = c.before ++ c.written ++ c.after := by
  rw [h.whole, written]
  simp only [List.append_assoc]

/-- The parts of a cut end where the next part cannot go on. -/
theorem Ends.last_digits :
    ∀ d ∈ (c.before ++ c.keyword ++ c.gap ++ c.digits).getLast?, isBlank d = false :=
  last_append_run h.digits.1 (fun d hd => isBlank_of_isWordDigit (h.digits.2 d hd)) _

theorem Ends.last_gap :
    ∀ d ∈ (c.before ++ c.keyword ++ c.gap).getLast?, isWordDigit d = false :=
  last_append_run h.gap.1 (fun d hd => isWordDigit_of_isBlank (h.gap.2 d hd)) _

theorem Ends.last_keyword : ∀ d ∈ (c.before ++ c.keyword).getLast?, isBlank d = false :=
  last_of_limit (map_foldLetter_limit_iff.mpr h.keyword) c.before

theorem Ends.length_keyword : c.keyword.length = 5 := by
  simpa using congrArg List.length (map_foldLetter_limit_iff.mpr h.keyword)

end Ends

/-- A text ends in a row limit in one way only. -/
theorem eq_of_ends {c d : Cut} {t : Text} (hc : c.Ends t) (hd : d.Ends t) : c = d := by
  -- The parts are told apart from the end: each is the longest run of its class.
  obtain ⟨hdigits, hafter⟩ := append_inj_of_last hc.last_digits hc.after hd.last_digits hd.after
    (hc.whole.symm.trans hd.whole)
  obtain ⟨hgap, hdigits⟩ :=
    append_inj_of_last hc.last_gap hc.digits.2 hd.last_gap hd.digits.2 hdigits
  obtain ⟨hkeyword, hgap⟩ :=
    append_inj_of_last hc.last_keyword hc.gap.2 hd.last_keyword hd.gap.2 hgap
  obtain ⟨hbefore, hkeyword⟩ := List.append_inj' hkeyword
    (hc.length_keyword.trans hd.length_keyword.symm)
  exact Cut.ext hbefore hkeyword hgap hdigits hafter

/-- The limit of a cut is detached. -/
theorem Ends.detach_eq {c : Cut} {t : Text} (h : c.Ends t) :
    detach t = (trimEnd c.before, some ⟨c.written, count? c.digits⟩) :=
  detach_eq_some_iff.mpr ⟨c.before, c.after, h.eq_written, rfl, h.spelled, h.before, h.after⟩

/-- Where a limit is detached, there is a cut. -/
theorem exists_ends_of_detach {t body : Text} {limit : RowLimit}
    (h : detach t = (body, some limit)) : ∃ c : Cut, c.Ends t := by
  obtain ⟨before, after, rfl, -, hl, hbefore, hafter⟩ := exists_of_detach h
  obtain ⟨keyword, gap, digits, rfl, hkeyword, hgapNe, hgap, hdigitsNe, hdigits⟩ := hl
  refine ⟨⟨before, keyword, gap, digits, after⟩, ?_, hbefore, map_foldLetter_limit_iff.mp hkeyword,
    ⟨hgapNe, hgap⟩, ⟨hdigitsNe, hdigits⟩, hafter⟩
  simp only [List.append_assoc]

end Cut

/-- A limit is detached from a text exactly if the text ends in one. The text ends in one in one
way only, and this way tells the body, the limit as it was written and its number: the number that
the digits denote, if they are ASCII digits and it fits 64 bits. Any other text is its own body. -/
theorem detach_exact (t : Text) :
    ((detach t).2 ≠ none ↔ ∃ c : Cut, c.Ends t) ∧
    (∀ c d : Cut, c.Ends t → d.Ends t → c = d) ∧
    (∀ c : Cut, c.Ends t → ∃ count : Option UInt64,
      detach t = (trimEnd c.before, some ⟨c.keyword ++ c.gap ++ c.digits, count⟩) ∧
      ∀ n : Nat, count.map UInt64.toNat = some n ↔
        (∀ d ∈ c.digits, d.isDigit = true) ∧ Nat.ofDigitChars 10 c.digits 0 = n ∧ n < UInt64.size) ∧
    ((∀ c : Cut, ¬ c.Ends t) → detach t = (t, none)) := by
  have hiff : (detach t).2 ≠ none ↔ ∃ c : Cut, c.Ends t := by
    constructor
    · intro h
      obtain ⟨limit, hl⟩ := Option.ne_none_iff_exists'.mp h
      exact Cut.exists_ends_of_detach (Prod.ext rfl hl)
    · rintro ⟨c, hc⟩
      rw [hc.detach_eq]
      nofun
  refine ⟨hiff, fun c d => Cut.eq_of_ends, fun c hc => ⟨_, hc.detach_eq, fun n => count?_eq_iff⟩,
    fun h => detach_eq_of_none ?_⟩
  by_contra hsome
  obtain ⟨c, hc⟩ := hiff.mp hsome
  exact h c hc

/-- The digits of a limit may be of another script, and an earlier LIMIT stays in the body. -/
example : detach "A Limit 1 lImIt \u0661\u0662\n".toList =
    ("A Limit 1".toList, some ⟨"lImIt \u0661\u0662".toList, none⟩) := by
  decide +kernel

end RowLimit

end FilterClause
