import FilterClause.Clause.RowLimit
import FilterClause.Proofs.Keywords
import FilterClause.Proofs.Texts

/-!
# Row limits at the end of a text

A row limit is read from the end. What stands before a blank does not count as soon as the text
behind that blank holds more than blanks and digits.
-/

namespace FilterClause

open Text

namespace RowLimit

/-- A text without a row limit is its own body. -/
theorem detach_eq_of_none {t : Text} (h : (detach t).2 = none) : detach t = (t, none) := by
  unfold detach at h ⊢
  dsimp only at h ⊢
  split
  · rfl
  · next before hs =>
    rw [hs] at h
    dsimp only at h
    split
    · rfl
    · next hcond =>
      rw [if_neg hcond] at h
      cases h

/-- Whether a character is more than a blank or a digit of a row limit. -/
def isStop (c : Char) : Bool := !isBlank c && !isWordDigit c

theorem isStop_iff {c : Char} : isStop c = true ↔ isBlank c = false ∧ isWordDigit c = false := by
  simp [isStop]

theorem isStop_of_foldLetter {c : Char} (h : foldLetter c ∈ keywordLetters) :
    isStop c = true :=
  isStop_iff.mpr ⟨isBlank_of_isWord (isWord_of_foldLetter h), isWordDigit_of_foldLetter h⟩

theorem isStop_of_mem_marks (c : Char) (h : c ∈ marks) : isStop c = true :=
  isStop_iff.mpr ⟨(by decide : ∀ d ∈ marks, isBlank d = false) c h, (classes_of_mem_marks h).2.2⟩

/-- What stands before a blank does not change the limit behind it. -/
theorem limit_append {b : Char} (hb : isBlank b = true) {t : Text} (ht : ∃ c ∈ t, isStop c = true)
    (s : Text) : (detach (s ++ b :: t)).2 = (detach t).2 := by
  obtain ⟨c, hc, hstop⟩ := ht
  obtain ⟨hcb, hcd⟩ := isStop_iff.mp hstop
  have hmem : c ∈ t.reverse := List.mem_reverse.mpr hc
  have hback : c ∈ t.reverse.dropWhile isBlank := mem_dropWhile_of_not hmem hcb
  have hfront : c ∈ (t.reverse.dropWhile isBlank).dropWhile isWordDigit :=
    mem_dropWhile_of_not hback hcd
  have hl : foldLetter b ∉ ['t', 'i', 'm', 'i', 'l'] :=
    foldLetter_not_mem_of_isBlank hb (by decide)
  have hdigit := isWordDigit_of_isBlank hb
  unfold detach
  simp only [List.reverse_append, List.reverse_cons, List.append_assoc, List.singleton_append,
    dropWhile_append_of_exists ⟨c, hmem, hcb⟩, dropWhile_append_stop hdigit,
    takeWhile_append_stop hdigit, takeWhile_append_of_exists ⟨c, hfront, hcb⟩,
    dropWhile_append_of_exists ⟨c, hfront, hcb⟩, stripKeyword_append_stop hl]
  cases hs : stripKeyword ['t', 'i', 'm', 'i', 'l']
      (((t.reverse.dropWhile isBlank).dropWhile isWordDigit).dropWhile isBlank) with
  | none => rfl
  | some before =>
    obtain ⟨w, hw, hk⟩ := stripKeyword_eq_some_iff.mp hs
    have hlen : w.length = 5 := by simpa using congrArg List.length hk
    have htake : (w ++ (before ++ b :: s.reverse)).take 5 = (w ++ before).take 5 := by
      rw [List.take_append_of_le_length (by omega), List.take_append_of_le_length (by omega)]
    rw [hw]
    simp only [Option.map_some, startsWithWord_append_stop (isWord_of_isBlank hb),
      List.append_assoc, htake]
    split <;> rfl

/-- Blanks and digits alone make up no limit. -/
theorem limit_of_no_stop {t : Text} (h : ∀ c ∈ t, isStop c = false) : (detach t).2 = none := by
  unfold detach
  dsimp only
  split
  · rfl
  · next before hs =>
    obtain ⟨w, hw, hk⟩ := stripKeyword_eq_some_iff.mp hs
    obtain ⟨c, w, rfl⟩ : ∃ c w', w = c :: w' := by
      cases w with
      | nil => cases hk
      | cons c w => exact ⟨c, w, rfl⟩
    have hmem : c ∈ ((t.reverse.dropWhile isBlank).dropWhile isWordDigit).dropWhile isBlank := by
      rw [hw]
      exact List.mem_cons_self
    have hc : c ∈ t :=
      List.mem_reverse.mp (mem_of_mem_dropWhile (mem_of_mem_dropWhile (mem_of_mem_dropWhile hmem)))
    have hfold : foldLetter c ∈ keywordLetters := by
      rw [(List.cons.inj hk).1]
      decide
    have := h c hc
    rw [isStop_of_foldLetter hfold] at this
    cases this

theorem limit_append_blanks {r : Text} (hr : ∀ c ∈ r, isBlank c = true) (t : Text) :
    (detach (t ++ r)).2 = (detach t).2 := by
  have hback : (t ++ r).reverse.dropWhile isBlank = t.reverse.dropWhile isBlank := by
    rw [List.reverse_append, List.dropWhile_append_of_pos fun c hc => hr c (List.mem_reverse.mp hc)]
  unfold detach
  simp only [hback]
  split
  · rfl
  · split <;> rfl

/-- Blanks at the ends do not matter to a row limit. -/
theorem limit_trim (t : Text) : (detach (trim t)).2 = (detach t).2 := by
  obtain ⟨l, r, ht, hl, hr⟩ := exists_eq_append_dropEnds isBlank t
  have hfull : (detach t).2 = (detach (l ++ trim t)).2 := by
    rw [← limit_append_blanks hr (l ++ trim t)]
    exact congrArg (fun u => (detach u).2) ht
  rw [hfull]
  rcases List.eq_nil_or_concat l with rfl | ⟨l, b, rfl⟩
  · rfl
  · by_cases hstop : ∃ c ∈ trim t, isStop c = true
    · rw [List.concat_eq_append, List.append_assoc, List.singleton_append,
        limit_append (hl b (by simp)) hstop]
    · have hnone : ∀ c ∈ trim t, isStop c = false := fun c hc => by
        cases hs : isStop c with
        | false => rfl
        | true => exact absurd ⟨c, hc, hs⟩ hstop
      rw [limit_of_no_stop hnone, limit_of_no_stop]
      intro c hc
      rcases List.mem_append.mp hc with hc | hc
      · simp [isStop, hl c hc]
      · exact hnone c hc

/-- A text that the letters of LIMIT end has a letter at its end. -/
theorem getLast?_of_limit {p u r : Text} (hp : p = u ++ r)
    (hr : r.map foldLetter = ['l', 'i', 'm', 'i', 't']) :
    ∃ c ∈ p.getLast?, foldLetter c = 't' := by
  rcases List.eq_nil_or_concat r with rfl | ⟨r, c, rfl⟩
  · cases hr
  · refine ⟨c, by simp [hp], ?_⟩
    rw [List.concat_eq_append, List.map_append] at hr
    have hlast : ['l', 'i', 'm', 'i', 't'] = ['l', 'i', 'm', 'i'] ++ ['t'] := rfl
    exact (List.cons.inj (List.append_inj' (hr.trans hlast) rfl).2).1

theorem last_of_limit {r : Text} (hr : r.map foldLetter = ['l', 'i', 'm', 'i', 't']) (u : Text) :
    ∀ c ∈ (u ++ r).getLast?, isBlank c = false := by
  intro c hc
  obtain ⟨d, hd, hfold⟩ := getLast?_of_limit (p := u ++ r) rfl hr
  obtain rfl : d = c := Option.mem_unique hd hc
  exact (isStop_iff.mp (isStop_of_foldLetter (by rw [hfold]; decide))).1

/-! ## Reading from the end -/

section Parts

variable {front gap digits : Text}
  (hdigits : ∀ c ∈ digits, isWordDigit c = true) (hdigitsNe : digits ≠ [])
  (hgap : ∀ c ∈ gap, isBlank c = true)
  (hfrontGap : ∀ c ∈ (front ++ gap).getLast?, isWordDigit c = false)
  (hfront : ∀ c ∈ front.getLast?, isBlank c = false)

include hdigits hdigitsNe hgap hfrontGap hfront

/-- A text is read from its end as digits, blanks and what stands before them. -/
theorem detach_parts :
    detach (front ++ gap ++ digits) =
      (stripKeyword ['t', 'i', 'm', 'i', 'l'] front.reverse).elim (front ++ gap ++ digits, none)
        fun before =>
          if gap.isEmpty || startsWithWord before then (front ++ gap ++ digits, none)
          else (trimEnd before.reverse,
            some ⟨(front.reverse.take 5).reverse ++ gap ++ digits, count? digits⟩) := by
  have hreverse : (front ++ gap ++ digits).reverse =
      digits.reverse ++ (gap.reverse ++ front.reverse) := by
    simp
  have hdigitsBack : ∀ c ∈ digits.reverse, isWordDigit c = true := fun c hc =>
    hdigits c (List.mem_reverse.mp hc)
  have hgapBack : ∀ c ∈ gap.reverse, isBlank c = true := fun c hc =>
    hgap c (List.mem_reverse.mp hc)
  have hdigitsStop : ∀ c ∈ (gap.reverse ++ front.reverse).head?, isWordDigit c = false := by
    rw [← List.reverse_append, List.head?_reverse]
    exact hfrontGap
  have hgapStop : ∀ c ∈ front.reverse.head?, isBlank c = false := by
    rw [List.head?_reverse]
    exact hfront
  have hback : (digits.reverse ++ (gap.reverse ++ front.reverse)).dropWhile isBlank =
      digits.reverse ++ (gap.reverse ++ front.reverse) := by
    refine dropWhile_of_head fun c hc => ?_
    rw [List.head?_append_of_ne_nil _ (by simpa using hdigitsNe)] at hc
    exact isBlank_of_isWordDigit (hdigitsBack c (List.mem_of_head? hc))
  have hempty : digits.isEmpty = false := List.isEmpty_eq_false_iff.mpr hdigitsNe
  unfold detach
  dsimp only
  rw [hreverse, hback, takeWhile_append_of_head hdigitsBack hdigitsStop,
    dropWhile_append_of_head hdigitsBack hdigitsStop, takeWhile_append_of_head hgapBack hgapStop,
    dropWhile_append_of_head hgapBack hgapStop, List.isEmpty_reverse, List.isEmpty_reverse, hempty,
    Bool.false_or]
  cases stripKeyword ['t', 'i', 'm', 'i', 'l'] front.reverse with
  | none => rfl
  | some before =>
    dsimp only
    rw [List.reverse_reverse, List.reverse_reverse, Option.elim_some]

end Parts

/-! ## A limit behind a body -/

/-- Whether a row limit reads as one: the keyword, a gap and a number. -/
def Spelled (limit : RowLimit) : Prop :=
  ∃ keyword gap digits : Text, limit = ⟨keyword ++ gap ++ digits, count? digits⟩ ∧
    keyword.map foldLetter = ['l', 'i', 'm', 'i', 't'] ∧ gap ≠ [] ∧
    (∀ c ∈ gap, isBlank c = true) ∧ digits ≠ [] ∧ ∀ c ∈ digits, isWordDigit c = true

/-- Blanks behind a limit do not matter to it. -/
theorem detach_append_blanks {t body r : Text} {limit : RowLimit}
    (h : detach t = (body, some limit)) (hr : ∀ c ∈ r, isBlank c = true) :
    detach (t ++ r) = (body, some limit) := by
  have hback : (t ++ r).reverse.dropWhile isBlank = t.reverse.dropWhile isBlank := by
    rw [List.reverse_append, List.dropWhile_append_of_pos fun c hc => hr c (List.mem_reverse.mp hc)]
  unfold detach at h ⊢
  simp only [hback] at h ⊢
  split at h
  · cases h
  · split at h
    · cases h
    · next hcond =>
      rw [if_neg hcond]
      exact h

/-- A row limit stands where no word goes on, and is detached with the blanks before it. -/
theorem detach_append_limit {before : Text} {limit : RowLimit} (hl : limit.Spelled)
    (hbefore : ∀ c ∈ before.getLast?, isWord c = false) :
    detach (before ++ limit.text) = (trimEnd before, some limit) := by
  obtain ⟨keyword, gap, digits, rfl, hkeyword, hgapNe, hgap, hdigitsNe, hdigits⟩ := hl
  have hassoc : before ++ (keyword ++ gap ++ digits) = (before ++ keyword) ++ gap ++ digits := by
    simp only [List.append_assoc]
  have hletters : keyword.reverse.map foldLetter = ['t', 'i', 'm', 'i', 'l'] := by
    rw [List.map_reverse, hkeyword]
    rfl
  have hlen : keyword.reverse.length = 5 := by simpa using congrArg List.length hletters
  have hfrontGap : ∀ c ∈ ((before ++ keyword) ++ gap).getLast?, isWordDigit c = false :=
    last_append_run hgapNe (fun c hc => isWordDigit_of_isBlank (hgap c hc)) _
  have hfront : ∀ c ∈ (before ++ keyword).getLast?, isBlank c = false :=
    last_of_limit hkeyword before
  have hreverse : (before ++ keyword).reverse = keyword.reverse ++ before.reverse :=
    List.reverse_append
  have hstrip : stripKeyword ['t', 'i', 'm', 'i', 'l'] (before ++ keyword).reverse =
      some before.reverse :=
    stripKeyword_eq_some_iff.mpr ⟨_, hreverse, hletters⟩
  have hword : startsWithWord before.reverse = false := by
    rw [startsWithWord, List.head?_reverse]
    cases hb : before.getLast? with
    | none => rfl
    | some b => exact hbefore b hb
  have htake : (before ++ keyword).reverse.take 5 = keyword.reverse := by
    rw [hreverse, ← hlen, List.take_left]
  have hgapEmpty : gap.isEmpty = false := List.isEmpty_eq_false_iff.mpr hgapNe
  rw [hassoc, detach_parts hdigits hdigitsNe hgap hfrontGap hfront, hstrip, Option.elim_some,
    hgapEmpty, hword, Bool.false_or, if_neg Bool.false_ne_true, htake, List.reverse_reverse,
    List.reverse_reverse]

/-- What is detached from a text is a row limit at its end. -/
theorem exists_of_detach {t body : Text} {limit : RowLimit}
    (h : detach t = (body, some limit)) :
    ∃ before after, t = before ++ limit.text ++ after ∧ body = trimEnd before ∧ limit.Spelled ∧
      (∀ c ∈ before.getLast?, isWord c = false) ∧ ∀ c ∈ after, isBlank c = true := by
  unfold detach at h
  dsimp only at h
  obtain ⟨back, hback⟩ : ∃ back, back = t.reverse.dropWhile isBlank := ⟨_, rfl⟩
  obtain ⟨digits, hdigits⟩ : ∃ digits, digits = back.takeWhile isWordDigit := ⟨_, rfl⟩
  obtain ⟨rest, hrest⟩ : ∃ rest, rest = back.dropWhile isWordDigit := ⟨_, rfl⟩
  obtain ⟨gap, hgap⟩ : ∃ gap, gap = rest.takeWhile isBlank := ⟨_, rfl⟩
  rw [← hback, ← hdigits, ← hrest, ← hgap] at h
  split at h
  · cases h
  · next before hs =>
    split at h
    · cases h
    · next hcond =>
      rw [Bool.or_eq_true, Bool.or_eq_true, not_or, not_or, List.isEmpty_iff, List.isEmpty_iff,
        Bool.not_eq_true] at hcond
      obtain ⟨⟨hdigitsNe, hgapNe⟩, hword⟩ := hcond
      obtain ⟨hbody, hlimit⟩ := Prod.mk.inj h
      obtain ⟨w, hw, hk⟩ := stripKeyword_eq_some_iff.mp hs
      have hlen : w.length = 5 := by simpa using congrArg List.length hk
      rw [hw, List.take_left' hlen] at hlimit
      obtain rfl := Option.some.inj hlimit
      have hletters : w.reverse.map foldLetter = ['l', 'i', 'm', 'i', 't'] := by
        rw [List.map_reverse, hk]
        rfl
      -- Read from the end, the text is blanks, the number, the gap, the keyword and the rest.
      have ht : t.reverse =
          t.reverse.takeWhile isBlank ++ (digits ++ (gap ++ (w ++ before))) := by
        rw [← hw, hgap, List.takeWhile_append_dropWhile, hdigits, hrest,
          List.takeWhile_append_dropWhile, hback, List.takeWhile_append_dropWhile]
      refine ⟨before.reverse, (t.reverse.takeWhile isBlank).reverse, ?_, hbody.symm,
        ⟨w.reverse, gap.reverse, digits.reverse, rfl, hletters, ?_, ?_, ?_, ?_⟩, ?_, ?_⟩
      · have := congrArg List.reverse ht
        simpa using this
      · simpa using hgapNe
      · exact fun c hc => all_of_mem_takeWhile (hgap ▸ List.mem_reverse.mp hc)
      · simpa using hdigitsNe
      · exact fun c hc => all_of_mem_takeWhile (hdigits ▸ List.mem_reverse.mp hc)
      · intro c hc
        rw [List.getLast?_reverse] at hc
        rw [startsWithWord, Option.mem_def.mp hc] at hword
        exact hword
      · exact fun c hc => all_of_mem_takeWhile (List.mem_reverse.mp hc)

/-- Exactly the row limits at the end of a text are detached from it. -/
theorem detach_eq_some_iff {t body : Text} {limit : RowLimit} :
    detach t = (body, some limit) ↔
      ∃ before after, t = before ++ limit.text ++ after ∧ body = trimEnd before ∧ limit.Spelled ∧
        (∀ c ∈ before.getLast?, isWord c = false) ∧ ∀ c ∈ after, isBlank c = true := by
  constructor
  · exact exists_of_detach
  · rintro ⟨before, after, rfl, rfl, hl, hbefore, hafter⟩
    exact detach_append_blanks (detach_append_limit hl hbefore) hafter

section Suffix

variable {body before keyword gap digits : Text}
  (hbody : ∀ c ∈ body.getLast?, isBlank c = false)
  (hbefore : ∀ c ∈ before, isBlank c = true) (hbeforeNe : before ≠ [])
  (hkeyword : keyword.map foldLetter = ['l', 'i', 'm', 'i', 't'])
  (hgap : ∀ c ∈ gap, isBlank c = true) (hgapNe : gap ≠ [])
  (hdigits : ∀ c ∈ digits, isWordDigit c = true) (hdigitsNe : digits ≠ [])

include hbody hbefore hbeforeNe hkeyword hgap hgapNe hdigits hdigitsNe

/-- A row limit behind a body is detached from it. -/
theorem detach_append :
    detach (body ++ (before ++ keyword ++ gap ++ digits)) =
      (body, some ⟨keyword ++ gap ++ digits, count? digits⟩) := by
  have hl : Spelled ⟨keyword ++ gap ++ digits, count? digits⟩ :=
    ⟨keyword, gap, digits, rfl, hkeyword, hgapNe, hgap, hdigitsNe, hdigits⟩
  have hword : ∀ c ∈ (body ++ before).getLast?, isWord c = false :=
    last_append_run hbeforeNe (fun c hc => isWord_of_isBlank (hbefore c hc)) body
  have hassoc : body ++ (before ++ keyword ++ gap ++ digits) =
      (body ++ before) ++ (keyword ++ gap ++ digits) := by
    simp only [List.append_assoc]
  rw [hassoc, detach_append_limit hl hword, trimEnd, dropEnd_append_of_all body hbefore,
    dropEnd_of_last hbody]

end Suffix

/-! ## Texts that end in no limit -/

/-- Without a blank before the digits there is no limit. -/
theorem limit_of_no_gap {t : Text}
    (h : ((t.reverse.dropWhile isBlank).dropWhile isWordDigit).takeWhile isBlank = []) :
    (detach t).2 = none := by
  unfold detach
  dsimp only
  rw [h]
  split
  · rfl
  · rw [if_pos (by simp)]

/-- A text that ends in neither a blank nor a digit ends in no limit. -/
theorem limit_of_last {c : Char} (h : isStop c = true) (t : Text) :
    (detach (t ++ [c])).2 = none := by
  obtain ⟨hb, hd⟩ := isStop_iff.mp h
  refine limit_of_no_gap ?_
  rw [List.reverse_append, List.reverse_singleton, List.singleton_append,
    List.dropWhile_cons_of_neg (by simp [hb]), List.dropWhile_cons_of_neg (by simp [hd]),
    List.takeWhile_cons_of_neg (by simp [hb])]

/-- A text without blanks that is no number. -/
theorem limit_of_not_number {w : Text} (hw : ∀ c ∈ w, isBlank c = false)
    (h : ∃ c ∈ w, isWordDigit c = false) (p : Text) : (detach (p ++ w)).2 = none := by
  -- The digits stop inside the text, where there is no blank.
  obtain ⟨c, hc, hd⟩ := h
  have hcr : c ∈ w.reverse := List.mem_reverse.mpr hc
  have hne : w.reverse ≠ [] := List.ne_nil_of_mem hcr
  have hback : (p ++ w).reverse.dropWhile isBlank = w.reverse ++ p.reverse := by
    rw [List.reverse_append]
    refine dropWhile_of_head fun d hd => hw d ?_
    rw [List.head?_append_of_ne_nil _ hne] at hd
    exact List.mem_reverse.mp (List.mem_of_head? hd)
  refine limit_of_no_gap ?_
  rw [hback, dropWhile_append_of_exists ⟨c, hcr, hd⟩]
  have hrest : w.reverse.dropWhile isWordDigit ≠ [] :=
    List.ne_nil_of_mem (mem_dropWhile_of_not hcr hd)
  refine takeWhile_of_head fun d hd => hw d ?_
  rw [List.head?_append_of_ne_nil _ hrest] at hd
  exact List.mem_reverse.mp (mem_of_mem_dropWhile (List.mem_of_head? hd))

/-- A text without blanks, behind a text that ends in no LIMIT of its own. -/
theorem limit_of_word {p gap w : Text} (hne : w ≠ []) (hw : ∀ c ∈ w, isBlank c = false)
    (hgap : ∀ c ∈ gap, isBlank c = true) (hp : ∀ c ∈ p.getLast?, isBlank c = false)
    (hopen : gap = [] → ∀ c ∈ p.getLast?, isWordDigit c = false)
    (hlimit : ∀ u r, p = u ++ r → r.map foldLetter = ['l', 'i', 'm', 'i', 't'] →
      ∃ c ∈ u.getLast?, isWord c = true) :
    (detach (p ++ gap ++ w)).2 = none := by
  by_cases hdigits : ∀ c ∈ w, isWordDigit c = true
  · -- The word is a number behind a gap; what counts is how the text before the gap ends.
    have hfrontGap : ∀ c ∈ (p ++ gap).getLast?, isWordDigit c = false := by
      intro c hc
      by_cases hempty : gap = []
      · rw [hempty, List.append_nil] at hc
        exact hopen hempty c hc
      · exact last_append_run hempty (fun d hd => isWordDigit_of_isBlank (hgap d hd)) p c hc
    rw [detach_parts hdigits hne hgap hfrontGap hp]
    cases hs : stripKeyword ['t', 'i', 'm', 'i', 'l'] p.reverse with
    | none => rfl
    | some before =>
      obtain ⟨r, hr, hk⟩ := stripKeyword_eq_some_iff.mp hs
      have hsplit : p = before.reverse ++ r.reverse := by
        rw [← List.reverse_append, ← hr, List.reverse_reverse]
      have hletters : r.reverse.map foldLetter = ['l', 'i', 'm', 'i', 't'] := by
        rw [List.map_reverse, hk]
        rfl
      obtain ⟨c, hc, hword⟩ := hlimit _ _ hsplit hletters
      have hstart : startsWithWord before = true := by
        rw [List.getLast?_reverse] at hc
        rw [startsWithWord, Option.mem_def.mp hc]
        exact hword
      rw [Option.elim_some, hstart, Bool.or_true, if_pos rfl]
  · refine limit_of_not_number hw ?_ (p ++ gap)
    simpa only [not_forall, Bool.not_eq_true, exists_prop] using hdigits

/-- Whether a text ends in the keyword LIMIT and no word goes on before it. -/
def EndsInKeyword (t : Text) : Prop :=
  ∃ before keyword, t = before ++ keyword ∧
    keyword.map foldLetter = ['l', 'i', 'm', 'i', 't'] ∧ ∀ c ∈ before.getLast?, isWord c = false

/-- A word behind a gap makes up a row limit exactly if it is a number and the keyword stands before
the gap. -/
theorem limit_of_word_iff {p gap w : Text} (hne : w ≠ []) (hw : ∀ c ∈ w, isBlank c = false)
    (hgap : ∀ c ∈ gap, isBlank c = true) (hgapNe : gap ≠ [])
    (hp : ∀ c ∈ p.getLast?, isBlank c = false) :
    (detach (p ++ gap ++ w)).2 ≠ none ↔ (∀ c ∈ w, isWordDigit c = true) ∧ EndsInKeyword p := by
  constructor
  · intro h
    constructor
    · by_contra hdigits
      refine h (limit_of_not_number hw ?_ (p ++ gap))
      simpa only [not_forall, Bool.not_eq_true, exists_prop] using hdigits
    · by_contra hkeyword
      refine h (limit_of_word hne hw hgap hp (fun hempty => absurd hempty hgapNe) ?_)
      intro u r hu hr
      by_contra hword
      refine hkeyword ⟨u, r, hu, hr, fun c hc => ?_⟩
      rw [← Bool.not_eq_true]
      exact fun hc' => hword ⟨c, hc, hc'⟩
  · rintro ⟨hdigits, u, r, rfl, hr, hu⟩
    have hl : Spelled ⟨r ++ gap ++ w, count? w⟩ :=
      ⟨r, gap, w, rfl, hr, hgapNe, hgap, hne, hdigits⟩
    have hassoc : u ++ r ++ gap ++ w = u ++ (r ++ gap ++ w) := by simp only [List.append_assoc]
    rw [hassoc, detach_append_limit hl hu]
    nofun

/-- A text without blanks, behind a text that does not end in the last letter of LIMIT. -/
theorem limit_of_word_behind {p gap w : Text} {d : Char} (hne : w ≠ [])
    (hw : ∀ c ∈ w, isBlank c = false) (hgap : ∀ c ∈ gap, isBlank c = true) (hd : d ∈ p.getLast?)
    (hblank : isBlank d = false) (hopen : gap = [] → isWordDigit d = false)
    (hfold : foldLetter d ≠ 't') : (detach (p ++ gap ++ w)).2 = none := by
  have hlast : ∀ c ∈ p.getLast?, c = d := fun c hc => Option.mem_unique hc hd
  refine limit_of_word hne hw hgap (fun c hc => ?_) (fun hempty c hc => ?_) fun u r hu hr => ?_
  · rw [hlast c hc]
    exact hblank
  · rw [hlast c hc]
    exact hopen hempty
  · obtain ⟨c, hc, ht⟩ := getLast?_of_limit hu hr
    rw [hlast c hc] at ht
    exact absurd ht hfold

/-- The last character that is no blank and no digit decides: if it is not the last letter of
LIMIT, there is no limit. -/
theorem limit_of_last_stop {c : Char} (hc : isStop c = true) (hfold : foldLetter c ≠ 't')
    {r : Text} (hr : ∀ d ∈ r, isStop d = false) (s : Text) :
    (detach (s ++ c :: r)).2 = none := by
  have hfind : ∀ {s r : Text} {c : Char}, isStop c = true → (∀ d ∈ r, isStop d = false) →
      ((s ++ c :: r).reverse.dropWhile fun d => !isStop d).head? = some c := by
    intro s r c hc hr
    rw [List.reverse_append, List.reverse_cons, List.append_assoc, List.singleton_append,
      dropWhile_append_of_head]
    · rfl
    · exact fun d hd => by rw [hr d (List.mem_reverse.mp hd)]; rfl
    · exact fun d hd => by rw [← Option.some.inj hd, hc]; rfl
  cases hd : detach (s ++ c :: r) with
  | mk body limit =>
    cases limit with
    | none => rfl
    | some limit =>
      obtain ⟨before, after, htext, -, hl, -, hafter⟩ := exists_of_detach hd
      obtain ⟨keyword, gap, digits, rfl, hkeyword, -, hgap, -, hdigits⟩ := hl
      obtain ⟨e, he, hfold'⟩ := getLast?_of_limit (List.nil_append keyword).symm hkeyword
      obtain ⟨kw, rfl⟩ := List.getLast?_eq_some_iff.mp he
      have htext' : s ++ c :: r = (before ++ kw) ++ e :: (gap ++ digits ++ after) := by
        rw [htext]
        simp
      have hrest : ∀ d ∈ gap ++ digits ++ after, isStop d = false := by
        intro d hd
        rcases List.mem_append.mp hd with hd | hd
        · rcases List.mem_append.mp hd with hd | hd
          · simp [isStop, hgap d hd]
          · simp [isStop, hdigits d hd]
        · simp [isStop, hafter d hd]
      have hstop : isStop e = true := isStop_of_foldLetter (by rw [hfold']; decide)
      have hsame := hfind (s := s) hc hr
      rw [htext', hfind hstop hrest] at hsame
      exact absurd (Option.some.inj hsame ▸ hfold') hfold

/-- What stands before such a character and a blank does not change the limit behind it. -/
theorem limit_append_of_stop {c b : Char} (hc : isStop c = true) (hfold : foldLetter c ≠ 't')
    (hb : isBlank b = true) (s t : Text) :
    (detach (s ++ c :: b :: t)).2 = (detach t).2 := by
  by_cases ht : ∃ d ∈ t, isStop d = true
  · rw [List.append_cons, limit_append hb ht]
  · have hnone : ∀ d ∈ t, isStop d = false := by
      simpa only [not_exists, not_and, Bool.not_eq_true] using ht
    have hrest : ∀ d ∈ b :: t, isStop d = false :=
      List.forall_mem_cons.mpr ⟨by simp [isStop, hb], hnone⟩
    rw [limit_of_no_stop hnone, limit_of_last_stop hc hfold hrest]

end RowLimit

end FilterClause
