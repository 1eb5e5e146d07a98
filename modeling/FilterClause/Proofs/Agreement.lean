import FilterClause.Proofs.Containment

/-!
# Clauses that agree outside their literals

Two texts agree if they differ in nothing but their literals. What is looked for in a text from one
of its ends — blanks, digits, a keyword — never reaches into a literal, so it is found in both
texts or in neither, and what is left of them agrees again. In this way the bodies of clauses that
agree do, too, and their row limits are the same (`Agree.detached`).
-/

namespace FilterClause

open Text

namespace Lifted

/-- What holds of both delimiters holds of every quote. -/
theorem forall_quote {P : Char → Prop} (hs : P singleQuote) (hd : P doubleQuote) :
    ∀ c, isQuote c = true → P c := by
  intro c hc
  simp only [isQuote, Bool.or_eq_true, beq_iff_eq] at hc
  rcases hc with rfl | rfl
  · exact hs
  · exact hd

/-- Texts that agree character by character outside their literals. Every quote of both closes. -/
inductive Agree : Text → Text → Prop
  | nil : Agree [] []
  | char {c : Char} {s t : Text} (hc : isQuote c = false) (h : Agree s t) :
      Agree (c :: s) (c :: t)
  | literal {q r : Char} {u v s t : Text} (hq : isQuote q = true) (hu : q ∉ u)
      (hr : isQuote r = true) (hv : r ∉ v) (h : Agree s t) :
      Agree (q :: (u ++ q :: s)) (r :: (v ++ r :: t))

namespace Agree

variable {s t : Text}

/-! ## Joining and reversing -/

theorem of_no_quotes {s : Text} (h : ∀ c ∈ s, isQuote c = false) : Agree s s := by
  induction s with
  | nil => exact .nil
  | cons c s ih =>
    obtain ⟨hc, hs⟩ := List.forall_mem_cons.mp h
    exact .char hc (ih hs)

theorem append (h : Agree s t) {s' t' : Text} (h' : Agree s' t') : Agree (s ++ s') (t ++ t') := by
  induction h with
  | nil => exact h'
  | char hc _ ih => exact .char hc ih
  | literal hq hu hr hv _ ih =>
    simp only [List.cons_append, List.append_assoc]
    exact .literal hq hu hr hv ih

theorem reverse (h : Agree s t) : Agree s.reverse t.reverse := by
  induction h with
  | nil => exact .nil
  | char hc _ ih =>
    simp only [List.reverse_cons]
    exact ih.append (.char hc .nil)
  | literal hq hu hr hv _ ih =>
    simp only [List.reverse_cons, List.reverse_append, List.append_assoc, List.singleton_append]
    refine ih.append (.literal hq ?_ hr ?_ .nil)
    · rwa [List.mem_reverse]
    · rwa [List.mem_reverse]

/-! ## Reading from the start -/

section Class

variable {p : Char → Bool} (hp : ∀ c, isQuote c = true → p c = false)

include hp

theorem takeWhile_eq (h : Agree s t) : s.takeWhile p = t.takeWhile p := by
  induction h with
  | nil => rfl
  | char _ _ ih => rw [List.takeWhile_cons, List.takeWhile_cons, ih]
  | literal hq _ hr _ _ _ => simp [hp _ hq, hp _ hr]

theorem dropWhile (h : Agree s t) : Agree (s.dropWhile p) (t.dropWhile p) := by
  induction h with
  | nil => exact .nil
  | @char c s t hc h ih =>
    rw [List.dropWhile_cons, List.dropWhile_cons]
    split
    · exact ih
    · exact .char hc h
  | literal hq hu hr hv h _ =>
    simp only [List.dropWhile_cons, hp _ hq, hp _ hr, Bool.false_eq_true, if_false]
    exact .literal hq hu hr hv h

theorem dropEnds (h : Agree s t) : Agree (Text.dropEnds p s) (Text.dropEnds p t) :=
  ((h.dropWhile hp).reverse.dropWhile hp).reverse

theorem head?_any_eq (h : Agree s t) : s.head?.any p = t.head?.any p := by
  cases h with
  | nil => rfl
  | char => rfl
  | literal hq _ hr _ _ => simp [hp _ hq, hp _ hr]

end Class

/-- A keyword stands at the start of both texts or of neither. -/
theorem stripKeyword (h : Agree s t) {keyword : Text} (hk : ∀ k ∈ keyword, isQuote k = false) :
    (Text.stripKeyword keyword s = none ∧ Text.stripKeyword keyword t = none) ∨
      ∃ s' t', Text.stripKeyword keyword s = some s' ∧ Text.stripKeyword keyword t = some t' ∧
        Agree s' t' ∧ s.take keyword.length = t.take keyword.length := by
  induction keyword generalizing s t with
  | nil => exact .inr ⟨s, t, rfl, rfl, h, rfl⟩
  | cons k keyword ih =>
    obtain ⟨hquote, hrest⟩ := List.forall_mem_cons.mp hk
    have hfold : ∀ q, isQuote q = true → foldLetter q ≠ k := by
      refine forall_quote ?_ ?_
      · rintro rfl
        exact absurd hquote (by decide)
      · rintro rfl
        exact absurd hquote (by decide)
    cases h with
    | nil => exact .inl ⟨rfl, rfl⟩
    | @char c s t hc h =>
      by_cases hck : foldLetter c = k
      · simpa [Text.stripKeyword, hck] using ih h hrest
      · exact .inl (by simp [Text.stripKeyword, hck])
    | literal hq _ hr _ _ =>
      exact .inl (by simp [Text.stripKeyword, hfold _ hq, hfold _ hr])

/-! ## Segments -/

theorem segments_eq (h : Agree s t) : (ofText s).segments = (ofText t).segments := by
  have hfrom : ∀ index, segmentsFrom index (parts s) = segmentsFrom index (parts t) := by
    induction h with
    | nil => exact fun index => rfl
    | char hc _ ih =>
      intro index
      rw [parts_cons_of_not_quote hc, parts_cons_of_not_quote hc, segmentsFrom, segmentsFrom, ih]
    | literal hq hu hr hv _ ih =>
      intro index
      rw [parts_literal hq hu, parts_literal hr hv, segmentsFrom, segmentsFrom, ih]
  exact hfrom 0

theorem closed (h : Agree s t) : Closed s := by
  induction h with
  | nil => exact closed_nil
  | char hc _ ih =>
    intro d hd
    rw [parts_cons_of_not_quote hc] at hd
    rcases List.mem_cons.mp hd with he | hd
    · obtain rfl := Sum.inl.inj he
      exact hc
    · exact ih d hd
  | literal hq hu _ _ _ ih =>
    intro d hd
    rw [parts_literal hq hu] at hd
    rcases List.mem_cons.mp hd with he | hd
    · cases he
    · exact ih d hd

/-! ## Whole clauses -/

theorem trim (h : Agree s t) : Agree (Text.trim s) (Text.trim t) :=
  h.dropEnds (forall_quote (by decide) (by decide))

theorem stripLeadingWhere (h : Agree s t) :
    Agree (Normal.stripLeadingWhere s) (Normal.stripLeadingWhere t) := by
  have hblank : ∀ c, isQuote c = true → isBlank c = false := forall_quote (by decide) (by decide)
  have hword : ∀ c, isQuote c = true → isWord c = false := forall_quote (by decide) (by decide)
  have hkeyword : ∀ k ∈ ['w', 'h', 'e', 'r', 'e'], isQuote k = false := by decide
  unfold Normal.stripLeadingWhere
  rcases h.stripKeyword hkeyword with
    ⟨hs, ht⟩ | ⟨s', t', hs, ht, h', -⟩
  · rw [hs, ht]
    exact h
  · rw [hs, ht]
    dsimp only
    rw [startsWithWord, startsWithWord, h'.head?_any_eq hword]
    split
    · exact h
    · exact h'.dropWhile hblank

/-- The same row limit is detached, and the bodies agree. -/
theorem detach (h : Agree s t) :
    Agree (RowLimit.detach s).1 (RowLimit.detach t).1 ∧
      (RowLimit.detach s).2 = (RowLimit.detach t).2 := by
  have hblank : ∀ c, isQuote c = true → isBlank c = false := forall_quote (by decide) (by decide)
  have hdigit : ∀ c, isQuote c = true → isWordDigit c = false :=
    forall_quote (by decide) (by decide)
  have hword : ∀ c, isQuote c = true → isWord c = false := forall_quote (by decide) (by decide)
  have hkeyword : ∀ k ∈ ['t', 'i', 'm', 'i', 'l'], isQuote k = false := by decide
  have hback := h.reverse.dropWhile hblank
  have hgap := hback.dropWhile hdigit
  unfold RowLimit.detach
  dsimp only
  rw [hback.takeWhile_eq hdigit, hgap.takeWhile_eq hblank]
  rcases (hgap.dropWhile hblank).stripKeyword hkeyword with
    ⟨hs, ht⟩ | ⟨s', t', hs, ht, hbefore, htake⟩
  · rw [hs, ht]
    exact ⟨h, rfl⟩
  · rw [hs, ht]
    dsimp only
    rw [startsWithWord, startsWithWord, hbefore.head?_any_eq hword]
    split
    · exact ⟨h, rfl⟩
    · refine ⟨(hbefore.reverse.reverse.dropWhile hblank).reverse, ?_⟩
      simp only [List.length_cons, List.length_nil, Nat.zero_add, Nat.reduceAdd] at htake
      rw [htake]

theorem detached (h : Agree s t) :
    Agree (Normal.detached s).1 (Normal.detached t).1 ∧
      (Normal.detached s).2 = (Normal.detached t).2 :=
  h.trim.stripLeadingWhere.detach

end Agree

end Lifted

end FilterClause
