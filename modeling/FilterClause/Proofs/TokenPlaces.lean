import FilterClause.Proofs.StandingAlone

/-!
# Where tokens stand

The segments of a predicate are read row by row: a row holds the tokens of one segment and the
characters of it that are in no token. Written out, a row is its segment again, so no token reaches
over a border; a character that is left out is no part of a word and no sign, and a word is as long
as its segment allows (`Token.Row.ReadsAs`). A token tells the number of bytes before it
(`Token.Row.Counted`). Together this says how the tokens of any segments lie
(`Token.laid_ofSegments`).
-/

namespace FilterClause

open Text

/-- What a segment adds to the text that is read. -/
def Segment.contents : Segment → Text
  | .text t => t
  | .call t => t
  | .literal _ => []
  | .group _ => []

namespace Token

theorem wordLength?_of_lexeme? {t : Text} {n : Nat} (h : lexeme? t = some (.word, n)) :
    wordLength? t = some n := by
  unfold lexeme? at h
  split at h
  · cases h
  · split at h
    · cases h
    · obtain ⟨m, hm, he⟩ := Option.map_eq_some_iff.mp h
      cases he
      exact hm

/-- A word takes all the word parts that follow one another. -/
theorem word_of_find? {c : Char} {rest word : Text} {n : Nat}
    (h : find? c rest = some ((.word, word), n)) :
    (∀ d ∈ word, isWordPart d = true) ∧ ∀ d ∈ (rest.drop n).head?, isWordPart d = false := by
  obtain ⟨m, hl, rfl, hdrop⟩ := exists_lexeme_of_find? h
  have hlength := wordLength?_of_lexeme? hl
  rw [hdrop]
  refine ⟨fun d hd => ?_, head?_drop_wordLength? hlength⟩
  rw [(take_wordLength? hlength).1] at hd
  exact all_of_mem_takeWhile hd

/-- One of the signs `=`, `<` and `>` starts an operator. -/
theorem not_sign_of_find?_eq_none {c : Char} {rest : Text} (h : find? c rest = none) :
    c ∉ ['=', '<', '>'] := by
  have hop : operatorLength? (c :: rest) = none := by
    rw [find?, Option.map_eq_none_iff, lexeme?] at h
    cases hop : operatorLength? (c :: rest) with
    | none => rfl
    | some n => simp [hop] at h
  rw [operatorLength?_cons] at hop
  simp only [List.mem_cons, List.not_mem_nil, or_false]
  rintro (rfl | rfl | rfl)
  · simp at hop
  all_goals
    rw [if_pos (by simp)] at hop
    split at hop <;> cases hop

/-- The tokens of a stretch of text and the characters in no token, in order. -/
abbrev Row := List (Char ⊕ Token)

namespace Row

/-- The tokens of a row. -/
def tokens (row : Row) : List Token := row.filterMap Sum.getRight?

/-- The text that a row was read from. -/
def written (row : Row) : Text :=
  row.flatMap fun
    | .inl c => [c]
    | .inr token => token.text

section

variable (c : Char) (t : Token) (row : Row)

@[simp] theorem tokens_nil : tokens [] = [] := rfl

@[simp] theorem tokens_cons_inl : tokens (.inl c :: row) = tokens row := rfl

@[simp] theorem tokens_cons_inr : tokens (.inr t :: row) = t :: tokens row := rfl

@[simp] theorem tokens_append (row' : Row) : tokens (row ++ row') = tokens row ++ tokens row' :=
  List.filterMap_append

theorem mem_tokens_iff {t : Token} {row : Row} : t ∈ tokens row ↔ .inr t ∈ row := by
  simp [tokens]

@[simp] theorem written_nil : written [] = [] := rfl

@[simp] theorem written_cons_inl : written (.inl c :: row) = c :: written row := rfl

@[simp] theorem written_cons_inr : written (.inr t :: row) = t.text ++ written row := rfl

@[simp] theorem written_append (row' : Row) :
    written (row ++ row') = written row ++ written row' :=
  List.flatMap_append

end

/-! ## Rows of a segment -/

/-- What a row has to be to tell the tokens of a text. -/
structure OfText (t : Text) (row : Row) : Prop where
  whole : written row = t
  /-- No part of a word and no sign is in no token. -/
  dropped : ∀ c, .inl c ∈ row → isWordPart c = false ∧ c ∉ ['=', '<', '>']
  found : ∀ token, .inr token ∈ row →
    (token.kind = .operator ∨ token.kind = .call ∨ token.kind = .word) ∧ token.text ≠ []
  /-- No part of a word stands directly behind a word. -/
  maximal : ∀ before token behind, row = before ++ .inr token :: behind → token.kind = .word →
    (∀ c ∈ token.text, isWordPart c = true) ∧
      ∀ c ∈ (written behind).head?, isWordPart c = false

/-- What a row has to be to tell the tokens of a segment. -/
def ReadsAs : Segment → Row → Prop
  | .text t, row => OfText t row
  | .call t, row => ∃ offset, row = [.inr ⟨.call, t, offset⟩]
  | .literal index, row => ∃ offset, row = [.inr ⟨.literal index, [], offset⟩]
  | .group index, row => ∃ offset, row = [.inr ⟨.group index, [], offset⟩]

theorem OfText.nil : OfText [] [] := ⟨rfl, nofun, nofun, by simp⟩

/-- A character at which nothing is found is passed over. -/
theorem OfText.pass {c : Char} {rest : Text} {row : Row} (hf : find? c rest = none)
    (h : OfText rest row) : OfText (c :: rest) (.inl c :: row) where
  whole := congrArg (c :: ·) h.whole
  dropped := by
    intro d hd
    rcases List.mem_cons.mp hd with he | hd
    · cases he
      exact ⟨isWordPart_of_find?_eq_none hf, not_sign_of_find?_eq_none hf⟩
    · exact h.dropped d hd
  found := fun token ht => h.found token ((List.mem_cons.mp ht).resolve_left nofun)
  maximal := by
    intro before token behind hrow hkind
    cases before with
    | nil => cases hrow
    | cons x before => exact h.maximal before token behind (List.cons.inj hrow).2 hkind

/-- A token that is found is taken, and reading goes on behind it. -/
theorem OfText.take {c : Char} {rest text : Text} {kind : TokenKind} {n : Nat} {row : Row}
    (hf : find? c rest = some ((kind, text), n)) (h : OfText (rest.drop n) row) (offset : Nat) :
    OfText (c :: rest) (.inr ⟨kind, text, offset⟩ :: row) where
  whole := (congrArg (text ++ ·) h.whole).trans (find?_eq_some hf)
  dropped := fun d hd => h.dropped d ((List.mem_cons.mp hd).resolve_left nofun)
  found := by
    intro token ht
    rcases List.mem_cons.mp ht with he | ht
    · cases he
      exact (find?_bounds hf).2
    · exact h.found token ht
  maximal := by
    intro before token behind hrow hkind
    cases before with
    | nil =>
      cases hrow
      rw [h.whole]
      cases hkind
      exact word_of_find? hf
    | cons x before => exact h.maximal before token behind (List.cons.inj hrow).2 hkind

/-! ## Counted rows -/

/-- Whether the tokens of a row that starts behind `offset` bytes tell how many bytes stand before
them. -/
def Counted : Nat → Row → Prop
  | _, [] => True
  | offset, .inl c :: row => Counted (offset + c.utf8Size) row
  | offset, .inr token :: row =>
    token.offset = offset ∧ Counted (offset + byteLength token.text) row

theorem counted_append {offset : Nat} {row row' : Row} :
    Counted offset (row ++ row') ↔
      Counted offset row ∧ Counted (offset + byteLength (written row)) row' := by
  induction row generalizing offset with
  | nil => simp [Counted]
  | cons x row ih =>
    cases x with
    | inl c => simp only [List.cons_append, Counted, ih, written_cons_inl, byteLength_cons,
        Nat.add_assoc]
    | inr token => simp only [List.cons_append, Counted, ih, written_cons_inr, byteLength_append,
        Nat.add_assoc, and_assoc]

theorem Counted.offset_eq {before : Row} {token : Token} {behind : Row} {offset : Nat}
    (h : Counted offset (before ++ .inr token :: behind)) :
    token.offset = offset + byteLength (written before) :=
  (counted_append.mp h).2.1

theorem Counted.le_offset {offset : Nat} {row : Row} (h : Counted offset row) :
    ∀ t ∈ tokens row, offset ≤ t.offset := by
  induction row generalizing offset with
  | nil => nofun
  | cons x row ih =>
    cases x with
    | inl c => exact fun t ht => Nat.le_trans (Nat.le_add_right _ _) (ih h t ht)
    | inr token =>
      rw [tokens_cons_inr, List.forall_mem_cons]
      exact ⟨h.1.ge, fun t ht => Nat.le_trans (Nat.le_add_right _ _) (ih h.2 t ht)⟩

/-- In a counted row the tokens come in order and do not overlap. -/
theorem Counted.pairwise {offset : Nat} {row : Row} (h : Counted offset row) :
    (tokens row).Pairwise fun s t => s.offset + byteLength s.text ≤ t.offset := by
  induction row generalizing offset with
  | nil => exact List.Pairwise.nil
  | cons x row ih =>
    cases x with
    | inl c => exact ih h
    | inr token =>
      rw [tokens_cons_inr, List.pairwise_cons, h.1]
      exact ⟨h.2.le_offset, ih h.2⟩

/-! ## The rows that are read -/

/-- The row of a scanned text that starts behind `offset` bytes. -/
def ofScan (offset : Nat) : List (Char ⊕ (TokenKind × Text)) → Row
  | [] => []
  | .inl c :: rest => .inl c :: ofScan (offset + c.utf8Size) rest
  | .inr (kind, text) :: rest =>
    .inr ⟨kind, text, offset⟩ :: ofScan (offset + byteLength text) rest

theorem tokens_ofScan (offset : Nat) (found : List (Char ⊕ (TokenKind × Text))) :
    tokens (ofScan offset found) = placed offset found := by
  induction found generalizing offset with
  | nil => rfl
  | cons x found ih =>
    rcases x with c | ⟨kind, text⟩
    · exact ih _
    · exact congrArg (_ :: ·) (ih _)

theorem counted_ofScan (offset : Nat) (found : List (Char ⊕ (TokenKind × Text))) :
    Counted offset (ofScan offset found) := by
  induction found generalizing offset with
  | nil => trivial
  | cons x found ih =>
    rcases x with c | ⟨kind, text⟩
    · exact ih _
    · exact ⟨rfl, ih _⟩

theorem ofText_ofScan (offset : Nat) (t : Text) : OfText t (ofScan offset (scan find? t)) := by
  induction t using scan_induction find? generalizing offset with
  | nil => exact .nil
  | pass c rest hf ih =>
    rw [scan_cons_of_none hf]
    exact (ih _).pass hf
  | take c rest found n hf ih =>
    rw [scan_cons_of_some hf]
    exact (ih _).take hf offset

/-- The row of a segment that starts behind `offset` bytes. -/
def ofSegment (offset : Nat) : Segment → Row
  | .text t => ofScan offset (scan find? t)
  | .call t => [.inr ⟨.call, t, offset⟩]
  | .literal index => [.inr ⟨.literal index, [], offset⟩]
  | .group index => [.inr ⟨.group index, [], offset⟩]

theorem readsAs_ofSegment (offset : Nat) (s : Segment) : ReadsAs s (ofSegment offset s) := by
  cases s with
  | text t => exact ofText_ofScan offset t
  | call t => exact ⟨offset, rfl⟩
  | literal index => exact ⟨offset, rfl⟩
  | group index => exact ⟨offset, rfl⟩

theorem counted_ofSegment (offset : Nat) (s : Segment) : Counted offset (ofSegment offset s) := by
  cases s with
  | text t => exact counted_ofScan offset _
  | call t => exact ⟨rfl, trivial⟩
  | literal index => exact ⟨rfl, trivial⟩
  | group index => exact ⟨rfl, trivial⟩

/-- Written out, a row is its segment. -/
theorem ReadsAs.written_eq {s : Segment} {row : Row} (h : ReadsAs s row) :
    written row = s.contents := by
  cases s with
  | text t => exact h.whole
  | call t =>
    obtain ⟨offset, rfl⟩ := h
    exact List.append_nil t
  | literal index =>
    obtain ⟨offset, rfl⟩ := h
    rfl
  | group index =>
    obtain ⟨offset, rfl⟩ := h
    rfl

theorem written_flatten {segments : List Segment} {rows : List Row}
    (h : List.Forall₂ ReadsAs segments rows) :
    written rows.flatten = segments.flatMap Segment.contents := by
  induction h with
  | nil => rfl
  | cons hrow _ ih => rw [List.flatten_cons, written_append, hrow.written_eq, ih, List.flatMap_cons]

end Row

open Row

theorem behind_cons (offset : Nat) (s : Segment) (segments : List Segment) :
    behind offset (s :: segments) =
      tokens (ofSegment offset s) ++ behind (offset + byteLength s.contents) segments := by
  cases s with
  | text t => rw [behind, ofText, ← tokens_ofScan]; rfl
  | call t => rfl
  | literal index => rfl
  | group index => rfl

/-- Segments that start behind `offset` bytes are read row by row. -/
theorem exists_rows (offset : Nat) (segments : List Segment) :
    ∃ rows : List Row, List.Forall₂ ReadsAs segments rows ∧
      behind offset segments = tokens rows.flatten ∧ Counted offset rows.flatten := by
  induction segments generalizing offset with
  | nil => exact ⟨[], .nil, rfl, trivial⟩
  | cons s segments ih =>
    obtain ⟨rows, hreads, htokens, hcounted⟩ := ih (offset + byteLength s.contents)
    have hs := readsAs_ofSegment offset s
    refine ⟨ofSegment offset s :: rows, .cons hs hreads, ?_, ?_⟩
    · rw [behind_cons, htokens, List.flatten_cons, tokens_append]
    · rw [List.flatten_cons, counted_append, hs.written_eq]
      exact ⟨counted_ofSegment offset s, hcounted⟩

/-- How the tokens of segments lie. -/
structure Laid (segments : List Segment) (ts : List Token) : Prop where
  /-- Each segment has a row of its own, and the tokens are those of the rows in order. -/
  rows : ∃ rows : List Row, List.Forall₂ ReadsAs segments rows ∧ ts = tokens rows.flatten ∧
    ∀ before token behind, rows.flatten = before ++ .inr token :: behind →
      token.offset = byteLength (written before)
  /-- A token is the slice of all contents that starts at its place. -/
  sliced : ∀ t ∈ ts, ∃ before behind,
    segments.flatMap Segment.contents = before ++ t.text ++ behind ∧ byteLength before = t.offset
  /-- The slice reaches over no border: it lies in the contents of one segment. -/
  within : ∀ t ∈ ts, ∃ front s back before behind, segments = front ++ s :: back ∧
    s.contents = before ++ t.text ++ behind ∧
    t.offset = byteLength (front.flatMap Segment.contents) + byteLength before
  /-- Slices come in order and do not overlap. -/
  apart : ts.Pairwise fun s t => s.offset + byteLength s.text ≤ t.offset

/-- A token of the rows stands in one of them, which was read from one segment. -/
theorem exists_segment_of_mem {segments : List Segment} {rows : List Row} {t : Token}
    (hreads : List.Forall₂ ReadsAs segments rows) (ht : .inr t ∈ rows.flatten) :
    ∃ (front : List Segment) (s : Segment) (back : List Segment)
      (frontRows backRows before behind : Row),
      segments = front ++ s :: back ∧
      rows.flatten = frontRows ++ before ++ .inr t :: (behind ++ backRows) ∧
      written frontRows = front.flatMap Segment.contents ∧
      s.contents = written before ++ t.text ++ written behind := by
  induction hreads with
  | nil => cases ht
  | @cons s row segments rows hrow hrows ih =>
    rw [List.flatten_cons] at ht ⊢
    -- The token stands in the first row, or what is before it is put before the further rows.
    rcases List.mem_append.mp ht with ht | ht
    · obtain ⟨before, behind, rfl⟩ := List.append_of_mem ht
      refine ⟨[], s, segments, [], rows.flatten, before, behind, rfl, by simp, rfl, ?_⟩
      rw [← hrow.written_eq, written_append, written_cons_inr, List.append_assoc]
    · obtain ⟨front, s', back, frontRows, backRows, before, behind, rfl, hflat, hfront, hs'⟩ :=
        ih ht
      refine ⟨s :: front, s', back, row ++ frontRows, backRows, before, behind, rfl, ?_, ?_, hs'⟩
      · rw [hflat]
        simp only [List.append_assoc]
      · rw [written_append, hrow.written_eq, hfront, List.flatMap_cons]

/-- The tokens of any segments lie row by row, at the places they tell. -/
theorem laid_ofSegments (segments : List Segment) : Laid segments (ofSegments segments) := by
  obtain ⟨rows, hreads, htokens, hcounted⟩ := exists_rows 0 segments
  rw [← ofSegments] at htokens
  have hplace : ∀ before token behind, rows.flatten = before ++ .inr token :: behind →
      token.offset = byteLength (written before) := fun before token behind hrow => by
    rw [hrow] at hcounted
    rw [hcounted.offset_eq, Nat.zero_add]
  refine ⟨⟨rows, hreads, htokens, hplace⟩, fun t ht => ?_, fun t ht => ?_, ?_⟩
  · obtain ⟨front, s, back, frontRows, backRows, before, behind, rfl, hflat, hfront, hs⟩ :=
      exists_segment_of_mem hreads (mem_tokens_iff.mp (htokens ▸ ht))
    refine ⟨written (frontRows ++ before), written (behind ++ backRows), ?_,
      (hplace _ t _ hflat).symm⟩
    rw [← written_flatten hreads, hflat, written_append, written_cons_inr, List.append_assoc]
  · obtain ⟨front, s, back, frontRows, backRows, before, behind, hsegments, hflat, hfront, hs⟩ :=
      exists_segment_of_mem hreads (mem_tokens_iff.mp (htokens ▸ ht))
    refine ⟨front, s, back, written before, written behind, hsegments, hs, ?_⟩
    rw [hplace _ t _ hflat, written_append, byteLength_append, hfront]
  · rw [htokens]
    exact hcounted.pairwise

/-- Places count bytes, and a word ends where its segment ends. -/
example : ofSegments [.text "\u00e9 \u2265 a.".toList, .call "f(\u00fc)".toList, .literal 0,
      .text "<x".toList] =
    [⟨.word, "\u00e9".toList, 0⟩, ⟨.word, "a.".toList, 7⟩, ⟨.call, "f(\u00fc)".toList, 9⟩,
      ⟨.literal 0, [], 14⟩, ⟨.operator, "<".toList, 14⟩, ⟨.word, "x".toList, 15⟩] := by
  decide +kernel

end Token

end FilterClause
