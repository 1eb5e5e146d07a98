import FilterClause.Proofs.LooseClauses
import FilterClause.Proofs.WholeClauses
import FilterClause.Proofs.Words

/-!
# Columns and what they are compared by

A column is what is read as one word. Before an operator it is the first lexeme of a comparison,
and the operator is the second one, however the two are spaced.
-/

namespace FilterClause

open Text

/-! ## Columns -/

/-- A text that is read as one word and holds no WHERE that stands alone. -/
structure Column where
  text : Text
  nonempty : text ≠ []
  wordParts : ∀ c ∈ text, Token.isWordPart c = true
  notLike : Token.likeLength? text = none
  whereFree : Subselect.WhereFree false (text.map .char)

namespace Column

variable (column : Column)

/-- A keyword at the start of a column and what does not go on with it lies in the column. -/
theorem exists_of_stripKeyword {rest : Text}
    (hrest : ∀ c ∈ rest.head?, Token.isWordPart c = false) {keyword tail : Text}
    (hk : ∀ k ∈ keyword, k ∈ keywordLetters)
    (hs : stripKeyword keyword (column.text ++ rest) = some tail) :
    ∃ v, tail = v ++ rest ∧ stripKeyword keyword column.text = some v := by
  obtain ⟨r, hr, hfold⟩ := stripKeyword_eq_some_iff.mp hs
  rcases List.append_eq_append_iff.mp hr.symm with ⟨v, hv, rfl⟩ | ⟨v, hv, rfl⟩
  · exact ⟨v, rfl, stripKeyword_eq_some_iff.mpr ⟨r, hv, hfold⟩⟩
  · cases v with
    | nil => exact ⟨[], rfl, stripKeyword_eq_some_iff.mpr ⟨r, by simp [hv], hfold⟩⟩
    | cons d v =>
      exfalso
      have hd := hrest d rfl
      have hfoldd : foldLetter d ∈ keywordLetters :=
        foldLetter_mem_of_spelling hfold hk d (by simp [hv])
      rw [Token.isWordPart, isWord_of_foldLetter hfoldd] at hd
      cases hd

/-- A column is not LIKE. -/
theorem likeLength?_append {rest : Text} (hrest : ∀ c ∈ rest.head?, Token.isWordPart c = false) :
    Token.likeLength? (column.text ++ rest) = none := by
  cases rest with
  | nil =>
    rw [List.append_nil]
    exact column.notLike
  | cons c rest =>
    rw [Token.likeLength?_append_stop (not_isWord_of_not_isWordPart (hrest c rfl))]
    exact column.notLike

/-- A column is one lexeme, whatever follows that does not go on with it. -/
theorem ofText_append {rest : Text}
    (hrest : ∀ c ∈ rest.head?, Token.isWordPart c = false ∧ c ≠ '(') :
    Lexeme.ofText (column.text ++ rest) = .word column.text :: Lexeme.ofText rest :=
  Lexeme.ofText_word_append column.nonempty column.wordParts hrest
    (column.likeLength?_append fun c hc => (hrest c hc).1)

/-- A column is not WHERE. -/
theorem stripLeadingWhere_append {rest : Text}
    (hrest : ∀ c ∈ rest.head?, Token.isWordPart c = false) :
    Normal.stripLeadingWhere (column.text ++ rest) = column.text ++ rest := by
  unfold Normal.stripLeadingWhere
  cases hs : stripKeyword ['w', 'h', 'e', 'r', 'e'] (column.text ++ rest) with
  | none => rfl
  | some tail =>
    obtain ⟨v, rfl, hv⟩ := column.exists_of_stripKeyword hrest (by decide) hs
    obtain ⟨w, hw, hfold⟩ := stripKeyword_eq_some_iff.mp hv
    have hstart : Subselect.startsWithWhere (column.text.map .char) = false := by
      have hwhere := column.whereFree
      cases ht : column.text with
      | nil => exact absurd ht column.nonempty
      | cons c t =>
        rw [ht] at hwhere
        exact hwhere.1.resolve_left Bool.noConfusion
    have hlen : w.length = 5 := by simpa using congrArg List.length hfold
    have hspell : Subselect.spellsWhere (column.text.map .char) = true := by
      rw [hw, List.map_append]
      exact Subselect.spellsWhere_map_char_append hfold _
    rw [Subselect.startsWithWhere_eq, hspell, Bool.true_and, Bool.not_eq_false', ← hlen, hw,
      List.map_append, ← List.length_map, List.drop_left] at hstart
    have hgoes : startsWithWord (v ++ rest) = true := by
      cases v with
      | nil => cases hstart
      | cons d v =>
        have hname : isName d = true := hstart
        show isWord d = true
        exact isWord_of_isWordPart_of_isName (column.wordParts d (by simp [hw])) hname
    dsimp only
    rw [if_pos hgoes]

end Column

/-! ## Comparators -/

theorem Quote.isQuote (q : Quote) : Lifted.isQuote q.char = true := by cases q <;> rfl

theorem Quote.isStop (q : Quote) : RowLimit.isStop q.char = true :=
  RowLimit.isStop_of_mem_marks _ (by cases q <;> decide)

/-- A sign ends before what is no further equals sign. -/
theorem Sign.ofText_append (s : Sign) {rest : Text} (h : rest.head? ≠ some '=') :
    Lexeme.ofText (s.text ++ rest) = .operator s.text :: Lexeme.ofText rest := by
  have hlex : Token.lexeme? (s.text ++ rest) = some (.operator, s.text.length) := by
    cases s <;>
      simp [Token.lexeme?, Sign.text, Token.operatorLength?_cons, h]
  have hne : s.text ≠ [] := by cases s <;> decide
  exact Lexeme.ofText_append hne hlex

theorem Sign.plain (s : Sign) : Fragment.Plain s.text := by
  unfold Fragment.Plain
  cases s <;> decide

/-- A spelling of LIKE ends before a blank. -/
theorem Spelling.ofText_append (s : Spelling "LIKE".toList) {b : Char} (hb : isBlank b = true)
    (rest : Text) :
    Lexeme.ofText (s.text ++ b :: rest) = .operator s.text :: Lexeme.ofText (b :: rest) := by
  have hfold : s.text.map foldLetter = ['l', 'i', 'k', 'e'] :=
    map_foldLetter_of_sameIgnoringCase s.same (by decide)
  have hpart := isWordPart_of_sameIgnoringCase s.same (by decide)
  have hlen : s.text.length = 4 := by simpa using congrArg List.length hfold
  have hne : s.text ≠ [] := fun e => by simp [e] at hlen
  have hstrip : stripKeyword ['l', 'i', 'k', 'e'] (s.text ++ b :: rest) = some (b :: rest) :=
    stripKeyword_eq_some_iff.mpr ⟨s.text, rfl, hfold⟩
  have hlike : Token.likeLength? (s.text ++ b :: rest) = some 4 := by
    have hword : startsWithWord (b :: rest) = false := isWord_of_isBlank hb
    rw [Token.likeLength?, hstrip]
    simp [hword]
  have hop : Token.operatorLength? (s.text ++ b :: rest) = some 4 := by
    obtain ⟨c, t, ht⟩ := List.exists_cons_of_ne_nil hne
    rw [ht] at hlike hpart ⊢
    rw [List.cons_append, Token.operatorLength?_of_isWordPart (hpart c List.mem_cons_self)]
    exact hlike
  have hlex : Token.lexeme? (s.text ++ b :: rest) = some (.operator, s.text.length) := by
    rw [Token.lexeme?, hop, hlen]
  exact Lexeme.ofText_append hne hlex

namespace Comparator

variable (o : Comparator)

theorem plain : Fragment.Plain o.text := by
  cases o with
  | sign before s after =>
    exact ((Fragment.Plain.of_blanks before.blank).append s.plain).append
      (.of_blanks after.blank)
  | like before spelling after =>
    exact ((Fragment.Plain.of_blanks before.blank).append
      (.of_isWordPart (isWordPart_of_sameIgnoringCase spelling.same (by decide)))).append
      (.of_blanks after.blank)

/-- A comparator goes on with no word. -/
theorem head_append (rest : Text) :
    ∀ c ∈ (o.text ++ rest).head?, Token.isWordPart c = false ∧ c ≠ '(' := by
  have hblank : ∀ {bs : Text}, (∀ b ∈ bs, isBlank b = true) → ∀ u,
      (∀ c ∈ u.head?, Token.isWordPart c = false ∧ c ≠ '(') →
      ∀ c ∈ (bs ++ u).head?, Token.isWordPart c = false ∧ c ≠ '(' := by
    intro bs hbs u hu
    cases bs with
    | nil => exact hu
    | cons b bs =>
      intro c hc
      obtain rfl : b = c := Option.some.inj hc
      have hb := hbs b List.mem_cons_self
      exact ⟨isWordPart_of_isBlank hb, ne_of_isBlank hb (by decide)⟩
  cases o with
  | sign before s after =>
    have hs : ∀ c ∈ (s.text ++ (after.text ++ rest)).head?,
        Token.isWordPart c = false ∧ c ≠ '(' := by
      have hmarks : ∀ c ∈ s.text.head?, c ∈ marks ∧ c ≠ '(' := by cases s <;> decide
      have hhead : (s.text ++ (after.text ++ rest)).head? = s.text.head? := by cases s <;> rfl
      intro c hc
      obtain ⟨hm, hne⟩ := hmarks c (hhead ▸ hc)
      exact ⟨isWordPart_of_mem_marks c hm, hne⟩
    have := hblank before.blank _ hs
    rwa [← List.append_assoc, ← List.append_assoc] at this
  | like before spelling after =>
    obtain ⟨b, bs, hbefore, hb⟩ := before.exists_cons
    intro c hc
    rw [text, hbefore] at hc
    obtain rfl : b = c := Option.some.inj hc
    exact ⟨isWordPart_of_isBlank hb, ne_of_isBlank hb (by decide)⟩

/-- A comparator is one lexeme, if no equals sign follows it. -/
theorem ofText_append {rest : Text} (h : rest.head? ≠ some '=') :
    Lexeme.ofText (o.text ++ rest) = .operator o.operator :: Lexeme.ofText rest := by
  cases o with
  | sign before s after =>
    have hhead : (after.text ++ rest).head? ≠ some '=' := by
      cases hafter : after.text with
      | nil => exact h
      | cons b bs =>
        have hb : isBlank b = true := after.blank b (hafter ▸ List.mem_cons_self)
        exact fun e => ne_of_isBlank hb (by decide) (Option.some.inj e)
    rw [text, List.append_assoc, List.append_assoc, Lexeme.ofText_blanks_append before.blank,
      s.ofText_append hhead, Lexeme.ofText_blanks_append after.blank]
    rfl
  | like before spelling after =>
    obtain ⟨b, bs, hafter, hb⟩ := after.exists_cons
    rw [text, List.append_assoc, List.append_assoc, Lexeme.ofText_blanks_append before.blank,
      hafter, List.cons_append, spelling.ofText_append hb, ← List.cons_append, ← hafter,
      Lexeme.ofText_blanks_append after.blank]
    rfl

end Comparator

theorem Comparator.whereFree_append (o : Comparator) {inName : Bool} {xs ys : List Item}
    (hx : Subselect.WhereFree inName xs) (hy : Subselect.WhereFree false ys) :
    Subselect.WhereFree inName (xs ++ (o.text.map .char ++ ys)) := by
  have hblank : ∀ bs : Text, (∀ b ∈ bs, isBlank b = true) →
      ∀ i ∈ bs.map Item.char, i.isName = false := by
    intro bs hbs i hi
    obtain ⟨b, hb, rfl⟩ := List.mem_map.mp hi
    exact isName_of_isBlank (hbs b hb)
  cases o with
  | sign before s after =>
    have hsign : ∀ i ∈ s.text.map Item.char, i.isName = false := by
      have hmem : ∀ c ∈ s.text, c ∈ marks := by cases s <;> decide
      intro i hi
      obtain ⟨c, hc, rfl⟩ := List.mem_map.mp hi
      exact isName_of_mem_marks c (hmem c hc)
    refine Subselect.WhereFree.append_separator (fun i hi => ?_) ?_ hx hy
    · rw [text, List.map_append, List.map_append, List.mem_append, List.mem_append] at hi
      rcases hi with (hi | hi) | hi
      · exact hblank _ before.blank i hi
      · exact hsign i hi
      · exact hblank _ after.blank i hi
    · cases s <;> simp [text, Sign.text]
  | like before spelling after =>
    have hlen : (spelling.text.map Item.char).length < 5 := by
      have := congrArg List.length (sameIgnoringCase_iff.mp spelling.same)
      rw [List.length_map, List.length_map] at this
      rw [List.length_map, this]
      decide
    have hgap : ∀ gap : Gap, gap.text.map Item.char ≠ [] := fun gap e =>
      gap.nonempty (List.map_eq_nil_iff.mp e)
    have hlike := Subselect.WhereFree.append_separator (hblank _ after.blank) (hgap after)
      (Subselect.whereFree_of_length_lt hlen false) hy
    rw [text, List.map_append, List.map_append, List.append_assoc, List.append_assoc]
    exact Subselect.WhereFree.append_separator (hblank _ before.blank) (hgap before) hx hlike

/-! ## A column before an operator -/

namespace Column

open Fragment

variable (column : Column) (o : Comparator)

theorem plain_front : Plain (column.text ++ o.text) :=
  (Plain.of_isWordPart column.wordParts).append o.plain

/-- A column and an operator are two lexemes, if no equals sign follows. -/
theorem ofText_front {rest : Text} (h : rest.head? ≠ some '=') :
    Lexeme.ofText (column.text ++ o.text ++ rest) =
      .word column.text :: .operator o.operator :: Lexeme.ofText rest := by
  rw [List.append_assoc, column.ofText_append (o.head_append rest), o.ofText_append h]

theorem exists_head (rest : Text) :
    ∃ d t, column.text ++ o.text ++ rest = d :: t ∧ isBlank d = false := by
  obtain ⟨d, t, h⟩ := List.exists_cons_of_ne_nil column.nonempty
  refine ⟨d, t ++ o.text ++ rest, by rw [h]; rfl, ?_⟩
  exact isBlank_of_isWordPart (column.wordParts d (h ▸ List.mem_cons_self))

theorem stripLeadingWhere_front (rest : Text) :
    Normal.stripLeadingWhere (column.text ++ o.text ++ rest) = column.text ++ o.text ++ rest := by
  rw [List.append_assoc]
  exact column.stripLeadingWhere_append fun d hd => (o.head_append rest d hd).1

/-! ## A column compared with a literal -/

section Literal

variable (options : Options) (levels : Nat) (q : Quote) {content : Text} (h : q.char ∉ content)

include h

theorem lexemes_literal :
    lexemes options levels (column.text ++ o.text ++ (q.char :: content ++ [q.char])) =
      [.word column.text, .operator o.operator, .literal content] := by
  have hfront := column.ofText_front o (show ([] : Text).head? ≠ some '=' by simp)
  rw [List.append_nil] at hfront
  rw [lexemes_plain_literal options levels (column.plain_front o) q.isQuote h, hfront]
  rfl

theorem groups_literal :
    groups options levels (column.text ++ o.text ++ (q.char :: content ++ [q.char])) = [] :=
  groups_plain_literal options levels (column.plain_front o) q.isQuote h

theorem fragment_literal : Fragment (column.text ++ o.text ++ (q.char :: content ++ [q.char])) := by
  have hplain := column.plain_front o
  have hitems := items_plain_literal hplain q.isQuote h
  constructor
  case closed =>
    intro d hd
    rw [parts_plain_literal hplain q.isQuote h] at hd
    simp only [List.mem_append, List.mem_map, Sum.inl.injEq, exists_eq_right, List.mem_cons,
      reduceCtorEq, List.not_mem_nil, or_self, or_false] at hd
    exact hplain.not_quote d (List.mem_append.mpr hd)
  case balanced =>
    rw [hitems]
    exact hplain.balanced.append (.item nofun nofun .nil)
  case whereFree =>
    rw [hitems, List.map_append, List.append_assoc]
    exact o.whereFree_append column.whereFree (Subselect.whereFree_of_length_lt (by decide) _)

end Literal

end Column

end FilterClause
