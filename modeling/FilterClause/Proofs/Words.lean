import FilterClause.Proofs.Lexemes

/-!
# Words and operators in a row

What one word or one operator at the start of a text makes of the lexemes. A word ends where a
character follows that words do not hold; an operator of one character needs no gap behind it.
-/

namespace FilterClause

open Text

namespace Token

/-- Without a mark at its start, a text starts with no operator but LIKE. -/
theorem operatorLength?_of_not_mem_marks {c : Char} (h : c ∉ marks) (rest : Text) :
    operatorLength? (c :: rest) = likeLength? (c :: rest) := by
  have hne : ∀ d ∈ marks, c ≠ d := fun d hd e => h (e ▸ hd)
  have hgt : ¬ (c = '>' ∨ c = '<') := by
    rintro (e | e)
    · exact hne '>' (by decide) e
    · exact hne '<' (by decide) e
  have hbang : ¬ (c = '!' ∧ rest.head? = some '=') := fun e => hne '!' (by decide) e.1
  rw [operatorLength?_cons, if_neg hgt, if_neg (hne '=' (by decide)), if_neg hbang]

theorem operatorLength?_of_isWordPart {c : Char} (h : isWordPart c = true) (rest : Text) :
    operatorLength? (c :: rest) = likeLength? (c :: rest) :=
  operatorLength?_of_not_mem_marks (not_mem_marks_of_isWordPart h) rest

/-- Word characters do not lead up to a call unless a bracket follows them. -/
theorem callLength?_of_word {w rest : Text} (hw : ∀ c ∈ w, isWordPart c = true)
    (hrest : ∀ c ∈ rest.head?, isWordPart c = false ∧ c ≠ '(') :
    callLength? (w ++ rest) = none := by
  have hd : ∀ tail, (w ++ rest).dropWhile Text.isWord ≠ '(' :: tail := by
    induction w with
    | nil =>
      intro tail e
      cases rest with
      | nil => cases e
      | cons c rest =>
        obtain ⟨hc, hne⟩ := hrest c rfl
        have hword := not_isWord_of_not_isWordPart hc
        rw [List.nil_append, List.dropWhile_cons_of_neg (by simp [hword])] at e
        exact hne (List.cons.inj e).1
    | cons c w ih =>
      intro tail e
      rw [List.cons_append, List.dropWhile_cons] at e
      split at e
      · exact ih (fun d hd => hw d (List.mem_cons_of_mem _ hd)) tail e
      · obtain ⟨rfl, -⟩ := List.cons.inj e
        exact not_mem_marks_of_isWordPart (hw '(' List.mem_cons_self) (by decide)
  unfold callLength?
  dsimp only
  split
  · rfl
  · split
    · next rest' e => exact absurd e (hd rest')
    · rfl

theorem wordLength?_of_word {w rest : Text} (hne : w ≠ []) (hw : ∀ c ∈ w, isWordPart c = true)
    (hrest : ∀ c ∈ rest.head?, isWordPart c = false) :
    wordLength? (w ++ rest) = some w.length := by
  have htake : (w ++ rest).takeWhile isWordPart = w := takeWhile_append_of_head hw hrest
  have hempty : w.isEmpty = false := by
    cases w with
    | nil => exact absurd rfl hne
    | cons c w => rfl
  unfold wordLength?
  dsimp only
  rw [htake, hempty]
  rfl

end Token

namespace Lexeme

/-- A token of a known length at the start of a text is its first lexeme. -/
theorem ofText_append {kind : TokenKind} {t rest : Text} (hne : t ≠ [])
    (h : Token.lexeme? (t ++ rest) = some (kind, t.length)) :
    ofText (t ++ rest) = ofFind (kind, t) :: ofText rest := by
  obtain ⟨c, t, rfl⟩ := List.exists_cons_of_ne_nil hne
  have hfind : Token.find? c (t ++ rest) = some ((kind, c :: t), t.length) := by
    rw [Token.find?, ← List.cons_append, h]
    simp
  rw [List.cons_append, ofText_cons_of_some hfind, List.drop_left]

/-- A word that ends where it should is one lexeme. -/
theorem ofText_word_append {w rest : Text} (hne : w ≠ [])
    (hw : ∀ c ∈ w, Token.isWordPart c = true)
    (hrest : ∀ c ∈ rest.head?, Token.isWordPart c = false ∧ c ≠ '(')
    (hlike : Token.likeLength? (w ++ rest) = none) :
    ofText (w ++ rest) = .word w :: ofText rest := by
  have hop : Token.operatorLength? (w ++ rest) = none := by
    obtain ⟨c, w, rfl⟩ := List.exists_cons_of_ne_nil hne
    rw [List.cons_append, Token.operatorLength?_of_isWordPart (hw c List.mem_cons_self)]
    exact hlike
  have hlex : Token.lexeme? (w ++ rest) = some (.word, w.length) := by
    rw [Token.lexeme?, hop, Token.callLength?_of_word hw hrest,
      Token.wordLength?_of_word hne hw fun c hc => (hrest c hc).1]
    rfl
  exact ofText_append hne hlex

end Lexeme

/-! ## Connectives -/

namespace Connective

section Spelling

variable {k : Connective} {t : Text} (h : sameIgnoringCase t k.text = true)

include h

theorem isWordPart_of_spelling : ∀ c ∈ t, Token.isWordPart c = true :=
  isWordPart_of_sameIgnoringCase h (by cases k <;> decide)

theorem length_of_spelling : t ≠ [] ∧ t.length < 4 := by
  have hlen : t.length = k.text.length := by
    simpa using congrArg List.length (sameIgnoringCase_iff.mp h)
  have hk : 0 < k.text.length ∧ k.text.length < 4 := by
    cases k <;> decide
  exact ⟨List.length_pos_iff.mp (hlen ▸ hk.1), hlen ▸ hk.2⟩

theorem connective?_of_spelling (offset : Nat) :
    Token.connective? ⟨.word, t, offset⟩ = some k := by
  cases k with
  | and => simp [Token.connective?, Token.isWord, h]
  | or =>
    have hne : sameIgnoringCase t (text .and) = false := by
      rw [sameIgnoringCase, sameIgnoringCase_iff.mp h]
      decide
    simp [Token.connective?, Token.isWord, h, hne]

/-- A connective alone is one word. -/
theorem ofText_of_spelling : Lexeme.ofText t = [.word t] := by
  have hlike : Token.likeLength? (t ++ []) = none := by
    cases hl : Token.likeLength? (t ++ []) with
    | none => rfl
    | some n =>
      have := (Token.likeLength?_bounds hl).2
      rw [List.append_nil] at this
      exact absurd this (Nat.not_le_of_lt (length_of_spelling h).2)
  have := Lexeme.ofText_word_append (length_of_spelling h).1 (isWordPart_of_spelling h)
    (by simp) hlike
  rwa [List.append_nil] at this

end Spelling

end Connective

end FilterClause
