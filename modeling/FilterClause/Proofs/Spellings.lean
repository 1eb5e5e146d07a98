import FilterClause.Proofs.Fragments
import FilterClause.Proofs.RowLimits
import FilterClause.Proofs.Words

/-!
# How lexemes are spelled

Which characters the lexemes of a predicate are made of. Those of text are runs of signs, of letters
or of word characters, or a call whose brackets stand in the text; the others come from a literal or
from a group (`readFrom_tokensOf`).
-/

namespace FilterClause

open Text

namespace Token

/-- The characters of operators: signs, and the letters of LIKE. -/
def IsOperatorPart (c : Char) : Prop :=
  c ∈ ['=', '<', '>', '!'] ∨ foldLetter c ∈ ['l', 'i', 'k', 'e']

/-- A character of an operator is no blank and no digit. -/
theorem IsOperatorPart.isStop {c : Char} (h : IsOperatorPart c) : RowLimit.isStop c = true := by
  rcases h with h | h
  · exact RowLimit.isStop_of_mem_marks c
      ((by decide : ∀ d ∈ ['=', '<', '>', '!'], d ∈ marks) c h)
  · exact RowLimit.isStop_of_foldLetter
      ((by decide : ∀ k ∈ ['l', 'i', 'k', 'e'], k ∈ keywordLetters) _ h)

/-- The operators that are written in signs. -/
def signs : List Text := [['>'], ['<'], ['='], ['>', '='], ['<', '='], ['!', '=']]

theorem upper_of_mem_signs {s : Text} (h : s ∈ signs) : upper s = s :=
  (by decide : ∀ r ∈ signs, upper r = r) s h

/-- How operators are spelled: the signs, and LIKE in any letter case. -/
def SpellsOperator (s : Text) : Prop := s ∈ signs ∨ s.map foldLetter = ['l', 'i', 'k', 'e']

theorem spellsOperator_of_operatorLength? {t : Text} {n : Nat} (h : operatorLength? t = some n) :
    SpellsOperator (t.take n) := by
  cases t with
  | nil => cases h
  | cons c rest =>
    have hequal : ∀ {d : Char}, rest.head? = some '=' → (d :: rest).take 2 = [d, '='] := by
      intro d hd
      obtain ⟨tail, rfl⟩ := List.head?_eq_some_iff.mp hd
      rfl
    have hone : (c :: rest).take 1 = [c] := rfl
    rw [operatorLength?_cons] at h
    split_ifs at h with hc he heq hne
    · cases h
      rw [hequal he]
      rcases hc with rfl | rfl <;> exact .inl (by decide)
    · cases h
      rw [hone]
      rcases hc with rfl | rfl <;> exact .inl (by decide)
    · cases h
      rw [hone, heq]
      exact .inl (by decide)
    · cases h
      rw [hequal hne.2, hne.1]
      exact .inl (by decide)
    · unfold likeLength? at h
      split at h
      · next tail hs =>
        obtain ⟨w, hw, hk⟩ := stripKeyword_eq_some_iff.mp hs
        split at h
        · cases h
        · cases h
          have hlen : w.length = 4 := by simpa using congrArg List.length hk
          rw [hw, List.take_left' hlen]
          exact .inr hk
      · cases h

theorem SpellsOperator.upper {s : Text} (h : SpellsOperator s) : SpellsOperator (upper s) := by
  rcases h with h | h
  · rw [upper_of_mem_signs h]
    exact .inl h
  · refine .inr ?_
    rw [← h, Text.upper, List.map_map]
    exact List.map_congr_left fun c _ => foldLetter_toUpper c

theorem SpellsOperator.ne_nil {s : Text} (h : SpellsOperator s) : s ≠ [] := by
  rintro rfl
  rcases h with h | h
  · exact absurd h (by decide)
  · cases h

theorem SpellsOperator.isOperatorPart {s : Text} (h : SpellsOperator s) :
    ∀ c ∈ s, IsOperatorPart c := by
  intro c hc
  rcases h with h | h
  · exact .inl ((by decide : ∀ r ∈ signs, ∀ d ∈ r, d ∈ ['=', '<', '>', '!']) s h c hc)
  · exact .inr (h ▸ List.mem_map_of_mem hc)

theorem SpellsOperator.not_blank {s : Text} (h : SpellsOperator s) :
    ∀ c ∈ s, isBlank c = false := fun c hc =>
  (RowLimit.isStop_iff.mp (h.isOperatorPart c hc).isStop).1

theorem SpellsOperator.plain {s : Text} (h : SpellsOperator s) : Fragment.Plain s := by
  rcases h with h | h
  · have hsigns : ∀ r ∈ signs, Fragment.Plain r := by
      unfold Fragment.Plain
      decide
    exact hsigns s h
  · exact .of_spelling h (by decide)

section Take

variable {t : Text} {n : Nat}

theorem take_wordLength? (h : wordLength? t = some n) :
    t.take n = t.takeWhile isWordPart ∧ t.takeWhile isWordPart ≠ [] := by
  unfold wordLength? at h
  dsimp only at h
  split at h
  · cases h
  · next hne =>
    cases h
    exact ⟨(List.prefix_iff_eq_take.mp (List.takeWhile_prefix _)).symm, by simpa using hne⟩

theorem drop_wordLength? (h : wordLength? t = some n) : t.drop n = t.dropWhile isWordPart := by
  have hparts := (List.take_append_drop n t).trans
    (List.takeWhile_append_dropWhile (p := isWordPart)).symm
  rw [(take_wordLength? h).1] at hparts
  exact List.append_cancel_left hparts

theorem head?_drop_wordLength? (h : wordLength? t = some n) :
    ∀ d ∈ (t.drop n).head?, isWordPart d = false := by
  intro d hd
  have hstop := List.head?_dropWhile_not isWordPart t
  rwa [← drop_wordLength? h, Option.mem_def.mp hd] at hstop

/-- A word alone is not LIKE. -/
theorem likeLength?_take_word (hop : operatorLength? t = none) (h : wordLength? t = some n) :
    likeLength? (t.take n) = none := by
  obtain ⟨htake, hne⟩ := take_wordLength? h
  have hwhole : likeLength? t = none := by
    cases t with
    | nil => rfl
    | cons c tail =>
      have hc : isWordPart c = true := by
        by_contra hc
        exact hne (List.takeWhile_cons_of_neg hc)
      rwa [operatorLength?_of_isWordPart hc] at hop
  rw [← List.takeWhile_append_dropWhile (p := isWordPart) (l := t)] at hwhole
  rw [htake]
  cases hrest : t.dropWhile isWordPart with
  | nil => rwa [hrest, List.append_nil] at hwhole
  | cons d tail =>
    have hd : isWordPart d = false := by
      have hstop := List.head?_dropWhile_not isWordPart t
      rwa [hrest] at hstop
    rwa [hrest, likeLength?_append_stop (not_isWord_of_not_isWordPart hd)] at hwhole

theorem take_callLength? (h : callLength? t = some n) :
    ∃ name arguments, t.take n = name ++ '(' :: arguments ++ [')'] ∧
      ∀ c ∈ name, Text.isWord c = true := by
  unfold callLength? at h
  dsimp only at h
  split at h
  · cases h
  · split at h
    · next rest hd =>
      split at h
      · next hclose =>
        cases h
        obtain ⟨tail, htail⟩ := List.head?_eq_some_iff.mp hclose
        have hrest := List.prefix_iff_eq_append.mp
          (List.takeWhile_prefix (l := rest) fun c => c != '(' && c != ')')
        rw [htail] at hrest
        have ht := List.takeWhile_append_dropWhile (p := Text.isWord) (l := t)
        rw [hd, ← hrest] at ht
        have hprefix : t.takeWhile Text.isWord ++
            '(' :: (rest.takeWhile fun c => c != '(' && c != ')') ++ [')'] <+: t :=
          ⟨tail, by simpa using ht⟩
        have htake := List.prefix_iff_eq_take.mp hprefix
        rw [List.length_append, List.length_append, List.length_cons, List.length_singleton,
          ← Nat.add_assoc] at htake
        exact ⟨_, _, htake.symm, fun c hc => all_of_mem_takeWhile hc⟩
      · cases h
    · cases h

end Take

end Token

/-! ## Where lexemes come from -/

namespace Lexeme

variable (literals : List Text) (interior : List Item → Text) (gs : List (Item ⊕ List Item))

/-- How a lexeme is spelled that is read from groups and the items between them, when `interior`
gives the text of what groups hold. -/
def ReadFrom : Lexeme → Prop
  | .operator s => Token.SpellsOperator s
  | .word s => s ≠ [] ∧ (∀ c ∈ s, Token.isWordPart c = true) ∧ Token.likeLength? s = none
  | .call s => ∃ name arguments, s = name ++ '(' :: arguments ++ [')'] ∧
      (∀ c ∈ name, isBlank c = false) ∧
      (s.Sublist (Piece.outerChars gs) ∨
        (∀ c ∈ name, isName c = true) ∧
          ∃ items, .inr items ∈ gs ∧ arguments = Item.renderAll literals items)
  | .literal content => ∃ index, .inl (.literal index) ∈ gs ∧ content = literals.getD index []
  | .group t => ∃ items, .inr items ∈ gs ∧ t = interior items

theorem readFrom_ofText {t : Text} (ht : t.Sublist (Piece.outerChars gs)) :
    ∀ l ∈ ofText t, l.ReadFrom literals interior gs := by
  intro l hl
  obtain ⟨rest, kind, n, hsuffix, hlexeme, rfl⟩ := exists_of_mem_ofText hl
  unfold Token.lexeme? at hlexeme
  split at hlexeme
  · next hop =>
    cases hlexeme
    exact Token.spellsOperator_of_operatorLength? hop
  · next hop =>
    split at hlexeme
    · next hcall =>
      cases hlexeme
      obtain ⟨name, arguments, htake, hname⟩ := Token.take_callLength? hcall
      exact ⟨name, arguments, htake, fun c hc => isBlank_of_isWord (hname c hc),
        .inl ((List.take_sublist _ _).trans (hsuffix.sublist.trans ht))⟩
    · obtain ⟨m, hword, he⟩ := Option.map_eq_some_iff.mp hlexeme
      cases he
      obtain ⟨htake, hne⟩ := Token.take_wordLength? hword
      refine ⟨?_, ?_, Token.likeLength?_take_word hop hword⟩
      · rwa [htake]
      · rw [htake]
        exact fun c hc => all_of_mem_takeWhile hc

/-- An operator in capitals is spelled like one. -/
theorem ReadFrom.upper {s : Text} (h : (operator s).ReadFrom literals interior gs) :
    (operator (Text.upper s)).ReadFrom literals interior gs := by
  exact Token.SpellsOperator.upper h

end Lexeme

theorem Piece.readFrom_lexemes (literals : List Text) (interior : List Item → Text)
    {gs : List (Item ⊕ List Item)} {p : Piece} (hp : p.Within gs) :
    ∀ l ∈ p.lexemes literals interior, l.ReadFrom literals interior gs := by
  cases p with
  | text t => exact Lexeme.readFrom_ofText literals interior gs hp
  | literal index => exact List.forall_mem_singleton.mpr ⟨index, hp, rfl⟩
  | call name arguments =>
    obtain ⟨-, hname, harguments⟩ := hp
    exact List.forall_mem_singleton.mpr ⟨name, _, rfl, fun c hc => isBlank_of_isName (hname c hc),
      .inr ⟨hname, arguments, harguments, rfl⟩⟩
  | group inside => exact List.forall_mem_singleton.mpr ⟨inside, hp, rfl⟩

namespace Cleaned

/-- Every token of a predicate is spelled in one of these ways. -/
theorem readFrom_tokensOf (literals : List Text) (interior : List Item → Cleaned)
    {items : List Item} {t : Token} (ht : t ∈ tokensOf literals items) :
    ((placesOf literals interior items).fill t).ReadFrom literals (fun i => (interior i).text)
      (Bracket.groups items) := by
  have hmem := List.mem_map_of_mem (f := (placesOf literals interior items).fill) ht
  rw [map_fill_tokensOf, lexemesOf, List.mem_flatMap] at hmem
  obtain ⟨piece, hpiece, hl⟩ := hmem
  exact Piece.readFrom_lexemes literals _ (Piece.within_ofItems hpiece) _ hl

end Cleaned

/-- Whether a token is spelled like one that was read, whatever it was read from. -/
def Places.Reads (p : Places) (t : Token) : Prop :=
  ∃ literals interior gs, (p.fill t).ReadFrom literals interior gs

theorem Cleaned.reads_tokensOf (literals : List Text) (interior : List Item → Cleaned)
    {items : List Item} {t : Token} (ht : t ∈ tokensOf literals items) :
    (placesOf literals interior items).Reads t :=
  ⟨_, _, _, readFrom_tokensOf literals interior ht⟩

end FilterClause
