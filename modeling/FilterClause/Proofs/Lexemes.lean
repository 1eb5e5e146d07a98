import FilterClause.Clause.Comparison
import FilterClause.Clause.Piece
import FilterClause.Proofs.Keywords
import FilterClause.Proofs.Lifting
import Mathlib.Tactic.SplitIfs
import Mathlib.Tactic.ByContra

/-!
# Lexemes

A lexeme is a token with its place filled in: it tells neither where the token stands nor how the
literals and groups before it are numbered. The lexemes of a predicate come piece by piece, and a
blank in its text parts them.
-/

namespace FilterClause

open Text

/-- A token with its place filled in. -/
inductive Lexeme where
  | operator (text : Text)
  | word (text : Text)
  | call (text : Text)
  | literal (content : Text)
  | group (text : Text)
deriving DecidableEq

/-- The lexeme of a token. -/
def Places.fill (p : Places) (t : Token) : Lexeme :=
  match t.kind with
  | .operator => .operator t.text
  | .word => .word t.text
  | .call => .call t.text
  | .literal index => .literal (p.literal index)
  | .group index => .group (p.group index)

namespace Token

/-! ## Tokens at the start of a text -/

/-- Length of a spelling of LIKE at the start of a text, with no word character behind it. -/
def likeLength? (t : Text) : Option Nat :=
  match stripKeyword ['l', 'i', 'k', 'e'] t with
  | some rest => if startsWithWord rest then none else some 4
  | none => none

/-- An operator is told by its first character and the one behind it, or it is LIKE. -/
theorem operatorLength?_cons (c : Char) (rest : Text) :
    operatorLength? (c :: rest) =
      if c = '>' ∨ c = '<' then (if rest.head? = some '=' then some 2 else some 1)
      else if c = '=' then some 1
      else if c = '!' ∧ rest.head? = some '=' then some 2
      else likeLength? (c :: rest) := by
  have hhead : ∀ {t : Text}, (∀ tail, t = '=' :: tail → False) → t.head? ≠ some '=' := by
    intro t hne he
    obtain ⟨tail, rfl⟩ := List.head?_eq_some_iff.mp he
    exact hne tail rfl
  unfold operatorLength?
  split
  · next h => obtain ⟨rfl, rfl⟩ := List.cons.inj h; simp
  · next h => obtain ⟨rfl, rfl⟩ := List.cons.inj h; simp
  · next h => obtain ⟨rfl, rfl⟩ := List.cons.inj h; simp
  · next h => obtain ⟨rfl, rfl⟩ := List.cons.inj h; simp
  · next hne h =>
    obtain ⟨rfl, rfl⟩ := List.cons.inj h
    simp [hhead hne]
  · next hne h =>
    obtain ⟨rfl, rfl⟩ := List.cons.inj h
    simp [hhead hne]
  · next hge hle hne heq hgt hlt =>
    have h₁ : c ≠ '>' := fun e => hgt rest (by rw [e])
    have h₂ : c ≠ '<' := fun e => hlt rest (by rw [e])
    have h₃ : c ≠ '=' := fun e => heq rest (by rw [e])
    have h₄ : ¬ (c = '!' ∧ rest.head? = some '=') := by
      rintro ⟨rfl, he⟩
      obtain ⟨tail, rfl⟩ := List.head?_eq_some_iff.mp he
      exact hne tail rfl
    rw [if_neg (by simp [h₁, h₂]), if_neg h₃, if_neg h₄]
    rfl

theorem likeLength?_bounds {t : Text} {n : Nat} (h : likeLength? t = some n) :
    n = 4 ∧ 4 ≤ t.length := by
  unfold likeLength? at h
  split at h
  · next rest hs =>
    obtain ⟨w, rfl, hw⟩ := stripKeyword_eq_some_iff.mp hs
    have hlen : w.length = 4 := by simpa using congrArg List.length hw
    split at h
    · cases h
    · refine ⟨(Option.some.inj h).symm, ?_⟩
      rw [List.length_append]
      omega
  · cases h

theorem operatorLength?_bounds {t : Text} {n : Nat} (h : operatorLength? t = some n) :
    0 < n ∧ n ≤ t.length := by
  cases t with
  | nil => cases h
  | cons c rest =>
    have hrest : rest.head? = some '=' → 1 ≤ rest.length := by
      cases rest <;> simp
    have hlike := @likeLength?_bounds (c :: rest) n
    rw [operatorLength?_cons] at h
    rw [List.length_cons] at hlike ⊢
    split_ifs at h with h₁ h₂ h₃ h₄
    · have := hrest h₂
      cases h
      omega
    · cases h
      omega
    · cases h
      omega
    · have := hrest h₄.2
      cases h
      omega
    · have := hlike h
      omega

theorem callLength?_bounds {t : Text} {n : Nat} (h : callLength? t = some n) :
    0 < n ∧ n ≤ t.length := by
  have ht := congrArg List.length (List.takeWhile_append_dropWhile (p := Text.isWord) (l := t))
  unfold callLength? at h
  dsimp only at h
  split at h
  · cases h
  · split at h
    · next rest hd =>
      split at h
      · next hclose =>
        cases h
        have hle : (rest.takeWhile fun c => c != '(' && c != ')').length < rest.length := by
          by_contra hge
          rw [List.drop_eq_nil_of_le (Nat.le_of_not_lt hge)] at hclose
          cases hclose
        rw [List.length_append, hd, List.length_cons] at ht
        omega
      · cases h
    · cases h

theorem wordLength?_bounds {t : Text} {n : Nat} (h : wordLength? t = some n) :
    0 < n ∧ n ≤ t.length := by
  unfold wordLength? at h
  dsimp only at h
  split at h
  · cases h
  · next hne =>
    cases h
    have hpos : t.takeWhile isWordPart ≠ [] := by simpa using hne
    exact ⟨List.length_pos_iff.mpr hpos, (List.takeWhile_prefix _).length_le⟩

/-- The length of a token is that of a start of the text, and it is not empty. -/
theorem lexeme?_bounds {t : Text} {kind : TokenKind} {n : Nat}
    (h : lexeme? t = some (kind, n)) :
    0 < n ∧ n ≤ t.length ∧ (kind = .operator ∨ kind = .call ∨ kind = .word) := by
  unfold lexeme? at h
  split at h
  · next m hop =>
    cases h
    have := operatorLength?_bounds hop
    simp [this]
  · split at h
    · next m hcall =>
      cases h
      have := callLength?_bounds hcall
      simp [this]
    · obtain ⟨m, hm, he⟩ := Option.map_eq_some_iff.mp h
      cases he
      have := wordLength?_bounds hm
      simp [this]

/-- What does not go on with a word does not complete a LIKE before it. -/
theorem likeLength?_append_stop {b : Char} (hb : Text.isWord b = false) (s t : Text) :
    likeLength? (s ++ b :: t) = likeLength? s := by
  have hl : foldLetter b ∉ ['l', 'i', 'k', 'e'] := by
    intro hm
    have hletters : ∀ c ∈ ['l', 'i', 'k', 'e'], c ∈ keywordLetters := by decide
    rw [isWord_of_foldLetter (hletters _ hm)] at hb
    cases hb
  rw [likeLength?, stripKeyword_append_stop hl, likeLength?]
  cases stripKeyword ['l', 'i', 'k', 'e'] s with
  | none => rfl
  | some rest =>
    rw [Option.map_some]
    simp only [startsWithWord_append_stop hb]

section Blank

variable {b : Char} (hb : isBlank b = true)

include hb

theorem likeLength?_append_blank (s t : Text) : likeLength? (s ++ b :: t) = likeLength? s :=
  likeLength?_append_stop (isWord_of_isBlank hb) s t

theorem operatorLength?_append_blank (s t : Text) :
    operatorLength? (s ++ b :: t) = operatorLength? s := by
  have hne : ∀ d, isBlank d = false → b ≠ d := fun d hd => ne_of_isBlank hb hd
  cases s with
  | nil =>
    have h : ¬ (b = '>' ∨ b = '<') := by
      rintro (h | h)
      · exact hne '>' (by decide) h
      · exact hne '<' (by decide) h
    have h' : ¬ (b = '!' ∧ t.head? = some '=') := fun h => hne '!' (by decide) h.1
    have := likeLength?_append_blank hb [] t
    rw [List.nil_append, operatorLength?_cons, if_neg h, if_neg (hne '=' (by decide)), if_neg h']
    exact this
  | cons c s =>
    have hhead : (s ++ b :: t).head? = some '=' ↔ s.head? = some '=' := by
      cases s with
      | nil => simp [hne '=' (by decide)]
      | cons d s => rfl
    rw [List.cons_append, operatorLength?_cons, operatorLength?_cons]
    simp only [hhead]
    rw [← List.cons_append, likeLength?_append_blank hb]

theorem wordLength?_append_blank (s t : Text) : wordLength? (s ++ b :: t) = wordLength? s := by
  rw [wordLength?, takeWhile_append_stop (isWordPart_of_isBlank hb), wordLength?]

end Blank

/-- Without an opening bracket there is no call. -/
theorem callLength?_of_no_bracket {t : Text} (h : '(' ∉ t) : callLength? t = none := by
  have hd : ∀ rest, t.dropWhile Text.isWord ≠ '(' :: rest := fun rest e =>
    h (mem_of_mem_dropWhile (e ▸ List.mem_cons_self))
  unfold callLength?
  dsimp only
  split
  · rfl
  · split
    · next rest e => exact absurd e (hd rest)
    · rfl

/-- Without a closing bracket behind an opening one there is no call. -/
theorem callLength?_of_no_pair {t : Text} (h : ¬ ['(', ')'].Sublist t) : callLength? t = none := by
  unfold callLength?
  dsimp only
  split
  · rfl
  · split
    · next rest hrest =>
      refine if_neg fun hclose => h ?_
      have hbehind : ')' ∈ rest := List.mem_of_mem_drop (List.mem_of_mem_head? hclose)
      have hpair : ['(', ')'].Sublist ('(' :: rest) := (List.singleton_sublist.mpr hbehind).cons_cons _
      exact hpair.trans (hrest ▸ List.dropWhile_sublist _)
    · rfl

/-- Where there is no call, what follows a blank does not change the token before it. -/
theorem find?_append_of_no_call {b : Char} (hb : isBlank b = true) {c : Char} {s t : Text}
    (hwhole : callLength? (c :: s ++ b :: t) = none) (hstart : callLength? (c :: s) = none) :
    find? c (s ++ b :: t) = find? c s := by
  have hlex : lexeme? (c :: s ++ b :: t) = lexeme? (c :: s) := by
    rw [lexeme?, operatorLength?_append_blank hb, hwhole, wordLength?_append_blank hb, lexeme?,
      hstart]
  rw [find?, ← List.cons_append, hlex, find?]
  cases hl : lexeme? (c :: s) with
  | none => rfl
  | some found =>
    obtain ⟨kind, n⟩ := found
    have hle := (lexeme?_bounds hl).2.1
    simp only [Option.map_some, List.take_append_of_le_length hle]

/-- What follows a blank does not change the token before it, if no bracket opens before it. -/
theorem find?_append_blank {b : Char} (hb : isBlank b = true) {c : Char} {s : Text}
    (h : '(' ∉ c :: s) (t : Text) : find? c (s ++ b :: t) = find? c s := by
  have hparen : callLength? (c :: s ++ b :: t) = none := by
    have hname : ((c :: s ++ b :: t).dropWhile Text.isWord).head? ≠ some '(' := by
      rw [dropWhile_append_stop (isWord_of_isBlank hb)]
      cases hd : (c :: s).dropWhile Text.isWord with
      | nil =>
        rw [List.nil_append, List.head?_cons]
        exact fun e => ne_of_isBlank hb (by decide) (Option.some.inj e)
      | cons d rest =>
        rw [List.cons_append, List.head?_cons]
        intro e
        obtain rfl : d = '(' := Option.some.inj e
        have hmem : '(' ∈ (c :: s).dropWhile Text.isWord := by
          rw [hd]
          exact List.mem_cons_self
        exact h (mem_of_mem_dropWhile hmem)
    unfold callLength?
    dsimp only
    split
    · rfl
    · split
      · next e => exact absurd (congrArg List.head? e) hname
      · rfl
  exact find?_append_of_no_call hb hparen (callLength?_of_no_bracket h)

theorem find?_bounds {c : Char} {rest : Text} {kind : TokenKind} {text : Text} {n : Nat}
    (h : find? c rest = some ((kind, text), n)) :
    n ≤ rest.length ∧ (kind = .operator ∨ kind = .call ∨ kind = .word) ∧ text ≠ [] := by
  obtain ⟨⟨k, m⟩, hl, he⟩ := Option.map_eq_some_iff.mp h
  obtain ⟨hpos, hle, hkind⟩ := lexeme?_bounds hl
  obtain ⟨hkt, rfl⟩ := Prod.mk.inj he
  obtain ⟨rfl, rfl⟩ := Prod.mk.inj hkt
  rw [List.length_cons] at hle
  refine ⟨by omega, hkind, ?_⟩
  rw [ne_eq, List.take_eq_nil_iff]
  simp
  omega

theorem find?_of_isBlank {b : Char} (hb : isBlank b = true) (rest : Text) :
    find? b rest = none := by
  have hop : operatorLength? (b :: rest) = none := operatorLength?_append_blank hb [] rest
  have hcall : callLength? (b :: rest) = none := by
    simp [callLength?, isWord_of_isBlank hb]
  have hword : wordLength? (b :: rest) = none := wordLength?_append_blank hb [] rest
  rw [find?, lexeme?, hop, hcall, hword]
  rfl

end Token

/-! ## Lexemes of a text -/

namespace Lexeme

/-- The lexeme of a token found in a text. -/
def ofFind : TokenKind × Text → Lexeme
  | (.operator, t) => .operator t
  | (.word, t) => .word t
  | (_, t) => .call t

/-- The lexemes of a text. -/
def ofText (t : Text) : List Lexeme :=
  ((scan Token.find? t).filterMap Sum.getRight?).map ofFind

@[simp] theorem ofText_nil : ofText [] = [] := rfl

theorem ofText_cons_of_none {c : Char} {rest : Text} (h : Token.find? c rest = none) :
    ofText (c :: rest) = ofText rest := by
  rw [ofText, scan_cons_of_none h, ofText]
  rfl

theorem ofText_cons_of_some {c : Char} {rest : Text} {found : TokenKind × Text} {n : Nat}
    (h : Token.find? c rest = some (found, n)) :
    ofText (c :: rest) = ofFind found :: ofText (rest.drop n) := by
  rw [ofText, scan_cons_of_some h, ofText]
  rfl

/-- A lexeme of a text is what is found somewhere in it. -/
theorem exists_of_mem_ofText {t : Text} {l : Lexeme} (h : l ∈ ofText t) :
    ∃ rest kind n, rest <:+ t ∧ Token.lexeme? rest = some (kind, n) ∧
      l = ofFind (kind, rest.take n) := by
  induction t using scan_induction Token.find? with
  | nil => cases h
  | pass c rest hf ih =>
    rw [ofText_cons_of_none hf] at h
    obtain ⟨tail, kind, n, hsuffix, hl⟩ := ih h
    exact ⟨tail, kind, n, hsuffix.trans (List.suffix_cons c rest), hl⟩
  | take c rest found m hf ih =>
    rw [ofText_cons_of_some hf, List.mem_cons] at h
    rcases h with rfl | h
    · obtain ⟨⟨kind, n⟩, hl, he⟩ := Option.map_eq_some_iff.mp hf
      exact ⟨c :: rest, kind, n, List.suffix_refl _, hl, congrArg ofFind (Prod.mk.inj he).1.symm⟩
    · obtain ⟨tail, kind, n, hsuffix, hl⟩ := ih h
      exact ⟨tail, kind, n,
        hsuffix.trans ((List.drop_suffix m rest).trans (List.suffix_cons c rest)), hl⟩

/-- The lexemes of a text are those of its tokens, wherever the text stands. -/
theorem map_fill_ofText (p : Places) (offset : Nat) (t : Text) :
    (Token.ofText offset t).map p.fill = ofText t := by
  unfold Token.ofText
  induction t using scan_induction Token.find? generalizing offset with
  | nil => rfl
  | pass c rest h ih => rw [scan_cons_of_none h, Token.placed, ih, ofText_cons_of_none h]
  | take c rest found n h ih =>
    obtain ⟨kind, text⟩ := found
    have hkind := (Token.find?_bounds h).2.1
    rw [scan_cons_of_some h, Token.placed, List.map_cons, ih, ofText_cons_of_some h]
    rcases hkind with rfl | rfl | rfl <;> rfl

/-- A blank parts the lexemes of a text if it changes no token before it. -/
theorem ofText_append_of_find? {b : Char} (hb : isBlank b = true) {s t : Text}
    (h : ∀ c rest, c :: rest <:+ s → Token.find? c (rest ++ b :: t) = Token.find? c rest) :
    ofText (s ++ b :: t) = ofText s ++ ofText t := by
  have hscan : scan Token.find? (s ++ b :: t) =
      scan Token.find? s ++ scan Token.find? (b :: t) :=
    scan_append fun c rest hsuff => ⟨h c rest hsuff, fun found n hf => (Token.find?_bounds hf).1⟩
  rw [ofText, hscan, List.filterMap_append, List.map_append, ← ofText,
    scan_cons_of_none (Token.find?_of_isBlank hb t)]
  rfl

theorem ofText_append_blank {b : Char} (hb : isBlank b = true) {s : Text} (h : '(' ∉ s)
    (t : Text) : ofText (s ++ b :: t) = ofText s ++ ofText t :=
  ofText_append_of_find? hb fun _ _ hsuff =>
    Token.find?_append_blank hb (fun hm => h (hsuff.subset hm)) t

/-- A blank parts the lexemes of a text in which no closing bracket stands behind an opening one. -/
theorem ofText_append_of_no_pair {b : Char} (hb : isBlank b = true) {s t : Text}
    (h : ¬ ['(', ')'].Sublist (s ++ b :: t)) : ofText (s ++ b :: t) = ofText s ++ ofText t := by
  refine ofText_append_of_find? hb fun c rest hsuff => ?_
  have hstart : (c :: rest).Sublist (s ++ b :: t) :=
    hsuff.sublist.trans (List.sublist_append_left _ _)
  exact Token.find?_append_of_no_call hb
    (Token.callLength?_of_no_pair fun hp => h (hp.trans (hsuff.sublist.append_right _)))
    (Token.callLength?_of_no_pair fun hp => h (hp.trans hstart))

theorem ofText_cons_of_isBlank {b : Char} (hb : isBlank b = true) (t : Text) :
    ofText (b :: t) = ofText t :=
  ofText_cons_of_none (Token.find?_of_isBlank hb t)

theorem ofText_blanks_append {bs : Text} (hb : ∀ b ∈ bs, isBlank b = true) (t : Text) :
    ofText (bs ++ t) = ofText t := by
  induction bs with
  | nil => rfl
  | cons b bs ih =>
    rw [List.cons_append, ofText_cons_of_isBlank (hb b List.mem_cons_self),
      ih fun c hc => hb c (List.mem_cons_of_mem _ hc)]

end Lexeme

end FilterClause
