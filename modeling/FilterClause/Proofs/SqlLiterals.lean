import FilterClause.Clause.Comparison

/-!
# Literals in SQL text

Which characters of a text SQL takes for parts of a literal. A literal stands between apostrophes,
and in it two apostrophes stand for one.
-/

namespace FilterClause

open Text

namespace Sql

/-- Whether each character of a text belongs to a literal, when one is open before the text or not.
In a literal two apostrophes stand for one, and an apostrophe alone closes it. -/
def inLiteral : Bool → Text → List Bool
  | _, [] => []
  | false, c :: rest => (c == singleQuote) :: inLiteral (c == singleQuote) rest
  | true, [_] => [true]
  | true, c :: d :: rest =>
    if c = singleQuote then
      if d = singleQuote then true :: true :: inLiteral true rest
      else true :: inLiteral false (d :: rest)
    else true :: inLiteral true (d :: rest)

/-- Whether a literal is open behind a text, when one is open before it or not. -/
def openBehind : Bool → Text → Bool
  | isOpen, [] => isOpen
  | false, c :: rest => openBehind (c == singleQuote) rest
  | true, [c] => c != singleQuote
  | true, c :: d :: rest =>
    if c = singleQuote then
      if d = singleQuote then openBehind true rest else openBehind false (d :: rest)
    else openBehind true (d :: rest)

/-- Two apostrophes in a literal might as well close it and open the next one. -/
theorem inLiteral_cons (isOpen : Bool) (c : Char) (rest : Text) :
    inLiteral isOpen (c :: rest) =
      (isOpen || c == singleQuote) :: inLiteral (isOpen ^^ (c == singleQuote)) rest := by
  cases isOpen with
  | false => simp [inLiteral]
  | true =>
    cases rest with
    | nil => simp [inLiteral]
    | cons d rest =>
      by_cases hc : c = singleQuote
      · by_cases hd : d = singleQuote
        · simp [inLiteral, hc, hd]
        · simp [inLiteral, hc, hd]
      · simp [inLiteral, hc, beq_eq_false_iff_ne.mpr hc]

theorem openBehind_cons (isOpen : Bool) (c : Char) (rest : Text) :
    openBehind isOpen (c :: rest) = openBehind (isOpen ^^ (c == singleQuote)) rest := by
  cases isOpen with
  | false => simp [openBehind]
  | true =>
    cases rest with
    | nil => simp [openBehind, bne]
    | cons d rest =>
      by_cases hc : c = singleQuote
      · by_cases hd : d = singleQuote
        · simp [openBehind, hc, hd]
        · simp [openBehind, hc, hd]
      · simp [openBehind, hc, beq_eq_false_iff_ne.mpr hc]

@[simp] theorem length_inLiteral (isOpen : Bool) (t : Text) :
    (inLiteral isOpen t).length = t.length := by
  induction t generalizing isOpen with
  | nil => cases isOpen <;> rfl
  | cons c t ih => rw [inLiteral_cons, List.length_cons, ih, List.length_cons]

theorem inLiteral_append (isOpen : Bool) (s t : Text) :
    inLiteral isOpen (s ++ t) = inLiteral isOpen s ++ inLiteral (openBehind isOpen s) t := by
  induction s generalizing isOpen with
  | nil => cases isOpen <;> rfl
  | cons c s ih =>
    rw [List.cons_append, inLiteral_cons, ih, inLiteral_cons, openBehind_cons, List.cons_append]

theorem openBehind_append (isOpen : Bool) (s t : Text) :
    openBehind isOpen (s ++ t) = openBehind (openBehind isOpen s) t := by
  induction s generalizing isOpen with
  | nil => cases isOpen <;> rfl
  | cons c s ih => rw [List.cons_append, openBehind_cons, ih, openBehind_cons]

/-- Whether a text is literals from end to end. -/
def Enclosed (t : Text) : Prop :=
  (∀ b ∈ inLiteral false t, b = true) ∧ openBehind false t = false

/-! ## One literal -/

/-- Whether the apostrophes of a text come in pairs, one behind the other. -/
def isPaired : Text → Bool
  | [] => true
  | [c] => c != singleQuote
  | c :: d :: rest =>
    if c = singleQuote then d == singleQuote && isPaired rest else isPaired (d :: rest)

/-- Whether a text is one literal. -/
def IsLiteral (t : Text) : Prop :=
  ∃ content, isPaired content = true ∧ t = singleQuote :: content ++ [singleQuote]

theorem isLiteral_iff (content : Text) :
    IsLiteral (singleQuote :: content ++ [singleQuote]) ↔ isPaired content = true := by
  constructor
  · rintro ⟨other, hpaired, h⟩
    have hsame : content = other :=
      List.append_cancel_right (List.cons.inj h).2
    rwa [hsame]
  · exact fun h => ⟨content, h, rfl⟩

/-- What stands between two apostrophes is in the literal to its end exactly if its apostrophes
come in pairs. -/
theorem enclosed_iff (content : Text) :
    Enclosed (singleQuote :: content ++ [singleQuote]) ↔ isPaired content = true := by
  have key : ((∀ b ∈ inLiteral true (content ++ [singleQuote]), b = true) ∧
      openBehind true (content ++ [singleQuote]) = false) ↔ isPaired content = true := by
    induction content using isPaired.induct with
    | case1 => simp [inLiteral, openBehind, isPaired]
    | case2 c => by_cases hc : c = singleQuote <;> simp [inLiteral, openBehind, isPaired, hc]
    | case3 d rest ih =>
      by_cases hd : d = singleQuote
      · simpa [inLiteral, openBehind, isPaired, hd] using ih
      · simp [inLiteral, isPaired, hd]
    | case4 c d rest hc ih => simpa [inLiteral, openBehind, isPaired, hc] using ih
  have hopen : (singleQuote == singleQuote) = true := by decide
  rw [Enclosed, List.cons_append, inLiteral_cons, openBehind_cons, hopen, ← key]
  simp

theorem isPaired_append {s : Text} (hs : isPaired s = true) (t : Text) :
    isPaired (s ++ t) = isPaired t := by
  induction s using isPaired.induct with
  | case1 => rfl
  | case2 c =>
    have hc : c ≠ singleQuote := by simpa [isPaired] using hs
    cases t with
    | nil => simp [isPaired, hc]
    | cons d t => simp [isPaired, hc]
  | case3 d rest ih =>
    simp only [isPaired, if_true, Bool.and_eq_true, beq_iff_eq] at hs
    simpa [isPaired, hs.1] using ih hs.2
  | case4 c d rest hc ih =>
    simp only [isPaired, if_neg hc] at hs
    simpa [isPaired, hc] using ih hs

/-- A quoted value is one literal, whatever the value. -/
theorem isLiteral_quoteValue (value : Text) : IsLiteral (quoteValue value) := by
  refine (isLiteral_iff _).mpr ?_
  induction value with
  | nil => rfl
  | cons c value ih =>
    rw [List.flatMap_cons, isPaired_append]
    · exact ih
    · split
      · rfl
      · next hc => simp [isPaired, hc]

theorem IsLiteral.enclosed {t : Text} (h : IsLiteral t) : Enclosed t := by
  obtain ⟨content, hpaired, rfl⟩ := h
  exact (enclosed_iff content).mpr hpaired

/-! ## What a literal means -/

/-- The meaning of a literal that is read behind its opening apostrophe, and what follows it. -/
def readContent : Text → Option (Text × Text)
  | [] => none
  | [c] => if c = singleQuote then some ([], []) else none
  | c :: d :: rest =>
    if c = singleQuote then
      if d = singleQuote then (readContent rest).map (Prod.map (singleQuote :: ·) id)
      else some ([], d :: rest)
    else (readContent (d :: rest)).map (Prod.map (c :: ·) id)

/-- The meaning of the literal at the start of a text, and what follows it. -/
def readLiteral : Text → Option (Text × Text)
  | [] => none
  | c :: rest => if c = singleQuote then readContent rest else none

theorem readContent_cons {c : Char} (hc : c ≠ singleQuote) (rest : Text) :
    readContent (c :: rest) = (readContent rest).map (Prod.map (c :: ·) id) := by
  cases rest with
  | nil => simp [readContent, hc]
  | cons d rest => rw [readContent, if_neg hc]

theorem readContent_close {rest : Text} (h : rest.head? ≠ some singleQuote) :
    readContent (singleQuote :: rest) = some ([], rest) := by
  cases rest with
  | nil => rfl
  | cons d rest =>
    have hd : d ≠ singleQuote := fun e => h (congrArg some e)
    rw [readContent, if_pos rfl, if_neg hd]

/-- A quoted value means the value, whatever apostrophes it holds, and ends with its last character
unless another apostrophe follows. -/
theorem readLiteral_quoteValue (value : Text) {rest : Text} (h : rest.head? ≠ some singleQuote) :
    readLiteral (quoteValue value ++ rest) = some (value, rest) := by
  have key : readContent
      ((value.flatMap fun c => if c = singleQuote then [singleQuote, singleQuote] else [c]) ++
        singleQuote :: rest) = some (value, rest) := by
    induction value with
    | nil => exact readContent_close h
    | cons c value ih =>
      rw [List.flatMap_cons, List.append_assoc]
      by_cases hc : c = singleQuote
      · rw [if_pos hc, List.cons_append, List.singleton_append, readContent, if_pos rfl,
          if_pos rfl, ih, hc]
        rfl
      · rw [if_neg hc, List.singleton_append, readContent_cons hc, ih]
        rfl
  rw [quoteValue, List.append_assoc, List.cons_append, List.singleton_append, readLiteral,
    if_pos rfl, key]

end Sql

end FilterClause
