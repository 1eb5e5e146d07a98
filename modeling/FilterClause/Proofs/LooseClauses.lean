import FilterClause.Clause.Normal

/-!
# Loosely written clauses

The language that people write filters in, as a syntax tree with all that may vary in writing it
down: blanks, letter case, the quotes around a value. A tree has a text, which is what was written,
and a normal form, which is told by the tree alone.
-/

namespace FilterClause

open Text

/-! ## Blanks, keywords and words -/

/-- Blanks, or none. -/
structure Blanks where
  text : Text
  blank : ∀ c ∈ text, isBlank c = true

/-- Blanks, at least one. -/
structure Gap extends Blanks where
  nonempty : text ≠ []

theorem Gap.exists_cons (gap : Gap) : ∃ b bs, gap.text = b :: bs ∧ isBlank b = true := by
  obtain ⟨b, bs, h⟩ := List.exists_cons_of_ne_nil gap.nonempty
  exact ⟨b, bs, h, gap.blank b (h ▸ List.mem_cons_self)⟩

/-- A keyword in any letter case. -/
structure Spelling (keyword : Text) where
  text : Text
  same : sameIgnoringCase text keyword = true

/-- ASCII letters, digits and underscores. -/
def isRunSign (c : Char) : Bool := c.isAlphanum || c == '_'

/-- What words are made of. -/
def isWordSign (c : Char) : Bool := isRunSign c || c == '.' || c == ':' || c == '-'

/-- The maximal runs of letters, digits and underscores, the empty ones between other characters
included. -/
def runs (t : Text) : List Text := t.splitOnP fun c => !isRunSign c

/-- Keywords that are no run of a word. -/
def runKeywords : List Text := ["LIKE".toList, "WHERE".toList, "LIMIT".toList]

/-- A word that no rule can take for something else. -/
structure Word where
  text : Text
  nonempty : text ≠ []
  signs : ∀ c ∈ text, isWordSign c = true
  noConnective : ∀ k : Connective, sameIgnoringCase text k.text = false
  noKeyword : ∀ r ∈ runs text, ∀ k ∈ runKeywords, sameIgnoringCase r k = false

/-! ## Conditions -/

/-- The comparisons that are written with signs. -/
inductive Sign where
  | equal
  | notEqual
  | greater
  | less
  | greaterEqual
  | lessEqual
deriving DecidableEq

/-- The sign as it is written. -/
def Sign.text : Sign → Text
  | .equal => ['=']
  | .notEqual => ['!', '=']
  | .greater => ['>']
  | .less => ['<']
  | .greaterEqual => ['>', '=']
  | .lessEqual => ['<', '=']

/-- Whether the sign asks for an order. -/
def Sign.isOrder : Sign → Bool
  | .equal | .notEqual => false
  | _ => true

/-- An operator and the blanks around it. -/
inductive Comparator where
  | sign (before : Blanks) (s : Sign) (after : Blanks)
  | like (before : Gap) (spelling : Spelling "LIKE".toList) (after : Gap)

namespace Comparator

/-- The comparator as it was written. -/
def text : Comparator → Text
  | .sign before s after => before.text ++ s.text ++ after.text
  | .like before spelling after => before.text ++ spelling.text ++ after.text

/-- The operator alone, as it was written. -/
def operator : Comparator → Text
  | .sign _ s _ => s.text
  | .like _ spelling _ => spelling.text

/-- The operator in normal form. -/
def normal : Comparator → Text
  | .sign _ s _ => s.text
  | .like .. => "LIKE".toList

/-- Whether the operator asks for an order. -/
def isOrder : Comparator → Bool
  | .sign _ s _ => s.isOrder
  | .like .. => false

/-- A value as the operator matches it. -/
def pattern : Comparator → Text → Text
  | .sign .., t => t
  | .like .., t => '%' :: t ++ ['%']

end Comparator

/-- The quotes that a literal may stand between. -/
inductive Quote where
  | single
  | double
deriving DecidableEq

/-- The character that opens and closes the literal. -/
def Quote.char : Quote → Char
  | .single => singleQuote
  | .double => doubleQuote

/-- What a column is compared with. -/
inductive Comparand where
  | words (first : Word) (rest : List (Gap × Word))
  | literal (quote : Quote) (content : Text) (closed : quote.char ∉ content)

namespace Comparand

/-- Words behind another one as they were written. -/
def wordsText : List (Gap × Word) → Text
  | [] => []
  | (gap, word) :: rest => gap.text ++ word.text ++ wordsText rest

/-- The value as it was written. -/
def text : Comparand → Text
  | .words first rest => first.text ++ wordsText rest
  | .literal quote content _ => quote.char :: content ++ [quote.char]

/-- The words with one space between neighbours, or the content of the literal. -/
def plain : Comparand → Text
  | .words first rest => joinSpaced (first.text :: rest.map fun (_, word) => word.text)
  | .literal _ content _ => content

/-- The content of a literal. -/
def content? : Comparand → Option Text
  | .words .. => none
  | .literal _ content _ => some content

/-- Whether the value is a truth value that is not quoted. -/
def isTruth : Comparand → Bool
  | v@(.words ..) =>
    sameIgnoringCase v.plain "true".toList || sameIgnoringCase v.plain "false".toList
  | .literal .. => false

/-- The value where it is left as it is. A literal stays one. -/
def bare : Comparand → Text
  | v@(.words ..) => v.plain
  | .literal _ content _ => quoteValue content

/-- What stands between the quotes of a quoted value. A literal loses what pads it. -/
def inner : Comparand → Text
  | v@(.words ..) => v.plain
  | .literal _ content _ =>
    dropEnds (fun c => c == '%' || c == singleQuote || c == doubleQuote) content

end Comparand

/-- A comparison. A literal that is left as it is holds no apostrophe. -/
structure LooseCondition (options : Options) where
  column : Word
  comparator : Comparator
  value : Comparand
  verbatim : comparator.isOrder = true ∨ options.isDateField column.text = true →
    ∀ content ∈ value.content?, singleQuote ∉ content

namespace LooseCondition

variable {options : Options} (c : LooseCondition options)

/-- The comparison as it was written. -/
def text : Text := c.column.text ++ c.comparator.text ++ c.value.text

/-- Whether the value is left as it is. -/
def isBare : Bool :=
  c.comparator.isOrder || options.isDateField c.column.text || c.value.isTruth

/-- The comparison in normal form. -/
def normal : Text :=
  c.column.text ++ ' ' :: c.comparator.normal ++ ' ' ::
    if c.isBare then c.value.bare else quoteValue (c.comparator.pattern c.value.inner)

end LooseCondition

/-! ## Clauses -/

/-- Comparisons and bracketed clauses joined by connectives. -/
inductive LooseClause (options : Options) where
  | condition (c : LooseCondition options)
  | group (before : Blanks) (clause : LooseClause options) (after : Blanks)
  | joined (left : LooseClause options) (before : Gap) (connective : Connective)
      (spelling : Spelling connective.text) (after : Gap) (right : LooseClause options)

namespace LooseClause

variable {options : Options}

/-- The clause as it was written. -/
def text : LooseClause options → Text
  | .condition c => c.text
  | .group before clause after => '(' :: (before.text ++ clause.text ++ after.text ++ [')'])
  | .joined left before _ spelling after right =>
    left.text ++ before.text ++ spelling.text ++ after.text ++ right.text

/-- The clause in normal form. -/
def normal : LooseClause options → Text
  | .condition c => c.normal
  | .group _ clause _ => '(' :: clause.normal ++ [')']
  | .joined left _ connective _ _ right =>
    left.normal ++ ' ' :: connective.text ++ ' ' :: right.normal

/-- How many groups stand one in another. -/
def depth : LooseClause options → Nat
  | .condition _ => 0
  | .group _ clause _ => clause.depth + 1
  | .joined left _ _ _ _ right => max left.depth right.depth

end LooseClause

/-- A row limit behind a clause. -/
structure LimitSuffix where
  before : Gap
  spelling : Spelling "LIMIT".toList
  gap : Gap
  digits : Text
  nonempty : digits ≠ []
  decimal : ∀ c ∈ digits, isWordDigit c = true

namespace LimitSuffix

/-- The suffix as it was written. -/
def text (s : LimitSuffix) : Text := s.before.text ++ s.spelling.text ++ s.gap.text ++ s.digits

/-- The limit that the suffix asks for. -/
def rowLimit (s : LimitSuffix) : RowLimit :=
  ⟨s.spelling.text ++ s.gap.text ++ s.digits, RowLimit.count? s.digits⟩

end LimitSuffix

/-- A clause with all that may stand around it. -/
structure WrittenClause (options : Options) where
  before : Blanks
  lead : Option (Spelling "WHERE".toList × Gap)
  clause : LooseClause options
  suffix : Option LimitSuffix
  after : Blanks

namespace WrittenClause

variable {options : Options} (w : WrittenClause options)

/-- The leading WHERE, if there is one. -/
def leadText : Text := w.lead.elim [] fun lead => lead.1.text ++ lead.2.text

/-- The row limit, if there is one. -/
def suffixText : Text := w.suffix.elim [] LimitSuffix.text

/-- What was written. -/
def text : Text :=
  w.before.text ++ (w.leadText ++ w.clause.text ++ w.suffixText) ++ w.after.text

/-- The normal form of what was written. -/
def normal : Text :=
  w.clause.normal ++ w.suffix.elim [] fun s => ' ' :: s.rowLimit.text

end WrittenClause

end FilterClause
