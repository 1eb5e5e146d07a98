import FilterClause.Clause.Item
import FilterClause.Clause.Token
import FilterClause.Options

/-!
# Comparisons

A column, an operator and a value. The value is written between single quotes, unless it is a call
or a boolean, the operator is a range comparison, or the column holds dates. A value compared by
LIKE gets a `%` at both ends inside its quotes.
-/

namespace FilterClause

open Text

/-- What the places in a predicate stand for: contents of literals, and cleaned groups. -/
structure Places where
  literals : List Text
  groups : List Text

namespace Places

/-- The content of a literal. -/
def literal (p : Places) (index : Nat) : Text := p.literals.getD index []

/-- The text of a group, brackets left off. -/
def group (p : Places) (index : Nat) : Text := p.groups.getD index []

/-- A token as text: a literal between single quotes, a group between brackets. -/
def render (p : Places) (t : Token) : Text :=
  match t.kind with
  | .literal index => Item.quoted p.literals index
  | .group index => '(' :: p.group index ++ [')']
  | _ => t.text

/-- Tokens as text with one space between neighbours. -/
def renderAll (p : Places) (ts : List Token) : Text := joinSpaced (ts.map p.render)

/-- A token as text, a literal without its quotes. -/
def renderBare (p : Places) (t : Token) : Text :=
  match t.kind with
  | .literal index => p.literal index
  | _ => p.render t

/-- Tokens as text with one space between neighbours, literals without their quotes. -/
def renderAllBare (p : Places) (ts : List Token) : Text := joinSpaced (ts.map p.renderBare)

end Places

/-- A value between single quotes, every quote in it doubled. -/
def quoteValue (value : Text) : Text :=
  singleQuote ::
    (value.flatMap fun c => if c = singleQuote then [singleQuote, singleQuote] else [c]) ++
    [singleQuote]

/-- A comparison with its column already written out. -/
structure Comparison where
  column : Text
  operator : Text
  value : List Token

namespace Comparison

/-- Whether the value is matched as a pattern. -/
def isLike (c : Comparison) : Bool := sameIgnoringCase c.operator ['L', 'I', 'K', 'E']

/-- Whether the operator asks for an order. -/
def isRange (c : Comparison) : Bool :=
  [['>'], ['<'], ['>', '='], ['<', '=']].contains c.operator

/-- Whether the value is one call. -/
def isCall (c : Comparison) : Bool :=
  match c.value with
  | [t] => t.kind == .call
  | _ => false

/-- Whether a text in lower case names a truth value. -/
def isBoolean (t : Text) : Bool := t == "true".toList || t == "false".toList

/-- Whether the value is to be quoted. -/
def needsQuotes (c : Comparison) (places : Places) (options : Options) : Bool :=
  !c.isCall && !c.isRange && !options.isDateField c.column &&
    !isBoolean (lower (places.renderAll c.value))

/-- What stands between the quotes: the content of a single literal without `%` and quotes at its
ends, or else the value without `%` at its ends. -/
def inner (c : Comparison) (places : Places) : Text :=
  match c.value with
  | [⟨.literal index, _, _⟩] =>
    dropEnds (fun x => x == '%' || x == singleQuote || x == doubleQuote) (places.literal index)
  | _ => dropEnds (· == '%') (places.renderAllBare c.value)

/-- The value as it is written. -/
def renderValue (c : Comparison) (places : Places) (options : Options) : Text :=
  if c.needsQuotes places options then
    quoteValue (if c.isLike then '%' :: c.inner places ++ ['%'] else c.inner places)
  else places.renderAll c.value

/-- The comparison as text, the operator in upper case. -/
def render (c : Comparison) (places : Places) (options : Options) : Text :=
  let value := c.renderValue places options
  let front := c.column ++ ' ' :: upper c.operator
  if value.isEmpty then front else front ++ ' ' :: value

end Comparison

end FilterClause
