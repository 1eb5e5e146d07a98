import FilterClause.Clause.Comparison

/-!
# Conditions

Tokens fall into conditions at the connectives AND and OR. A connective separates only where a
left-hand side stands before it and a condition starts behind it; elsewhere it is part of a value,
as in `Name = Salt and Pepper`.
-/

namespace FilterClause

open Text

/-- Things joined by connectives. -/
structure Chain (α : Type) where
  first : α
  rest : List (Connective × α)

namespace Chain

/-- The chain with each of its things changed. -/
def map {α β : Type} (f : α → β) (c : Chain α) : Chain β :=
  ⟨f c.first, c.rest.map fun (k, a) => (k, f a)⟩

/-- A chain of texts and its connectives as one text, separated by spaces. -/
def text (c : Chain Text) : Text :=
  joinSpaced (c.first :: c.rest.flatMap fun (k, t) => [k.text, t])

end Chain

namespace Condition

/-- Whether tokens make up a left-hand side: a column and an operator at least, or a group. -/
def isLeftSide : List Token → Bool
  | [] => false
  | [only] => only.isGroup
  | _ => true

/-- Whether a condition starts here: a word and an operator, or a group. -/
def startsHere : List Token → Bool
  | [] => false
  | [first] => first.isGroup
  | first :: second :: _ => (first.isWord && second.isOperator) || first.isGroup

/-- Splitting when the tokens of the first condition so far, given backwards, are `back`. -/
def splitBehind (back : List Token) : List Token → Chain (List Token)
  | [] => ⟨back.reverse, []⟩
  | t :: rest =>
    match t.connective? with
    | some k =>
      if isLeftSide back && startsHere rest then
        let behind := splitBehind [] rest
        ⟨back.reverse, (k, behind.first) :: behind.rest⟩
      else splitBehind (t :: back) rest
    | none => splitBehind (t :: back) rest

/-- The conditions of a list of tokens, none if it is empty. -/
def split (tokens : List Token) : Option (Chain (List Token)) :=
  if tokens.isEmpty then none else some (splitBehind [] tokens)

/-- One condition as text. A leading group is the whole condition. A second token that is an
operator makes a comparison. Anything else is reproduced. -/
def render (places : Places) (options : Options) : List Token → Text
  | [] => []
  | [only] => places.render only
  | first :: second :: value =>
    if first.isGroup then places.render first
    else if second.isOperator then
      Comparison.render ⟨places.render first, second.text, value⟩ places options
    else places.renderAll (first :: second :: value)

/-- All conditions of a list of tokens as text. -/
def renderAll (places : Places) (options : Options) (tokens : List Token) : Text :=
  match split tokens with
  | none => []
  | some chain => (chain.map (render places options)).text

end Condition

end FilterClause
