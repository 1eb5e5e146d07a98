import FilterClause.Clause.Segment
import FilterClause.Scan
import FilterClause.Text.Keyword
import FilterClause.Text.Word

/-!
# Tokens

The words of a predicate. In text, an operator is tried first, then a call with flat arguments,
then a word; a character that starts none of them is dropped. A token never starts inside a word,
so LIKE is an operator as soon as no word character follows it.
-/

namespace FilterClause

open Text

/-- What a token is. -/
inductive TokenKind where
  /-- One of `=`, `!=`, `>`, `<`, `>=`, `<=` and LIKE. -/
  | operator
  | word
  /-- A name with bracketed arguments. -/
  | call
  /-- The place of a literal. -/
  | literal (index : Nat)
  /-- The place of a group. -/
  | group (index : Nat)
deriving DecidableEq

/-- A token with the text that it was made of, empty for a place, and the number of bytes of text
and calls before it. -/
structure Token where
  kind : TokenKind
  text : Text
  offset : Nat
deriving DecidableEq

/-- The keyword between two conditions. -/
inductive Connective where
  | and
  | or
deriving DecidableEq

/-- The keyword as it is written. -/
def Connective.text : Connective → Text
  | .and => ['A', 'N', 'D']
  | .or => ['O', 'R']

namespace Token

/-- Whether the token is an operator. -/
def isOperator (t : Token) : Bool := t.kind == .operator

/-- Whether the token is a word. -/
def isWord (t : Token) : Bool := t.kind == .word

/-- Whether the token is the place of a group. -/
def isGroup (t : Token) : Bool :=
  match t.kind with
  | .group _ => true
  | _ => false

/-- The connective that a word spells in any letter case. -/
def connective? (t : Token) : Option Connective :=
  if !t.isWord then none
  else if sameIgnoringCase t.text (Connective.text .and) then some .and
  else if sameIgnoringCase t.text (Connective.text .or) then some .or
  else none

/-- Characters that a word may hold besides word characters: `.`, `%`, `:`, `+` and `-`. -/
def isWordPart (c : Char) : Bool :=
  Text.isWord c || c == '.' || c == '%' || c == ':' || c == '+' || c == '-'

/-- Length of the operator at the start of a text. -/
def operatorLength? (t : Text) : Option Nat :=
  match t with
  | '>' :: '=' :: _ => some 2
  | '<' :: '=' :: _ => some 2
  | '!' :: '=' :: _ => some 2
  | '=' :: _ => some 1
  | '>' :: _ => some 1
  | '<' :: _ => some 1
  | _ =>
    match stripKeyword ['l', 'i', 'k', 'e'] t with
    | some rest => if startsWithWord rest then none else some 4
    | none => none

/-- Length of the call at the start of a text: word characters, and brackets with no bracket
between them. -/
def callLength? (t : Text) : Option Nat :=
  let name := t.takeWhile Text.isWord
  if name.isEmpty then none
  else match t.dropWhile Text.isWord with
    | '(' :: rest =>
      let inside := rest.takeWhile fun c => c != '(' && c != ')'
      if (rest.drop inside.length).head? = some ')' then some (name.length + inside.length + 2)
      else none
    | _ => none

/-- Length of the word at the start of a text. -/
def wordLength? (t : Text) : Option Nat :=
  let word := t.takeWhile isWordPart
  if word.isEmpty then none else some word.length

/-- Kind and length of the token at the start of a text. -/
def lexeme? (t : Text) : Option (TokenKind × Nat) :=
  match operatorLength? t with
  | some n => some (.operator, n)
  | none =>
    match callLength? t with
    | some n => some (.call, n)
    | none => (wordLength? t).map (.word, ·)

/-- The token that starts with a character, with the number of further characters in it. -/
def find? (c : Char) (rest : Text) : Option ((TokenKind × Text) × Nat) :=
  (lexeme? (c :: rest)).map fun (kind, length) =>
    ((kind, (c :: rest).take length), length - 1)

/-- Tokens of scanned text that starts behind `offset` bytes. -/
def placed (offset : Nat) : List (Char ⊕ (TokenKind × Text)) → List Token
  | [] => []
  | .inl c :: rest => placed (offset + c.utf8Size) rest
  | .inr (kind, text) :: rest => ⟨kind, text, offset⟩ :: placed (offset + byteLength text) rest

/-- Tokens of a text that starts behind `offset` bytes. -/
def ofText (offset : Nat) (t : Text) : List Token := placed offset (scan find? t)

/-- Tokens of segments that start behind `offset` bytes. -/
def behind (offset : Nat) : List Segment → List Token
  | [] => []
  | .text t :: rest => ofText offset t ++ behind (offset + byteLength t) rest
  | .call t :: rest => ⟨.call, t, offset⟩ :: behind (offset + byteLength t) rest
  | .literal index :: rest => ⟨.literal index, [], offset⟩ :: behind offset rest
  | .group index :: rest => ⟨.group index, [], offset⟩ :: behind offset rest

/-- The tokens of a list of segments. -/
def ofSegments (segments : List Segment) : List Token := behind 0 segments

end Token

end FilterClause
