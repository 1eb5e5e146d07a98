import FilterClause.Clause.Item
import FilterClause.Scan

/-!
# Brackets

Which opening bracket belongs to which closing one. Items are read from the right, and the closing
brackets that still wait for a partner are kept, nearest first; an opening bracket takes the
nearest. What is left without a partner is plain text. Places are counted from the end of the
items, so what is known of a list is not changed by items before it.
-/

namespace FilterClause

namespace Bracket

/-- What is known of the brackets in a list of items. -/
structure Pairing where
  /-- Number of items. -/
  count : Nat
  /-- For every item the number of steps to its closing bracket, if it is an opening one that has
  a partner. -/
  reaches : List (Option Nat)
  /-- For every closing bracket without a partner the number of items behind it. -/
  waiting : List Nat

/-- Pairs the brackets of a list of items. -/
def pair : List Item → Pairing
  | [] => ⟨0, [], []⟩
  | item :: rest =>
    let p := pair rest
    if item = .char '(' then
      ⟨p.count + 1, p.waiting.head?.map (p.count - ·) :: p.reaches, p.waiting.tail⟩
    else if item = .char ')' then ⟨p.count + 1, none :: p.reaches, p.count :: p.waiting⟩
    else ⟨p.count + 1, none :: p.reaches, p.waiting⟩

@[simp] theorem count_pair (items : List Item) : (pair items).count = items.length := by
  induction items with
  | nil => rfl
  | cons item rest ih =>
    simp only [pair]
    split
    · simp [ih]
    · split <;> simp [ih]

/-- For every item the number of steps to its closing bracket, if it is an opening one that has a
partner. -/
def reaches (items : List Item) : List (Option Nat) := (pair items).reaches

@[simp] theorem reaches_nil : reaches [] = [] := rfl

/-- A list reads the same whatever stands before it. -/
theorem tail_reaches_cons (item : Item) (rest : List Item) :
    (reaches (item :: rest)).tail = reaches rest := by
  simp only [reaches, pair]
  split
  · rfl
  · split <;> rfl

@[simp] theorem length_reaches (items : List Item) : (reaches items).length = items.length := by
  induction items with
  | nil => rfl
  | cons item rest ih =>
    simp only [reaches, pair] at ih ⊢
    split
    · simp [ih]
    · split <;> simp [ih]

/-- The interior of the group that an item opens, and how far it and its closing bracket reach. -/
def group? (opening : Item × Option Nat) (rest : List (Item × Option Nat)) :
    Option (List Item × Nat) :=
  opening.2.map fun reach => ((rest.take (reach - 1)).map Prod.fst, reach)

/-- The outermost groups of the items by their interiors, and the items outside them. -/
def groups (items : List Item) : List (Item ⊕ List Item) :=
  (scan group? (items.zip (reaches items))).map (Sum.map Prod.fst id)

@[simp] theorem groups_nil : groups [] = [] := rfl

end Bracket

end FilterClause
