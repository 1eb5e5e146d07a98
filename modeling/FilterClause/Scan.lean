/-!
# Scanning from left to right

A list is read from its start. At each place a recogniser may find something that begins there and
say how many of the following elements belong to it; those are skipped. Where nothing is found the
element is passed over and reading goes on with the next one.
-/

namespace FilterClause

variable {α β : Type}

/-- Scanning that starts by skipping `skip` elements. `find` sees an element and what follows it,
and gives a find with the number of following elements that belong to it. -/
def scanFrom (find : α → List α → Option (β × Nat)) : Nat → List α → List (α ⊕ β)
  | _, [] => []
  | skip + 1, _ :: rest => scanFrom find skip rest
  | 0, a :: rest =>
    match find a rest with
    | some (found, length) => .inr found :: scanFrom find length rest
    | none => .inl a :: scanFrom find 0 rest

/-- The finds of a recogniser and the elements passed over between them, in order. -/
def scan (find : α → List α → Option (β × Nat)) (l : List α) : List (α ⊕ β) := scanFrom find 0 l

variable {find : α → List α → Option (β × Nat)}

theorem scanFrom_eq_scan_drop (n : Nat) (l : List α) :
    scanFrom find n l = scan find (l.drop n) := by
  induction l generalizing n with
  | nil => cases n <;> rfl
  | cons a rest ih =>
    cases n with
    | zero => rfl
    | succ n => simpa [scanFrom] using ih n

@[simp] theorem scan_nil : scan find ([] : List α) = [] := rfl

theorem scan_cons_of_none {a : α} {rest : List α} (h : find a rest = none) :
    scan find (a :: rest) = .inl a :: scan find rest := by
  simp [scan, scanFrom, h]

theorem scan_cons_of_some {a : α} {rest : List α} {found : β} {n : Nat}
    (h : find a rest = some (found, n)) :
    scan find (a :: rest) = .inr found :: scan find (rest.drop n) := by
  simpa [scan, scanFrom, h] using scanFrom_eq_scan_drop n rest

end FilterClause
