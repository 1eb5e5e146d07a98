import FilterClause.Scan

/-!
# Scans of joined and of changed lists

A scan of `l ++ s` is the scan of `l` followed by that of `s` as soon as no find in `l` looks
beyond it. What holds at every place where a scan looks is proved by `scan_induction`. Before that,
what two lists tell about a cut through both of them.
-/

namespace FilterClause

/-! ## Cut lists -/

section Cut

variable {α : Type} {xs ys before behind : List α} {a : α}

/-- Where two parts together are cut at an element, it stands in one of them. -/
theorem cut_of_append (h : xs ++ ys = before ++ a :: behind) :
    (∃ front, before = xs ++ front ∧ ys = front ++ a :: behind) ∨
      ∃ back, xs = before ++ a :: back ∧ behind = back ++ ys := by
  rcases List.append_eq_append_iff.mp h with ⟨as, hbefore, hys⟩ | ⟨as, hxs, has⟩
  · exact .inl ⟨as, hbefore, hys⟩
  · cases as with
    | nil => exact .inl ⟨[], by simpa using hxs.symm, by simpa using has.symm⟩
    | cons b as =>
      obtain ⟨rfl, rfl⟩ := List.cons.inj has
      exact .inr ⟨as, hxs, rfl⟩

/-- An element that is not in the first part stands in the second one. -/
theorem exists_of_append_left (ha : a ∉ xs) (h : xs ++ ys = before ++ a :: behind) :
    ∃ front, before = xs ++ front ∧ ys = front ++ a :: behind :=
  (cut_of_append h).resolve_right fun ⟨_, hxs, _⟩ => ha (by simp [hxs])

/-- An element that is not in the second part stands in the first one. -/
theorem exists_of_append_right (ha : a ∉ ys) (h : xs ++ ys = before ++ a :: behind) :
    ∃ back, xs = before ++ a :: back ∧ behind = back ++ ys :=
  (cut_of_append h).resolve_left fun ⟨_, _, hys⟩ => ha (by simp [hys])

end Cut

/-! ## Scans -/

variable {α β γ δ : Type} {find : α → List α → Option (β × Nat)}

/-- Induction along the places at which a scan looks for a find. -/
theorem scan_induction (find : α → List α → Option (β × Nat)) {motive : List α → Prop}
    (nil : motive [])
    (pass : ∀ a rest, find a rest = none → motive rest → motive (a :: rest))
    (take : ∀ a rest found n, find a rest = some (found, n) → motive (rest.drop n) →
      motive (a :: rest)) (l : List α) : motive l := by
  obtain ⟨n, hn⟩ : ∃ n, l.length ≤ n := ⟨_, Nat.le_refl _⟩
  induction n generalizing l with
  | zero =>
    rw [List.length_eq_zero_iff.mp (Nat.le_zero.mp hn)]
    exact nil
  | succ n ih =>
    cases l with
    | nil => exact nil
    | cons a rest =>
      have hrest : rest.length ≤ n := by simpa using hn
      cases h : find a rest with
      | none => exact pass a rest h (ih rest hrest)
      | some f =>
        have hdrop : (rest.drop f.2).length ≤ n := by rw [List.length_drop]; omega
        exact take a rest f.1 f.2 h (ih _ hdrop)

/-- Finds that do not see what follows a list leave the scan of what follows alone. -/
theorem scan_append {l s : List α}
    (h : ∀ a rest, a :: rest <:+ l → find a (rest ++ s) = find a rest ∧
      ∀ found n, find a rest = some (found, n) → n ≤ rest.length) :
    scan find (l ++ s) = scan find l ++ scan find s := by
  induction l using scan_induction find with
  | nil => rfl
  | pass a rest ha ih =>
    have hs := (h a rest (List.suffix_refl _)).1
    rw [List.cons_append, scan_cons_of_none (hs.trans ha), scan_cons_of_none ha,
      ih fun b t ht => h b t (ht.trans (List.suffix_cons _ _)), List.cons_append]
  | take a rest found n ha ih =>
    obtain ⟨hs, hn⟩ := h a rest (List.suffix_refl _)
    have hle := hn found n ha
    have hsuff : rest.drop n <:+ a :: rest := (List.drop_suffix n rest).trans (List.suffix_cons _ _)
    rw [List.cons_append, scan_cons_of_some (hs.trans ha), scan_cons_of_some ha,
      List.drop_append_of_le_length hle, ih fun b t ht => h b t (ht.trans hsuff), List.cons_append]

/-- Where nothing is found, everything is passed over. -/
theorem scan_eq_map_inl {l : List α} (h : ∀ a rest, a :: rest <:+ l → find a rest = none) :
    scan find l = l.map .inl := by
  induction l with
  | nil => rfl
  | cons a rest ih =>
    rw [scan_cons_of_none (h a rest (List.suffix_refl _)),
      ih fun b t ht => h b t (ht.trans (List.suffix_cons _ _)), List.map_cons]

/-- A scan of changed elements finds the changed finds. -/
theorem scan_map {find' : γ → List γ → Option (δ × Nat)} (g : α → γ) (k : β → δ)
    (h : ∀ a rest, find' (g a) (rest.map g) = (find a rest).map (Prod.map k id)) (l : List α) :
    scan find' (l.map g) = (scan find l).map (Sum.map g k) := by
  induction l using scan_induction find with
  | nil => rfl
  | pass a rest ha ih =>
    have h' : find' (g a) (rest.map g) = none := by rw [h, ha]; rfl
    rw [List.map_cons, scan_cons_of_none h', scan_cons_of_none ha, ih]
    rfl
  | take a rest found n ha ih =>
    have h' : find' (g a) (rest.map g) = some (k found, n) := by rw [h, ha]; rfl
    rw [List.map_cons, scan_cons_of_some h', scan_cons_of_some ha, ← List.map_drop, ih]
    rfl

end FilterClause
