import FilterClause.Options
import FilterClause.Proofs.FirstSpellings
import FilterClause.Proofs.LowerCase
import Mathlib.Data.List.Infix

/-!
# Adding date fields

A column holds dates if the lower case of a date field is a part of its own. A name is added behind
the others unless one of them differs from it in ASCII case at most. Such names have one lower case,
so a name that is left out makes the same columns hold dates as one that is added
(`addDateFields_lossless`).
-/

namespace FilterClause

open Text

/-- A text occurs in another one exactly if it is a part of it. -/
theorem Text.occurs_iff {part t : Text} : occurs part t = true ↔ part <:+: t := by
  induction t with
  | nil => rw [occurs, List.isEmpty_iff, List.infix_nil]
  | cons c t ih => rw [occurs, Bool.or_eq_true, List.isPrefixOf_iff_prefix, ih, List.infix_cons_iff]

namespace Options

variable {o : Options} {name column : Text}

theorem isDateField_iff :
    o.isDateField column = true ↔ ∃ field ∈ o.dateFields, lower field <:+: lower column := by
  simp only [isDateField, List.any_eq_true, occurs_iff]

/-! ## One name -/

/-- Whether a name differs from a date field in ASCII case at most. -/
def Knows (o : Options) (name : Text) : Prop :=
  ∃ field ∈ o.dateFields, sameIgnoringCase field name = true

theorem Knows.of_same {other : Text} (h : o.Knows name)
    (hsame : sameIgnoringCase name other = true) : o.Knows other := by
  obtain ⟨field, hfield, hname⟩ := h
  rw [sameIgnoringCase_iff] at hname hsame
  exact ⟨field, hfield, sameIgnoringCase_iff.mpr (hname.trans hsame)⟩

theorem knows_append_iff {other : Text} :
    Knows ⟨o.dateFields ++ [name]⟩ other ↔
      o.Knows other ∨ sameIgnoringCase name other = true := by
  simp [Knows, or_and_right, exists_or]

theorem addDateField_of_knows (h : o.Knows name) : o.addDateField name = o :=
  if_pos (List.any_eq_true.mpr h)

theorem addDateField_of_not_knows (h : ¬ o.Knows name) :
    o.addDateField name = ⟨o.dateFields ++ [name]⟩ :=
  if_neg fun hany => h (List.any_eq_true.mp hany)

/-- A name that is added makes columns hold dates, whether it is left out or not. -/
theorem isDateField_addDateField : (o.addDateField name).isDateField column = true ↔
    o.isDateField column = true ∨ lower name <:+: lower column := by
  by_cases h : o.Knows name
  · rw [addDateField_of_knows h, iff_self_or, isDateField_iff]
    obtain ⟨field, hfield, hsame⟩ := h
    exact fun hname => ⟨field, hfield, lower_of_sameIgnoringCase hsame ▸ hname⟩
  · rw [addDateField_of_not_knows h, isDateField_iff, isDateField_iff]
    simp only [List.mem_append, List.mem_singleton, or_and_right, exists_or, exists_eq_left]

/-! ## Names one after the other -/

theorem addDateFields_cons (o : Options) (name : Text) (names : List Text) :
    o.addDateFields (name :: names) = (o.addDateField name).addDateFields names := rfl

theorem isDateField_addDateFields {names : List Text} :
    (o.addDateFields names).isDateField column = true ↔
      o.isDateField column = true ∨ ∃ name ∈ names, lower name <:+: lower column := by
  induction names generalizing o with
  | nil => simp
  | cons name names ih =>
    rw [addDateFields_cons, ih, isDateField_addDateField, List.exists_mem_cons_iff, or_assoc]

/-- Names that are known already change nothing. -/
theorem addDateFields_of_knows {names : List Text} (h : ∀ name ∈ names, o.Knows name) :
    o.addDateFields names = o := by
  induction names with
  | nil => rfl
  | cons name names ih =>
    obtain ⟨hname, hnames⟩ := List.forall_mem_cons.mp h
    rw [addDateFields_cons, addDateField_of_knows hname, ih hnames]

/-- What is added to the date fields are the first spellings of names that are not known. -/
theorem exists_added (o : Options) (names : List Text) :
    ∃ added, (o.addDateFields names).dateFields = o.dateFields ++ added ∧
      FirstSpellings sameIgnoringCase o.Knows names added := by
  induction names generalizing o with
  | nil => exact ⟨[], (List.append_nil _).symm, .nil⟩
  | cons name names ih =>
    rw [addDateFields_cons]
    by_cases h : o.Knows name
    · obtain ⟨added, hfields, hadded⟩ := ih o
      rw [addDateField_of_knows h]
      exact ⟨added, hfields, hadded.skip h fun _ => h.of_same⟩
    · obtain ⟨added, hfields, hadded⟩ := ih ⟨o.dateFields ++ [name]⟩
      rw [addDateField_of_not_knows h]
      exact ⟨name :: added, by rw [hfields, List.append_assoc, List.singleton_append],
        hadded.keep (fun _ => knows_append_iff) h (sameIgnoringCase_refl name)⟩

/-- Adding date fields keeps those that are there and appends the first spellings of the others,
told apart up to ASCII case. Every name counts for the columns, appended or not, so names that are
added again change nothing. -/
theorem addDateFields_lossless (o : Options) (names : List Text) :
    (∃ added, (o.addDateFields names).dateFields = o.dateFields ++ added ∧
      FirstSpellings sameIgnoringCase o.Knows names added) ∧
    (∀ column, (o.addDateFields names).isDateField column = true ↔
      o.isDateField column = true ∨ ∃ name ∈ names, lower name <:+: lower column) ∧
    (o.addDateFields names).addDateFields names = o.addDateFields names ∧
    ∀ more, o.addDateFields (names ++ more) = (o.addDateFields names).addDateFields more := by
  obtain ⟨added, hfields, hadded⟩ := exists_added o names
  refine ⟨⟨added, hfields, hadded⟩, fun column => isDateField_addDateFields,
    addDateFields_of_knows fun name hname => ?_, o.addDateFields_append names⟩
  rw [Knows, hfields]
  rcases hadded.taken_or_exists hname with ⟨field, hfield, hsame⟩ | ⟨first, hfirst, hsame⟩
  · exact ⟨field, List.mem_append_left _ hfield, hsame⟩
  · exact ⟨first, List.mem_append_right _ hfirst, hsame⟩

/-- The third name is left out, and the column that holds it is known by the first one. Its sigma
becomes a final one, so a column that ends in the other small sigma is not known. -/
theorem addDateFields_lossless_sigma :
    let names := ["PROΣ".toList, "CREATEDDATE".toList, "proΣ".toList]
    let o := Options.standard.addDateFields names
    o.dateFields = Options.standard.dateFields ++ ["PROΣ".toList] ∧
      o.isDateField "x.proσ".toList = false ∧ o.isDateField "x.ProΣ".toList = true ∧
      o.addDateFields names = o := by
  obtain ⟨-, hcolumns, hagain, -⟩ := addDateFields_lossless Options.standard
    ["PROΣ".toList, "CREATEDDATE".toList, "proΣ".toList]
  exact ⟨by decide, by decide +kernel,
    (hcolumns _).mpr (.inr ⟨"proΣ".toList, by simp, by decide +kernel⟩), hagain⟩

end Options

end FilterClause
