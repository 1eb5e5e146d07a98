import FilterClause.OutputColumns
import FilterClause.Proofs.FirstSpellings
import FilterClause.Proofs.LowerCase
import FilterClause.Proofs.Texts

/-!
# Column lists

What is kept of a list of entries are the first spellings of its names, in order. They are names
that cleaning finds again, whether each stands by itself or all of them stand in one select list:
the list is split at the commas that joined it, and the blank behind a comma is trimmed
(`clean_selectList`).
-/

namespace FilterClause.OutputColumns

open Text

/-! ## Names -/

/-- A text that is left as it is when it is split at commas and trimmed, and is not dropped. -/
structure IsName (t : Text) : Prop where
  nonempty : t ≠ []
  comma_free : ',' ∉ t
  head_solid : ∀ c ∈ t.head?, isBlank c = false
  last_solid : ∀ c ∈ t.getLast?, isBlank c = false

/-- The trimmed pieces between the commas. -/
def pieces (entries : List Text) : List Text := (entries.flatMap (split ',')).map trim

theorem names_eq (entries : List Text) :
    names entries = (pieces entries).filter fun piece => !piece.isEmpty := rfl

theorem names_append (entries more : List Text) :
    names (entries ++ more) = names entries ++ names more := by
  simp only [names, List.flatMap_append, List.map_append, List.filter_append]

theorem mem_of_mem_trim {c : Char} {t : Text} (h : c ∈ trim t) : c ∈ t := by
  obtain ⟨l, r, ht, -, -⟩ := exists_eq_append_dropEnds isBlank t
  rw [ht, List.append_assoc]
  exact List.mem_append_right _ (List.mem_append_left _ h)

theorem IsName.of_mem_names {entries : List Text} {name : Text} (h : name ∈ names entries) :
    IsName name := by
  obtain ⟨hpiece, hne⟩ := List.mem_filter.mp h
  obtain ⟨t, ht, rfl⟩ := List.mem_map.mp hpiece
  obtain ⟨entry, -, hsplit⟩ := List.mem_flatMap.mp ht
  exact ⟨by simpa using hne, fun hc => not_mem_of_mem_split t hsplit (mem_of_mem_trim hc),
    head?_dropEnds t, getLast?_dropEnds t⟩

namespace IsName

theorem trim_eq {t : Text} (h : IsName t) : trim t = t := by
  rw [trim, dropEnds, dropWhile_of_head h.head_solid, dropEnd_of_last h.last_solid]

theorem trim_cons_space {t : Text} (h : IsName t) : trim (' ' :: t) = t := by
  rw [trim, ← List.singleton_append, dropEnds_append_of_all (by simp; rfl)]
  exact h.trim_eq

end IsName

/-- The pieces of an entry that are names make up the names of the entry. -/
theorem names_singleton {t : Text} {ts : List Text} (h : ∀ name ∈ ts, IsName name)
    (ht : (split ',' t).map trim = ts) : names [t] = ts := by
  rw [names, List.flatMap_singleton, ht, List.filter_eq_self]
  exact fun name hname => by simpa using (h name hname).nonempty

theorem names_of_isName {ts : List Text} (h : ∀ name ∈ ts, IsName name) : names ts = ts := by
  induction ts with
  | nil => rfl
  | cons t ts ih =>
    obtain ⟨ht, hts⟩ := List.forall_mem_cons.mp h
    have hone : names [t] = [t] := by
      refine names_singleton (List.forall_mem_singleton.mpr ht) ?_
      rw [split_of_not_mem ht.comma_free, List.map_singleton, ht.trim_eq]
    rw [← List.singleton_append, names_append, hone, ih hts]

/-! ## First spellings -/

/-- Whether two names have one lower case. -/
def alike (s t : Text) : Bool := lower s == lower t

theorem alike_eq_true_iff {s t : Text} : alike s t = true ↔ lower s = lower t := beq_iff_eq

theorem distinctFrom_cons_of_mem {seen : List Text} {t : Text} (h : lower t ∈ seen)
    (ts : List Text) : distinctFrom seen (t :: ts) = distinctFrom seen ts :=
  if_pos (List.contains_iff_mem.mpr h)

theorem distinctFrom_cons_of_not_mem {seen : List Text} {t : Text} (h : lower t ∉ seen)
    (ts : List Text) :
    distinctFrom seen (t :: ts) = t :: distinctFrom (lower t :: seen) ts :=
  if_neg fun hc => h (List.contains_iff_mem.mp hc)

theorem firstSpellings_distinctFrom (seen ts : List Text) :
    FirstSpellings alike (lower · ∈ seen) ts (distinctFrom seen ts) := by
  induction ts generalizing seen with
  | nil => exact .nil
  | cons t ts ih =>
    by_cases h : lower t ∈ seen
    · rw [distinctFrom_cons_of_mem h]
      exact (ih seen).skip h fun s hs => alike_eq_true_iff.mp hs ▸ h
    · rw [distinctFrom_cons_of_not_mem h]
      refine (ih (lower t :: seen)).keep (fun s => ?_) h (alike_eq_true_iff.mpr rfl)
      rw [List.mem_cons, or_comm, alike_eq_true_iff, eq_comm]

/-- Names go on with the spellings that the names before them took, and no others. -/
theorem distinctFrom_append (seen ts us : List Text) :
    distinctFrom seen (ts ++ us) = distinctFrom seen ts ++
      distinctFrom (((distinctFrom seen ts).map lower).reverse ++ seen) us := by
  induction ts generalizing seen with
  | nil => rfl
  | cons t ts ih =>
    by_cases h : lower t ∈ seen
    · rw [List.cons_append, distinctFrom_cons_of_mem h, distinctFrom_cons_of_mem h, ih]
    · rw [List.cons_append, distinctFrom_cons_of_not_mem h, distinctFrom_cons_of_not_mem h, ih,
        List.map_cons, List.reverse_cons, List.append_assoc, List.singleton_append,
        List.cons_append]

/-- Names of different spellings that are not taken are all kept. -/
theorem distinctFrom_eq_self {seen ts : List Text} (hnew : ∀ t ∈ ts, lower t ∉ seen)
    (hdistinct : ts.Pairwise fun earlier later => lower earlier ≠ lower later) :
    distinctFrom seen ts = ts := by
  induction hdistinct generalizing seen with
  | nil => rfl
  | @cons t ts ht _ ih =>
    obtain ⟨hhead, htail⟩ := List.forall_mem_cons.mp hnew
    rw [distinctFrom_cons_of_not_mem hhead, ih fun s hs =>
      List.not_mem_cons_of_ne_of_not_mem (ht s hs).symm (htail s hs)]

/-! ## Clean columns -/

theorem firstSpellings_clean (entries : List Text) :
    FirstSpellings alike (lower · ∈ []) (names entries) (clean entries) :=
  firstSpellings_distinctFrom [] (names entries)

theorem pairwise_clean (entries : List Text) :
    (clean entries).Pairwise fun earlier later => lower earlier ≠ lower later :=
  (firstSpellings_clean entries).distinct.imp fun h he => Bool.eq_false_iff.mp h (beq_iff_eq.mpr he)

theorem isName_of_mem_clean {entries : List Text} {name : Text} (h : name ∈ clean entries) :
    IsName name :=
  .of_mem_names ((firstSpellings_clean entries).sublist.subset h)

theorem distinctFrom_clean (entries : List Text) :
    distinctFrom [] (clean entries) = clean entries :=
  distinctFrom_eq_self (fun _ _ => List.not_mem_nil) (pairwise_clean entries)

/-- Clean names that are the names of other entries are all that is kept of these. -/
theorem clean_of_names {entries others : List Text} (h : names others = clean entries) :
    clean others = clean entries := by
  rw [clean, h, distinctFrom_clean]

/-- The names of one spelling start with the same piece as the pieces of it. -/
theorem find?_names {entries : List Text} {piece : Text} (h : piece ≠ []) :
    (names entries).find? (alike · piece) = (pieces entries).find? (alike · piece) := by
  have hnil : alike [] piece = false := beq_eq_false_iff_ne.mpr (lower_ne_nil h).symm
  rw [names_eq, List.find?_filter]
  congr 1
  funext t
  -- An empty piece is no name, but its spelling is not the one that is looked for either.
  cases t with
  | nil => simpa using hnil
  | cons c t => exact Bool.eq_iff_iff.mpr (by simp)

/-- The clean columns are names among the pieces between the commas, in order, the first one of each
spelling that a nonempty piece has and no other. Entries may be cleaned before more are added. -/
theorem clean_firstSpellings (entries : List Text) :
    (clean entries).Sublist (pieces entries) ∧ (∀ name ∈ clean entries, IsName name) ∧
      (clean entries).Pairwise (fun earlier later => lower earlier ≠ lower later) ∧
      (∀ piece ∈ pieces entries, piece ≠ [] → ∃ first ∈ clean entries,
        (pieces entries).find? (alike · piece) = some first) ∧
      ∀ more, clean (entries ++ more) = clean (clean entries ++ more) := by
  have hclean := firstSpellings_clean entries
  refine ⟨hclean.sublist.trans List.filter_sublist, fun _ => isName_of_mem_clean,
    pairwise_clean entries, fun piece hpiece hne => ?_, fun more => ?_⟩
  · have hname : piece ∈ names entries := List.mem_filter.mpr ⟨hpiece, by simpa using hne⟩
    rw [← find?_names hne]
    exact hclean.complete piece hname List.not_mem_nil
  · rw [clean, clean, names_append, names_append, names_of_isName fun _ => isName_of_mem_clean,
      distinctFrom_append, distinctFrom_append, distinctFrom_clean, clean]

/-- A dotted capital I is spelled like a small i with a dot above it, and the Kelvin sign like a
small k. -/
theorem clean_firstSpellings_case :
    let entries := ["Plan no,, İd ".toList, "PLAN NO, i\u0307d,\u212A".toList]
    let more := ["k".toList, " plan".toList]
    clean entries = ["Plan no".toList, "İd".toList, "\u212A".toList] ∧
      "i\u0307d".toList ∈ pieces entries ∧
      (∃ first ∈ clean entries,
        (pieces entries).find? (alike · "i\u0307d".toList) = some first) ∧
      clean (entries ++ more) = clean (clean entries ++ more) := by
  intro entries more
  obtain ⟨-, -, -, hfirst, hmore⟩ := clean_firstSpellings entries
  have hmem : "i\u0307d".toList ∈ pieces entries := by decide +kernel
  exact ⟨by decide +kernel, hmem, hfirst _ hmem (by decide), hmore more⟩

/-! ## Select lists -/

/-- Texts joined by a comma and a space are joined by the comma, with the space before all but the
first of them. -/
theorem join_comma_space (t : Text) (ts : List Text) :
    join [',', ' '] (t :: ts) = join [','] (t :: ts.map (' ' :: ·)) := by
  induction ts generalizing t with
  | nil => rfl
  | cons u us ih =>
    rw [List.map_cons, join_cons_cons, join_cons_cons, ih u]
    cases us with
    | nil => rfl
    | cons v vs =>
      rw [List.map_cons, join_cons_cons, join_cons_cons]
      rfl

/-- Names are found again between the commas of the select list they make up. -/
theorem map_trim_split_join {ts : List Text} (hne : ts ≠ []) (h : ∀ name ∈ ts, IsName name) :
    (split ',' (join [',', ' '] ts)).map trim = ts := by
  obtain ⟨t, ts, rfl⟩ := List.exists_cons_of_ne_nil hne
  obtain ⟨ht, hts⟩ := List.forall_mem_cons.mp h
  have hcomma : ∀ s ∈ t :: ts.map (' ' :: ·), ',' ∉ s := by
    refine List.forall_mem_cons.mpr ⟨ht.comma_free, List.forall_mem_map.mpr fun s hs => ?_⟩
    exact List.not_mem_cons_of_ne_of_not_mem (by decide) (hts s hs).comma_free
  have htrim : (ts.map (' ' :: ·)).map trim = ts := by
    rw [List.map_map]
    exact (List.map_congr_left fun s hs => (hts s hs).trim_cons_space).trans (List.map_id ts)
  rw [join_comma_space, split_join (List.cons_ne_nil _ _) hcomma, List.map_cons, ht.trim_eq, htrim]

theorem selectList_eq_none_iff {entries : List Text} :
    selectList entries = none ↔ clean entries = [] := by
  simp [selectList]

theorem selectList_eq_some_iff {entries : List Text} {t : Text} :
    selectList entries = some t ↔ clean entries ≠ [] ∧ join [',', ' '] (clean entries) = t := by
  simp [selectList]

/-- There is a select list exactly if there are clean columns. Split at its commas it gives them
back, and so does cleaning, so that it is its own select list. -/
theorem clean_selectList (entries : List Text) :
    (selectList entries = none ↔ clean entries = []) ∧
      ∀ t, selectList entries = some t → (split ',' t).map trim = clean entries ∧
        clean [t] = clean entries ∧ selectList [t] = some t := by
  refine ⟨selectList_eq_none_iff, fun t ht => ?_⟩
  obtain ⟨hne, rfl⟩ := selectList_eq_some_iff.mp ht
  have hname : ∀ name ∈ clean entries, IsName name := fun _ => isName_of_mem_clean
  have hsplit := map_trim_split_join hne hname
  have hclean := clean_of_names (names_singleton hname hsplit)
  refine ⟨hsplit, hclean, ?_⟩
  rw [selectList_eq_some_iff, hclean]
  exact ⟨hne, rfl⟩

/-- The blank inside a name is not trimmed when the select list is split again. -/
theorem clean_selectList_case :
    let entries := ["Plan no,, İd ".toList, "PLAN NO, i\u0307d,\u212A".toList]
    let t := "Plan no, İd, \u212A".toList
    selectList entries = some t ∧ (split ',' t).map trim = clean entries ∧
      clean [t] = clean entries ∧ selectList [t] = some t := by
  intro entries t
  have hsome : selectList entries = some t := by decide +kernel
  exact ⟨hsome, (clean_selectList entries).2 t hsome⟩

end FilterClause.OutputColumns
