import FilterClause.Proofs.DateFields
import Mathlib.Data.List.TakeWhile

/-!
# Names between other characters

The lower case of a part of a text is that of the part alone but for its capital sigmas: one takes
its final form if a letter with case stands before it and none behind it, and both may stand outside
the part (`lowerWithin`). A sigma looks no farther than to the next sigma on either side, so only
the first and the last one of a part can change. A date field is found in every column that holds
it exactly if none of them does (`Options.isDateField_around`).
-/

namespace FilterClause

open Text Unicode

namespace Text

/-! ## What a sigma looks at -/

/-- Whether a text holds only characters that are passed over in the search for a letter with
case. -/
def Ignorable (t : Text) : Prop := ∀ c ∈ t, inRanges c.toNat caseIgnorableRanges = true

instance : DecidablePred Ignorable := fun t =>
  inferInstanceAs (Decidable (∀ c ∈ t, inRanges c.toNat caseIgnorableRanges = true))

theorem Ignorable.reverse {t : Text} (h : Ignorable t) : Ignorable t.reverse :=
  fun c hc => h c (List.mem_reverse.mp hc)

theorem ignorable_reverse_iff {t : Text} : Ignorable t.reverse ↔ Ignorable t :=
  ⟨fun h => t.reverse_reverse ▸ h.reverse, Ignorable.reverse⟩

theorem Ignorable.sigma_not_mem {t : Text} (h : Ignorable t) : 'Σ' ∉ t :=
  fun hmem => absurd (h 'Σ' hmem) (by decide +kernel)

theorem not_ignorable_of_sigma_mem {t : Text} (h : 'Σ' ∈ t) : ¬ Ignorable t :=
  fun hign => hign.sigma_not_mem h

theorem meetsCased_of_ignorable {t : Text} (h : Ignorable t) : meetsCased t = false := by
  have hdrop : t.dropWhile (fun c => inRanges c.toNat caseIgnorableRanges) = [] :=
    List.dropWhile_eq_nil_iff.mpr h
  rw [meetsCased, hdrop]

theorem meetsCased_append {s : Text} (h : Ignorable s) (t : Text) :
    meetsCased (s ++ t) = meetsCased t := by
  rw [meetsCased, List.dropWhile_append, List.dropWhile_eq_nil_iff.mpr h]
  rfl

/-- The first character that is not passed over decides. -/
theorem meetsCased_append_of_not {s : Text} (h : ¬ Ignorable s) (t : Text) :
    meetsCased (s ++ t) = meetsCased s := by
  have hdrop : s.dropWhile (fun c => inRanges c.toNat caseIgnorableRanges) ≠ [] :=
    fun hnil => h (List.dropWhile_eq_nil_iff.mp hnil)
  obtain ⟨c, rest, hcons⟩ := List.exists_cons_of_ne_nil hdrop
  rw [meetsCased, meetsCased, List.dropWhile_append, hcons]
  rfl

/-- Whether a capital sigma takes its final form, when `before`, read backwards, stands before
it. -/
def sigmaEnds (before behind : Text) : Bool := meetsCased before && !meetsCased behind

/-! ## Lower case of a part -/

/-- Lower case of a part of a text, with `before`, read backwards, before it and `behind` behind
it. -/
def lowerWithin (before behind : Text) : Text → Text
  | [] => []
  | c :: rest =>
    (if c = 'Σ' then [if sigmaEnds before (rest ++ behind) then 'ς' else 'σ']
     else lowerChar c) ++ lowerWithin (c :: before) behind rest

theorem lowerAfter_eq (before t : Text) : lowerAfter before t = lowerWithin before [] t := by
  induction t generalizing before with
  | nil => rfl
  | cons c rest ih => rw [lowerAfter, lowerWithin, ih, List.append_nil, sigmaEnds]

theorem lower_eq (t : Text) : lower t = lowerWithin [] [] t := lowerAfter_eq [] t

theorem lowerWithin_append (before behind s t : Text) :
    lowerWithin before behind (s ++ t) =
      lowerWithin before (t ++ behind) s ++ lowerWithin (s.reverse ++ before) behind t := by
  induction s generalizing before with
  | nil => rfl
  | cons c s ih =>
    rw [List.cons_append, lowerWithin, lowerWithin, ih, List.append_assoc, List.append_assoc,
      List.reverse_cons, List.append_assoc, List.singleton_append]

theorem lower_around (before t behind : Text) :
    lower (before ++ t ++ behind) = lowerWithin [] (t ++ behind) before ++
      lowerWithin before.reverse behind t ++ lowerWithin (before ++ t).reverse [] behind := by
  rw [lower_eq, lowerWithin_append, lowerWithin_append]
  simp only [List.append_nil]

/-- Surroundings matter to sigmas only. -/
theorem lowerWithin_congr {before behind before' behind' t : Text}
    (h : ∀ front back, t = front ++ 'Σ' :: back →
      sigmaEnds (front.reverse ++ before) (back ++ behind) =
        sigmaEnds (front.reverse ++ before') (back ++ behind')) :
    lowerWithin before behind t = lowerWithin before' behind' t := by
  induction t generalizing before before' with
  | nil => rfl
  | cons c rest ih =>
    have hrest : lowerWithin (c :: before) behind rest = lowerWithin (c :: before') behind' rest :=
      ih fun front back hfront => by
        simpa using h (c :: front) back (congrArg (c :: ·) hfront)
    rw [lowerWithin, lowerWithin, hrest]
    by_cases hc : c = 'Σ'
    · have hform : sigmaEnds before (rest ++ behind) = sigmaEnds before' (rest ++ behind') :=
        h [] rest (congrArg (· :: rest) hc)
      rw [hform]
    · rw [if_neg hc, if_neg hc]

theorem lowerWithin_of_not_mem {t : Text} (h : 'Σ' ∉ t) (before behind before' behind' : Text) :
    lowerWithin before behind t = lowerWithin before' behind' t :=
  lowerWithin_congr fun front back hfront => absurd (by simp [hfront]) h

/-- What stands on one side of a sigma does not matter to the text on its other side. -/
theorem lowerWithin_sigma (before behind front back : Text) :
    lowerWithin before behind (front ++ 'Σ' :: back) = lowerWithin before ['Σ'] front ++
      (if sigmaEnds (front.reverse ++ before) (back ++ behind) then 'ς' else 'σ') ::
        lowerWithin ['Σ'] behind back := by
  have hfront : lowerWithin before ('Σ' :: back ++ behind) front =
      lowerWithin before ['Σ'] front := by
    refine lowerWithin_congr fun u v _ => ?_
    have hnot : ¬ Ignorable (v ++ ['Σ']) := not_ignorable_of_sigma_mem (by simp)
    have hv : v ++ ('Σ' :: back ++ behind) = (v ++ ['Σ']) ++ (back ++ behind) := by simp
    rw [sigmaEnds, sigmaEnds, hv, meetsCased_append_of_not hnot]
  have hback : lowerWithin ('Σ' :: (front.reverse ++ before)) behind back =
      lowerWithin ['Σ'] behind back := by
    refine lowerWithin_congr fun u v _ => ?_
    have hnot : ¬ Ignorable (u.reverse ++ ['Σ']) := not_ignorable_of_sigma_mem (by simp)
    have hu : u.reverse ++ 'Σ' :: (front.reverse ++ before) =
        (u.reverse ++ ['Σ']) ++ (front.reverse ++ before) := by simp
    rw [sigmaEnds, sigmaEnds, hu, meetsCased_append_of_not hnot]
  rw [lowerWithin_append, hfront, lowerWithin, if_pos rfl, hback]
  rfl

/-! ## Sigmas that keep their form -/

/-- Whether every capital sigma of a text takes the same form between two other texts. -/
def KeepsForm (before t behind : Text) : Prop := ∀ front back, t = front ++ 'Σ' :: back →
  sigmaEnds (before ++ front).reverse (back ++ behind) = sigmaEnds front.reverse back

/-- Whether the form of every capital sigma of a text is decided in the text: a letter with case
follows one before which nothing stops the search, and none comes before one behind which nothing
does. -/
def Steady (t : Text) : Prop := ∀ front back, t = front ++ 'Σ' :: back →
  (Ignorable front → meetsCased back = true) ∧ (Ignorable back → meetsCased front.reverse = false)

/-- The places of a character in a text can be gone through. -/
theorem forall_cut_iff {P : Text → Text → Prop} {t : Text} {c : Char} :
    (∀ front back, t = front ++ c :: back → P front back) ↔
      ∀ i < t.length, t[i]? = some c → P (t.take i) (t.drop (i + 1)) := by
  constructor
  · intro h i hi hc
    obtain ⟨_, hget⟩ := List.getElem?_eq_some_iff.mp hc
    refine h _ _ ?_
    rw [← hget, List.cons_getElem_drop_succ, List.take_append_drop]
  · rintro h front back rfl
    simpa using h front.length (by simp)

instance (before t behind : Text) : Decidable (KeepsForm before t behind) :=
  decidable_of_iff' _ forall_cut_iff

instance : DecidablePred Steady := fun _ => decidable_of_iff' _ forall_cut_iff

theorem steady_of_sigma_not_mem {t : Text} (h : 'Σ' ∉ t) : Steady t :=
  fun front back ht => absurd (by simp [ht]) h

theorem Steady.keepsForm {t : Text} (h : Steady t) (before behind : Text) :
    KeepsForm before t behind := by
  intro front back ht
  obtain ⟨hfirst, hlast⟩ := h front back ht
  rw [List.reverse_append, sigmaEnds, sigmaEnds]
  by_cases hfront : Ignorable front
  · have hcased := hfirst hfront
    have hback : ¬ Ignorable back := fun hign => by
      rw [meetsCased_of_ignorable hign] at hcased
      cases hcased
    rw [meetsCased_append_of_not hback, hcased, Bool.not_true, Bool.and_false, Bool.and_false]
  · rw [meetsCased_append_of_not (mt ignorable_reverse_iff.mp hfront)]
    by_cases hback : Ignorable back
    · rw [hlast hback, Bool.false_and, Bool.false_and]
    · rw [meetsCased_append_of_not hback]

/-- The lower case of a text is a part of that of a longer one, if its sigmas keep their form. -/
theorem KeepsForm.lower_infix {before t behind : Text} (h : KeepsForm before t behind) :
    lower t <:+: lower (before ++ t ++ behind) := by
  have hwithin : lowerWithin before.reverse behind t = lower t := by
    rw [lower_eq]
    refine lowerWithin_congr fun front back ht => ?_
    have hform := h front back ht
    rw [List.reverse_append] at hform
    rw [hform, List.append_nil, List.append_nil]
  rw [lower_around, hwithin]
  exact ⟨_, _, rfl⟩

/-- A text in which one character is replaced is no part of one that holds the character no more
often. -/
theorem not_infix_of_replaced {x y : Char} (hxy : x ≠ y) {s t : Text} (hs : x ∉ s) (ht : x ∉ t)
    (front back : Text) : ¬ front ++ x :: back <:+: s ++ (front ++ y :: back) ++ t := by
  intro h
  have hcount := h.sublist.count_le x
  simp only [List.count_append, List.count_cons_self, List.count_cons_of_ne hxy.symm,
    List.count_eq_zero_of_not_mem hs, List.count_eq_zero_of_not_mem ht] at hcount
  omega

/-- One letter before or behind a text changes the form of a sigma that is not steady. -/
theorem exists_not_infix {t : Text} (h : ¬ Steady t) :
    ∃ before behind, ¬ lower t <:+: lower (before ++ t ++ behind) := by
  have hcased : meetsCased ['a'] = true := by decide +kernel
  have hsmall : ∀ before behind, lowerWithin before behind ['a'] = ['a'] := fun before behind => by
    have hchar : lowerChar 'a' = ['a'] := by decide +kernel
    rw [lowerWithin, if_neg (by decide), hchar]
    rfl
  simp only [Steady, not_forall] at h
  obtain ⟨front, back, rfl, hends⟩ := h
  rw [not_and_or, Classical.not_imp, Classical.not_imp, Bool.not_eq_true, Bool.not_eq_false]
    at hends
  rcases hends with ⟨hign, hfirst⟩ | ⟨hign, hlast⟩
  · refine ⟨['a'], [], ?_⟩
    have halone : sigmaEnds front.reverse back = false := by
      rw [sigmaEnds, meetsCased_of_ignorable hign.reverse, Bool.false_and]
    have hbetween : sigmaEnds (front.reverse ++ ['a']) back = true := by
      rw [sigmaEnds, meetsCased_append hign.reverse, hcased, hfirst]
      rfl
    have hfront : lowerWithin ['a'] ['Σ'] front = lowerWithin [] ['Σ'] front :=
      lowerWithin_of_not_mem hign.sigma_not_mem _ _ _ _
    rw [lower_around, lower_eq, hsmall, List.reverse_singleton, lowerWithin_sigma,
      lowerWithin_sigma, List.append_nil, List.append_nil, halone, hbetween, hfront]
    exact not_infix_of_replaced (by decide) (by decide) (by simp [lowerWithin]) _ _
  · refine ⟨[], ['a'], ?_⟩
    have halone : sigmaEnds front.reverse back = true := by
      rw [sigmaEnds, meetsCased_of_ignorable hign, hlast]
      rfl
    have hbetween : sigmaEnds front.reverse (back ++ ['a']) = false := by
      rw [sigmaEnds, meetsCased_append hign, hcased, Bool.not_true, Bool.and_false]
    have hback : lowerWithin ['Σ'] ['a'] back = lowerWithin ['Σ'] [] back :=
      lowerWithin_of_not_mem hign.sigma_not_mem _ _ _ _
    rw [lower_around, lower_eq, hsmall, List.reverse_nil, lowerWithin_sigma, lowerWithin_sigma,
      List.append_nil, List.append_nil, halone, hbetween, hback]
    exact not_infix_of_replaced (by decide) (by simp [lowerWithin]) (by decide) _ _

end Text

namespace Options

theorem isDateField_of_keepsForm {o : Options} {field before behind : Text}
    (hfield : field ∈ o.dateFields) (h : KeepsForm before field behind) :
    o.isDateField (before ++ field ++ behind) = true :=
  isDateField_iff.mpr ⟨field, hfield, h.lower_infix⟩

/-- A date field is found in every column that holds it, whatever other date fields there are,
exactly if all its capital sigmas are steady, so in particular if it has none. In the other columns
it is found at least where its sigmas keep the form that they have alone. -/
theorem isDateField_around (field : Text) :
    ((∀ o : Options, field ∈ o.dateFields → ∀ before behind,
        o.isDateField (before ++ field ++ behind) = true) ↔ Steady field) ∧
      ('Σ' ∉ field → Steady field) ∧
      ∀ o : Options, field ∈ o.dateFields → ∀ before behind, KeepsForm before field behind →
        o.isDateField (before ++ field ++ behind) = true := by
  refine ⟨⟨fun h => ?_, fun h o hfield before behind => ?_⟩, steady_of_sigma_not_mem,
    fun o hfield before behind => isDateField_of_keepsForm hfield⟩
  · by_contra hnot
    obtain ⟨before, behind, hout⟩ := exists_not_infix hnot
    obtain ⟨other, hother, hin⟩ :=
      isDateField_iff.mp (h ⟨[field]⟩ List.mem_cons_self before behind)
    exact hout (List.mem_singleton.mp hother ▸ hin)
  · exact isDateField_of_keepsForm hfield (h.keepsForm before behind)

/-- The sigma of the first name is steady, that of the second one is not. -/
theorem isDateField_around_sample :
    let o : Options := ⟨["createddate".toList, "ΠΡΟΣ_ID".toList, "ΑΣ".toList]⟩
    o.isDateField ("x.".toList ++ "ΠΡΟΣ_ID".toList ++ "Σ".toList) = true ∧
      o.isDateField ("Α'Σ".toList ++ "ΑΣ".toList ++ "_Α".toList) = true ∧
      ¬ Steady "ΑΣ".toList := by
  obtain ⟨halways, -, -⟩ := isDateField_around "ΠΡΟΣ_ID".toList
  obtain ⟨-, -, hkept⟩ := isDateField_around "ΑΣ".toList
  exact ⟨halways.mpr (by decide +kernel) _ (by decide) _ _,
    hkept _ (by decide) _ _ (by decide +kernel), by decide +kernel⟩

/-- A letter behind the name turns its final sigma into the other small one. -/
theorem isDateField_misses_final_sigma :
    let o : Options := ⟨["ΑΣ".toList]⟩
    "ΑΣ".toList ∈ o.dateFields ∧ o.error? = none ∧
      o.isDateField ([] ++ "ΑΣ".toList ++ "Α".toList) = false := by
  decide +kernel

end Options

end FilterClause
