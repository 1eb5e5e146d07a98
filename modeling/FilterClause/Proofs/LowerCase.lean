import FilterClause.Text.Lowercase
import FilterClause.Proofs.Letters
import Mathlib.Data.List.Basic

/-!
# Texts in lower case

The lower case of a text is made character by character, but for the capital sigma, which looks at
the characters on both its sides. On ASCII it is the letter case that is known outright, and the
characters beyond ASCII have few small letters in it. As a capital of ASCII and its small letter
look alike to a sigma, texts that differ in the case of ASCII letters have one lower case
(`lower_of_sameIgnoringCase`).
-/

namespace FilterClause.Text

open Unicode

/-! ## ASCII -/

theorem lowerChar_of_ascii {c : Char} (h : c.toNat < 128) : c ≠ 'Σ' ∧ lowerChar c = [c.toLower] :=
  forall_ascii (P := fun c => c ≠ 'Σ' ∧ lowerChar c = [c.toLower]) (by decide +kernel) h

theorem lowerAfter_of_ascii {t : Text} (h : ∀ c ∈ t, c.toNat < 128) (before : Text) :
    lowerAfter before t = t.map Char.toLower := by
  induction t generalizing before with
  | nil => rfl
  | cons c t ih =>
    obtain ⟨hne, hlower⟩ := lowerChar_of_ascii (h c List.mem_cons_self)
    rw [lowerAfter, if_neg hne, hlower, ih fun d hd => h d (List.mem_cons_of_mem _ hd)]
    rfl

theorem lower_of_ascii {t : Text} (h : ∀ c ∈ t, c.toNat < 128) :
    lower t = t.map Char.toLower := lowerAfter_of_ascii h []

/-! ## Beyond ASCII -/

theorem exists_of_lowerByRuns {n m : Nat} {runs : List CaseRun}
    (h : lowerByRuns n runs = some m) :
    ∃ run ∈ runs, run.first ≤ n ∧ n ≤ run.last ∧ m = (n + run.distance).toNat := by
  induction runs with
  | nil => cases h
  | cons run runs ih =>
    unfold lowerByRuns at h
    split at h
    · cases h
    split at h
    · next hfirst hlast =>
      split at h
      · exact ⟨run, List.mem_cons_self, Nat.le_of_not_lt hfirst, hlast,
          (Option.some.inj h).symm⟩
      · cases h
    · obtain ⟨run', hmem, hrun⟩ := ih h
      exact ⟨run', List.mem_cons_of_mem _ hmem, hrun⟩

/-- Of the letters beyond ASCII only the Kelvin sign has a simple small letter in ASCII. -/
theorem lowercaseRuns_beyond : ∀ run ∈ lowercaseRuns, run.last < 128 ∨
    128 ≤ run.first + run.distance ∨ run.first = run.last ∧ run.first + run.distance = 107 := by
  decide +kernel

/-- The only letters of ASCII in a small form of a character beyond it are `i` and `k`. -/
theorem lowerChar_beyond {c : Char} (h : 128 ≤ c.toNat) :
    ∀ d ∈ lowerChar c, 128 ≤ d.toNat ∨ d ∈ ['i', 'k', '\x00'] := by
  intro d hd
  unfold lowerChar at hd
  split at hd
  · rcases List.mem_pair.mp hd with rfl | rfl
    · exact .inr (by decide)
    · exact .inl (by decide)
  split at hd
  · next n hn =>
    obtain ⟨run, hrun, hfirst, hlast, rfl⟩ := exists_of_lowerByRuns hn
    rw [List.mem_singleton.mp hd]
    rcases lowercaseRuns_beyond run hrun with hascii | himage | ⟨hone, hkelvin⟩
    · omega
    · by_cases hvalid : (c.toNat + run.distance).toNat.isValidChar
      · left
        rw [Char.ofNat, dif_pos hvalid]
        show 128 ≤ (c.toNat + run.distance).toNat
        omega
      · right
        have hnul : Char.ofNat (c.toNat + run.distance).toNat = '\x00' := dif_neg hvalid
        rw [hnul]
        decide
    · right
      have hcode : (c.toNat + run.distance).toNat = 107 := by omega
      rw [hcode]
      decide
  · rw [List.mem_singleton.mp hd]
    exact .inl h

theorem lowerChar_ne_nil (c : Char) : lowerChar c ≠ [] := by
  unfold lowerChar
  split
  · exact List.cons_ne_nil _ _
  · split <;> exact List.cons_ne_nil _ _

theorem lower_ne_nil {t : Text} (h : t ≠ []) : lower t ≠ [] := by
  obtain ⟨c, t, rfl⟩ := List.exists_cons_of_ne_nil h
  rw [lower, lowerAfter]
  split
  · exact List.cons_ne_nil _ _
  · exact List.append_ne_nil_of_left_ne_nil (lowerChar_ne_nil c) _

/-- A text whose lower case is made of other letters of ASCII spells them. -/
theorem map_foldLetter_of_lower {t k : Text}
    (hk : ∀ d ∈ k, d.toNat < 128 ∧ d ∉ ['i', 'k', '\x00']) (h : lower t = k) :
    t.map foldLetter = k := by
  have key : ∀ (t before k : Text), (∀ d ∈ k, d.toNat < 128 ∧ d ∉ ['i', 'k', '\x00']) →
      lowerAfter before t = k → t.map foldLetter = k := by
    intro t
    induction t with
    | nil => exact fun _ _ _ h => h
    | cons c t ih =>
      rintro before k hk rfl
      by_cases hc : c.toNat < 128
      · obtain ⟨hne, hlower⟩ := lowerChar_of_ascii hc
        rw [lowerAfter, if_neg hne, hlower] at hk ⊢
        rw [List.map_cons, foldLetter_of_lt hc,
          ih _ _ (fun d hd => hk d (List.mem_cons_of_mem _ hd)) rfl]
        rfl
      · exfalso
        have hout : ∃ d ∈ lowerAfter before (c :: t),
            128 ≤ d.toNat ∨ d ∈ ['i', 'k', '\x00'] := by
          rw [lowerAfter]
          split
          · split
            · exact ⟨'ς', List.mem_cons_self, .inl (by decide)⟩
            · exact ⟨'σ', List.mem_cons_self, .inl (by decide)⟩
          · obtain ⟨d, hd⟩ := List.exists_mem_of_ne_nil _ (lowerChar_ne_nil c)
            exact ⟨d, List.mem_append_left _ hd, lowerChar_beyond (Nat.le_of_not_lt hc) d hd⟩
        obtain ⟨d, hd, hbeyond⟩ := hout
        obtain ⟨hlt, hnot⟩ := hk d hd
        rcases hbeyond with hbeyond | hmem
        · omega
        · exact hnot hmem
  exact key t [] k hk h

/-! ## Letter case of ASCII -/

theorem toLower_of_le {c : Char} (h : 128 ≤ c.toNat) : c.toLower = c := by
  unfold Char.toLower
  split
  · next hz =>
    have hle : c.toNat ≤ 'Z'.toNat := hz.2
    have : 'Z'.toNat = 90 := rfl
    omega
  · rfl

/-- A letter of ASCII and its small letter have one lower case, and next to a sigma they count
alike. -/
theorem toLower_alike (c : Char) :
    lowerChar c.toLower = lowerChar c ∧ (c.toLower = 'Σ' ↔ c = 'Σ') ∧
      inRanges c.toLower.toNat caseIgnorableRanges = inRanges c.toNat caseIgnorableRanges ∧
      inRanges c.toLower.toNat casedRanges = inRanges c.toNat casedRanges := by
  by_cases hc : c.toNat < 128
  · exact forall_ascii (P := fun c => lowerChar c.toLower = lowerChar c ∧
      (c.toLower = 'Σ' ↔ c = 'Σ') ∧
      inRanges c.toLower.toNat caseIgnorableRanges = inRanges c.toNat caseIgnorableRanges ∧
      inRanges c.toLower.toNat casedRanges = inRanges c.toNat casedRanges) (by decide +kernel) hc
  · rw [toLower_of_le (Nat.le_of_not_lt hc)]
    exact ⟨rfl, Iff.rfl, rfl, rfl⟩

theorem meetsCased_map_toLower (t : Text) : meetsCased (t.map Char.toLower) = meetsCased t := by
  have hignored : (fun c => inRanges c.toNat caseIgnorableRanges) ∘ Char.toLower =
      fun c => inRanges c.toNat caseIgnorableRanges := funext fun c => (toLower_alike c).2.2.1
  unfold meetsCased
  rw [List.dropWhile_map, hignored]
  cases t.dropWhile fun c => inRanges c.toNat caseIgnorableRanges with
  | nil => rfl
  | cons c rest => exact (toLower_alike c).2.2.2

theorem lowerAfter_map_toLower (before t : Text) :
    lowerAfter (before.map Char.toLower) (t.map Char.toLower) = lowerAfter before t := by
  induction t generalizing before with
  | nil => rfl
  | cons c rest ih =>
    obtain ⟨hchar, hsigma, -, -⟩ := toLower_alike c
    have hrest := ih (c :: before)
    rw [List.map_cons] at hrest
    rw [List.map_cons, lowerAfter, lowerAfter, hrest, meetsCased_map_toLower,
      meetsCased_map_toLower, hchar]
    simp only [hsigma]

/-- The case of ASCII letters does not show in lower case. -/
theorem lower_of_sameIgnoringCase {s t : Text} (h : sameIgnoringCase s t = true) :
    lower s = lower t := by
  have hsmall : ∀ u : Text, lower (u.map Char.toLower) = lower u := lowerAfter_map_toLower []
  rw [← hsmall s, sameIgnoringCase_iff.mp h, hsmall t]

/-- A final sigma stays final whatever the case of the ASCII letters before it. -/
example : lower "PRO_aΣ".toList = lower "pro_AΣ".toList ∧
    lower "pro_AΣ".toList = "pro_aς".toList := by
  decide +kernel

end FilterClause.Text
