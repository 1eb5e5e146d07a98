import FilterClause.Proofs.Columns
import FilterClause.Proofs.Runs

/-!
# Words of loosely written clauses

A word holds no keyword as a run of its own, so no stage takes a part of it for LIKE, WHERE or
LIMIT. Read behind a gap or a sign it is one lexeme.
-/

namespace FilterClause

open Text

/-! ## Characters of words -/

theorem toNat_lt_of_isWordSign {c : Char} (h : isWordSign c = true) : c.toNat < 128 := by
  simp only [isWordSign, isRunSign, Bool.or_eq_true, beq_iff_eq] at h
  rcases h with (((h | rfl) | rfl) | rfl) | rfl
  · exact toNat_lt_of_isAlphanum h
  all_goals decide

section Sign

variable {c : Char} (h : isWordSign c = true)

include h

theorem isWordPart_of_isWordSign : Token.isWordPart c = true := by
  rw [Token.isWordPart, (classes_of_ascii (toNat_lt_of_isWordSign h)).1]
  simp only [isWordSign, isRunSign, Bool.or_eq_true, beq_iff_eq] at h ⊢
  tauto

theorem isWord_of_isWordSign : isWord c = isRunSign c :=
  (classes_of_ascii (toNat_lt_of_isWordSign h)).1

theorem isName_of_isWordSign : isName c = isRunSign c :=
  (classes_of_ascii (toNat_lt_of_isWordSign h)).2.1

theorem isBlank_of_isWordSign : isBlank c = false :=
  isBlank_of_isWordPart (isWordPart_of_isWordSign h)

end Sign

/-! ## Words -/

namespace Word

variable (w : Word)

theorem isWordPart : ∀ c ∈ w.text, Token.isWordPart c = true :=
  fun c hc => isWordPart_of_isWordSign (w.signs c hc)

/-- A spelling of a keyword in a word goes on to the left or to the right. -/
theorem not_keyword {u r v : Text} (ht : w.text = u ++ r ++ v) {keyword : Text}
    (hk : keyword ∈ runKeywords) (hr : r.map foldLetter = keyword.map Char.toLower) :
    (∃ c ∈ u.getLast?, isRunSign c = true) ∨ ∃ c ∈ v.head?, isRunSign c = true := by
  have hsigns : ∀ c ∈ r, isWordSign c = true := fun c hc => w.signs c (by simp [ht, hc])
  have hlower : r.map Char.toLower = keyword.map Char.toLower := by
    rw [← hr]
    refine List.map_congr_left fun c hc => ?_
    exact (foldLetter_of_lt (toNat_lt_of_isWordSign (hsigns c hc))).symm
  have hrun : ∀ c ∈ r, isRunSign c = true := by
    intro c hc
    have hmem : c.toLower ∈ keyword.map Char.toLower := hlower ▸ List.mem_map_of_mem hc
    have halnum : ∀ k ∈ runKeywords, ∀ d ∈ k.map Char.toLower, d.isAlphanum = true := by decide
    simp [isRunSign, isAlphanum_of_toLower (halnum keyword hk _ hmem)]
  by_contra hnone
  rw [not_or] at hnone
  have hu : ∀ c ∈ u.getLast?, isRunSign c = false := fun c hc => by
    cases hs : isRunSign c with
    | false => rfl
    | true => exact absurd ⟨c, hc, hs⟩ hnone.1
  have hv : ∀ c ∈ v.head?, isRunSign c = false := fun c hc => by
    cases hs : isRunSign c with
    | false => rfl
    | true => exact absurd ⟨c, hc, hs⟩ hnone.2
  have hmem : r ∈ runs w.text := mem_runsOf_iff.mpr ⟨u, v, ht, hrun, hu, hv⟩
  have := w.noKeyword r hmem keyword hk
  rw [sameIgnoringCase_iff.mpr hlower] at this
  cases this

/-- No word is LIKE. -/
theorem notLike : Token.likeLength? w.text = none := by
  have hlike : "LIKE".toList ∈ runKeywords := by decide
  unfold Token.likeLength?
  cases hs : stripKeyword ['l', 'i', 'k', 'e'] w.text with
  | none => rfl
  | some tail =>
    obtain ⟨r, hr, hfold⟩ := stripKeyword_eq_some_iff.mp hs
    have hself : w.text = [] ++ r ++ tail := hr
    rcases w.not_keyword hself hlike (by rw [hfold]; decide) with ⟨c, hc, -⟩ | ⟨c, hc, hrun⟩
    · cases hc
    · have hsign : isWordSign c = true := by
        refine w.signs c ?_
        rw [hr]
        exact List.mem_append_right _ (List.mem_of_mem_head? hc)
      have hword : startsWithWord tail = true := by
        rw [startsWithWord, Option.mem_def.mp hc, Option.any_some, isWord_of_isWordSign hsign, hrun]
      dsimp only
      rw [if_pos hword]

/-- Where WHERE starts in a word, a character of names stands before it. -/
theorem isName_of_startsWithWhere {u v : Text} (h : w.text = u ++ v)
    (hstart : Subselect.startsWithWhere (v.map .char) = true) : u.getLast?.any isName = true := by
  obtain ⟨k, rest, rfl, hspell, hend⟩ := Subselect.exists_of_startsWithWhere hstart
  have hwhere : "WHERE".toList ∈ runKeywords := by decide
  have ht : w.text = u ++ k ++ rest := by rw [h, List.append_assoc]
  rcases w.not_keyword ht hwhere (by rw [hspell]; decide) with ⟨d, hd, hrun⟩ | ⟨d, hd, hrun⟩
  · have hmem : d ∈ w.text := h ▸ List.mem_append_left _ (List.mem_of_getLast? hd)
    rw [Option.mem_def.mp hd, Option.any_some, isName_of_isWordSign (w.signs d hmem), hrun]
  · have hmem : d ∈ w.text := by
      rw [ht]
      exact List.mem_append_right _ (List.mem_of_head? hd)
    have hname := hend d hd
    rw [isName_of_isWordSign (w.signs d hmem), hrun] at hname
    cases hname

/-- No WHERE stands alone in a word. -/
theorem whereFree : Subselect.WhereFree false (w.text.map .char) := by
  have key : ∀ v u : Text, w.text = u ++ v →
      Subselect.WhereFree (u.getLast?.any isName) (v.map .char) := by
    intro v
    induction v with
    | nil => exact fun _ _ => trivial
    | cons c v ih =>
      intro u hu
      constructor
      · cases hstart : Subselect.startsWithWhere ((c :: v).map .char) with
        | false => exact .inr hstart
        | true => exact .inl (w.isName_of_startsWithWhere hu hstart)
      · have := ih (u ++ [c]) (by rw [hu, List.append_assoc]; rfl)
        rwa [List.getLast?_append, List.getLast?_singleton, Option.some_or] at this
  exact key w.text [] rfl

/-- A word as a column. -/
def toColumn : Column := ⟨w.text, w.nonempty, w.isWordPart, w.notLike, w.whereFree⟩

/-- A word is one lexeme, whatever follows that does not go on with it. -/
theorem ofText_append {rest : Text}
    (hrest : ∀ c ∈ rest.head?, Token.isWordPart c = false ∧ c ≠ '(') :
    Lexeme.ofText (w.text ++ rest) = .word w.text :: Lexeme.ofText rest :=
  w.toColumn.ofText_append hrest

/-- No LIMIT stands alone at the end of a word. -/
theorem not_limit {u r : Text} (ht : w.text = u ++ r)
    (hr : r.map foldLetter = ['l', 'i', 'm', 'i', 't']) : ∃ c ∈ u.getLast?, isWord c = true := by
  have hlimit : "LIMIT".toList ∈ runKeywords := by decide
  have hself : w.text = u ++ r ++ [] := by rw [List.append_nil, ht]
  rcases w.not_keyword hself hlimit (by rw [hr]; decide) with ⟨c, hc, hrun⟩ | ⟨c, hc, -⟩
  · refine ⟨c, hc, ?_⟩
    have hmem : c ∈ w.text := ht ▸ List.mem_append_left _ (List.mem_of_getLast? hc)
    rw [isWord_of_isWordSign (w.signs c hmem), hrun]
  · cases hc

end Word

end FilterClause
