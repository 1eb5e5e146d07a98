import FilterClause.Proofs.Fragments
import FilterClause.Proofs.RowLimits
import FilterClause.Proofs.Subselects
import FilterClause.Proofs.Words

/-!
# Joined and bracketed fragments

Where a fragment ends in a whole condition and another one starts with the beginning of a
condition, a connective between them separates: the two are cleaned as if each stood alone. A
fragment between brackets is cleaned one level further down.
-/

namespace FilterClause

open Text

namespace Fragment

/-- The tokens behind the last separator of a text make up a left-hand side. -/
def Complete (t : Text) : Prop := Condition.isLeftSide (Condition.lastPart (tokens t)) = true

/-- The tokens of a text start with a condition. -/
def Starts (t : Text) : Prop := Condition.startsHere (tokens t) = true

instance (t : Text) : Decidable (Complete t) := inferInstanceAs (Decidable (_ = true))

instance (t : Text) : Decidable (Starts t) := inferInstanceAs (Decidable (_ = true))

/-! ## What lies before a condition -/

/-- Blanks and digits make up words and nothing else. -/
theorem isWord_of_no_stop {t : Text} (h : ∀ c ∈ t, RowLimit.isStop c = false) :
    ∀ l ∈ Lexeme.ofText t, l.isWord = true := by
  induction t using scan_induction Token.find? with
  | nil => nofun
  | pass c rest hfind ih =>
    rw [Lexeme.ofText_cons_of_none hfind]
    exact ih fun d hd => h d (List.mem_cons_of_mem _ hd)
  | take c rest found n hfind ih =>
    have hopen : '(' ∉ c :: rest := fun hm => by
      have := h '(' hm
      rw [RowLimit.isStop_of_mem_marks '(' (by decide)] at this
      cases this
    have hop : Token.operatorLength? (c :: rest) = none := by
      have hc := h c List.mem_cons_self
      have hnot : ¬ foldLetter c ∈ keywordLetters := fun hm => by
        rw [RowLimit.isStop_of_foldLetter hm] at hc
        cases hc
      have hpart : Token.isWordPart c = true := by
        cases hb : isBlank c with
        | true => rw [Token.find?_of_isBlank hb] at hfind; cases hfind
        | false =>
          have hd : isWordDigit c = true := by simpa [RowLimit.isStop, hb] using hc
          simp [Token.isWordPart, isWord_of_isWordDigit hd]
      have hlike : stripKeyword ['l', 'i', 'k', 'e'] (c :: rest) = none := by
        refine stripKeyword_eq_none fun w tail hw hk => ?_
        cases w with
        | nil => cases hk
        | cons d w =>
          obtain ⟨rfl, -⟩ := List.cons.inj hw
          exact hnot ((List.cons.inj hk).1 ▸ by decide)
      rw [Token.operatorLength?_of_isWordPart hpart, Token.likeLength?, hlike]
    obtain ⟨⟨kind, m⟩, hlex, hfound⟩ := Option.map_eq_some_iff.mp hfind
    rw [Token.lexeme?, hop, Token.callLength?_of_no_bracket hopen] at hlex
    obtain ⟨m', -, hm⟩ := Option.map_eq_some_iff.mp hlex
    obtain ⟨rfl, rfl⟩ := Prod.mk.inj hm
    obtain ⟨rfl, rfl⟩ := Prod.mk.inj hfound
    rw [Lexeme.ofText_cons_of_some hfind]
    refine List.forall_mem_cons.mpr ⟨rfl, ih fun d hd => ?_⟩
    exact h d (List.mem_cons_of_mem _ ((List.drop_subset _ _) hd))

/-- What starts with a condition holds more than blanks and digits. -/
theorem Starts.exists_stop {t : Text} (h : Starts t) :
    ∃ c ∈ t, RowLimit.isStop c = true := by
  by_contra hnone
  have hstop : ∀ c ∈ t, RowLimit.isStop c = false := by
    intro c hc
    cases hs : RowLimit.isStop c with
    | false => rfl
    | true => exact absurd ⟨c, hc, hs⟩ hnone
  have hplain : Plain t := .of_not_mem_marks fun c hc hm => by
    have := hstop c hc
    rw [RowLimit.isStop_of_mem_marks c hm] at this
    cases this
  have hwords := isWord_of_no_stop hstop
  rw [← lexemes_of_plain ⟨[]⟩ 0 hplain, ← map_fill_tokens] at hwords
  have htokens : ∀ u ∈ tokens t, u.isWord = true := by
    intro u hu
    rw [← isWord_fill (places ⟨[]⟩ 0 t)]
    exact hwords _ (List.mem_map_of_mem hu)
  unfold Starts at h
  generalize tokens t = ts at h htokens
  rcases ts with _ | ⟨u, _ | ⟨v, ts⟩⟩
  · cases h
  · have hu := Condition.isGroup_of_isWord (htokens u (by simp))
    rw [Condition.startsHere, hu] at h
    cases h
  · have hu := Condition.isGroup_of_isWord (htokens u (by simp))
    have hv := Condition.isOperator_of_isWord (htokens v (by simp))
    rw [Condition.startsHere, hu, hv, Bool.and_false] at h
    cases h

/-! ## Joined fragments -/

section Join

variable {x y k b₁ b₂ : Text} {conn : Connective} (options : Options) (levels : Nat)
  (hx : Fragment x) (hy : Fragment y) (hk : sameIgnoringCase k conn.text = true)
  (h₁ : ∀ b ∈ b₁, isBlank b = true) (hne₁ : b₁ ≠ []) (h₂ : ∀ b ∈ b₂, isBlank b = true)
  (hne₂ : b₂ ≠ [])

include hk in
theorem plain_connective : Plain k := .of_isWordPart (Connective.isWordPart_of_spelling hk)

include hk in
theorem of_connective : Fragment k := by
  have hplain := plain_connective hk
  have hitems := Lifted.items_of_no_quotes hplain.not_quote
  refine ⟨Lifted.closed_of_no_quotes hplain.not_quote, hitems ▸ hplain.balanced, ?_⟩
  rw [hitems]
  refine Subselect.whereFree_of_length_lt ?_ false
  have := (Connective.length_of_spelling hk).2
  rw [List.length_map]
  omega

include hk in
theorem lexemes_connective : lexemes options levels k = [.word k] := by
  rw [lexemes_of_plain options levels (plain_connective hk)]
  exact Connective.ofText_of_spelling hk

include hx hk h₁ hne₁ h₂ hne₂

theorem lexemes_join :
    lexemes options levels (x ++ b₁ ++ k ++ b₂ ++ y) =
      lexemes options levels x ++ .word k :: lexemes options levels y := by
  have hfirst := append_blanks h₁ hne₁ hx (of_connective hk)
  have hcut := cutAtBlanks_lexemes options levels
  rw [hcut.append_blanks h₂ hfirst.closed hfirst.balanced hne₂,
    hcut.append_blanks h₁ hx.closed hx.balanced hne₁, lexemes_connective options levels hk,
    List.append_assoc, List.singleton_append]

theorem groups_join :
    groups options levels (x ++ b₁ ++ k ++ b₂ ++ y) =
      groups options levels x ++ groups options levels y := by
  have hfirst := append_blanks h₁ hne₁ hx (of_connective hk)
  have hcut := cutAtBlanks_groups options levels
  rw [hcut.append_blanks h₂ hfirst.closed hfirst.balanced hne₂,
    hcut.append_blanks h₁ hx.closed hx.balanced hne₁,
    groups_of_plain options levels (plain_connective hk), List.append_nil]

/-- The tokens of joined fragments, told by their lexemes. -/
theorem tokens_join :
    ∃ ts t us, tokens (x ++ b₁ ++ k ++ b₂ ++ y) = ts ++ t :: us ∧ t.connective? = some conn ∧
      ts.map (places options levels (x ++ b₁ ++ k ++ b₂ ++ y)).fill =
        (tokens x).map (places options levels x).fill ∧
      us.map (places options levels (x ++ b₁ ++ k ++ b₂ ++ y)).fill =
        (tokens y).map (places options levels y).fill := by
  have hlex := lexemes_join (y := y) options levels hx hk h₁ hne₁ h₂ hne₂
  rw [← map_fill_tokens, ← map_fill_tokens options levels x, ← map_fill_tokens options levels y]
    at hlex
  obtain ⟨ts, rest, htokens, hts, hrest⟩ := List.map_eq_append_iff.mp hlex
  obtain ⟨t, us, rfl, ht, hus⟩ := List.map_eq_cons_iff.mp hrest
  refine ⟨ts, t, us, htokens, ?_, hts, hus⟩
  rw [← connective?_fill (places options levels (x ++ b₁ ++ k ++ b₂ ++ y)), ht]
  exact Connective.connective?_of_spelling hk 0

include hy

theorem join : Fragment (x ++ b₁ ++ k ++ b₂ ++ y) :=
  append_blanks h₂ hne₂ (append_blanks h₁ hne₁ hx (of_connective hk)) hy

variable (hxs : Complete x) (hys : Starts y)

include hxs hys

/-- A connective between a complete fragment and the start of a condition separates. -/
theorem cleaned_join :
    cleaned options (levels + 1) (x ++ b₁ ++ k ++ b₂ ++ y) =
      ⟨(cleaned options (levels + 1) x).text ++ ' ' :: conn.text ++
          ' ' :: (cleaned options (levels + 1) y).text,
        (cleaned options (levels + 1) x).looseBracket ||
          (cleaned options (levels + 1) y).looseBracket,
        (cleaned options (levels + 1) x).tooDeep ||
          (cleaned options (levels + 1) y).tooDeep⟩ := by
  have hz := join hx hy hk h₁ hne₁ h₂ hne₂
  obtain ⟨ts, t, us, htokens, ht, hts, hus⟩ :=
    tokens_join (y := y) options levels hx hk h₁ hne₁ h₂ hne₂
  have hleft : Condition.isLeftSide (Condition.lastPart ts) = true :=
    (isLeftSide_congr (Condition.lastPart_congr hts)).trans hxs
  have hstart : Condition.startsHere us = true := (startsHere_congr hus).trans hys
  rw [cleaned_eq options levels hz, cleaned_eq options levels hx, cleaned_eq options levels hy,
    groups_join options levels hx hk h₁ hne₁ h₂ hne₂, List.any_append, List.any_append, htokens,
    Condition.renderAll_append _ options ht hleft hstart, condition_renderAll_congr hts options,
    condition_renderAll_congr hus options]

omit hy in
theorem complete_join (hyc : Complete y) : Complete (x ++ b₁ ++ k ++ b₂ ++ y) := by
  obtain ⟨ts, t, us, htokens, ht, hts, hus⟩ :=
    tokens_join (y := y) ⟨[]⟩ 0 hx hk h₁ hne₁ h₂ hne₂
  have hleft : Condition.isLeftSide (Condition.lastPart ts) = true :=
    (isLeftSide_congr (Condition.lastPart_congr hts)).trans hxs
  have hstart : Condition.startsHere us = true := (startsHere_congr hus).trans hys
  rw [Complete, htokens, Condition.lastPart_append ht hleft hstart]
  exact (isLeftSide_congr (Condition.lastPart_congr hus)).trans hyc

omit hy hxs in
theorem starts_join (hxstarts : Starts x) : Starts (x ++ b₁ ++ k ++ b₂ ++ y) := by
  obtain ⟨ts, t, us, htokens, ht, hts, hus⟩ :=
    tokens_join (y := y) ⟨[]⟩ 0 hx hk h₁ hne₁ h₂ hne₂
  have hstart : Condition.startsHere us = true := (startsHere_congr hus).trans hys
  rw [Starts, htokens, Condition.startsHere_append (Condition.isWord_of_connective? ht) hstart]
  exact (startsHere_congr hts).trans hxstarts

end Join

/-! ## Bracketed fragments -/

section Bracketed

theorem padded {t l r : Text} (h : Fragment t) (hl : ∀ c ∈ l, isBlank c = true)
    (hr : ∀ c ∈ r, isBlank c = true) : Fragment (l ++ t ++ r) := by
  rw [List.append_assoc, blanks_append_iff hl]
  by_cases hne : r = []
  · rwa [hne, List.append_nil]
  · have := append_blanks hr hne h nil
    rwa [List.append_nil] at this

theorem bracketed {t : Text} (h : Fragment t) : Fragment ('(' :: (t ++ [')'])) := by
  have hitems := items_bracketed t
  constructor
  case closed => exact h.closed.bracketed
  case balanced =>
    rw [hitems]
    exact .group h.balanced .nil
  case whereFree =>
    have hopen : Item.isName (.char '(') = false := isName_of_mem_marks '(' (by decide)
    have hclose : Item.isName (.char ')') = false := isName_of_mem_marks ')' (by decide)
    rw [hitems]
    exact Subselect.WhereFree.append hopen (show Subselect.WhereFree false [] from trivial)
      (Subselect.WhereFree.append hclose h.whereFree trivial)

/-- A text between brackets is one token. -/
theorem tokens_bracketed (options : Options) (levels : Nat) {t : Text}
    (hb : Bracket.Balanced (Lifted.items t)) :
    ∃ u, tokens ('(' :: (t ++ [')'])) = [u] ∧
      (places options levels ('(' :: (t ++ [')']))).fill u =
        .group (cleaned options levels t).text := by
  have hlex := lexemes_bracketed options levels hb
  rw [← map_fill_tokens] at hlex
  exact List.map_eq_singleton_iff.mp hlex

theorem isGroup_bracketed {t : Text} (hb : Bracket.Balanced (Lifted.items t)) :
    ∃ u, tokens ('(' :: (t ++ [')'])) = [u] ∧ u.isGroup = true := by
  obtain ⟨u, htokens, hu⟩ := tokens_bracketed ⟨[]⟩ 0 hb
  refine ⟨u, htokens, ?_⟩
  rw [← isGroup_fill (places ⟨[]⟩ 0 _), hu]
  rfl

theorem complete_bracketed {t : Text} (h : Fragment t) : Complete ('(' :: (t ++ [')'])) := by
  obtain ⟨u, htokens, hgroup⟩ := isGroup_bracketed h.balanced
  rw [Complete, Condition.lastPart, htokens,
    Condition.splitBehind_cons_of_not (Condition.separates_nil u [])]
  exact hgroup

theorem starts_bracketed {t : Text} (h : Fragment t) : Starts ('(' :: (t ++ [')'])) := by
  obtain ⟨u, htokens, hgroup⟩ := isGroup_bracketed h.balanced
  rw [Starts, htokens]
  exact hgroup

/-- A text between brackets is cleaned one level further down. -/
theorem cleaned_bracketed (options : Options) (levels : Nat) {t : Text}
    (hb : Bracket.Balanced (Lifted.items t)) :
    cleaned options (levels + 1) ('(' :: (t ++ [')'])) =
      ⟨'(' :: (cleaned options levels t).text ++ [')'], (cleaned options levels t).looseBracket,
        (cleaned options levels t).tooDeep⟩ := by
  obtain ⟨u, htokens, hu⟩ := tokens_bracketed options levels hb
  have huncut : Subselect.split (Lifted.items ('(' :: (t ++ [')']))) =
      ([], Lifted.items ('(' :: (t ++ [')']))) := by
    refine Subselect.split_of_none ?_
    rw [items_bracketed, Subselect.endOfWhere, Subselect.endOfWhereFrom_group hb]
    rfl
  have hrender : (places options levels ('(' :: (t ++ [')']))).render u =
      '(' :: (cleaned options levels t).text ++ [')'] := by
    rw [← render_fill, hu]
    rfl
  rw [cleaned_of_uncut options levels huncut, ofItems_bracketed hb,
    groups_bracketed options levels hb, htokens, Condition.renderAll_singleton, hrender]
  show (⟨_, false || ((cleaned options levels t).looseBracket || false),
    (cleaned options levels t).tooDeep || false⟩ : Cleaned) = _
  rw [Bool.or_false, Bool.or_false, Bool.false_or]

end Bracketed

end Fragment

end FilterClause
