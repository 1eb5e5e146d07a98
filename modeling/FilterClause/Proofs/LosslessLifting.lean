import FilterClause.Proofs.Lifting
import Mathlib.Algebra.Ring.Parity
import Mathlib.Data.List.Chain

/-!
# Lifting loses nothing

A text is read once more, now with the quote that each literal stands between. Written back, these
parts are the text (`Lifted.flatMap_written`), and the segments of a lifted text spread to them
(`Lifted.flatMap_spread`). So each segment has its place in the text, and what is said of the parts
at one place is said of the segments there (`Lifted.protects_ofText`).
-/

namespace FilterClause

open Text

namespace Segment

/-- Whether the segment is text. -/
def isText : Segment → Bool
  | .text _ => true
  | _ => false

/-- The text that is still to be read in a segment. -/
def loose : Segment → Text
  | .text t => t
  | _ => []

/-- The literal whose place the segment is. -/
def literal? : Segment → Option Nat
  | .literal index => some index
  | _ => none

/-- A segment as it stood in the text, where `quoted` are the literals with their quotes. -/
def restore (quoted : List (Char × Text)) : Segment → Text
  | .text t | .call t => t
  | .literal index =>
    match quoted[index]? with
    | some (q, content) => q :: content ++ [q]
    | none => []
  | .group _ => []

section PushChar

variable {c : Char} {segments : List Segment}

theorem mem_pushChar {s : Segment} (h : s ∈ pushChar c segments) :
    (∃ u, s = .text (c :: u)) ∨ s ∈ segments := by
  rcases segments with _ | ⟨_ | _ | _ | _, rest⟩ <;>
    simp only [pushChar, List.mem_cons, List.not_mem_nil] at h ⊢ <;>
    tauto

theorem isChain_pushChar
    (h : segments.IsChain fun s s' => s.isText = true → s'.isText = false) :
    (pushChar c segments).IsChain fun s s' => s.isText = true → s'.isText = false := by
  rcases segments with _ | ⟨_ | _ | _ | _, rest⟩
  case nil => exact .singleton _
  case cons.text => exact List.isChain_cons.mpr (List.isChain_cons.mp h)
  all_goals exact List.isChain_cons_cons.mpr ⟨fun _ => rfl, h⟩

variable (c segments)

theorem filterMap_pushChar_literal? :
    (pushChar c segments).filterMap literal? = segments.filterMap literal? := by
  rcases segments with _ | ⟨_ | _ | _ | _, rest⟩ <;> rfl

theorem flatMap_pushChar_loose :
    (pushChar c segments).flatMap loose = c :: segments.flatMap loose := by
  rcases segments with _ | ⟨_ | _ | _ | _, rest⟩ <;> rfl

end PushChar

end Segment

namespace Lifted

/-- What is left of a text when its literals have been lifted out, and where they go back. -/
structure Protects (l : Lifted) (t : Text) : Prop where
  kinds : ∀ s ∈ l.segments, (∃ u, s = .text u ∧ u ≠ []) ∨ ∃ index, s = .literal index
  apart : l.segments.IsChain fun s s' => s.isText = true → s'.isText = false
  numbered : l.segments.filterMap Segment.literal? = List.range l.literals.length
  /-- With a quote for each literal the text is put together again, and no character of it behind a
  quote that is left is that quote. -/
  restored : ∃ quoted : List (Char × Text), quoted.map Prod.snd = l.literals ∧
    (∀ literal ∈ quoted, isQuote literal.1 = true ∧ literal.1 ∉ literal.2) ∧
    l.segments.flatMap (Segment.restore quoted) = t ∧
    ∀ before u q v behind, l.segments = before ++ .text (u ++ q :: v) :: behind →
      isQuote q = true → q ∉ v ++ behind.flatMap (Segment.restore quoted)
  single : ∀ q, isQuote q = true → (l.segments.flatMap Segment.loose).count q ≤ 1
  stray : l.hasStrayQuote = true ↔ ∃ q ∈ l.segments.flatMap Segment.loose, isQuote q = true
  odd : ∀ q, isQuote q = true → (∀ c ∈ t, isQuote c = true → c = q) →
    (l.hasStrayQuote = true ↔ Odd (t.count q))

/-! ## Parts with their quotes -/

/-- The content of the literal that a character opens, and that character. -/
def quotedLiteral? (q : Char) (rest : Text) : Option ((Char × Text) × Nat) :=
  (literal? q rest).map (Prod.map (q, ·) id)

/-- The parts of a text, each literal with the quote that it stands between. -/
def quotedParts (t : Text) : List (Char ⊕ (Char × Text)) := scan quotedLiteral? t

/-- A part as it stands in the text. -/
def written : Char ⊕ (Char × Text) → Text
  | .inl c => [c]
  | .inr (q, content) => q :: content ++ [q]

/-- A part without its quotes. -/
def unquoted : Char ⊕ (Char × Text) → Char ⊕ Text := Sum.map id Prod.snd

theorem map_unquoted (t : Text) : (quotedParts t).map unquoted = parts t := by
  have hfind (q : Char) (rest : Text) :
      literal? (id q) (rest.map id) = (quotedLiteral? q rest).map (Prod.map Prod.snd id) := by
    rw [quotedLiteral?, List.map_id, id]
    cases literal? q rest <;> rfl
  have h := scan_map id Prod.snd hfind t
  rw [List.map_id] at h
  exact h.symm

theorem contents_map_unquoted (ps : List (Char ⊕ (Char × Text))) :
    contents (ps.map unquoted) = (ps.filterMap Sum.getRight?).map Prod.snd := by
  rw [contents, List.filterMap_map, List.map_filterMap]
  exact List.filterMap_congr fun part _ => by cases part <;> rfl

theorem lefts_map_unquoted (ps : List (Char ⊕ (Char × Text))) :
    (ps.map unquoted).filterMap Sum.getLeft? = ps.filterMap Sum.getLeft? := by
  rw [List.filterMap_map]
  exact List.filterMap_congr fun part _ => by cases part <;> rfl

/-- A quote that opens no literal is not there again. -/
theorem not_mem_of_literal?_eq_none {q : Char} {rest : Text} (hq : isQuote q = true)
    (h : literal? q rest = none) : q ∉ rest := by
  intro hmem
  simp [literal?, hq, hmem] at h

/-- Induction along the parts: a character that opens no literal, or a whole literal. -/
theorem quotedParts_induction {motive : Text → List (Char ⊕ (Char × Text)) → Prop}
    (nil : motive [] [])
    (pass : ∀ c rest, literal? c rest = none → motive rest (quotedParts rest) →
      motive (c :: rest) (.inl c :: quotedParts rest))
    (take : ∀ q content rest, isQuote q = true → q ∉ content →
      motive rest (quotedParts rest) →
      motive (q :: content ++ q :: rest) (.inr (q, content) :: quotedParts rest))
    (t : Text) : motive t (quotedParts t) := by
  induction t using scan_induction literal? with
  | nil => exact nil
  | pass c rest hc ih =>
    have hfind : quotedLiteral? c rest = none := by rw [quotedLiteral?, hc]; rfl
    rw [quotedParts, scan_cons_of_none hfind]
    exact pass c rest hc ih
  | take q rest content n hc ih =>
    have hfind : quotedLiteral? q rest = some ((q, content), n) := by rw [quotedLiteral?, hc]; rfl
    obtain ⟨hq, hmem, -, hrest⟩ := literal?_eq_some hc
    rw [quotedParts, scan_cons_of_some hfind]
    conv => arg 1; rw [hrest]
    exact take q content _ hq hmem ih

theorem flatMap_written (t : Text) : (quotedParts t).flatMap written = t := by
  induction t using quotedParts_induction with
  | nil => rfl
  | pass c rest hc ih => rw [List.flatMap_cons, ih]; rfl
  | take q content rest hq hmem ih => rw [List.flatMap_cons, ih]; simp [written]

theorem flatMap_written_inl (t : Text) : (t.map .inl).flatMap written = t := by
  rw [List.flatMap_map]
  exact List.flatMap_singleton' t

/-- A literal stands between quotes that its content lacks. -/
theorem quote_of_mem {t : Text} {literal : Char × Text} (h : .inr literal ∈ quotedParts t) :
    isQuote literal.1 = true ∧ literal.1 ∉ literal.2 := by
  induction t using quotedParts_induction with
  | nil => cases h
  | pass c rest hc ih => exact ih (by simpa using h)
  | take q content rest hq hmem ih =>
    rcases List.mem_cons.mp h with h | h
    · exact Sum.inr.inj h ▸ ⟨hq, hmem⟩
    · exact ih h

/-- A quote that is left in the text is not there again behind its place. -/
theorem not_mem_behind {t : Text} {before behind : List (Char ⊕ (Char × Text))} {q : Char}
    (hq : isQuote q = true) (h : quotedParts t = before ++ .inl q :: behind) :
    q ∉ behind.flatMap written := by
  induction t using quotedParts_induction generalizing before with
  | nil => simp at h
  | pass c rest hc ih =>
    rcases before with _ | ⟨part, before⟩
    · obtain ⟨hcq, rfl⟩ := List.cons.inj h
      obtain rfl : c = q := Sum.inl.inj hcq
      rw [flatMap_written]
      exact not_mem_of_literal?_eq_none hq hc
    · exact ih (List.cons.inj h).2
  | take q' content rest hq' hmem ih =>
    rcases before with _ | ⟨part, before⟩
    · exact absurd (List.cons.inj h).1 (by simp)
    · exact ih (List.cons.inj h).2

/-- The characters outside literals are characters of the text. -/
theorem lefts_subset (ps : List (Char ⊕ (Char × Text))) :
    ps.filterMap Sum.getLeft? ⊆ ps.flatMap written := by
  intro c hc
  obtain ⟨part, hpart, hleft⟩ := List.mem_filterMap.mp hc
  obtain rfl := Sum.getLeft?_eq_some_iff.mp hleft
  exact List.mem_flatMap.mpr ⟨_, hpart, List.mem_singleton_self c⟩

theorem count_lefts_le {q : Char} (hq : isQuote q = true) (t : Text) :
    ((quotedParts t).filterMap Sum.getLeft?).count q ≤ 1 := by
  induction t using quotedParts_induction with
  | nil => exact Nat.zero_le 1
  | pass c rest hc ih =>
    have hcons : (Sum.inl c :: quotedParts rest).filterMap Sum.getLeft? =
      c :: (quotedParts rest).filterMap Sum.getLeft? := rfl
    rw [hcons]
    by_cases hcq : c = q
    · subst hcq
      have hlefts : c ∉ (quotedParts rest).filterMap Sum.getLeft? := fun hmem =>
        not_mem_of_literal?_eq_none hq hc (flatMap_written rest ▸ lefts_subset _ hmem)
      rw [List.count_cons_self, List.count_eq_zero.mpr hlefts]
    · rwa [List.count_cons_of_ne hcq]
  | take q' content rest hq' hmem ih => exact ih

/-- Where all quotes are of one kind, they close exactly if their number is even. -/
theorem closed_iff_even {q : Char} (hq : isQuote q = true) {t : Text}
    (h : ∀ c ∈ t, isQuote c = true → c = q) : Closed t ↔ Even (t.count q) := by
  induction t using quotedParts_induction with
  | nil => exact iff_of_true closed_nil Even.zero
  | pass c rest hc ih =>
    by_cases hcq : c = q
    · subst hcq
      have hleft : .inl c ∈ parts (c :: rest) := by
        rw [parts, scan_cons_of_none hc]
        exact List.mem_cons_self
      have hcount := List.count_eq_zero.mpr (not_mem_of_literal?_eq_none hq hc)
      rw [List.count_cons_self, hcount]
      exact iff_of_false (fun hclosed => Bool.false_ne_true ((hclosed c hleft).symm.trans hq))
        (by decide)
    · have hc' : isQuote c = false :=
        Bool.eq_false_iff.mpr fun hquote => hcq (h c List.mem_cons_self hquote)
      rw [closed_cons_iff hc', List.count_cons_of_ne hcq]
      exact ih fun d hd => h d (List.mem_cons_of_mem _ hd)
  | take q' content rest hq' hmem ih =>
    obtain rfl : q' = q := h q' List.mem_cons_self hq'
    have hcount : (q' :: (content ++ q' :: rest)).count q' = rest.count q' + 2 := by
      simp [List.count_append, List.count_eq_zero.mpr hmem]
    rw [List.cons_append, closed_literal_iff hq' hmem, hcount, ih fun d hd => h d (by simp [hd])]
    exact (Nat.even_add.trans (iff_true_right even_two)).symm

/-! ## Segments -/

/-- The parts of which a segment is made. -/
def spread (quoted : List (Char × Text)) : Segment → List (Char ⊕ (Char × Text))
  | .text t | .call t => t.map .inl
  | .literal index => quoted[index]?.toList.map .inr
  | .group _ => []

theorem restore_eq (quoted : List (Char × Text)) (s : Segment) :
    s.restore quoted = (spread quoted s).flatMap written := by
  cases s with
  | text t => exact (flatMap_written_inl t).symm
  | literal index => cases h : quoted[index]? <;> simp [Segment.restore, spread, h, written]
  | group index => rfl
  | call t => exact (flatMap_written_inl t).symm

theorem flatMap_restore (quoted : List (Char × Text)) (segments : List Segment) :
    segments.flatMap (Segment.restore quoted) =
      (segments.flatMap (spread quoted)).flatMap written := by
  rw [List.flatMap_assoc]
  exact List.flatMap_congr fun s _ => restore_eq quoted s

/-- A character of a segment of text is a part of its own. -/
theorem spread_cut (quoted : List (Char × Text)) (before : List Segment) (u : Text) (q : Char)
    (v : Text) (behind : List Segment) :
    (before ++ .text (u ++ q :: v) :: behind).flatMap (spread quoted) =
      (before.flatMap (spread quoted) ++ u.map .inl) ++
        .inl q :: (v.map .inl ++ behind.flatMap (spread quoted)) := by
  simp [spread]

theorem flatMap_pushChar_spread (quoted : List (Char × Text)) (c : Char)
    (segments : List Segment) : (Segment.pushChar c segments).flatMap (spread quoted) =
      .inl c :: segments.flatMap (spread quoted) := by
  rcases segments with _ | ⟨_ | _ | _ | _, rest⟩ <;> rfl

/-- The segments of parts spread to them. -/
theorem flatMap_spread {quoted : List (Char × Text)} {ps : List (Char ⊕ (Char × Text))}
    {index : Nat} (h : quoted.drop index = ps.filterMap Sum.getRight?) :
    (segmentsFrom index (ps.map unquoted)).flatMap (spread quoted) = ps := by
  induction ps generalizing index with
  | nil => rfl
  | cons part ps ih =>
    cases part with
    | inl c =>
      rw [List.map_cons, unquoted, Sum.map_inl, segmentsFrom, flatMap_pushChar_spread]
      exact congrArg _ (ih h)
    | inr literal =>
      have hdrop : quoted.drop index = literal :: ps.filterMap Sum.getRight? := h
      have hat : quoted[index]? = some literal := by
        rw [← List.head?_drop, hdrop, List.head?_cons]
      have hbehind : quoted.drop (index + 1) = ps.filterMap Sum.getRight? := by
        rw [← List.tail_drop, hdrop, List.tail_cons]
      have hspread : spread quoted (.literal index) = [.inr literal] := by rw [spread, hat]; rfl
      rw [List.map_cons, unquoted, Sum.map_inr, segmentsFrom, List.flatMap_cons, hspread]
      exact congrArg _ (ih hbehind)

section SegmentsFrom

variable (index : Nat) (ps : List (Char ⊕ Text))

theorem kinds_segmentsFrom : ∀ s ∈ segmentsFrom index ps,
    (∃ u, s = .text u ∧ u ≠ []) ∨ ∃ place, s = .literal place := by
  induction ps generalizing index with
  | nil => nofun
  | cons part ps ih =>
    cases part with
    | inl c =>
      rintro s hs
      rcases Segment.mem_pushChar hs with ⟨u, rfl⟩ | hs
      · exact .inl ⟨c :: u, rfl, List.cons_ne_nil c u⟩
      · exact ih index s hs
    | inr content => exact List.forall_mem_cons.mpr ⟨.inr ⟨index, rfl⟩, ih (index + 1)⟩

theorem apart_segmentsFrom :
    (segmentsFrom index ps).IsChain fun s s' => s.isText = true → s'.isText = false := by
  induction ps generalizing index with
  | nil => exact .nil
  | cons part ps ih =>
    cases part with
    | inl c => exact Segment.isChain_pushChar (ih index)
    | inr content => exact List.isChain_cons.mpr ⟨fun _ _ => nofun, ih (index + 1)⟩

theorem literals_segmentsFrom : (segmentsFrom index ps).filterMap Segment.literal? =
    List.range' index (contents ps).length := by
  induction ps generalizing index with
  | nil => rfl
  | cons part ps ih =>
    cases part with
    | inl c => exact (Segment.filterMap_pushChar_literal? c _).trans (ih index)
    | inr content => exact congrArg (index :: ·) (ih (index + 1))

theorem loose_segmentsFrom :
    (segmentsFrom index ps).flatMap Segment.loose = ps.filterMap Sum.getLeft? := by
  induction ps generalizing index with
  | nil => rfl
  | cons part ps ih =>
    cases part with
    | inl c => exact (Segment.flatMap_pushChar_loose c _).trans (congrArg (c :: ·) (ih index))
    | inr content => exact ih (index + 1)

end SegmentsFrom

theorem hasStrayQuote_eq_any (l : Lifted) :
    l.hasStrayQuote = (l.segments.flatMap Segment.loose).any isQuote := by
  rw [hasStrayQuote, List.any_flatMap]
  congr 1
  funext s
  cases s <;> rfl

/-- Lifting is exact: nothing of a text is lost, and what is left of it has no closed quote. -/
theorem protects_ofText (t : Text) : Protects (ofText t) t := by
  have hquoted : ((quotedParts t).filterMap Sum.getRight?).map Prod.snd = (ofText t).literals := by
    rw [← contents_map_unquoted, map_unquoted]
    rfl
  have hspread : (ofText t).segments.flatMap
      (spread ((quotedParts t).filterMap Sum.getRight?)) = quotedParts t := by
    show (segmentsFrom 0 (parts t)).flatMap _ = _
    rw [← map_unquoted]
    exact flatMap_spread List.drop_zero
  have hloose : (ofText t).segments.flatMap Segment.loose =
      (quotedParts t).filterMap Sum.getLeft? := by
    rw [ofText, loose_segmentsFrom, ← parts, ← map_unquoted, lefts_map_unquoted]
  refine ⟨kinds_segmentsFrom 0 _, apart_segmentsFrom 0 _, ?_, ⟨_, hquoted, ?_, ?_, ?_⟩, ?_, ?_, ?_⟩
  · rw [List.range_eq_range']
    exact literals_segmentsFrom 0 _
  · intro literal hmem
    obtain ⟨part, hpart, hright⟩ := List.mem_filterMap.mp hmem
    exact quote_of_mem (Sum.getRight?_eq_some_iff.mp hright ▸ hpart)
  · rw [flatMap_restore, hspread, flatMap_written]
  · intro before u q v behind hsegments hq
    rw [hsegments] at hspread
    have hbehind := not_mem_behind hq (hspread.symm.trans (spread_cut _ before u q v behind))
    rwa [List.flatMap_append, flatMap_written_inl, ← flatMap_restore] at hbehind
  · intro q hq
    rw [hloose]
    exact count_lefts_le hq t
  · rw [hasStrayQuote_eq_any, List.any_eq_true]
  · intro q hq honly
    rw [← Bool.not_eq_false, hasStrayQuote_eq_false_iff, closed_iff_even hq honly,
      Nat.not_even_iff_odd]

/-- Each kind of quote stands within a literal of the other kind, and a last one closes nothing. -/
theorem protects_mixed :
    let t := "a = 'x\"y' or b = \"it's\" or c = 'z".toList
    let l := ofText t
    Protects l t ∧ l.literals = ["x\"y".toList, "it's".toList] ∧ l.hasStrayQuote = true ∧
      l.segments = [.text "a = ".toList, .literal 0, .text " or b = ".toList, .literal 1,
        .text " or c = 'z".toList] :=
  ⟨protects_ofText _, by decide +kernel⟩

end Lifted

end FilterClause
