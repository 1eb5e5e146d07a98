import FilterClause.Clause.Comparison
import FilterClause.Proofs.Texts
import Mathlib.Data.List.Forall2

/-!
# How tokens show in cleaned text

A token shows as it is, in capitals, or as a part of a quoted value with its apostrophes doubled
and its padding lost. A written comparison shows its tokens in order.
-/

namespace FilterClause

open Text

/-- A text with every apostrophe doubled. -/
def doubled (t : Text) : Text :=
  t.flatMap fun c => if c = singleQuote then [singleQuote, singleQuote] else [c]

theorem doubled_append (s t : Text) : doubled (s ++ t) = doubled s ++ doubled t :=
  List.flatMap_append

/-! ## How a token shows -/

/-- Whether a character may be lost at the end of a value: a percent sign, and for a literal also a
quote. -/
def isPadding (t : Token) (c : Char) : Prop :=
  c = '%' ∨ (∃ index, t.kind = .literal index) ∧ (c = singleQuote ∨ c = doubleQuote)

/-- The text by which a token shows in a cleaned predicate. -/
inductive Shows (p : Places) (t : Token) : Text → Prop
  /-- The token as it is. -/
  | whole : Shows p t (p.render t)
  /-- An operator or a separator in capitals. -/
  | upper (h : t.isOperator = true ∨ t.connective?.isSome = true) : Shows p t (Text.upper t.text)
  /-- A part of a quoted value. Next to the quotes it may have lost padding. -/
  | quoted (opening before inner after closing : Text)
      (hbare : p.renderBare t = before ++ inner ++ after)
      (hpadding : ∀ c ∈ before ++ after, isPadding t c)
      (hopening : opening ∈ [[], [singleQuote], [singleQuote, '%']])
      (hclosing : closing ∈ [[], [singleQuote], ['%', singleQuote]])
      (hbefore : opening = [] → before = []) (hafter : closing = [] → after = []) :
      Shows p t (opening ++ doubled inner ++ closing)

/-- A text that shows the tokens: texts with spaces between them, among them one for each token, in
order. -/
def ShowsAll (p : Places) (ts : List Token) (t : Text) : Prop :=
  ∃ texts shown, t = joinSpaced texts ∧ shown.Sublist texts ∧ List.Forall₂ (Shows p) ts shown

section Shows

variable {p : Places}

namespace ShowsAll

theorem singleton {t : Token} {u : Text} (h : Shows p t u) : ShowsAll p [t] u :=
  ⟨[u], [u], (joinSpaced_singleton u).symm, List.Sublist.refl _, .cons h .nil⟩

theorem texts_ne_nil {ts : List Token} (hne : ts ≠ []) {texts shown : List Text}
    (hsub : shown.Sublist texts) (hall : List.Forall₂ (Shows p) ts shown) : texts ≠ [] := by
  rintro rfl
  obtain rfl := List.sublist_nil.mp hsub
  exact hne (List.forall₂_nil_right_iff.mp hall)

/-- Tokens and further tokens show in texts with a space between them. -/
theorem append {ts us : List Token} (hts : ts ≠ []) (hus : us ≠ []) {s t : Text}
    (hs : ShowsAll p ts s) (ht : ShowsAll p us t) : ShowsAll p (ts ++ us) (s ++ ' ' :: t) := by
  obtain ⟨texts, shown, rfl, hsub, hall⟩ := hs
  obtain ⟨texts', shown', rfl, hsub', hall'⟩ := ht
  have hne := texts_ne_nil hts hsub hall
  have hne' := texts_ne_nil hus hsub' hall'
  exact ⟨texts ++ texts', shown ++ shown', (joinSpaced_append hne hne').symm, hsub.append hsub',
    List.rel_append hall hall'⟩

/-- A text that shows no token may stand behind. -/
theorem append_extra {ts : List Token} (hts : ts ≠ []) {s : Text} (hs : ShowsAll p ts s)
    (t : Text) : ShowsAll p ts (s ++ ' ' :: t) := by
  obtain ⟨texts, shown, rfl, hsub, hall⟩ := hs
  have hne := texts_ne_nil hts hsub hall
  refine ⟨texts ++ [t], shown, ?_, hsub.trans (List.sublist_append_left _ _), hall⟩
  rw [joinSpaced_append hne (List.cons_ne_nil _ _), joinSpaced_singleton]

/-- Tokens show in their texts as they are. -/
theorem renderAll (ts : List Token) : ShowsAll p ts (p.renderAll ts) := by
  refine ⟨ts.map p.render, ts.map p.render, rfl, List.Sublist.refl _, ?_⟩
  induction ts with
  | nil => exact .nil
  | cons t ts ih => exact .cons .whole ih

end ShowsAll

/-! ## Values -/

theorem percent_of_beq {t : Token} {u : Text} (h : ∀ c ∈ u, (c == '%') = true) :
    ∀ c ∈ u, isPadding t c := fun c hc => .inl (beq_iff_eq.mp (h c hc))

section Quotes

variable {opening closing : Text}

/-- Behind its first token, a quoted value loses percent signs at its end alone. -/
theorem showsAll_behind (hclosing : closing ∈ [[], [singleQuote], ['%', singleQuote]])
    (hne : closing ≠ []) {vs : List Token} (hvs : vs ≠ []) :
    ShowsAll p vs (doubled (dropEnd (· == '%') (p.renderAllBare vs)) ++ closing) := by
  induction vs with
  | nil => exact absurd rfl hvs
  | cons v vs ih =>
    cases vs with
    | nil =>
      obtain ⟨r, hr, hall⟩ := exists_eq_dropEnd_append (· == '%') (p.renderBare v)
      have hshow : Shows p v ([] ++ doubled (dropEnd (· == '%') (p.renderBare v)) ++ closing) :=
        .quoted [] [] _ r closing hr (percent_of_beq hall) (by simp) hclosing (fun _ => rfl)
          fun h => absurd h hne
      rw [Places.renderAllBare, List.map_singleton, joinSpaced_singleton]
      exact .singleton hshow
    | cons w vs =>
      have hshow : Shows p v ([] ++ doubled (p.renderBare v) ++ []) :=
        .quoted [] [] _ [] [] (by simp) nofun (by simp) (by simp) (fun _ => rfl) fun _ => rfl
      have hbare : p.renderAllBare (v :: w :: vs) =
          p.renderBare v ++ ' ' :: p.renderAllBare (w :: vs) := joinSpaced_cons_cons _ _ _
      have hrest := List.cons_ne_nil w vs
      have := (ShowsAll.singleton hshow).append (List.cons_ne_nil v []) hrest (ih hrest)
      rw [hbare, dropEnd_append_stop _ (by decide), doubled_append, List.append_assoc]
      simpa [doubled, singleQuote] using this

/-- A quoted value shows its tokens. -/
theorem showsAll_quoted (hopening : opening ∈ [[], [singleQuote], [singleQuote, '%']])
    (ho : opening ≠ []) (hclosing : closing ∈ [[], [singleQuote], ['%', singleQuote]])
    (hc : closing ≠ []) {vs : List Token} (hvs : vs ≠ []) :
    ShowsAll p vs (opening ++ doubled (dropEnds (· == '%') (p.renderAllBare vs)) ++ closing) := by
  rcases vs with _ | ⟨v, _ | ⟨w, vs⟩⟩
  · exact absurd rfl hvs
  · obtain ⟨l, r, hlr, hl, hr⟩ := exists_eq_append_dropEnds (· == '%') (p.renderBare v)
    rw [Places.renderAllBare, List.map_singleton, joinSpaced_singleton]
    refine .singleton (.quoted opening l _ r closing hlr (fun c hmem => ?_) hopening hclosing
      (fun h => absurd h ho) fun h => absurd h hc)
    exact (List.mem_append.mp hmem).elim (percent_of_beq hl c) (percent_of_beq hr c)
  · obtain ⟨l, hl⟩ : ∃ l, l = (p.renderBare v).takeWhile (· == '%') := ⟨_, rfl⟩
    have hsplit : p.renderBare v = l ++ (p.renderBare v).dropWhile (· == '%') ++ [] := by
      rw [hl, List.takeWhile_append_dropWhile, List.append_nil]
    have hpadding : ∀ c ∈ l ++ [], isPadding v c := by
      rw [hl, List.append_nil]
      exact percent_of_beq fun c hc => all_of_mem_takeWhile (p := (· == '%')) hc
    have hshow : Shows p v (opening ++ doubled ((p.renderBare v).dropWhile (· == '%')) ++ []) :=
      .quoted opening l _ [] [] hsplit hpadding hopening (by simp) (fun h => absurd h ho)
        fun _ => rfl
    have hrest := List.cons_ne_nil w vs
    have hbehind := showsAll_behind (p := p) hclosing hc hrest
    have hbare : p.renderAllBare (v :: w :: vs) =
        p.renderBare v ++ ' ' :: p.renderAllBare (w :: vs) := joinSpaced_cons_cons _ _ _
    have := (ShowsAll.singleton hshow).append (List.cons_ne_nil v []) hrest hbehind
    rw [hbare, dropEnds, dropWhile_append_stop (by decide), dropEnd_append_stop _ (by decide),
      doubled_append]
    simpa [doubled, singleQuote] using this

/-- A lone literal may also lose quotes at its ends. -/
theorem showsAll_literal (hopening : opening ∈ [[], [singleQuote], [singleQuote, '%']])
    (ho : opening ≠ []) (hclosing : closing ∈ [[], [singleQuote], ['%', singleQuote]])
    (hc : closing ≠ []) {t : Token} {index : Nat} (ht : t.kind = .literal index) :
    ShowsAll p [t] (opening ++ doubled (dropEnds
      (fun x => x == '%' || x == singleQuote || x == doubleQuote) (p.literal index)) ++
        closing) := by
  obtain ⟨l, r, hlr, hl, hr⟩ := exists_eq_append_dropEnds
    (fun x => x == '%' || x == singleQuote || x == doubleQuote) (p.literal index)
  have hpadding : ∀ c, (c == '%' || c == singleQuote || c == doubleQuote) = true →
      isPadding t c := by
    intro c h
    simp only [Bool.or_eq_true, beq_iff_eq, or_assoc] at h
    exact h.imp_right fun h => ⟨⟨index, ht⟩, h⟩
  have hbare : p.renderBare t = p.literal index := by rw [Places.renderBare, ht]
  refine .singleton (.quoted opening l _ r closing (hbare.trans hlr) (fun c hmem => ?_) hopening
    hclosing (fun h => absurd h ho) fun h => absurd h hc)
  exact (List.mem_append.mp hmem).elim (fun h => hpadding c (hl c h)) fun h => hpadding c (hr c h)

end Quotes

end Shows

/-! ## Comparisons -/

namespace Comparison

variable (c : Comparison)

/-- What stands before a quoted value. -/
def opening : Text := if c.isLike then [singleQuote, '%'] else [singleQuote]

/-- What stands behind a quoted value. -/
def closing : Text := if c.isLike then ['%', singleQuote] else [singleQuote]

theorem opening_mem : c.opening ∈ [[], [singleQuote], [singleQuote, '%']] ∧ c.opening ≠ [] := by
  unfold opening
  split <;> simp

theorem closing_mem : c.closing ∈ [[], [singleQuote], ['%', singleQuote]] ∧ c.closing ≠ [] := by
  unfold closing
  split <;> simp

theorem renderValue_eq (p : Places) (options : Options) :
    c.renderValue p options =
      if c.needsQuotes p options then c.opening ++ doubled (c.inner p) ++ c.closing
      else p.renderAll c.value := by
  have hpattern : ∀ u : Text, quoteValue (if c.isLike then '%' :: u ++ ['%'] else u) =
      c.opening ++ doubled u ++ c.closing := by
    intro u
    rw [opening, closing]
    split
    · show singleQuote :: doubled ('%' :: u ++ ['%']) ++ [singleQuote] = _
      rw [doubled_append]
      simp [doubled, singleQuote]
    · rfl
  rw [renderValue, hpattern]

variable {p : Places} {options : Options}

/-- A written value shows the tokens of the value. -/
theorem showsAll_value (hne : c.value ≠ []) : ShowsAll p c.value (c.renderValue p options) := by
  obtain ⟨hopening, ho⟩ := c.opening_mem
  obtain ⟨hclosing, hc⟩ := c.closing_mem
  rw [renderValue_eq]
  split
  · by_cases hlit : ∃ index text offset, c.value = [⟨.literal index, text, offset⟩]
    · obtain ⟨index, text, offset, hvalue⟩ := hlit
      rw [inner, hvalue]
      exact showsAll_literal hopening ho hclosing hc rfl
    · have hinner : c.inner p = dropEnds (· == '%') (p.renderAllBare c.value) := by
        unfold inner
        split
        · next index text offset h => exact absurd ⟨index, text, offset, h⟩ hlit
        · rfl
      rw [hinner]
      exact showsAll_quoted hopening ho hclosing hc hne
  · exact .renderAll c.value

theorem renderValue_ne_nil (hne : c.value ≠ []) (hrender : ∀ t ∈ c.value, p.render t ≠ []) :
    c.renderValue p options ≠ [] := by
  rw [renderValue_eq]
  split
  · have ho := c.opening_mem.2
    simp [ho]
  · obtain ⟨t, ts, hvalue⟩ := List.exists_cons_of_ne_nil hne
    have ht : p.render t ≠ [] := hrender t (hvalue ▸ List.mem_cons_self)
    rw [hvalue, Places.renderAll, List.map_cons]
    cases ts with
    | nil => simpa using ht
    | cons u us => simp [ht]

/-- A written comparison shows its column, its operator and its value. -/
theorem showsAll_render {t u : Token} {value : List Token} (hu : u.isOperator = true)
    (hrender : ∀ v ∈ value, p.render v ≠ []) :
    ShowsAll p (t :: u :: value) (render ⟨p.render t, u.text, value⟩ p options) := by
  have hfront : ShowsAll p ([t] ++ [u]) (p.render t ++ ' ' :: upper u.text) :=
    (ShowsAll.singleton .whole).append (List.cons_ne_nil t []) (List.cons_ne_nil u [])
      (.singleton (.upper (.inl hu)))
  have htu : [t] ++ [u] ≠ [] := List.cons_ne_nil t [u]
  unfold render
  dsimp only
  by_cases hvalue : value = []
  · rw [hvalue]
    split
    · exact hfront
    · exact hfront.append_extra htu _
  · have hshow : ShowsAll p value (renderValue ⟨p.render t, u.text, value⟩ p options) :=
      showsAll_value ⟨_, _, value⟩ hvalue
    have hne : renderValue ⟨p.render t, u.text, value⟩ p options ≠ [] :=
      renderValue_ne_nil ⟨_, _, value⟩ hvalue hrender
    rw [if_neg (by simpa using hne)]
    exact hfront.append htu hvalue hshow

end Comparison

end FilterClause
