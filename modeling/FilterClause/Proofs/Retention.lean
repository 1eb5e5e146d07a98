import FilterClause.Cleaning
import FilterClause.Proofs.Endings
import FilterClause.Proofs.Showing

/-!
# What becomes of the tokens

Every token of a predicate is written, in order, with one exception: a group at the start of a
condition is the whole condition, so what stands behind it up to the next separator is dropped.
-/

namespace FilterClause

open Text

namespace Condition

/-- The tokens of one condition that are written: a leading group is all there is. -/
def keptOf : List Token → List Token
  | [] => []
  | t :: rest => if t.isGroup then [t] else t :: rest

/-- The tokens that are written when the tokens of the first condition so far, given backwards, are
`back`. A separator is written between two conditions. -/
def keptBehind (back : List Token) : List Token → List Token
  | [] => keptOf back.reverse
  | t :: rest =>
    if separates back t rest then keptOf back.reverse ++ t :: keptBehind [] rest
    else keptBehind (t :: back) rest

/-- The tokens of a predicate that are written. -/
def kept (ts : List Token) : List Token := keptBehind [] ts

/-- The tokens from the first separator on when the tokens of the first condition so far, given
backwards, are `back`. -/
def fromSeparator (back : List Token) : List Token → List Token
  | [] => []
  | t :: rest => if separates back t rest then t :: rest else fromSeparator (t :: back) rest

end Condition

/-! ## Conditions -/

theorem Token.spells_of_connective? {t : Token} {k : Connective} (h : t.connective? = some k) :
    sameIgnoringCase t.text k.text = true := by
  unfold connective? at h
  split_ifs at h with hw hand hor
  · cases h
    exact hand
  · cases h
    exact hor

/-- A connective is written in capitals. -/
theorem Token.upper_of_connective? {t : Token} {k : Connective} (h : t.connective? = some k) :
    upper t.text = k.text := by
  rw [upper_of_sameIgnoringCase (spells_of_connective? h) (by cases k <;> decide)]
  cases k <;> decide

namespace Condition

variable {p : Places} {options : Options}

/-- A written condition shows the tokens that are kept of it. -/
theorem showsAll_render {ts : List Token} (hrender : ∀ t ∈ ts, p.render t ≠ []) :
    ShowsAll p (keptOf ts) (render p options ts) := by
  rcases ts with _ | ⟨t, _ | ⟨u, value⟩⟩
  · exact .renderAll []
  · rw [keptOf, ite_self]
    exact .singleton .whole
  · rw [keptOf, render]
    split
    · exact .singleton .whole
    · split
      · next hu =>
        exact Comparison.showsAll_render hu fun v hv =>
          hrender v (List.mem_cons_of_mem _ (List.mem_cons_of_mem _ hv))
      · exact .renderAll _

theorem keptOf_ne_nil {ts : List Token} (h : ts ≠ []) : keptOf ts ≠ [] := by
  cases ts with
  | nil => exact absurd rfl h
  | cons t rest =>
    rw [keptOf]
    split <;> exact List.cons_ne_nil _ _

theorem keptBehind_ne_nil {back ts : List Token} (h : back ≠ [] ∨ ts ≠ []) :
    keptBehind back ts ≠ [] := by
  induction ts generalizing back with
  | nil => exact keptOf_ne_nil (by simpa using h)
  | cons t rest ih =>
    unfold keptBehind
    split
    · simp
    · exact ih (.inl (List.cons_ne_nil t back))

theorem kept_cons (t : Token) (rest : List Token) : kept (t :: rest) = keptBehind [t] rest := by
  rw [kept, keptBehind, separates_nil, if_neg Bool.false_ne_true]

/-- Written conditions show the tokens that are kept. -/
theorem showsAll_splitBehind {back ts : List Token} (hback : ∀ t ∈ back, p.render t ≠ [])
    (hts : ∀ t ∈ ts, p.render t ≠ []) :
    ShowsAll p (keptBehind back ts) ((splitBehind back ts).map (render p options)).text := by
  have hreverse : ∀ {us : List Token}, (∀ t ∈ us, p.render t ≠ []) →
      ∀ t ∈ us.reverse, p.render t ≠ [] := fun h t ht => h t (List.mem_reverse.mp ht)
  induction ts generalizing back with
  | nil =>
    show ShowsAll p (keptOf back.reverse) (joinSpaced [render p options back.reverse])
    rw [joinSpaced_singleton]
    exact showsAll_render (hreverse hback)
  | cons t rest ih =>
    obtain ⟨ht, hrest⟩ := List.forall_mem_cons.mp hts
    unfold keptBehind
    cases hsep : separates back t rest with
    | false =>
      rw [splitBehind_cons_of_not hsep]
      exact ih (List.forall_mem_cons.mpr ⟨ht, hback⟩) hrest
    | true =>
      obtain ⟨⟨k, hk⟩, hb, hr⟩ := of_separates hsep
      have hfirst : ShowsAll p (keptOf back.reverse) (render p options back.reverse) :=
        showsAll_render (hreverse hback)
      have hword : ShowsAll p [t] k.text := by
        rw [← Token.upper_of_connective? hk]
        exact .singleton (.upper (.inr (by rw [hk, Option.isSome_some])))
      have hlater : ShowsAll p (keptBehind [] rest)
          ((splitBehind [] rest).map (render p options)).text := ih nofun hrest
      have hne := keptOf_ne_nil (List.reverse_ne_nil_iff.mpr hb)
      have hsep' := (hword.append (List.cons_ne_nil t []) (keptBehind_ne_nil (.inr hr)) hlater)
      have := hfirst.append hne (List.cons_ne_nil t _) hsep'
      rw [splitBehind_cons hk hsep, if_pos rfl]
      unfold Chain.text at this
      simpa [Chain.map, Chain.text] using this

/-! ## The tokens that are kept -/

theorem keptOf_sublist (ts : List Token) : (keptOf ts).Sublist ts := by
  cases ts with
  | nil => exact List.Sublist.refl _
  | cons t rest =>
    rw [keptOf]
    split
    · exact (List.nil_sublist rest).cons_cons t
    · exact List.Sublist.refl _

theorem keptBehind_sublist (back ts : List Token) :
    (keptBehind back ts).Sublist (back.reverse ++ ts) := by
  induction ts generalizing back with
  | nil =>
    rw [keptBehind, List.append_nil]
    exact keptOf_sublist back.reverse
  | cons t rest ih =>
    unfold keptBehind
    split
    · exact (keptOf_sublist _).append ((ih []).cons_cons t)
    · simpa using ih (t :: back)

/-- A condition whose leading group is alone is kept whole. -/
theorem keptOf_eq_self {ts : List Token}
    (h : ∀ g rest, ts = g :: rest → g.isGroup = true → rest = []) : keptOf ts = ts := by
  cases ts with
  | nil => rfl
  | cons t rest =>
    rw [keptOf]
    split
    · next ht => rw [h t rest rfl ht]
    · rfl

theorem keptBehind_eq {back ts : List Token}
    (h : ∀ c ∈ (splitBehind back ts).things, keptOf c = c) :
    keptBehind back ts = back.reverse ++ ts := by
  induction ts generalizing back with
  | nil =>
    rw [List.append_nil]
    exact h back.reverse List.mem_cons_self
  | cons t rest ih =>
    unfold keptBehind
    cases hsep : separates back t rest with
    | false =>
      rw [splitBehind_cons_of_not hsep] at h
      simpa using ih h
    | true =>
      obtain ⟨k, hk⟩ := (of_separates hsep).1
      rw [splitBehind_cons hk hsep] at h
      have hfirst : keptOf back.reverse = back.reverse := h _ List.mem_cons_self
      have hrest : keptBehind [] rest = [].reverse ++ rest :=
        ih fun c hc => h c (List.mem_cons_of_mem _ hc)
      rw [if_pos rfl, hfirst, hrest]
      rfl

theorem keptOf_eq_iff {ts : List Token} :
    keptOf ts = ts ↔ ∀ g ∈ ts.head?, g.isGroup = true → ts = [g] := by
  cases ts with
  | nil => exact ⟨nofun, fun _ => rfl⟩
  | cons t rest =>
    rw [keptOf]
    constructor
    · rintro h g ⟨⟩ hg
      rw [if_pos hg] at h
      exact h.symm
    · intro h
      by_cases ht : t.isGroup = true
      · rw [if_pos ht, h t rfl ht]
      · rw [if_neg ht]

/-- Tokens are all kept only if every condition is kept whole. -/
theorem keptOf_of_keptBehind_eq {back ts : List Token}
    (h : keptBehind back ts = back.reverse ++ ts) :
    ∀ c ∈ (splitBehind back ts).things, keptOf c = c := by
  induction ts generalizing back with
  | nil =>
    rw [List.append_nil] at h
    exact List.forall_mem_singleton.mpr h
  | cons t rest ih =>
    unfold keptBehind at h
    cases hsep : separates back t rest with
    | false =>
      rw [hsep, if_neg Bool.false_ne_true] at h
      rw [splitBehind_cons_of_not hsep]
      exact ih (by simpa using h)
    | true =>
      obtain ⟨k, hk⟩ := (of_separates hsep).1
      rw [hsep, if_pos rfl] at h
      have hlen := congrArg List.length h
      rw [List.length_append, List.length_append, List.length_cons, List.length_cons] at hlen
      have hfirst := (keptOf_sublist back.reverse).length_le
      have hrest : (keptBehind [] rest).length ≤ rest.length :=
        (keptBehind_sublist [] rest).length_le
      have heq := (keptOf_sublist back.reverse).eq_of_length (by omega)
      rw [heq] at h
      rw [splitBehind_cons hk hsep]
      exact List.forall_mem_cons.mpr
        ⟨heq, ih (List.cons.inj (List.append_cancel_left h)).2⟩

/-- Tokens are written with nothing left out exactly if a group that starts a condition is all of
it. -/
theorem map_keptBehind_eq_iff {α : Type} (f : Token → α) {ts : List Token} :
    (keptBehind [] ts).map f = ts.map f ↔
      ∀ c ∈ (splitBehind [] ts).things, ∀ g ∈ c.head?, g.isGroup = true → c = [g] := by
  constructor
  · intro h c hc
    have hlen : (keptBehind [] ts).length = ts.length := by simpa using congrArg List.length h
    have hall : keptBehind [] ts = ts := (keptBehind_sublist [] ts).eq_of_length hlen
    exact keptOf_eq_iff.mp (keptOf_of_keptBehind_eq hall c hc)
  · intro h
    rw [keptBehind_eq fun c hc => keptOf_eq_iff.mpr (h c hc)]
    rfl

/-! ## A leading group -/

section Group

variable {g : Token} (hg : g.isGroup = true)

include hg

theorem separates_group (t : Token) (rest : List Token) :
    separates [g] t rest = (t.connective?.isSome && startsHere rest) := by
  rw [separates, isLeftSide, hg, Bool.and_true]

theorem kept_group_cons {t : Token} {rest : List Token} (h : separates [g] t rest = true) :
    kept (g :: t :: rest) = g :: t :: kept rest := by
  rw [kept_cons, keptBehind, h, if_pos rfl]
  show keptOf [g] ++ t :: kept rest = g :: t :: kept rest
  rw [keptOf, hg, if_pos rfl, List.singleton_append]

theorem renderAll_group_cons (p : Places) (options : Options) {t : Token} {k : Connective}
    (hk : t.connective? = some k) {rest : List Token} (h : startsHere rest = true) :
    renderAll p options (g :: t :: rest) =
      p.render g ++ ' ' :: k.text ++ ' ' :: renderAll p options rest := by
  have hleft : isLeftSide (lastPart [g]) = true := by
    rw [lastPart, splitBehind_cons_of_not (separates_nil g [])]
    exact hg
  have := renderAll_append p options hk hleft h
  rwa [renderAll_singleton] at this

variable {back : List Token} {behind : List Token} (hback : back.reverse = g :: behind)

include hback

/-- What stands between a leading group and the next separator is not kept. -/
theorem keptBehind_group (ts : List Token) :
    keptBehind back ts = kept (g :: fromSeparator back ts) := by
  induction ts generalizing back behind with
  | nil =>
    rw [keptBehind, fromSeparator, kept_cons, keptBehind, hback]
    show keptOf (g :: behind) = keptOf [g]
    rw [keptOf, keptOf, hg, if_pos rfl, if_pos rfl]
  | cons t rest ih =>
    rw [keptBehind, fromSeparator]
    split
    · next hsep =>
      have hgsep : separates [g] t rest = true := by
        rw [separates_group hg]
        simp only [separates, Bool.and_eq_true] at hsep ⊢
        exact ⟨hsep.1.1, hsep.2⟩
      rw [kept_group_cons hg hgsep, hback, keptOf, hg, if_pos rfl]
      rfl
    · have hback' : (t :: back).reverse = g :: (behind ++ [t]) := by simp [hback]
      exact ih hback'

/-- What stands between a leading group and the next separator is not written. -/
theorem text_splitBehind_group (p : Places) (options : Options) (ts : List Token) :
    ((splitBehind back ts).map (render p options)).text =
      renderAll p options (g :: fromSeparator back ts) := by
  have hgroup : ∀ us : List Token, render p options (g :: us) = p.render g := by
    rintro (_ | ⟨u, us⟩)
    · rfl
    · rw [render, hg, if_pos rfl]
  induction ts generalizing back behind with
  | nil =>
    rw [splitBehind, fromSeparator, renderAll_singleton, hback, Chain.map, hgroup]
    exact joinSpaced_singleton _
  | cons t rest ih =>
    unfold fromSeparator
    cases hsep : separates back t rest with
    | true =>
      obtain ⟨k, hk⟩ := (of_separates hsep).1
      have hstart : startsHere rest = true := by
        simp only [separates, Bool.and_eq_true] at hsep
        exact hsep.2
      rw [splitBehind_cons hk hsep, if_pos rfl, renderAll_group_cons hg p options hk hstart,
        renderAll_eq, hback]
      simp [Chain.map, Chain.text, hgroup]
    | false =>
      rw [splitBehind_cons_of_not hsep, if_neg Bool.false_ne_true]
      have hback' : (t :: back).reverse = g :: (behind ++ [t]) := by simp [hback]
      exact ih hback'

end Group

end Condition

/-! ## Predicates -/

namespace Cleaned

variable (literals : List Text) (options : Options) (interior : List Item → Cleaned)
  (items : List Item)

/-- No token of a predicate is written as nothing. -/
theorem render_ne_nil {t : Token} (h : t ∈ tokensOf literals items) :
    (placesOf literals interior items).render t ≠ [] :=
  (reads_tokensOf literals interior h).solid.ne_nil

open Condition in
/-- A cleaned predicate shows its tokens in order, except what stands behind a leading group of a
condition: that is dropped up to the next separator. So a connective behind a leading group keeps
what follows it exactly if a condition starts there. -/
theorem predicate_retains :
    ShowsAll (placesOf literals interior items) (kept (tokensOf literals items))
      (predicate literals options interior items).text ∧
    (kept (tokensOf literals items)).Sublist (tokensOf literals items) ∧
    ((∀ c ∈ (splitBehind [] (tokensOf literals items)).things,
        ∀ g rest, c = g :: rest → g.isGroup = true → rest = []) →
      kept (tokensOf literals items) = tokensOf literals items) ∧
    ∀ g t k us, tokensOf literals items = g :: t :: us → g.isGroup = true →
      t.connective? = some k →
      if startsHere us then
        kept (tokensOf literals items) = g :: t :: kept us ∧
        (predicate literals options interior items).text =
          (placesOf literals interior items).render g ++ ' ' :: k.text ++
            ' ' :: renderAll (placesOf literals interior items) options us
      else
        kept (tokensOf literals items) = kept (g :: fromSeparator [t, g] us) ∧
        (predicate literals options interior items).text =
          renderAll (placesOf literals interior items) options
            (g :: fromSeparator [t, g] us) := by
  have htext : (predicate literals options interior items).text =
      renderAll (placesOf literals interior items) options (tokensOf literals items) := by
    rw [predicate_eq]
  refine ⟨?_, keptBehind_sublist [] _, fun h => ?_, fun g t k us hts hg hk => ?_⟩
  · rw [htext, renderAll_eq]
    exact showsAll_splitBehind nofun fun t ht => render_ne_nil literals interior items ht
  · exact keptBehind_eq fun c hc => keptOf_eq_self (h c hc)
  · have hsep : separates [g] t us = startsHere us := by
      rw [separates_group hg, hk, Option.isSome_some, Bool.true_and]
    rw [htext, hts]
    cases hstart : startsHere us with
    | true =>
      rw [if_pos rfl]
      exact ⟨kept_group_cons hg (hsep.trans hstart), renderAll_group_cons hg _ options hk hstart⟩
    | false =>
      rw [if_neg Bool.false_ne_true]
      have hback : [t, g].reverse = g :: [t] := rfl
      constructor
      · rw [kept_cons, keptBehind, hsep, hstart, if_neg Bool.false_ne_true]
        exact keptBehind_group hg hback us
      · rw [renderAll_eq, splitBehind_cons_of_not (separates_nil g _),
          splitBehind_cons_of_not (hsep.trans hstart)]
        exact text_splitBehind_group hg hback _ options us

/-- Not every token shows: behind a group, a comparison under NOT is dropped. -/
theorem predicate_drops_behind_group :
    cleanClause "(A = 1) AND NOT B = 2".toList = "(A = '1')".toList ∧
    ¬ ∀ (literals : List Text) (options : Options) (interior : List Item → Cleaned)
        (items : List Item),
      ShowsAll (placesOf literals interior items) (tokensOf literals items)
        (predicate literals options interior items).text := by
  refine ⟨by decide +kernel, fun h => ?_⟩
  obtain ⟨texts, shown, htext, hsub, hall⟩ := h [] Options.standard
    (group [] Options.standard maxNesting) ("(A = 1) AND NOT B = 2".toList.map .char)
  -- six tokens would show in six texts, which takes more spaces than there are
  have htokens : (tokensOf [] ("(A = 1) AND NOT B = 2".toList.map .char)).length = 6 := by
    decide +kernel
  have hspaces : ((predicate [] Options.standard (group [] Options.standard maxNesting)
      ("(A = 1) AND NOT B = 2".toList.map .char)).text.count ' ') = 2 := by decide +kernel
  have hlength := hall.length_eq
  have hle := hsub.length_le
  have hcount := length_le_count_joinSpaced texts
  rw [← htext, hspaces] at hcount
  omega

/-- A comparison behind a group shows, and so does what follows it. -/
theorem predicate_retains_comparison :
    (predicate [] Options.standard (group [] Options.standard maxNesting)
      ("(A = 1) or B < 2".toList.map .char)).text = "(A = '1') OR B < 2".toList := by
  obtain ⟨-, -, -, h⟩ := predicate_retains [] Options.standard
    (group [] Options.standard maxNesting) ("(A = 1) or B < 2".toList.map .char)
  have hgroup := h ⟨.group 0, [], 0⟩ ⟨.word, "or".toList, 1⟩ .or
    [⟨.word, ['B'], 4⟩, ⟨.operator, ['<'], 6⟩, ⟨.word, ['2'], 8⟩]
    (by decide +kernel) rfl (by decide)
  rw [if_pos (by decide)] at hgroup
  rw [hgroup.2]
  decide +kernel

end Cleaned

end FilterClause
