import FilterClause.Clause.Condition
import FilterClause.Proofs.Lexemes

/-!
# Conditions of a token list

How tokens fall into conditions, and how the conditions are written, depends on their lexemes
alone. Where a connective separates, the tokens before and behind it are split and written as if
the others were not there.
-/

namespace FilterClause

open Text

namespace Lexeme

/-! ## What a lexeme tells of its token -/

def isGroup : Lexeme → Bool
  | .group _ => true
  | _ => false

def isWord : Lexeme → Bool
  | .word _ => true
  | _ => false

def isOperator : Lexeme → Bool
  | .operator _ => true
  | _ => false

/-- The connective that a word spells. -/
def connective? : Lexeme → Option Connective
  | .word t => Token.connective? ⟨.word, t, 0⟩
  | _ => none

/-- A lexeme as text, a literal between single quotes and a group between brackets. -/
def render : Lexeme → Text
  | .operator t | .word t | .call t => t
  | .literal content => singleQuote :: content ++ [singleQuote]
  | .group t => '(' :: t ++ [')']

/-- A lexeme as text, a literal without its quotes. -/
def renderBare : Lexeme → Text
  | .literal content => content
  | l => l.render

/-- Whether a value is one call. -/
def isLoneCall : List Lexeme → Bool
  | [.call _] => true
  | _ => false

/-- What stands between the quotes of a quoted value. -/
def inner : List Lexeme → Text
  | [.literal content] =>
    dropEnds (fun x => x == '%' || x == singleQuote || x == doubleQuote) content
  | ls => dropEnds (· == '%') (joinSpaced (ls.map renderBare))

end Lexeme

/-- The conditions of a token list, written one after the other. -/
theorem Condition.renderAll_eq (places : Places) (options : Options) (ts : List Token) :
    renderAll places options ts =
      ((splitBehind [] ts).map (render places options)).text := by
  cases ts with
  | nil => rfl
  | cons t ts => rfl

section Fill

variable (p : Places) (t : Token)

theorem isGroup_fill : (p.fill t).isGroup = t.isGroup := by
  obtain ⟨kind, text, offset⟩ := t
  cases kind <;> rfl

theorem isWord_fill : (p.fill t).isWord = t.isWord := by
  obtain ⟨kind, text, offset⟩ := t
  cases kind <;> rfl

theorem isOperator_fill : (p.fill t).isOperator = t.isOperator := by
  obtain ⟨kind, text, offset⟩ := t
  cases kind <;> rfl

theorem connective?_fill : (p.fill t).connective? = t.connective? := by
  obtain ⟨kind, text, offset⟩ := t
  cases kind <;> rfl

theorem render_fill : (p.fill t).render = p.render t := by
  obtain ⟨kind, text, offset⟩ := t
  cases kind <;> rfl

theorem renderBare_fill : (p.fill t).renderBare = p.renderBare t := by
  obtain ⟨kind, text, offset⟩ := t
  cases kind <;> rfl

theorem renderAll_fill (ts : List Token) :
    p.renderAll ts = joinSpaced ((ts.map p.fill).map Lexeme.render) := by
  rw [Places.renderAll, List.map_map]
  exact congrArg joinSpaced (List.map_congr_left fun t _ => (render_fill p t).symm)

theorem renderAllBare_fill (ts : List Token) :
    p.renderAllBare ts = joinSpaced ((ts.map p.fill).map Lexeme.renderBare) := by
  rw [Places.renderAllBare, List.map_map]
  exact congrArg joinSpaced (List.map_congr_left fun t _ => (renderBare_fill p t).symm)

theorem fill_of_isOperator {p : Places} {t : Token} (h : t.isOperator = true) :
    p.fill t = .operator t.text := by
  obtain ⟨kind, text, offset⟩ := t
  obtain rfl : kind = .operator := by simpa [Token.isOperator] using h
  rfl

theorem isLoneCall_fill (c : Comparison) : Lexeme.isLoneCall (c.value.map p.fill) = c.isCall := by
  obtain ⟨column, operator, value⟩ := c
  rcases value with _ | ⟨⟨kind, text, offset⟩, _ | ⟨t', ts⟩⟩
  · rfl
  · cases kind <;> rfl
  · cases hfill : p.fill ⟨kind, text, offset⟩ <;> simp [hfill, Lexeme.isLoneCall, Comparison.isCall]

theorem inner_fill (c : Comparison) : Lexeme.inner (c.value.map p.fill) = c.inner p := by
  obtain ⟨column, operator, value⟩ := c
  have hbare := renderAllBare_fill p value
  rcases value with _ | ⟨⟨kind, text, offset⟩, _ | ⟨t', ts⟩⟩
  · rfl
  · cases kind <;> rfl
  · rw [Comparison.inner, hbare]
    · cases hfill : p.fill ⟨kind, text, offset⟩ <;> simp [hfill, Lexeme.inner]

end Fill

/-! ## Tokens with the same lexemes -/

section Congruence

variable {p q : Places}

theorem isLeftSide_congr {ts us : List Token} (h : ts.map p.fill = us.map q.fill) :
    Condition.isLeftSide ts = Condition.isLeftSide us := by
  rcases ts with _ | ⟨t, _ | ⟨t', ts⟩⟩ <;> rcases us with _ | ⟨u, _ | ⟨u', us⟩⟩ <;>
    simp only [List.map_nil, List.map_cons, List.cons.injEq, reduceCtorEq, and_false] at h
  · rfl
  · rw [Condition.isLeftSide, Condition.isLeftSide, ← isGroup_fill p, h.1, isGroup_fill]
  · rfl

theorem startsHere_congr {ts us : List Token} (h : ts.map p.fill = us.map q.fill) :
    Condition.startsHere ts = Condition.startsHere us := by
  rcases ts with _ | ⟨t, _ | ⟨t', ts⟩⟩ <;> rcases us with _ | ⟨u, _ | ⟨u', us⟩⟩ <;>
    simp only [List.map_nil, List.map_cons, List.cons.injEq, reduceCtorEq, and_false] at h
  · rfl
  · rw [Condition.startsHere, Condition.startsHere, ← isGroup_fill p, h.1, isGroup_fill]
  · obtain ⟨h₁, h₂, -⟩ := h
    rw [Condition.startsHere, Condition.startsHere, ← isGroup_fill p, ← isWord_fill p,
      ← isOperator_fill p, h₁, h₂, isGroup_fill, isWord_fill, isOperator_fill]

/-- Splitting sees nothing but lexemes. -/
theorem splitBehind_congr {back back' ts us : List Token}
    (hback : back.map p.fill = back'.map q.fill) (h : ts.map p.fill = us.map q.fill) :
    (Condition.splitBehind back ts).map (List.map p.fill) =
      (Condition.splitBehind back' us).map (List.map q.fill) := by
  induction ts generalizing back back' us with
  | nil =>
    obtain rfl := List.map_eq_nil_iff.mp h.symm
    simp [Condition.splitBehind, Chain.map, hback]
  | cons t ts ih =>
    cases us with
    | nil => cases h
    | cons u us =>
      rw [List.map_cons, List.map_cons, List.cons.injEq] at h
      have hk : t.connective? = u.connective? := by
        rw [← connective?_fill p, h.1, connective?_fill]
      have hcons : (t :: back).map p.fill = (u :: back').map q.fill := by
        rw [List.map_cons, List.map_cons, h.1, hback]
      rw [Condition.splitBehind, Condition.splitBehind, hk, isLeftSide_congr hback,
        startsHere_congr h.2]
      cases u.connective? with
      | none => exact ih hcons h.2
      | some k =>
        dsimp only
        split
        · have := ih (show List.map p.fill [] = List.map q.fill [] from rfl) h.2
          simp only [Chain.map, Chain.mk.injEq] at this
          simp [Chain.map, this, hback]
        · exact ih hcons h.2

theorem comparison_render_congr {c d : Comparison} (hcol : c.column = d.column)
    (hop : c.operator = d.operator) (h : c.value.map p.fill = d.value.map q.fill)
    (options : Options) : c.render p options = d.render q options := by
  have hall : p.renderAll c.value = q.renderAll d.value := by
    rw [renderAll_fill, h, renderAll_fill]
  have hbare : p.renderAllBare c.value = q.renderAllBare d.value := by
    rw [renderAllBare_fill, h, renderAllBare_fill]
  have hcall : c.isCall = d.isCall := by
    rw [← isLoneCall_fill p, h, isLoneCall_fill]
  have hinner : c.inner p = d.inner q := by
    rw [← inner_fill p, h, inner_fill]
  have hquotes : c.needsQuotes p options = d.needsQuotes q options := by
    rw [Comparison.needsQuotes, Comparison.needsQuotes, hcall, Comparison.isRange,
      Comparison.isRange, hop, hcol, hall]
  have hvalue : c.renderValue p options = d.renderValue q options := by
    rw [Comparison.renderValue, Comparison.renderValue, hquotes, hinner, hall, Comparison.isLike,
      Comparison.isLike, hop]
  rw [Comparison.render, Comparison.render, hvalue, hcol, hop]

theorem condition_render_congr {ts us : List Token} (h : ts.map p.fill = us.map q.fill)
    (options : Options) : Condition.render p options ts = Condition.render q options us := by
  rcases ts with _ | ⟨t, _ | ⟨t', ts⟩⟩ <;> rcases us with _ | ⟨u, _ | ⟨u', us⟩⟩ <;>
    simp only [List.map_nil, List.map_cons, List.cons.injEq, reduceCtorEq, and_false] at h
  · rfl
  · rw [Condition.render, Condition.render, ← render_fill, h.1, render_fill]
  · obtain ⟨h₁, h₂, hv⟩ := h
    have hfirst : p.render t = q.render u := by rw [← render_fill, h₁, render_fill]
    have hgroup : t.isGroup = u.isGroup := by rw [← isGroup_fill p, h₁, isGroup_fill]
    have hop : t'.isOperator = u'.isOperator := by rw [← isOperator_fill p, h₂, isOperator_fill]
    rw [Condition.render, Condition.render, hgroup, hop, hfirst]
    split
    · rfl
    · split
      · next hu =>
        have htext : t'.text = u'.text := by
          rw [fill_of_isOperator (hop.trans hu), fill_of_isOperator hu] at h₂
          exact Lexeme.operator.inj h₂
        exact comparison_render_congr (c := ⟨_, _, ts⟩) (d := ⟨_, _, us⟩) rfl htext hv options
      · rw [renderAll_fill, renderAll_fill]
        simp [h₁, h₂, hv]

/-- Chains that agree after one change of their things agree after any coarser one. -/
theorem Chain.map_eq_map {α β γ δ : Type} {f : α → γ} {g : β → γ} {f' : α → δ} {g' : β → δ}
    (hfg : ∀ a b, f a = g b → f' a = g' b) {c : Chain α} {d : Chain β} (h : c.map f = d.map g) :
    c.map f' = d.map g' := by
  obtain ⟨a, as⟩ := c
  obtain ⟨b, bs⟩ := d
  simp only [Chain.map, Chain.mk.injEq] at h ⊢
  refine ⟨hfg a b h.1, ?_⟩
  have hrest := h.2
  clear h
  induction as generalizing bs with
  | nil => rw [List.map_eq_nil_iff.mp hrest.symm, List.map_nil, List.map_nil]
  | cons x as ih =>
    cases bs with
    | nil => cases hrest
    | cons y bs =>
      rw [List.map_cons, List.map_cons, List.cons.injEq, Prod.mk.injEq] at hrest
      obtain ⟨⟨hk, hxy⟩, hrest⟩ := hrest
      rw [List.map_cons, List.map_cons, ih bs hrest, hk, hfg _ _ hxy]

/-- Conditions are written by their lexemes alone. -/
theorem condition_renderAll_congr {ts us : List Token} (h : ts.map p.fill = us.map q.fill)
    (options : Options) : Condition.renderAll p options ts = Condition.renderAll q options us := by
  have hsplit := splitBehind_congr (show List.map p.fill [] = List.map q.fill [] from rfl) h
  rw [Condition.renderAll_eq, Condition.renderAll_eq]
  exact congrArg Chain.text
    (Chain.map_eq_map (fun a b hab => condition_render_congr hab options) hsplit)

end Congruence

/-! ## Joined conditions -/

namespace Chain

variable {α β : Type}

/-- The things of a chain, in order. -/
def things (c : Chain α) : List α := c.first :: c.rest.map Prod.snd

/-- The last of the things. -/
def last (c : Chain α) : α := (c.rest.getLast?.map Prod.snd).getD c.first

/-- Two chains joined by a connective. -/
def append (c : Chain α) (k : Connective) (d : Chain α) : Chain α :=
  ⟨c.first, c.rest ++ (k, d.first) :: d.rest⟩

theorem last_cons (a : α) (k : Connective) (c : Chain α) :
    last ⟨a, (k, c.first) :: c.rest⟩ = c.last := by
  obtain ⟨b, rest⟩ := c
  cases rest with
  | nil => rfl
  | cons x rest =>
    rw [last, last, List.getLast?_cons_cons]
    cases h : (x :: rest).getLast? with
    | none => simp at h
    | some y => rfl

theorem map_append (f : α → β) (c d : Chain α) (k : Connective) :
    (c.append k d).map f = (c.map f).append k (d.map f) := by
  simp [append, map]

theorem last_mem_things (c : Chain α) : c.last ∈ c.things := by
  obtain ⟨a, rest⟩ := c
  rw [last, things]
  cases h : rest.getLast? with
  | none => exact List.mem_cons_self
  | some x => exact List.mem_cons_of_mem _ (List.mem_map_of_mem (List.mem_of_getLast? h))

theorem things_map (f : α → β) (c : Chain α) : (c.map f).things = c.things.map f := by
  simp [things, map]

theorem last_map (f : α → β) (c : Chain α) : (c.map f).last = f c.last := by
  obtain ⟨a, rest⟩ := c
  rw [last, last, map, List.getLast?_map]
  cases rest.getLast? <;> rfl

theorem text_append (c d : Chain Text) (k : Connective) :
    (c.append k d).text = c.text ++ ' ' :: k.text ++ ' ' :: d.text := by
  obtain ⟨a, as⟩ := c
  obtain ⟨b, bs⟩ := d
  rw [text, append, List.flatMap_append, List.flatMap_cons, ← List.cons_append,
    joinSpaced_append (by simp) (by simp), text, text, List.cons_append, List.cons_append,
    List.nil_append, joinSpaced_cons_cons, List.append_assoc, List.cons_append]

end Chain

namespace Condition

/-- Whether a token behind others, given backwards, separates them from the tokens after it. -/
def separates (back : List Token) (t : Token) (rest : List Token) : Bool :=
  t.connective?.isSome && isLeftSide back && startsHere rest

/-- Where a token separates, there is a connective, and tokens stand before and behind it. -/
theorem of_separates {back rest : List Token} {t : Token} (h : separates back t rest = true) :
    (∃ k, t.connective? = some k) ∧ back ≠ [] ∧ rest ≠ [] := by
  rw [separates, Bool.and_eq_true, Bool.and_eq_true] at h
  obtain ⟨⟨hk, hleft⟩, hstart⟩ := h
  refine ⟨Option.isSome_iff_exists.mp hk, ?_, ?_⟩
  · rintro rfl
    cases hleft
  · rintro rfl
    cases hstart

theorem splitBehind_cons {back rest : List Token} {t : Token} {k : Connective}
    (hk : t.connective? = some k) (h : separates back t rest = true) :
    splitBehind back (t :: rest) =
      ⟨back.reverse, (k, (splitBehind [] rest).first) :: (splitBehind [] rest).rest⟩ := by
  rw [separates, hk, Option.isSome_some, Bool.true_and] at h
  rw [splitBehind, hk]
  exact if_pos h

theorem splitBehind_cons_of_not {back rest : List Token} {t : Token}
    (h : separates back t rest = false) :
    splitBehind back (t :: rest) = splitBehind (t :: back) rest := by
  rw [splitBehind]
  cases hk : t.connective? with
  | none => rfl
  | some k =>
    rw [separates, hk, Option.isSome_some, Bool.true_and] at h
    dsimp only
    rw [h, if_neg Bool.false_ne_true]

/-- The parts between connectives that separate are made of the tokens, and none is empty. -/
theorem of_mem_things {back ts part : List Token} (h : part ∈ (splitBehind back ts).things) :
    part ⊆ back ++ ts ∧ (back ++ ts ≠ [] → part ≠ []) := by
  induction ts generalizing back with
  | nil =>
    rw [splitBehind, Chain.things, List.map_nil, List.mem_singleton] at h
    rw [h, List.append_nil]
    exact ⟨(List.reverse_perm back).subset, fun hne => List.reverse_ne_nil_iff.mpr hne⟩
  | cons t ts ih =>
    cases hsep : separates back t ts with
    | false =>
      rw [splitBehind_cons_of_not hsep] at h
      obtain ⟨hsub, hne⟩ := ih h
      exact ⟨List.Subset.trans hsub List.perm_middle.symm.subset, fun _ => hne (by simp)⟩
    | true =>
      obtain ⟨⟨k, hk⟩, hback, hts⟩ := of_separates hsep
      rw [splitBehind_cons hk hsep, Chain.things, List.map_cons, List.mem_cons] at h
      rcases h with rfl | h
      · exact ⟨List.Subset.trans (List.reverse_perm back).subset (List.subset_append_left _ _),
          fun _ => List.reverse_ne_nil_iff.mpr hback⟩
      · obtain ⟨hsub, hne⟩ := ih h
        exact ⟨fun u hu => List.mem_append_right _ (List.mem_cons_of_mem _ (hsub hu)),
          fun _ => hne (by simpa using hts)⟩

theorem separates_nil (t : Token) (rest : List Token) : separates [] t rest = false := by
  rw [separates, isLeftSide, Bool.and_false, Bool.false_and]

theorem renderAll_singleton (p : Places) (options : Options) (t : Token) :
    renderAll p options [t] = p.render t := by
  rw [renderAll_eq, splitBehind_cons_of_not (separates_nil t [])]
  exact joinSpaced_singleton _

/-- The tokens behind the last connective that separates. -/
def lastPart (ts : List Token) : List Token := (splitBehind [] ts).last

theorem lastPart_subset (ts : List Token) : lastPart ts ⊆ ts :=
  (of_mem_things (Chain.last_mem_things _)).1

theorem lastPart_ne_nil {ts : List Token} (h : ts ≠ []) : lastPart ts ≠ [] :=
  (of_mem_things (Chain.last_mem_things _)).2 h

theorem isWord_of_connective? {t : Token} {k : Connective} (h : t.connective? = some k) :
    t.isWord = true := by
  cases hw : t.isWord with
  | true => rfl
  | false => simp [Token.connective?, hw] at h

theorem isOperator_of_isWord {t : Token} (h : t.isWord = true) : t.isOperator = false := by
  obtain ⟨kind, text, offset⟩ := t
  cases kind <;> first | rfl | cases h

theorem isGroup_of_isWord {t : Token} (h : t.isWord = true) : t.isGroup = false := by
  obtain ⟨kind, text, offset⟩ := t
  cases kind <;> first | rfl | cases h

theorem isOperator_of_isGroup {t : Token} (h : t.isGroup = true) : t.isOperator = false := by
  obtain ⟨kind, text, offset⟩ := t
  cases kind <;> first | rfl | cases h

/-- Where a condition starts there is no operator. -/
theorem head_not_operator {ts : List Token} (h : startsHere ts = true) :
    ∀ t ∈ ts.head?, t.isOperator = false := by
  rcases ts with _ | ⟨t, _ | ⟨u, ts⟩⟩ <;> intro v hv
  · cases hv
  · obtain rfl : t = v := by simpa using hv
    exact isOperator_of_isGroup h
  · obtain rfl : t = v := by simpa using hv
    simp only [startsHere, Bool.or_eq_true, Bool.and_eq_true] at h
    rcases h with ⟨hw, -⟩ | hg
    · exact isOperator_of_isWord hw
    · exact isOperator_of_isGroup hg

/-- A connective before the start of a condition completes no start of a condition. -/
theorem startsHere_append {t : Token} (ht : t.isWord = true) {us : List Token}
    (hus : startsHere us = true) (ts : List Token) :
    startsHere (ts ++ t :: us) = startsHere ts := by
  rcases ts with _ | ⟨x, _ | ⟨y, ts⟩⟩
  · rcases us with _ | ⟨u, us⟩
    · cases hus
    · have hu : u.isOperator = false := head_not_operator hus u rfl
      show (t.isWord && u.isOperator || t.isGroup) = false
      rw [hu, Bool.and_false, Bool.false_or, isGroup_of_isWord ht]
  · show (x.isWord && t.isOperator || x.isGroup) = x.isGroup
    rw [isOperator_of_isWord ht, Bool.and_false, Bool.false_or]
  · rfl

/-- Where no token is a connective, nothing separates. -/
theorem splitBehind_of_no_connective {back ts : List Token}
    (h : ∀ t ∈ ts, t.connective? = none) : splitBehind back ts = ⟨back.reverse ++ ts, []⟩ := by
  induction ts generalizing back with
  | nil => rw [splitBehind, List.append_nil]
  | cons t ts ih =>
    rw [splitBehind, h t List.mem_cons_self]
    dsimp only
    rw [ih fun u hu => h u (List.mem_cons_of_mem _ hu), List.reverse_cons, List.append_assoc,
      List.singleton_append]

/-- A connective behind a left-hand side and before the start of a condition separates. -/
theorem splitBehind_append {t : Token} {k : Connective} (ht : t.connective? = some k)
    {us : List Token} (hus : startsHere us = true) (back ts : List Token)
    (hleft : isLeftSide (splitBehind back ts).last = true) :
    splitBehind back (ts ++ t :: us) = (splitBehind back ts).append k (splitBehind [] us) := by
  induction ts generalizing back with
  | nil =>
    have hback : isLeftSide back = true := by
      have hlast : isLeftSide back.reverse = true := hleft
      rcases back with _ | ⟨x, _ | ⟨y, back⟩⟩
      · exact hlast
      · exact hlast
      · rfl
    simp only [List.nil_append, splitBehind, ht, hback, hus, Bool.and_self, if_true]
    rfl
  | cons x ts ih =>
    have hstart := startsHere_append (isWord_of_connective? ht) hus ts
    unfold splitBehind at hleft
    rw [List.cons_append, splitBehind, splitBehind, hstart]
    cases hx : x.connective? with
    | none =>
      rw [hx] at hleft
      exact ih (x :: back) hleft
    | some l =>
      rw [hx] at hleft
      dsimp only at hleft ⊢
      split
      · next hsep =>
        rw [if_pos hsep, Chain.last_cons] at hleft
        rw [ih [] hleft]
        rfl
      · next hsep =>
        rw [if_neg hsep] at hleft
        exact ih (x :: back) hleft

/-- Conditions joined by a connective that separates are written one after the other. -/
theorem renderAll_append (places : Places) (options : Options) {t : Token} {k : Connective}
    (ht : t.connective? = some k) {ts us : List Token} (hts : isLeftSide (lastPart ts) = true)
    (hus : startsHere us = true) :
    renderAll places options (ts ++ t :: us) =
      renderAll places options ts ++ ' ' :: k.text ++ ' ' :: renderAll places options us := by
  rw [renderAll_eq, splitBehind_append ht hus [] ts hts, Chain.map_append, Chain.text_append,
    renderAll_eq, renderAll_eq]

theorem lastPart_append {t : Token} {k : Connective} (ht : t.connective? = some k)
    {ts us : List Token} (hts : isLeftSide (lastPart ts) = true) (hus : startsHere us = true) :
    lastPart (ts ++ t :: us) = lastPart us := by
  rw [lastPart, splitBehind_append ht hus [] ts hts, lastPart]
  obtain ⟨a, rest⟩ := splitBehind [] us
  rw [Chain.append, Chain.last, Chain.last, List.getLast?_append]
  cases h : ((k, a) :: rest).getLast? with
  | none => simp at h
  | some y =>
    cases rest with
    | nil =>
      cases h
      rfl
    | cons z rest =>
      rw [List.getLast?_cons_cons] at h
      rw [h]
      rfl

theorem lastPart_congr {p q : Places} {ts us : List Token} (h : ts.map p.fill = us.map q.fill) :
    (lastPart ts).map p.fill = (lastPart us).map q.fill := by
  have hsplit := splitBehind_congr (show List.map p.fill [] = List.map q.fill [] from rfl) h
  rw [lastPart, lastPart, ← Chain.last_map (List.map p.fill), hsplit, Chain.last_map]

end Condition

end FilterClause
