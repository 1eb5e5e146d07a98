import FilterClause.Proofs.FoundLimits
import FilterClause.Proofs.Quoting
import FilterClause.Proofs.Rereading

/-!
# Conditions that are read back

A written condition is read back as its lexemes, the operator in capitals and a quoted value as one
literal (`reread`). Read so, the tokens fall into the same conditions, and each of them is written
the same again, if no quote gets lost on the way (`renderAll_of_reread`).
-/

namespace FilterClause

open Text

/-- Whether a lexeme can be written between apostrophes, if it is a literal. -/
def Lexeme.isWritable : Lexeme → Bool
  | .literal content => !content.contains singleQuote
  | _ => true

namespace Condition

/-! ## One condition after the other -/

theorem isLeftSide_of_two_le {ts : List Token} (h : 2 ≤ ts.length) : isLeftSide ts = true := by
  match ts, h with
  | _ :: _ :: _, _ => rfl

theorem isLeftSide_reverse (ts : List Token) : isLeftSide ts.reverse = isLeftSide ts := by
  match ts with
  | [] => rfl
  | [only] => rfl
  | first :: second :: rest => exact isLeftSide_of_two_le (by simp)

/-- Whether tokens are one condition: no connective in them separates. -/
def IsWhole (ts : List Token) : Prop := splitBehind [] ts = ⟨ts, []⟩

/-- Tokens are one condition, or one condition comes first and then a connective that separates. -/
theorem splitBehind_cases (back ts : List Token) :
    splitBehind back ts = ⟨back.reverse ++ ts, []⟩ ∨
      ∃ us t k rest, ts = us ++ t :: rest ∧ splitBehind back us = ⟨back.reverse ++ us, []⟩ ∧
        isLeftSide (back.reverse ++ us) = true ∧ t.connective? = some k ∧
        startsHere rest = true := by
  induction ts generalizing back with
  | nil =>
    rw [splitBehind, List.append_nil]
    exact .inl rfl
  | cons t ts ih =>
    have hshift : ∀ us : List Token, (t :: back).reverse ++ us = back.reverse ++ t :: us := by simp
    cases hsep : separates back t ts with
    | true =>
      obtain ⟨⟨k, hk⟩, -, -⟩ := of_separates hsep
      rw [separates, Bool.and_eq_true, Bool.and_eq_true] at hsep
      obtain ⟨⟨-, hleft⟩, hstart⟩ := hsep
      refine .inr ⟨[], t, k, ts, rfl, ?_, ?_, hk, hstart⟩
      · rw [splitBehind, List.append_nil]
      · rwa [List.append_nil, isLeftSide_reverse]
    | false =>
      rw [splitBehind_cons_of_not hsep]
      rcases ih (t :: back) with hwhole | ⟨us, t', k, rest, rfl, hus, hleft, hk, hstart⟩
      · exact .inl (hwhole.trans (by rw [hshift]))
      · refine .inr ⟨t :: us, t', k, rest, rfl, ?_, hshift us ▸ hleft, hk, hstart⟩
        rw [separates, startsHere_append (isWord_of_connective? hk) hstart] at hsep
        rw [splitBehind_cons_of_not hsep, hus, hshift]

/-- Induction along the conditions of a token list. -/
theorem conditions_induction {motive : List Token → Prop}
    (whole : ∀ ts, IsWhole ts → motive ts)
    (join : ∀ ts t k us, IsWhole ts → isLeftSide ts = true → t.connective? = some k →
      startsHere us = true → motive us → motive (ts ++ t :: us)) (ts : List Token) :
    motive ts := by
  induction h : ts.length using Nat.strong_induction_on generalizing ts with
  | h n ih =>
    rcases splitBehind_cases [] ts with hwhole | ⟨us, t, k, rest, rfl, hus, hleft, hk, hstart⟩
    · exact whole ts hwhole
    · refine join us t k rest hus hleft hk hstart (ih rest.length ?_ rest rfl)
      rw [← h, List.length_append, List.length_cons]
      omega

/-- A condition comes first, and then those behind the connective. -/
theorem splitBehind_join {ts us : List Token} {t : Token} {k : Connective} (hts : IsWhole ts)
    (hleft : isLeftSide ts = true) (hk : t.connective? = some k) (hus : startsHere us = true) :
    splitBehind [] (ts ++ t :: us) =
      ⟨ts, (k, (splitBehind [] us).first) :: (splitBehind [] us).rest⟩ := by
  have happend := splitBehind_append hk hus [] ts (by rw [hts]; exact hleft)
  rw [happend, hts]
  rfl

theorem things_join {ts us : List Token} {t : Token} {k : Connective} (hts : IsWhole ts)
    (hleft : isLeftSide ts = true) (hk : t.connective? = some k) (hus : startsHere us = true) :
    (splitBehind [] (ts ++ t :: us)).things = ts :: (splitBehind [] us).things := by
  rw [splitBehind_join hts hleft hk hus]
  rfl

theorem IsWhole.lastPart {ts : List Token} (h : IsWhole ts) : lastPart ts = ts := by
  rw [Condition.lastPart, h]
  rfl

theorem IsWhole.renderAll {ts : List Token} (h : IsWhole ts) (p : Places) (options : Options) :
    renderAll p options ts = render p options ts := by
  rw [renderAll_eq, h]
  exact joinSpaced_singleton _

theorem IsWhole.congr {p q : Places} {ts us : List Token} (h : ts.map p.fill = us.map q.fill)
    (hts : IsWhole ts) : IsWhole us := by
  rcases splitBehind_cases [] us with hus | ⟨vs, t, k, rest, rfl, hvs, hleft, hk, hstart⟩
  · exact hus
  · have hcongr := splitBehind_congr (show List.map p.fill [] = List.map q.fill [] from rfl) h
    rw [hts, splitBehind_join hvs hleft hk hstart] at hcongr
    have hrest : List.map (fun _ => ()) [] = () :: _ :=
      congrArg (fun c : Chain _ => c.rest.map fun _ => ()) hcongr
    cases hrest

/-! ## Operators in capitals -/

/-- Behind a left-hand side, how tokens fall into conditions does not depend on it. -/
theorem splitBehind_of_isLeftSide (ts : List Token) :
    ∃ us rest, ∀ back, isLeftSide back = true → splitBehind back ts = ⟨back.reverse ++ us, rest⟩ := by
  induction ts with
  | nil => exact ⟨[], [], fun back _ => by rw [splitBehind, List.append_nil]⟩
  | cons t ts ih =>
    obtain ⟨us, rest, hall⟩ := ih
    have hpass : ∀ back, isLeftSide back = true →
        splitBehind (t :: back) ts = ⟨back.reverse ++ t :: us, rest⟩ := by
      intro back hback
      have hcons : isLeftSide (t :: back) = true := by
        cases back with
        | nil => cases hback
        | cons b back => rfl
      rw [hall _ hcons, List.reverse_cons, List.append_assoc, List.singleton_append]
    cases hk : t.connective? with
    | none =>
      refine ⟨t :: us, rest, fun back hback => ?_⟩
      rw [splitBehind, hk]
      exact hpass back hback
    | some k =>
      by_cases hstart : startsHere ts = true
      · refine ⟨[], (k, (splitBehind [] ts).first) :: (splitBehind [] ts).rest,
          fun back hback => ?_⟩
        rw [splitBehind, hk, hback, hstart, List.append_nil]
        rfl
      · refine ⟨t :: us, rest, fun back hback => ?_⟩
        rw [splitBehind, hk, hback, Bool.true_and]
        dsimp only
        rw [if_neg hstart]
        exact hpass back hback

theorem not_connective_of_isOperator {t : Token} (h : t.isOperator = true) :
    t.connective? = none := by
  cases hk : t.connective? with
  | none => rfl
  | some k =>
    rw [isOperator_of_isWord (isWord_of_connective? hk)] at h
    cases h

theorem IsWhole.capitalised {ts : List Token} (h : IsWhole ts) : IsWhole (capitalised ts) := by
  match ts, h with
  | [], h => exact h
  | [only], h => exact h
  | first :: second :: value, h =>
    rw [Condition.capitalised]
    split
    · next hop =>
      obtain ⟨us, rest, hall⟩ := splitBehind_of_isLeftSide value
      have hfront : ∀ t : Token, t.isOperator = true →
          splitBehind [] (first :: t :: value) = ⟨first :: t :: us, rest⟩ := by
        intro t ht
        rw [splitBehind_cons_of_not (separates_nil _ _), splitBehind,
          not_connective_of_isOperator ht]
        exact hall [t, first] rfl
      have hwhole := (hfront second hop).symm.trans h
      rw [Chain.mk.injEq, List.cons.injEq, List.cons.injEq] at hwhole
      obtain ⟨⟨-, -, rfl⟩, rfl⟩ := hwhole
      exact hfront { second with text := upper second.text } hop
    · exact h

theorem isLeftSide_capitalised (ts : List Token) :
    isLeftSide (capitalised ts) = isLeftSide ts := by
  match ts with
  | [] => rfl
  | [only] => rfl
  | first :: second :: value => rfl

theorem startsHere_capitalised (ts : List Token) :
    startsHere (capitalised ts) = startsHere ts := by
  match ts with
  | [] => rfl
  | [only] => rfl
  | first :: second :: value =>
    rw [capitalised]
    split <;> rfl

/-- The operator of a comparison may be written in capitals beforehand. -/
theorem render_capitalised {p : Places} {options : Options} {ts : List Token}
    (h : ∀ t ∈ ts, p.Reads t) : render p options (capitalised ts) = render p options ts := by
  match ts, h with
  | [], _ => rfl
  | [only], _ => rfl
  | first :: second :: value, h =>
    rw [capitalised]
    split
    · next hop =>
      obtain ⟨literals, interior, gs, hread⟩ := h second (by simp)
      rw [fill_of_isOperator hop] at hread
      have hop' : Token.isOperator { second with text := upper second.text } = true := hop
      rw [render, render, if_pos hop, if_pos hop']
      exact congrArg _ (Comparison.render_upper hread rfl rfl rfl)
    · rfl

/-! ## What a written condition is read back as -/

section Reread

variable (p : Places) (options : Options)

/-- What stands between the quotes of a condition whose value is quoted, wildcards left off. -/
def quoted? : List Token → Option Text
  | first :: second :: value =>
    let c : Comparison := ⟨p.render first, second.text, value⟩
    if !first.isGroup && second.isOperator && c.needsQuotes p options then some (c.inner p)
    else none
  | _ => none

/-- The lexemes that a written condition is read back as. -/
def reread : List Token → List Lexeme
  | first :: second :: value =>
    let c : Comparison := ⟨p.render first, second.text, value⟩
    if first.isGroup then [p.fill first]
    else if second.isOperator && c.needsQuotes p options then
      [p.fill first, .operator (upper second.text), .literal (c.pattern p)]
    else (capitalised (first :: second :: value)).map p.fill
  | ts => ts.map p.fill

/-- Whether a written condition is read back as what it was: its literals hold no apostrophe, and
what it quotes is not bordered by quotes. -/
def Rereads (ts : List Token) : Prop :=
  (∀ l ∈ reread p options ts, l.isWritable = true) ∧
    ∀ inner ∈ quoted? p options ts,
      inner.head? ≠ some doubleQuote ∧ inner.getLast? ≠ some doubleQuote

instance : DecidablePred (Rereads p options) := fun _ => inferInstanceAs (Decidable (_ ∧ _))

/-- A condition is written token by token, or a group takes it over, or its value is quoted. -/
theorem reread_cases (ts : List Token) :
    (isBare p options ts = true ∧ reread p options ts = (capitalised ts).map p.fill) ∨
      (∃ g rest, ts = g :: rest ∧ g.isGroup = true ∧ reread p options ts = [p.fill g] ∧
        render p options ts = p.render g) ∨
      ∃ first second value, ts = first :: second :: value ∧ first.isGroup = false ∧
        second.isOperator = true ∧
        Comparison.needsQuotes ⟨p.render first, second.text, value⟩ p options = true ∧
        reread p options ts = [p.fill first, .operator (upper second.text),
          .literal (Comparison.pattern ⟨p.render first, second.text, value⟩ p)] ∧
        quoted? p options ts =
          some (Comparison.inner ⟨p.render first, second.text, value⟩ p) := by
  match ts with
  | [] => exact .inl ⟨rfl, rfl⟩
  | [only] => exact .inl ⟨rfl, rfl⟩
  | first :: second :: value =>
    cases hgroup : first.isGroup with
    | true =>
      refine .inr (.inl ⟨first, second :: value, rfl, hgroup, ?_, ?_⟩)
      · rw [reread, hgroup]
        rfl
      · rw [render, hgroup]
        rfl
    | false =>
      cases hquotes : second.isOperator &&
          Comparison.needsQuotes ⟨p.render first, second.text, value⟩ p options with
      | false =>
        refine .inl ⟨?_, ?_⟩
        · rw [isBare, hgroup, hquotes]
          rfl
        · simp only [reread, hgroup, hquotes]
          rfl
      | true =>
        obtain ⟨hop, hneeds⟩ := Bool.and_eq_true_iff.mp hquotes
        refine .inr (.inr ⟨first, second, value, rfl, hgroup, hop, hneeds, ?_, ?_⟩)
        · simp only [reread, hgroup, hquotes]
          rfl
        · simp only [quoted?, hgroup, hop, hneeds]
          rfl

variable {p options}

/-- What a condition is read back as is a token of it, its operator in capitals, or a literal. -/
theorem mem_reread {ts : List Token} {l : Lexeme} (h : l ∈ reread p options ts) :
    (∃ t ∈ ts, l = p.fill t) ∨ (∃ t ∈ ts, t.isOperator = true ∧ l = .operator (upper t.text)) ∨
      ∃ content, l = .literal content := by
  rcases reread_cases p options ts with ⟨-, hbare⟩ | ⟨g, rest, rfl, -, hgroup, -⟩ |
    ⟨first, second, value, rfl, -, hop, -, hquoted, -⟩
  · rw [hbare] at h
    obtain ⟨u, hu, rfl⟩ := List.mem_map.mp h
    match ts, hu with
    | [only], hu => exact .inl ⟨u, hu, rfl⟩
    | first :: second :: value, hu =>
      rw [capitalised] at hu
      split at hu
      · next hop =>
        have hop' : Token.isOperator { second with text := upper second.text } = true := hop
        rcases List.mem_cons.mp hu with rfl | hu
        · exact .inl ⟨_, List.mem_cons_self, rfl⟩
        · rcases List.mem_cons.mp hu with rfl | hu
          · exact .inr (.inl ⟨second, by simp, hop, fill_of_isOperator hop'⟩)
          · exact .inl ⟨u, by simp [hu], rfl⟩
      · exact .inl ⟨u, hu, rfl⟩
  · rw [hgroup] at h
    exact .inl ⟨g, List.mem_cons_self, List.mem_singleton.mp h⟩
  · rw [hquoted] at h
    simp only [List.mem_cons, List.not_mem_nil, or_false] at h
    rcases h with rfl | rfl | rfl
    · exact .inl ⟨first, by simp, rfl⟩
    · exact .inr (.inl ⟨second, by simp, hop, rfl⟩)
    · exact .inr (.inr ⟨_, rfl⟩)

end Reread

/-! ## Conditions written again -/

section Again

variable {p q : Places} {options : Options} {ts us : List Token}

theorem not_mem_pattern_of_rereads {c : Comparison} {l m : Lexeme}
    (hreread : reread p options ts = [l, m, .literal (c.pattern p)])
    (h : Rereads p options ts) : singleQuote ∉ c.pattern p := by
  have hwritable := h.1 (.literal (c.pattern p)) (by rw [hreread]; simp)
  simpa [Lexeme.isWritable] using hwritable

/-- A condition is written as what it is read back as. -/
theorem render_eq_joinSpaced (hreads : ∀ t ∈ ts, p.Reads t) (h : Rereads p options ts) :
    render p options ts = joinSpaced ((reread p options ts).map Lexeme.render) := by
  rcases reread_cases p options ts with ⟨hb, hbare⟩ | ⟨g, rest, rfl, -, hgroup, hrender⟩ |
    ⟨first, second, value, rfl, hfirst, hop, hneeds, hquoted, -⟩
  · rw [hbare, render_of_isBare hb hreads, renderAll_fill]
  · rw [hgroup, hrender, List.map_singleton, joinSpaced_singleton, render_fill]
  · have happ := not_mem_pattern_of_rereads hquoted h
    have hvalue : Comparison.renderValue ⟨p.render first, second.text, value⟩ p options =
        singleQuote :: Comparison.pattern ⟨p.render first, second.text, value⟩ p ++
          [singleQuote] := by
      rw [Comparison.renderValue, hneeds, if_pos rfl]
      exact quoteValue_of_not_mem happ
    rw [hquoted, render, hfirst, hop, if_neg Bool.false_ne_true, if_pos rfl, Comparison.render,
      hvalue, List.map_cons, render_fill]
    simp [Lexeme.render]

variable (h : us.map q.fill = reread p options ts)

include h

/-- The tokens of a condition that is read back. -/
theorem exists_of_reread_quoted {l m n : Lexeme} (hreread : reread p options ts = [l, m, n]) :
    ∃ a b v, us = [a, b, v] ∧ q.fill a = l ∧ q.fill b = m ∧ q.fill v = n := by
  rw [hreread] at h
  match us, h with
  | [a, b, v], h =>
    simp only [List.map_cons, List.map_nil, List.cons.injEq, and_true] at h
    exact ⟨a, b, v, rfl, h⟩

theorem exists_of_reread_group {g : Token} (hreread : reread p options ts = [p.fill g]) :
    ∃ u, us = [u] ∧ q.fill u = p.fill g :=
  List.map_eq_singleton_iff.mp (h.trans hreread)

theorem startsHere_of_reread (hts : startsHere ts = true) : startsHere us = true := by
  rcases reread_cases p options ts with ⟨-, hbare⟩ | ⟨g, rest, rfl, hg, hgroup, -⟩ |
    ⟨first, second, value, rfl, hfirst, hop, -, hquoted, -⟩
  · rw [startsHere_congr (h.trans hbare), startsHere_capitalised, hts]
  · obtain ⟨u, rfl, hu⟩ := exists_of_reread_group h hgroup
    rw [startsHere, ← isGroup_fill q, hu, isGroup_fill, hg]
  · obtain ⟨a, b, v, rfl, ha, hb, -⟩ := exists_of_reread_quoted h hquoted
    rw [startsHere, ← isWord_fill q, ← isOperator_fill q, ha, hb, isWord_fill]
    rw [startsHere, hfirst, Bool.or_false, Bool.and_eq_true] at hts
    rw [hts.1]
    rfl

theorem isLeftSide_of_reread (hts : isLeftSide ts = true) : isLeftSide us = true := by
  rcases reread_cases p options ts with ⟨-, hbare⟩ | ⟨g, rest, rfl, hg, hgroup, -⟩ |
    ⟨first, second, value, rfl, hfirst, hop, -, hquoted, -⟩
  · rw [isLeftSide_congr (h.trans hbare), isLeftSide_capitalised, hts]
  · obtain ⟨u, rfl, hu⟩ := exists_of_reread_group h hgroup
    rw [isLeftSide, ← isGroup_fill q, hu, isGroup_fill, hg]
  · obtain ⟨a, b, v, rfl, -⟩ := exists_of_reread_quoted h hquoted
    rfl

theorem isWhole_of_reread (hts : IsWhole ts) : IsWhole us := by
  rcases reread_cases p options ts with ⟨-, hbare⟩ | ⟨g, rest, rfl, -, hgroup, -⟩ |
    ⟨first, second, value, rfl, -, -, -, hquoted, -⟩
  · exact hts.capitalised.congr (h.trans hbare).symm
  · obtain ⟨u, rfl, -⟩ := exists_of_reread_group h hgroup
    exact splitBehind_cons_of_not (separates_nil u [])
  · obtain ⟨a, b, v, rfl, -, hb, hv⟩ := exists_of_reread_quoted h hquoted
    rw [IsWhole, splitBehind_cons_of_not (separates_nil a _)]
    refine splitBehind_of_no_connective fun t ht => ?_
    rcases List.mem_pair.mp ht with rfl | rfl
    · rw [← connective?_fill q, hb]
      rfl
    · rw [← connective?_fill q, hv]
      rfl

/-- A condition that is read back is written the same again. -/
theorem render_of_reread (hreads : ∀ t ∈ ts, p.Reads t) (hts : Rereads p options ts) :
    render q options us = render p options ts := by
  rcases reread_cases p options ts with ⟨-, hbare⟩ | ⟨g, rest, rfl, -, hgroup, hrender⟩ |
    ⟨first, second, value, rfl, hfirst, hop, hneeds, hquoted, hinner⟩
  · rw [condition_render_congr (h.trans hbare), render_capitalised hreads]
  · obtain ⟨u, rfl, hu⟩ := exists_of_reread_group h hgroup
    rw [hrender, render, ← render_fill q, hu, render_fill]
  · have happ := not_mem_pattern_of_rereads hquoted hts
    obtain ⟨hhead, hlast⟩ := hts.2 _ hinner
    obtain ⟨a, b, v, rfl, ha, hb, hv⟩ := exists_of_reread_quoted h hquoted
    obtain ⟨literals, interior, gs, hread⟩ := hreads second (by simp)
    rw [fill_of_isOperator hop] at hread
    have hbop : b.isOperator = true := by
      rw [← isOperator_fill q, hb]
      rfl
    have hbtext : b.text = upper second.text := by
      rw [fill_of_isOperator hbop] at hb
      exact Lexeme.operator.inj hb
    have hagroup : a.isGroup = false := by
      rw [← isGroup_fill q, ha, isGroup_fill, hfirst]
    have hacolumn : q.render a = p.render first := by
      rw [← render_fill, ha, render_fill]
    rw [render, render, hagroup, hfirst, hbop, hop, if_neg Bool.false_ne_true,
      if_neg Bool.false_ne_true, if_pos rfl, if_pos rfl]
    refine Comparison.render_pattern hread hacolumn hbtext ?_ hneeds happ hhead hlast
    rw [List.map_singleton, hv]

end Again

/-! ## All conditions -/

/-- The lexemes that written conditions are read back as. -/
def rereadAll (p : Places) (options : Options) (ts : List Token) : List Lexeme :=
  reread p options (splitBehind [] ts).first ++
    (splitBehind [] ts).rest.flatMap fun (k, part) => .word k.text :: reread p options part

section All

variable {p q : Places} {options : Options}

theorem IsWhole.rereadAll {ts : List Token} (h : IsWhole ts) :
    rereadAll p options ts = reread p options ts := by
  rw [Condition.rereadAll, h]
  exact List.append_nil _

theorem rereadAll_join {ts us : List Token} {t : Token} {k : Connective} (hts : IsWhole ts)
    (hleft : isLeftSide ts = true) (hk : t.connective? = some k) (hus : startsHere us = true) :
    rereadAll p options (ts ++ t :: us) =
      reread p options ts ++ .word k.text :: rereadAll p options us := by
  rw [rereadAll, splitBehind_join hts hleft hk hus]
  rfl

theorem renderAll_join {ts us : List Token} {t : Token} {k : Connective} (hts : IsWhole ts)
    (hleft : isLeftSide ts = true) (hk : t.connective? = some k) (hus : startsHere us = true) :
    renderAll p options (ts ++ t :: us) =
      render p options ts ++ ' ' :: k.text ++ ' ' :: renderAll p options us := by
  rw [renderAll_append p options hk (hts.lastPart.symm ▸ hleft) hus, hts.renderAll]

/-- Conditions that are read back are written the same again, and they start like before. -/
theorem renderAll_of_reread {ts us : List Token} (hreads : ∀ t ∈ ts, p.Reads t)
    (hparts : ∀ part ∈ (splitBehind [] ts).things, Rereads p options part)
    (h : us.map q.fill = rereadAll p options ts) :
    renderAll q options us = renderAll p options ts ∧
      (startsHere ts = true → startsHere us = true) := by
  induction ts using conditions_induction generalizing us with
  | whole ts hts =>
    have hpart : Rereads p options ts := hparts ts (by rw [hts]; exact List.mem_cons_self)
    rw [hts.rereadAll] at h
    rw [(isWhole_of_reread h hts).renderAll, hts.renderAll]
    exact ⟨render_of_reread h hreads hpart, startsHere_of_reread h⟩
  | join ts t k vs hts hleft hk hvs ih =>
    rw [things_join hts hleft hk hvs] at hparts
    obtain ⟨hpart, hparts⟩ := List.forall_mem_cons.mp hparts
    rw [rereadAll_join hts hleft hk hvs] at h
    obtain ⟨as, bs, rfl, has, hbs⟩ := List.map_eq_append_iff.mp h
    obtain ⟨b, bs, rfl, hb, hbs⟩ := List.map_eq_cons_iff.mp hbs
    obtain ⟨hrest, hstart⟩ := ih (fun u hu => hreads u (by simp [hu])) hparts hbs
    have hfirst := render_of_reread has (fun u hu => hreads u (by simp [hu])) hpart
    have hbk : b.connective? = some k := by
      rw [← connective?_fill q, hb]
      cases k <;> rfl
    have hword := isWord_of_connective? hbk
    refine ⟨?_, ?_⟩
    · rw [renderAll_join (isWhole_of_reread has hts) (isLeftSide_of_reread has hleft) hbk
        (hstart hvs), renderAll_join hts hleft hk hvs, hfirst, hrest]
    · rw [startsHere_append hword (hstart hvs), startsHere_append (isWord_of_connective? hk) hvs]
      exact startsHere_of_reread has

/-- Written conditions are read as what they are read back as, if their lexemes are. -/
theorem readAs_renderAll {levels : Nat} {ts : List Token} (hreads : ∀ t ∈ ts, p.Reads t)
    (hparts : ∀ part ∈ (splitBehind [] ts).things, Rereads p options part)
    (hlexemes : ∀ t ∈ ts, (p.fill t).isWritable = true →
      Fragment.ReadAs options levels (p.fill t).render [p.fill t]) :
    Fragment.ReadAs options levels (renderAll p options ts) (rereadAll p options ts) := by
  have hrender : ∀ part : List Token, (∀ t ∈ part, t ∈ ts) → Rereads p options part →
      Fragment.ReadAs options levels (render p options part) (reread p options part) := by
    intro part hsub hpart
    rw [render_eq_joinSpaced (fun t ht => hreads t (hsub t ht)) hpart]
    refine .renderAll fun l hl => ?_
    have hwritable := hpart.1 l hl
    rcases mem_reread hl with ⟨t, ht, rfl⟩ | ⟨t, ht, hop, rfl⟩ | ⟨content, rfl⟩
    · exact hlexemes t (hsub t ht) hwritable
    · obtain ⟨literals, interior, gs, hread⟩ := hreads t (hsub t ht)
      rw [fill_of_isOperator hop] at hread
      exact .operator (hread.upper literals interior gs)
    · exact .literal (by simpa [Lexeme.isWritable] using hwritable)
  induction ts using conditions_induction with
  | whole ts hts =>
    rw [hts.renderAll, hts.rereadAll]
    exact hrender ts (fun _ => id) (hparts ts (by rw [hts]; exact List.mem_cons_self))
  | join ts t k us hts hleft hk hus ih =>
    rw [things_join hts hleft hk hus] at hparts
    obtain ⟨hpart, hparts⟩ := List.forall_mem_cons.mp hparts
    have hrest := ih (fun u hu => hreads u (by simp [hu])) hparts
      (fun u hu => hlexemes u (by simp [hu]))
      (fun part hsub => hrender part fun u hu => by simp [hsub u hu])
    rw [renderAll_join hts hleft hk hus, rereadAll_join hts hleft hk hus, List.append_assoc]
    exact (hrender ts (fun u hu => by simp [hu]) hpart).append
      ((Fragment.ReadAs.connective k).append hrest)

end All

end Condition

end FilterClause
