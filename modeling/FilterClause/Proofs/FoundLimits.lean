import FilterClause.Cleaning
import FilterClause.Proofs.Endings
import FilterClause.Proofs.WholeClauses

/-!
# Row limits that cleaned text shows

A row limit is looked for in the clause as it was written, and the clause is rebuilt from its
tokens. What stood between the keyword and its number, or behind the number, may have been dropped
on the way, so the cleaned clause can end in a row limit that nobody has detached. Whether it does
is told by the tokens of its last condition (`clean_shows_limit_iff`).
-/

namespace FilterClause

open Text

/-! ## The end of a token -/

/-- A token is a word, or it ends in a character that ends no row limit. -/
theorem Places.Reads.word_or_stop {p : Places} {t : Token} (h : p.Reads t) :
    (t.isWord = true ∧ p.render t = t.text ∧ t.text ≠ [] ∧
        ∀ c ∈ t.text, Token.isWordPart c = true) ∨
      t.isWord = false ∧ ∃ s c, p.render t = s ++ [c] ∧ RowLimit.isStop c = true ∧
        foldLetter c ≠ 't' := by
  have hmark : ∀ c ∈ [')', singleQuote], RowLimit.isStop c = true ∧ foldLetter c ≠ 't' :=
    fun c hc => ⟨RowLimit.isStop_of_mem_marks c
      ((by decide : ∀ d ∈ [')', singleQuote], d ∈ marks) c hc),
      (by decide : ∀ d ∈ [')', singleQuote], foldLetter d ≠ 't') c hc⟩
  obtain ⟨literals, interior, gs, hread⟩ := h
  obtain ⟨kind, text, offset⟩ := t
  cases kind with
  | word => exact .inl ⟨rfl, rfl, hread.1, hread.2.1⟩
  | operator =>
    have hne := Token.SpellsOperator.ne_nil hread
    have hpart := Token.SpellsOperator.isOperatorPart hread
    rcases List.eq_nil_or_concat text with rfl | ⟨s, c, rfl⟩
    · exact absurd rfl hne
    · rw [List.concat_eq_append] at hpart ⊢
      have hc := hpart c (by simp)
      refine .inr ⟨rfl, s, c, rfl, hc.isStop, ?_⟩
      rcases hc with hc | hc
      · exact (by decide : ∀ d ∈ ['=', '<', '>', '!'], foldLetter d ≠ 't') c hc
      · exact fun e => absurd (e ▸ hc) (by decide)
  | call =>
    obtain ⟨name, arguments, htext, -⟩ := hread
    exact .inr ⟨rfl, _, ')', htext, hmark ')' (by decide)⟩
  | literal index =>
    exact .inr ⟨rfl, singleQuote :: p.literal index, singleQuote, rfl, hmark _ (by decide)⟩
  | group index => exact .inr ⟨rfl, '(' :: p.group index, ')', rfl, hmark _ (by decide)⟩

/-! ## The end of joined texts -/

namespace RowLimit

theorem fold_of_endsInKeyword {s : Text} {c : Char} (h : EndsInKeyword (s ++ [c])) :
    foldLetter c = 't' := by
  obtain ⟨before, keyword, hsplit, hkeyword, -⟩ := h
  obtain ⟨d, hd, hfold⟩ := getLast?_of_limit hsplit hkeyword
  rw [List.getLast?_concat] at hd
  exact Option.some.inj hd ▸ hfold

/-- Whether joined texts end in the keyword is told by the last one. -/
theorem endsInKeyword_joinSpaced (ts : List Text) (t : Text) :
    EndsInKeyword (joinSpaced (ts ++ [t])) ↔ EndsInKeyword t := by
  by_cases hne : ts = []
  · rw [hne, List.nil_append, joinSpaced_singleton]
  rw [joinSpaced_concat hne, List.append_cons]
  constructor
  · rintro ⟨before, keyword, hsplit, hkeyword, hword⟩
    rcases List.append_eq_append_iff.mp hsplit with ⟨u, rfl, rfl⟩ | ⟨u, hbefore, rfl⟩
    · refine ⟨u, keyword, rfl, hkeyword, fun c hc => hword c ?_⟩
      exact List.mem_getLast?_append_of_mem_getLast? hc
    · -- The keyword would reach over the space.
      rcases List.eq_nil_or_concat u with rfl | ⟨u, c, rfl⟩
      · exact ⟨[], t, rfl, hkeyword, nofun⟩
      · rw [List.concat_eq_append, ← List.append_assoc] at hbefore
        obtain rfl : ' ' = c := (List.cons.inj (List.append_inj' hbefore rfl).2).1
        have hmem : foldLetter ' ' ∈ ['l', 'i', 'm', 'i', 't'] := by
          rw [← hkeyword]
          exact List.mem_map_of_mem (by simp)
        exact absurd hmem (by decide)
  · rintro ⟨before, keyword, rfl, hkeyword, hword⟩
    refine ⟨joinSpaced ts ++ [' '] ++ before, keyword, by simp, hkeyword, fun c hc => ?_⟩
    by_cases hbefore : before = []
    · rw [hbefore, List.append_nil, List.getLast?_concat] at hc
      rw [← Option.some.inj hc]
      exact isWord_of_isBlank (by decide)
    · rw [List.getLast?_append_of_ne_nil _ hbefore] at hc
      exact hword c hc

/-- A text without blanks alone is no row limit. -/
theorem limit_of_word_alone {w : Text} (hw : ∀ c ∈ w, isBlank c = false) :
    (detach w).2 = none := by
  by_cases hdigits : ∃ c ∈ w, isWordDigit c = false
  · have := limit_of_not_number hw hdigits []
    rwa [List.nil_append] at this
  · refine limit_of_no_stop fun c hc => ?_
    have hc' : isWordDigit c = true := by
      rw [← Bool.not_eq_false]
      exact fun h => hdigits ⟨c, hc, h⟩
    simp [isStop, hc']

end RowLimit

/-! ## The end of a condition -/

namespace Condition

/-- Whether the last two tokens are a word that ends in LIMIT and a number. -/
def EndsInLimit (ts : List Token) : Prop :=
  ∃ us keyword number, ts = us ++ [keyword, number] ∧ keyword.isWord = true ∧
    RowLimit.EndsInKeyword keyword.text ∧ number.isWord = true ∧
    ∀ c ∈ number.text, isWordDigit c = true

/-- Whether a condition is written token by token: no leading group stands for all of it, and its
value is not quoted. -/
def isBare (p : Places) (options : Options) : List Token → Bool
  | first :: second :: value =>
    !first.isGroup &&
      !(second.isOperator &&
        Comparison.needsQuotes ⟨p.render first, second.text, value⟩ p options)
  | _ => true

theorem endsInLimit_concat {us : List Token} {keyword number : Token} :
    EndsInLimit (us ++ [keyword, number]) ↔
      keyword.isWord = true ∧ RowLimit.EndsInKeyword keyword.text ∧ number.isWord = true ∧
        ∀ c ∈ number.text, isWordDigit c = true := by
  constructor
  · rintro ⟨us', keyword', number', hts, h⟩
    obtain ⟨-, hlast⟩ := List.append_inj' hts rfl
    cases hlast
    exact h
  · exact fun h => ⟨us, keyword, number, rfl, h⟩

theorem not_endsInLimit_of_length {ts : List Token} (h : ts.length < 2) : ¬ EndsInLimit ts := by
  rintro ⟨us, keyword, number, rfl, -⟩
  rw [List.length_append] at h
  exact absurd h (Nat.not_lt_of_le (Nat.le_add_left 2 _))

/-! ### Tokens one after the other -/

section Tokens

variable {p : Places}

theorem renderAll_concat {us : List Token} (hne : us ≠ []) (t : Token) :
    p.renderAll (us ++ [t]) = p.renderAll us ++ ' ' :: p.render t := by
  rw [Places.renderAll, List.map_append, List.map_singleton, joinSpaced_concat (by simpa using hne),
    Places.renderAll]

theorem endsInKeyword_renderAll {t : Token} (h : p.Reads t) (us : List Token) :
    RowLimit.EndsInKeyword (p.renderAll (us ++ [t])) ↔
      t.isWord = true ∧ RowLimit.EndsInKeyword t.text := by
  rw [Places.renderAll, List.map_append, List.map_singleton, RowLimit.endsInKeyword_joinSpaced]
  rcases h.word_or_stop with ⟨hword, hrender, -⟩ | ⟨hword, s, c, hrender, -, hfold⟩
  · rw [hrender, hword, eq_self, true_and]
  · rw [hrender, hword]
    exact iff_of_false (fun hend => hfold (RowLimit.fold_of_endsInKeyword hend))
      fun h => Bool.false_ne_true h.1

/-- Behind a token that is no word there is no limit. -/
theorem limit_of_stop {t : Token} {s : Text} {c : Char} (hrender : p.render t = s ++ [c])
    (hstop : RowLimit.isStop c = true) (us : List Token) :
    (RowLimit.detach (p.renderAll (us ++ [t]))).2 = none := by
  by_cases hne : us = []
  · rw [hne, List.nil_append, Places.renderAll, List.map_singleton, joinSpaced_singleton, hrender]
    exact RowLimit.limit_of_last hstop s
  · rw [renderAll_concat hne, hrender, ← List.cons_append, ← List.append_assoc]
    exact RowLimit.limit_of_last hstop _

/-- Tokens show a row limit exactly if the last two make it up. -/
theorem limit_renderAll_iff {ts : List Token} (h : ∀ t ∈ ts, p.Reads t) :
    (RowLimit.detach (p.renderAll ts)).2 ≠ none ↔ EndsInLimit ts := by
  rcases List.eq_nil_or_concat ts with rfl | ⟨us, number, rfl⟩
  · exact iff_of_false (fun hne => hne rfl) (not_endsInLimit_of_length (by decide))
  rw [List.concat_eq_append] at h ⊢
  rcases List.eq_nil_or_concat us with rfl | ⟨us, keyword, rfl⟩
  · refine iff_of_false (not_ne_iff.mpr ?_) (not_endsInLimit_of_length (by simp))
    rcases (h number (by simp)).word_or_stop with
      ⟨-, hrender, -, hpart⟩ | ⟨-, s, c, hrender, hstop, -⟩
    · rw [List.nil_append, Places.renderAll, List.map_singleton, joinSpaced_singleton, hrender]
      exact RowLimit.limit_of_word_alone fun c hc => isBlank_of_isWordPart (hpart c hc)
    · exact limit_of_stop hrender hstop []
  rw [List.concat_eq_append] at h ⊢
  have hlast : us ++ [keyword] ++ [number] = us ++ [keyword, number] := by simp
  rcases (h number (by simp)).word_or_stop with
    ⟨hword, hrender, hne, hpart⟩ | ⟨hword, s, c, hrender, hstop, -⟩
  · have hsolid : Solid (p.renderAll (us ++ [keyword])) :=
      Places.solid_renderAll (by simp) fun t ht => h t (List.mem_append_left _ ht)
    rw [renderAll_concat (by simp), hrender, List.append_cons,
      RowLimit.limit_of_word_iff hne (fun c hc => isBlank_of_isWordPart (hpart c hc)) (by decide)
        (by simp) hsolid.last, endsInKeyword_renderAll (h keyword (by simp)), hlast,
      endsInLimit_concat, hword]
    tauto
  · refine iff_of_false (not_ne_iff.mpr (limit_of_stop hrender hstop _)) ?_
    rw [hlast, endsInLimit_concat, hword]
    exact fun hend => Bool.false_ne_true hend.2.2.1

end Tokens

/-! ### Conditions -/

/-- A condition with the operator of its comparison in capitals. -/
def capitalised : List Token → List Token
  | first :: second :: value =>
    first :: (if second.isOperator then { second with text := upper second.text } else second) ::
      value
  | ts => ts

theorem endsInLimit_capitalised (ts : List Token) :
    EndsInLimit (capitalised ts) ↔ EndsInLimit ts := by
  match ts with
  | [] => rfl
  | [only] => rfl
  | first :: second :: value =>
    rw [capitalised]
    split
    · next hop =>
      have hword : second.isWord ≠ true := fun hw => by
        rw [isOperator_of_isWord hw] at hop
        cases hop
      -- The operator is one of the last two tokens, which are words, or it stands before them.
      rcases List.eq_nil_or_concat value with rfl | ⟨vs, number, rfl⟩
      · exact iff_of_false (fun h => hword ((@endsInLimit_concat [] first _).mp h).2.2.1)
          fun h => hword ((@endsInLimit_concat [] first _).mp h).2.2.1
      · rcases List.eq_nil_or_concat vs with rfl | ⟨vs, keyword, rfl⟩
        · exact iff_of_false (fun h => hword ((@endsInLimit_concat [first] _ _).mp h).1)
            fun h => hword ((@endsInLimit_concat [first] _ _).mp h).1
        · have hlast : ∀ t : Token, first :: t :: (vs.concat keyword).concat number =
              (first :: t :: vs) ++ [keyword, number] := fun t => by simp
          rw [hlast, hlast, endsInLimit_concat, endsInLimit_concat]
    · rfl

variable {p : Places} {options : Options}

theorem reads_capitalised {ts : List Token} (h : ∀ t ∈ ts, p.Reads t) :
    ∀ t ∈ capitalised ts, p.Reads t := by
  match ts, h with
  | [], h => exact h
  | [only], h => exact h
  | first :: second :: value, h =>
    rw [capitalised]
    split
    · next hop =>
      obtain ⟨literals, interior, gs, hread⟩ := h second (by simp)
      rw [fill_of_isOperator hop] at hread
      have hop' : Token.isOperator { second with text := upper second.text } = true := hop
      have hupper : p.Reads { second with text := upper second.text } := by
        refine ⟨literals, interior, gs, ?_⟩
        rw [fill_of_isOperator hop']
        exact hread.upper literals interior gs
      exact List.forall_mem_cons.mpr ⟨h first (by simp), List.forall_mem_cons.mpr
        ⟨hupper, fun t ht => h t (by simp [ht])⟩⟩
    · exact h

/-- A condition that is written token by token. -/
theorem render_of_isBare {ts : List Token} (hbare : isBare p options ts = true)
    (h : ∀ t ∈ ts, p.Reads t) : render p options ts = p.renderAll (capitalised ts) := by
  match ts, hbare, h with
  | [], _, _ => exact joinSpaced_nil.symm
  | [only], _, _ => exact (joinSpaced_singleton _).symm
  | first :: second :: value, hbare, h =>
    rw [isBare, Bool.and_eq_true, Bool.not_eq_true', Bool.not_eq_true'] at hbare
    obtain ⟨hgroup, hquotes⟩ := hbare
    rw [render, if_neg (by simp [hgroup]), capitalised]
    by_cases hop : second.isOperator = true
    · rw [hop, Bool.true_and] at hquotes
      have hop' : Token.isOperator { second with text := upper second.text } = true := hop
      have hsecond : p.render { second with text := upper second.text } = upper second.text := by
        rw [← render_fill, fill_of_isOperator hop']
        rfl
      have hvalue : Comparison.renderValue ⟨p.render first, second.text, value⟩ p options =
          p.renderAll value := by
        rw [Comparison.renderValue, hquotes, if_neg Bool.false_ne_true]
      rw [if_pos hop, if_pos hop, Comparison.render, hvalue]
      dsimp only
      by_cases hne : value = []
      · subst hne
        rw [Places.renderAll, Places.renderAll, List.map_nil, joinSpaced_nil, List.isEmpty_nil,
          if_pos rfl, List.map_cons, List.map_singleton, joinSpaced_cons_cons,
          joinSpaced_singleton, hsecond]
      · have hsolid : Solid (p.renderAll value) :=
          Places.solid_renderAll hne fun t ht => h t (by simp [ht])
        rw [List.isEmpty_eq_false_iff.mpr hsolid.ne_nil, if_neg Bool.false_ne_true,
          Places.renderAll, Places.renderAll, List.map_cons, List.map_cons, joinSpaced_cons_cons,
          joinSpaced_cons (by simpa using hne), hsecond, List.append_assoc, List.cons_append]
    · rw [if_neg hop, if_neg hop]

/-- A condition that is quoted or taken over by a group ends in a mark. -/
theorem limit_render_of_not_isBare {ts : List Token} (hbare : isBare p options ts = false) :
    (RowLimit.detach (render p options ts)).2 = none := by
  have hlast : ∀ (s : Text) (c : Char), c ∈ [')', singleQuote] →
      (RowLimit.detach (s ++ [c])).2 = none := fun s c hc =>
    RowLimit.limit_of_last (RowLimit.isStop_of_mem_marks c
      ((by decide : ∀ d ∈ [')', singleQuote], d ∈ marks) c hc)) s
  match ts, hbare with
  | first :: second :: value, hbare =>
    rw [render]
    by_cases hgroup : first.isGroup = true
    · obtain ⟨kind, text, offset⟩ := first
      cases kind with
      | group index =>
        rw [if_pos hgroup]
        exact hlast ('(' :: p.group index) ')' (by decide)
      | literal index => cases hgroup
      | operator => cases hgroup
      | word => cases hgroup
      | call => cases hgroup
    · have hgroup' : first.isGroup = false := by simpa using hgroup
      rw [isBare, hgroup', Bool.not_false, Bool.true_and,
        Bool.not_eq_false', Bool.and_eq_true] at hbare
      obtain ⟨hop, hquotes⟩ := hbare
      rw [if_neg hgroup, if_pos hop, Comparison.render, Comparison.renderValue, hquotes,
        if_pos rfl]
      dsimp only
      rw [quoteValue, List.isEmpty_eq_false_iff.mpr (by simp), if_neg Bool.false_ne_true,
        ← List.cons_append, ← List.append_assoc]
      exact hlast _ singleQuote (by decide)

/-- A condition shows a row limit exactly if it is written token by token and the last two tokens
make the limit up. -/
theorem limit_render_iff {ts : List Token} (h : ∀ t ∈ ts, p.Reads t) :
    (RowLimit.detach (render p options ts)).2 ≠ none ↔
      isBare p options ts = true ∧ EndsInLimit ts := by
  cases hbare : isBare p options ts with
  | false =>
    exact iff_of_false (not_ne_iff.mpr (limit_render_of_not_isBare hbare)) fun hend =>
      Bool.false_ne_true hend.1
  | true =>
    rw [render_of_isBare hbare h, limit_renderAll_iff (reads_capitalised h),
      endsInLimit_capitalised, eq_self, true_and]

/-- What stands before the last condition does not matter to a row limit. -/
theorem limit_conditions (ts : List Token) :
    (RowLimit.detach (renderAll p options ts)).2 =
      (RowLimit.detach (render p options (lastPart ts))).2 := by
  rcases renderAll_eq_last p options ts with e | ⟨front, k, e⟩
  · rw [e]
  · obtain ⟨s, c, hk, hstop, hfold⟩ : ∃ s c, k.text = s ++ [c] ∧ RowLimit.isStop c = true ∧
        foldLetter c ≠ 't' := by
      cases k with
      | and => exact ⟨['A', 'N'], 'D', rfl, by decide +kernel, by decide⟩
      | or => exact ⟨['O'], 'R', rfl, by decide +kernel, by decide⟩
    rw [e, hk, ← List.append_assoc, List.append_assoc, List.singleton_append]
    exact RowLimit.limit_append_of_stop hstop hfold (by decide) _ _

end Condition

/-! ## The end of a clause -/

namespace Cleaned

variable (literals : List Text) (options : Options) (interior : List Item → Cleaned)

/-- Whether the last condition of a clause is written token by token and ends in a word that ends
in LIMIT and a number. -/
def ShowsLimit (items : List Item) : Prop :=
  Condition.isBare (placesOf literals interior (Subselect.split items).2) options
      (Condition.lastPart (tokensOf literals (Subselect.split items).2)) = true ∧
    Condition.EndsInLimit (Condition.lastPart (tokensOf literals (Subselect.split items).2))

theorem limit_predicate_iff (items : List Item) :
    (RowLimit.detach (predicate literals options interior items).text).2 ≠ none ↔
      Condition.isBare (placesOf literals interior items) options
          (Condition.lastPart (tokensOf literals items)) = true ∧
        Condition.EndsInLimit (Condition.lastPart (tokensOf literals items)) := by
  rw [predicate_eq]
  dsimp only
  rw [Condition.limit_conditions]
  exact Condition.limit_render_iff fun t ht =>
    reads_tokensOf literals interior (Condition.lastPart_subset _ ht)

/-- A cleaned clause ends in a row limit exactly if its last condition shows one. -/
theorem limit_clause_iff (items : List Item) :
    (RowLimit.detach (clause literals options interior items).text).2 ≠ none ↔
      ShowsLimit literals options interior items := by
  have hstop : ∀ c : Char, foldLetter c = 'e' → RowLimit.isStop c = true ∧ foldLetter c ≠ 't' :=
    fun c hc => ⟨RowLimit.isStop_of_foldLetter (by rw [hc]; decide), by rw [hc]; decide⟩
  rw [ShowsLimit, ← limit_predicate_iff, clause]
  dsimp only
  by_cases hleads : (Subselect.split items).1 = []
  · rw [hleads, List.map_nil, List.nil_append]
    cases (predicate literals options interior (Subselect.split items).2).text with
    | nil => rfl
    | cons c t => rw [List.isEmpty_cons, if_neg Bool.false_ne_true, joinSpaced_singleton]
  · obtain ⟨s, c, hjoin, hc⟩ := exists_leads_eq literals items hleads
    cases htext : (predicate literals options interior (Subselect.split items).2).text with
    | nil =>
      rw [List.isEmpty_nil, if_pos rfl, List.append_nil, hjoin,
        RowLimit.limit_of_last (hstop c hc).1]
      rfl
    | cons d t =>
      rw [List.isEmpty_cons, if_neg Bool.false_ne_true, joinSpaced_concat (by simpa using hleads),
        hjoin, List.append_assoc, List.singleton_append,
        RowLimit.limit_append_of_stop (hstop c hc).1 (hstop c hc).2 (by decide)]

end Cleaned

/-! ## Requests -/

/-- The row limit that was detached from a clause. -/
theorem Normal.limit_ofText (options : Options) (raw : Text) :
    (ofText options raw).limit = (RowLimit.detach (stripLeadingWhere (trim raw))).2 := by
  have hd : RowLimit.detach (stripLeadingWhere (trim raw)) =
      ((RowLimit.detach (stripLeadingWhere (trim raw))).1,
        (RowLimit.detach (stripLeadingWhere (trim raw))).2) := rfl
  rw [ofText_of_detach options hd]

/-- Where no row limit was detached, a result shows one exactly if the last condition of its clause
is written token by token and ends in LIMIT and a number. -/
theorem clean_shows_limit_iff (r : Request)
    (h : (Normal.ofText r.chosenOptions.1 r.clause).limit = none) :
    (RowLimit.detach (clean r).clause).2 ≠ none ↔
      Cleaned.ShowsLimit (Fragment.literals (Normal.stripLeadingWhere (trim r.clause)))
        r.chosenOptions.1
        (Cleaned.group (Fragment.literals (Normal.stripLeadingWhere (trim r.clause)))
          r.chosenOptions.1 Cleaned.maxNesting)
        (Lifted.items (Normal.stripLeadingWhere (trim r.clause))) := by
  rw [Normal.limit_ofText] at h
  have hclause : (clean r).clause =
      (Fragment.cleaned r.chosenOptions.1 (Cleaned.maxNesting + 1)
        (Normal.stripLeadingWhere (trim r.clause))).text :=
    cleanClauseWith_of_detach r.chosenOptions.1 (RowLimit.detach_eq_of_none h)
  rw [hclause]
  exact Cleaned.limit_clause_iff _ _ _ _

/-- A sign behind the number is dropped, and the limit before it shows. -/
theorem clean_shows_limit_before_sign :
    (Normal.ofText Options.standard "Amount > 5 LIMIT 10;".toList).limit = none ∧
      Cleaned.ShowsLimit [] Options.standard
        (Cleaned.group [] Options.standard Cleaned.maxNesting)
        ("Amount > 5 LIMIT 10;".toList.map .char) := by
  have h : (Normal.ofText Options.standard "Amount > 5 LIMIT 10;".toList).limit = none := by
    decide +kernel
  exact ⟨h, (clean_shows_limit_iff ⟨"Amount > 5 LIMIT 10;".toList, none, none⟩ h).mp
    (by decide +kernel)⟩

/-- A result may end in a row limit that was not detached from the request, and does not tell its
number. -/
theorem clean_limit_disagrees :
    (clean ⟨"Amount > 5 LIMIT 10;".toList, none, none⟩).clause = "Amount > 5 LIMIT 10".toList ∧
    (clean ⟨"Amount > 5 LIMIT 10;".toList, none, none⟩).limit = none ∧
    ¬ ∀ r : Request, (Normal.ofText r.chosenOptions.1 r.clause).limit = none →
      (RowLimit.detach (clean r).clause).2 = none := by
  refine ⟨by decide +kernel, by decide +kernel, fun h => ?_⟩
  have hnone := h ⟨"Amount > 5 LIMIT 10;".toList, none, none⟩ (by decide +kernel)
  exact absurd hnone (by decide +kernel)

end FilterClause
