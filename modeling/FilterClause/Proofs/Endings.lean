import FilterClause.Proofs.Spellings
import FilterClause.Proofs.Subselects

/-!
# How cleaned text starts and ends

Every token is written without a blank at its ends, and so is everything that is made of tokens: a
value, a comparison, a condition, the conditions joined by connectives. Cleaned text is its last
part behind spaces, and there is nothing to trim at its ends (`Cleaned.flush_clause`,
`Cleaned.solid_clause`).
-/

namespace FilterClause

open Text

namespace Text

/-- Whether a text ends in something other than a blank. -/
def Solid (t : Text) : Prop := ∃ c ∈ t.getLast?, isBlank c = false

namespace Solid

variable {t : Text}

theorem ne_nil (h : Solid t) : t ≠ [] := by
  rintro rfl
  obtain ⟨c, hc, -⟩ := h
  cases hc

theorem last (h : Solid t) : ∀ c ∈ t.getLast?, isBlank c = false := by
  obtain ⟨d, hd, hb⟩ := h
  exact fun c hc => Option.mem_unique hd hc ▸ hb

theorem append (h : Solid t) (s : Text) : Solid (s ++ t) := by
  obtain ⟨c, hc, hb⟩ := h
  exact ⟨c, List.mem_getLast?_append_of_mem_getLast? hc, hb⟩

theorem cons (h : Solid t) (c : Char) : Solid (c :: t) := h.append [c]

theorem concat (s : Text) {c : Char} (h : isBlank c = false) : Solid (s ++ [c]) :=
  ⟨c, List.getLast?_concat, h⟩

theorem of_forall (hne : t ≠ []) (h : ∀ c ∈ t, isBlank c = false) : Solid t :=
  ⟨t.getLast hne, List.getLast?_eq_some_getLast hne, h _ (List.getLast_mem hne)⟩

end Solid

theorem joinSpaced_concat {ts : List Text} (hne : ts ≠ []) (t : Text) :
    joinSpaced (ts ++ [t]) = joinSpaced ts ++ ' ' :: t := by
  rw [joinSpaced_append hne (by simp), joinSpaced_singleton]

theorem Solid.joinSpaced {t : Text} (h : Solid t) (ts : List Text) :
    Solid (joinSpaced (ts ++ [t])) := by
  by_cases hne : ts = []
  · rw [hne, List.nil_append, joinSpaced_singleton]
    exact h
  · rw [joinSpaced_concat hne]
    exact (h.cons ' ').append _

theorem solid_joinSpaced {ts : List Text} (hne : ts ≠ []) (h : ∀ t ∈ ts, Solid t) :
    Solid (Text.joinSpaced ts) := by
  rcases List.eq_nil_or_concat ts with rfl | ⟨ts, t, rfl⟩
  · exact absurd rfl hne
  · rw [List.concat_eq_append] at h ⊢
    exact (h t (by simp)).joinSpaced ts

/-- Whether a text starts with something other than a blank. -/
def Flush (t : Text) : Prop := ∃ c ∈ t.head?, isBlank c = false

namespace Flush

variable {t : Text}

theorem ne_nil (h : Flush t) : t ≠ [] := by
  rintro rfl
  obtain ⟨c, hc, -⟩ := h
  cases hc

theorem cons {c : Char} (h : isBlank c = false) (t : Text) : Flush (c :: t) := ⟨c, rfl, h⟩

theorem append (h : Flush t) (s : Text) : Flush (t ++ s) := by
  obtain ⟨c, hc, hb⟩ := h
  obtain ⟨u, rfl⟩ := List.head?_eq_some_iff.mp hc
  exact .cons hb _

theorem of_forall (hne : t ≠ []) (h : ∀ c ∈ t, isBlank c = false) : Flush t := by
  obtain ⟨c, u, rfl⟩ := List.exists_cons_of_ne_nil hne
  exact .cons (h c List.mem_cons_self) u

theorem joinSpaced (h : Flush t) (ts : List Text) : Flush (joinSpaced (t :: ts)) := by
  by_cases hne : ts = []
  · rw [hne, joinSpaced_singleton]
    exact h
  · rw [joinSpaced_cons hne]
    exact h.append _

theorem head (h : Flush t) : ∀ c ∈ t.head?, isBlank c = false := by
  obtain ⟨c, hc, hb⟩ := h
  exact fun d hd => Option.mem_unique hc hd ▸ hb

theorem trim (h : Flush t) (hs : Solid t) : Text.trim t = t := by
  rw [Text.trim, dropEnds, dropWhile_of_head h.head, dropEnd_of_last hs.last]

/-- The blanks around two texts are those behind the second. -/
theorem trim_append (h : Flush t) {s : Text} (hs : ∀ c ∈ s.head?, isBlank c = false)
    (hne : Text.trim s ≠ []) : Text.trim (t ++ s) = t ++ Text.trim s := by
  obtain ⟨r, hr, hblank⟩ := exists_eq_dropEnd_append isBlank s
  have htrim : Text.trim s = dropEnd isBlank s := by
    rw [Text.trim, dropEnds, dropWhile_of_head hs]
  have hwhole : t ++ s = [] ++ (t ++ Text.trim s) ++ r := by
    rw [List.nil_append, List.append_assoc, htrim, ← hr]
  have hlast : ∀ c ∈ (t ++ Text.trim s).getLast?, isBlank c = false := by
    rw [List.getLast?_append_of_ne_nil _ hne]
    exact getLast?_dropEnds s
  rw [hwhole]
  exact dropEnds_padded (by simp) hblank (h.append _).head hlast

end Flush

end Text

/-! ## Tokens -/

/-- A lexeme is written without a blank at its end. -/
theorem Lexeme.ReadFrom.solid {literals : List Text} {interior : List Item → Text}
    {gs : List (Item ⊕ List Item)} {l : Lexeme} (h : l.ReadFrom literals interior gs) :
    Solid l.render := by
  cases l with
  | operator s =>
    exact .of_forall (Token.SpellsOperator.ne_nil h) (Token.SpellsOperator.not_blank h)
  | word s => exact .of_forall h.1 fun c hc => isBlank_of_isWordPart (h.2.1 c hc)
  | call s =>
    obtain ⟨name, arguments, rfl, -⟩ := h
    exact .concat _ (by decide)
  | literal content => exact .concat (singleQuote :: content) (by decide)
  | group t => exact .concat ('(' :: t) (by decide)

/-- A lexeme is written without a blank at its start. -/
theorem Lexeme.ReadFrom.flush {literals : List Text} {interior : List Item → Text}
    {gs : List (Item ⊕ List Item)} {l : Lexeme} (h : l.ReadFrom literals interior gs) :
    Flush l.render := by
  cases l with
  | operator s => exact .of_forall (Token.SpellsOperator.ne_nil h) (Token.SpellsOperator.not_blank h)
  | word s => exact .of_forall h.1 fun c hc => isBlank_of_isWordPart (h.2.1 c hc)
  | call s =>
    obtain ⟨name, arguments, rfl, hname, -⟩ := h
    rw [render, List.append_assoc]
    cases name with
    | nil => exact .cons (by decide) _
    | cons c name => exact .cons (hname c List.mem_cons_self) _
  | literal content => exact .cons (by decide) _
  | group t => exact .cons (by decide) _

namespace Places.Reads

variable {p : Places} {t : Token} (h : p.Reads t)

include h

theorem flush : Flush (p.render t) := by
  obtain ⟨literals, interior, gs, hread⟩ := h
  rw [← render_fill]
  exact hread.flush

theorem solid : Solid (p.render t) := by
  obtain ⟨literals, interior, gs, hread⟩ := h
  rw [← render_fill]
  exact hread.solid

theorem solid_upper (hop : t.isOperator = true) : Solid (upper t.text) := by
  obtain ⟨literals, interior, gs, hread⟩ := h
  rw [fill_of_isOperator hop] at hread
  exact (hread.upper literals interior gs).solid

end Places.Reads

/-! ## Conditions -/

section Conditions

variable {p : Places} {options : Options}

theorem Places.solid_renderAll {ts : List Token} (hne : ts ≠ []) (h : ∀ t ∈ ts, p.Reads t) :
    Solid (p.renderAll ts) := by
  refine solid_joinSpaced (by simpa using hne) fun u hu => ?_
  obtain ⟨t, ht, rfl⟩ := List.mem_map.mp hu
  exact (h t ht).solid

theorem Comparison.solid_render {c : Comparison} (hop : Solid (upper c.operator))
    (hv : ∀ t ∈ c.value, p.Reads t) : Solid (c.render p options) := by
  have hfront : Solid (c.column ++ ' ' :: upper c.operator) := (hop.cons _).append _
  have hvalue : c.renderValue p options = [] ∨ Solid (c.renderValue p options) := by
    unfold renderValue
    split
    · exact .inr (.concat (singleQuote :: _) (by decide))
    · by_cases hne : c.value = []
      · rw [hne]
        exact .inl joinSpaced_nil
      · exact .inr (Places.solid_renderAll hne hv)
  unfold render
  dsimp only
  split
  · exact hfront
  · next hempty =>
    rcases hvalue with h | h
    · rw [h] at hempty
      exact absurd rfl hempty
    · exact (h.cons _).append _

theorem Condition.solid_render {ts : List Token} (hne : ts ≠ []) (h : ∀ t ∈ ts, p.Reads t) :
    Solid (Condition.render p options ts) := by
  match ts, hne with
  | [only], _ => exact (h only (by simp)).solid
  | first :: second :: value, hne =>
    rw [Condition.render]
    split
    · exact (h first (by simp)).solid
    · split
      · next hop =>
        exact Comparison.solid_render ((h second (by simp)).solid_upper hop)
          fun t ht => h t (by simp [ht])
      · exact Places.solid_renderAll hne h

/-- A chain of texts is its last text, alone or behind a connective. -/
theorem Chain.text_eq_last (c : Chain Text) :
    c.text = c.last ∨
      ∃ (front : Text) (k : Connective), c.text = front ++ k.text ++ ' ' :: c.last := by
  obtain ⟨first, rest⟩ := c
  rcases List.eq_nil_or_concat rest with rfl | ⟨rest, ⟨k, t⟩, rfl⟩
  · exact .inl (joinSpaced_singleton first)
  · rw [List.concat_eq_append]
    have hlast : last ⟨first, rest ++ [(k, t)]⟩ = t := by
      rw [last, List.getLast?_concat]
      rfl
    have htext : text ⟨first, rest ++ [(k, t)]⟩ =
        joinSpaced ((first :: rest.flatMap fun x => [x.1.text, x.2]) ++ [k.text] ++ [t]) := by
      rw [text, List.flatMap_append]
      simp
    rw [hlast, htext, joinSpaced_concat (by simp), joinSpaced_concat (by simp)]
    exact .inr ⟨_, k, by rw [List.append_cons _ ' ' k.text, List.append_assoc]⟩

/-- Conditions are written as the last one, alone or behind a connective. -/
theorem Condition.renderAll_eq_last (p : Places) (options : Options) (ts : List Token) :
    renderAll p options ts = render p options (lastPart ts) ∨
      ∃ (front : Text) (k : Connective),
        renderAll p options ts = front ++ k.text ++ ' ' :: render p options (lastPart ts) := by
  rw [renderAll_eq, lastPart, ← Chain.last_map (render p options)]
  exact Chain.text_eq_last _

theorem Condition.solid_renderAll {ts : List Token} (hne : ts ≠ []) (h : ∀ t ∈ ts, p.Reads t) :
    Solid (renderAll p options ts) := by
  have hlast : Solid (render p options (lastPart ts)) :=
    solid_render (lastPart_ne_nil hne) fun t ht => h t (lastPart_subset ts ht)
  rcases renderAll_eq_last p options ts with e | ⟨front, k, e⟩
  · rw [e]
    exact hlast
  · rw [e]
    exact (hlast.cons ' ').append _

theorem Condition.flush_render {ts : List Token} (hne : ts ≠ []) (h : ∀ t ∈ ts, p.Reads t) :
    Flush (Condition.render p options ts) := by
  match ts, hne with
  | [only], _ => exact (h only (by simp)).flush
  | first :: second :: value, _ =>
    have hfirst := (h first (by simp)).flush
    rw [Condition.render]
    split
    · exact hfirst
    · split
      · have hfront := hfirst.append (' ' :: upper second.text)
        unfold Comparison.render
        dsimp only
        split
        · exact hfront
        · exact hfront.append _
      · exact hfirst.joinSpaced _

theorem Condition.flush_renderAll {ts : List Token} (hne : ts ≠ []) (h : ∀ t ∈ ts, p.Reads t) :
    Flush (renderAll p options ts) := by
  obtain ⟨hsub, hpart⟩ := @of_mem_things [] ts (splitBehind [] ts).first List.mem_cons_self
  rw [renderAll_eq]
  exact (flush_render (hpart hne) fun t ht => h t (hsub ht)).joinSpaced _

end Conditions

/-! ## Clauses -/

namespace Cleaned

variable (literals : List Text) (options : Options) (interior : List Item → Cleaned)
  (items : List Item)

/-- A cleaned predicate is empty or ends in no blank. -/
theorem solid_predicate :
    (predicate literals options interior items).text = [] ∨
      Solid (predicate literals options interior items).text := by
  rw [predicate_eq]
  by_cases hne : tokensOf literals items = []
  · rw [hne]
    exact .inl rfl
  · exact .inr (Condition.solid_renderAll hne fun t ht => reads_tokensOf literals interior ht)

/-- A lead ends in the last letter of WHERE. -/
theorem exists_lead_eq {lead : List Item} (h : lead ∈ (Subselect.split items).1) :
    ∃ front c, trim (Item.renderAll literals lead) = front ++ [c] ∧ foldLetter c = 'e' := by
  obtain ⟨before, w, hw, rfl⟩ := Subselect.exists_of_mem_leads h
  rcases List.eq_nil_or_concat w with rfl | ⟨w, c, rfl⟩
  · cases hw
  · rw [List.concat_eq_append] at hw ⊢
    rw [List.map_append] at hw
    have hletters : ['w', 'h', 'e', 'r', 'e'] = ['w', 'h', 'e', 'r'] ++ ['e'] := rfl
    have hc : foldLetter c = 'e' := (List.cons.inj (List.append_inj' (hw.trans hletters) rfl).2).1
    have hblank : isBlank c = false :=
      isBlank_of_isWord (isWord_of_foldLetter (by rw [hc]; decide))
    refine ⟨trimStart (Item.renderAll literals before ++ w), c, ?_, hc⟩
    rw [Item.renderAll_append, Item.renderAll_map_char, ← List.append_assoc, trim, dropEnds,
      dropWhile_append_stop hblank, dropEnd_append_stop _ hblank]
    rfl

theorem exists_leads_eq (h : (Subselect.split items).1 ≠ []) :
    ∃ front c, joinSpaced ((Subselect.split items).1.map
      fun lead => trim (Item.renderAll literals lead)) = front ++ [c] ∧ foldLetter c = 'e' := by
  rcases List.eq_nil_or_concat (Subselect.split items).1 with hnil | ⟨leads, lead, hleads⟩
  · exact absurd hnil h
  · obtain ⟨front, c, hfront, hc⟩ := exists_lead_eq literals items
      (show lead ∈ (Subselect.split items).1 by rw [hleads]; simp)
    rw [hleads, List.concat_eq_append, List.map_append, List.map_singleton, hfront]
    by_cases hne : leads.map (fun lead => trim (Item.renderAll literals lead)) = []
    · rw [hne, List.nil_append, joinSpaced_singleton]
      exact ⟨front, c, rfl, hc⟩
    · rw [joinSpaced_concat hne, ← List.cons_append, ← List.append_assoc]
      exact ⟨_, c, rfl, hc⟩

theorem flush_predicate :
    (predicate literals options interior items).text = [] ∨
      Flush (predicate literals options interior items).text := by
  rw [predicate_eq]
  by_cases hne : tokensOf literals items = []
  · rw [hne]
    exact .inl rfl
  · exact .inr (Condition.flush_renderAll hne fun t ht => reads_tokensOf literals interior ht)

/-- A cleaned clause is empty or starts with no blank. -/
theorem flush_clause :
    (clause literals options interior items).text = [] ∨
      Flush (clause literals options interior items).text := by
  unfold clause
  dsimp only
  cases hleads : (Subselect.split items).1 with
  | nil =>
    rcases flush_predicate literals options interior (Subselect.split items).2 with hnil | hflush
    · rw [hnil]
      exact .inl joinSpaced_nil
    · rw [List.isEmpty_eq_false_iff.mpr hflush.ne_nil, if_neg Bool.false_ne_true]
      exact .inr (hflush.joinSpaced _)
  | cons lead leads =>
    obtain ⟨front, c, hlead, -⟩ := exists_lead_eq literals items (hleads ▸ List.mem_cons_self)
    obtain ⟨d, t, htrim⟩ : ∃ d t, trim (Item.renderAll literals lead) = d :: t :=
      List.exists_cons_of_ne_nil (by rw [hlead]; simp)
    have hflush : Flush (trim (Item.renderAll literals lead)) := by
      have hhead := head?_dropEnds (p := isBlank) (Item.renderAll literals lead)
      rw [← Text.trim, htrim] at hhead
      exact htrim ▸ .cons (hhead d rfl) t
    exact .inr (hflush.joinSpaced _)

/-- A cleaned clause is empty or ends in no blank. -/
theorem solid_clause :
    (clause literals options interior items).text = [] ∨
      Solid (clause literals options interior items).text := by
  unfold clause
  dsimp only
  rcases solid_predicate literals options interior (Subselect.split items).2 with hnil | hsolid
  · rw [hnil, List.isEmpty_nil, if_pos rfl, List.append_nil]
    by_cases hleads : (Subselect.split items).1 = []
    · rw [hleads]
      exact .inl joinSpaced_nil
    · obtain ⟨front, c, hfront, hc⟩ := exists_leads_eq literals items hleads
      rw [hfront]
      exact .inr (.concat _ (isBlank_of_isWord (isWord_of_foldLetter (by rw [hc]; decide))))
  · rw [List.isEmpty_eq_false_iff.mpr hsolid.ne_nil, if_neg Bool.false_ne_true]
    exact .inr (hsolid.joinSpaced _)

end Cleaned

end FilterClause
