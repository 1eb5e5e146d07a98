import FilterClause.Proofs.DepthCounter

/-!
# Where the characters of cleaned text come from

Cleaning takes characters from the clause, writes operators in capitals, and adds only a few
characters of its own. So it does not leave an alphabet that holds those few and has a capital for
each of its letters (`Alphabet`). One lemma for each stage shows that what is written is over the
alphabet if what is read is, up to the clause as a whole (`Alphabet.over_cleanClauseWith`). All
characters but the line feed are such an alphabet, so cleaning never breaks a line.
-/

namespace FilterClause

open Text

/-- Characters among which are those that cleaning writes of its own, and the capitals of all. -/
structure Alphabet (P : Char → Prop) : Prop where
  own : ∀ c ∈ " '()%ANDOR".toList, P c
  toUpper : ∀ c, P c → P c.toUpper

/-- Whether a text is made of characters of an alphabet. -/
def Over (P : Char → Prop) (t : Text) : Prop := ∀ c ∈ t, P c

/-- Whether the characters among items belong to an alphabet. -/
def Item.Over (P : Char → Prop) (items : List Item) : Prop := ∀ c, .char c ∈ items → P c

variable {P : Char → Prop}

/-! ## Texts -/

namespace Over

variable {s t : Text}

theorem nil : Over P [] := List.forall_mem_nil P

theorem of_subset (h : Over P t) (hs : s ⊆ t) : Over P s := fun c hc => h c (hs hc)

theorem append (hs : Over P s) (ht : Over P t) : Over P (s ++ t) :=
  List.forall_mem_append.mpr ⟨hs, ht⟩

theorem cons {c : Char} (hc : P c) (h : Over P t) : Over P (c :: t) :=
  List.forall_mem_cons.mpr ⟨hc, h⟩

theorem dropEnds (p : Char → Bool) (h : Over P t) : Over P (dropEnds p t) := by
  obtain ⟨l, r, ht, -, -⟩ := exists_eq_append_dropEnds p t
  refine h.of_subset fun c hc => ?_
  rw [ht]
  exact List.mem_append_left r (List.mem_append_right l hc)

end Over

theorem Item.Over.of_subset {xs ys : List Item} (h : Item.Over P ys) (hs : xs ⊆ ys) :
    Item.Over P xs :=
  fun c hc => h c (hs hc)

namespace Alphabet

variable (hP : Alphabet P) {t : Text}

include hP

theorem over_own {s : Text} (h : s ⊆ " '()%ANDOR".toList) : Over P s := fun c hc => hP.own c (h hc)

theorem over_space_append {s : Text} (hs : Over P s) (ht : Over P t) : Over P (s ++ ' ' :: t) :=
  hs.append (.cons (hP.own ' ' (by decide)) ht)

theorem over_joinSpaced {ts : List Text} (h : ∀ t ∈ ts, Over P t) : Over P (joinSpaced ts) := by
  intro c hc
  rcases mem_joinSpaced hc with rfl | ⟨t, ht, hc⟩
  · exact hP.own ' ' (by decide)
  · exact h t ht c hc

theorem over_upper (h : Over P t) : Over P (upper t) :=
  List.forall_mem_map.mpr fun c hc => hP.toUpper c (h c hc)

/-- A text between signs that cleaning writes of its own. -/
theorem over_enclosed {opening closing : Char} (hopening : opening ∈ " '()%ANDOR".toList)
    (hclosing : closing ∈ " '()%ANDOR".toList) (h : Over P t) :
    Over P (opening :: t ++ [closing]) :=
  (h.cons (hP.own opening hopening)).append (.cons (hP.own closing hclosing) .nil)

theorem over_quoteValue (h : Over P t) : Over P (quoteValue t) := by
  refine hP.over_enclosed (by decide) (by decide) fun d hd => ?_
  obtain ⟨c, hc, hd⟩ := List.mem_flatMap.mp hd
  split at hd
  · exact hP.own d ((by decide : [singleQuote, singleQuote] ⊆ " '()%ANDOR".toList) hd)
  · exact List.mem_singleton.mp hd ▸ h c hc

/-! ## Items and lexemes -/

section Literals

variable {literals : List Text} (hliterals : ∀ content ∈ literals, Over P content)

include hliterals

omit hP in
theorem over_getD (index : Nat) : Over P (literals.getD index []) := by
  rw [List.getD_eq_getElem?_getD]
  cases hget : literals[index]? with
  | none => exact .nil
  | some content => exact hliterals content (List.mem_of_getElem? hget)

theorem over_renderAll {items : List Item} (h : Item.Over P items) :
    Over P (Item.renderAll literals items) := by
  intro d hd
  obtain ⟨i, hi, hd⟩ := List.mem_flatMap.mp hd
  cases i with
  | char c => exact List.mem_singleton.mp hd ▸ h c hi
  | literal index =>
    exact hP.over_enclosed (by decide) (by decide) (over_getD hliterals index) d hd

/-- The lexemes of a piece are over the alphabet if its items are, and what its group is cleaned
to. -/
theorem over_lexemes {interior : List Item → Text} {p : Piece} (h : Item.Over P p.items)
    (hinterior : ∀ inside, p = .group inside → Over P (interior inside)) :
    ∀ l ∈ p.lexemes literals interior, Over P l.render := by
  cases p with
  | text t =>
    intro l hl
    obtain ⟨rest, kind, n, hsuffix, -, rfl⟩ := Lexeme.exists_of_mem_ofText hl
    have htake : Over P (rest.take n) := fun c hc =>
      h c (List.mem_map_of_mem (hsuffix.subset (List.mem_of_mem_take hc)))
    cases kind <;> exact htake
  | literal index =>
    exact List.forall_mem_singleton.mpr
      (hP.over_enclosed (by decide) (by decide) (over_getD hliterals index))
  | call name arguments =>
    have hname : Over P name := fun c hc => h c (by simp [Piece.items, hc])
    have harguments : Item.Over P arguments := fun c hc => h c (by simp [Piece.items, hc])
    have hbrackets : Over P ('(' :: Item.renderAll literals arguments ++ [')']) :=
      hP.over_enclosed (by decide) (by decide) (hP.over_renderAll hliterals harguments)
    have hcall := hname.append hbrackets
    rw [← List.append_assoc] at hcall
    exact List.forall_mem_singleton.mpr hcall
  | group inside =>
    exact List.forall_mem_singleton.mpr
      (hP.over_enclosed (by decide) (by decide) (hinterior inside rfl))

end Literals

/-! ## Conditions -/

section Conditions

variable {p : Places} {ts : List Token} (hts : ∀ t ∈ ts, Over P (p.render t))

omit hP in
/-- A token without its quotes is part of the token. -/
theorem over_renderBare {t : Token} (h : Over P (p.render t)) : Over P (p.renderBare t) := by
  obtain ⟨kind, text, offset⟩ := t
  cases kind with
  | literal index =>
    exact h.of_subset fun c hc => List.mem_append_left _ (List.mem_cons_of_mem _ hc)
  | operator => exact h
  | word => exact h
  | call => exact h
  | group index => exact h

include hts

theorem over_tokens : Over P (p.renderAll ts) :=
  hP.over_joinSpaced (List.forall_mem_map.mpr hts)

theorem over_inner {column operator : Text} :
    Over P (Comparison.inner ⟨column, operator, ts⟩ p) := by
  have hbare : Over P (p.renderAllBare ts) :=
    hP.over_joinSpaced (List.forall_mem_map.mpr fun t ht => over_renderBare (hts t ht))
  unfold Comparison.inner
  split
  · next index text offset hvalue =>
    obtain rfl : ts = [⟨.literal index, text, offset⟩] := hvalue
    have hliteral := over_renderBare (hts ⟨.literal index, text, offset⟩ List.mem_cons_self)
    exact hliteral.dropEnds _
  · exact hbare.dropEnds _

theorem over_renderValue (options : Options) {column operator : Text} :
    Over P (Comparison.renderValue ⟨column, operator, ts⟩ p options) := by
  have hinner : Over P (Comparison.inner ⟨column, operator, ts⟩ p) := hP.over_inner hts
  unfold Comparison.renderValue
  split
  · refine hP.over_quoteValue ?_
    split
    · exact hP.over_enclosed (by decide) (by decide) hinner
    · exact hinner
  · exact hP.over_tokens hts

/-- A comparison is written with its operator in capitals. -/
theorem over_condition (options : Options) : Over P (Condition.render p options ts) := by
  match ts, hts with
  | [], _ => exact .nil
  | [only], h => exact h only (by simp)
  | first :: second :: value, h =>
    have hfirst := h first (by simp)
    rw [Condition.render]
    split
    · exact hfirst
    · split
      · next hop =>
        have hsecond : Over P second.text := by
          have hrender := h second (by simp)
          rw [← render_fill, fill_of_isOperator hop] at hrender
          exact hrender
        have hfront := hP.over_space_append hfirst (hP.over_upper hsecond)
        have hvalue : Over P
            (Comparison.renderValue ⟨p.render first, second.text, value⟩ p options) :=
          hP.over_renderValue (fun t ht => h t (by simp [ht])) options
        unfold Comparison.render
        dsimp only
        split
        · exact hfront
        · exact hP.over_space_append hfront hvalue
      · exact hP.over_tokens h

omit hts in
theorem over_chain {c : Chain Text} (h : ∀ t ∈ c.things, Over P t) : Over P c.text := by
  obtain ⟨hfirst, hrest⟩ := List.forall_mem_cons.mp h
  refine hP.over_joinSpaced (List.forall_mem_cons.mpr ⟨hfirst, fun t ht => ?_⟩)
  obtain ⟨⟨k, u⟩, hmem, ht⟩ := List.mem_flatMap.mp ht
  rcases List.mem_pair.mp ht with rfl | rfl
  · cases k <;> exact hP.over_own (by decide)
  · exact hrest _ (List.mem_map_of_mem hmem)

theorem over_conditions (options : Options) : Over P (Condition.renderAll p options ts) := by
  rw [Condition.renderAll_eq]
  refine hP.over_chain ?_
  rw [Chain.things_map]
  refine List.forall_mem_map.mpr fun part hpart => hP.over_condition (fun t ht => ?_) options
  exact hts t ((Condition.of_mem_things hpart).1 ht)

end Conditions

/-! ## Clauses -/

section Clauses

variable {literals : List Text} (hliterals : ∀ content ∈ literals, Over P content)
  (options : Options) {items : List Item} (hitems : Item.Over P items)

include hliterals hitems

section Interior

variable {interior : List Item → Cleaned}
  (hinterior : ∀ inside, Item.Over P inside → Over P (interior inside).text)

include hinterior

theorem over_predicate : Over P (Cleaned.predicate literals options interior items).text := by
  rw [Cleaned.predicate_eq]
  refine hP.over_conditions (fun t ht => ?_) options
  have hmem := List.mem_map_of_mem (f := (Cleaned.placesOf literals interior items).fill) ht
  rw [Cleaned.map_fill_tokensOf, Cleaned.lexemesOf, List.mem_flatMap] at hmem
  obtain ⟨piece, hpiece, hl⟩ := hmem
  have hsub : piece.items ⊆ items := fun i hi =>
    Piece.flatMap_items_ofItems items ▸ List.mem_flatMap.mpr ⟨piece, hpiece, hi⟩
  have hpieces := hitems.of_subset hsub
  rw [← render_fill]
  refine hP.over_lexemes hliterals hpieces (fun inside he => hinterior inside ?_) _ hl
  subst he
  exact hpieces.of_subset fun i hi => by simp [Piece.items, hi]

theorem over_clause : Over P (Cleaned.clause literals options interior items).text := by
  obtain ⟨hleads, hrest⟩ := Subselect.subset_split items
  have hpredicate := hP.over_predicate hliterals options (hitems.of_subset hrest) hinterior
  refine hP.over_joinSpaced fun t ht => ?_
  rcases List.mem_append.mp ht with ht | ht
  · obtain ⟨lead, hlead, rfl⟩ := List.mem_map.mp ht
    exact (hP.over_renderAll hliterals (hitems.of_subset (hleads lead hlead))).dropEnds _
  · split at ht
    · cases ht
    · exact List.mem_singleton.mp ht ▸ hpredicate

end Interior

/-- What a group holds is cleaned within the alphabet, however deep the group is. -/
theorem over_group (levels : Nat) :
    Over P (Cleaned.group literals options levels items).text := by
  induction levels generalizing items with
  | zero => exact (hP.over_renderAll hliterals hitems).dropEnds _
  | succ levels ih => exact hP.over_clause hliterals options hitems fun inside hi => ih hi

end Clauses

end Alphabet

/-! ## Whole clauses -/

namespace Lifted

theorem subset_of_mem_parts {t : Text} :
    ∀ part ∈ parts t, part.elim (fun c => [c]) id ⊆ t := by
  unfold parts
  induction t using scan_induction literal? with
  | nil => exact nofun
  | pass c rest hc ih =>
    rw [scan_cons_of_none hc]
    refine List.forall_mem_cons.mpr ⟨?_, fun part hpart => ?_⟩
    · exact List.cons_subset.mpr ⟨List.mem_cons_self, List.nil_subset _⟩
    · exact List.subset_cons_of_subset c (ih part hpart)
  | take c rest content n hc ih =>
    obtain ⟨-, -, -, hrest⟩ := literal?_eq_some hc
    rw [scan_cons_of_some hc]
    refine List.forall_mem_cons.mpr ⟨?_, fun part hpart => ?_⟩
    · refine List.subset_cons_of_subset c fun d hd => ?_
      rw [hrest]
      exact List.mem_append_left _ hd
    · exact List.subset_cons_of_subset c
        (List.Subset.trans (ih part hpart) (List.drop_subset n rest))

end Lifted

theorem Over.items {t : Text} (h : Over P t) : Item.Over P (Lifted.items t) := fun c hc =>
  h c (Lifted.subset_of_mem_parts _ (Item.mem_of_char_mem_number hc) List.mem_cons_self)

theorem Over.literals {t : Text} (h : Over P t) :
    ∀ content ∈ Fragment.literals t, Over P content := by
  intro content hcontent
  obtain ⟨part, hpart, he⟩ := List.mem_filterMap.mp hcontent
  obtain rfl := Sum.getRight?_eq_some_iff.mp he
  exact h.of_subset (Lifted.subset_of_mem_parts _ hpart)

/-- The normal form of a clause does not leave the alphabet of the clause. -/
theorem Alphabet.over_cleanClauseWith (hP : Alphabet P) (options : Options) {raw : Text}
    (h : Over P raw) : Over P (cleanClauseWith options raw) := by
  obtain ⟨⟨body, limit⟩, hd⟩ :
      ∃ parts, RowLimit.detach (Normal.stripLeadingWhere (trim raw)) = parts := ⟨_, rfl⟩
  obtain ⟨front, back, hraw, -, -⟩ := Normal.exists_eq_of_detach hd
  have hbody : Over P body := h.of_subset fun c hc => by simp [hraw, hc]
  have hcleaned : Over P (Fragment.cleaned options (Cleaned.maxNesting + 1) body).text :=
    hP.over_group hbody.literals options hbody.items _
  rw [cleanClauseWith_of_detach options hd]
  cases limit with
  | none => exact hcleaned
  | some limit =>
    obtain ⟨keyword, hstrip, -⟩ := Normal.exists_eq_stripLeadingWhere (trim raw)
    obtain ⟨before, after, hsplit, -⟩ := RowLimit.exists_of_detach hd
    have hlimit : Over P limit.text := (h.dropEnds isBlank).of_subset fun c hc => by
      rw [← trim, hstrip, hsplit]
      simp [hc]
    unfold RowLimit.attach
    dsimp only
    split
    · exact hlimit
    · exact hP.over_space_append hcleaned hlimit

/-- Every character but the line feed. -/
theorem Alphabet.lineless : Alphabet (· ≠ '\n') where
  own := by decide
  toUpper c hc := by
    by_cases h : c.toNat < 128
    · exact forall_ascii (P := fun c => c ≠ '\n' → c.toUpper ≠ '\n') (by decide) h hc
    · rwa [toUpper_of_le (Nat.le_of_not_lt h)]

/-- A clause without a line feed has a normal form without one. -/
theorem lineFeed_not_mem_cleanClauseWith (options : Options) {raw : Text} (h : '\n' ∉ raw) :
    '\n' ∉ cleanClauseWith options raw := fun hm =>
  Alphabet.lineless.over_cleanClauseWith options (fun _ hc e => h (e ▸ hc)) '\n' hm rfl

end FilterClause
