import FilterClause.Clause.Normal
import FilterClause.Proofs.Padding
import FilterClause.Proofs.RowLimits

/-!
# Whole clauses

A whole clause loses the blanks at its ends, a leading WHERE and its row limit. What is left is
cleaned like the interior of a group, one level above the first, and the limit is put back behind
it (`cleanClauseWith_of_detach`).
-/

namespace FilterClause

open Text

/-! ## What a whole clause loses -/

/-- A row limit has no quote and no bracket. -/
theorem RowLimit.Spelled.plain {limit : RowLimit} (h : limit.Spelled) :
    Fragment.Plain limit.text := by
  obtain ⟨keyword, gap, digits, rfl, hkeyword, -, hgap, -, hdigits⟩ := h
  refine ((Fragment.Plain.of_spelling hkeyword (by decide)).append (.of_blanks hgap)).append
    (.of_isWordPart fun c hc => ?_)
  simp [Token.isWordPart, isWord_of_isWordDigit (hdigits c hc)]

/-- A trimmed text is a part of the text. -/
theorem Fragment.items_trim_part (t : Text) : Lifted.items (trim t) <:+: Lifted.items t := by
  obtain ⟨l, r, ht, hl, hr⟩ := exists_eq_append_dropEnds isBlank t
  refine ⟨l.map .char, r.map .char, ?_⟩
  conv_rhs => rw [ht]
  rw [items_padded (.of_blanks hl) (.of_blanks hr), List.append_assoc]
  rfl

namespace Normal

open Fragment

theorem exists_eq_stripLeadingWhere (t : Text) :
    ∃ front, t = front ++ stripLeadingWhere t ∧ Plain front := by
  unfold stripLeadingWhere
  split
  · next rest hs =>
    split
    · exact ⟨[], rfl, nofun⟩
    · obtain ⟨w, rfl, hk⟩ := stripKeyword_eq_some_iff.mp hs
      refine ⟨w ++ rest.takeWhile isBlank, ?_, (Plain.of_spelling hk (by decide)).append
        (.of_blanks fun c hc => all_of_mem_takeWhile hc)⟩
      rw [List.append_assoc, trimStart, List.takeWhile_append_dropWhile]
  · exact ⟨[], rfl, nofun⟩

/-- No quote and no bracket is among what is taken off at the ends of a whole clause. -/
theorem exists_eq_of_detach {raw body : Text} {limit : Option RowLimit}
    (hd : RowLimit.detach (stripLeadingWhere (Text.trim raw)) = (body, limit)) :
    ∃ front back, raw = front ++ body ++ back ∧ Plain front ∧ Plain back := by
  obtain ⟨l, r, hraw, hl, hr⟩ := exists_eq_append_dropEnds isBlank raw
  obtain ⟨front, hstrip, hfront⟩ := exists_eq_stripLeadingWhere (Text.trim raw)
  have hleft := (Plain.of_blanks hl).append hfront
  have hright := Plain.of_blanks hr
  rw [← Text.trim, hstrip] at hraw
  cases limit with
  | none =>
    have hnone := RowLimit.detach_eq_of_none (congrArg Prod.snd hd)
    obtain rfl := (Prod.mk.inj (hnone.symm.trans hd)).1
    exact ⟨l ++ front, r, by simpa using hraw, hleft, hright⟩
  | some limit =>
    obtain ⟨before, after, hsplit, rfl, hspelled, -, hafter⟩ := RowLimit.exists_of_detach hd
    obtain ⟨blanks, hbefore, hblanks⟩ : ∃ blanks, before = trimEnd before ++ blanks ∧
        ∀ c ∈ blanks, isBlank c = true := exists_eq_dropEnd_append isBlank before
    refine ⟨l ++ front, blanks ++ limit.text ++ after ++ r, ?_, hleft,
      (((Plain.of_blanks hblanks).append hspelled.plain).append (.of_blanks hafter)).append hright⟩
    rw [hsplit, hbefore] at hraw
    simpa using hraw

/-! ## The body of a clause -/

/-- Segments that hold nothing but blanks have blank items. -/
theorem blank_items {t : Text} (h : Segment.allBlank (Lifted.ofText t).segments = true) :
    (Lifted.items t).all Item.isBlank = true := by
  rw [← Lifted.ofSegments_ofText]
  simp only [Segment.allBlank, List.all_eq_true] at h
  rw [List.all_eq_true]
  intro i hi
  obtain ⟨s, hs, his⟩ := List.mem_flatMap.mp hi
  have := h s hs
  cases s with
  | text t =>
    obtain ⟨c, hc, rfl⟩ := List.mem_map.mp his
    exact List.all_eq_true.mp this c hc
  | literal n => cases this
  | group n => cases this
  | call t => cases this

/-- Blank items are cleaned to nothing. -/
theorem cleaned_of_blank (options : Options) (levels : Nat) {t : Text}
    (h : (Lifted.items t).all Item.isBlank = true) :
    cleaned options (levels + 1) t = ⟨[], false, false⟩ := by
  have hname : ∀ i ∈ Lifted.items t, i.isName = false := by
    intro i hi
    have hblank := List.all_eq_true.mp h i hi
    cases i with
    | char c => exact isName_of_isBlank hblank
    | literal n => rfl
  rw [cleaned, Cleaned.group, Cleaned.clause,
    Subselect.split_of_whereFree (Subselect.whereFree_of_not_isName hname false)]
  dsimp only
  rw [Cleaned.predicate, if_pos h]
  rfl

section Detached

variable (options : Options) {t body : Text} {limit : Option RowLimit}
  (hd : RowLimit.detach (stripLeadingWhere t) = (body, limit))

include hd

/-- The body of a clause is cleaned, and its row limit is put back. -/
theorem ofTrimmed_of_detach :
    ofTrimmed options t =
      { text := RowLimit.attach (cleaned options (Cleaned.maxNesting + 1) body).text limit
        limit
        strayQuote := (Lifted.ofText body).hasStrayQuote
        looseBracket := (cleaned options (Cleaned.maxNesting + 1) body).looseBracket
        tooDeep := (cleaned options (Cleaned.maxNesting + 1) body).tooDeep } := by
  have hcleaned : (if Segment.allBlank (Lifted.ofText body).segments then
        (⟨[], false, false⟩ : Cleaned)
      else Cleaned.ofItems (Lifted.ofText body).literals options
        (Item.ofSegments (Lifted.ofText body).segments)) =
        cleaned options (Cleaned.maxNesting + 1) body := by
    split
    · next hblank => exact (cleaned_of_blank options _ (blank_items hblank)).symm
    · rw [Lifted.ofSegments_ofText]
      rfl
  simp only [ofTrimmed, hd, hcleaned]

/-- A clause whose body is a fragment. -/
theorem ofTrimmed_eq (h : Fragment body) :
    ofTrimmed options t =
      { text := RowLimit.attach (cleaned options (Cleaned.maxNesting + 1) body).text limit
        limit
        strayQuote := false
        looseBracket := (cleaned options (Cleaned.maxNesting + 1) body).looseBracket
        tooDeep := (cleaned options (Cleaned.maxNesting + 1) body).tooDeep } := by
  rw [ofTrimmed_of_detach options hd, (Lifted.hasStrayQuote_eq_false_iff body).mpr h.closed]

end Detached

theorem stripKeyword_of_lacksWhere {t : Text} (h : Subselect.LacksWhere (Lifted.items t)) :
    stripKeyword ['w', 'h', 'e', 'r', 'e'] t = none := by
  refine stripKeyword_eq_none fun w rest ht hk => ?_
  have hquote := (Plain.of_spelling hk (by decide)).not_quote
  have hitems : Lifted.items t = w.map .char ++ Lifted.items rest := by
    rw [ht, Lifted.items_append_of_no_quotes hquote]
  have hspells := h _ (List.suffix_refl _)
  rw [hitems, Subselect.spellsWhere_map_char_append hk] at hspells
  cases hspells

theorem stripLeadingWhere_of_lacksWhere {t : Text}
    (h : Subselect.LacksWhere (Lifted.items t)) :
    stripLeadingWhere (Text.trim t) = Text.trim t := by
  rw [stripLeadingWhere, stripKeyword_of_lacksWhere (h.of_part (items_trim_part t))]

/-- A text from which no WHERE is taken keeps it from being taken off what goes on behind it. -/
theorem stripLeadingWhere_append_stop {s : Text} (h : stripLeadingWhere s = s) {c : Char}
    (hk : foldLetter c ∉ ['w', 'h', 'e', 'r', 'e']) (hc : isWord c = false) (t : Text) :
    stripLeadingWhere (s ++ c :: t) = s ++ c :: t := by
  rw [stripLeadingWhere, stripKeyword_append_stop hk]
  unfold stripLeadingWhere at h
  cases hs : stripKeyword ['w', 'h', 'e', 'r', 'e'] s with
  | none => rfl
  | some tail =>
    obtain ⟨w, hw, hfold⟩ := stripKeyword_eq_some_iff.mp hs
    have hword : startsWithWord tail = true := by
      refine Bool.of_not_eq_false fun hno => ?_
      rw [hs] at h
      dsimp only at h
      rw [hno, if_neg Bool.false_ne_true, hw] at h
      have hlength : w.length = 5 := by simpa using congrArg List.length hfold
      have hshort := (List.dropWhile_sublist (l := tail) isBlank).length_le
      rw [← trimStart, h, List.length_append] at hshort
      omega
    rw [Option.map_some]
    exact if_pos ((startsWithWord_append_stop hc tail _).trans hword)

end Normal

section Detached

variable (options : Options) {raw body : Text} {limit : Option RowLimit}
  (hd : RowLimit.detach (Normal.stripLeadingWhere (trim raw)) = (body, limit))

include hd

/-- What is noticed of a clause, told by its body and its row limit. -/
theorem Normal.ofText_of_detach :
    ofText options raw =
      { text := RowLimit.attach
          (Fragment.cleaned options (Cleaned.maxNesting + 1) body).text limit
        limit
        strayQuote := (Lifted.ofText body).hasStrayQuote
        looseBracket := (Fragment.cleaned options (Cleaned.maxNesting + 1) body).looseBracket
        tooDeep := (Fragment.cleaned options (Cleaned.maxNesting + 1) body).tooDeep } := by
  rw [ofText]
  split
  · next hempty =>
    rw [List.isEmpty_iff.mp hempty] at hd
    obtain ⟨rfl, rfl⟩ := Prod.mk.inj hd
    rfl
  · rw [ofTrimmed_of_detach options hd]

/-- The normal form of a clause, told by its body and its row limit. -/
theorem cleanClauseWith_of_detach :
    cleanClauseWith options raw =
      RowLimit.attach (Fragment.cleaned options (Cleaned.maxNesting + 1) body).text limit := by
  rw [cleanClauseWith, Normal.ofText_of_detach options hd]

end Detached

/-- A clause without a leading WHERE and a row limit is cleaned as it stands, if its brackets
balance. -/
theorem cleanClauseWith_of_balanced (options : Options) {t : Text}
    (hb : Bracket.Balanced (Lifted.items t))
    (hwhere : Normal.stripLeadingWhere (trim t) = trim t) (hlimit : (RowLimit.detach t).2 = none) :
    cleanClauseWith options t =
      (Fragment.cleaned options (Cleaned.maxNesting + 1) t).text := by
  have hd : RowLimit.detach (Normal.stripLeadingWhere (trim t)) = (trim t, none) := by
    rw [hwhere]
    exact RowLimit.detach_eq_of_none ((RowLimit.limit_trim t).trans hlimit)
  rw [cleanClauseWith_of_detach options hd, RowLimit.attach_none,
    Fragment.cleaned_trim options _ hb]

end FilterClause
