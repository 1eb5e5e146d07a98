import FilterClause.Proofs.Idempotence
import FilterClause.Proofs.LooseRendering

/-!
# What is kept is written with single quotes

A text that is kept as it is written is kept but for the quotes of its literals: a literal comes
back between single quotes, whatever quotes it was written with (`requoted`). So a text is kept
unchanged exactly if none of its literals stands between double quotes (`requoted_eq_self_iff`). A
lead is kept in this way, and what follows its WHERE is cleaned as if nothing stood before it
(`cleanClauseWith_lead`).
-/

namespace FilterClause

open Text

/-! ## Quotes that close -/

namespace Lifted

/-- A literal ends at the first quote like the one that opens it. -/
theorem literal_unique {q : Char} {s t u v : Text} (hs : q ∉ s) (ht : q ∉ t)
    (h : s ++ q :: u = t ++ q :: v) : s = t ∧ u = v := by
  have hstart := congrArg (List.takeWhile (· != q)) h
  rw [takeWhile_ne_append hs, takeWhile_ne_append ht] at hstart
  subst hstart
  exact ⟨rfl, (List.cons.inj (List.append_cancel_left h)).2⟩

/-- The quote at the start of a text whose quotes all close opens a literal. -/
theorem Closed.exists_literal {q : Char} (hq : isQuote q = true) {rest : Text}
    (h : Closed (q :: rest)) :
    ∃ content behind, rest = content ++ q :: behind ∧ q ∉ content ∧ Closed behind := by
  cases hf : literal? q rest with
  | none =>
    rw [Closed, parts, scan_cons_of_none hf] at h
    rw [h q List.mem_cons_self] at hq
    cases hq
  | some found =>
    obtain ⟨content, n⟩ := found
    obtain ⟨-, hc, -, hrest⟩ := literal?_eq_some hf
    rw [hrest] at h
    exact ⟨content, rest.drop n, hrest, hc, (closed_literal_iff hq hc).mp h⟩

end Lifted

/-! ## Single quotes for double quotes -/

/-- A text with each of its literals between single quotes. -/
def Text.requoted (t : Text) : Text := Item.renderAll (Fragment.literals t) (Lifted.items t)

namespace Text

theorem requoted_eq (t : Text) : requoted t = (Lifted.parts t).flatMap Item.renderPart := by
  rw [requoted, Item.renderAll_eq, Lifted.parts_items]

theorem requoted_append {s : Text} (hs : Lifted.Closed s) (t : Text) :
    requoted (s ++ t) = requoted s ++ requoted t := by
  rw [requoted_eq, requoted_eq, requoted_eq, Lifted.parts_append_of_closed hs, List.flatMap_append]

theorem requoted_of_no_quotes {t : Text} (h : ∀ c ∈ t, Lifted.isQuote c = false) :
    requoted t = t := by
  rw [requoted_eq, Lifted.parts_of_no_quotes h, List.flatMap_map]
  exact List.flatMap_singleton' t

theorem requoted_cons {c : Char} (h : Lifted.isQuote c = false) (rest : Text) :
    requoted (c :: rest) = c :: requoted rest := by
  rw [requoted_eq, requoted_eq, Lifted.parts_cons_of_not_quote h]
  rfl

theorem requoted_literal {q : Char} (hq : Lifted.isQuote q = true) {content : Text}
    (hc : q ∉ content) (rest : Text) :
    requoted (q :: (content ++ q :: rest)) =
      singleQuote :: (content ++ singleQuote :: requoted rest) := by
  rw [requoted_eq, requoted_eq, Lifted.parts_literal hq hc, List.flatMap_cons, Item.renderPart]
  simp

theorem Flush.requoted {t : Text} (h : Flush t) : Flush (requoted t) := by
  obtain ⟨c, hc, hb⟩ := h
  obtain ⟨rest, rfl⟩ := List.head?_eq_some_iff.mp hc
  rw [requoted_eq, Lifted.parts]
  cases hf : Lifted.literal? c rest with
  | none =>
    rw [scan_cons_of_none hf]
    exact .cons hb _
  | some found =>
    rw [scan_cons_of_some hf]
    exact .cons (by decide) _

/-! ## Literals between double quotes -/

/-- Whether none of the literals stands between double quotes: behind quotes that all close, a double
quote is not closed by the next. -/
def LacksDoubleQuoted (t : Text) : Prop :=
  ∀ before content rest, t = before ++ doubleQuote :: (content ++ doubleQuote :: rest) →
    Lifted.Closed before → doubleQuote ∈ content

theorem lacksDoubleQuoted_nil : LacksDoubleQuoted [] := by
  intro before content rest h
  simp at h

theorem lacksDoubleQuoted_cons_iff {c : Char} (hc : Lifted.isQuote c = false) {rest : Text} :
    LacksDoubleQuoted (c :: rest) ↔ LacksDoubleQuoted rest := by
  constructor
  · intro h before content behind hrest hbefore
    exact h (c :: before) content behind (congrArg (c :: ·) hrest)
      ((Lifted.closed_cons_iff hc).mpr hbefore)
  · intro h before content behind hwhole hbefore
    cases before with
    | nil =>
      rw [(List.cons.inj hwhole).1] at hc
      cases hc
    | cons d before =>
      obtain ⟨rfl, hrest⟩ := List.cons.inj hwhole
      exact h before content behind hrest ((Lifted.closed_cons_iff hc).mp hbefore)

theorem lacksDoubleQuoted_literal_iff {content : Text} (hc : singleQuote ∉ content)
    {rest : Text} :
    LacksDoubleQuoted (singleQuote :: (content ++ singleQuote :: rest)) ↔
      LacksDoubleQuoted rest := by
  have hq : Lifted.isQuote singleQuote = true := rfl
  constructor
  · intro h before content' behind hrest hbefore
    refine h (singleQuote :: (content ++ singleQuote :: before)) content' behind ?_
      ((Lifted.closed_literal_iff hq hc).mpr hbefore)
    simp [hrest]
  · intro h before content' behind hwhole hbefore
    cases before with
    | nil => exact absurd (List.cons.inj hwhole).1 (by decide)
    | cons d before =>
      obtain ⟨rfl, hinside⟩ := List.cons.inj hwhole
      obtain ⟨first, before, rfl, hfirst, hclosed⟩ := hbefore.exists_literal hq
      have hsame : content ++ singleQuote :: rest = first ++ singleQuote ::
          (before ++ doubleQuote :: (content' ++ doubleQuote :: behind)) := by
        rw [hinside]
        simp
      obtain ⟨rfl, hrest⟩ := Lifted.literal_unique hc hfirst hsame
      exact h before content' behind hrest hclosed

theorem not_lacksDoubleQuoted {content : Text} (hc : doubleQuote ∉ content) (rest : Text) :
    ¬ LacksDoubleQuoted (doubleQuote :: (content ++ doubleQuote :: rest)) :=
  fun h => hc (h [] content rest rfl Lifted.closed_nil)

/-- Where every quote closes, the quotes are kept exactly if no literal stands between double
quotes. -/
theorem requoted_eq_self_iff {t : Text} (h : Lifted.Closed t) :
    requoted t = t ↔ LacksDoubleQuoted t := by
  induction t using scan_induction Lifted.literal? with
  | nil => exact iff_of_true rfl lacksDoubleQuoted_nil
  | pass c rest hf ih =>
    have hc : Lifted.isQuote c = false := by
      refine h c ?_
      rw [Lifted.parts, scan_cons_of_none hf]
      exact List.mem_cons_self
    rw [requoted_cons hc, List.cons.injEq, and_iff_right rfl, lacksDoubleQuoted_cons_iff hc]
    exact ih ((Lifted.closed_cons_iff hc).mp h)
  | take q rest content n hf ih =>
    obtain ⟨hq, hc, -, hrest⟩ := Lifted.literal?_eq_some hf
    generalize rest.drop n = behind at ih hrest
    subst hrest
    rw [requoted_literal hq hc]
    by_cases hdouble : q = doubleQuote
    · subst hdouble
      refine iff_of_false (fun he => ?_) (not_lacksDoubleQuoted hc behind)
      exact absurd (List.cons.inj he).1 (by decide)
    · obtain rfl : q = singleQuote := by
        rw [Lifted.isQuote, Bool.or_eq_true, beq_iff_eq, beq_iff_eq] at hq
        exact hq.resolve_right hdouble
      rw [List.cons.injEq, and_iff_right rfl, List.append_cancel_left_eq, List.cons.injEq,
        and_iff_right rfl, lacksDoubleQuoted_literal_iff hc]
      exact ih ((Lifted.closed_literal_iff hq hc).mp h)

end Text

/-! ## Row limits behind a lead -/

/-- What ends in neither a number nor the keyword, and a space, take no part in a row limit. -/
theorem RowLimit.detach_append_space {c : Char} (hc : isStop c = true) (hfold : foldLetter c ≠ 't')
    (s : Text) {t : Text} (hne : t ≠ []) (ht : ∀ d ∈ t.head?, isBlank d = false) :
    detach (s ++ c :: ' ' :: t) =
      (if (detach t).1.isEmpty then s ++ [c] else s ++ c :: ' ' :: (detach t).1, (detach t).2) := by
  have hspace : isBlank ' ' = true := by decide
  cases hlimit : (detach t).2 with
  | none =>
    have hwhole := limit_append_of_stop hc hfold hspace s t
    rw [hlimit] at hwhole
    rw [detach_eq_of_none hwhole, detach_eq_of_none hlimit, if_neg (by simpa using hne)]
  | some limit =>
    obtain ⟨before, after, rfl, hbody, hspelled, hlast, hafter⟩ :=
      detach_eq_some_iff.mp (show detach t = ((detach t).1, some limit) by rw [← hlimit])
    have hwhole : s ++ c :: ' ' :: (before ++ limit.text ++ after) =
        (s ++ c :: ' ' :: before) ++ limit.text ++ after := by simp
    have hfound : detach (s ++ c :: ' ' :: (before ++ limit.text ++ after)) =
        (trimEnd (s ++ c :: ' ' :: before), some limit) := by
      refine detach_eq_some_iff.mpr ⟨_, after, hwhole, rfl, hspelled, ?_, hafter⟩
      cases before with
      | nil => simpa using isWord_of_isBlank hspace
      | cons d before => simpa using hlast
    rw [hfound, hbody]
    cases before with
    | nil =>
      have hend : trimEnd (s ++ c :: [' ']) = s ++ [c] :=
        dropEnd_append_stop s (isStop_iff.mp hc).1 [' ']
      rw [hend]
      rfl
    | cons d before =>
      have hd : isBlank d = false := ht d rfl
      have hend : ∀ front : Text, trimEnd (front ++ d :: before) = front ++ d :: trimEnd before :=
        fun front => dropEnd_append_stop front hd before
      have hbare : trimEnd (d :: before) = d :: trimEnd before := hend []
      have hbehind := hend (s ++ [c, ' '])
      rw [List.append_assoc] at hbehind
      rw [hbare, show s ++ c :: ' ' :: d :: before = s ++ ([c, ' '] ++ d :: before) from rfl,
        hbehind]
      simp

/-- A row limit behind a lead and its WHERE is cut out as if nothing stood before it, but for the
blank behind the WHERE if nothing else is left. -/
theorem RowLimit.detach_lead (lead : Text) {t : Text} (hne : t ≠ [])
    (ht : ∀ d ∈ t.head?, isBlank d = false) :
    detach (lead ++ " WHERE ".toList ++ t) =
      (if (detach t).1.isEmpty then lead ++ " WHERE".toList
        else lead ++ " WHERE ".toList ++ (detach t).1, (detach t).2) := by
  have hshape : ∀ t : Text, lead ++ " WHER".toList ++ 'E' :: ' ' :: t =
      lead ++ " WHERE ".toList ++ t := fun t => by simp
  have hend : lead ++ " WHER".toList ++ ['E'] = lead ++ " WHERE".toList := by simp
  have hbehind := detach_append_space (c := 'E') (by decide) (by decide)
    (lead ++ " WHER".toList) hne ht
  rwa [hshape, hshape, hend] at hbehind

/-- What is written behind a lead and its WHERE, with its row limit. -/
theorem RowLimit.attach_lead (lead : Text) {t : Text} {limit : Option RowLimit}
    (h : attach t limit ≠ []) :
    attach (lead ++ " WHERE".toList ++ if t.isEmpty then [] else ' ' :: t) limit =
      lead ++ " WHERE ".toList ++ attach t limit := by
  cases limit with
  | none =>
    rw [attach_none] at h
    rw [attach_none, attach_none, if_neg (by simpa using h)]
    simp
  | some limit =>
    cases t with
    | nil => simp [attach]
    | cons c t => simp [attach]

/-! ## Leads -/

/-- A text without quotes adds its characters to the items before it. -/
theorem Lifted.items_append_right (t : Text) {s : Text} (h : ∀ c ∈ s, isQuote c = false) :
    items (t ++ s) = items t ++ s.map .char := by
  rw [items, parts_append_of_no_quotes t h, Item.number_append, Item.number_map_inl]
  rfl

/-- Where WHERE follows balanced items in which it does not stand alone, they are a lead. -/
theorem Subselect.endOfWhere_append_keyword {items : List Item} (hb : Bracket.Balanced items)
    (h : WhereFree false items) :
    endOfWhere (items ++ " WHERE".toList.map .char) = some (items.length + 6) := by
  obtain ⟨inName, hfound⟩ := endOfWhereFrom_append_of_whereFree hb h (i := .char ' ')
    (isName_of_isBlank (by decide)) ("WHERE".toList.map .char)
  have hkeyword : endOfWhereFrom 0 inName (.char ' ' :: "WHERE".toList.map .char) = some 6 := by
    cases inName <;> decide
  have hspaced : " WHERE".toList.map Item.char = .char ' ' :: "WHERE".toList.map .char := rfl
  rw [endOfWhere, hspaced, hfound, hkeyword, Option.map_some, Nat.add_comm]

/-- A lead is found up to its WHERE. -/
theorem Subselect.endOfWhere_lead {lead : Text} (hb : Bracket.Balanced (Lifted.items lead))
    (hwhere : LacksWhere (Lifted.items lead)) :
    endOfWhere (Lifted.items (lead ++ " WHERE".toList)) =
      some (Lifted.items (lead ++ " WHERE".toList)).length := by
  rw [Lifted.items_append_right lead (by decide),
    endOfWhere_append_keyword hb (hwhere.whereFree false), List.length_append]
  rfl

section Lead

variable {lead : Text} (hne : lead ≠ []) (htrim : trim lead = lead)
  (hclosed : Lifted.Closed lead) (hb : Bracket.Balanced (Lifted.items lead))
  (hwhere : Subselect.LacksWhere (Lifted.items lead))

include hne htrim

theorem Text.flush_lead : Flush lead := by
  obtain ⟨c, rest, rfl⟩ := List.exists_cons_of_ne_nil hne
  have hhead : ∀ d ∈ (c :: rest).head?, isBlank d = false := htrim ▸ head?_dropEnds (c :: rest)
  exact .cons (hhead c rfl) rest

include hclosed

/-- What is written for a lead and its WHERE. -/
theorem Text.trim_requoted_lead :
    trim (requoted (lead ++ " WHERE".toList)) = requoted lead ++ " WHERE".toList := by
  have hwritten : requoted (lead ++ " WHERE".toList) = requoted lead ++ " WHERE".toList := by
    rw [requoted_append hclosed, requoted_of_no_quotes (t := " WHERE".toList) (by decide)]
  have hsolid : Solid " WHERE".toList := ⟨'E', rfl, by decide⟩
  rw [hwritten]
  exact ((flush_lead hne htrim).requoted.append _).trim (hsolid.append _)

include hb hwhere

/-- What a lead, its WHERE and a text behind it are cleaned to. -/
theorem Fragment.text_lead_keyword (options : Options) (levels : Nat) (u : Text) :
    (cleaned options (levels + 1)
        (if u.isEmpty then lead ++ " WHERE".toList else lead ++ " WHERE ".toList ++ u)).text =
      requoted lead ++ " WHERE".toList ++
        if (cleaned options (levels + 1) u).text.isEmpty then []
        else ' ' :: (cleaned options (levels + 1) u).text := by
  have hend := Subselect.endOfWhere_lead hb hwhere
  have hwritten := trim_requoted_lead hne htrim hclosed
  rw [requoted] at hwritten
  cases u with
  | nil =>
    rw [List.isEmpty_nil, if_pos rfl, Cleaned.text_lead hend, hwritten]
    exact (List.append_nil _).symm
  | cons c u =>
    have hkeyword : Lifted.Closed " WHERE".toList := Lifted.closed_of_no_quotes (by decide)
    have happend := Cleaned.text_lead_append hend options levels (hclosed.append hkeyword) (c :: u)
    rw [hwritten] at happend
    rw [List.isEmpty_cons, if_neg Bool.false_ne_true, ← happend]
    simp

/-- A lead is kept, but for the quotes of its literals, and what follows its WHERE is cleaned as if
nothing stood before it. -/
theorem cleanClauseWith_lead (options : Options) {q : Text}
    (hq : ∀ c ∈ q.head?, isBlank c = false)
    (hstrip : Normal.stripLeadingWhere (trim q) = trim q)
    (hresult : cleanClauseWith options q ≠ []) :
    cleanClauseWith options (lead ++ " WHERE ".toList ++ q) =
      requoted lead ++ " WHERE ".toList ++ cleanClauseWith options q := by
  have hqNe : trim q ≠ [] := fun hnil => hresult (by rw [cleanClauseWith, Normal.ofText, hnil]; rfl)
  have hflush : Flush (lead ++ " WHERE ".toList) := (flush_lead hne htrim).append _
  have hkept : Normal.stripLeadingWhere lead = lead := by
    have := Normal.stripLeadingWhere_of_lacksWhere hwhere
    rwa [htrim] at this
  have hshape : lead ++ " WHERE ".toList ++ trim q =
      lead ++ ' ' :: ("WHERE ".toList ++ trim q) := by simp
  have hstripped : Normal.stripLeadingWhere (lead ++ " WHERE ".toList ++ trim q) =
      lead ++ " WHERE ".toList ++ trim q := by
    rw [hshape]
    exact Normal.stripLeadingWhere_append_stop hkept (by decide) (by decide) _
  have hdetached : RowLimit.detach (Normal.stripLeadingWhere
      (trim (lead ++ " WHERE ".toList ++ q))) =
      (if (RowLimit.detach (trim q)).1.isEmpty then lead ++ " WHERE".toList
        else lead ++ " WHERE ".toList ++ (RowLimit.detach (trim q)).1,
        (RowLimit.detach (trim q)).2) := by
    rw [hflush.trim_append hq hqNe, hstripped]
    exact RowLimit.detach_lead lead hqNe (head?_dropEnds q)
  have hq' : RowLimit.detach (Normal.stripLeadingWhere (trim q)) =
      ((RowLimit.detach (trim q)).1, (RowLimit.detach (trim q)).2) := by rw [hstrip]
  rw [cleanClauseWith_of_detach options hq'] at hresult ⊢
  rw [cleanClauseWith_of_detach options hdetached,
    Fragment.text_lead_keyword hne htrim hclosed hb hwhere]
  exact RowLimit.attach_lead (requoted lead) hresult

end Lead

end FilterClause
