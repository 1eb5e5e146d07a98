import FilterClause.Cleaning
import FilterClause.Proofs.KeptLimits
import FilterClause.Proofs.Padding
import FilterClause.Proofs.Visible
import FilterClause.Proofs.WrittenConditions

/-!
# Cleaning twice

A cleaned clause is cleaned to itself, as long as everything in it is read back as it was meant: at
every level, what is written between apostrophes holds none, and no WHERE comes to stand alone in
the predicate (`Stable`). Leads are kept, so they only have to be found again; predicates are
written from their lexemes, so the lexemes have to be read back. From the levels it follows for
whole clauses (`cleanClauseWith_withWhere`).
-/

namespace FilterClause

open Text

namespace Cleaned

open Fragment

variable {literals : List Text} {options : Options} {levels : Nat} {items : List Item}

/-! ## Predicates -/

/-- A cleaned predicate is cleaned to itself, if its groups are, its conditions are read back, and
no WHERE comes to stand alone in it. -/
theorem fixed_predicate {f : List Item → Cleaned} (hb : Bracket.Balanced items)
    (hq : Item.Quoteless items)
    (hcalls : ∀ arguments ∈ (Piece.ofItems items).filterMap Piece.arguments?,
      Item.Writable literals arguments)
    (hparts : ∀ part ∈ (Condition.splitBehind [] (tokensOf literals items)).things,
      Condition.Rereads (placesOf literals f items) options part)
    (huncut : Subselect.endOfWhere
      (Lifted.items (predicate literals options f items).text) = none)
    (hgroups : ∀ interior ∈ (Piece.ofItems items).filterMap Piece.interior?,
      Fixed options levels (f interior).text) :
    Fixed options (levels + 1) (predicate literals options f items).text := by
  have hreads : ∀ t ∈ tokensOf literals items, (placesOf literals f items).Reads t :=
    fun t ht => reads_tokensOf literals f ht
  have hread : ReadAs options levels (predicate literals options f items).text
      (Condition.rereadAll (placesOf literals f items) options (tokensOf literals items)) := by
    rw [predicate_eq]
    refine Condition.readAs_renderAll hreads hparts fun t ht hwritable => ?_
    refine readAs_lexemesOf hb hq hcalls hgroups ?_ fun content hcontent => ?_
    · rw [← map_fill_tokensOf]
      exact List.mem_map_of_mem ht
    · rw [hcontent] at hwritable
      simpa [Lexeme.isWritable] using hwritable
  refine ⟨hread.closed, hread.balanced, ?_⟩
  have hfill := map_fill_tokens options levels (predicate literals options f items).text
  rw [cleaned_of_uncut options levels (Subselect.split_of_none huncut)]
  refine (Condition.renderAll_of_reread hreads hparts (hfill.trans hread.lexemes)).1.trans ?_
  rw [predicate_eq]

/-! ## Leads -/

/-- A clause that is cut is written as its first lead and the rest of it. -/
theorem clause_text_of_some {f : List Item → Cleaned} {n : Nat}
    (h : Subselect.endOfWhere items = some n) :
    (clause literals options f items).text =
      trim (Item.renderAll literals (items.take n)) ++
        if (clause literals options f (items.drop n)).text.isEmpty then []
        else ' ' :: (clause literals options f (items.drop n)).text := by
  rw [clause, clause, Subselect.split_of_some h]
  refine joinSpaced_cons_eq (fun t ht => ?_) _
  rcases List.mem_append.mp ht with ht | ht
  · obtain ⟨lead, hlead, rfl⟩ := List.mem_map.mp ht
    obtain ⟨front, c, htrim, -⟩ := exists_lead_eq literals (items.drop n) hlead
    rw [htrim]
    exact List.append_ne_nil_of_right_ne_nil _ (List.cons_ne_nil _ _)
  · split at ht
    · cases ht
    · next hne =>
      rw [List.mem_singleton.mp ht]
      simpa using hne

section Lead

/-! A lead as it is written: `items` are those up to a keyword and the keyword. -/

variable {items : List Item} (hq : Item.Quoteless items) (hw : Item.Writable literals items)
  (hend : Subselect.endOfWhere items = some items.length)

include hq hw

theorem closed_lead : Lifted.Closed (trim (Item.renderAll literals items)) :=
  (Item.closed_renderAll hq hw).trim

theorem balanced_lead (hb : Bracket.Balanced items) :
    Bracket.Balanced (Lifted.items (trim (Item.renderAll literals items))) := by
  obtain ⟨l, r, ht, hl, hr⟩ := exists_eq_append_dropEnds isBlank (Item.renderAll literals items)
  have hwritten := hb.of_parts (Item.parts_items_renderAll hq hw).symm
  rw [ht] at hwritten
  exact balanced_of_padded (.of_blanks hl) (.of_blanks hr) hwritten

theorem renderAll_lead :
    Item.renderAll (Fragment.literals (trim (Item.renderAll literals items)))
        (Lifted.items (trim (Item.renderAll literals items))) =
      trim (Item.renderAll literals items) :=
  (singleQuoted_renderAll hq hw).trim

include hend

/-- A lead is found again up to its end. -/
theorem endOfWhere_lead :
    Subselect.endOfWhere (Lifted.items (trim (Item.renderAll literals items))) =
      some (Lifted.items (trim (Item.renderAll literals items))).length := by
  obtain ⟨l, r, ht, hl, hr⟩ := exists_eq_append_dropEnds isBlank (Item.renderAll literals items)
  have hparts := Item.parts_items_renderAll hq hw
  have hfound := (Subselect.endOfWhere_congr hparts).trans hend
  have hlength : (Lifted.items (Item.renderAll literals items)).length = items.length := by
    simpa [Item.parts] using congrArg List.length hparts
  have hitems : Lifted.items (Item.renderAll literals items) =
      l.map .char ++ (Lifted.items (trim (Item.renderAll literals items)) ++ r.map .char) := by
    conv_lhs => rw [ht]
    exact items_padded (.of_blanks hl) (.of_blanks hr) _
  have hbracket := Item.not_bracket_of_mem_blanks hl
  have hright := Subselect.endOfWhereFrom_append (Item.isName_of_mem_blanks hr) 0 false
    (Lifted.items (trim (Item.renderAll literals items)))
  rw [hitems, Subselect.endOfWhere_append_left (Item.isName_of_mem_blanks hl)
    (fun h => (hbracket _ h).1 rfl) (fun h => (hbracket _ h).2 rfl), Subselect.endOfWhere,
    hright] at hfound
  obtain ⟨m, hm, hsum⟩ := Option.map_eq_some_iff.mp hfound
  have hbounds := Subselect.endOfWhereFrom_bounds hm
  rw [hitems, List.length_append, List.length_append] at hlength
  have hwhole : m = (Lifted.items (trim (Item.renderAll literals items))).length := by omega
  exact hwhole ▸ hm

end Lead

section Texts

variable {lead : Text}
  (hend : Subselect.endOfWhere (Lifted.items lead) = some (Lifted.items lead).length)

include hend

/-- A lead alone is written with its literals between single quotes. -/
theorem text_lead (options : Options) (levels : Nat) :
    (cleaned options (levels + 1) lead).text =
      trim (Item.renderAll (Fragment.literals lead) (Lifted.items lead)) := by
  have hnil : (clause (Fragment.literals lead) options
      (group (Fragment.literals lead) options levels) []).text = [] := rfl
  rw [cleaned, group, clause_text_of_some hend, List.take_length, List.drop_length, hnil]
  exact List.append_nil _

/-- What follows a lead is cleaned as if the lead were not there. -/
theorem text_lead_append (options : Options) (levels : Nat) (hclosed : Lifted.Closed lead)
    (u : Text) :
    (cleaned options (levels + 1) (lead ++ ' ' :: u)).text =
      trim (Item.renderAll (Fragment.literals lead) (Lifted.items lead)) ++
        if (cleaned options (levels + 1) u).text.isEmpty then []
        else ' ' :: (cleaned options (levels + 1) u).text := by
  have hspace : isBlank ' ' = true := by decide
  have hfound := Subselect.endOfWhereFrom_append_item hend (i := .char ' ')
    (isName_of_isBlank hspace)
    ((Lifted.items u).map (Item.renumber (· + (Fragment.literals lead).length)))
  have hlead : Item.renderAll (Fragment.literals lead ++ Fragment.literals u)
      (Lifted.items lead) = Item.renderAll (Fragment.literals lead) (Lifted.items lead) := by
    have hkeep := Item.renderAll_renumber (getD_keep lead u) (Lifted.items lead)
    rwa [map_renumber_keep] at hkeep
  have hrest : (clause (Fragment.literals lead ++ Fragment.literals u) options
      (group (Fragment.literals lead ++ Fragment.literals u) options levels)
      (.char ' ' :: (Lifted.items u).map
        (Item.renumber (· + (Fragment.literals lead).length)))).text =
      (cleaned options (levels + 1) u).text := by
    have hblank := clause_blanks_append (Fragment.literals lead ++ Fragment.literals u) options
      (group (Fragment.literals lead ++ Fragment.literals u) options levels) (l := [' '])
      (by decide) ((Lifted.items u).map (Item.renumber (· + (Fragment.literals lead).length)))
    have hshift := group_renumber (getD_shift lead u) options (levels + 1) (Lifted.items u)
    rw [group] at hshift
    rw [← List.singleton_append]
    exact congrArg text (hblank.trans hshift)
  rw [cleaned, literals_append_blank hclosed hspace, items_append_blank hclosed hspace, group,
    clause_text_of_some hfound, List.take_left, List.drop_left, hlead, hrest]

variable (hquoted : SingleQuoted lead) (htrim : trim lead = lead)

include hquoted htrim

/-- A lead alone is cleaned to itself. -/
theorem cleaned_lead : (cleaned options (levels + 1) lead).text = lead := by
  rw [text_lead hend, hquoted, htrim]

/-- A lead before a text that is cleaned to itself. -/
theorem cleaned_lead_append (hclosed : Lifted.Closed lead) {u : Text} (hne : u ≠ [])
    (hu : (cleaned options (levels + 1) u).text = u) :
    (cleaned options (levels + 1) (lead ++ ' ' :: u)).text = lead ++ ' ' :: u := by
  rw [text_lead_append hend options levels hclosed, hquoted, htrim, hu,
    if_neg (by simpa using hne)]

end Texts

/-- A cleaned clause is cleaned to itself, if its predicate is and its leads can be written. -/
theorem fixed_clause {f : List Item → Cleaned} (hq : Item.Quoteless items)
    (hleads : ∀ lead ∈ (Subselect.split items).1, Item.Writable literals lead)
    (hpred : Fixed options (levels + 1)
      (predicate literals options f (Subselect.split items).2).text) :
    Lifted.Closed (clause literals options f items).text ∧
      (Bracket.Balanced items →
        Bracket.Balanced (Lifted.items (clause literals options f items).text)) ∧
      (cleaned options (levels + 1) (clause literals options f items).text).text =
        (clause literals options f items).text := by
  induction items using Subselect.split_induction with
  | uncut items hn =>
    have huncut := Subselect.split_of_none hn
    rw [huncut] at hpred
    rw [clause_of_uncut _ _ _ huncut]
    exact ⟨hpred.closed, fun _ => hpred.balanced, hpred.cleaned⟩
  | cut items n hn ih =>
    rw [Subselect.split_of_some hn] at hleads hpred
    obtain ⟨hlead, hleads⟩ := List.forall_mem_cons.mp hleads
    obtain ⟨hclosed, hbalanced, hclean⟩ :=
      ih (hq.of_subset (List.drop_subset n items)) hleads hpred
    have hquoteless := hq.of_subset (List.take_subset n items)
    have hend : Subselect.endOfWhere (items.take n) = some (items.take n).length := by
      rw [List.length_take, Nat.min_eq_left (Subselect.endOfWhereFrom_bounds hn).2]
      exact Subselect.endOfWhereFrom_take hn
    have hfound := endOfWhere_lead hquoteless hlead hend
    have hwritten := closed_lead hquoteless hlead
    have hquoted : SingleQuoted (trim (Item.renderAll literals (items.take n))) :=
      renderAll_lead hquoteless hlead
    have htrim : trim (trim (Item.renderAll literals (items.take n))) =
        trim (Item.renderAll literals (items.take n)) := dropEnds_dropEnds _
    have hbracket : Bracket.Balanced items → Bracket.Balanced (items.take n) ∧
        Bracket.Balanced (items.drop n) := fun hb =>
      ⟨(Subselect.nested_of_cut hb.nested hn).1, (Subselect.nested_of_cut hb.nested hn).2.balanced⟩
    rw [clause_text_of_some hn]
    split
    · rw [List.append_nil]
      exact ⟨hwritten, fun hb => balanced_lead hquoteless hlead (hbracket hb).1,
        cleaned_lead hfound hquoted htrim⟩
    · next hne =>
      have hspace : isBlank ' ' = true := by decide
      have hclosedSpace : Lifted.Closed [' '] := Lifted.closed_of_no_quotes (by decide)
      refine ⟨hwritten.append (hclosedSpace.append hclosed), fun hb => ?_,
        cleaned_lead_append hfound hquoted htrim hwritten (by simpa using hne) hclean⟩
      obtain ⟨hopen, hclose⟩ := Item.not_bracket_of_isBlank hspace
      rw [items_append_blank hwritten hspace]
      exact (balanced_lead hquoteless hlead (hbracket hb).1).append
        (.item hopen hclose ((hbalanced (hbracket hb).2).renumber _))

/-! ## Groups -/

/-- Whether a clause is read back as it was meant, when so many levels of groups are left: no
literal that is kept or written between apostrophes holds one, and no WHERE comes to stand alone in
the cleaned predicate. -/
structure Stable (literals : List Text) (options : Options) (levels : Nat) (items : List Item) :
    Prop where
  leads : ∀ lead ∈ (Subselect.split items).1, Item.Writable literals lead
  calls : ∀ arguments ∈ (Piece.ofItems (Subselect.split items).2).filterMap Piece.arguments?,
    Item.Writable literals arguments
  conditions : ∀ part ∈ (Condition.splitBehind []
      (tokensOf literals (Subselect.split items).2)).things,
    Condition.Rereads (placesOf literals (group literals options levels) (Subselect.split items).2)
      options part
  uncut : Subselect.endOfWhere (Lifted.items (predicate literals options
    (group literals options levels) (Subselect.split items).2).text) = none

instance (literals : List Text) (options : Options) (levels : Nat) :
    DecidablePred (Stable literals options levels) := fun _ =>
  decidable_of_iff (_ ∧ _ ∧ _ ∧ _)
    ⟨fun ⟨hl, ha, hc, hu⟩ => ⟨hl, ha, hc, hu⟩, fun h => ⟨h.leads, h.calls, h.conditions, h.uncut⟩⟩

/-- A cleaned clause is cleaned to itself, if it is read back as it was meant at every level and
nothing loose or too deep was found in it. -/
theorem fixed_group (hq : Item.Quoteless items)
    (hstable : Throughout (Stable literals options) levels items)
    (hloose : (group literals options levels items).looseBracket = false)
    (hdeep : (group literals options levels items).tooDeep = false) :
    Lifted.Closed (group literals options levels items).text ∧
      (Bracket.Balanced items →
        Bracket.Balanced (Lifted.items (group literals options levels items).text)) ∧
      (cleaned options levels (group literals options levels items).text).text =
        (group literals options levels items).text := by
  induction levels generalizing items with
  | zero => cases hdeep
  | succ levels ih =>
    obtain ⟨hhere, hinside⟩ := hstable
    have hloose : (predicate literals options (group literals options levels)
        (Subselect.split items).2).looseBracket = false := hloose
    have hdeep : (predicate literals options (group literals options levels)
        (Subselect.split items).2).tooDeep = false := hdeep
    simp only [predicate_eq, Bool.or_eq_false_iff] at hloose hdeep
    obtain ⟨hpieces, hloose⟩ := hloose
    have hbalanced := Piece.not_hasLooseBracket_iff.mp hpieces
    have hquoteless := hq.of_subset (Subselect.subset_split items).2
    refine fixed_clause hq hhere.leads
      (fixed_predicate hbalanced hquoteless hhere.calls hhere.conditions hhere.uncut
        fun interior hi => ?_)
    have hgroup := Piece.mem_groups_of_interior hi
    have hmem : group literals options levels interior ∈
        groupsOf (group literals options levels) (Subselect.split items).2 :=
      List.mem_map_of_mem hi
    obtain ⟨hclosed, hkeeps, hfixed⟩ := ih (hquoteless.of_subset (Bracket.mem_groups hgroup))
      (hinside interior hi) (Bool.eq_false_iff.mpr (List.any_eq_false.mp hloose _ hmem))
      (Bool.eq_false_iff.mpr (List.any_eq_false.mp hdeep _ hmem))
    exact ⟨hclosed, hkeeps (Bracket.balanced_of_mem_groups hgroup), hfixed⟩

end Cleaned

/-! ## Whole clauses -/

/-- A leading WHERE and the space behind it are taken off again. -/
theorem Normal.stripLeadingWhere_withWhere {t : Text} (h : t = [] ∨ Flush t ∧ Solid t) :
    stripLeadingWhere (trim (withWhere t)) = t := by
  rcases h with rfl | ⟨hflush, hsolid⟩
  · rfl
  · have hw : isBlank 'W' = false := by decide
    have hspace : isBlank ' ' = true := by decide
    have htext : withWhere t = "WHERE".toList ++ ' ' :: t := by
      rw [withWhere, List.isEmpty_eq_false_iff.mpr hflush.ne_nil]
      rfl
    have htrim : trim (withWhere t) = "WHERE".toList ++ ' ' :: t := by
      rw [htext]
      exact Flush.trim (.cons hw _) ((hsolid.cons ' ').append _)
    have hstrip : stripKeyword ['w', 'h', 'e', 'r', 'e'] (trim (withWhere t)) = some (' ' :: t) :=
      stripKeyword_eq_some_iff.mpr ⟨_, htrim, by decide⟩
    have hword : startsWithWord (' ' :: t) = false := isWord_of_isBlank hspace
    obtain ⟨c, hc, hblank⟩ := hflush
    have hhead : ∀ d ∈ t.head?, isBlank d = false := fun d hd => Option.mem_unique hc hd ▸ hblank
    simp only [stripLeadingWhere, hstrip]
    rw [hword, if_neg Bool.false_ne_true, trimStart, List.dropWhile_cons_of_pos hspace,
      dropWhile_of_head hhead]

/-- A clause in normal form is in normal form again behind WHERE, and alone unless it starts with a
WHERE itself, if nothing was noticed about it, it is read back as it was meant at every level, and
it ends in no row limit that was not detached. -/
theorem cleanClauseWith_withWhere (options : Options) {raw body : Text} {limit : Option RowLimit}
    (hd : RowLimit.detach (Normal.stripLeadingWhere (trim raw)) = (body, limit))
    (hwarnings : (Normal.ofText options raw).warnings = [])
    (hstable : Cleaned.Throughout (Cleaned.Stable (Fragment.literals body) options)
      (Cleaned.maxNesting + 1) (Lifted.items body))
    (hlimit : limit = none → (RowLimit.detach (cleanClauseWith options raw)).2 = none) :
    cleanClauseWith options (withWhere (cleanClauseWith options raw)) =
        cleanClauseWith options raw ∧
      (Normal.stripLeadingWhere (cleanClauseWith options raw) = cleanClauseWith options raw →
        cleanClauseWith options (cleanClauseWith options raw) = cleanClauseWith options raw) := by
  have hends := cleanClauseWith_ends options raw
  have hclean := cleanClauseWith_of_detach options hd
  have hflags : (Lifted.ofText body).hasStrayQuote = false ∧
      (Fragment.cleaned options (Cleaned.maxNesting + 1) body).looseBracket = false ∧
      (Fragment.cleaned options (Cleaned.maxNesting + 1) body).tooDeep = false := by
    rw [Normal.ofText_of_detach options hd] at hwarnings
    simpa [Normal.warnings] using hwarnings
  obtain ⟨hstray, hloose, hdeep⟩ := hflags
  have hclosed := (Lifted.hasStrayQuote_eq_false_iff body).mp hstray
  obtain ⟨-, -, hfixed⟩ := Cleaned.fixed_group hclosed.quoteless hstable hloose hdeep
  -- The normal form falls into the same body and row limit that it was put together from.
  have hdetach : RowLimit.detach (cleanClauseWith options raw) =
      ((Fragment.cleaned options (Cleaned.maxNesting + 1) body).text, limit) := by
    cases limit with
    | none =>
      rw [RowLimit.detach_eq_of_none (hlimit rfl), hclean, RowLimit.attach_none]
    | some limit =>
      obtain ⟨-, -, -, -, hspelled, -, -⟩ := RowLimit.exists_of_detach hd
      rw [hclean]
      exact RowLimit.detach_attach hspelled (Cleaned.solid_clause _ options _ _)
  have hagain : ∀ t, Normal.stripLeadingWhere (trim t) = cleanClauseWith options raw →
      cleanClauseWith options t = cleanClauseWith options raw := by
    intro t ht
    rw [cleanClauseWith_of_detach options (ht ▸ hdetach), hclean]
    exact congrArg (RowLimit.attach · limit) hfixed
  refine ⟨hagain _ (Normal.stripLeadingWhere_withWhere hends), fun hwhere => hagain _ ?_⟩
  have htrim : trim (cleanClauseWith options raw) = cleanClauseWith options raw := by
    rcases hends with hnil | ⟨hflush, hsolid⟩
    · rw [hnil]
      rfl
    · exact hflush.trim hsolid
  rw [htrim, hwhere]

/-- A literal between double quotes may hold an apostrophe. It is doubled, and read again as two
literals. -/
theorem cleanClause_parts_at_apostrophe :
    (clean ⟨"Name = \"O'Brien\"".toList, none, none⟩).issues = [] ∧
      cleanClause "Name = \"O'Brien\"".toList = "Name = 'O''Brien'".toList ∧
      cleanClause (cleanClause "Name = \"O'Brien\"".toList) = "Name = 'O Brien'".toList ∧
      cleanClause (cleanClause "Name = \"O'Brien\"".toList) ≠
        cleanClause "Name = \"O'Brien\"".toList := by
  decide +kernel

/-- A clause with a lead, a group, a call and wildcards. -/
theorem cleanClauseWith_withWhere_group :
    cleanClauseWith Options.standard (withWhere (cleanClauseWith Options.standard
        "select Id where Name = O and ( x like \"a%\" or y = f('b') )".toList)) =
      cleanClauseWith Options.standard
        "select Id where Name = O and ( x like \"a%\" or y = f('b') )".toList ∧
    cleanClauseWith Options.standard (cleanClauseWith Options.standard
        "select Id where Name = O and ( x like \"a%\" or y = f('b') )".toList) =
      cleanClauseWith Options.standard
        "select Id where Name = O and ( x like \"a%\" or y = f('b') )".toList := by
  have hd : RowLimit.detach (Normal.stripLeadingWhere
      (trim "select Id where Name = O and ( x like \"a%\" or y = f('b') )".toList)) =
      ("select Id where Name = O and ( x like \"a%\" or y = f('b') )".toList, none) := by
    decide +kernel
  have h := cleanClauseWith_withWhere Options.standard hd (by decide +kernel) (by decide +kernel)
    fun _ => by decide +kernel
  exact ⟨h.1, h.2 (by decide +kernel)⟩

end FilterClause
