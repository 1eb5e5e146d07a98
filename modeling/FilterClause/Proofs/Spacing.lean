import FilterClause.Proofs.NestingLimit
import FilterClause.Proofs.Respacing

/-!
# Blanks are interchangeable

Which blanks a clause is spaced with, and how many of them, changes nothing: not where WHERE stands,
which bracket belongs to which, where a text parts into tokens, or what is found wrong. This holds
outside calls and leads, which are kept as they are written, and up to the limit of nesting. The
pieces of two predicates that are alike but for blanks come in pairs (`Piece.forall₂_alike`), and
level by level they are cleaned to the same (`Cleaned.group_alike`).
-/

namespace FilterClause

open Text FilterClause.Bracket

/-! ## Brackets and keywords -/

section Items

variable {xs ys : List Item} (h : AlikeBut Item.isBlank xs ys)

theorem Item.not_blank_bracket : isBlank (.char '(') = false ∧ isBlank (.char ')') = false := by
  decide

theorem Item.isBlank_of_isName {i : Item} (hn : i.isName = true) : i.isBlank = false := by
  cases i with
  | char c => exact Text.isBlank_of_isName hn
  | literal index => rfl

namespace Bracket

theorem closesWithin_blanks {limit opened : Nat} {bs : List Item}
    (hb : ∀ b ∈ bs, b.isBlank = true) (items : List Item) :
    closesWithin limit opened (bs ++ items) = closesWithin limit opened items := by
  induction bs with
  | nil => rfl
  | cons b bs ih =>
    obtain ⟨hblank, hrest⟩ := List.forall_mem_cons.mp hb
    have hne : b ≠ .char '(' ∧ b ≠ .char ')' := by
      constructor <;> rintro rfl <;> revert hblank <;> decide
    rw [List.cons_append, closesWithin, if_neg hne.1, if_neg hne.2, ih hrest]

include h

/-- Blanks are not counted as brackets. -/
theorem closesWithin_alike (limit opened : Nat) :
    closesWithin limit opened xs = closesWithin limit opened ys := by
  induction h generalizing opened with
  | nil => rfl
  | keep _ _ ih => rw [closesWithin, closesWithin, ih, ih, ih]
  | run hl _ hr _ _ ih => rw [closesWithin_blanks hl, closesWithin_blanks hr, ih]

theorem balanced_alike : Balanced xs ↔ Balanced ys := by
  have key : ∀ {xs ys : List Item}, AlikeBut Item.isBlank xs ys → Balanced xs → Balanced ys := by
    intro xs ys halike hb
    have hcount := nested_iff.mp hb.nested
    rw [closesWithin_alike halike] at hcount
    exact (nested_iff.mpr hcount).balanced
  exact ⟨key h, key h.symm⟩

theorem partnered_alike : Partnered xs ↔ Partnered ys := by
  have key : ∀ {xs ys : List Item}, AlikeBut Item.isBlank xs ys → Partnered ys → Partnered xs := by
    rintro xs - halike ⟨interior, after, rfl, hb⟩
    obtain ⟨interior', after', rfl, hinterior, -⟩ := halike.cut Item.not_blank_bracket.2
    exact ⟨interior', after', rfl, (balanced_alike hinterior).mpr hb⟩
  exact ⟨key h.symm, key h⟩

end Bracket

include h

/-- Blanks spell nothing, and part what is spelled. -/
theorem Subselect.LacksWhere.of_alike (hlacks : LacksWhere xs) : LacksWhere ys := by
  rintro s ⟨front, rfl⟩
  refine Bool.of_not_eq_true fun hspells => ?_
  have hletters : (s.take 5).map letter? = ['w', 'h', 'e', 'r', 'e'].map some :=
    beq_iff_eq.mp hspells
  have hblank : ∀ i ∈ s.take 5, i.isBlank = false := by
    intro i hi
    refine Item.isBlank_of_isName (Bool.of_not_eq_false fun hn => ?_)
    have hmem := List.mem_map_of_mem (f := letter?) hi
    rw [hletters, List.mem_map] at hmem
    obtain ⟨k, hk, hki⟩ := hmem
    have hsub : ∀ k ∈ ['w', 'h', 'e', 'r', 'e'], k ∈ keywordLetters := by decide
    exact Item.letter?_ne_of_not_isName hn (hsub k hk) hki.symm
  obtain ⟨i, word, hword⟩ : ∃ i word, s.take 5 = i :: word :=
    List.exists_cons_of_ne_nil fun hnil => by simp [hnil] at hletters
  have hsplit := List.take_append_drop 5 s
  rw [hword] at hletters hblank hsplit
  obtain ⟨hi, hrest⟩ := List.forall_mem_cons.mp hblank
  rw [← hsplit, List.cons_append] at h
  obtain ⟨front', behind, rfl, -, hbehind⟩ := h.cut hi
  obtain ⟨rest, rfl, -⟩ := hbehind.exists_of_append hrest
  have hlength : (i :: word).length = 5 := by simpa using congrArg List.length hletters
  have htake : (i :: (word ++ rest)).take 5 = i :: word := by
    rw [← List.cons_append, ← hlength, List.take_left]
  have hspelled : spellsWhere (i :: (word ++ rest)) = true := by
    rw [spellsWhere, htake, hletters]
    rfl
  rw [hlacks _ (List.suffix_append front' _)] at hspelled
  cases hspelled

end Items

/-! ## Lexemes of a text -/

/-- Texts alike but for blanks hold the same tokens, if no closing bracket stands behind an opening
one. -/
theorem Lexeme.ofText_alike {s t : Text} (h : AlikeBut isBlank s t)
    (hpair : ¬ ['(', ')'].Sublist s) : ofText s = ofText t := by
  have hmarks : ∀ c ∈ ['(', ')'], isBlank c = false := by decide
  -- What comes before the next blank is the same in both texts.
  have key : ∀ word : Text, ¬ ['(', ')'].Sublist (word ++ s) →
      ofText (word ++ s) = ofText (word ++ t) := by
    clear hpair
    induction h with
    | nil => exact fun _ _ => rfl
    | @keep c s t hc h ih =>
      intro word hpair
      have hnext := ih (word ++ [c])
      simp only [List.append_assoc, List.singleton_append] at hnext
      exact hnext hpair
    | @run l r s t hl hlNe hr hrNe h ih =>
      intro word hpair
      have hpair' : ¬ ['(', ')'].Sublist (word ++ (r ++ t)) := fun hp => hpair
        ((((AlikeBut.refl _ word).append (.run hl hlNe hr hrNe h)).sublist_iff hmarks).mpr hp)
      have hparts : ∀ {bs rest : Text}, (∀ b ∈ bs, isBlank b = true) → bs ≠ [] →
          ¬ ['(', ')'].Sublist (word ++ (bs ++ rest)) →
            ofText (word ++ (bs ++ rest)) = ofText word ++ ofText rest := by
        intro bs rest hbs hne hno
        cases bs with
        | nil => exact absurd rfl hne
        | cons b bs =>
          obtain ⟨hb, hbs⟩ := List.forall_mem_cons.mp hbs
          rw [List.cons_append] at hno ⊢
          rw [ofText_append_of_no_pair hb hno, ofText_blanks_append hbs]
      have hrest := ih [] fun hp => hpair (hp.trans (by
        rw [List.nil_append]
        exact (List.sublist_append_right l s).trans (List.sublist_append_right word _)))
      rw [List.nil_append, List.nil_append] at hrest
      rw [hparts hl hlNe hpair, hparts hr hrNe hpair', hrest]
  exact key [] hpair

/-! ## Pieces -/

namespace Piece

/-- Pieces that are alike but for blanks, none of them a call. -/
inductive Alike : Piece → Piece → Prop
  | text {s t : Text} (h : AlikeBut isBlank s t) : Alike (.text s) (.text t)
  | literal (index : Nat) : Alike (.literal index) (.literal index)
  | group {xs ys : List Item} (h : AlikeBut Item.isBlank xs ys) : Alike (.group xs) (.group ys)

theorem forall₂_ofRun {back back' : Text} (h : AlikeBut isBlank back back') :
    List.Forall₂ Alike (ofRun back) (ofRun back') := by
  unfold ofRun
  by_cases hnil : back = []
  · rw [hnil, h.eq_nil_iff.mp hnil]
    exact .nil
  · have hnil' : back' ≠ [] := fun hb => hnil (h.eq_nil_iff.mpr hb)
    rw [if_neg (by simpa using hnil), if_neg (by simpa using hnil')]
    exact .cons (.text h.reverse) .nil

/-- A group that is no call takes nothing from the run before it. -/
theorem behindRun_group {back : Text} (h : ∀ c ∈ back.head?, isName c = false)
    (interior : List Item) (gs : List (Item ⊕ List Item)) :
    behindRun back (.inr interior :: gs) = ofRun back ++ .group interior :: behindRun [] gs := by
  rw [behindRun, takeWhile_of_head h, dropWhile_of_head h]
  rfl

/-- A blank before it makes no pair a call. -/
theorem callFree_behind_blanks {bs : Text} (hbs : ∀ b ∈ bs, isBlank b = true) (hne : bs ≠ [])
    {inName : Bool} {xs : List Item} (h : Bracket.CallFree inName (bs.map .char ++ xs))
    (back : Text) : Bracket.CallFree ((bs.reverse ++ back).head?.any isName) xs := by
  obtain ⟨b, rest, hlast⟩ := List.exists_cons_of_ne_nil (List.reverse_ne_nil_iff.mpr hne)
  have hb : isBlank b = true := hbs b (List.mem_reverse.mp (hlast ▸ List.mem_cons_self))
  rw [hlast, List.cons_append, List.head?_cons, Option.any_some, isName_of_isBlank hb]
  exact h.of_append.2

/-- The pieces of predicates that are alike but for blanks come in pairs. -/
theorem forall₂_alike {xs ys : List Item} (h : AlikeBut Item.isBlank xs ys)
    (hcalls : Bracket.CallFree false xs) : List.Forall₂ Alike (ofItems xs) (ofItems ys) := by
  -- Along the items, with what stands before them, and from a group on to what follows it.
  suffices key : ∀ n, ∀ xs ys : List Item, ∀ back back' : Text, xs.length = n →
      AlikeBut Item.isBlank xs ys → AlikeBut isBlank back back' →
        Bracket.CallFree (back.head?.any isName) xs →
          List.Forall₂ Alike (behindRun back (groups xs)) (behindRun back' (groups ys)) from
    key _ xs ys [] [] rfl h .nil hcalls
  clear h hcalls
  intro n
  induction n using Nat.strong_induction_on with
  | _ n ih =>
    intro xs ys back back' hn h hback hcalls
    cases h with
    | nil => exact forall₂_ofRun hback
    | @keep i xs ys hi h =>
      rw [List.length_cons] at hn
      cases i with
      | literal index =>
        rw [groups_cons_item (by simp), groups_cons_item (by simp), behindRun, behindRun]
        exact List.rel_append (forall₂_ofRun hback)
          (.cons (.literal index) (ih _ (by omega) xs ys [] [] rfl h .nil hcalls.2))
      | char c =>
        have hrun : AlikeBut isBlank (c :: back) (c :: back') := .keep hi hback
        have hnext := ih _ (by omega) xs ys (c :: back) (c :: back') rfl h hrun hcalls.2
        by_cases hopen : Item.char c = .char '('
        · obtain rfl := Item.char.inj hopen
          by_cases hp : Partnered xs
          · have hname : ∀ d ∈ back.head?, isName d = false := by
              intro d hd
              refine Bool.of_not_eq_true fun hn => hcalls.1 ?_ rfl hp
              rw [Option.mem_def.mp hd]
              exact hn
            have hname' := (hback.forall_head?_iff fun d hd => isBlank_of_isName hd).mp hname
            obtain ⟨interior, after, rfl, hb⟩ := hp
            obtain ⟨interior', after', rfl, hinterior, hafter⟩ :=
              h.symm.cut Item.not_blank_bracket.2
            rw [List.length_append, List.length_cons] at hn
            rw [groups_group hb, groups_group ((balanced_alike hinterior).mpr hb),
              behindRun_group hname, behindRun_group hname']
            exact List.rel_append (forall₂_ofRun hback) (.cons (.group hinterior.symm)
              (ih _ (by omega) after after' [] [] rfl hafter.symm .nil hcalls.2.of_append.2.2))
          · rw [groups_loose hp, groups_loose (mt (partnered_alike h).mpr hp), behindRun, behindRun]
            exact hnext
        · rw [groups_cons_item hopen, groups_cons_item hopen, behindRun, behindRun]
          exact hnext
    | @run l r xs ys hl hlNe hr hrNe h =>
      obtain ⟨bs, rfl, hbs⟩ := Item.exists_of_blank hl
      obtain ⟨cs, rfl, hcs⟩ := Item.exists_of_blank hr
      have hbsNe : bs ≠ [] := by simpa using hlNe
      have hopen : ∀ {t : Text}, (∀ b ∈ t, isBlank b = true) → '(' ∉ t := fun ht hm =>
        ne_of_isBlank (ht _ hm) (by decide) rfl
      have hruns : AlikeBut isBlank (bs.reverse ++ back) (cs.reverse ++ back') :=
        (AlikeBut.run_alone hbs hbsNe hcs (by simpa using hrNe)).reverse.append hback
      have hpos := List.length_pos_iff.mpr hlNe
      rw [List.length_append] at hn
      rw [behindRun_map_char_append (hopen hbs), behindRun_map_char_append (hopen hcs)]
      exact ih _ (by omega) xs ys _ _ rfl h hruns (callFree_behind_blanks hbs hbsNe hcalls back)

/-! ## What pieces that come in pairs tell -/

theorem hasLooseBracket_alike {p q : Piece} (h : Alike p q) :
    p.hasLooseBracket = q.hasLooseBracket := by
  cases h with
  | literal index => rfl
  | group _ => rfl
  | @text s t h =>
    have hmem : ∀ c ∈ ['(', ')'], (c ∈ s ↔ c ∈ t) := fun c hc =>
      h.mem_iff ((by decide : ∀ c ∈ ['(', ')'], isBlank c = false) c hc)
    have key : ∀ t : Text, (text t).hasLooseBracket = true ↔ '(' ∈ t ∨ ')' ∈ t := by
      intro t
      simp only [hasLooseBracket, List.any_eq_true, Bool.or_eq_true, beq_iff_eq]
      constructor
      · rintro ⟨c, hc, rfl | rfl⟩
        · exact .inl hc
        · exact .inr hc
      · rintro (hc | hc)
        · exact ⟨_, hc, .inl rfl⟩
        · exact ⟨_, hc, .inr rfl⟩
    rw [Bool.eq_iff_iff, key, key, hmem '(' (by simp), hmem ')' (by simp)]

/-- The interiors of the groups come in pairs, too. -/
theorem forall₂_interiors {ps qs : List Piece} (h : List.Forall₂ Alike ps qs) :
    List.Forall₂ (AlikeBut Item.isBlank) (ps.filterMap interior?) (qs.filterMap interior?) := by
  induction h with
  | nil => exact .nil
  | cons hp _ ih =>
    cases hp with
    | text _ => exact ih
    | literal _ => exact ih
    | group hi => exact .cons hi ih

/-- What is made of pieces one by one is the same if it is the same for each pair. -/
theorem map_eq_of_forall₂ {α β γ : Type} {R : α → β → Prop} {f : α → γ} {g : β → γ} {l : List α}
    {m : List β} (h : List.Forall₂ R l m) (hfg : ∀ a ∈ l, ∀ b, R a b → f a = g b) :
    l.map f = m.map g := by
  induction h with
  | nil => rfl
  | cons hab _ ih =>
    obtain ⟨ha, hl⟩ := List.forall_mem_cons.mp hfg
    rw [List.map_cons, List.map_cons, ha _ hab, ih hl]

end Piece

/-! ## Cleaning -/

namespace Cleaned

section Predicate

variable {f : List Item → Cleaned} {xs ys : List Item} (h : AlikeBut Item.isBlank xs ys)
  (hcalls : CallFree false xs)
  (hf : ∀ inside, .inr inside ∈ groups xs → ∀ inside', AlikeBut Item.isBlank inside inside' →
    f inside = f inside')

include h hcalls hf

theorem groupsOf_alike : groupsOf f xs = groupsOf f ys :=
  Piece.map_eq_of_forall₂ (Piece.forall₂_interiors (Piece.forall₂_alike h hcalls))
    fun inside hi => hf inside ((Piece.mem_interiors_iff hcalls).mp hi)

theorem lexemesOf_alike (literals : List Text) :
    lexemesOf literals f xs = lexemesOf literals f ys := by
  have hpairs : (Piece.ofItems xs).map (Piece.lexemes literals fun i => (f i).text) =
      (Piece.ofItems ys).map (Piece.lexemes literals fun i => (f i).text) := by
    refine Piece.map_eq_of_forall₂ (Piece.forall₂_alike h hcalls) fun p hp q hpq => ?_
    have hwithin := Piece.within_ofItems hp
    cases hpq with
    | literal index => rfl
    | text hst =>
      exact Lexeme.ofText_alike hst fun hpair =>
        Piece.not_sublist_outerChars xs (hpair.trans hwithin)
    | group hi => exact congrArg (fun c : Cleaned => [Lexeme.group c.text]) (hf _ hwithin _ hi)
  rw [lexemesOf, lexemesOf, List.flatMap_def, List.flatMap_def, hpairs]

/-- A predicate is cleaned to the same with other blanks. -/
theorem predicate_alike (literals : List Text) (options : Options) :
    predicate literals options f xs = predicate literals options f ys := by
  have hloose : (Piece.ofItems xs).any Piece.hasLooseBracket =
      (Piece.ofItems ys).any Piece.hasLooseBracket := by
    have hmap := Piece.map_eq_of_forall₂ (Piece.forall₂_alike h hcalls) fun p _ q hpq =>
      Piece.hasLooseBracket_alike hpq
    have hany := congrArg (List.any · id) hmap
    rw [List.any_map, List.any_map] at hany
    exact hany
  have htext : Condition.renderAll (placesOf literals f xs) options (tokensOf literals xs) =
      Condition.renderAll (placesOf literals f ys) options (tokensOf literals ys) := by
    refine condition_renderAll_congr ?_ options
    rw [map_fill_tokensOf, map_fill_tokensOf, lexemesOf_alike h hcalls hf]
  rw [predicate_eq, predicate_eq, htext, hloose, groupsOf_alike h hcalls hf]

end Predicate

/-- Without calls and subselects, and up to the limit of nesting, a part of a clause is cleaned to
the same with other blanks. -/
theorem group_alike (literals : List Text) (options : Options) (levels : Nat) {xs ys : List Item}
    (h : AlikeBut Item.isBlank xs ys) (hcalls : CallFree false xs)
    (hwhere : Subselect.LacksWhere xs) (hdeep : ¬ Deep levels xs) :
    group literals options levels xs = group literals options levels ys := by
  induction levels generalizing xs ys with
  | zero => exact absurd trivial hdeep
  | succ levels ih =>
    have huncut := Subselect.split_of_whereFree (hwhere.whereFree false)
    have huncut' := Subselect.split_of_whereFree ((hwhere.of_alike h).whereFree false)
    rw [group, group, clause_of_uncut _ _ _ huncut, clause_of_uncut _ _ _ huncut']
    refine predicate_alike h hcalls (fun inside hi inside' hinside => ?_) literals options
    have hpart := infix_of_mem_groups hi
    exact ih hinside (hcalls.of_part hpart) (hwhere.of_part hpart)
      fun hd => hdeep (deep_succ_iff.mpr ⟨inside, hi, hd⟩)

end Cleaned

/-! ## Whole clauses -/

/-- A clause without a leading WHERE and a row limit is its own body. -/
theorem Normal.detached_of_lacksWhere {t : Text}
    (hwhere : Subselect.LacksWhere (Lifted.items (trim t)))
    (hlimit : (RowLimit.detach (trim t)).2 = none) :
    RowLimit.detach (stripLeadingWhere (trim t)) = (trim t, none) := by
  have hstrip := stripLeadingWhere_of_lacksWhere hwhere
  rw [trim, trim, dropEnds_dropEnds, ← trim] at hstrip
  rw [hstrip, RowLimit.detach_eq_of_none hlimit]

/-- The normal form does not depend on how a clause is spaced. -/
theorem Normal.ofText_respaced (options : Options) {raw other : Text}
    (h : Lifted.Respaced (trim raw) (trim other)) (hcalls : CallFree false (Lifted.items raw))
    (hwhere : Subselect.LacksWhere (Lifted.items raw)) (hlimit : (RowLimit.detach raw).2 = none)
    (hdeep : ¬ Deep (Cleaned.maxNesting + 1) (Lifted.items raw)) :
    ofText options raw = ofText options other := by
  have hpart := Fragment.items_trim_part raw
  have hliterals : Fragment.literals (trim raw) = Fragment.literals (trim other) :=
    Lifted.contents_alike h.parts
  have hitems : AlikeBut Item.isBlank (Lifted.items (trim raw)) (Lifted.items (trim other)) :=
    Lifted.number_alike h.parts 0
  have hlimit' : (RowLimit.detach (trim raw)).2 = none := (RowLimit.limit_trim raw).trans hlimit
  have hwhere' := hwhere.of_part hpart
  have hbody := detached_of_lacksWhere hwhere' hlimit'
  have hother := detached_of_lacksWhere (hwhere'.of_alike hitems)
    (RowLimit.limit_of_alike h.alikeBut hlimit')
  have hcleaned : Fragment.cleaned options (Cleaned.maxNesting + 1) (trim raw) =
      Fragment.cleaned options (Cleaned.maxNesting + 1) (trim other) := by
    rw [Fragment.cleaned, Fragment.cleaned, ← hliterals]
    exact Cleaned.group_alike _ options _ hitems (hcalls.of_part hpart) hwhere'
      fun hd => hdeep (hd.of_part hpart)
  have hstray : (Lifted.ofText (trim raw)).hasStrayQuote =
      (Lifted.ofText (trim other)).hasStrayQuote := by
    rw [Bool.eq_iff_iff, ← not_iff_not, Bool.not_eq_true, Bool.not_eq_true,
      Lifted.hasStrayQuote_eq_false_iff, Lifted.hasStrayQuote_eq_false_iff]
    exact h.closed_iff
  rw [ofText_of_detach options hbody, ofText_of_detach options hother, hcleaned, hstray]

/-- Blanks are interchangeable. A clause without calls, the letters of WHERE and a row limit, nested
no deeper than the limit, gives the same result with any other blanks in the places of its blanks
outside literals, and with any blanks around it. -/
theorem clean_respaced {raw other : Text} (h : Lifted.Respaced (trim raw) (trim other))
    (hcalls : CallFree false (Lifted.items raw))
    (hwhere : Subselect.LacksWhere (Lifted.items raw)) (hlimit : (RowLimit.detach raw).2 = none)
    (hdeep : ¬ Deep (Cleaned.maxNesting + 1) (Lifted.items raw)) :
    (∀ options, cleanClauseWith options raw = cleanClauseWith options other) ∧
      ∀ columns options, clean ⟨raw, columns, options⟩ = clean ⟨other, columns, options⟩ := by
  have hsame := fun options =>
    Normal.ofText_respaced options h hcalls hwhere hlimit hdeep
  refine ⟨fun options => congrArg Normal.text (hsame options), fun columns options => ?_⟩
  simp only [clean, Request.chosenOptions, hsame]

/-- A literal keeps its blanks. Those in and behind a group and before a quote that is left open may
be any. -/
theorem clean_respaced_stray :
    clean ⟨" (a  =\t'x  y')\nor b=c\"".toList, none, none⟩ =
      clean ⟨"(a = 'x  y')\u00a0\u2003or\n\nb=c\"  ".toList, none, none⟩ := by
  have hraw : trim " (a  =\t'x  y')\nor b=c\"".toList =
      "(a".toList ++ ([' ', ' '] ++ ("=".toList ++ (['\t'] ++ ('\'' :: ("x  y".toList ++ '\'' ::
        (")".toList ++ (['\n'] ++ ("or".toList ++ ([' '] ++ ("b=c".toList ++ ['"'])))))))))) := by
    decide +kernel
  have hother : trim "(a = 'x  y')\u00a0\u2003or\n\nb=c\"  ".toList =
      "(a".toList ++ ([' '] ++ ("=".toList ++ ([' '] ++ ('\'' :: ("x  y".toList ++ '\'' ::
        (")".toList ++ (['\u00a0', '\u2003'] ++ ("or".toList ++ (['\n', '\n'] ++
          ("b=c".toList ++ ['"'])))))))))) := by
    decide +kernel
  have hspaced : Lifted.Respaced (trim " (a  =\t'x  y')\nor b=c\"".toList)
      (trim "(a = 'x  y')\u00a0\u2003or\n\nb=c\"  ".toList) := by
    rw [hraw, hother]
    refine .chars (by decide) (.blanks (by decide) (by decide) (by decide) (by decide) ?_)
    refine .chars (by decide) (.blanks (by decide) (by decide) (by decide) (by decide) ?_)
    refine .literal (by decide) (by decide) (.chars (by decide) ?_)
    refine .blanks (by decide) (by decide) (by decide) (by decide) (.chars (by decide) ?_)
    refine .blanks (by decide) (by decide) (by decide) (by decide) (.chars (by decide) ?_)
    exact .stray (by decide) (by decide) .nil
  exact (clean_respaced hspaced (by decide +kernel) (by decide +kernel) (by decide +kernel)
    fun hdeep => absurd hdeep.length_le (by decide +kernel)).2 none none

end FilterClause
