import FilterClause.Proofs.Spellings
import FilterClause.Proofs.Warnings

/-!
# Keywords stand alone

Three stages look for a keyword, and each asks something else of its neighbours: no word character
beside LIMIT, no name character beside WHERE, and for LIKE no part of a word before it and no word
character behind it. `StandsAlone` says it for all of them by the longest run of a class around the
keyword. Each stage is looked at in the text or the items that it reads.
-/

namespace FilterClause

open Text

/-! ## Runs around a keyword -/

/-- Whether an item is a character of a class. -/
def Item.within (p : Char → Bool) : Item → Bool
  | .char c => p c
  | .literal _ => false

/-- The keyword and all of a class that stands directly before and behind it. -/
def runAround (p : Item → Bool) (before keyword behind : List Item) : List Item :=
  (before.reverse.takeWhile p).reverse ++ keyword ++ behind.takeWhile p

/-- At a place of a clause the longest run of a class around a keyword is the keyword. -/
structure StandsAlone (p : Char → Bool) (whole before : List Item) (keyword : Text)
    (behind : List Item) : Prop where
  place : whole = before ++ keyword.map .char ++ behind
  run : runAround (Item.within p) before (keyword.map .char) behind = keyword.map .char

theorem runAround_eq {p : Item → Bool} {before behind : List Item}
    (hbefore : ∀ i ∈ before.getLast?, p i = false) (hbehind : ∀ i ∈ behind.head?, p i = false)
    (keyword : List Item) : runAround p before keyword behind = keyword := by
  rw [← List.head?_reverse] at hbefore
  rw [runAround, takeWhile_of_head hbefore, takeWhile_of_head hbehind, List.reverse_nil,
    List.nil_append, List.append_nil]

theorem Item.within_of_map {p : Char → Bool} {t : Text} (h : ∀ c ∈ t.getLast?, p c = false) :
    ∀ i ∈ (t.map Item.char).getLast?, i.within p = false := by
  rw [List.getLast?_map]
  intro i hi
  obtain ⟨c, hc, rfl⟩ := Option.map_eq_some_iff.mp hi
  exact h c hc

/-! ## Row limits -/

/-- A row limit begins with its keyword, which no word goes on around, and behind which not even a
sign stands. -/
theorem RowLimit.exists_standsAlone {t body : Text} {limit : RowLimit}
    (h : detach t = (body, some limit)) :
    ∃ before keyword behind : Text, body = trimEnd before ∧ keyword = limit.text.take 5 ∧
      keyword.map foldLetter = ['l', 'i', 'm', 'i', 't'] ∧
      StandsAlone isWord (t.map .char) (before.map .char) keyword (behind.map .char) ∧
      ∀ c ∈ behind.head?, Token.isWordPart c = false := by
  obtain ⟨before, after, ht, hbody, ⟨keyword, gap, digits, rfl, hk, hgap, hblank, -⟩, hlast, -⟩ :=
    exists_of_detach h
  have hlen : keyword.length = 5 := by simpa using congrArg List.length hk
  obtain ⟨b, gap, rfl⟩ := List.exists_cons_of_ne_nil hgap
  have hb : isBlank b = true := hblank b List.mem_cons_self
  refine ⟨before, keyword, b :: gap ++ digits ++ after, hbody, ?_, hk, ⟨?_, ?_⟩, ?_⟩
  · rw [List.append_assoc, List.take_left' hlen]
  · rw [ht]
    simp only [List.map_append, List.append_assoc]
  · refine runAround_eq (Item.within_of_map hlast) ?_ _
    rintro i ⟨⟩
    exact isWord_of_isBlank hb
  · rintro c ⟨⟩
    exact isWordPart_of_isBlank hb

/-! ## Cuts -/

namespace Subselect

/-- No name goes on around the keyword that makes a cut. -/
theorem endOfWhereFrom_standsAlone {depth n : Nat} {inName : Bool} {items : List Item}
    (h : endOfWhereFrom depth inName items = some n) :
    ∃ (before : List Item) (w : Text), w.map foldLetter = ['w', 'h', 'e', 'r', 'e'] ∧
      items.take n = before ++ w.map .char ∧ (before = [] → inName = false) ∧
      (∀ i ∈ before.getLast?, i.isName = false) ∧ ∀ i ∈ (items.drop n).head?, i.isName = false := by
  induction items generalizing depth inName n with
  | nil => cases h
  | cons i rest ih =>
    unfold endOfWhereFrom at h
    dsimp only at h
    split at h
    · next hcond =>
      obtain rfl := Option.some.inj h
      simp only [Bool.and_eq_true, Bool.not_eq_true'] at hcond
      obtain ⟨⟨-, hname⟩, hstart⟩ := hcond
      obtain ⟨w, hw, hitems⟩ := exists_of_spellsWhere (spellsWhere_of_startsWithWhere hstart)
      have hlen : (w.map Item.char).length = 5 := by simpa using congrArg List.length hw
      refine ⟨[], w, hw, ?_, fun _ => hname, ?_, ?_⟩
      · rw [hitems, List.take_left' hlen, List.nil_append]
      · rintro j ⟨⟩
      · rw [startsWithWhere_eq, Bool.and_eq_true, Bool.not_eq_true'] at hstart
        intro j hj
        have := hstart.2
        rw [Option.mem_def.mp hj] at this
        exact this
    · obtain ⟨m, hm, rfl⟩ := Option.map_eq_some_iff.mp h
      obtain ⟨before, w, hw, htake, hempty, hlast, hhead⟩ := ih hm
      refine ⟨i :: before, w, hw, ?_, fun hcons => ?_, ?_, ?_⟩
      · rw [List.take_succ_cons, htake, List.cons_append]
      · cases hcons
      · cases before with
        | nil =>
          rintro j ⟨⟩
          exact hempty rfl
        | cons b before => exact hlast
      · rwa [List.drop_succ_cons]

/-- Where a clause goes on behind a lead, no name goes on. -/
theorem lead_standsAlone {items : List Item} {leads others : List (List Item)} {lead : List Item}
    (h : (split items).1 = leads ++ lead :: others) :
    ∃ (front : List Item) (w : Text), w.map foldLetter = ['w', 'h', 'e', 'r', 'e'] ∧
      lead = front ++ w.map .char ∧
      (∀ i ∈ (leads.flatten ++ front).getLast?, i.isName = false) ∧
      ∀ i ∈ (others.flatten ++ (split items).2).head?, i.isName = false := by
  induction items using split_induction generalizing leads with
  | uncut items hn =>
    rw [split_of_none hn] at h
    simp at h
  | cut items n hn ih =>
    obtain ⟨before, w, hw, htake, -, hlast, hhead⟩ := endOfWhereFrom_standsAlone hn
    rw [split_of_some hn] at h ⊢
    cases leads with
    | nil =>
      obtain ⟨hlead, hothers⟩ := List.cons.inj h
      refine ⟨before, w, hw, hlead.symm.trans htake, hlast, ?_⟩
      rw [← hothers, flatten_split]
      exact hhead
    | cons l leads =>
      obtain ⟨hl, hrest⟩ := List.cons.inj h
      obtain ⟨front, w', hw', hlead, hlast', hhead'⟩ := ih hrest
      refine ⟨front, w', hw', hlead, ?_, hhead'⟩
      rw [List.flatten_cons, List.append_assoc]
      cases hfront : leads.flatten ++ front with
      | nil =>
        -- The next keyword would follow the last one directly.
        obtain ⟨hleads, rfl⟩ := List.append_eq_nil_iff.mp hfront
        have hdrop := flatten_split (items.drop n)
        rw [show (split (items.drop n)).1 = leads ++ lead :: others from hrest,
          List.flatten_append, hleads, List.nil_append, List.flatten_cons, hlead,
          List.nil_append] at hdrop
        cases w' with
        | nil => cases hw'
        | cons c w' =>
          have hc := hhead (.char c) (by rw [← hdrop]; rfl)
          have hletter := foldLetter_mem_of_spelling hw' (by decide) c List.mem_cons_self
          have := isName_of_foldLetter hletter
          rw [Item.isName, this] at hc
          cases hc
      | cons i is =>
        intro j hj
        rw [List.getLast?_append_cons] at hj
        rw [hfront] at hlast'
        exact hlast' j hj

end Subselect

/-! ## Operators -/

namespace Token

/-- The characters that a scanned text was made of. -/
def sources (found : List (Char ⊕ (TokenKind × Text))) : Text :=
  found.flatMap fun
    | .inl c => [c]
    | .inr token => token.2

/-- A token that is found is cut off at the length that it was recognised with. -/
theorem exists_lexeme_of_find? {c : Char} {rest : Text} {found : TokenKind × Text} {n : Nat}
    (h : find? c rest = some (found, n)) :
    ∃ m, lexeme? (c :: rest) = some (found.1, m) ∧ found.2 = (c :: rest).take m ∧
      rest.drop n = (c :: rest).drop m := by
  obtain ⟨⟨kind, m⟩, hl, he⟩ := Option.map_eq_some_iff.mp h
  obtain ⟨rfl, rfl⟩ := Prod.mk.inj he
  refine ⟨m, hl, rfl, ?_⟩
  obtain ⟨m, rfl⟩ := Nat.exists_eq_add_one_of_ne_zero (lexeme?_bounds hl).1.ne'
  rfl

theorem find?_eq_some {c : Char} {rest : Text} {found : TokenKind × Text} {n : Nat}
    (h : find? c rest = some (found, n)) : found.2 ++ rest.drop n = c :: rest := by
  obtain ⟨m, -, htext, hdrop⟩ := exists_lexeme_of_find? h
  rw [htext, hdrop, List.take_append_drop]

/-- What was scanned is found again in order. -/
theorem sources_scan (t : Text) : sources (scan find? t) = t := by
  induction t using scan_induction find? with
  | nil => rfl
  | pass c rest hf ih =>
    rw [scan_cons_of_none hf, sources, List.flatMap_cons]
    exact congrArg (c :: ·) ih
  | take c rest found n hf ih =>
    rw [scan_cons_of_some hf, sources, List.flatMap_cons]
    exact (congrArg (found.2 ++ ·) ih).trans (find?_eq_some hf)

theorem isWordPart_of_find?_eq_none {c : Char} {rest : Text} (h : find? c rest = none) :
    isWordPart c = false := by
  rw [find?, Option.map_eq_none_iff] at h
  unfold lexeme? at h
  split at h
  · cases h
  · split at h
    · cases h
    · rw [Option.map_eq_none_iff, wordLength?] at h
      by_contra hc
      rw [Bool.not_eq_false] at hc
      simp [hc] at h

/-- LIKE is found where no word goes on behind it. -/
theorem like_of_operatorLength? {t : Text} {n : Nat} (h : operatorLength? t = some n)
    (hsign : t.take n ∉ signs) :
    (t.take n).map foldLetter = ['l', 'i', 'k', 'e'] ∧ startsWithWord (t.drop n) = false := by
  have hspells := (spellsOperator_of_operatorLength? h).resolve_left hsign
  refine ⟨hspells, ?_⟩
  have hlike : likeLength? t = some n := by
    cases t with
    | nil => cases h
    | cons c rest =>
      obtain ⟨m, rfl⟩ := Nat.exists_eq_add_one_of_ne_zero (operatorLength?_bounds h).1.ne'
      have hletter := foldLetter_mem_of_spelling hspells (by decide) c List.mem_cons_self
      have hc : isWordPart c = true := by simp [isWordPart, isWord_of_foldLetter hletter]
      rwa [operatorLength?_of_isWordPart hc] at h
  unfold likeLength? at hlike
  split at hlike
  · next rest hs =>
    obtain ⟨w, rfl, hw⟩ := stripKeyword_eq_some_iff.mp hs
    have hlen : w.length = 4 := by simpa using congrArg List.length hw
    split at hlike
    · cases hlike
    · next hword =>
      cases hlike
      rw [List.drop_left' hlen]
      exact Bool.eq_false_iff.mpr hword
  · cases hlike

/-- A token ends in a sign or a bracket, or where no word goes on. -/
theorem lexeme?_stops {t : Text} {kind : TokenKind} {n : Nat} (h : lexeme? t = some (kind, n)) :
    (∀ d ∈ (t.take n).getLast?, isWordPart d = false) ∨ startsWithWord (t.drop n) = false := by
  have hmark : ∀ d ∈ marks, isWordPart d = false := isWordPart_of_mem_marks
  unfold lexeme? at h
  split at h
  · next m hop =>
    cases h
    by_cases hsign : t.take n ∈ signs
    · have hlast : ∀ r ∈ signs, ∀ d ∈ r.getLast?, d ∈ marks := by decide
      exact .inl fun d hd => hmark d (hlast _ hsign d hd)
    · exact .inr (like_of_operatorLength? hop hsign).2
  · split at h
    · next m hcall =>
      cases h
      obtain ⟨name, arguments, htake, -⟩ := take_callLength? hcall
      rw [htake, List.getLast?_concat]
      left
      rintro d ⟨⟩
      exact hmark ')' (by decide)
    · obtain ⟨m, hword, he⟩ := Option.map_eq_some_iff.mp h
      cases he
      have hhead := head?_drop_wordLength? hword
      right
      cases hrest : t.drop n with
      | nil => rfl
      | cons d rest => exact not_isWord_of_not_isWordPart (hhead d (hrest ▸ rfl))

theorem operatorLength?_of_lexeme? {t : Text} {n : Nat} (h : lexeme? t = some (.operator, n)) :
    operatorLength? t = some n := by
  unfold lexeme? at h
  split at h
  · next m hop =>
    cases h
    exact hop
  · split at h
    · cases h
    · obtain ⟨m, -, he⟩ := Option.map_eq_some_iff.mp h
      cases he

theorem getLast?_append_or {s : Text} (hs : s ≠ []) (t : Text) (prev : Option Char) :
    (s ++ t).getLast?.or prev = t.getLast?.or s.getLast? := by
  rw [List.getLast?_append]
  refine Option.or_of_isSome ?_
  rw [Option.isSome_or, List.getLast?_eq_some_getLast hs, Option.isSome_some, Bool.or_true]

/-- No part of a word stands before a LIKE that is found, not even before the whole text if `prev`
stands there. Behind a token a sign may go on, but no letter of LIKE. -/
theorem like_standsAlone {t w : Text} {xs ys : List (Char ⊕ (TokenKind × Text))}
    (prev : Option Char)
    (hprev : (∀ c ∈ prev, isWordPart c = false) ∨ startsWithWord t = false)
    (h : scan find? t = xs ++ .inr (.operator, w) :: ys) (hw : w ∉ signs) :
    w.map foldLetter = ['l', 'i', 'k', 'e'] ∧
      (∀ c ∈ (sources xs).getLast?.or prev, isWordPart c = false) ∧
      startsWithWord (sources ys) = false := by
  induction t using scan_induction find? generalizing xs prev with
  | nil => simp at h
  | pass c rest hf ih =>
    rw [scan_cons_of_none hf] at h
    cases xs with
    | nil => cases h
    | cons x xs =>
      obtain ⟨rfl, hrest⟩ := List.cons.inj h
      have hc : ∀ d ∈ some c, isWordPart d = false := by
        rintro d ⟨⟩
        exact isWordPart_of_find?_eq_none hf
      obtain ⟨hk, hbefore, hbehind⟩ := ih (some c) (.inl hc) hrest
      refine ⟨hk, ?_, hbehind⟩
      rw [sources, List.flatMap_cons, ← sources, getLast?_append_or (List.cons_ne_nil c [])]
      exact hbefore
  | take c rest found n hf ih =>
    rw [scan_cons_of_some hf] at h
    obtain ⟨kind, text⟩ := found
    obtain ⟨m, hl, rfl, hdrop⟩ := exists_lexeme_of_find? hf
    have hpos := (lexeme?_bounds hl).1
    cases xs with
    | nil =>
      obtain ⟨hfound, rfl⟩ := List.cons.inj h
      obtain ⟨rfl, rfl⟩ := Prod.mk.inj (Sum.inr.inj hfound)
      obtain ⟨hk, hbehind⟩ := like_of_operatorLength? (operatorLength?_of_lexeme? hl) hw
      refine ⟨hk, ?_, ?_⟩
      · have hword : startsWithWord (c :: rest) = true := by
          obtain ⟨m, rfl⟩ := Nat.exists_eq_add_one_of_ne_zero hpos.ne'
          have hletter := foldLetter_mem_of_spelling hk (by decide) c List.mem_cons_self
          exact isWord_of_foldLetter hletter
        exact hprev.resolve_right (by rw [hword]; exact Bool.noConfusion)
      · rwa [sources_scan, hdrop]
    | cons x xs =>
      obtain ⟨rfl, hrest⟩ := List.cons.inj h
      have hstops := lexeme?_stops hl
      rw [← hdrop] at hstops
      obtain ⟨hk, hbefore, hbehind⟩ := ih _ hstops hrest
      refine ⟨hk, ?_, hbehind⟩
      have hne : (c :: rest).take m ≠ [] := by
        rw [ne_eq, List.take_eq_nil_iff]
        simp
        omega
      rw [sources, List.flatMap_cons, ← sources, getLast?_append_or hne]
      exact hbefore

end Token

end FilterClause
