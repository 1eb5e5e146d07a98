import FilterClause.Proofs.DepthCounter
import FilterClause.Proofs.StandingAlone
import Mathlib.Data.List.Chain
import Mathlib.Tactic.NthRewrite

/-!
# Keywords in whole clauses

A WHERE or a LIKE may be found in a group, and a LIKE beside a literal or a call. Their neighbours
in the whole clause are no part of a word there either: the parts of a clause stand between brackets
(`Subclause`), and a piece of text touches no other one (`Piece.Apart`). So all keywords of a clause
stand alone, each in the sense of the stage that looks for it (`keywords_standAlone`).
-/

namespace FilterClause

open Text

/-! ## Pieces -/

namespace Piece

section Neighbours

variable {items : List Item} {front back : List Piece} {t : Text}
  (h : ofItems items = front ++ .text t :: back)

include h

/-- Behind a literal or a bracket no word goes on. -/
theorem getLast?_before_text :
    ∀ i ∈ (front.flatMap Piece.items).getLast?, i.within Token.isWordPart = false := by
  have hchain := isChain_ofItems items
  rw [h, List.isChain_append] at hchain
  rcases List.eq_nil_or_concat front with rfl | ⟨front, p, rfl⟩
  · rintro i ⟨⟩
  · rw [List.concat_eq_append] at hchain ⊢
    have hp : Apart p (.text t) := hchain.2.2 p (by simp) _ rfl
    have hne : ∀ s, p ≠ .text s := by
      rintro s rfl
      exact hp
    rw [List.flatMap_append, List.flatMap_singleton, List.getLast?_append]
    rcases getLast?_items hne with ⟨index, hlast⟩ | hlast
    · rw [hlast]
      rintro i ⟨⟩
      rfl
    · rw [hlast]
      rintro i ⟨⟩
      exact isWordPart_of_mem_marks ')' (by decide)

/-- In front of a literal or a bracket no word goes on, and the name of a call is none that goes on
from the text. -/
theorem head?_behind_text {c : Char} (hc : c ∈ t.getLast?) (hname : Text.isName c = true) :
    ∀ i ∈ (back.flatMap Piece.items).head?, i.within Text.isWord = false := by
  have hchain := isChain_ofItems items
  rw [h, List.isChain_append, List.isChain_cons] at hchain
  cases back with
  | nil => rintro i ⟨⟩
  | cons p back =>
    have hp : Apart (.text t) p := hchain.2.1.1 p rfl
    rw [List.flatMap_cons, List.head?_append]
    intro i hi
    cases p with
    | text s => cases hp
    | literal index =>
      cases hi
      rfl
    | call name arguments =>
      rw [hp c hc] at hname
      cases hname
    | group interior =>
      cases hi
      exact (classes_of_mem_marks (by decide : '(' ∈ marks)).1

end Neighbours

end Piece

/-! ## Subclauses -/

/-- The parts of a clause that are clauses of their own, with what stands before and behind them:
the whole, and what is between the brackets of a group behind the last cut of a part. -/
inductive Subclause (whole : List Item) : List Item → List Item → List Item → Prop where
  | whole : Subclause whole [] whole []
  | group {before part behind interior : List Item} {front back : List Piece}
      (hpart : Subclause whole before part behind)
      (hpieces : Piece.ofItems (Subselect.split part).2 = front ++ .group interior :: back) :
      Subclause whole
        (before ++ (Subselect.split part).1.flatten ++ front.flatMap Piece.items ++ [.char '('])
        interior (.char ')' :: back.flatMap Piece.items ++ behind)

section Border

variable {p : Item → Bool} {xs ys : List Item}

theorem getLast?_append_of_not (hy : ∀ i ∈ ys.getLast?, p i = false)
    (hx : ys = [] → ∀ i ∈ xs.getLast?, p i = false) : ∀ i ∈ (xs ++ ys).getLast?, p i = false := by
  by_cases hne : ys = []
  · rw [hne, List.append_nil]
    exact hx hne
  · rwa [List.getLast?_append_of_ne_nil _ hne]

theorem head?_append_of_not (hx : ∀ i ∈ xs.head?, p i = false)
    (hy : xs = [] → ∀ i ∈ ys.head?, p i = false) : ∀ i ∈ (xs ++ ys).head?, p i = false := by
  cases xs with
  | nil => exact hy rfl
  | cons i xs => exact hx

end Border

/-- A part of a clause is its leads and its pieces in order. -/
theorem leads_append_pieces (part : List Item) :
    (Subselect.split part).1.flatten ++
      (Piece.ofItems (Subselect.split part).2).flatMap Piece.items = part := by
  rw [Piece.flatMap_items_ofItems, Subselect.flatten_split]

namespace Subclause

variable {whole before part behind : List Item} (h : Subclause whole before part behind)

include h

theorem eq_append : whole = before ++ part ++ behind := by
  induction h with
  | whole => simp
  | @group before part behind interior front back _ hpieces ih =>
    have hpart := leads_append_pieces part
    rw [hpieces, List.flatMap_append, List.flatMap_cons, Piece.items] at hpart
    rw [ih]
    nth_rewrite 1 [← hpart]
    simp only [List.append_assoc, List.cons_append, List.nil_append]

/-- A part stands between brackets, unless it is the whole. -/
theorem borders :
    (∀ i ∈ before.getLast?, i = .char '(') ∧ ∀ i ∈ behind.head?, i = .char ')' := by
  cases h with
  | whole => exact ⟨nofun, nofun⟩
  | group hpart hpieces =>
    rw [List.getLast?_concat]
    constructor
    · rintro i ⟨⟩
      rfl
    · rintro i ⟨⟩
      rfl

/-- A class without the brackets ends at the borders of a part. -/
theorem borders_of_not {p : Item → Bool} (hopen : p (.char '(') = false)
    (hclose : p (.char ')') = false) :
    (∀ i ∈ before.getLast?, p i = false) ∧ ∀ i ∈ behind.head?, p i = false := by
  obtain ⟨hbefore, hbehind⟩ := h.borders
  exact ⟨fun i hi => hbefore i hi ▸ hopen, fun i hi => hbehind i hi ▸ hclose⟩

/-- A part is cut behind a WHERE that no name goes on around. -/
theorem exists_standsAlone_of_lead {leads others : List (List Item)} {lead : List Item}
    (hleads : (Subselect.split part).1 = leads ++ lead :: others) :
    ∃ (front : List Item) (keyword : Text), lead = front ++ keyword.map .char ∧
      keyword.map foldLetter = ['w', 'h', 'e', 'r', 'e'] ∧
      StandsAlone isName whole (before ++ leads.flatten ++ front) keyword
        (others.flatten ++ (Subselect.split part).2 ++ behind) := by
  have hname : Item.within isName = Item.isName := funext fun i => by cases i <;> rfl
  obtain ⟨hborder, hborder'⟩ := h.borders_of_not (p := Item.isName)
    (isName_of_mem_marks '(' (by decide)) (isName_of_mem_marks ')' (by decide))
  obtain ⟨front, w, hw, hlead, hlast, hhead⟩ := Subselect.lead_standsAlone hleads
  refine ⟨front, w, hlead, hw, ?_, ?_⟩
  · have hpart := Subselect.flatten_split part
    rw [hleads, List.flatten_append, List.flatten_cons, hlead] at hpart
    rw [h.eq_append]
    nth_rewrite 1 [← hpart]
    simp only [List.append_assoc]
  · rw [hname, List.append_assoc]
    exact runAround_eq (getLast?_append_of_not hlast fun _ => hborder)
      (head?_append_of_not hhead fun _ => hborder') _

section Like

variable {front back : List Piece} {t keyword : Text} {xs ys : List (Char ⊕ (TokenKind × Text))}
  (hpieces : Piece.ofItems (Subselect.split part).2 = front ++ .text t :: back)
  (hsource : t = Token.sources xs ++ keyword ++ Token.sources ys)
  (hkeyword : keyword ≠ []) (hletter : ∀ c ∈ keyword, isName c = true)

include hpieces hsource hkeyword hletter

omit h in
/-- A clause is not cut directly before a keyword. -/
theorem leads_eq_nil (hxs : Token.sources xs = []) (hfront : front.flatMap Piece.items = []) :
    (Subselect.split part).1 = [] := by
  rcases List.eq_nil_or_concat (Subselect.split part).1 with hnil | ⟨leads, lead, hleads⟩
  · exact hnil
  · rw [List.concat_eq_append] at hleads
    obtain ⟨-, -, -, -, -, hhead⟩ := Subselect.lead_standsAlone hleads
    obtain ⟨c, keyword, rfl⟩ := List.exists_cons_of_ne_nil hkeyword
    have hpredicate := Piece.flatMap_items_ofItems (Subselect.split part).2
    rw [hpieces, List.flatMap_append, hfront, List.flatMap_cons, Piece.items, hsource,
      hxs] at hpredicate
    have hc := hhead (.char c) (by rw [← hpredicate]; rfl)
    rw [Item.isName, hletter c List.mem_cons_self] at hc
    cases hc

/-- What stands before a keyword in a text of a part ends in nothing of a word, if it does so in
the text. -/
theorem getLast?_before_keyword
    (hlast : ∀ c ∈ (Token.sources xs).getLast?, Token.isWordPart c = false) :
    ∀ i ∈ (before ++ (Subselect.split part).1.flatten ++ front.flatMap Piece.items ++
      (Token.sources xs).map Item.char).getLast?, i.within Token.isWordPart = false := by
  refine getLast?_append_of_not (Item.within_of_map hlast) fun hxs => ?_
  refine getLast?_append_of_not (Piece.getLast?_before_text hpieces) fun hfront => ?_
  rw [leads_eq_nil hpieces hsource hkeyword hletter (List.map_eq_nil_iff.mp hxs) hfront,
    List.flatten_nil, List.append_nil]
  exact (h.borders_of_not (isWordPart_of_mem_marks '(' (by decide))
    (isWordPart_of_mem_marks ')' (by decide))).1

theorem head?_behind_keyword (hword : startsWithWord (Token.sources ys) = false) :
    ∀ i ∈ ((Token.sources ys).map Item.char ++ back.flatMap Piece.items ++ behind).head?,
      i.within isWord = false := by
  refine head?_append_of_not (head?_append_of_not ?_ fun hys => ?_) fun _ => ?_
  · cases hys : Token.sources ys with
    | nil => nofun
    | cons c s =>
      rw [hys] at hword
      rintro i ⟨⟩
      exact hword
  · rw [List.map_eq_nil_iff.mp hys, List.append_nil] at hsource
    have hlast : keyword.getLast hkeyword ∈ t.getLast? := by
      rw [hsource, List.getLast?_append_of_ne_nil _ hkeyword]
      exact List.getLast?_eq_some_getLast hkeyword
    exact Piece.head?_behind_text hpieces hlast (hletter _ (List.getLast_mem hkeyword))
  · exact (h.borders_of_not (classes_of_mem_marks (by decide : '(' ∈ marks)).1
      (classes_of_mem_marks (by decide : ')' ∈ marks)).1).2

end Like

end Subclause

/-- An operator that is found in the text of a part of a clause, with what stands before and behind
it in the whole. -/
inductive OperatorAt (whole : List Item) : List Item → Text → List Item → Prop where
  | found {before part behind : List Item} {front back : List Piece} {t operator : Text}
      {xs ys : List (Char ⊕ (TokenKind × Text))} (hpart : Subclause whole before part behind)
      (hpieces : Piece.ofItems (Subselect.split part).2 = front ++ .text t :: back)
      (hscan : scan Token.find? t = xs ++ .inr (.operator, operator) :: ys) :
      OperatorAt whole
        (before ++ (Subselect.split part).1.flatten ++ front.flatMap Piece.items ++
          (Token.sources xs).map .char) operator
        ((Token.sources ys).map .char ++ back.flatMap Piece.items ++ behind)

/-- An operator is a sign, or a LIKE with nothing of a word before it, and no word goes on behind
it. -/
theorem OperatorAt.standsAlone {whole before behind : List Item} {operator : Text}
    (h : OperatorAt whole before operator behind) :
    operator ∈ Token.signs ∨ operator.map foldLetter = ['l', 'i', 'k', 'e'] ∧
      StandsAlone isWord whole before operator behind ∧
      ∀ i ∈ before.getLast?, i.within Token.isWordPart = false := by
  by_cases hsign : operator ∈ Token.signs
  · exact .inl hsign
  right
  cases h with
  | @found before part behind front back t _ xs ys hpart hpieces hscan =>
    obtain ⟨hk, hlast, hword⟩ := Token.like_standsAlone none (.inl nofun) hscan hsign
    rw [Option.or_none] at hlast
    have hsource : t = Token.sources xs ++ operator ++ Token.sources ys := by
      rw [← Token.sources_scan t, hscan]
      simp [Token.sources]
    have hne : operator ≠ [] := by
      rintro rfl
      cases hk
    have hletter : ∀ c ∈ operator, isName c = true := fun c hc =>
      isName_of_foldLetter (foldLetter_mem_of_spelling hk (by decide) c hc)
    have hbefore := hpart.getLast?_before_keyword hpieces hsource hne hletter hlast
    have hbehind := hpart.head?_behind_keyword hpieces hsource hne hletter hword
    refine ⟨hk, ⟨?_, runAround_eq ?_ hbehind _⟩, hbefore⟩
    · have hparts := leads_append_pieces part
      rw [hpieces, List.flatMap_append, List.flatMap_cons, Piece.items, hsource] at hparts
      rw [hpart.eq_append]
      nth_rewrite 1 [← hparts]
      simp only [List.append_assoc, List.map_append]
    · intro i hi
      have hi' := hbefore i hi
      cases i with
      | literal index => rfl
      | char c => exact not_isWord_of_not_isWordPart hi'

/-! ## Whole clauses -/

/-- In every clause the keywords stand alone, each in the sense of the stage that looks for it: no
word goes on around the LIMIT that is detached and around a LIKE that is read, and no name around a
WHERE behind which a part of the clause is cut. So only a sign of those that words hold may touch a
keyword, or beside WHERE a character that names lack. No sign stands behind LIMIT or before LIKE. -/
theorem keywords_standAlone (raw : Text) :
    (∀ body limit, RowLimit.detach raw = (body, some limit) →
      ∃ before keyword behind : Text, body = trimEnd before ∧ keyword = limit.text.take 5 ∧
        keyword.map foldLetter = ['l', 'i', 'm', 'i', 't'] ∧
        StandsAlone isWord (raw.map .char) (before.map .char) keyword (behind.map .char) ∧
        ∀ c ∈ behind.head?, Token.isWordPart c = false) ∧
    (∀ before part behind leads lead others, Subclause (Normal.body raw) before part behind →
      (Subselect.split part).1 = leads ++ lead :: others →
      ∃ (front : List Item) (keyword : Text), lead = front ++ keyword.map .char ∧
        keyword.map foldLetter = ['w', 'h', 'e', 'r', 'e'] ∧
        StandsAlone isName (Normal.body raw) (before ++ leads.flatten ++ front) keyword
          (others.flatten ++ (Subselect.split part).2 ++ behind)) ∧
    ∀ before operator behind, OperatorAt (Normal.body raw) before operator behind →
      operator ∈ Token.signs ∨ operator.map foldLetter = ['l', 'i', 'k', 'e'] ∧
        StandsAlone isWord (Normal.body raw) before operator behind ∧
        ∀ i ∈ before.getLast?, i.within Token.isWordPart = false :=
  ⟨fun _ _ h => RowLimit.exists_standsAlone h,
    fun _ _ _ _ _ _ h hleads => h.exists_standsAlone_of_lead hleads, fun _ _ _ h => h.standsAlone⟩

/-- A clause with all three keywords, each with a sign beside it. -/
theorem keywords_standAlone_beside_signs :
    (∃ before keyword behind : Text, "a-Where -b like-c+".toList = trimEnd before ∧
      keyword = "LIMIT".toList ∧ keyword.map foldLetter = ['l', 'i', 'm', 'i', 't'] ∧
      StandsAlone isWord ("a-Where -b like-c+LIMIT 5".toList.map .char) (before.map .char) keyword
        (behind.map .char) ∧
      ∀ c ∈ behind.head?, Token.isWordPart c = false) ∧
    (∃ (front : List Item) (keyword : Text), "a-Where".toList.map .char =
        front ++ keyword.map .char ∧ keyword.map foldLetter = ['w', 'h', 'e', 'r', 'e'] ∧
      StandsAlone isName ("a-Where -b like-c+".toList.map .char) front keyword
        (" -b like-c+".toList.map .char)) ∧
    StandsAlone isWord ("a-Where -b like-c+".toList.map .char) ("a-Where -b ".toList.map .char)
      "like".toList ("-c+".toList.map .char) := by
  obtain ⟨hlimit, hwhere, hlike⟩ := keywords_standAlone "a-Where -b like-c+LIMIT 5".toList
  have hbody : Normal.body "a-Where -b like-c+LIMIT 5".toList =
      "a-Where -b like-c+".toList.map .char := by
    decide +kernel
  have hsplit : Subselect.split ("a-Where -b like-c+".toList.map .char) =
      (["a-Where".toList.map .char], " -b like-c+".toList.map .char) := by
    decide +kernel
  have hpieces : Piece.ofItems
      (Subselect.split ("a-Where -b like-c+".toList.map .char)).2 =
        [] ++ .text " -b like-c+".toList :: [] := by
    rw [hsplit]
    exact Piece.ofItems_map_char (by decide)
  have hscan : scan Token.find? " -b like-c+".toList =
      [.inl ' ', .inr (.word, "-b".toList), .inl ' '] ++
        .inr (.operator, "like".toList) :: [.inr (.word, "-c+".toList)] := by
    decide +kernel
  rw [hbody] at hwhere hlike
  refine ⟨hlimit "a-Where -b like-c+".toList ⟨"LIMIT 5".toList, some 5⟩ (by decide +kernel), ?_, ?_⟩
  · have h := hwhere [] _ [] [] _ [] .whole (by rw [hsplit]; rfl)
    rw [hsplit] at h
    simpa using h
  · have h := hlike _ _ _ (.found .whole hpieces hscan)
    rw [hsplit] at h
    exact (h.resolve_left (by decide)).2.1

/-- A sign before the keyword belongs to the word for the tokens, but not for the row limit. -/
theorem detach_cuts_hyphenated_word :
    RowLimit.detach "Name = off-LIMIT 5".toList =
      ("Name = off-".toList, some ⟨"LIMIT 5".toList, some 5⟩) ∧
    ¬ ∀ (before after : Text) (limit : RowLimit),
      RowLimit.detach (before ++ limit.text ++ after) = (trimEnd before, some limit) →
      StandsAlone Token.isWordPart ((before ++ limit.text ++ after).map .char) (before.map .char)
        (limit.text.take 5) ((limit.text.drop 5 ++ after).map .char) := by
  have hdetach : RowLimit.detach "Name = off-LIMIT 5".toList =
      ("Name = off-".toList, some ⟨"LIMIT 5".toList, some 5⟩) := by
    decide +kernel
  refine ⟨hdetach, fun h => ?_⟩
  have halone := (h "Name = off-".toList [] ⟨"LIMIT 5".toList, some 5⟩ hdetach).run
  exact absurd halone (by decide +kernel)

end FilterClause
