import FilterClause.Proofs.ReadBack
import FilterClause.Proofs.Visible
import Mathlib.Data.List.Flatten

/-!
# What texts keep of items

Items are looked at like the text that they are written as, piece by piece. A piece of text without
operators is read as its words, and what is neither in a word nor blank is lost. `Item.KeptIn` says
what texts keep of items: their ink is in the items in order, and it is all there exactly if nothing
is lost.
-/

namespace FilterClause

open Text

/-! ## Parts of pieces -/

theorem Item.isLink_part (literals : List Text) (i : Item) :
    Lifted.isLink (i.part literals) = i.isName := by
  cases i <;> rfl

namespace Piece

/-- From a piece into what may stand behind it no name goes on. -/
theorem not_isName_between {p : Piece} {ps : List Piece} (h : ∀ q ∈ ps.head?, Apart p q) :
    (∀ i ∈ p.items.getLast?, i.isName = false) ∨
      ∀ i ∈ (ps.flatMap items).head?, i.isName = false := by
  by_cases htext : ∃ s, p = .text s
  · obtain ⟨s, rfl⟩ := htext
    cases ps with
    | nil => exact .inr nofun
    | cons q ps =>
      have hq : Apart (.text s) q := h q rfl
      cases q with
      | text t => cases hq
      | literal index =>
        right
        rintro i ⟨⟩
        rfl
      | call name arguments =>
        left
        rw [items, List.getLast?_map]
        intro i hi
        obtain ⟨c, hc, rfl⟩ := Option.map_eq_some_iff.mp hi
        exact hq c hc
      | group interior =>
        right
        rintro i ⟨⟩
        exact isName_of_mem_marks '(' (by decide)
  · left
    rcases getLast?_items fun s hs => htext ⟨s, hs⟩ with ⟨index, hlast⟩ | hlast
    · rw [hlast]
      rintro i ⟨⟩
      rfl
    · rw [hlast]
      rintro i ⟨⟩
      exact isName_of_mem_marks ')' (by decide)

end Piece

section Views

variable {view : List (Char ⊕ Text) → List (Char ⊕ Text)} (hv : Lifted.View view)
  (literals : List Text)

include hv

/-- Items of which the first end in no name, or the second start with none, are looked at one after
the other. -/
theorem Item.view_append {xs ys : List Item}
    (h : (∀ i ∈ xs.getLast?, i.isName = false) ∨ ∀ i ∈ ys.head?, i.isName = false) :
    view (parts literals (xs ++ ys)) = view (parts literals xs) ++ view (parts literals ys) := by
  have hlink : ∀ {o : Option Item}, (∀ i ∈ o, i.isName = false) →
      ∀ q ∈ o.map (part literals), Lifted.isLink q = false := by
    intro o ho q hq
    obtain ⟨i, hi, rfl⟩ := Option.map_eq_some_iff.mp hq
    rw [isLink_part, ho i hi]
  unfold parts
  rw [List.map_append]
  refine hv.append ?_
  rw [List.getLast?_map, List.head?_map]
  exact h.imp hlink hlink

namespace Piece

/-- Neighbouring pieces are looked at one after the other. -/
theorem view_flatMap_items {ps : List Piece} (h : ps.IsChain Apart) :
    view (Item.parts literals (ps.flatMap items)) =
      ps.flatMap fun p => view (Item.parts literals p.items) := by
  induction ps with
  | nil => exact hv.nil
  | cons p ps ih =>
    obtain ⟨hnext, hrest⟩ := List.isChain_cons.mp h
    rw [List.flatMap_cons, List.flatMap_cons,
      Item.view_append hv literals (not_isName_between hnext), ih hrest]

/-- Balanced items are looked at piece by piece. -/
theorem view_ofItems {items : List Item} (h : Bracket.Balanced items) :
    view (Item.parts literals items) =
      (ofItems items).flatMap fun p => view (Item.parts literals p.items) := by
  have hpieces := view_flatMap_items hv literals (isChain_ofItems items)
  rwa [flatMap_items h] at hpieces

end Piece

end Views

/-! ## Text without operators -/

namespace Lexeme

theorem operatorLength?_of_no_operator {c : Char} {rest : Text}
    (h : ∀ l ∈ ofText (c :: rest), l.isOperator = false) :
    Token.operatorLength? (c :: rest) = none := by
  cases hop : Token.operatorLength? (c :: rest) with
  | none => rfl
  | some n =>
    have hfind : Token.find? c rest = some ((.operator, (c :: rest).take n), n - 1) := by
      rw [Token.find?, Token.lexeme?, hop]
      rfl
    have hfirst := h (ofFind (.operator, (c :: rest).take n))
      (by rw [ofText_cons_of_some hfind]; exact List.mem_cons_self)
    cases hfirst

/-- A text without operators and brackets is read as its words. -/
theorem ofText_eq_words_of_no_operator {t : Text} (hopen : '(' ∉ t)
    (h : ∀ l ∈ ofText t, l.isOperator = false) : ofText t = (words t).map .word := by
  have hlike : ∀ {w rest : Text}, (∀ c ∈ w, Token.isWordPart c = true) → w ≠ [] →
      (∀ l ∈ ofText (w ++ rest), l.isOperator = false) → Token.likeLength? (w ++ rest) = none := by
    intro w rest hw hne hl
    cases w with
    | nil => exact absurd rfl hne
    | cons c w =>
      rw [List.cons_append] at hl ⊢
      rw [← Token.operatorLength?_of_isWordPart (hw c List.mem_cons_self)]
      exact operatorLength?_of_no_operator hl
  induction t using runs_induction Token.isWordPart with
  | whole w hw =>
    by_cases hne : w = []
    · rw [hne]
      rfl
    · have hl : Token.likeLength? (w ++ []) = none := hlike hw hne (by rwa [List.append_nil])
      rw [List.append_nil] at hl
      exact ofText_run hw hl
  | cut w d rest hw hd ih =>
    have hd' : d ≠ '(' := fun he => hopen (by simp [he])
    have hhead : ∀ e ∈ (d :: rest).head?, Token.isWordPart e = false ∧ e ≠ '(' := by
      rintro e ⟨⟩
      exact ⟨hd, hd'⟩
    have hbehind : ∀ l ∈ ofText (d :: rest), l.isOperator = false := by
      by_cases hne : w = []
      · rwa [hne] at h
      · rw [ofText_word_append hne hw hhead (hlike hw hne h)] at h
        exact fun l hl => h l (List.mem_cons_of_mem _ hl)
    have hrun := ofText_run_append hw hd hd' (fun hne => hlike hw hne h)
      (operatorLength?_of_no_operator hbehind)
    rw [hrun] at h ⊢
    rw [words_cut hd, List.map_append,
      ih (fun hm => hopen (by simp [hm])) fun l hl => h l (List.mem_append_right _ hl)]

end Lexeme

/-! ## What is lost of a text -/

/-- Whether a character outside literals, calls and groups is kept: it is a blank or belongs to a
word. -/
def Text.isKept (c : Char) : Bool := isBlank c || Token.isWordPart c

/-- A text that holds nothing but words and blanks is looked at word by word. -/
theorem Lifted.View.words {view : List (Char ⊕ Text) → List (Char ⊕ Text)} (hv : View view)
    {t : Text} (h : ∀ c ∈ t, isKept c = true) :
    (Text.words t).flatMap (fun w => view (w.map .inl)) = view (t.map .inl) := by
  have hrun : ∀ {w : Text}, (∀ c ∈ w, Token.isWordPart c = true) →
      (Text.words w).flatMap (fun w => view (w.map .inl)) = view (w.map .inl) := by
    intro w hw
    by_cases hne : w = []
    · rw [hne]
      exact hv.nil.symm
    · rw [words_of_forall hne hw, List.flatMap_singleton]
  induction t using runs_induction Token.isWordPart with
  | whole w hw => exact hrun hw
  | cut w d rest hw hd ih =>
    have hblank : isBlank d = true := by
      have hkept := h d (by simp)
      rwa [isKept, hd, Bool.or_false] at hkept
    have hlink : isLink (.inl d) = false := isName_of_isBlank hblank
    have hlast : ∀ p ∈ [(Sum.inl d : Char ⊕ Text)].getLast?, isLink p = false := by
      rintro p ⟨⟩
      exact hlink
    have hhead : ∀ p ∈ (Sum.inl d :: rest.map Sum.inl).head?, isLink p = false := by
      rintro p ⟨⟩
      exact hlink
    rw [words_cut hd, List.flatMap_append, hrun hw, ih fun c hc => h c (by simp [hc]),
      List.map_append, List.map_cons, hv.append (.inr hhead), ← List.singleton_append,
      hv.append (.inl hlast), hv.blank hblank, List.nil_append]

/-- The ink of the words of a text is in the text, and all of it only if nothing else is there. -/
theorem Lifted.ink_words (t : Text) :
    ((Text.words t).flatMap fun w => ink (w.map .inl)).Sublist (ink (t.map .inl)) ∧
      ((Text.words t).flatMap (fun w => ink (w.map .inl)) = ink (t.map .inl) →
        ∀ c ∈ t, isKept c = true) := by
  have hrun : ∀ {w : Text}, (∀ c ∈ w, Token.isWordPart c = true) →
      (Text.words w).flatMap (fun w => ink (w.map .inl)) = ink (w.map .inl) ∧
        ∀ c ∈ w, isKept c = true := by
    intro w hw
    have hkept : ∀ c ∈ w, isKept c = true := fun c hc => by rw [isKept, hw c hc, Bool.or_true]
    exact ⟨view_ink.words hkept, hkept⟩
  induction t using runs_induction Token.isWordPart with
  | whole w hw => exact ⟨(hrun hw).1 ▸ .refl _, fun _ => (hrun hw).2⟩
  | cut w d rest hw hd ih =>
    obtain ⟨hwords, hkept⟩ := hrun hw
    have hink : ink ((w ++ d :: rest).map .inl) =
        ink (w.map .inl) ++ (ink [.inl d] ++ ink (rest.map .inl)) := by
      rw [List.map_append, List.map_cons, ← List.singleton_append, ink_append, ink_append]
    rw [words_cut hd, List.flatMap_append, hwords, hink]
    refine ⟨(List.Sublist.refl _).append (ih.1.trans (List.sublist_append_right _ _)), ?_⟩
    intro he
    have hrest := List.append_cancel_left he
    have hlen := congrArg List.length hrest
    rw [List.length_append] at hlen
    have hle := ih.1.length_le
    have hdark : ink [.inl d] = [] := List.eq_nil_of_length_eq_zero (by omega)
    rw [hdark, List.nil_append] at hrest
    have hblank : isBlank d = true := by
      cases hb : isBlank d with
      | true => rfl
      | false => simp [ink, seen, hb] at hdark
    intro c hc
    rcases List.mem_append.mp hc with hc | hc
    · exact hkept c hc
    · rcases List.mem_cons.mp hc with rfl | hc
      · rw [isKept, hblank, Bool.true_or]
      · exact ih.2 hrest c hc

/-- A text without ink is blank. -/
theorem Lifted.forall_blank_of_ink_nil {t : Text} (h : ink (parts t) = []) :
    ∀ c ∈ t, isBlank c = true := by
  induction t with
  | nil => nofun
  | cons c rest ih =>
    cases hl : literal? c rest with
    | some found =>
      obtain ⟨content, n⟩ := found
      rw [parts, scan_cons_of_some hl, ← List.singleton_append, ink_append] at h
      simp [ink, seen] at h
    | none =>
      have hparts : parts (c :: rest) = [.inl c] ++ parts rest := scan_cons_of_none hl
      rw [hparts, ink_append, List.append_eq_nil_iff] at h
      refine List.forall_mem_cons.mpr ⟨?_, ih h.2⟩
      cases hb : isBlank c with
      | true => rfl
      | false => simp [ink, seen, hb] at h

/-! ## What texts keep of items -/

section Sublists

variable {α β : Type} {l k : List α}

/-- Parts of lists make up parts of the joined lists, and all of them only if each is whole. -/
theorem eq_of_flatMap_eq {f g : α → List β} (h : ∀ a ∈ l, (f a).Sublist (g a))
    (he : l.flatMap f = l.flatMap g) : ∀ a ∈ l, f a = g a := by
  induction l with
  | nil => nofun
  | cons a l ih =>
    obtain ⟨ha, hl⟩ := List.forall_mem_cons.mp h
    have hlen := congrArg List.length he
    rw [List.flatMap_cons, List.flatMap_cons, List.length_append, List.length_append] at hlen
    have hfirst := ha.length_le
    have hrest := (List.Sublist.flatMap_right l hl).length_le
    have heq : f a = g a := ha.eq_of_length (by omega)
    rw [List.flatMap_cons, List.flatMap_cons, heq] at he
    exact List.forall_mem_cons.mpr ⟨heq, ih hl (List.append_cancel_left he)⟩

/-- A part of a list makes up all only if it is the whole list, where every element counts. -/
theorem eq_of_flatMap_eq_of_sublist {f : α → List β} (h : l.Sublist k) (hne : ∀ a ∈ k, f a ≠ [])
    (he : l.flatMap f = k.flatMap f) : l = k := by
  induction h with
  | slnil => rfl
  | @cons l k a h ih =>
    obtain ⟨ha, -⟩ := List.forall_mem_cons.mp hne
    have hlen := congrArg List.length he
    have hle := (h.flatMap f).length_le
    have hpos := List.length_pos_iff.mpr ha
    rw [List.flatMap_cons, List.length_append] at hlen
    omega
  | cons_cons a h ih =>
    obtain ⟨-, hk⟩ := List.forall_mem_cons.mp hne
    rw [List.flatMap_cons, List.flatMap_cons] at he
    rw [ih hk (List.append_cancel_left he)]

end Sublists

/-- What texts keep of items: nothing is added to their ink, and they look like the items exactly if
`whole` holds. -/
structure Item.KeptIn (literals : List Text) (items : List Item) (ts : List Text) (whole : Prop) :
    Prop where
  closed : ∀ t ∈ ts, Lifted.Closed t
  ink : (ts.flatMap fun t => Lifted.ink (Lifted.parts t)).Sublist
    (Lifted.ink (parts literals items))
  whole_of_ink : (ts.flatMap fun t => Lifted.ink (Lifted.parts t)) =
    Lifted.ink (parts literals items) → whole
  visible : whole → ts.flatMap Text.visible = Lifted.visible (parts literals items)

namespace Item.KeptIn

variable {literals : List Text} {items : List Item}

theorem congr {ts : List Text} {whole whole' : Prop} (h : KeptIn literals items ts whole)
    (hiff : whole ↔ whole') : KeptIn literals items ts whole' :=
  ⟨h.closed, h.ink, fun he => hiff.mp (h.whole_of_ink he), fun hw => h.visible (hiff.mpr hw)⟩

/-- A text that looks like others in a row keeps as much as they do. -/
theorem of_view {ts : List Text} {whole : Prop} (h : KeptIn literals items ts whole) {t : Text}
    (hclosed : Lifted.Closed t)
    (hview : ∀ {view : List (Char ⊕ Text) → List (Char ⊕ Text)}, Lifted.View view →
      view (Lifted.parts t) = ts.flatMap fun t => view (Lifted.parts t)) :
    KeptIn literals items [t] whole := by
  refine ⟨List.forall_mem_singleton.mpr hclosed, ?_, fun he => h.whole_of_ink ?_, fun hw => ?_⟩
  · rw [List.flatMap_singleton, hview Lifted.view_ink]
    exact h.ink
  · rwa [List.flatMap_singleton, hview Lifted.view_ink] at he
  · rw [← h.visible hw, List.flatMap_singleton]
    exact hview Lifted.view_visible

/-- Written items are kept as they are. -/
theorem renderAll (h : Quoteless items) (hw : Writable literals items) :
    KeptIn literals items [Item.renderAll literals items] True := by
  have hparts := parts_renderAll h hw
  refine ⟨List.forall_mem_singleton.mpr (closed_renderAll h hw), ?_, fun _ => trivial,
    fun _ => ?_⟩
  · rw [List.flatMap_singleton, hparts]
  · rw [List.flatMap_singleton, Text.visible, hparts]

/-- Text without operators, quotes and brackets is kept in its lexemes, if it holds nothing but
words and blanks. -/
theorem ofText {t : Text} (hplain : Fragment.Plain t)
    (hop : ∀ l ∈ Lexeme.ofText t, l.isOperator = false) :
    KeptIn literals (t.map .char) ((Lexeme.ofText t).map Lexeme.render)
      (∀ c ∈ t, isKept c = true) := by
  have hlexemes : (Lexeme.ofText t).map Lexeme.render = words t := by
    rw [Lexeme.ofText_eq_words_of_no_operator hplain.not_mem_open hop, List.map_map]
    exact List.map_id _
  have hitems : parts literals (t.map .char) = t.map .inl := by
    rw [parts, List.map_map]
    rfl
  have hquotes : ∀ w ∈ words t, ∀ c ∈ w, Lifted.isQuote c = false := fun w hw =>
    (Fragment.Plain.of_isWordPart (mem_words hw).2.2).not_quote
  have hparts : ∀ {α : Type} (view : List (Char ⊕ Text) → List α),
      ((words t).flatMap fun w => view (Lifted.parts w)) =
        (words t).flatMap fun w => view (w.map .inl) := by
    intro α view
    refine List.flatMap_congr fun w hw => ?_
    rw [Lifted.parts_of_no_quotes (hquotes w hw)]
  obtain ⟨hsub, hkept⟩ := Lifted.ink_words t
  rw [hlexemes]
  constructor
  · exact fun w hw => Lifted.closed_of_no_quotes (hquotes w hw)
  · rw [hparts, hitems]
    exact hsub
  · rw [hparts, hitems]
    exact hkept
  · intro h
    rw [hitems, ← Lifted.view_visible.words h, ← hparts]
    rfl

/-- What is kept of the inside of a group is kept of the group. -/
theorem bracketed {t : Text} {whole : Prop} (h : KeptIn literals items [t] whole) :
    KeptIn literals (.char '(' :: items ++ [.char ')']) ['(' :: t ++ [')']] whole := by
  have hitems : parts literals (.char '(' :: items ++ [.char ')']) =
      .inl '(' :: (parts literals items ++ [.inl ')']) := by
    rw [parts, List.map_append, List.map_cons]
    rfl
  have hview : ∀ {view : List (Char ⊕ Text) → List (Char ⊕ Text)}, Lifted.View view →
      (['(' :: t ++ [')']].flatMap fun t => view (Lifted.parts t)) =
        view [.inl '('] ++ (([t].flatMap fun t => view (Lifted.parts t)) ++ view [.inl ')']) := by
    intro view hv
    rw [List.flatMap_singleton, List.flatMap_singleton, List.cons_append, Lifted.parts_bracketed,
      hv.bracketed]
  have hink := hview Lifted.view_ink
  constructor
  · exact List.forall_mem_singleton.mpr (h.closed t List.mem_cons_self).bracketed
  · rw [hink, hitems, Lifted.view_ink.bracketed]
    exact (List.Sublist.refl _).append (h.ink.append (List.Sublist.refl _))
  · rw [hink, hitems, Lifted.view_ink.bracketed]
    exact fun he => h.whole_of_ink (List.append_cancel_right (List.append_cancel_left he))
  · intro hwhole
    have hvisible := hview Lifted.view_visible
    have hbody : ([t].flatMap fun t => Lifted.visible (Lifted.parts t)) =
        Lifted.visible (parts literals items) := h.visible hwhole
    rw [hitems, Lifted.view_visible.bracketed, ← hbody]
    exact hvisible

/-- What is kept of every piece is kept of all. -/
theorem pieces (hb : Bracket.Balanced items) {texts : Piece → List Text} {whole : Piece → Prop}
    (h : ∀ p ∈ Piece.ofItems items, KeptIn literals p.items (texts p) (whole p)) :
    KeptIn literals items ((Piece.ofItems items).flatMap texts)
      (∀ p ∈ Piece.ofItems items, whole p) := by
  have hink := Piece.view_ofItems Lifted.view_ink literals hb
  constructor
  · intro t ht
    obtain ⟨p, hp, ht⟩ := List.mem_flatMap.mp ht
    exact (h p hp).closed t ht
  · rw [hink, List.flatMap_assoc]
    exact List.Sublist.flatMap_right _ fun p hp => (h p hp).ink
  · rw [hink, List.flatMap_assoc]
    exact fun he p hp => (h p hp).whole_of_ink
      (eq_of_flatMap_eq (fun p hp => (h p hp).ink) he p hp)
  · intro hwhole
    rw [Piece.view_ofItems Lifted.view_visible literals hb, List.flatMap_assoc]
    exact List.flatMap_congr fun p hp => (h p hp).visible (hwhole p hp)

/-- Some of the texts keep all only if no text with ink is left out. -/
theorem sublist {ts us : List Text} {whole : Prop} (h : KeptIn literals items ts whole)
    (hus : us.Sublist ts) (hdark : ∀ t ∈ ts, Lifted.ink (Lifted.parts t) ≠ []) :
    KeptIn literals items us (us = ts ∧ whole) := by
  have hink := hus.flatMap fun t => Lifted.ink (Lifted.parts t)
  constructor
  · exact fun t ht => h.closed t (hus.subset ht)
  · exact hink.trans h.ink
  · intro he
    have hall := List.Sublist.antisymm hink (he ▸ h.ink)
    exact ⟨eq_of_flatMap_eq_of_sublist hus hdark hall, h.whole_of_ink (hall ▸ he)⟩
  · rintro ⟨rfl, hwhole⟩
    exact h.visible hwhole

end Item.KeptIn

end FilterClause
