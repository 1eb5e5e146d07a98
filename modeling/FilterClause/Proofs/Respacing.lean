import FilterClause.Proofs.BracketPairs
import FilterClause.Proofs.RowLimits

/-!
# Other blanks in the same text

Two lists are alike but for a class if each run of elements of the class in one stands where a run
stands in the other; the runs may differ in length and content, but neither is empty. Every element
outside the class stands in both, so a list alike to one that is cut at such an element is cut there
too (`AlikeBut.cut`). A text spaced anew differs in the blanks outside its literals: its characters
are alike but for blanks, it holds the same literals and items alike but for blanks, and it ends in
a row limit if the other text does.
-/

namespace FilterClause

/-! ## Lists alike but for a class -/

/-- Two lists that differ in what their runs of elements of a class hold. -/
inductive AlikeBut {α : Type} (p : α → Bool) : List α → List α → Prop
  | nil : AlikeBut p [] []
  | keep {a : α} {xs ys : List α} (ha : p a = false) (h : AlikeBut p xs ys) :
      AlikeBut p (a :: xs) (a :: ys)
  | run {l r xs ys : List α} (hl : ∀ a ∈ l, p a = true) (hlNe : l ≠ []) (hr : ∀ a ∈ r, p a = true)
      (hrNe : r ≠ []) (h : AlikeBut p xs ys) : AlikeBut p (l ++ xs) (r ++ ys)

namespace AlikeBut

variable {α : Type} {p : α → Bool} {xs ys : List α}

theorem refl (p : α → Bool) (xs : List α) : AlikeBut p xs xs := by
  induction xs with
  | nil => exact .nil
  | cons a xs ih =>
    by_cases ha : p a = true
    · have hsingle : ∀ b ∈ [a], p b = true := by simpa using ha
      exact .run hsingle (List.cons_ne_nil a []) hsingle (List.cons_ne_nil a []) ih
    · exact .keep (Bool.of_not_eq_true ha) ih

theorem symm (h : AlikeBut p xs ys) : AlikeBut p ys xs := by
  induction h with
  | nil => exact .nil
  | keep ha _ ih => exact .keep ha ih
  | run hl hlNe hr hrNe _ ih => exact .run hr hrNe hl hlNe ih

theorem append (h : AlikeBut p xs ys) {xs' ys' : List α} (h' : AlikeBut p xs' ys') :
    AlikeBut p (xs ++ xs') (ys ++ ys') := by
  induction h with
  | nil => exact h'
  | keep ha _ ih => exact .keep ha ih
  | run hl hlNe hr hrNe _ ih =>
    rw [List.append_assoc, List.append_assoc]
    exact .run hl hlNe hr hrNe ih

theorem run_alone {l r : List α} (hl : ∀ a ∈ l, p a = true) (hlNe : l ≠ [])
    (hr : ∀ a ∈ r, p a = true) (hrNe : r ≠ []) : AlikeBut p l r := by
  simpa using AlikeBut.run hl hlNe hr hrNe .nil

theorem map {β : Type} (q : β → Bool) (f : α → β) (hf : ∀ a, q (f a) = p a)
    (h : AlikeBut p xs ys) : AlikeBut q (xs.map f) (ys.map f) := by
  have hrun : ∀ l : List α, (∀ a ∈ l, p a = true) → ∀ b ∈ l.map f, q b = true := by
    intro l hl b hb
    obtain ⟨a, ha, rfl⟩ := List.mem_map.mp hb
    rw [hf, hl a ha]
  induction h with
  | nil => exact .nil
  | @keep a _ _ ha _ ih => exact .keep ((hf a).trans ha) ih
  | @run l r _ _ hl hlNe hr hrNe _ ih =>
    rw [List.map_append, List.map_append]
    exact .run (hrun l hl) (by simpa using hlNe) (hrun r hr) (by simpa using hrNe) ih

theorem reverse (h : AlikeBut p xs ys) : AlikeBut p xs.reverse ys.reverse := by
  induction h with
  | nil => exact .nil
  | keep ha _ ih =>
    rw [List.reverse_cons, List.reverse_cons]
    exact ih.append (.keep ha .nil)
  | run hl hlNe hr hrNe _ ih =>
    rw [List.reverse_append, List.reverse_append]
    exact ih.append (run_alone (by simpa using hl) (by simpa using hlNe) (by simpa using hr)
      (by simpa using hrNe))

/-- Outside the class the lists hold the same elements in the same order. -/
theorem filter_eq (h : AlikeBut p xs ys) :
    xs.filter (fun a => !p a) = ys.filter (fun a => !p a) := by
  have hnone : ∀ l : List α, (∀ a ∈ l, p a = true) → l.filter (fun a => !p a) = [] := by
    intro l hl
    exact List.filter_eq_nil_iff.mpr fun a ha => by simp [hl a ha]
  induction h with
  | nil => rfl
  | keep _ _ ih => rw [List.filter_cons, List.filter_cons, ih]
  | run hl _ hr _ _ ih =>
    rw [List.filter_append, List.filter_append, hnone _ hl, hnone _ hr, ih]

theorem mem_iff (h : AlikeBut p xs ys) {a : α} (ha : p a = false) : a ∈ xs ↔ a ∈ ys := by
  have hx : a ∈ xs.filter (fun a => !p a) ↔ a ∈ xs := by simp [ha]
  have hy : a ∈ ys.filter (fun a => !p a) ↔ a ∈ ys := by simp [ha]
  rw [← hx, ← hy, h.filter_eq]

/-- What the elements outside the class spell is spelled by both lists. -/
theorem sublist_iff (h : AlikeBut p xs ys) {l : List α} (hl : ∀ a ∈ l, p a = false) :
    l.Sublist xs ↔ l.Sublist ys := by
  have hkept : l.filter (fun a => !p a) = l := List.filter_eq_self.mpr fun a ha => by simp [hl a ha]
  have key : ∀ zs : List α, l.Sublist zs ↔ l.Sublist (zs.filter fun a => !p a) := by
    intro zs
    refine ⟨fun hs => ?_, fun hs => hs.trans List.filter_sublist⟩
    have hfilter := hs.filter fun a => !p a
    rwa [hkept] at hfilter
  rw [key xs, key ys, h.filter_eq]

theorem eq_nil_iff (h : AlikeBut p xs ys) : xs = [] ↔ ys = [] := by
  cases h with
  | nil => exact Iff.rfl
  | keep _ _ => simp
  | run _ hlNe _ hrNe _ => simp [hlNe, hrNe]

theorem forall_iff (h : AlikeBut p xs ys) :
    (∀ a ∈ xs, p a = true) ↔ ∀ a ∈ ys, p a = true := by
  have key : ∀ zs : List α, (∀ a ∈ zs, p a = true) ↔ zs.filter (fun a => !p a) = [] := by
    intro zs
    rw [List.filter_eq_nil_iff]
    simp
  rw [key xs, key ys, h.filter_eq]

/-! ## Cutting -/

/-- Where one list is cut at an element outside the class, so is the other. -/
theorem cut {before behind : List α} {a : α} (ha : p a = false)
    (h : AlikeBut p xs (before ++ a :: behind)) :
    ∃ before' behind', xs = before' ++ a :: behind' ∧ AlikeBut p before' before ∧
      AlikeBut p behind' behind := by
  generalize hys : before ++ a :: behind = ys at h
  induction h generalizing before with
  | nil => simp at hys
  | @keep b xs ys hb h ih =>
    cases before with
    | nil =>
      obtain ⟨rfl, rfl⟩ := List.cons.inj hys
      exact ⟨[], xs, rfl, .nil, h⟩
    | cons c before =>
      obtain ⟨rfl, hrest⟩ := List.cons.inj hys
      obtain ⟨before', behind', rfl, hbefore, hbehind⟩ := ih hrest
      exact ⟨c :: before', behind', rfl, .keep hb hbefore, hbehind⟩
  | @run l r xs ys hl hlNe hr hrNe h ih =>
    have hout : a ∉ r := fun hm => by rw [hr a hm] at ha; cases ha
    obtain ⟨front, rfl, hfront⟩ := exists_of_append_left hout hys.symm
    obtain ⟨before', behind', rfl, hbefore, hbehind⟩ := ih hfront.symm
    exact ⟨l ++ before', behind', (List.append_assoc _ _ _).symm, .run hl hlNe hr hrNe hbefore,
      hbehind⟩

/-- A start outside the class is the start of both. -/
theorem exists_of_append {front behind : List α} (hfront : ∀ a ∈ front, p a = false)
    (h : AlikeBut p xs (front ++ behind)) :
    ∃ behind', xs = front ++ behind' ∧ AlikeBut p behind' behind := by
  induction front generalizing xs with
  | nil => exact ⟨xs, rfl, h⟩
  | cons a front ih =>
    obtain ⟨ha, hrest⟩ := List.forall_mem_cons.mp hfront
    have hcut : AlikeBut p xs ([] ++ a :: (front ++ behind)) := h
    obtain ⟨before', behind', rfl, hbefore, hbehind⟩ := hcut.cut ha
    obtain rfl : before' = [] := hbefore.eq_nil_iff.mpr rfl
    obtain ⟨tail, rfl, htail⟩ := ih hrest hbehind
    exact ⟨tail, rfl, htail⟩

/-- For a property that no element of the class has, the lists start alike. -/
theorem forall_head?_iff {q : α → Bool} (hq : ∀ a, q a = true → p a = false)
    (h : AlikeBut p xs ys) : (∀ a ∈ xs.head?, q a = false) ↔ ∀ a ∈ ys.head?, q a = false := by
  have hrun : ∀ {l : List α}, (∀ a ∈ l, p a = true) → l ≠ [] →
      ∀ zs, ∀ a ∈ (l ++ zs).head?, q a = false := by
    intro l hl hne zs a ha
    rw [List.head?_append_of_ne_nil _ hne] at ha
    refine Bool.of_not_eq_true fun hqa => ?_
    have hin := hl a (List.mem_of_mem_head? ha)
    rw [hq a hqa] at hin
    cases hin
  cases h with
  | nil => exact Iff.rfl
  | keep _ _ => exact Iff.rfl
  | run hl hlNe hr hrNe _ => exact iff_of_true (hrun hl hlNe _) (hrun hr hrNe _)

theorem forall_getLast?_iff {q : α → Bool} (hq : ∀ a, q a = true → p a = false)
    (h : AlikeBut p xs ys) :
    (∀ a ∈ xs.getLast?, q a = false) ↔ ∀ a ∈ ys.getLast?, q a = false := by
  rw [← List.head?_reverse, ← List.head?_reverse]
  exact h.reverse.forall_head?_iff hq

end AlikeBut

open Text

/-! ## Row limits -/

/-- Other blanks make no row limit. -/
theorem RowLimit.limit_of_alike {s t : Text} (h : AlikeBut isBlank s t)
    (hs : (detach s).2 = none) : (detach t).2 = none := by
  by_contra hne
  obtain ⟨limit, hlimit⟩ := Option.ne_none_iff_exists'.mp hne
  obtain ⟨before, after, ht, -, ⟨keyword, gap, digits, rfl, hkeyword, hgapNe, hgap, hdigitsNe,
    hdigits⟩, hbefore, hafter⟩ :=
    detach_eq_some_iff.mp (show detach t = ((detach t).1, some limit) by rw [← hlimit])
  obtain ⟨k, keyword, rfl⟩ := List.exists_cons_of_ne_nil (l := keyword) fun hnil => by
    simp [hnil] at hkeyword
  obtain ⟨d, digits, rfl⟩ := List.exists_cons_of_ne_nil hdigitsNe
  have hletters : ∀ c ∈ k :: keyword, isBlank c = false := by
    intro c hc
    refine isBlank_of_isWord (isWord_of_foldLetter ?_)
    exact foldLetter_mem_of_spelling hkeyword (by decide) c hc
  have hnumber : ∀ c ∈ d :: digits, isBlank c = false := fun c hc =>
    isBlank_of_isWordDigit (hdigits c hc)
  rw [List.forall_mem_cons] at hletters hnumber
  -- The other text is cut at the letters and the digits as this one is.
  have hshape : t = before ++ k :: (keyword ++ (gap ++ d :: (digits ++ after))) := by simp [ht]
  rw [hshape] at h
  obtain ⟨before', behind, rfl, hbefore', hbehind⟩ := h.cut hletters.1
  obtain ⟨number, rfl, hgapNumber⟩ := hbehind.exists_of_append hletters.2
  obtain ⟨gap', rest, rfl, hgap', hrest⟩ := hgapNumber.cut hnumber.1
  obtain ⟨after', rfl, hafter'⟩ := hrest.exists_of_append hnumber.2
  have hword : ∀ c ∈ before'.getLast?, isWord c = false :=
    (hbefore'.forall_getLast?_iff fun c hc => isBlank_of_isWord hc).mpr hbefore
  have hdetach : detach (before' ++ k :: (keyword ++ (gap' ++ d :: (digits ++ after')))) =
      (trimEnd before', some ⟨(k :: keyword) ++ gap' ++ d :: digits, count? (d :: digits)⟩) := by
    refine detach_eq_some_iff.mpr ⟨before', after', by simp, rfl, ?_, hword,
      hafter'.forall_iff.mpr hafter⟩
    exact ⟨k :: keyword, gap', d :: digits, rfl, hkeyword,
      fun hnil => hgapNe (hgap'.eq_nil_iff.mp hnil), hgap'.forall_iff.mpr hgap, hdigitsNe, hdigits⟩
  rw [hdetach] at hs
  cases hs

/-! ## Texts spaced anew -/

namespace Lifted

/-- Two texts that differ in the blanks outside their literals, where blanks stand in both. -/
inductive Respaced : Text → Text → Prop
  | nil : Respaced [] []
  | char {c : Char} {s t : Text} (hb : isBlank c = false) (hq : isQuote c = false)
      (h : Respaced s t) : Respaced (c :: s) (c :: t)
  | literal {q : Char} {content s t : Text} (hq : isQuote q = true) (hc : q ∉ content)
      (h : Respaced s t) : Respaced (q :: (content ++ q :: s)) (q :: (content ++ q :: t))
  /-- A quote that nothing closes. -/
  | stray {q : Char} {s t : Text} (hq : isQuote q = true) (hs : q ∉ s) (h : Respaced s t) :
      Respaced (q :: s) (q :: t)
  | blanks {l r s t : Text} (hl : ∀ b ∈ l, isBlank b = true) (hlNe : l ≠ [])
      (hr : ∀ b ∈ r, isBlank b = true) (hrNe : r ≠ []) (h : Respaced s t) :
      Respaced (l ++ s) (r ++ t)

/-- Whether a part is a blank outside the literals. -/
def isBlankPart : Char ⊕ Text → Bool
  | .inl c => isBlank c
  | .inr _ => false

theorem isBlank_of_isQuote {q : Char} (h : isQuote q = true) : isBlank q = false :=
  Bool.of_not_eq_true fun hb => by rw [isQuote_of_isBlank hb] at h; cases h

theorem exists_of_blank_parts {ps : List (Char ⊕ Text)} (h : ∀ p ∈ ps, isBlankPart p = true) :
    ∃ bs : Text, ps = bs.map .inl ∧ ∀ b ∈ bs, isBlank b = true := by
  induction ps with
  | nil => exact ⟨[], rfl, by simp⟩
  | cons p ps ih =>
    obtain ⟨hp, hps⟩ := List.forall_mem_cons.mp h
    obtain ⟨bs, rfl, hbs⟩ := ih hps
    cases p with
    | inl b => exact ⟨b :: bs, rfl, List.forall_mem_cons.mpr ⟨hp, hbs⟩⟩
    | inr content => cases hp

theorem parts_stray {q : Char} {s : Text} (h : q ∉ s) : parts (q :: s) = .inl q :: parts s := by
  refine scan_cons_of_none ?_
  simp [literal?, h]

theorem parts_blanks_append {bs : Text} (h : ∀ b ∈ bs, isBlank b = true) (s : Text) :
    parts (bs ++ s) = bs.map .inl ++ parts s := by
  have hquote : ∀ b ∈ bs, isQuote b = false := fun b hb => isQuote_of_isBlank (h b hb)
  rw [parts_append_of_closed (closed_of_no_quotes hquote), parts_of_no_quotes hquote]

namespace Respaced

variable {s t : Text}

theorem chars {w : Text} (hw : ∀ c ∈ w, isBlank c = false ∧ isQuote c = false)
    (h : Respaced s t) : Respaced (w ++ s) (w ++ t) := by
  induction w with
  | nil => exact h
  | cons c w ih =>
    obtain ⟨hc, hw⟩ := List.forall_mem_cons.mp hw
    exact .char hc.1 hc.2 (ih hw)

/-- Character by character the texts are alike but for blanks. -/
theorem alikeBut (h : Respaced s t) : AlikeBut isBlank s t := by
  induction h with
  | nil => exact .nil
  | char hb _ _ ih => exact .keep hb ih
  | literal hq _ _ ih =>
    have hb := isBlank_of_isQuote hq
    exact .keep hb ((AlikeBut.refl _ _).append (.keep hb ih))
  | stray hq _ _ ih => exact .keep (isBlank_of_isQuote hq) ih
  | blanks hl hlNe hr hrNe _ ih => exact .run hl hlNe hr hrNe ih

/-- The parts of the texts are alike but for blanks, so they hold the same literals. -/
theorem parts (h : Respaced s t) :
    AlikeBut isBlankPart (Lifted.parts s) (Lifted.parts t) := by
  induction h with
  | nil => exact .nil
  | char hb hq _ ih =>
    rw [parts_cons_of_not_quote hq, parts_cons_of_not_quote hq]
    exact .keep hb ih
  | literal hq hc _ ih =>
    rw [parts_literal hq hc, parts_literal hq hc]
    exact .keep rfl ih
  | stray hq hs h ih =>
    have hb := isBlank_of_isQuote hq
    rw [parts_stray hs, parts_stray fun ht => hs ((h.alikeBut.mem_iff hb).mpr ht)]
    exact .keep hb ih
  | blanks hl hlNe hr hrNe _ ih =>
    rw [parts_blanks_append hl, parts_blanks_append hr]
    exact ((AlikeBut.run_alone hl hlNe hr hrNe).map isBlankPart .inl fun _ => rfl).append ih

theorem closed_iff (h : Respaced s t) : Closed s ↔ Closed t := by
  have hquote : ∀ c, isQuote c = true → (Sum.inl c ∈ Lifted.parts s ↔ .inl c ∈ Lifted.parts t) :=
    fun c hc => h.parts.mem_iff (isBlank_of_isQuote hc)
  have key : ∀ t, Closed t ↔ ∀ c, isQuote c = true → .inl c ∉ Lifted.parts t := by
    intro t
    refine forall_congr' fun c => ?_
    cases isQuote c <;> simp
  rw [key, key]
  exact forall_congr' fun c => forall_congr' fun hc => not_congr (hquote c hc)

end Respaced

theorem contents_alike {ps qs : List (Char ⊕ Text)} (h : AlikeBut isBlankPart ps qs) :
    contents ps = contents qs := by
  induction h with
  | nil => rfl
  | @keep p _ _ _ _ ih =>
    cases p with
    | inl c => exact ih
    | inr content => exact congrArg (content :: ·) ih
  | run hl _ hr _ _ ih =>
    obtain ⟨bs, rfl, -⟩ := exists_of_blank_parts hl
    obtain ⟨cs, rfl, -⟩ := exists_of_blank_parts hr
    rw [contents_append, contents_append, contents_map_inl, contents_map_inl, ih]

theorem number_alike {ps qs : List (Char ⊕ Text)} (h : AlikeBut isBlankPart ps qs) (index : Nat) :
    AlikeBut Item.isBlank (Item.number index ps) (Item.number index qs) := by
  induction h generalizing index with
  | nil => exact .nil
  | @keep p _ _ hp _ ih =>
    cases p with
    | inl c => exact .keep hp (ih index)
    | inr content => exact .keep rfl (ih (index + 1))
  | run hl hlNe hr hrNe _ ih =>
    obtain ⟨bs, rfl, hbs⟩ := exists_of_blank_parts hl
    obtain ⟨cs, rfl, hcs⟩ := exists_of_blank_parts hr
    have hblanks : AlikeBut isBlank bs cs :=
      .run_alone hbs (by simpa using hlNe) hcs (by simpa using hrNe)
    rw [Item.number_append, Item.number_append, Item.number_map_inl, Item.number_map_inl,
      contents_map_inl, contents_map_inl]
    exact (hblanks.map Item.isBlank .char fun _ => rfl).append (ih _)

end Lifted

end FilterClause
