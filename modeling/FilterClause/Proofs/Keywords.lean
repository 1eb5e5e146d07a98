import FilterClause.Clause.Subselect
import FilterClause.Proofs.Letters
import Mathlib.Data.List.Infix

/-!
# Keywords that do not stand alone

Stripping a keyword takes exactly a spelling of it off a text. A clause in which WHERE nowhere
stands alone is its own predicate, and an item that may stand in no name keeps the spellings on
its two sides apart.
-/

namespace FilterClause

namespace Text

/-- A keyword is stripped exactly where a text starts with a spelling of it. -/
theorem stripKeyword_eq_some_iff {keyword t rest : Text} :
    stripKeyword keyword t = some rest ↔ ∃ w, t = w ++ rest ∧ w.map foldLetter = keyword := by
  induction keyword generalizing t with
  | nil =>
    rw [stripKeyword, Option.some.injEq]
    constructor
    · rintro rfl
      exact ⟨[], rfl, rfl⟩
    · rintro ⟨w, rfl, hw⟩
      rw [List.map_eq_nil_iff.mp hw, List.nil_append]
  | cons k keyword ih =>
    cases t with
    | nil =>
      constructor
      · intro h
        cases h
      · rintro ⟨w, hw, hk⟩
        rw [(List.append_eq_nil_iff.mp hw.symm).1] at hk
        cases hk
    | cons c t =>
      unfold stripKeyword
      constructor
      · intro h
        split at h
        · next hc =>
          obtain ⟨w, rfl, hw⟩ := ih.mp h
          exact ⟨c :: w, rfl, by rw [List.map_cons, hc, hw]⟩
        · cases h
      · rintro ⟨w, hw, hk⟩
        cases w with
        | nil => cases hk
        | cons d w =>
          obtain ⟨rfl, rfl⟩ := List.cons.inj hw
          obtain ⟨hc, hw⟩ := List.cons.inj hk
          rw [if_pos hc]
          exact ih.mpr ⟨w, rfl, hw⟩

theorem stripKeyword_eq_none {keyword t : Text}
    (h : ∀ w rest, t = w ++ rest → w.map foldLetter ≠ keyword) : stripKeyword keyword t = none := by
  cases hs : stripKeyword keyword t with
  | none => rfl
  | some rest =>
    obtain ⟨w, hw, hk⟩ := stripKeyword_eq_some_iff.mp hs
    exact absurd hk (h w rest hw)

/-- A keyword does not reach over a character that is none of its letters. -/
theorem stripKeyword_append_stop {keyword : Text} {b : Char} (hb : foldLetter b ∉ keyword)
    (s t : Text) :
    stripKeyword keyword (s ++ b :: t) = (stripKeyword keyword s).map (· ++ b :: t) := by
  induction keyword generalizing s with
  | nil => rfl
  | cons k keyword ih =>
    cases s with
    | nil =>
      have hk : foldLetter b ≠ k := fun e => hb (e ▸ List.mem_cons_self)
      exact if_neg hk
    | cons c s =>
      rw [List.cons_append, stripKeyword, stripKeyword]
      split
      · exact ih (fun h => hb (List.mem_cons_of_mem _ h)) s
      · rfl

theorem startsWithWord_append_stop {b : Char} (hb : isWord b = false) (s t : Text) :
    startsWithWord (s ++ b :: t) = startsWithWord s := by
  cases s with
  | nil => simp [startsWithWord, hb]
  | cons c s => rfl

/-- A blank is no letter of a keyword. -/
theorem foldLetter_not_mem_of_isBlank {b : Char} (hb : isBlank b = true) {keyword : Text}
    (h : ∀ k ∈ keyword, k ∈ keywordLetters) : foldLetter b ∉ keyword := by
  intro hmem
  have := isBlank_of_isWord (isWord_of_foldLetter (h _ hmem))
  rw [hb] at this
  cases this

end Text

namespace Item

/-- An item that may stand in no name is no letter of a keyword. -/
theorem letter?_ne_of_not_isName {i : Item} (h : i.isName = false) {k : Char}
    (hk : k ∈ Text.keywordLetters) : Subselect.letter? i ≠ some k := by
  cases i with
  | literal index => exact nofun
  | char c =>
    intro hc
    have hfold : Text.foldLetter c = k := Option.some.inj hc
    have := Text.isName_of_foldLetter (hfold ▸ hk)
    rw [isName, this] at h
    cases h

end Item

namespace Subselect

/-- No WHERE stands alone in the items, inside brackets or out; `inName` says that a name character
stands before them. -/
def WhereFree : Bool → List Item → Prop
  | _, [] => True
  | inName, i :: rest =>
    (inName = true ∨ startsWithWhere (i :: rest) = false) ∧ WhereFree i.isName rest

instance decidableWhereFree : ∀ (inName : Bool) (items : List Item),
    Decidable (WhereFree inName items)
  | _, [] => .isTrue trivial
  | inName, i :: rest =>
    haveI := decidableWhereFree i.isName rest
    inferInstanceAs (Decidable ((inName = true ∨ startsWithWhere (i :: rest) = false) ∧
      WhereFree i.isName rest))

theorem endOfWhereFrom_of_whereFree {inName : Bool} {items : List Item}
    (h : WhereFree inName items) (depth : Nat) : endOfWhereFrom depth inName items = none := by
  induction items generalizing inName depth with
  | nil => rfl
  | cons i rest ih =>
    have hstart : (!inName && startsWithWhere (i :: rest)) = false := by
      rcases h.1 with h | h <;> simp [h]
    rw [endOfWhereFrom, Bool.and_assoc, hstart, Bool.and_false, if_neg Bool.false_ne_true,
      ih h.2, Option.map_none]

/-- Without a WHERE that stands alone, the whole clause is its predicate. -/
theorem split_of_whereFree {items : List Item} (h : WhereFree false items) :
    split items = ([], items) := by
  unfold split
  cases items.length with
  | zero => rfl
  | succ n => rw [splitWithin, endOfWhere, endOfWhereFrom_of_whereFree h]

/-- Whether the items start with the letters of WHERE, whatever follows. -/
def spellsWhere (items : List Item) : Bool :=
  (items.take 5).map letter? == ['w', 'h', 'e', 'r', 'e'].map some

theorem spellsWhere_of_length_lt {items : List Item} (h : items.length < 5) :
    spellsWhere items = false := by
  refine beq_false_of_ne fun he => ?_
  have := congrArg List.length he
  simp at this
  omega

/-- Characters that spell the keyword spell it whatever follows. -/
theorem spellsWhere_map_char_append {w : Text} (h : w.map Text.foldLetter = ['w', 'h', 'e', 'r', 'e'])
    (rest : List Item) : spellsWhere (w.map .char ++ rest) = true := by
  have hlength : (w.map Item.char).length = 5 := by simpa using congrArg List.length h
  have hletters : (w.map Item.char).map letter? = (w.map Text.foldLetter).map some := by
    rw [List.map_map, List.map_map]
    rfl
  rw [spellsWhere, ← hlength, List.take_left, hletters, h]
  rfl

/-- What stands behind an item that is no name character does not complete the letters. -/
theorem spellsWhere_append {i : Item} (h : i.isName = false) (xs ys : List Item) :
    spellsWhere (xs ++ i :: ys) = spellsWhere xs := by
  by_cases hlen : xs.length < 5
  · rw [spellsWhere_of_length_lt hlen]
    refine beq_false_of_ne fun he => ?_
    have hmem : letter? i ∈ ((xs ++ i :: ys).take 5).map letter? := by
      refine List.mem_map_of_mem (List.mem_take_iff_getElem.mpr ⟨xs.length, ?_, ?_⟩)
      · simp
        omega
      · simp
    rw [he] at hmem
    obtain ⟨k, hk, hki⟩ := List.mem_map.mp hmem
    have hsub : ∀ k ∈ ['w', 'h', 'e', 'r', 'e'], k ∈ Text.keywordLetters := by decide
    exact Item.letter?_ne_of_not_isName h (hsub k hk) hki.symm
  · rw [spellsWhere, spellsWhere, List.take_append_of_le_length (Nat.le_of_not_lt hlen)]

theorem startsWithWhere_eq (items : List Item) :
    startsWithWhere items = (spellsWhere items && !(items.drop 5).head?.any Item.isName) := rfl

/-- Where characters start with the keyword, they spell it and no name goes on behind it. -/
theorem exists_of_startsWithWhere {t : Text} (h : startsWithWhere (t.map .char) = true) :
    ∃ w rest, t = w ++ rest ∧ w.map Text.foldLetter = ['w', 'h', 'e', 'r', 'e'] ∧
      ∀ c ∈ rest.head?, Text.isName c = false := by
  rw [startsWithWhere_eq, Bool.and_eq_true, Bool.not_eq_true'] at h
  obtain ⟨hletters, hend⟩ := h
  refine ⟨t.take 5, t.drop 5, (List.take_append_drop 5 t).symm, ?_, fun c hc => ?_⟩
  · have hmap : ((t.take 5).map Text.foldLetter).map some = ['w', 'h', 'e', 'r', 'e'].map some := by
      rw [← beq_iff_eq.mp hletters, ← List.map_take, List.map_map, List.map_map]
      rfl
    exact List.map_injective_iff.mpr (fun _ _ => Option.some.inj) hmap
  · rw [← List.map_drop, List.head?_map, Option.mem_def.mp hc] at hend
    exact hend

/-- What stands behind an item that is no name character does not complete a keyword. -/
theorem startsWithWhere_append {i : Item} (h : i.isName = false) (xs ys : List Item) :
    startsWithWhere (xs ++ i :: ys) = startsWithWhere xs := by
  rw [startsWithWhere_eq, startsWithWhere_eq, spellsWhere_append h]
  by_cases hlen : xs.length < 5
  · rw [spellsWhere_of_length_lt hlen, Bool.false_and, Bool.false_and]
  · rw [List.drop_append_of_le_length (Nat.le_of_not_lt hlen)]
    cases xs.drop 5 with
    | nil => simp [h]
    | cons j rest => rfl

/-- An item that may stand in no name keeps two clauses apart. -/
theorem WhereFree.append {i : Item} (h : i.isName = false) {inName : Bool} {xs ys : List Item}
    (hx : WhereFree inName xs) (hy : WhereFree false ys) : WhereFree inName (xs ++ i :: ys) := by
  induction xs generalizing inName with
  | nil =>
    rw [List.nil_append]
    refine ⟨.inr ?_, by rw [h]; exact hy⟩
    have := startsWithWhere_append h [] ys
    rwa [List.nil_append] at this
  | cons x xs ih =>
    exact ⟨hx.1.imp_right (startsWithWhere_append h (x :: xs) ys).trans, ih hx.2⟩

/-- What stands on the two sides of an item that may stand in no name has no WHERE of its own. -/
theorem WhereFree.of_append {i : Item} (h : i.isName = false) {inName : Bool} {xs ys : List Item}
    (hw : WhereFree inName (xs ++ i :: ys)) : WhereFree inName xs ∧ WhereFree false ys := by
  induction xs generalizing inName with
  | nil =>
    have hys := hw.2
    rw [h] at hys
    exact ⟨trivial, hys⟩
  | cons x xs ih =>
    obtain ⟨hxs, hys⟩ := ih hw.2
    exact ⟨⟨hw.1.imp_right (startsWithWhere_append h (x :: xs) ys).symm.trans, hxs⟩, hys⟩

/-- Items that may stand in no name keep two clauses apart. -/
theorem WhereFree.append_separator {inName : Bool} {xs seps ys : List Item}
    (hseps : ∀ i ∈ seps, i.isName = false) (hne : seps ≠ []) (hx : WhereFree inName xs)
    (hy : WhereFree false ys) : WhereFree inName (xs ++ (seps ++ ys)) := by
  induction seps generalizing inName xs with
  | nil => exact absurd rfl hne
  | cons i seps ih =>
    have hi := hseps i List.mem_cons_self
    refine WhereFree.append hi hx ?_
    cases seps with
    | nil => exact hy
    | cons j seps =>
      exact ih (fun k hk => hseps k (List.mem_cons_of_mem _ hk)) (List.cons_ne_nil _ _)
        (show WhereFree false [] from trivial)

/-- Fewer items than the keyword has letters do not spell it. -/
theorem whereFree_of_length_lt {items : List Item} (h : items.length < 5) (inName : Bool) :
    WhereFree inName items := by
  induction items generalizing inName with
  | nil => trivial
  | cons i rest ih =>
    refine ⟨.inr ?_, ih (Nat.lt_of_succ_lt h) _⟩
    rw [startsWithWhere_eq, spellsWhere_of_length_lt h, Bool.false_and]

/-- The letters of WHERE, in any case, stand nowhere in the items. -/
def LacksWhere (items : List Item) : Prop := ∀ s, s <:+ items → spellsWhere s = false

instance (items : List Item) : Decidable (LacksWhere items) :=
  decidable_of_iff (∀ s ∈ items.tails, spellsWhere s = false)
    ⟨fun h s hs => h s ((List.mem_tails s items).mpr hs),
      fun h s hs => h s ((List.mem_tails s items).mp hs)⟩

theorem LacksWhere.whereFree {items : List Item} (h : LacksWhere items) (inName : Bool) :
    WhereFree inName items := by
  induction items generalizing inName with
  | nil => trivial
  | cons i rest ih =>
    refine ⟨.inr ?_, ih (fun s hs => h s (hs.trans (List.suffix_cons _ _))) _⟩
    rw [startsWithWhere_eq, h _ (List.suffix_refl _), Bool.false_and]

/-- Items from the middle of a clause without the letters of WHERE lack them too. -/
theorem LacksWhere.of_append {xs items zs : List Item} (h : LacksWhere (xs ++ (items ++ zs))) :
    LacksWhere items := by
  intro s hs
  by_cases hlen : s.length < 5
  · exact spellsWhere_of_length_lt hlen
  · obtain ⟨front, rfl⟩ := hs
    have hsuffix := h (s ++ zs) ⟨xs ++ front, by simp⟩
    rwa [spellsWhere, List.take_append_of_le_length (Nat.le_of_not_lt hlen)] at hsuffix

theorem LacksWhere.of_part {items part : List Item} (h : LacksWhere items)
    (hp : part <:+: items) : LacksWhere part := by
  obtain ⟨front, back, rfl⟩ := hp
  rw [List.append_assoc] at h
  exact h.of_append

theorem lacksWhere_of_length_lt {items : List Item} (h : items.length < 5) : LacksWhere items :=
  fun _ hs => spellsWhere_of_length_lt (Nat.lt_of_le_of_lt hs.length_le h)

theorem LacksWhere.append {i : Item} (h : i.isName = false) {xs ys : List Item}
    (hx : LacksWhere xs) (hy : LacksWhere ys) : LacksWhere (xs ++ i :: ys) := by
  induction xs with
  | nil =>
    intro s hs
    rcases List.suffix_cons_iff.mp hs with rfl | hs
    · exact spellsWhere_append h [] ys
    · exact hy s hs
  | cons x xs ih =>
    intro s hs
    rcases List.suffix_cons_iff.mp hs with rfl | hs
    · exact (spellsWhere_append h (x :: xs) ys).trans (hx _ (List.suffix_refl _))
    · exact ih (fun s hs => hx s (hs.trans (List.suffix_cons _ _))) s hs

end Subselect

end FilterClause
