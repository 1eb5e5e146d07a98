import FilterClause.Proofs.Fragments
import FilterClause.Proofs.Runs

/-!
# What is seen of a text

Two texts may differ in the blanks outside their literals and in the letter case of AND and OR, and
still read the same. What is visible of a text is what these do not touch: blanks outside literals
are left out, and an AND or OR between characters of no name is written in capitals. The ink of a
text is coarser, for it leaves the letter case out altogether, and it is made character by
character. Both look at joined texts one after the other (`View.joinSpaced`).
-/

namespace FilterClause

open Text

namespace Lifted

/-- A run of name characters, in capitals if it spells a connective. -/
def recased (w : Text) : Text :=
  if sameIgnoringCase w (Connective.text .and) || sameIgnoringCase w (Connective.text .or) then
    upper w
  else w

/-- Whether a part goes on with a name. -/
def isLink : Char ⊕ Text → Bool
  | .inl c => isName c
  | .inr _ => false

/-- A part as it is seen. -/
def seen : Char ⊕ Text → List (Char ⊕ Text)
  | .inl c => if isBlank c then [] else [.inl c]
  | .inr content => [.inr content]

/-- What is seen of parts behind a run of name characters that is given backwards. -/
def visibleBehind (back : Text) : List (Char ⊕ Text) → List (Char ⊕ Text)
  | [] => (recased back.reverse).map .inl
  | .inl c :: rest =>
    if isName c then visibleBehind (c :: back) rest
    else (recased back.reverse).map .inl ++ seen (.inl c) ++ visibleBehind [] rest
  | .inr content :: rest =>
    (recased back.reverse).map .inl ++ seen (.inr content) ++ visibleBehind [] rest

/-- What is seen of parts. -/
def visible (ps : List (Char ⊕ Text)) : List (Char ⊕ Text) := visibleBehind [] ps

@[simp] theorem visible_nil : visible [] = [] := rfl

theorem visibleBehind_boundary (back : Text) {p : Char ⊕ Text} (hp : isLink p = false)
    (ps : List (Char ⊕ Text)) :
    visibleBehind back (p :: ps) = (recased back.reverse).map .inl ++ seen p ++ visible ps := by
  cases p with
  | inl c =>
    have hc : isName c = false := hp
    rw [visibleBehind, hc, if_neg Bool.false_ne_true]
    rfl
  | inr content => rfl

theorem visible_boundary {p : Char ⊕ Text} (hp : isLink p = false) (ps : List (Char ⊕ Text)) :
    visible (p :: ps) = seen p ++ visible ps :=
  visibleBehind_boundary [] hp ps

/-- A part that goes on with no name keeps what is seen on its two sides apart. -/
theorem visible_append_boundary (ps : List (Char ⊕ Text)) {q : Char ⊕ Text}
    (hq : isLink q = false) (qs : List (Char ⊕ Text)) :
    visible (ps ++ q :: qs) = visible ps ++ visible (q :: qs) := by
  have key : ∀ back, visibleBehind back (ps ++ q :: qs) =
      visibleBehind back ps ++ visible (q :: qs) := by
    induction ps with
    | nil =>
      intro back
      rw [List.nil_append, visibleBehind_boundary back hq, visible_boundary hq, List.append_assoc]
      rfl
    | cons p ps ih =>
      intro back
      cases p with
      | inl c =>
        rw [List.cons_append, visibleBehind, visibleBehind]
        split
        · exact ih (c :: back)
        · rw [ih []]
          simp only [List.append_assoc]
      | inr content =>
        rw [List.cons_append, visibleBehind, visibleBehind, ih []]
        simp only [List.append_assoc]
  exact key []

theorem visible_concat_boundary (ps : List (Char ⊕ Text)) {p : Char ⊕ Text}
    (hp : isLink p = false) (qs : List (Char ⊕ Text)) :
    visible (ps ++ [p] ++ qs) = visible (ps ++ [p]) ++ visible qs := by
  rw [List.append_assoc, List.singleton_append, visible_append_boundary ps hp,
    visible_append_boundary ps hp, visible_boundary hp, visible_boundary hp, visible_nil,
    List.append_nil, List.append_assoc]

/-- Parts of which the first end in no name, or the second start with none, are seen one after the
other. -/
theorem visible_append {ps qs : List (Char ⊕ Text)}
    (h : (∀ p ∈ ps.getLast?, isLink p = false) ∨ ∀ q ∈ qs.head?, isLink q = false) :
    visible (ps ++ qs) = visible ps ++ visible qs := by
  rcases h with h | h
  · rcases List.eq_nil_or_concat ps with rfl | ⟨ps, p, rfl⟩
    · rfl
    · rw [List.concat_eq_append]
      exact visible_concat_boundary ps (h p (by simp)) qs
  · cases qs with
    | nil => rw [List.append_nil, visible_nil, List.append_nil]
    | cons q qs => exact visible_append_boundary ps (h q rfl) qs

theorem visible_of_isName {w : Text} (h : ∀ c ∈ w, isName c = true) :
    visible (w.map .inl) = (recased w).map .inl := by
  have key : ∀ back, visibleBehind back (w.map .inl) = (recased (back.reverse ++ w)).map .inl := by
    induction w with
    | nil =>
      intro back
      rw [List.append_nil]
      rfl
    | cons c w ih =>
      obtain ⟨hc, hw⟩ := List.forall_mem_cons.mp h
      intro back
      rw [List.map_cons, visibleBehind, hc, if_pos rfl, ih hw, List.reverse_cons,
        List.append_assoc, List.singleton_append]
  exact key []

/-- A connective looks the same in every letter case. -/
theorem visible_connective {k : Connective} {w : Text} (h : sameIgnoringCase w k.text = true) :
    visible (w.map .inl) = visible (k.text.map .inl) := by
  have hname : ∀ c ∈ w, isName c = true := fun c hc =>
    (isWord_and_isName_of_isAlphanum
      (isAlphanum_of_sameIgnoringCase h (by cases k <;> decide) c hc)).2
  have hnameText : ∀ c ∈ k.text, isName c = true := by cases k <;> decide +kernel
  have hself : recased k.text = k.text := by cases k <;> decide
  have hupper : upper w = k.text := by
    rw [upper_of_sameIgnoringCase h (by cases k <;> decide)]
    cases k <;> decide
  have hrecased : recased w = k.text := by
    unfold recased
    rw [if_pos (by cases k <;> simp [h]), hupper]
  rw [visible_of_isName hname, visible_of_isName hnameText, hself, hrecased]

/-! ## Ink -/

/-- A part in small letters. -/
def small (p : Char ⊕ Text) : Char ⊕ Text := p.map Char.toLower id

/-- The parts that are no blanks, in small letters. -/
def ink (ps : List (Char ⊕ Text)) : List (Char ⊕ Text) := (ps.flatMap seen).map small

theorem ink_append (ps qs : List (Char ⊕ Text)) : ink (ps ++ qs) = ink ps ++ ink qs := by
  rw [ink, List.flatMap_append, List.map_append]
  rfl

theorem ink_of_not_blank {w : Text} (h : ∀ c ∈ w, isBlank c = false) :
    ink (w.map .inl) = (w.map Char.toLower).map .inl := by
  induction w with
  | nil => rfl
  | cons c w ih =>
    obtain ⟨hc, hw⟩ := List.forall_mem_cons.mp h
    have hseen : seen (.inl c) = [.inl c] := by rw [seen, hc, if_neg Bool.false_ne_true]
    rw [List.map_cons, ← List.singleton_append, ink_append, ih hw, ink, List.flatMap_singleton,
      hseen]
    rfl

theorem map_toLower_recased (w : Text) : (recased w).map Char.toLower = w.map Char.toLower := by
  have hcase : ∀ k : Connective, sameIgnoringCase w k.text = true →
      (upper w).map Char.toLower = w.map Char.toLower := by
    intro k hk
    rw [upper_of_sameIgnoringCase hk (by cases k <;> decide), sameIgnoringCase_iff.mp hk]
    cases k <;> decide
  unfold recased
  split
  · next h =>
    rcases Bool.or_eq_true_iff.mp h with h | h
    · exact hcase .and h
    · exact hcase .or h
  · rfl

/-- What is visible has the ink of the parts. -/
theorem map_small_visible (ps : List (Char ⊕ Text)) : (visible ps).map small = ink ps := by
  have hrun : ∀ back : Text, (∀ c ∈ back, isName c = true) →
      ((recased back.reverse).map Sum.inl).map small = ink (back.reverse.map .inl) := by
    intro back hback
    have hblank : ∀ c ∈ back.reverse, isBlank c = false := fun c hc => by
      cases hb : isBlank c with
      | false => rfl
      | true => exact absurd (hback c (List.mem_reverse.mp hc)) (by simp [isName_of_isBlank hb])
    have hsmall : ∀ w : Text, (w.map Sum.inl).map small = (w.map Char.toLower).map .inl := by
      intro w
      rw [List.map_map, List.map_map]
      rfl
    rw [ink_of_not_blank hblank, hsmall, map_toLower_recased]
  have key : ∀ back : Text, (∀ c ∈ back, isName c = true) →
      (visibleBehind back ps).map small = ink (back.reverse.map .inl ++ ps) := by
    induction ps with
    | nil =>
      intro back hback
      rw [List.append_nil]
      exact hrun back hback
    | cons p ps ih =>
      intro back hback
      have hboundary : isLink p = false →
          (visibleBehind back (p :: ps)).map small = ink (back.reverse.map .inl ++ p :: ps) := by
        intro hp
        have hrest : (visible ps).map small = ink ps := ih [] nofun
        rw [visibleBehind_boundary back hp, List.map_append, List.map_append, hrun back hback,
          hrest, ← List.singleton_append, ink_append, ink_append, List.append_assoc]
        simp [ink]
      cases hp : isLink p with
      | false => exact hboundary hp
      | true =>
        cases p with
        | inl c =>
          have hc : isName c = true := hp
          rw [visibleBehind, hc, if_pos rfl, ih (c :: back) (List.forall_mem_cons.mpr ⟨hc, hback⟩),
            List.reverse_cons, List.map_append, List.append_assoc]
          rfl
        | inr content => cases hp
  exact key [] nofun

/-! ## Views -/

/-- Trimming takes blanks off the parts. -/
theorem exists_parts_eq_trim (t : Text) :
    ∃ l r : Text, (∀ b ∈ l, isBlank b = true) ∧ (∀ b ∈ r, isBlank b = true) ∧
      parts t = l.map .inl ++ (parts (trim t) ++ r.map .inl) := by
  obtain ⟨l, r, ht, hl, hr⟩ := exists_eq_append_dropEnds isBlank t
  refine ⟨l, r, hl, hr, ?_⟩
  conv_lhs => rw [ht]
  exact Fragment.parts_padded (.of_blanks hl) (.of_blanks hr) _

/-- A way to look at parts that notices neither blanks nor the letter case of connectives, and that
looks at the two sides of a part that goes on with no name one after the other. -/
structure View (view : List (Char ⊕ Text) → List (Char ⊕ Text)) : Prop where
  append : ∀ {ps qs : List (Char ⊕ Text)},
    ((∀ p ∈ ps.getLast?, isLink p = false) ∨ ∀ q ∈ qs.head?, isLink q = false) →
      view (ps ++ qs) = view ps ++ view qs
  blank : ∀ {b : Char}, isBlank b = true → view [.inl b] = []
  connective : ∀ {k : Connective} {w : Text}, sameIgnoringCase w k.text = true →
    view (w.map .inl) = view (k.text.map .inl)

theorem view_visible : View visible where
  append := visible_append
  blank := by
    intro b hb
    have hlink : isLink (.inl b) = false := isName_of_isBlank hb
    rw [visible_boundary hlink, seen, if_pos hb]
    rfl
  connective := visible_connective

theorem view_ink : View ink where
  append := fun _ => ink_append _ _
  blank := by
    intro b hb
    rw [ink, List.flatMap_singleton, seen, if_pos hb]
    rfl
  connective := by
    intro k w h
    have hw : ∀ c ∈ w, isBlank c = false := fun c hc =>
      isBlank_of_isWordPart (Connective.isWordPart_of_spelling h c hc)
    have hk : ∀ c ∈ k.text, isBlank c = false := by cases k <;> decide
    rw [ink_of_not_blank hw, ink_of_not_blank hk, sameIgnoringCase_iff.mp h]

namespace View

variable {view : List (Char ⊕ Text) → List (Char ⊕ Text)} (hv : View view)

include hv

theorem nil : view [] = [] := by
  have h : view ([] ++ []) = view [] ++ view [] := hv.append (.inl nofun)
  exact List.self_eq_append_left.mp h

/-- Blanks are not looked at. -/
theorem blanks {bs : Text} (hb : ∀ b ∈ bs, isBlank b = true) : view (bs.map .inl) = [] := by
  induction bs with
  | nil => exact hv.nil
  | cons b bs ih =>
    obtain ⟨hb, hbs⟩ := List.forall_mem_cons.mp hb
    have hlink : ∀ p ∈ [Sum.inl b].getLast?, isLink p = false := by
      rintro p ⟨⟩
      exact isName_of_isBlank hb
    rw [List.map_cons, ← List.singleton_append, hv.append (.inl hlink), hv.blank hb, ih hbs]
    rfl

/-- Blanks at the ends of a text are not looked at. -/
theorem trim (t : Text) : view (parts (Text.trim t)) = view (parts t) := by
  obtain ⟨l, r, hl, hr, hparts⟩ := exists_parts_eq_trim t
  have hlast : ∀ p ∈ (l.map Sum.inl).getLast?, isLink p = false := by
    intro p hp
    obtain ⟨b, hb, rfl⟩ := Option.map_eq_some_iff.mp (List.getLast?_map ▸ hp)
    exact isName_of_isBlank (hl b (List.mem_of_getLast? hb))
  have hhead : ∀ p ∈ (r.map Sum.inl).head?, isLink p = false := by
    intro p hp
    obtain ⟨b, hb, rfl⟩ := Option.map_eq_some_iff.mp (List.head?_map ▸ hp)
    exact isName_of_isBlank (hr b (List.mem_of_head? hb))
  rw [hparts, hv.append (.inl hlast), hv.append (.inr hhead), hv.blanks hl, hv.blanks hr,
    List.nil_append, List.append_nil]

/-- Texts with spaces between them are looked at one after the other. -/
theorem joinSpaced {ts : List Text} (h : ∀ t ∈ ts, Closed t) :
    view (parts (Text.joinSpaced ts)) = ts.flatMap fun t => view (parts t) := by
  induction ts with
  | nil =>
    rw [joinSpaced_nil]
    exact hv.nil
  | cons t ts ih =>
    obtain ⟨ht, hts⟩ := List.forall_mem_cons.mp h
    cases ts with
    | nil =>
      rw [joinSpaced_singleton, List.flatMap_singleton]
    | cons u us =>
      have hspace : isBlank ' ' = true := by decide
      have hhead : ∀ (qs : List (Char ⊕ Text)), ∀ q ∈ (Sum.inl ' ' :: qs).head?,
          isLink q = false := by
        rintro qs q ⟨⟩
        exact isName_of_isBlank hspace
      have hlast : ∀ q ∈ [(Sum.inl ' ' : Char ⊕ Text)].getLast?, isLink q = false := by
        rintro q ⟨⟩
        exact isName_of_isBlank hspace
      rw [joinSpaced_cons_cons, parts_append_of_closed ht,
        parts_cons_of_not_quote (isQuote_of_isBlank hspace), hv.append (.inr (hhead _)),
        ← List.singleton_append, hv.append (.inl hlast), hv.blank hspace, List.flatMap_cons,
        ← ih hts, List.nil_append]

theorem bracketed (ps : List (Char ⊕ Text)) :
    view (.inl '(' :: (ps ++ [.inl ')'])) = view [.inl '('] ++ (view ps ++ view [.inl ')']) := by
  have hopen : ∀ p ∈ [(Sum.inl '(' : Char ⊕ Text)].getLast?, isLink p = false := by
    rintro p ⟨⟩
    exact isName_of_mem_marks '(' (by decide)
  have hclose : ∀ q ∈ [(Sum.inl ')' : Char ⊕ Text)].head?, isLink q = false := by
    rintro q ⟨⟩
    exact isName_of_mem_marks ')' (by decide)
  rw [← List.singleton_append, hv.append (.inl hopen), hv.append (.inr hclose)]

end View

theorem Closed.trim {t : Text} (h : Closed t) : Closed (Text.trim t) := by
  obtain ⟨l, r, -, -, hparts⟩ := exists_parts_eq_trim t
  intro c hc
  refine h c ?_
  rw [hparts]
  exact List.mem_append_right _ (List.mem_append_left _ hc)

theorem Closed.joinSpaced {ts : List Text} (h : ∀ t ∈ ts, Closed t) :
    Closed (Text.joinSpaced ts) := by
  induction ts with
  | nil =>
    rw [joinSpaced_nil]
    exact closed_nil
  | cons t ts ih =>
    obtain ⟨ht, hts⟩ := List.forall_mem_cons.mp h
    cases ts with
    | nil => rwa [joinSpaced_singleton]
    | cons u us =>
      have hspace : Closed [' '] := closed_of_no_quotes (by decide)
      have hjoin := ht.append (hspace.append (ih hts))
      rwa [joinSpaced_cons_cons]

end Lifted

/-- What is seen of a text. -/
def Text.visible (t : Text) : List (Char ⊕ Text) := Lifted.visible (Lifted.parts t)

end FilterClause
