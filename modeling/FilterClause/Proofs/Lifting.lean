import FilterClause.Clause.Item
import FilterClause.Clause.Literal
import FilterClause.Proofs.Scanning
import FilterClause.Proofs.Texts

/-!
# Clauses as characters and literals

What literal lifting sees of a text are its parts: the characters outside literals and the
contents of the literals, in order. Places number the literals of the parts; where every quote is
closed, the parts of joined texts are the joined parts.
-/

namespace FilterClause

open Text

namespace Lifted

/-- The characters outside literals and the contents of literals, in order. -/
def parts (t : Text) : List (Char ⊕ Text) := scan literal? t

/-- The contents of the literals among parts. -/
def contents (ps : List (Char ⊕ Text)) : List Text := ps.filterMap Sum.getRight?

@[simp] theorem contents_nil : contents [] = [] := rfl

@[simp] theorem contents_append (ps qs : List (Char ⊕ Text)) :
    contents (ps ++ qs) = contents ps ++ contents qs := List.filterMap_append

@[simp] theorem contents_map_inl (t : Text) : contents (t.map .inl) = [] := by
  induction t with
  | nil => rfl
  | cons c t ih => exact ih

/-! ## Finding a literal -/

theorem takeWhile_ne_append {q : Char} {content : Text} (h : q ∉ content) (rest : Text) :
    (content ++ q :: rest).takeWhile (· != q) = content := by
  have hall : ∀ c ∈ content, (c != q) = true := by
    intro c hc
    rw [bne_iff_ne]
    rintro rfl
    exact h hc
  exact takeWhile_append_of_head hall fun c hc => by simp [← Option.some.inj hc]

theorem literal?_eq_none {q : Char} (h : isQuote q = false) (rest : Text) :
    literal? q rest = none := by
  rw [literal?, h, Bool.false_and]
  rfl

/-- A literal and its closing quote lie within the text behind its opening quote. -/
theorem literal?_eq_some {q : Char} {rest content : Text} {n : Nat}
    (h : literal? q rest = some (content, n)) :
    isQuote q = true ∧ q ∉ content ∧ n = content.length + 1 ∧
      rest = content ++ q :: rest.drop n := by
  unfold literal? at h
  split at h
  · next hopen =>
    obtain ⟨hq, hmem⟩ := Bool.and_eq_true_iff.mp hopen
    obtain ⟨rfl, rfl⟩ := Prod.mk.inj (Option.some.inj h)
    obtain ⟨u, v, rfl, hu⟩ := List.eq_append_cons_of_mem (List.contains_iff_mem.mp hmem)
    have htake : (u ++ q :: v).takeWhile (· != q) = u := takeWhile_ne_append hu v
    rw [htake]
    exact ⟨hq, hu, rfl, by simp [List.drop_append]⟩
  · cases h

theorem literal?_closed {q : Char} (hq : isQuote q = true) {content : Text} (hc : q ∉ content)
    (rest : Text) : literal? q (content ++ q :: rest) = some (content, content.length + 1) := by
  have hmem : (content ++ q :: rest).contains q = true := by simp
  have htake : (content ++ q :: rest).takeWhile (· != q) = content :=
    takeWhile_ne_append hc rest
  rw [literal?, hq, hmem, htake]
  rfl

/-! ## Parts of joined texts -/

/-- Every quote of a text closes. -/
def Closed (t : Text) : Prop := ∀ c, .inl c ∈ parts t → isQuote c = false

@[simp] theorem parts_nil : parts [] = [] := rfl

theorem parts_cons_of_not_quote {c : Char} (h : isQuote c = false) (rest : Text) :
    parts (c :: rest) = .inl c :: parts rest :=
  scan_cons_of_none (literal?_eq_none h rest)

theorem parts_literal {q : Char} (hq : isQuote q = true) {content : Text} (hc : q ∉ content)
    (rest : Text) : parts (q :: (content ++ q :: rest)) = .inr content :: parts rest := by
  have hdrop : (content ++ q :: rest).drop (content.length + 1) = rest := by
    simp [List.drop_append, List.drop_eq_nil_of_le]
  rw [parts, scan_cons_of_some (literal?_closed hq hc rest), hdrop, parts]

theorem closed_cons_iff {c : Char} (h : isQuote c = false) {rest : Text} :
    Closed (c :: rest) ↔ Closed rest := by
  rw [Closed, parts_cons_of_not_quote h]
  refine ⟨fun hc d hd => hc d (List.mem_cons_of_mem _ hd), fun hc d hd => ?_⟩
  rcases List.mem_cons.mp hd with hd | hd
  · rw [Sum.inl.inj hd, h]
  · exact hc d hd

theorem closed_literal_iff {q : Char} (hq : isQuote q = true) {content : Text} (hc : q ∉ content)
    {rest : Text} : Closed (q :: (content ++ q :: rest)) ↔ Closed rest := by
  rw [Closed, parts_literal hq hc]
  refine forall_congr' fun d => ?_
  rw [List.mem_cons, or_iff_right (by simp)]

/-- Behind a text whose quotes all close, reading starts anew. -/
theorem parts_append_of_closed {t : Text} (h : Closed t) (s : Text) :
    parts (t ++ s) = parts t ++ parts s := by
  unfold Closed parts at h
  unfold parts
  induction t using scan_induction literal? with
  | nil => rfl
  | pass c rest hc ih =>
    rw [scan_cons_of_none hc] at h ⊢
    have hq : isQuote c = false := h c (by simp)
    rw [List.cons_append, scan_cons_of_none (literal?_eq_none hq _),
      ih fun d hd => h d (by simp [hd]), List.cons_append]
  | take q rest content n hc ih =>
    obtain ⟨hq, hmem, hn, hrest⟩ := literal?_eq_some hc
    have hlit : literal? q (rest ++ s) = some (content, n) := by
      rw [hn, hrest, List.append_assoc, List.cons_append]
      exact literal?_closed hq hmem _
    have hle : n ≤ rest.length := by
      have := congrArg List.length hrest
      rw [List.length_append, List.length_cons, List.length_drop] at this
      omega
    rw [scan_cons_of_some hc] at h ⊢
    rw [List.cons_append, scan_cons_of_some hlit, List.drop_append_of_le_length hle,
      ih fun d hd => h d (by simp [hd]), List.cons_append]

theorem closed_nil : Closed [] := nofun

theorem parts_of_no_quotes {s : Text} (h : ∀ c ∈ s, isQuote c = false) :
    parts s = s.map .inl :=
  scan_eq_map_inl fun a rest ha =>
    literal?_eq_none (h a (ha.subset List.mem_cons_self)) rest

/-- A text without quotes closes nothing that stands before it. -/
theorem parts_append_of_no_quotes (t : Text) {s : Text} (h : ∀ c ∈ s, isQuote c = false) :
    parts (t ++ s) = parts t ++ s.map .inl := by
  rw [← parts_of_no_quotes h]
  refine scan_append fun q rest _ => ?_
  have hfind : literal? q (rest ++ s) = literal? q rest := by
    cases hq : isQuote q with
    | false => rw [literal?_eq_none hq, literal?_eq_none hq]
    | true =>
      have hs : q ∉ s := fun hm => by rw [h q hm] at hq; cases hq
      by_cases hmem : q ∈ rest
      · obtain ⟨u, v, rfl, hu⟩ := List.eq_append_cons_of_mem hmem
        rw [List.append_assoc, List.cons_append, literal?_closed hq hu, literal?_closed hq hu]
      · simp [literal?, hq, hs, hmem]
  refine ⟨hfind, fun content n hsome => ?_⟩
  obtain ⟨-, -, hn, hrest⟩ := literal?_eq_some hsome
  have := congrArg List.length hrest
  rw [List.length_append, List.length_cons, List.length_drop] at this
  omega

theorem parts_bracketed (t : Text) :
    parts ('(' :: (t ++ [')'])) = .inl '(' :: (parts t ++ [.inl ')']) := by
  have hclose : ∀ c ∈ [')'], isQuote c = false := by
    intro c hc
    rw [List.mem_singleton.mp hc]
    rfl
  rw [parts_cons_of_not_quote (by decide), parts_append_of_no_quotes t hclose]
  rfl

theorem Closed.append {s t : Text} (hs : Closed s) (ht : Closed t) : Closed (s ++ t) := by
  intro c hc
  rw [parts_append_of_closed hs, List.mem_append] at hc
  exact hc.elim (hs c) (ht c)

theorem Closed.bracketed {t : Text} (h : Closed t) : Closed ('(' :: (t ++ [')'])) := by
  intro c hc
  rw [parts_bracketed, List.mem_cons, List.mem_append, List.mem_singleton] at hc
  rcases hc with hc | hc | hc
  · exact Sum.inl.inj hc ▸ by decide
  · exact h c hc
  · exact Sum.inl.inj hc ▸ by decide

theorem closed_of_no_quotes {t : Text} (h : ∀ c ∈ t, isQuote c = false) : Closed t := by
  intro c hc
  rw [parts_of_no_quotes h, List.mem_map] at hc
  obtain ⟨d, hd, e⟩ := hc
  exact Sum.inl.inj e ▸ h d hd

end Lifted

/-! ## Numbering -/

namespace Item

/-- The items of parts, the literals numbered from `index`. -/
def number (index : Nat) : List (Char ⊕ Text) → List Item
  | [] => []
  | .inl c :: rest => .char c :: number index rest
  | .inr _ :: rest => .literal index :: number (index + 1) rest

@[simp] theorem ofSegments_pushChar (c : Char) (segments : List Segment) :
    ofSegments (Segment.pushChar c segments) = .char c :: ofSegments segments := by
  rcases segments with _ | ⟨_ | _ | _ | _, rest⟩ <;> rfl

theorem ofSegments_segmentsFrom (index : Nat) (ps : List (Char ⊕ Text)) :
    ofSegments (Lifted.segmentsFrom index ps) = number index ps := by
  induction ps generalizing index with
  | nil => rfl
  | cons p ps ih =>
    cases p with
    | inl c => rw [Lifted.segmentsFrom, ofSegments_pushChar, ih, number]
    | inr content =>
      rw [Lifted.segmentsFrom, number, ← ih]
      rfl

theorem mem_of_char_mem_number {index : Nat} {ps : List (Char ⊕ Text)} {c : Char}
    (h : .char c ∈ number index ps) : .inl c ∈ ps := by
  induction ps generalizing index with
  | nil => cases h
  | cons p ps ih =>
    cases p with
    | inl d =>
      rcases List.mem_cons.mp h with he | h
      · obtain rfl := Item.char.inj he
        exact List.mem_cons_self
      · exact List.mem_cons_of_mem _ (ih h)
    | inr content =>
      rcases List.mem_cons.mp h with he | h
      · cases he
      · exact List.mem_cons_of_mem _ (ih h)

theorem exists_literal_mem_number {index : Nat} {ps : List (Char ⊕ Text)} {content : Text}
    (h : .inr content ∈ ps) : ∃ n, .literal n ∈ number index ps := by
  induction ps generalizing index with
  | nil => cases h
  | cons p ps ih =>
    cases p with
    | inl c =>
      obtain ⟨n, hn⟩ := ih ((List.mem_cons.mp h).resolve_left nofun)
      exact ⟨n, List.mem_cons_of_mem _ hn⟩
    | inr _ => exact ⟨index, List.mem_cons_self⟩

theorem number_map_inl (index : Nat) (t : Text) : number index (t.map .inl) = t.map .char := by
  induction t with
  | nil => rfl
  | cons c t ih => rw [List.map_cons, number, ih, List.map_cons]

theorem number_append (index : Nat) (ps qs : List (Char ⊕ Text)) :
    number index (ps ++ qs) =
      number index ps ++ number (index + (Lifted.contents ps).length) qs := by
  induction ps generalizing index with
  | nil => rfl
  | cons p ps ih =>
    cases p with
    | inl c =>
      rw [List.cons_append, number, number, ih, List.cons_append]
      rfl
    | inr content =>
      have hlen : (Lifted.contents (.inr content :: ps)).length = (Lifted.contents ps).length + 1 :=
        rfl
      rw [List.cons_append, number, number, ih, List.cons_append, hlen, Nat.add_right_comm,
        Nat.add_assoc]

end Item

/-- The items of a text, its literals lifted out. -/
def Lifted.items (t : Text) : List Item := Item.number 0 (Lifted.parts t)

namespace Lifted

theorem items_of_no_quotes {t : Text} (h : ∀ c ∈ t, isQuote c = false) :
    items t = t.map .char := by
  rw [items, parts_of_no_quotes h, Item.number_map_inl]

theorem items_append_of_no_quotes {s : Text} (h : ∀ c ∈ s, isQuote c = false) (t : Text) :
    items (s ++ t) = s.map .char ++ items t := by
  rw [items, parts_append_of_closed (closed_of_no_quotes h), parts_of_no_quotes h,
    Item.number_append, Item.number_map_inl, contents_map_inl]
  rfl

theorem ofSegments_ofText (t : Text) : Item.ofSegments (ofText t).segments = items t :=
  Item.ofSegments_segmentsFrom 0 _

/-- No quote is left in a text exactly if every quote closes. -/
theorem hasStrayQuote_eq_false_iff (t : Text) :
    (ofText t).hasStrayQuote = false ↔ Closed t := by
  have key : ∀ (ps : List (Char ⊕ Text)) (index : Nat) (content : List Text),
      hasStrayQuote ⟨segmentsFrom index ps, content⟩ = false ↔
        ∀ c, .inl c ∈ ps → isQuote c = false := by
    intro ps
    induction ps with
    | nil => simp [hasStrayQuote, segmentsFrom]
    | cons p ps ih =>
      intro index content
      cases p with
      | inl c =>
        have hpush : ∀ segments : List Segment,
            hasStrayQuote ⟨Segment.pushChar c segments, content⟩ =
              (isQuote c || hasStrayQuote ⟨segments, content⟩) := by
          intro segments
          rcases segments with _ | ⟨_ | _ | _ | _, rest⟩ <;>
            simp [hasStrayQuote, Segment.pushChar, Bool.or_assoc]
        rw [segmentsFrom, hpush, Bool.or_eq_false_iff, ih]
        simp
      | inr u =>
        have := ih (index + 1) content
        simpa [segmentsFrom, hasStrayQuote] using this
  exact key _ 0 _

instance (t : Text) : Decidable (Closed t) :=
  decidable_of_iff _ (hasStrayQuote_eq_false_iff t)

end Lifted

end FilterClause
