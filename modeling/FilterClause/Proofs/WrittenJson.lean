import FilterClause.Json.Decode
import FilterClause.Proofs.JsonScalars

/-!
# Written JSON is read back

A written value is read as one tree (`Tree.ofValue`), in every layout that puts nothing but gaps
between its parts and whatever follows it (`readsTree_writeAt`). Two steps for every character are
enough, and that no item begins with a closing bracket tells lists from empty ones (`Begins`). So a
whole text is decoded as the tree of the value that it was written from (`decodeText_write`).
-/

namespace FilterClause.Json

open Text

/-! ## Gaps -/

/-- Only blanks that may stand between the parts of a JSON text. -/
def Gaps (t : Text) : Prop := ∀ c ∈ t, isGap c = true

/-- A layout that puts nothing but gaps between the parts. -/
structure Layout.Spaced (l : Layout) : Prop where
  newLine : ∀ depth, Gaps (l.newLine depth)
  afterColon : Gaps l.afterColon

theorem Layout.compact_spaced : Layout.compact.Spaced where
  newLine _ := List.forall_mem_nil _
  afterColon := List.forall_mem_nil _

theorem Layout.indented_spaced : Layout.indented.Spaced where
  newLine depth := by
    intro c hc
    rcases List.mem_cons.mp hc with rfl | hc
    · rfl
    · rw [List.eq_of_mem_replicate hc]; rfl
  afterColon := by simp [Gaps, Layout.indented, isGap]

theorem Gaps.skipGap_append {g : Text} (hg : Gaps g) (t : Text) : skipGap (g ++ t) = skipGap t :=
  List.dropWhile_append_of_pos hg

theorem skipGap_cons_of_not {c : Char} (hc : isGap c = false) (t : Text) :
    skipGap (c :: t) = c :: t :=
  List.dropWhile_cons_of_neg (by simp [hc])

theorem skipGap_skipGap (t : Text) : skipGap (skipGap t) = skipGap t :=
  dropWhile_of_head fun c hc => by
    have h := List.head?_dropWhile_not isGap t
    rwa [show (t.dropWhile isGap).head? = some c from hc] at h

theorem readTree_skipGap (fuel : Nat) (t : Text) : readTree fuel (skipGap t) = readTree fuel t := by
  cases fuel with
  | zero => rfl
  | succ fuel => rw [readTree, readTree, skipGap_skipGap]

theorem readItems_skipGap (fuel : Nat) (t : Text) :
    readItems fuel (skipGap t) = readItems fuel t := by
  cases fuel with
  | zero => rfl
  | succ fuel => rw [readItems, readItems, readTree_skipGap]

/-! ## Texts that are read -/

/-- The text is read as the tree in every place where it may stand. -/
def ReadsTree (t : Text) (tree : Tree) : Prop :=
  ∀ fuel rest, 2 * t.length ≤ fuel → EndsNumber rest → readTree fuel (t ++ rest) = (tree, rest)

/-- The text in front of a closing bracket is read as the items. -/
def ReadsItems (t : Text) (items : Items) : Prop :=
  ∀ fuel rest, 2 * t.length + 1 ≤ fuel → readItems fuel (t ++ ']' :: rest) = (items, rest)

/-- The text in front of a closing brace is read as the members, once the quote of its first key
has been read. -/
def ReadsMembers (t : Text) (members : Members) : Prop :=
  ∀ fuel rest, 2 * t.length + 1 ≤ fuel → readMembers fuel (t ++ '\x7d' :: rest) = (members, rest)

theorem endsNumber_cons {c : Char} (hc : c.isDigit = false ∧ c ≠ '.' ∧ c ≠ 'e' ∧ c ≠ 'E')
    (t : Text) : EndsNumber (c :: t) := by
  rintro d ⟨⟩
  exact hc

/-- No number goes on behind a gap and a sign between parts. -/
theorem endsNumber_gap {g : Text} (hg : Gaps g) {c : Char} (hc : c ∈ [',', ']', '\x7d'])
    (t : Text) : EndsNumber (g ++ c :: t) := by
  cases g with
  | nil =>
    apply endsNumber_cons
    revert c
    decide
  | cons d g =>
    apply endsNumber_cons
    have hd := hg d List.mem_cons_self
    simp only [isGap, Bool.or_eq_true, beq_iff_eq] at hd
    rcases hd with ((rfl | rfl) | rfl) | rfl <;> decide

theorem exists_fuel {t : Text} {fuel : Nat} (ht : t ≠ []) (h : 2 * t.length ≤ fuel) :
    ∃ m, fuel = m + 1 := by
  have hlen := List.length_pos_iff.mpr ht
  exact Nat.exists_eq_add_one_of_ne_zero (by omega)

theorem isGap_of_isDigit {c : Char} (hc : c.isDigit = true) : isGap c = false := by
  rw [Bool.eq_false_iff]
  intro h
  simp only [isGap, Bool.or_eq_true, beq_iff_eq] at h
  rcases h with ((rfl | rfl) | rfl) | rfl <;> exact absurd hc (by decide)

theorem readTree_digit {c : Char} (hc : c.isDigit = true) (fuel : Nat) (t : Text) :
    readTree (fuel + 1) (c :: t) = readNumber (c :: t) := by
  have hn : c ≠ 'n' := by rintro rfl; exact absurd hc (by decide)
  have ht : c ≠ 't' := by rintro rfl; exact absurd hc (by decide)
  have hf : c ≠ 'f' := by rintro rfl; exact absurd hc (by decide)
  rw [readTree, skipGap_cons_of_not (isGap_of_isDigit hc)]
  simp [hn, ht, hf, hc]

theorem readsTree_number (n : Nat) :
    ReadsTree (ofNat n) (.number ⟨false, ofNat n, none, none⟩) := by
  intro fuel rest hfuel hrest
  have htake := take_ofNat n hrest
  cases hn : ofNat n with
  | nil => exact absurd hn (ofNat_ne_nil n)
  | cons d digits =>
    rw [hn] at hfuel htake
    obtain ⟨fuel, rfl⟩ := exists_fuel (List.cons_ne_nil d digits) hfuel
    have hd : d.isDigit = true := isDigit_of_mem_ofNat (hn ▸ List.mem_cons_self)
    rw [List.cons_append, readTree_digit hd, readNumber, ← List.cons_append, htake]

theorem writeString_append (s t : Text) :
    writeString s ++ t = doubleQuote :: (s.flatMap escape ++ doubleQuote :: t) := by
  simp [writeString]

theorem readTree_quote (fuel : Nat) (t : Text) :
    readTree (fuel + 1) (doubleQuote :: t) = readStringTree t := by
  rw [readTree, skipGap_cons_of_not rfl]
  rfl

theorem readsTree_string (s : Text) : ReadsTree (writeString s) (.string (.ok s)) := by
  intro fuel rest hfuel _
  obtain ⟨fuel, rfl⟩ := exists_fuel (by simp [writeString]) hfuel
  rw [writeString_append, readTree_quote, readStringTree, readString_flatMap_escape]

/-- A gap in front of a text does not change its reading. -/
theorem ReadsTree.behind_gap {t g : Text} {tree : Tree} (h : ReadsTree t tree) (hg : Gaps g) :
    ReadsTree (g ++ t) tree := by
  intro fuel rest hfuel hrest
  rw [← readTree_skipGap, List.append_assoc, hg.skipGap_append, readTree_skipGap]
  apply h fuel rest _ hrest
  rw [List.length_append] at hfuel
  omega

/-! ## Lists of items -/

/-- A text whose first sign ends no list. -/
def Begins (t : Text) : Prop := ∃ c s, (∀ u, skipGap (t ++ u) = c :: (s ++ u)) ∧ c ≠ ']'

theorem ReadsItems.last {t g : Text} {tree : Tree} (h : ReadsTree t tree) (hg : Gaps g) :
    ReadsItems (t ++ g) (.more tree (.done .closed)) := by
  intro fuel rest hfuel
  obtain ⟨fuel, rfl⟩ : ∃ m, fuel = m + 1 := Nat.exists_eq_add_one_of_ne_zero (by omega)
  rw [List.length_append] at hfuel
  rw [readItems, List.append_assoc, h fuel _ (by omega) (endsNumber_gap hg (by decide) rest)]
  dsimp only
  rw [hg.skipGap_append, skipGap_cons_of_not rfl]
  simp only [if_true]

theorem ReadsItems.more {t s : Text} {tree : Tree} {items : Items} (h : ReadsTree t tree)
    (hs : Begins s) (hitems : ReadsItems s items) :
    ReadsItems (t ++ ',' :: s) (.more tree items) := by
  intro fuel rest hfuel
  obtain ⟨fuel, rfl⟩ : ∃ m, fuel = m + 1 := Nat.exists_eq_add_one_of_ne_zero (by omega)
  rw [List.length_append, List.length_cons] at hfuel
  have hends : EndsNumber (',' :: s ++ ']' :: rest) := endsNumber_cons (by decide) _
  obtain ⟨c, u, hskip, hc⟩ := hs
  have htail : readItems fuel (skipGap (s ++ ']' :: rest)) = (items, rest) := by
    rw [readItems_skipGap]
    exact hitems fuel rest (by omega)
  rw [hskip] at htail
  rw [readItems, List.append_assoc, h fuel _ (by omega) hends]
  dsimp only
  rw [List.cons_append, skipGap_cons_of_not rfl]
  simp only [Char.reduceEq, if_false, if_true, hskip, hc, htail]

theorem readTree_array (fuel : Nat) {t s : Text} {c : Char} (ht : skipGap t = c :: s)
    (hc : c ≠ ']') :
    readTree (fuel + 1) ('[' :: t) = (.array (readItems fuel t).1, (readItems fuel t).2) := by
  rw [readTree, skipGap_cons_of_not rfl, ← readItems_skipGap, ht]
  simp [ht, hc, doubleQuote]

theorem readsTree_emptyArray : ReadsTree ['[', ']'] (.array (.done .closed)) := by
  intro fuel rest hfuel _
  obtain ⟨fuel, rfl⟩ := exists_fuel (List.cons_ne_nil _ _) hfuel
  rw [readTree]
  rfl

theorem ReadsItems.array {t : Text} {items : Items} (h : ReadsItems t items) (ht : Begins t) :
    ReadsTree ('[' :: t ++ [']']) (.array items) := by
  intro fuel rest hfuel _
  obtain ⟨fuel, rfl⟩ := exists_fuel (by simp) hfuel
  obtain ⟨c, s, hskip, hc⟩ := ht
  rw [List.length_append, List.length_cons] at hfuel
  rw [List.cons_append, List.cons_append, List.append_assoc, List.singleton_append,
    readTree_array fuel (hskip _) hc, h fuel rest (by omega)]

/-! ## Members -/

section Member

variable {fuel : Nat} {t key s u v w rest : Text} {value : Tree}
  (hkey : readString t = (.ok key, .ok (':' :: s))) (hvalue : readTree fuel s = (value, u))

include hkey hvalue

theorem readMembers_last (hu : skipGap u = '\x7d' :: rest) :
    readMembers (fuel + 1) t = (.more (.ok key) value (.done .closed), rest) := by
  rw [readMembers, hkey]
  dsimp only
  rw [skipGap_cons_of_not rfl]
  simp only [if_true, hvalue, hu]

theorem readMembers_more (hu : skipGap u = ',' :: v) (hv : skipGap v = doubleQuote :: w) :
    readMembers (fuel + 1) t =
      (.more (.ok key) value (readMembers fuel w).1, (readMembers fuel w).2) := by
  rw [readMembers, hkey]
  dsimp only
  rw [skipGap_cons_of_not rfl]
  simp only [if_true, hvalue, hu, hv, Char.reduceEq, if_false]

end Member

/-- A key whose first quote has been read, and the value behind the colon. -/
def memberText (key t : Text) : Text := key.flatMap escape ++ doubleQuote :: ':' :: t

theorem readString_memberText (key t u : Text) :
    readString (memberText key t ++ u) = (.ok key, .ok (':' :: (t ++ u))) := by
  rw [memberText, List.append_assoc]
  exact readString_flatMap_escape key (':' :: (t ++ u))

theorem length_memberText (key t : Text) : t.length + 2 ≤ (memberText key t).length := by
  rw [memberText, List.length_append, List.length_cons, List.length_cons]
  omega

theorem ReadsMembers.last {key t g : Text} {tree : Tree} (h : ReadsTree t tree) (hg : Gaps g) :
    ReadsMembers (memberText key t ++ g) (.more (.ok key) tree (.done .closed)) := by
  intro fuel rest hfuel
  obtain ⟨fuel, rfl⟩ : ∃ m, fuel = m + 1 := Nat.exists_eq_add_one_of_ne_zero (by omega)
  have hlen := length_memberText key t
  rw [List.length_append] at hfuel
  have hvalue := h fuel _ (by omega) (endsNumber_gap hg (by decide : '\x7d' ∈ _) rest)
  rw [List.append_assoc]
  apply readMembers_last (readString_memberText ..) hvalue
  rw [hg.skipGap_append, skipGap_cons_of_not rfl]

theorem ReadsMembers.more {key t g s : Text} {tree : Tree} {members : Members}
    (h : ReadsTree t tree) (hg : Gaps g) (hs : ReadsMembers s members) :
    ReadsMembers (memberText key t ++ ',' :: (g ++ doubleQuote :: s))
      (.more (.ok key) tree members) := by
  intro fuel rest hfuel
  obtain ⟨fuel, rfl⟩ : ∃ m, fuel = m + 1 := Nat.exists_eq_add_one_of_ne_zero (by omega)
  have hlen := length_memberText key t
  rw [List.length_append, List.length_cons, List.length_append, List.length_cons] at hfuel
  have hvalue := h fuel (',' :: (g ++ doubleQuote :: (s ++ '\x7d' :: rest))) (by omega)
    (endsNumber_cons (by decide) _)
  have htail := hs fuel rest (by omega)
  simp only [List.append_assoc, List.cons_append]
  rw [readMembers_more (readString_memberText ..) hvalue (skipGap_cons_of_not rfl _)
    ((hg.skipGap_append _).trans (skipGap_cons_of_not rfl _)), htail]

theorem readTree_object (fuel : Nat) {t s : Text} (ht : skipGap t = doubleQuote :: s) :
    readTree (fuel + 1) ('\x7b' :: t) =
      (.object (readMembers fuel s).1, (readMembers fuel s).2) := by
  rw [readTree, skipGap_cons_of_not rfl]
  simp only [ht]
  rfl

theorem readsTree_emptyObject : ReadsTree ['\x7b', '\x7d'] (.object (.done .closed)) := by
  intro fuel rest hfuel _
  obtain ⟨fuel, rfl⟩ := exists_fuel (List.cons_ne_nil _ _) hfuel
  rw [readTree]
  rfl

theorem ReadsMembers.object {g t : Text} {members : Members} (h : ReadsMembers t members)
    (hg : Gaps g) :
    ReadsTree ('\x7b' :: (g ++ doubleQuote :: t) ++ ['\x7d']) (.object members) := by
  intro fuel rest hfuel _
  obtain ⟨fuel, rfl⟩ := exists_fuel (by simp) hfuel
  rw [List.length_append, List.length_cons, List.length_append, List.length_cons] at hfuel
  have hmembers := h fuel rest (by omega)
  simp only [List.append_assoc, List.cons_append, List.nil_append]
  rw [readTree_object fuel ((hg.skipGap_append _).trans (skipGap_cons_of_not rfl _)), hmembers]

/-! ## Written values -/

/-- Induction along a value, with the hypothesis for every part of a list. -/
theorem Value.induction {motive : Value → Prop} (number : ∀ n, motive (.number n))
    (string : ∀ t, motive (.string t))
    (array : ∀ items : List Value, (∀ v ∈ items, motive v) → motive (.array items))
    (object : ∀ members : List (Text × Value), (∀ m ∈ members, motive m.2) →
      motive (.object members)) (v : Value) : motive v :=
  @Value.rec motive (fun items => ∀ v ∈ items, motive v)
    (fun members => ∀ m ∈ members, motive m.2) (fun m => motive m.2)
    number string array object (List.forall_mem_nil _)
    (fun _ _ head tail => List.forall_mem_cons.mpr ⟨head, tail⟩) (List.forall_mem_nil _)
    (fun _ _ head tail => List.forall_mem_cons.mpr ⟨head, tail⟩) (fun _ _ value => value) v

mutual

/-- The tree that a written value is read as. -/
def Tree.ofValue : Value → Tree
  | .number n => .number ⟨false, ofNat n, none, none⟩
  | .string t => .string (.ok t)
  | .array items => .array (Items.ofValues items)
  | .object members => .object (Members.ofValues members)

/-- The items that written values are read as. -/
def Items.ofValues : List Value → Items
  | [] => .done .closed
  | v :: rest => .more (Tree.ofValue v) (Items.ofValues rest)

/-- The members that written members are read as. -/
def Members.ofValues : List (Text × Value) → Members
  | [] => .done .closed
  | (key, v) :: rest => .more (.ok key) (Tree.ofValue v) (Members.ofValues rest)

end

theorem join_map_cons_cons {α : Type} (sep : Text) (f : α → Text) (a b : α) (l : List α) :
    join sep ((a :: b :: l).map f) = f a ++ sep ++ join sep ((b :: l).map f) := by
  simp [join, List.intercalate]

theorem join_singleton (sep t : Text) : join sep [t] = t := by
  simp [join, List.intercalate]

theorem writeItems_eq_map (l : Layout) (depth : Nat) (vs : List Value) :
    writeItems l depth vs = vs.map (·.writeAt l depth) := by
  induction vs with
  | nil => rw [writeItems, List.map_nil]
  | cons v vs ih => rw [writeItems, ih, List.map_cons]

theorem writeMembers_eq_map (l : Layout) (depth : Nat) (ms : List (Text × Value)) :
    writeMembers l depth ms =
      ms.map fun m => doubleQuote :: memberText m.1 (l.afterColon ++ m.2.writeAt l depth) := by
  induction ms with
  | nil => rw [writeMembers, List.map_nil]
  | cons m ms ih =>
    rw [writeMembers, ih, List.map_cons, List.append_assoc, writeString_append]
    rfl

theorem Begins.append {t : Text} (h : Begins t) (u : Text) : Begins (t ++ u) := by
  obtain ⟨c, s, hskip, hc⟩ := h
  exact ⟨c, s ++ u, fun v => by rw [List.append_assoc, hskip, List.append_assoc], hc⟩

theorem Begins.behind_gap {t g : Text} (h : Begins t) (hg : Gaps g) : Begins (g ++ t) := by
  obtain ⟨c, s, hskip, hc⟩ := h
  exact ⟨c, s, fun v => by rw [List.append_assoc, hg.skipGap_append, hskip], hc⟩

theorem begins_cons {c : Char} (hgap : isGap c = false) (hc : c ≠ ']') (t : Text) :
    Begins (c :: t) :=
  ⟨c, t, fun u => skipGap_cons_of_not hgap (t ++ u), hc⟩

/-- No written value begins with the bracket that closes a list. -/
theorem begins_writeAt (l : Layout) (depth : Nat) (v : Value) : Begins (v.writeAt l depth) := by
  cases v with
  | number n =>
    rw [Value.writeAt]
    cases hn : ofNat n with
    | nil => exact absurd hn (ofNat_ne_nil n)
    | cons d digits =>
      have hd : d.isDigit = true := isDigit_of_mem_ofNat (hn ▸ List.mem_cons_self)
      exact begins_cons (isGap_of_isDigit hd) (by rintro rfl; exact absurd hd (by decide)) digits
  | string t =>
    rw [Value.writeAt]
    exact begins_cons rfl (by decide) _
  | array items =>
    rw [Value.writeAt, Layout.enclose]
    split
    · exact begins_cons rfl (by decide) _
    · exact begins_cons rfl (by decide) _
  | object members =>
    rw [Value.writeAt, Layout.enclose]
    split
    · exact begins_cons rfl (by decide) _
    · exact begins_cons rfl (by decide) _

theorem readsItems_join {f : Value → Text} {g : Text} {vs : List Value} (hvs : vs ≠ [])
    (hf : ∀ v ∈ vs, ReadsTree (f v) (.ofValue v)) (hbegins : ∀ v, Begins (f v)) (hg : Gaps g) :
    ReadsItems (join [','] (vs.map f) ++ g) (.ofValues vs) ∧
      Begins (join [','] (vs.map f) ++ g) := by
  induction vs with
  | nil => exact absurd rfl hvs
  | cons v vs ih =>
    have hv := hf v List.mem_cons_self
    cases vs with
    | nil =>
      rw [List.map_singleton, join_singleton, Items.ofValues, Items.ofValues]
      exact ⟨.last hv hg, (hbegins v).append g⟩
    | cons w vs =>
      obtain ⟨hread, hbegin⟩ :=
        ih (List.cons_ne_nil w vs) fun u hu => hf u (List.mem_cons_of_mem v hu)
      rw [join_map_cons_cons, List.append_assoc, List.append_assoc, Items.ofValues]
      exact ⟨.more hv hbegin hread, (hbegins v).append _⟩

/-- The quote of the first key is left out, since it is read before the members are. -/
theorem readsMembers_join {f : Value → Text} {g g' : Text} {m : Text × Value}
    {ms : List (Text × Value)} (hf : ∀ n ∈ m :: ms, ReadsTree (f n.2) (.ofValue n.2)) (hg : Gaps g)
    (hg' : Gaps g') :
    ∃ t, join [','] ((m :: ms).map fun n => g ++ doubleQuote :: memberText n.1 (f n.2)) ++ g' =
      g ++ doubleQuote :: t ∧ ReadsMembers t (.ofValues (m :: ms)) := by
  induction ms generalizing m with
  | nil =>
    refine ⟨memberText m.1 (f m.2) ++ g', ?_, ?_⟩
    · rw [List.map_singleton, join_singleton, List.append_assoc, List.cons_append]
    · rw [Members.ofValues, Members.ofValues]
      exact .last (hf m List.mem_cons_self) hg'
  | cons n ms ih =>
    obtain ⟨t, ht, hread⟩ := ih (m := n) fun u hu => hf u (List.mem_cons_of_mem m hu)
    refine ⟨memberText m.1 (f m.2) ++ ',' :: (g ++ doubleQuote :: t), ?_, ?_⟩
    · rw [join_map_cons_cons, List.append_assoc, ht]
      simp only [List.append_assoc, List.cons_append, List.nil_append]
    · rw [Members.ofValues]
      exact .more (hf m List.mem_cons_self) hg hread

/-- A written value is read back, whatever follows it. -/
theorem readsTree_writeAt {l : Layout} (hl : l.Spaced) (depth : Nat) (v : Value) :
    ReadsTree (v.writeAt l depth) (.ofValue v) := by
  induction v using Value.induction generalizing depth with
  | number n => rw [Value.writeAt, Tree.ofValue]; exact readsTree_number n
  | string t => rw [Value.writeAt, Tree.ofValue]; exact readsTree_string t
  | array vs ih =>
    rw [Value.writeAt, Tree.ofValue, Layout.enclose, writeItems_eq_map]
    cases vs with
    | nil => exact readsTree_emptyArray
    | cons v vs =>
      rw [if_neg (by simp), List.map_map]
      obtain ⟨hread, hbegins⟩ := readsItems_join (List.cons_ne_nil v vs)
        (fun u hu => (ih u hu (depth + 1)).behind_gap (hl.newLine (depth + 1)))
        (fun u => (begins_writeAt l (depth + 1) u).behind_gap (hl.newLine (depth + 1)))
        (hl.newLine depth)
      exact hread.array hbegins
  | object ms ih =>
    rw [Value.writeAt, Tree.ofValue, Layout.enclose, writeMembers_eq_map]
    cases ms with
    | nil => exact readsTree_emptyObject
    | cons m ms =>
      rw [if_neg (by simp), List.map_map]
      obtain ⟨t, ht, hread⟩ := readsMembers_join
        (f := fun v => l.afterColon ++ v.writeAt l (depth + 1))
        (fun u hu => (ih u hu (depth + 1)).behind_gap hl.afterColon) (hl.newLine (depth + 1))
        (hl.newLine depth)
      have hobject := hread.object (hl.newLine (depth + 1))
      rw [← ht] at hobject
      exact hobject

/-- A whole written text is read as the tree of its value, in every layout. -/
theorem ofText_write {l : Layout} (hl : l.Spaced) (v : Value) :
    Tree.ofText (v.write l) = (.ofValue v, []) := by
  have hread := readsTree_writeAt hl 0 v (2 * (v.write l).length + 2) []
    (Nat.le_add_right _ 2) (by simp [EndsNumber])
  rwa [List.append_nil] at hread

/-- A written value is decoded from its text as from its tree, in every layout. -/
theorem decodeText_write {α : Type} {l : Layout} (hl : l.Spaced) (decode : Decoder α) (v : Value) :
    decodeText decode (v.write l) = decode (.ofValue v) := by
  rw [decodeText, ofText_write hl]
  cases h : decode (.ofValue v) with
  | error e => simp only [h]; rfl
  | ok a => simp only [h]; rfl

end FilterClause.Json
