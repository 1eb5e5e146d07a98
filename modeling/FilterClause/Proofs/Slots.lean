import FilterClause.Proofs.Pieces
import FilterClause.Proofs.Skeletons
import Mathlib.Data.List.DropRight

/-!
# Slots of a predicate

A slot is a token whose text may depend on what the literals hold; only calls make use of that, as
they keep literals among their arguments. What is written of items without an apostrophe has a
skeleton, in which the literals stand where they stand in the items.
-/

namespace FilterClause

open Text

/-! ## Items without an apostrophe -/

/-- Whether no item is an apostrophe. -/
def Item.Clear (items : List Item) : Prop := .char singleQuote ∉ items

namespace Item

theorem Clear.of_subset {xs ys : List Item} (hy : Clear ys) (h : xs ⊆ ys) : Clear xs :=
  fun hm => hy (h hm)

theorem Clear.ne_of_char {c : Char} {items : List Item} (h : Clear (.char c :: items)) :
    c ≠ singleQuote := by
  rintro rfl
  exact h List.mem_cons_self

theorem clear_map_char {t : Text} (h : Clear (t.map .char)) : singleQuote ∉ t :=
  fun hm => h (List.mem_map_of_mem hm)

/-- An item as a part of a skeleton. -/
def toPart : Item → Part
  | .char c => .char c
  | .literal index => .literal index

theorem text_map_toPart (literals : List Text) (items : List Item) :
    Skeleton.text literals (items.map toPart) = renderAll literals items := by
  rw [Skeleton.text, List.flatMap_map, renderAll]
  refine List.flatMap_congr fun i _ => ?_
  cases i <;> rfl

theorem Clear.skeleton {items : List Item} (h : Clear items) :
    Skeleton.Clear (items.map toPart) := by
  intro hm
  obtain ⟨i, hi, he⟩ := List.mem_map.mp hm
  cases i with
  | char c => exact h (Part.char.inj he ▸ hi)
  | literal index => cases he

theorem trimStart_renderAll (literals : List Text) (items : List Item) :
    trimStart (renderAll literals items) = renderAll literals (items.dropWhile isBlank) := by
  induction items with
  | nil => rfl
  | cons i items ih =>
    cases i with
    | char c =>
      cases hc : Text.isBlank c with
      | true =>
        have hi : isBlank (.char c) = true := hc
        rw [List.dropWhile_cons_of_pos hi, ← ih]
        exact List.dropWhile_cons_of_pos hc
      | false =>
        have hi : ¬ isBlank (.char c) = true := by simp [isBlank, hc]
        rw [List.dropWhile_cons_of_neg hi]
        exact List.dropWhile_cons_of_neg (by simp [hc])
    | literal index =>
      rw [List.dropWhile_cons_of_neg (by simp [isBlank])]
      exact List.dropWhile_cons_of_neg (by decide)

theorem trimEnd_renderAll (literals : List Text) (items : List Item) :
    trimEnd (renderAll literals items) = renderAll literals (items.rdropWhile isBlank) := by
  induction items using List.reverseRecOn with
  | nil => rfl
  | append_singleton items i ih =>
    rw [renderAll_append]
    cases i with
    | char c =>
      show dropEnd Text.isBlank (renderAll literals items ++ [c]) = _
      cases hc : Text.isBlank c with
      | true =>
        rw [List.rdropWhile_concat_pos _ _ _ (show isBlank (.char c) = true from hc), ← ih]
        exact dropEnd_append_of_all _ (by simpa using hc)
      | false =>
        rw [List.rdropWhile_concat_neg _ _ _ (by simp [isBlank, hc]), renderAll_append,
          dropEnd_append_stop _ hc]
        rfl
    | literal index =>
      have htext : renderAll literals [.literal index] =
          (singleQuote :: literals.getD index []) ++ [singleQuote] :=
        List.append_nil _
      rw [List.rdropWhile_concat_neg _ _ _ (by simp [isBlank]), renderAll_append, htext,
        ← List.append_assoc, trimEnd, dropEnd_append_stop _ (by decide)]
      rfl

/-- The sketch of items with no blanks at their ends. -/
def sketchTrimmed (items : List Item) : Sketch :=
  .fixed (((items.dropWhile isBlank).rdropWhile isBlank).map toPart)

theorem draws_sketchTrimmed {items : List Item} (h : Clear items) :
    (sketchTrimmed items).Draws fun literals => trim (renderAll literals items) where
  clear := by
    have hsub : (items.dropWhile isBlank).rdropWhile isBlank ⊆ items := fun i hi =>
      (List.dropWhile_sublist _).subset ((List.rdropWhile_prefix _ _).subset hi)
    exact (h.of_subset hsub).skeleton
  text_eq literals := by
    rw [sketchTrimmed, Sketch.text, Sketch.skeleton, text_map_toPart, ← trimEnd_renderAll,
      ← trimStart_renderAll]
    rfl

end Item

/-! ## Pieces of items without an apostrophe -/

namespace Piece

theorem clear_ofItems {xs : List Item} (h : Item.Clear xs) {p : Piece} (hp : p ∈ ofItems xs) :
    Item.Clear p.items := by
  have hwithin := within_ofItems hp
  have hbracket : ∀ c ∈ ['(', ')'], Item.char singleQuote ≠ .char c := by decide
  cases p with
  | text t =>
    have htext : singleQuote ∉ t := fun hm =>
      h (Bracket.mem_groups (mem_of_mem_outerChars (hwithin.subset hm)) (by simp))
    simpa [Item.Clear, items] using htext
  | literal index => simp [Item.Clear, items]
  | call name arguments =>
    have hname : singleQuote ∉ name := fun hm =>
      absurd (hwithin.2.1 _ hm) (by rw [isName_of_mem_marks _ (by decide)]; decide)
    have harguments : Item.char singleQuote ∉ arguments := fun hm =>
      h (Bracket.mem_groups hwithin.2.2 hm)
    simp [Item.Clear, items, hname, harguments, hbracket]
  | group inside =>
    have hinside : Item.char singleQuote ∉ inside := fun hm => h (Bracket.mem_groups hwithin hm)
    simp [Item.Clear, items, hinside, hbracket]

end Piece

/-! ## Slots -/

/-- A token whose text may depend on what the literals hold. -/
structure Slot where
  kind : TokenKind
  skeleton : Skeleton

namespace Slot

/-- The token of a slot, given the contents of the literals. -/
def token (literals : List Text) (s : Slot) : Token := ⟨s.kind, s.skeleton.text literals, 0⟩

/-- The slot of a token that does not depend on literals. -/
def ofToken (t : Token) : Slot := ⟨t.kind, t.text.map .char⟩

theorem token_ofToken (literals : List Text) (t : Token) :
    token literals (ofToken t) = ⟨t.kind, t.text, 0⟩ := by
  rw [token, ofToken, Skeleton.text_map_char]

/-- No apostrophe is in the skeleton of a slot, and only that of a call depends on literals. -/
structure Uniform (s : Slot) : Prop where
  clear : s.skeleton.Clear
  fixed : s.kind ≠ .call → ∃ t : Text, s.skeleton = t.map .char

theorem uniform_of_clear {kind : TokenKind} {t : Text} (h : singleQuote ∉ t) :
    Uniform ⟨kind, t.map .char⟩ :=
  ⟨(Sketch.Draws.ofText h).clear, fun _ => ⟨t, rfl⟩⟩

/-- A token that is no call is the same whatever the literals hold. -/
theorem Uniform.token_eq {s : Slot} (hs : s.Uniform) (hkind : s.kind ≠ .call)
    (literals literals' : List Text) : s.token literals = s.token literals' := by
  obtain ⟨t, ht⟩ := hs.fixed hkind
  rw [token, token, ht, Skeleton.text_map_char, Skeleton.text_map_char]

theorem Uniform.not_mem_text {s : Slot} (hs : s.Uniform) (hkind : s.kind ≠ .call) :
    singleQuote ∉ (s.token []).text := by
  obtain ⟨t, ht⟩ := hs.fixed hkind
  rw [token, ht, Skeleton.text_map_char]
  exact fun hm => hs.clear (ht ▸ List.mem_map_of_mem hm)

end Slot

/-- Tokens of a text hold characters of the text. -/
theorem Token.text_subset {offset : Nat} {t : Text} {k : Token} (h : k ∈ ofText offset t) :
    k.text ⊆ t := by
  unfold ofText at h
  induction t using scan_induction find? generalizing offset with
  | nil => cases h
  | pass c rest hf ih =>
    rw [scan_cons_of_none hf] at h
    exact List.subset_cons_of_subset _ (ih h)
  | take c rest found n hf ih =>
    rw [scan_cons_of_some hf] at h
    obtain ⟨⟨kind, m⟩, -, he⟩ := Option.map_eq_some_iff.mp hf
    obtain ⟨rfl, rfl⟩ := Prod.mk.inj he
    rcases List.mem_cons.mp h with rfl | h
    · exact List.take_subset _ _
    · exact List.subset_cons_of_subset _ (List.Subset.trans (ih h) (List.drop_subset _ _))

namespace Piece

/-- The slots of pieces whose groups are numbered from `index`. -/
def slots (index : Nat) : List Piece → List Slot
  | [] => []
  | .text t :: rest => (Token.ofText 0 t).map Slot.ofToken ++ slots index rest
  | .literal i :: rest => ⟨.literal i, []⟩ :: slots index rest
  | .call name arguments :: rest =>
    ⟨.call, (items (.call name arguments)).map Item.toPart⟩ :: slots index rest
  | .group _ :: rest => ⟨.group index, []⟩ :: slots (index + 1) rest

/-- The tokens of pieces are those of their slots, offsets aside. -/
theorem map_fill_slots (p : Places) (literals : List Text) (pieces : List Piece)
    (offset index : Nat) :
    (Token.behind offset (segmentsFrom literals index pieces)).map p.fill =
      ((slots index pieces).map (Slot.token literals)).map p.fill := by
  induction pieces generalizing offset index with
  | nil => rfl
  | cons piece pieces ih =>
    cases piece with
    | text t =>
      have htext : (((Token.ofText 0 t).map Slot.ofToken).map (Slot.token literals)).map p.fill =
          (Token.ofText 0 t).map p.fill := by
        rw [List.map_map, List.map_map]
        refine List.map_congr_left fun k _ => ?_
        rw [Function.comp_apply, Function.comp_apply, Slot.token_ofToken]
        rfl
      rw [segmentsFrom, Token.behind, List.map_append, ih, slots, List.map_append, List.map_append,
        Lexeme.map_fill_ofText, ← Lexeme.map_fill_ofText p 0, htext]
    | literal i =>
      rw [segmentsFrom, Token.behind, List.map_cons, ih]
      rfl
    | call name arguments =>
      rw [segmentsFrom, Token.behind, List.map_cons, ih, slots, List.map_cons, List.map_cons,
        Slot.token, Item.text_map_toPart, renderAll_call]
      rfl
    | group inside =>
      rw [segmentsFrom, Token.behind, List.map_cons, ih]
      rfl

theorem uniform_slots {pieces : List Piece} (h : ∀ p ∈ pieces, Item.Clear p.items)
    (index : Nat) : ∀ s ∈ slots index pieces, s.Uniform := by
  induction pieces generalizing index with
  | nil => exact nofun
  | cons piece pieces ih =>
    obtain ⟨hp, hpieces⟩ := List.forall_mem_cons.mp h
    cases piece with
    | text t =>
      intro s hs
      rcases List.mem_append.mp hs with hs | hs
      · obtain ⟨k, hk, rfl⟩ := List.mem_map.mp hs
        exact Slot.uniform_of_clear fun hm =>
          Item.clear_map_char hp (Token.text_subset hk hm)
      · exact ih hpieces index s hs
    | literal i =>
      exact List.forall_mem_cons.mpr
        ⟨Slot.uniform_of_clear List.not_mem_nil, ih hpieces index⟩
    | call name arguments =>
      exact List.forall_mem_cons.mpr ⟨⟨hp.skeleton, fun hk => absurd rfl hk⟩, ih hpieces index⟩
    | group inside =>
      exact List.forall_mem_cons.mpr
        ⟨Slot.uniform_of_clear List.not_mem_nil, ih hpieces (index + 1)⟩

end Piece

end FilterClause
