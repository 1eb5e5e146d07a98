import FilterClause.Proofs.SqlLiterals
import FilterClause.Proofs.Texts
import Mathlib.Data.List.Forall2

/-!
# Skeletons of cleaned text

A skeleton is cleaned text in which the contents of literals are left open. Its characters are the
same whatever the literals hold; a literal may stand in it as it is, or go into a quoted value. So
what comes from inside a literal can be read as anything else only if a literal ends too early.

What the literals hold may also decide between two ways to write something. A sketch leaves these
choices open as well, so it has finitely many skeletons and is made before the contents are known.
-/

namespace FilterClause

open Text

/-- One part of a skeleton. -/
inductive Part where
  /-- A character of its own. -/
  | char (c : Char)
  /-- A literal as it is, between apostrophes. -/
  | literal (index : Nat)
  /-- A quoted value, which may depend on what the literals hold. -/
  | value (content : List Text → Text)

namespace Part

/-- Whether a part is a character of its own. -/
def isChar : Part → Bool
  | .char _ => true
  | _ => false

/-- A part as text, given the contents of the literals. -/
def text (literals : List Text) : Part → Text
  | .char c => [c]
  | .literal index => Item.quoted literals index
  | .value content => quoteValue (content literals)

end Part

/-- Cleaned text with the contents of literals left open. -/
abbrev Skeleton := List Part

namespace Skeleton

variable (literals : List Text) (s : Skeleton)

/-- A skeleton as text, given the contents of the literals. -/
def text : Text := s.flatMap (Part.text literals)

/-- Whether each character of the text is written in a literal or a quoted value. -/
def quoted : List Bool := s.flatMap fun part => (part.text literals).map fun _ => !part.isChar

/-- The literals and quoted values one after the other, without what stands between them. -/
def quotedText : Text := (s.filter fun part => !part.isChar).flatMap (Part.text literals)

/-- No character of its own is an apostrophe. -/
def Clear : Prop := .char singleQuote ∉ s

/-- All that is written in literals and quoted values is in literals when read as SQL, and no
literal is left open. -/
def Contained : Prop :=
  List.Forall₂ (fun written read => written = true → read = true) (quoted literals s)
    (Sql.inLiteral false (text literals s)) ∧
  Sql.openBehind false (text literals s) = false

/-- What is in literals when read as SQL is just what is written in literals and quoted values. -/
def ReadsAsWritten : Prop :=
  Sql.inLiteral false (text literals s) = quoted literals s ∧
  Sql.openBehind false (text literals s) = false

section Reading

variable {literals} {s}

theorem Clear.tail {part : Part} (h : Clear (part :: s)) : Clear s :=
  fun hm => h (List.mem_cons_of_mem _ hm)

theorem Clear.ne_of_char {c : Char} (h : Clear (.char c :: s)) : c ≠ singleQuote := by
  rintro rfl
  exact h List.mem_cons_self

theorem Clear.append {t : Skeleton} (hs : Clear s) (ht : Clear t) : Clear (s ++ t) :=
  fun hm => (List.mem_append.mp hm).elim hs ht

theorem text_append (t : Skeleton) : text literals (s ++ t) = text literals s ++ text literals t :=
  List.flatMap_append

theorem text_cons (part : Part) :
    text literals (part :: s) = part.text literals ++ text literals s :=
  List.flatMap_cons

theorem text_map_char (t : Text) : text literals (t.map .char) = t := by
  rw [text, List.flatMap_map]
  exact List.flatMap_singleton' t

section Part

variable {part : Part} (hpart : part.isChar = false)

include hpart

theorem quoted_cons_of_not_char :
    quoted literals (part :: s) =
      ((part.text literals).map fun _ => true) ++ quoted literals s := by
  rw [quoted, List.flatMap_cons, hpart]
  rfl

theorem quotedText_cons_of_not_char :
    quotedText literals (part :: s) = part.text literals ++ quotedText literals s := by
  rw [quotedText, List.filter_cons_of_pos (by rw [hpart]; rfl), List.flatMap_cons]
  rfl

end Part

theorem inLiteral_char {c : Char} (hc : c ≠ singleQuote) (isOpen : Bool) (t : Text) :
    Sql.inLiteral isOpen (c :: t) = isOpen :: Sql.inLiteral isOpen t := by
  rw [Sql.inLiteral_cons, beq_eq_false_iff_ne.mpr hc, Bool.or_false, Bool.xor_false]

theorem openBehind_char {c : Char} (hc : c ≠ singleQuote) (isOpen : Bool) (t : Text) :
    Sql.openBehind isOpen (c :: t) = Sql.openBehind isOpen t := by
  rw [Sql.openBehind_cons, beq_eq_false_iff_ne.mpr hc, Bool.xor_false]

/-- Truth on the left asks for truth on the right alone. -/
theorem forall₂_map_true {α : Type} {xs : List α} {bs : List Bool} (h : xs.length = bs.length) :
    List.Forall₂ (fun written read => written = true → read = true) (xs.map fun _ => true) bs ↔
      ∀ b ∈ bs, b = true := by
  induction xs generalizing bs with
  | nil =>
    obtain rfl := List.length_eq_zero_iff.mp h.symm
    simp
  | cons x xs ih =>
    cases bs with
    | nil => cases h
    | cons b bs =>
      rw [List.map_cons, List.forall₂_cons, ih (Nat.succ.inj h), List.forall_mem_cons]
      exact ⟨fun h => ⟨h.1 rfl, h.2⟩, fun h => ⟨fun _ => h.1, h.2⟩⟩

theorem forall₂_append_iff {r : Bool → Bool → Prop} {as bs cs ds : List Bool}
    (h : as.length = bs.length) :
    List.Forall₂ r (as ++ cs) (bs ++ ds) ↔ List.Forall₂ r as bs ∧ List.Forall₂ r cs ds := by
  induction as generalizing bs with
  | nil =>
    obtain rfl := List.length_eq_zero_iff.mp h.symm
    simp
  | cons a as ih =>
    cases bs with
    | nil => cases h
    | cons b bs => simp [ih (Nat.succ.inj h), and_assoc]

/-- The characters of its own do not matter to what is read of the rest. -/
theorem reading_iff (h : Clear s) (isOpen : Bool) :
    (List.Forall₂ (fun written read => written = true → read = true) (quoted literals s)
        (Sql.inLiteral isOpen (text literals s)) ↔
      ∀ b ∈ Sql.inLiteral isOpen (quotedText literals s), b = true) ∧
    Sql.openBehind isOpen (text literals s) = Sql.openBehind isOpen (quotedText literals s) := by
  induction s generalizing isOpen with
  | nil => cases isOpen <;> simp [quoted, text, quotedText, Sql.inLiteral]
  | cons part s ih =>
    have hquote : part.isChar = false →
        (List.Forall₂ (fun written read => written = true → read = true)
          (quoted literals (part :: s)) (Sql.inLiteral isOpen (text literals (part :: s))) ↔
          ∀ b ∈ Sql.inLiteral isOpen (quotedText literals (part :: s)), b = true) ∧
        Sql.openBehind isOpen (text literals (part :: s)) =
          Sql.openBehind isOpen (quotedText literals (part :: s)) := by
      intro hpart
      obtain ⟨hread, hopen⟩ := ih h.tail (Sql.openBehind isOpen (part.text literals))
      rw [text_cons, quoted_cons_of_not_char hpart, quotedText_cons_of_not_char hpart,
        Sql.inLiteral_append, Sql.inLiteral_append, Sql.openBehind_append, Sql.openBehind_append,
        forall₂_append_iff (by simp), forall₂_map_true (by simp), hread, hopen,
        List.forall_mem_append]
      exact ⟨Iff.rfl, rfl⟩
    cases part with
    | char c =>
      have hc := h.ne_of_char
      obtain ⟨hread, hopen⟩ := ih h.tail isOpen
      have htext : text literals (.char c :: s) = c :: text literals s := rfl
      have hquoted : quoted literals (.char c :: s) = false :: quoted literals s := rfl
      have hrest : quotedText literals (.char c :: s) = quotedText literals s := rfl
      rw [htext, hquoted, hrest, inLiteral_char hc, openBehind_char hc, List.forall₂_cons, hread,
        hopen]
      exact ⟨⟨fun h => h.2, fun h => ⟨Bool.noConfusion, h⟩⟩, rfl⟩
    | literal index => exact hquote rfl
    | value content => exact hquote rfl

/-- What is quoted is contained exactly if it is literals from end to end with nothing between. -/
theorem contained_iff (h : Clear s) :
    Contained literals s ↔ Sql.Enclosed (quotedText literals s) := by
  obtain ⟨hread, hopen⟩ := @reading_iff literals s h false
  rw [Contained, Sql.Enclosed, hread, hopen]

/-- Where the literals that are written as they are have their apostrophes in pairs, the text is
read as it is written. -/
theorem readsAsWritten (h : Clear s)
    (hpaired : ∀ index, .literal index ∈ s → Sql.isPaired (literals.getD index []) = true) :
    ReadsAsWritten literals s := by
  induction s with
  | nil => exact ⟨rfl, rfl⟩
  | cons part s ih =>
    obtain ⟨hread, hopen⟩ := ih h.tail fun index hm => hpaired index (List.mem_cons_of_mem _ hm)
    have hquote : part.isChar = false → Sql.Enclosed (part.text literals) →
        ReadsAsWritten literals (part :: s) := by
      intro hpart hclosed
      have hall : Sql.inLiteral false (part.text literals) =
          (part.text literals).map fun _ => true := by
        rw [List.map_const', List.eq_replicate_iff, Sql.length_inLiteral]
        exact ⟨rfl, hclosed.1⟩
      rw [ReadsAsWritten, text_cons, quoted_cons_of_not_char hpart, Sql.inLiteral_append,
        Sql.openBehind_append, hclosed.2, hread, hopen, hall]
      exact ⟨rfl, rfl⟩
    cases part with
    | char c =>
      have hc := h.ne_of_char
      have htext : text literals (.char c :: s) = c :: text literals s := rfl
      rw [ReadsAsWritten, htext, inLiteral_char hc, openBehind_char hc, hread]
      exact ⟨rfl, hopen⟩
    | literal index =>
      exact hquote rfl ((Sql.enclosed_iff _).mpr (hpaired index List.mem_cons_self))
    | value content => exact hquote rfl (Sql.isLiteral_quoteValue _).enclosed

end Reading

end Skeleton

/-! ## Sketches -/

/-- Cleaned text before it is known what the literals hold, which may also decide between two ways
to go on. -/
inductive Sketch where
  | fixed (s : Skeleton)
  | append (k l : Sketch)
  | choice (p : List Text → Bool) (k l : Sketch)

namespace Sketch

/-- The skeletons that a sketch can come to. -/
def skeletons : Sketch → List Skeleton
  | fixed s => [s]
  | append k l => k.skeletons.flatMap fun s => l.skeletons.map (s ++ ·)
  | choice _ k l => k.skeletons ++ l.skeletons

/-- The skeleton that a sketch comes to, given the contents of the literals. -/
def skeleton (literals : List Text) : Sketch → Skeleton
  | fixed s => s
  | append k l => k.skeleton literals ++ l.skeleton literals
  | choice p k l => if p literals then k.skeleton literals else l.skeleton literals

/-- A sketch as text, given the contents of the literals. -/
def text (literals : List Text) (k : Sketch) : Text := (k.skeleton literals).text literals

/-- No skeleton has an apostrophe among its own characters. -/
def Clear : Sketch → Prop
  | fixed s => s.Clear
  | append k l => k.Clear ∧ l.Clear
  | choice _ k l => k.Clear ∧ l.Clear

/-- Whatever the literals hold, a sketch comes to one of finitely many skeletons. -/
theorem skeleton_mem (literals : List Text) (k : Sketch) : k.skeleton literals ∈ k.skeletons := by
  induction k with
  | fixed s => exact List.mem_singleton_self s
  | append k l hk hl => exact List.mem_flatMap.mpr ⟨_, hk, List.mem_map_of_mem hl⟩
  | choice p k l hk hl =>
    rw [skeleton, skeletons]
    split
    · exact List.mem_append_left _ hk
    · exact List.mem_append_right _ hl

theorem Clear.of_mem {k : Sketch} (h : Clear k) : ∀ s ∈ k.skeletons, s.Clear := by
  induction k with
  | fixed s => exact List.forall_mem_singleton.mpr h
  | append k l hk hl =>
    intro u hu
    obtain ⟨s, hs, hu⟩ := List.mem_flatMap.mp hu
    obtain ⟨t, ht, rfl⟩ := List.mem_map.mp hu
    exact (hk h.1 s hs).append (hl h.2 t ht)
  | choice p k l hk hl =>
    exact List.forall_mem_append.mpr ⟨hk h.1, hl h.2⟩

/-- The sketch of a text that does not depend on the literals. -/
def ofText (t : Text) : Sketch := fixed (t.map .char)

/-- The sketch of a literal as it is. -/
def literal (index : Nat) : Sketch := fixed [.literal index]

/-- The sketch of a quoted value. -/
def value (content : List Text → Text) : Sketch := fixed [.value content]

/-- Sketches with a space between neighbours. -/
def joinSpaced : List Sketch → Sketch
  | [] => ofText []
  | [k] => k
  | k :: l :: ks => append k (append (ofText [' ']) (joinSpaced (l :: ks)))

/-- Whether a sketch without apostrophes of its own is that of a text that depends on what the
literals hold. -/
structure Draws (k : Sketch) (f : List Text → Text) : Prop where
  clear : k.Clear
  text_eq : ∀ literals, f literals = k.text literals

namespace Draws

variable {k l : Sketch} {f g : List Text → Text}

theorem ofText {t : Text} (h : singleQuote ∉ t) : Draws (ofText t) fun _ => t where
  clear := by
    intro hm
    obtain ⟨c, hc, he⟩ := List.mem_map.mp hm
    exact h (Part.char.inj he ▸ hc)
  text_eq _ := (Skeleton.text_map_char t).symm

theorem nil : Draws (Sketch.ofText []) fun _ => [] := .ofText List.not_mem_nil

theorem literal (index : Nat) :
    Draws (Sketch.literal index) fun literals => Item.quoted literals index where
  clear := by simp [Sketch.literal, Clear, Skeleton.Clear]
  text_eq _ := (List.append_nil _).symm

theorem value (content : List Text → Text) :
    Draws (Sketch.value content) fun literals => quoteValue (content literals) where
  clear := by simp [Sketch.value, Clear, Skeleton.Clear]
  text_eq _ := (List.append_nil _).symm

theorem append (hk : Draws k f) (hl : Draws l g) :
    Draws (.append k l) fun literals => f literals ++ g literals where
  clear := ⟨hk.clear, hl.clear⟩
  text_eq literals := by
    rw [hk.text_eq, hl.text_eq]
    exact (Skeleton.text_append _).symm

/-- What the literals hold may decide between two texts. -/
theorem choice (p : List Text → Bool) (hk : Draws k f) (hl : Draws l g) :
    Draws (.choice p k l) fun literals => if p literals then f literals else g literals where
  clear := ⟨hk.clear, hl.clear⟩
  text_eq literals := by
    rw [hk.text_eq, hl.text_eq, Sketch.text, Sketch.text, Sketch.text, skeleton]
    split <;> rfl

theorem joinSpaced {ks : List Sketch} {fs : List (List Text → Text)}
    (h : List.Forall₂ Draws ks fs) :
    Draws (.joinSpaced ks) fun literals => Text.joinSpaced (fs.map fun f => f literals) := by
  induction h with
  | nil => exact nil
  | @cons k f ks fs hk hks ih =>
    cases hks with
    | nil =>
      simp only [List.map_cons, List.map_nil, joinSpaced_singleton]
      exact hk
    | cons hl hls =>
      have hspace : Draws (Sketch.ofText [' ']) fun _ => [' '] := .ofText (by decide)
      simp only [List.map_cons, joinSpaced_cons_cons]
      exact hk.append (hspace.append ih)

end Draws

end Sketch

end FilterClause
