import FilterClause.Proofs.Fragments
import FilterClause.Proofs.LooseBrackets

/-!
# Blanks around a clause

Blanks at the ends of items give no token, no group and no cut, and from a lead they are trimmed
away. So a clause is cleaned the same with blanks before it (`clause_blanks_append`), and if its
brackets balance also with blanks behind it (`clause_append_blanks`), whatever it holds besides.
-/

namespace FilterClause

open Text

/-! ## Pieces -/

namespace Piece

variable {γ : Type} {F : Piece → List γ} (hF : PartsAtBlanks F) {bs : Text}
  (hbs : ∀ b ∈ bs, isBlank b = true)

include hF hbs

theorem flatMap_ofItems_blanks_append (items : List Item) :
    (ofItems (bs.map .char ++ items)).flatMap F = (ofItems items).flatMap F := by
  induction bs with
  | nil => rfl
  | cons b bs ih =>
    have hb := hbs b List.mem_cons_self
    have hcut := flatMap_ofItems_append hF hb .nil (bs.map .char ++ items)
    rw [List.nil_append] at hcut
    exact hcut.trans (ih fun c hc => hbs c (List.mem_cons_of_mem _ hc))

theorem flatMap_ofItems_append_blanks {items : List Item} (hb : Bracket.Balanced items) :
    (ofItems (items ++ bs.map .char)).flatMap F = (ofItems items).flatMap F := by
  cases bs with
  | nil => rw [List.map_nil, List.append_nil]
  | cons b bs =>
    have hrest := flatMap_ofItems_blanks_append hF
      (fun c hc => hbs c (List.mem_cons_of_mem _ hc)) []
    rw [List.append_nil] at hrest
    rw [List.map_cons, flatMap_ofItems_append hF (hbs b List.mem_cons_self) hb, hrest]
    exact List.append_nil _

end Piece

/-! ## Clauses -/

namespace Cleaned

variable (literals : List Text) (options : Options) (interior : List Item → Cleaned)

/-- Items from which the same is read at blanks are cleaned the same, if their brackets balance or if
neither's do. -/
theorem predicate_of_read {xs ys : List Item}
    (hread : ∀ {γ : Type} {F : Piece → List γ}, Piece.PartsAtBlanks F →
      (Piece.ofItems xs).flatMap F = (Piece.ofItems ys).flatMap F)
    (hbalanced : Bracket.Balanced xs ↔ Bracket.Balanced ys) :
    predicate literals options interior xs = predicate literals options interior ys := by
  have hgroups : groupsOf interior xs = groupsOf interior ys := by
    rw [groupsOf, Piece.filterMap_interior?, hread Piece.partsAtBlanks_interior,
      ← Piece.filterMap_interior?, groupsOf]
  have htokens := map_fill_tokensOf literals interior xs
  rw [lexemesOf, hread (Piece.partsAtBlanks_lexemes _ _), ← lexemesOf, ← map_fill_tokensOf]
    at htokens
  have hloose : (Piece.ofItems xs).any Piece.hasLooseBracket =
      (Piece.ofItems ys).any Piece.hasLooseBracket := by
    rw [Bool.eq_iff_iff, ← not_iff_not, Bool.not_eq_true, Bool.not_eq_true,
      Piece.not_hasLooseBracket_iff, Piece.not_hasLooseBracket_iff, hbalanced]
  rw [predicate_eq, predicate_eq, condition_renderAll_congr htokens options, hgroups, hloose]

section Start

variable {l : Text} (hl : ∀ c ∈ l, isBlank c = true) (items : List Item)

include hl

theorem predicate_blanks_append :
    predicate literals options interior (l.map .char ++ items) =
      predicate literals options interior items :=
  predicate_of_read literals options interior
    (fun hF => Piece.flatMap_ofItems_blanks_append hF hl items)
    ⟨.of_items_append (Item.not_bracket_of_mem_blanks hl),
      (Bracket.balanced_of_no_brackets (Item.not_bracket_of_mem_blanks hl)).append⟩

/-- Blanks before a clause do not matter, also where it is cut behind WHERE. -/
theorem clause_blanks_append :
    clause literals options interior (l.map .char ++ items) =
      clause literals options interior items := by
  have hbracket := Item.not_bracket_of_mem_blanks hl
  have hleft := Subselect.split_append_left (Item.isName_of_mem_blanks hl)
    (fun h => (hbracket _ h).1 rfl) (fun h => (hbracket _ h).2 rfl) items
  cases hleads : (Subselect.split items).1 with
  | nil =>
    rw [hleads] at hleft
    simp only [clause, hleft, hleads, predicate_blanks_append literals options interior hl]
  | cons lead leads =>
    rw [hleads] at hleft
    have hlead : trim (Item.renderAll literals (l.map .char ++ lead)) =
        trim (Item.renderAll literals lead) := by
      rw [Item.renderAll_append, Item.renderAll_map_char]
      exact dropEnds_append_of_all hl _
    simp only [clause, hleft, hleads, List.map_cons, hlead]

end Start

section End

variable {r : Text} (hr : ∀ c ∈ r, isBlank c = true) {items : List Item}
  (hb : Bracket.Balanced items)

include hr hb

theorem predicate_append_blanks :
    predicate literals options interior (items ++ r.map .char) =
      predicate literals options interior items :=
  predicate_of_read literals options interior
    (fun hF => Piece.flatMap_ofItems_append_blanks hF hr hb)
    ⟨fun _ => hb, fun hb =>
      hb.append (Bracket.balanced_of_no_brackets (Item.not_bracket_of_mem_blanks hr))⟩

/-- Blanks behind a clause do not matter, if no bracket reaches over them. -/
theorem clause_append_blanks :
    clause literals options interior (items ++ r.map .char) =
      clause literals options interior items := by
  have hright := Subselect.split_append (Item.isName_of_mem_blanks hr) items
  have hpred := predicate_append_blanks literals options interior hr (Subselect.balanced_split hb).2
  simp only [clause, hright, hpred]

end End

end Cleaned

/-- Blanks at the ends of a text with balanced brackets do not matter. -/
theorem Fragment.cleaned_trim (options : Options) (levels : Nat) {t : Text}
    (h : Bracket.Balanced (Lifted.items t)) :
    cleaned options (levels + 1) (Text.trim t) = cleaned options (levels + 1) t := by
  obtain ⟨l, r, ht, hl, hr⟩ := exists_eq_append_dropEnds isBlank t
  have hleft := Plain.of_blanks hl
  have hright := Plain.of_blanks hr
  have hliterals : literals t = literals (Text.trim t) := by
    conv_lhs => rw [ht]
    exact literals_padded hleft hright _
  have hitems : Lifted.items t =
      l.map .char ++ (Lifted.items (Text.trim t) ++ r.map .char) := by
    conv_lhs => rw [ht]
    exact items_padded hleft hright _
  rw [ht] at h
  have hb : Bracket.Balanced (Lifted.items (Text.trim t)) := balanced_of_padded hleft hright h
  rw [cleaned, cleaned, hliterals, hitems, Cleaned.group, Cleaned.group,
    Cleaned.clause_blanks_append _ _ _ hl, Cleaned.clause_append_blanks _ _ _ hr hb]

end FilterClause
