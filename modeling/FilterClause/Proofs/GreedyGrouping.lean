import FilterClause.Proofs.Grouping
import Mathlib.Data.List.Forall2

/-!
# The greedy partition

Tokens are cut at every connective that has a left-hand side before it, as far as its slice goes
back, and the start of a condition behind it. Cut like this, a token list falls into slices in one
way only (`Slices.Greedy.unique`), and grouping finds them (`Condition.parts_greedy`).
-/

namespace FilterClause

open Text

namespace Condition

/-- Two tokens or more, or a group on its own. -/
def IsComplete (ts : List Token) : Prop := 2 ≤ ts.length ∨ ∃ g, ts = [g] ∧ g.isGroup = true

/-- A word and an operator, or a group, and anything behind. -/
def Begins (ts : List Token) : Prop :=
  (∃ w o rest, ts = w :: o :: rest ∧ w.isWord = true ∧ o.isOperator = true) ∨
    ∃ g rest, ts = g :: rest ∧ g.isGroup = true

theorem isLeftSide_iff {ts : List Token} : isLeftSide ts = true ↔ IsComplete ts := by
  rcases ts with _ | ⟨t, _ | ⟨u, ts⟩⟩ <;> simp [isLeftSide, IsComplete]

theorem startsHere_iff {ts : List Token} : startsHere ts = true ↔ Begins ts := by
  rcases ts with _ | ⟨t, _ | ⟨u, ts⟩⟩ <;> simp [startsHere, Begins]

theorem IsComplete.ne_nil {ts : List Token} (h : IsComplete ts) : ts ≠ [] := by
  rintro rfl
  simp [IsComplete] at h

theorem Begins.append {ts : List Token} (h : Begins ts) (us : List Token) : Begins (ts ++ us) := by
  rcases h with ⟨w, o, rest, rfl, hw, ho⟩ | ⟨g, rest, rfl, hg⟩
  · exact .inl ⟨w, o, rest ++ us, rfl, hw, ho⟩
  · exact .inr ⟨g, rest ++ us, rfl, hg⟩

/-- Whether something begins is told by a complete start of it. -/
theorem begins_of_append {ts us : List Token} (hts : IsComplete ts) (h : Begins (ts ++ us)) :
    Begins ts := by
  rcases hts with hlen | ⟨g, rfl, hg⟩
  · obtain ⟨t, u, ts, rfl⟩ : ∃ t u ts', ts = t :: u :: ts' := by
      rcases ts with _ | ⟨t, _ | ⟨u, ts⟩⟩ <;> simp at hlen ⊢
    simpa [Begins] using h
  · exact .inr ⟨g, [], rfl, hg⟩

theorem isComplete_reverse {ts : List Token} : IsComplete ts.reverse ↔ IsComplete ts := by
  simp [IsComplete, List.reverse_eq_iff]

/-- A connective cuts where something complete stands before it and a condition begins behind. -/
def Cuts (front : List Token) (k : Token) (behind : List Token) : Prop :=
  k.connective?.isSome = true ∧ IsComplete front ∧ Begins behind

theorem separates_iff {back rest : List Token} {t : Token} :
    separates back t rest = true ↔ Cuts back.reverse t rest := by
  rw [separates, Bool.and_eq_true, Bool.and_eq_true, isLeftSide_iff, startsHere_iff, Cuts,
    isComplete_reverse, and_assoc]

instance : DecidablePred IsComplete := fun _ => decidable_of_iff _ isLeftSide_iff

instance : DecidablePred Begins := fun _ => decidable_of_iff _ startsHere_iff

instance (front : List Token) (k : Token) (behind : List Token) : Decidable (Cuts front k behind) :=
  decidable_of_iff (separates front.reverse k behind = true) (by simp [separates_iff])

end Condition

open Condition

/-- A token list in slices: the first one, and each further one with the token before it. -/
structure Slices where
  first : List Token
  rest : List (Token × List Token)

namespace Slices

/-- The tokens behind the first slice. -/
def behind (rest : List (Token × List Token)) : List Token := rest.flatMap fun cut => cut.1 :: cut.2

/-- The tokens of all slices, and those between them. -/
def tokens (s : Slices) : List Token := s.first ++ behind s.rest

/-- The slices in order. -/
def all (s : Slices) : List (List Token) := s.first :: s.rest.map Prod.snd

/-- Every slice with the tokens behind it. -/
def places : List Token → List (Token × List Token) → List (List Token × List Token)
  | slice, [] => [(slice, [])]
  | slice, cut :: rest => (slice, behind (cut :: rest)) :: places cut.2 rest

/-- No token of a slice cuts: what stands before it starts with the slice, and what stands behind it
goes on with the tokens after the slice. -/
def Uncut (slice after : List Token) : Prop :=
  ∀ front k back, slice = front ++ k :: back → ¬ Cuts front k (back ++ after)

/-- Slices between connectives that could be cut nowhere else. -/
@[mk_iff]
structure Greedy (s : Slices) : Prop where
  nonempty : ∀ slice ∈ s.all, slice ≠ []
  connective : ∀ cut ∈ s.rest, cut.1.connective?.isSome = true
  complete : ∀ slice ∈ s.all.dropLast, IsComplete slice
  begins : ∀ slice ∈ s.all.tail, Begins slice
  uncut : ∀ place ∈ places s.first s.rest, Uncut place.1 place.2

/-- A chain has what is made of each slice, and the connectives that the tokens between spell. -/
structure Gives {α : Type} (s : Slices) (f : List Token → α) (c : Chain α) : Prop where
  first : c.first = f s.first
  rest : List.Forall₂ (fun part cut => cut.1.connective? = some part.1 ∧ part.2 = f cut.2)
    c.rest s.rest

theorem uncut_iff {slice after : List Token} : Uncut slice after ↔
    ∀ i, ∀ h : i < slice.length, ¬ Cuts (slice.take i) slice[i] (slice.drop (i + 1) ++ after) := by
  constructor
  · intro h i hi
    exact h _ _ _ (by rw [List.cons_getElem_drop_succ, List.take_append_drop])
  · rintro h front k back rfl
    simpa using h front.length (by simp)

instance (slice after : List Token) : Decidable (Uncut slice after) :=
  decidable_of_iff _ uncut_iff.symm

instance : DecidablePred Greedy := fun s => decidable_of_iff _ (greedy_iff s).symm

theorem uncut_nil (after : List Token) : Uncut [] after := fun _ _ _ h => by simp at h

/-- A slice grows by a token that does not cut it. -/
theorem Uncut.snoc {slice after : List Token} {t : Token} (h : Uncut slice (t :: after))
    (ht : ¬ Cuts slice t after) : Uncut (slice ++ [t]) after := by
  intro front k back hslice
  rcases cut_of_append hslice with ⟨as, hfront, hlast⟩ | ⟨back', hback, rfl⟩
  · obtain ⟨rfl, hk⟩ := List.append_eq_singleton_iff.mp hlast.symm |>.resolve_right (by simp)
    obtain ⟨rfl, rfl⟩ := List.cons.inj hk
    rwa [hfront, List.append_nil]
  · rw [List.append_assoc]
    exact h front k back' hback

theorem tokens_cons (slice next : List Token) (k : Token) (rest : List (Token × List Token)) :
    tokens ⟨slice, (k, next) :: rest⟩ = slice ++ k :: tokens ⟨next, rest⟩ := rfl

theorem greedy_single {slice : List Token} :
    Greedy ⟨slice, []⟩ ↔ slice ≠ [] ∧ Uncut slice [] := by
  constructor
  · exact fun h => ⟨h.nonempty slice List.mem_cons_self, h.uncut _ List.mem_cons_self⟩
  · rintro ⟨hne, huncut⟩
    exact ⟨List.forall_mem_singleton.mpr hne, nofun, nofun, nofun,
      List.forall_mem_singleton.mpr huncut⟩

theorem greedy_cons {slice next : List Token} {k : Token} {rest : List (Token × List Token)} :
    Greedy ⟨slice, (k, next) :: rest⟩ ↔
      Cuts slice k next ∧ Uncut slice (k :: tokens ⟨next, rest⟩) ∧ Greedy ⟨next, rest⟩ := by
  constructor
  · intro h
    obtain ⟨hconnective, hconnectives⟩ := List.forall_mem_cons.mp h.connective
    obtain ⟨hcomplete, hcompletes⟩ := List.forall_mem_cons.mp h.complete
    obtain ⟨hbegins, hbegin⟩ := List.forall_mem_cons.mp h.begins
    obtain ⟨huncut, huncuts⟩ := List.forall_mem_cons.mp h.uncut
    exact ⟨⟨hconnective, hcomplete, hbegins⟩, huncut,
      fun s hs => h.nonempty s (List.mem_cons_of_mem _ hs), hconnectives, hcompletes, hbegin,
      huncuts⟩
  · rintro ⟨⟨hconnective, hcomplete, hbegins⟩, huncut, h⟩
    exact ⟨List.forall_mem_cons.mpr ⟨IsComplete.ne_nil hcomplete, h.nonempty⟩,
      List.forall_mem_cons.mpr ⟨hconnective, h.connective⟩,
      List.forall_mem_cons.mpr ⟨hcomplete, h.complete⟩,
      List.forall_mem_cons.mpr ⟨hbegins, h.begins⟩,
      List.forall_mem_cons.mpr ⟨huncut, h.uncut⟩⟩

theorem Greedy.uncut_first {s : Slices} (h : s.Greedy) : Uncut s.first (behind s.rest) := by
  obtain ⟨slice, rest⟩ := s
  cases rest with
  | nil => exact h.uncut _ List.mem_cons_self
  | cons cut rest => exact h.uncut _ List.mem_cons_self

theorem Greedy.tokens_ne_nil {s : Slices} (h : s.Greedy) : s.tokens ≠ [] :=
  List.append_ne_nil_of_left_ne_nil (h.nonempty s.first List.mem_cons_self) _

/-- Where a condition begins with the tokens, it begins with the first slice. -/
theorem Greedy.begins_first {s : Slices} (h : s.Greedy) (hbegins : Begins s.tokens) :
    Begins s.first := by
  obtain ⟨slice, rest⟩ := s
  cases rest with
  | nil => simpa [tokens, behind] using hbegins
  | cons cut rest => exact begins_of_append (greedy_cons.mp h).1.2.1 hbegins

/-! ## There is one such partition at most -/

/-- A slice that is uncut does not reach beyond the first cut of another partition. -/
theorem Uncut.exists_front {a b next v : List Token} {k : Token}
    {rest : List (Token × List Token)} (hb : Uncut b v) (hcut : Cuts a k next)
    (h : b ++ v = tokens ⟨a, (k, next) :: rest⟩) :
    ∃ front, a = b ++ front ∧ v = front ++ k :: tokens ⟨next, rest⟩ := by
  refine (cut_of_append h).resolve_right ?_
  rintro ⟨back, hback, hnext⟩
  obtain ⟨hk, ha, hbegins⟩ := hcut
  exact hb a k back hback ⟨hk, ha, hnext ▸ hbegins.append _⟩

theorem Greedy.unique {s s' : Slices} (hs : s.Greedy) (hs' : s'.Greedy)
    (h : s.tokens = s'.tokens) : s = s' := by
  obtain ⟨a, rest⟩ := s
  obtain ⟨b, rest'⟩ := s'
  induction rest generalizing a b rest' with
  | nil =>
    cases rest' with
    | nil =>
      have hab : a = b := by simpa [tokens, behind] using h
      rw [hab]
    | cons cut' rest' =>
      obtain ⟨hcut', -⟩ := greedy_cons.mp hs'
      obtain ⟨front, -, hbehind⟩ := hs.uncut_first.exists_front hcut' h
      exact absurd hbehind (by simp [behind])
  | cons cut rest ih =>
    obtain ⟨hcut, -, hrest⟩ := greedy_cons.mp hs
    obtain ⟨front, hfront, hbehind⟩ := hs'.uncut_first.exists_front hcut h.symm
    cases rest' with
    | nil => exact absurd hbehind (by simp [behind])
    | cons cut' rest' =>
      obtain ⟨hcut', -, hrest'⟩ := greedy_cons.mp hs'
      obtain ⟨front', hfront', -⟩ := hs.uncut_first.exists_front hcut' h
      dsimp only at hfront hfront'
      -- each of the first slices reaches as far as the other
      obtain rfl : front = [] := by
        have hlen := congrArg List.length hfront
        have hlen' := congrArg List.length hfront'
        rw [List.length_append] at hlen hlen'
        exact List.length_eq_zero_iff.mp (by omega)
      rw [List.append_nil] at hfront
      subst hfront
      obtain ⟨hk, htokens⟩ := List.cons.inj (List.append_cancel_left h)
      obtain ⟨hnext, hrests⟩ := Slices.mk.inj (ih _ hrest _ _ hrest' htokens)
      rw [Prod.ext hk hnext, hrests]

/-! ## Grouping finds it -/

/-- A scan keeps the slice that it collects uncut, and cuts it as soon as it can. -/
theorem exists_greedy (back ts : List Token) (hne : back.reverse ++ ts ≠ [])
    (hback : Uncut back.reverse ts) :
    ∃ s : Slices, s.Greedy ∧ s.tokens = back.reverse ++ ts ∧ s.Gives id (splitBehind back ts) := by
  induction ts generalizing back with
  | nil =>
    rw [List.append_nil] at hne ⊢
    exact ⟨⟨back.reverse, []⟩, greedy_single.mpr ⟨hne, hback⟩, List.append_nil _, rfl, .nil⟩
  | cons t ts ih =>
    cases hsep : separates back t ts with
    | false =>
      have hcut : ¬ Cuts back.reverse t ts := fun h =>
        Bool.false_ne_true (hsep.symm.trans (separates_iff.mpr h))
      obtain ⟨s, hs, htokens, hgives⟩ := ih (t :: back) (by simp)
        (List.reverse_cons ▸ hback.snoc hcut)
      refine ⟨s, hs, by simpa using htokens, ?_⟩
      rwa [splitBehind_cons_of_not hsep]
    | true =>
      obtain ⟨⟨k, hk⟩, -, hts⟩ := of_separates hsep
      obtain ⟨hconnective, hcomplete, hbegins⟩ := separates_iff.mp hsep
      obtain ⟨⟨next, rest⟩, hs, htokens, hgives⟩ := ih [] hts (uncut_nil ts)
      rw [List.reverse_nil, List.nil_append] at htokens
      refine ⟨⟨back.reverse, (t, next) :: rest⟩,
        greedy_cons.mpr ⟨⟨hconnective, hcomplete, hs.begins_first (htokens ▸ hbegins)⟩,
          htokens ▸ hback, hs⟩, ?_, ?_⟩
      · rw [tokens_cons, htokens]
      · rw [splitBehind_cons hk hsep]
        exact ⟨rfl, .cons ⟨hk, hgives.first⟩ hgives.rest⟩

theorem Gives.map {α β : Type} {s : Slices} {f : List Token → α} {c : Chain α}
    (h : s.Gives f c) (g : α → β) : s.Gives (g ∘ f) (c.map g) := by
  refine ⟨congrArg g h.first, List.forall₂_map_left_iff.mpr (h.rest.imp ?_)⟩
  rintro ⟨k, a⟩ cut ⟨hk, ha⟩
  exact ⟨hk, congrArg g ha⟩

end Slices

namespace Condition

/-- The conditions of a list of tokens as texts, none if it is empty. -/
def parts (places : Places) (options : Options) (tokens : List Token) : Option (Chain Text) :=
  (split tokens).map (Chain.map (render places options))

/-- What is written is the text of the parts. -/
theorem renderAll_eq_parts (places : Places) (options : Options) (tokens : List Token) :
    renderAll places options tokens = ((parts places options tokens).map Chain.text).getD [] := by
  rw [renderAll, parts]
  cases split tokens <;> rfl

theorem parts_eq_none_iff {places : Places} {options : Options} {tokens : List Token} :
    parts places options tokens = none ↔ tokens = [] := by
  simp [parts, split]

/-- Tokens fall into greedy slices in one way, and the parts are the conditions of these slices
with the connectives between them. -/
theorem parts_greedy (places : Places) (options : Options) (tokens : List Token) :
    renderAll places options tokens = ((parts places options tokens).map Chain.text).getD [] ∧
      (parts places options tokens = none ↔ tokens = []) ∧
      (tokens ≠ [] → ∃! s : Slices, s.tokens = tokens ∧ s.Greedy) ∧
      ∀ s : Slices, s.tokens = tokens → s.Greedy →
        ∃ chain, parts places options tokens = some chain ∧
          s.Gives (render places options) chain := by
  have found : tokens ≠ [] → ∃ s : Slices, s.tokens = tokens ∧ s.Greedy ∧
      ∃ chain, parts places options tokens = some chain ∧
        s.Gives (render places options) chain := by
    intro hne
    obtain ⟨s, hs, htokens, hgives⟩ := Slices.exists_greedy [] tokens hne (Slices.uncut_nil tokens)
    refine ⟨s, htokens, hs, _, ?_, hgives.map (render places options)⟩
    simp [parts, split, hne]
  refine ⟨renderAll_eq_parts places options tokens, parts_eq_none_iff, ?_, ?_⟩
  · intro hne
    obtain ⟨s, htokens, hs, -⟩ := found hne
    exact ⟨s, ⟨htokens, hs⟩, fun s' hs' => hs'.2.unique hs (hs'.1.trans htokens.symm)⟩
  · intro s htokens hs
    obtain ⟨s', htokens', hs', hparts⟩ := found (htokens ▸ hs.tokens_ne_nil)
    rwa [hs.unique hs' (htokens.trans htokens'.symm)]

/-- A connective with no condition behind it stays within its slice, one before a group does not. -/
theorem parts_greedy_salt :
    let tokens := Token.ofSegments [.text "Name = Salt or Pepper and ".toList, .group 0]
    let s : Slices := ⟨tokens.take 5, [(⟨.word, "and".toList, 22⟩, [⟨.group 0, [], 26⟩])]⟩
    (s.tokens = tokens ∧ s.Greedy) ∧
      ∃ chain, parts ⟨[], ["A = 1".toList]⟩ .standard tokens = some chain ∧
        s.Gives (render ⟨[], ["A = 1".toList]⟩ .standard) chain :=
  ⟨by decide +kernel, (parts_greedy _ _ _).2.2.2 _ (by decide +kernel) (by decide +kernel)⟩

end Condition

end FilterClause
