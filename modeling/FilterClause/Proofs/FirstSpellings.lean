import FilterClause.Text.Basic
import Mathlib.Data.List.Basic

/-!
# First spellings

Names are kept one after the other unless they are spelled like one that is there. What is kept is
told by which spellings count as one (`alike`) and which of them are taken from the start
(`taken`): a name of a taken spelling is skipped (`FirstSpellings.skip`), and another one is kept
and takes its spelling (`FirstSpellings.keep`).
-/

namespace FilterClause

/-- What is kept of names: some of them in order, none of a taken spelling or the spelling of
another kept one, and the first of every spelling that is not taken. -/
structure FirstSpellings (alike : Text → Text → Bool) (taken : Text → Prop)
    (names kept : List Text) : Prop where
  sublist : kept.Sublist names
  new : ∀ name ∈ kept, ¬ taken name
  distinct : kept.Pairwise fun earlier later => alike earlier later = false
  complete : ∀ name ∈ names, ¬ taken name →
    ∃ first ∈ kept, names.find? (alike · name) = some first

namespace FirstSpellings

variable {alike : Text → Text → Bool} {taken : Text → Prop} {names kept : List Text} {t : Text}

theorem find?_of_not_alike {s : Text} (h : ¬ alike t s = true) (names : List Text) :
    (t :: names).find? (alike · s) = names.find? (alike · s) := List.find?_cons_of_neg h

theorem nil : FirstSpellings alike taken [] [] := ⟨.slnil, nofun, .nil, nofun⟩

theorem skip (h : FirstSpellings alike taken names kept) (ht : taken t)
    (halike : ∀ s, alike t s = true → taken s) :
    FirstSpellings alike taken (t :: names) kept where
  sublist := h.sublist.cons t
  new := h.new
  distinct := h.distinct
  complete := by
    refine List.forall_mem_cons.mpr ⟨fun hnot => absurd ht hnot, fun s hs hnot => ?_⟩
    obtain ⟨first, hfirst, hfind⟩ := h.complete s hs hnot
    exact ⟨first, hfirst, (find?_of_not_alike (fun hs => hnot (halike s hs)) names).trans hfind⟩

theorem keep {taken' : Text → Prop} (h : FirstSpellings alike taken' names kept)
    (htaken : ∀ s, taken' s ↔ taken s ∨ alike t s = true) (ht : ¬ taken t)
    (hself : alike t t = true) : FirstSpellings alike taken (t :: names) (t :: kept) where
  sublist := h.sublist.cons_cons t
  new := List.forall_mem_cons.mpr
    ⟨ht, fun s hs htaken' => h.new s hs ((htaken s).mpr (.inl htaken'))⟩
  distinct := List.pairwise_cons.mpr ⟨fun s hs => Bool.eq_false_iff.mpr fun hsame =>
    h.new s hs ((htaken s).mpr (.inr hsame)), h.distinct⟩
  complete := by
    intro s hs hnot
    by_cases hsame : alike t s = true
    · exact ⟨t, List.mem_cons_self, List.find?_cons_of_pos hsame⟩
    · have hs' : s ∈ names := (List.mem_cons.mp hs).resolve_left fun he => hsame (he ▸ hself)
      have hnot' : ¬ taken' s := fun htaken' => ((htaken s).mp htaken').elim hnot hsame
      obtain ⟨first, hfirst, hfind⟩ := h.complete s hs' hnot'
      exact ⟨first, List.mem_cons_of_mem _ hfirst, (find?_of_not_alike hsame names).trans hfind⟩

/-- Every name has a spelling that is taken or one that a kept name has. -/
theorem taken_or_exists (h : FirstSpellings alike taken names kept) {name : Text}
    (hname : name ∈ names) : taken name ∨ ∃ first ∈ kept, alike first name = true := by
  by_cases htaken : taken name
  · exact .inl htaken
  · obtain ⟨first, hfirst, hfind⟩ := h.complete name hname htaken
    exact .inr ⟨first, hfirst, by simpa using List.find?_some hfind⟩

end FirstSpellings

end FilterClause
