import FilterClause.Proofs.RowLimits
import FilterClause.Proofs.Words

/-!
# Runs of a class

The characters outside a class cut a text into the maximal runs of the class. A keyword is
recognised where it is a run of word characters, or of name characters. So a text without such a
run holds none, and it is read as the words that it holds (`ofText_eq_words`).
-/

namespace FilterClause

open Text

namespace Text

/-- The maximal runs of a class, the empty ones between other characters included. -/
def runsOf (p : Char → Bool) (t : Text) : List Text := t.splitOnP fun c => !p c

section Class

variable {p : Char → Bool}

/-- Induction along the runs of a text. -/
theorem runs_induction (p : Char → Bool) {motive : Text → Prop}
    (whole : ∀ w, (∀ c ∈ w, p c = true) → motive w)
    (cut : ∀ w d rest, (∀ c ∈ w, p c = true) → p d = false → motive rest →
      motive (w ++ d :: rest)) (t : Text) : motive t := by
  have hrun : ∀ w, (∀ c ∈ w, p c = true) → motive (w ++ t) := by
    induction t with
    | nil =>
      intro w hw
      rw [List.append_nil]
      exact whole w hw
    | cons d t ih =>
      intro w hw
      cases hd : p d with
      | false => exact cut w d t hw hd (ih [] nofun)
      | true =>
        have hmore := ih (w ++ [d]) fun c hc => by
          rcases List.mem_append.mp hc with hc | hc
          · exact hw c hc
          · rw [List.mem_singleton.mp hc, hd]
        rwa [List.append_assoc] at hmore
  exact hrun [] nofun

theorem runsOf_of_forall {w : Text} (h : ∀ c ∈ w, p c = true) : runsOf p w = [w] :=
  List.splitOnP_eq_singleton fun c hc => by rw [h c hc]; rfl

theorem runsOf_cut {d : Char} (hd : p d = false) (s t : Text) :
    runsOf p (s ++ d :: t) = runsOf p s ++ runsOf p t :=
  List.splitOnP_append_cons s t (by rw [hd]; rfl)

/-- A run stands between characters outside the class. -/
theorem mem_runsOf_iff {r t : Text} :
    r ∈ runsOf p t ↔ ∃ u v, t = u ++ r ++ v ∧ (∀ c ∈ r, p c = true) ∧
      (∀ c ∈ u.getLast?, p c = false) ∧ ∀ c ∈ v.head?, p c = false := by
  constructor
  · intro h
    induction t using runs_induction p with
    | whole w hw =>
      rw [runsOf_of_forall hw, List.mem_singleton] at h
      exact ⟨[], [], by simp [h], h ▸ hw, nofun, nofun⟩
    | cut w d rest hw hd ih =>
      rw [runsOf_cut hd, runsOf_of_forall hw, List.mem_append, List.mem_singleton] at h
      rcases h with rfl | h
      · refine ⟨[], d :: rest, rfl, hw, nofun, fun c hc => ?_⟩
        rwa [← Option.some.inj hc]
      · obtain ⟨u, v, rfl, hr, hu, hv⟩ := ih h
        refine ⟨w ++ d :: u, v, by simp, hr, fun c hc => ?_, hv⟩
        rcases List.eq_nil_or_concat u with rfl | ⟨u, e, rfl⟩
        · rw [List.getLast?_concat] at hc
          rwa [← Option.some.inj hc]
        · refine hu c ?_
          simpa [List.getLast?_cons] using hc
  · rintro ⟨u, v, rfl, hr, hu, hv⟩
    have hback : r ∈ runsOf p (r ++ v) := by
      cases v with
      | nil =>
        rw [List.append_nil, runsOf_of_forall hr]
        exact List.mem_singleton_self r
      | cons d v =>
        rw [runsOf_cut (hv d rfl), runsOf_of_forall hr]
        exact List.mem_cons_self
    rcases List.eq_nil_or_concat u with rfl | ⟨u, d, rfl⟩
    · rwa [List.nil_append]
    · have hd : p d = false := hu d (by simp)
      rw [List.concat_eq_append, List.append_assoc, List.append_assoc, List.singleton_append,
        runsOf_cut hd]
      exact List.mem_append_right _ hback

/-- A run of a class that lies in a smaller one is a run of that one. -/
theorem mem_runsOf_of_le {q : Char → Bool} (hpq : ∀ c, p c = true → q c = true) {r t : Text}
    (h : r ∈ runsOf q t) (hr : ∀ c ∈ r, p c = true) : r ∈ runsOf p t := by
  have hp : ∀ c, q c = false → p c = false := by
    intro c hc
    cases hpc : p c with
    | false => rfl
    | true => rw [hpq c hpc] at hc; cases hc
  obtain ⟨u, v, ht, -, hu, hv⟩ := mem_runsOf_iff.mp h
  exact mem_runsOf_iff.mpr ⟨u, v, ht, hr, fun c hc => hp c (hu c hc), fun c hc => hp c (hv c hc)⟩

end Class

/-- Whether no run of a class spells a keyword. -/
def Lacks (p : Char → Bool) (keyword t : Text) : Prop :=
  ∀ r ∈ runsOf p t, r.map foldLetter ≠ keyword

instance (p : Char → Bool) (keyword t : Text) : Decidable (Lacks p keyword t) :=
  inferInstanceAs (Decidable (∀ r ∈ runsOf p t, r.map foldLetter ≠ keyword))

/-- A text of the class lacks every other keyword. -/
theorem Lacks.of_forall {p : Char → Bool} {keyword t : Text} (h : ∀ c ∈ t, p c = true)
    (hne : t.map foldLetter ≠ keyword) : Lacks p keyword t := by
  intro r hr
  rw [runsOf_of_forall h, List.mem_singleton] at hr
  rwa [hr]

theorem Lacks.of_cut {p : Char → Bool} {keyword s t : Text} {d : Char} (hd : p d = false)
    (h : Lacks p keyword (s ++ d :: t)) : Lacks p keyword t :=
  fun r hr => h r (by rw [runsOf_cut hd]; exact List.mem_append_right _ hr)

/-- Characters outside the class before a text hold no keyword. -/
theorem Lacks.append {p : Char → Bool} {keyword t : Text} (hne : keyword ≠ [])
    (h : Lacks p keyword t) {s : Text} (hs : ∀ c ∈ s, p c = false) :
    Lacks p keyword (s ++ t) := by
  induction s with
  | nil => exact h
  | cons c s ih =>
    obtain ⟨hc, hrest⟩ := List.forall_mem_cons.mp hs
    intro r hr
    have hcut := runsOf_cut hc [] (s ++ t)
    rw [List.nil_append] at hcut
    rw [List.cons_append, hcut] at hr
    rcases List.mem_append.mp hr with hr | hr
    · rw [runsOf_of_forall (p := p) (w := []) nofun, List.mem_singleton] at hr
      rw [hr]
      exact hne.symm
    · exact ih hrest r hr

/-- The words of a text: its runs of characters that words are made of. -/
def words (t : Text) : List Text := (runsOf Token.isWordPart t).filter fun w => !w.isEmpty

/-- A word stands between characters that no word is made of. -/
theorem words_cut {d : Char} (hd : Token.isWordPart d = false) (s t : Text) :
    words (s ++ d :: t) = words s ++ words t := by
  rw [words, runsOf_cut hd, List.filter_append]
  rfl

theorem words_of_forall {w : Text} (hne : w ≠ []) (h : ∀ c ∈ w, Token.isWordPart c = true) :
    words w = [w] := by
  rw [words, runsOf_of_forall h, List.filter_singleton, List.isEmpty_eq_false_iff.mpr hne]
  rfl

theorem mem_words {w t : Text} (h : w ∈ words t) :
    w ∈ runsOf Token.isWordPart t ∧ w ≠ [] ∧ ∀ c ∈ w, Token.isWordPart c = true := by
  obtain ⟨hmem, hne⟩ := List.mem_filter.mp h
  obtain ⟨-, -, -, hw, -, -⟩ := mem_runsOf_iff.mp hmem
  exact ⟨hmem, by simpa using hne, hw⟩

end Text

/-! ## Keywords that are no run -/

/-- Where no run of word characters is LIKE, none starts the text. -/
theorem Token.likeLength?_of_lacks {t : Text} (h : Lacks Text.isWord ['l', 'i', 'k', 'e'] t) :
    likeLength? t = none := by
  unfold likeLength?
  cases hs : stripKeyword ['l', 'i', 'k', 'e'] t with
  | none => rfl
  | some rest =>
    obtain ⟨w, rfl, hw⟩ := stripKeyword_eq_some_iff.mp hs
    have hword : ∀ c ∈ w, Text.isWord c = true := fun c hc =>
      isWord_of_foldLetter (foldLetter_mem_of_spelling hw (by decide) c hc)
    dsimp only
    cases hrest : startsWithWord rest with
    | true => rfl
    | false =>
      have hhead : ∀ c ∈ rest.head?, Text.isWord c = false := by
        intro c hc
        rwa [startsWithWord, Option.mem_def.mp hc] at hrest
      have hfront : ∀ c ∈ ([] : Text).getLast?, Text.isWord c = false := by simp
      exact absurd hw (h w (mem_runsOf_iff.mpr ⟨[], rest, rfl, hword, hfront, hhead⟩))

/-- Where no run of name characters is WHERE, none stands alone. -/
theorem Subselect.whereFree_of_lacks {t : Text}
    (h : Lacks isName ['w', 'h', 'e', 'r', 'e'] t) : WhereFree false (t.map .char) := by
  have key : ∀ v u : Text, t = u ++ v → WhereFree (u.getLast?.any isName) (v.map .char) := by
    intro v
    induction v with
    | nil => exact fun _ _ => trivial
    | cons c v ih =>
      intro u hu
      constructor
      · cases hstart : startsWithWhere ((c :: v).map .char) with
        | false => exact .inr hstart
        | true =>
          left
          obtain ⟨w, rest, hv, hw, hrest⟩ := exists_of_startsWithWhere hstart
          have hname : ∀ d ∈ w, isName d = true := fun d hd =>
            isName_of_foldLetter (foldLetter_mem_of_spelling hw (by decide) d hd)
          by_contra hlast
          refine h w (mem_runsOf_iff.mpr ⟨u, rest, ?_, hname, fun d hd => ?_, hrest⟩) hw
          · rw [hu, hv, List.append_assoc]
          · simpa [Option.mem_def.mp hd] using hlast
      · have := ih (u ++ [c]) (by rw [hu, List.append_assoc]; rfl)
        rwa [List.getLast?_append, List.getLast?_singleton, Option.some_or] at this
  exact key t [] rfl

/-- Behind a character that neither a keyword nor a number is made of, there is no row limit where no
run of word characters is LIMIT. -/
theorem RowLimit.limit_of_lacks {c : Char} (hc : isStop c = true)
    (hfold : foldLetter c ∉ ['l', 'i', 'm', 'i', 't']) {t : Text}
    (h : Lacks Text.isWord ['l', 'i', 'm', 'i', 't'] t) (s : Text) :
    (detach (s ++ c :: t)).2 = none := by
  cases hd : detach (s ++ c :: t) with
  | mk body limit =>
    cases limit with
    | none => rfl
    | some limit =>
      exfalso
      obtain ⟨before, after, hsplit, -, ⟨keyword, gap, digits, rfl, hkeyword, hgapNe, hgap, -,
        hdigits⟩, hbefore, hafter⟩ := exists_of_detach hd
      have hletters : ∀ d ∈ keyword, foldLetter d ∈ ['l', 'i', 'm', 'i', 't'] := fun d hd =>
        hkeyword ▸ List.mem_map_of_mem hd
      have hnot : c ∉ keyword ++ (gap ++ digits ++ after) := by
        obtain ⟨hblank, hdigit⟩ := isStop_iff.mp hc
        intro hm
        simp only [List.mem_append] at hm
        rcases hm with hm | (hm | hm) | hm
        · exact hfold (hletters c hm)
        · rw [hgap c hm] at hblank
          cases hblank
        · rw [hdigits c hm] at hdigit
          cases hdigit
        · rw [hafter c hm] at hblank
          cases hblank
      have heq : s ++ c :: t = before ++ (keyword ++ (gap ++ digits ++ after)) := by
        simpa using hsplit
      obtain ⟨u, rfl, ht⟩ := exists_of_append_right hnot heq.symm
      refine h keyword (mem_runsOf_iff.mpr ⟨u, gap ++ digits ++ after, ?_, ?_, ?_, ?_⟩) hkeyword
      · rw [List.append_assoc]
        exact ht
      · exact fun d hd => isWord_of_foldLetter
          (foldLetter_mem_of_spelling hkeyword (by decide) d hd)
      · intro d hd
        refine hbefore d ?_
        rw [List.getLast?_append, List.getLast?_cons, Option.mem_def.mp hd]
        rfl
      · intro d hd
        obtain ⟨g, gs, rfl⟩ := List.exists_cons_of_ne_nil hgapNe
        rw [← Option.some.inj hd]
        exact isWord_of_isBlank (hgap g List.mem_cons_self)

/-! ## Texts read as words -/

namespace Lexeme

/-- A character that starts no operator and that no word is made of is dropped. -/
theorem ofText_cons_of_dropped {c : Char} (hc : Token.isWordPart c = false) {rest : Text}
    (h : Token.operatorLength? (c :: rest) = none) : ofText (c :: rest) = ofText rest := by
  have hcall : Token.callLength? (c :: rest) = none := by
    simp [Token.callLength?, not_isWord_of_not_isWordPart hc]
  have hword : Token.wordLength? (c :: rest) = none := by
    simp [Token.wordLength?, hc]
  refine ofText_cons_of_none ?_
  rw [Token.find?, Token.lexeme?, h, hcall, hword]
  rfl

/-- A run of characters of words is read as one word, if it is not LIKE. -/
theorem ofText_run {w : Text} (hw : ∀ c ∈ w, Token.isWordPart c = true)
    (hlike : Token.likeLength? w = none) : ofText w = (words w).map .word := by
  cases w with
  | nil => rfl
  | cons c w =>
    have hword := @ofText_word_append (c :: w) [] (List.cons_ne_nil c w) hw nofun
    rw [List.append_nil] at hword
    rw [hword hlike, words_of_forall (List.cons_ne_nil c w) hw]
    rfl

/-- A run before a character that is dropped is read as one word, if it is not LIKE. -/
theorem ofText_run_append {w : Text} (hw : ∀ c ∈ w, Token.isWordPart c = true) {d : Char}
    (hd : Token.isWordPart d = false) (hopen : d ≠ '(') {rest : Text}
    (hlike : w ≠ [] → Token.likeLength? (w ++ d :: rest) = none)
    (hoperator : Token.operatorLength? (d :: rest) = none) :
    ofText (w ++ d :: rest) = (words w).map .word ++ ofText rest := by
  cases w with
  | nil => exact ofText_cons_of_dropped hd hoperator
  | cons c w =>
    have hne := List.cons_ne_nil c w
    have hhead : ∀ e ∈ (d :: rest).head?, Token.isWordPart e = false ∧ e ≠ '(' := by
      intro e he
      obtain rfl : d = e := Option.some.inj he
      exact ⟨hd, hopen⟩
    rw [ofText_word_append hne hw hhead (hlike hne), ofText_cons_of_dropped hd hoperator,
      words_of_forall hne hw]
    rfl

/-- A text without marks in which no LIKE is a run is read as its words. -/
theorem ofText_eq_words {t : Text} (hmarks : ∀ c ∈ t, c ∉ marks)
    (hlike : Lacks Text.isWord ['l', 'i', 'k', 'e'] t) : ofText t = (words t).map .word := by
  induction t using runs_induction Token.isWordPart with
  | whole w hw => exact ofText_run hw (Token.likeLength?_of_lacks hlike)
  | cut w d rest hw hd ih =>
    have hmark : d ∉ marks := hmarks d (by simp)
    have hoperator : Token.operatorLength? (d :: rest) = none := by
      have hfold : foldLetter d ≠ 'l' := by
        intro h
        have hletter := isWord_of_foldLetter (c := d) (by rw [h]; decide)
        rw [not_isWord_of_not_isWordPart hd] at hletter
        cases hletter
      rw [Token.operatorLength?_of_not_mem_marks hmark]
      simp [Token.likeLength?, stripKeyword, hfold]
    rw [ofText_run_append hw hd (fun h => hmark (h ▸ by decide))
      (fun _ => Token.likeLength?_of_lacks hlike) hoperator, words_cut hd, List.map_append,
      ih (fun c hc => hmarks c (by simp [hc])) (hlike.of_cut (not_isWord_of_not_isWordPart hd))]

end Lexeme

end FilterClause
