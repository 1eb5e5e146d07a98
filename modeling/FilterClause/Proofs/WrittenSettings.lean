import FilterClause.Proofs.Inputs
import FilterClause.Proofs.Texts
import Mathlib.Data.List.Count

/-!
# Settings written as arguments

Settings are spelled by options in their long form, every value attached to its option, and by the
files behind `--`. The options may come in any order, as long as the values of one option keep
theirs. Arguments are read as the settings that they spell, whatever the values look like, and as
no others (`Settings.ofArguments_spelled`): every option adds its value to what has been given
before it (`Draft.Grows`).
-/

namespace FilterClause

open Text

/-- The name of a format. -/
def Format.name : Format → Text
  | .text => "text".toList
  | .json => "json".toList

theorem Format.ofName?_eq_some_iff {t : Text} {f : Format} : ofName? t = some f ↔ t = f.name := by
  unfold ofName?
  split_ifs with htext hjson
  · cases f <;> simp [htext, name]
  · cases f <;> simp [hjson, name]
  · cases f <;> simp_all [name]

theorem Format.name_injective : Function.Injective Format.name := fun _ _ h =>
  Option.some.inj ((ofName?_eq_some_iff.mpr rfl).symm.trans (ofName?_eq_some_iff.mpr h))

namespace Settings

/-! ## Options in their long form -/

/-- An option with its value, if it takes one. -/
inductive Choice where
  | on (s : Switch)
  | value (v : Valued) (t : Text)
deriving DecidableEq

/-- The option as an argument, its value attached. -/
def Choice.argument : Choice → Text
  | on s => '-' :: '-' :: s.name
  | value v t => '-' :: '-' :: (v.name ++ '=' :: t)

/-- The values that are given to an option, in order. -/
def valuesOf (v : Valued) (cs : List Choice) : List Text :=
  cs.filterMap fun
    | .on _ => none
    | .value w t => if w = v then some t else none

/-- Whether a switch is on. -/
def isOn (s : Settings) : Switch → Bool
  | .withWhere => s.withWhere
  | .compact => s.compact
  | .quiet => s.quiet

/-- Settings that arguments can give: no path is empty, and no column holds a comma. -/
structure Writable (s : Settings) : Prop where
  files : ∀ path ∈ s.files, path ≠ []
  config : ∀ path ∈ s.config, path ≠ []
  output : ∀ path ∈ s.output, path ≠ []
  columns : ∀ column ∈ s.columns, ',' ∉ column

/-- Options that spell settings. The order among different options is free. The format may be left
out where it is text, and one option may name several columns. -/
structure SpelledBy (s : Settings) (cs : List Choice) : Prop where
  switches : ∀ w, cs.count (.on w) = (s.isOn w).toNat
  format : valuesOf .format cs = [s.format.name] ∨
    valuesOf .format cs = [] ∧ s.format = .text
  config : valuesOf .config cs = s.config.toList
  output : valuesOf .output cs = s.output.toList
  exprs : valuesOf .expr cs = s.exprs
  dateFields : valuesOf .dateField cs = s.dateFields
  columns : ∃ groups : List (List Text), (∀ g ∈ groups, g ≠ []) ∧ groups.flatten = s.columns ∧
    valuesOf .columns cs = groups.map (join [','])

/-- The values that settings hold for an option. -/
def given (s : Settings) : Valued → List Text
  | .expr => s.exprs
  | .format => [s.format.name]
  | .dateField => s.dateFields
  | .config => s.config.toList
  | .columns => s.columns
  | .output => s.output.toList

/-- The options of settings one kind after the other, with every column on its own. -/
def choices (s : Settings) : List Choice :=
  [.expr, .format, .dateField, .config, .columns, .output].flatMap (fun v =>
    (s.given v).map (.value v)) ++ ([.withWhere, .compact, .quiet].filter s.isOn).map .on

theorem mem_valuesOf {v : Valued} {t : Text} {cs : List Choice} :
    t ∈ valuesOf v cs ↔ .value v t ∈ cs := by
  rw [valuesOf, List.mem_filterMap]
  constructor
  · rintro ⟨_ | ⟨w, u⟩, hc, ht⟩
    · cases ht
    · dsimp only at ht
      split_ifs at ht with hw
      cases ht
      exact hw ▸ hc
  · exact fun h => ⟨_, h, if_pos rfl⟩

theorem valuesOf_append (v : Valued) (cs ds : List Choice) :
    valuesOf v (cs ++ ds) = valuesOf v cs ++ valuesOf v ds := List.filterMap_append

theorem valuesOf_map_value (v w : Valued) (ts : List Text) :
    valuesOf v (ts.map (.value w)) = if w = v then ts else [] := by
  rw [valuesOf, List.filterMap_map]
  split
  · next h => simp [h]
  · next h => simp [h]

theorem valuesOf_map_on (v : Valued) (ws : List Switch) : valuesOf v (ws.map .on) = [] := by
  rw [valuesOf, List.filterMap_map]
  simp

theorem valuesOf_choices (s : Settings) (v : Valued) : valuesOf v s.choices = s.given v := by
  cases v <;>
    simp [choices, valuesOf_append, valuesOf_map_value, valuesOf_map_on]

theorem count_choices (s : Settings) (w : Switch) :
    s.choices.count (.on w) = (s.isOn w).toNat := by
  have hvalue : ∀ (v : Valued) (ts : List Text), (ts.map (Choice.value v)).count (.on w) = 0 := by
    simp [List.count_eq_zero]
  have hon : ∀ ws : List Switch, (ws.map Choice.on).count (.on w) = ws.count w := fun ws =>
    List.count_map_of_injective _ _ (fun _ _ h => Choice.on.inj h) w
  rw [choices, List.count_append, hon]
  cases hw : s.isOn w with
  | true =>
    rw [List.count_filter hw]
    cases w <;> simp [hvalue]
  | false =>
    have hnot : w ∉ [.withWhere, .compact, .quiet].filter s.isOn := by simp [hw]
    rw [List.count_eq_zero.mpr hnot]
    simp [hvalue]

theorem spelledBy_choices (s : Settings) : s.SpelledBy s.choices where
  switches := s.count_choices
  format := .inl (s.valuesOf_choices .format)
  config := s.valuesOf_choices .config
  output := s.valuesOf_choices .output
  exprs := s.valuesOf_choices .expr
  dateFields := s.valuesOf_choices .dateField
  columns := by
    refine ⟨s.columns.map fun column => [column], by simp, ?_, ?_⟩
    · rw [← List.flatMap_def, List.flatMap_singleton']
    · rw [valuesOf_choices, List.map_map]
      simp [given, join, Function.comp_def]

/-! ## Reading one option after the other -/

namespace Draft

/-- What has been given to an option so far. -/
def given (d : Draft) : Valued → List Text
  | .expr => d.exprs
  | .format => d.format.toList.map Format.name
  | .dateField => d.dateFields
  | .config => d.config.toList
  | .columns => d.columns
  | .output => d.output.toList

/-- Whether a switch has been turned on. -/
def isOn (d : Draft) : Switch → Bool
  | .withWhere => d.withWhere
  | .compact => d.compact
  | .quiet => d.quiet

/-- Takes up one option. -/
def choose (d : Draft) : Choice → Except NoRun Draft
  | .on s => d.turnOn s
  | .value v t => d.give v t

end Draft

/-- What a value adds to what has been given to its option. -/
def entries (v : Valued) (t : Text) : List Text := if v = .columns then split ',' t else [t]

/-- Whether an option takes a value. -/
def Takes : Valued → Text → Prop
  | .config, t | .output, t => t ≠ []
  | .format, t => ∃ f : Format, t = f.name
  | _, _ => True

theorem flatMap_entries {v : Valued} (hv : v ≠ .columns) (ts : List Text) :
    ts.flatMap (entries v) = ts := by
  have hentries : entries v = fun t => [t] := funext fun t => if_neg hv
  rw [hentries, List.flatMap_singleton']

namespace Draft

theorem given_empty (v : Valued) : empty.given v = [] := by cases v <;> rfl

/-- What options add to a draft. As a switch, a format or a path stands in a draft once at most,
they can come only once. -/
structure Grows (d : Draft) (cs : List Choice) (e : Draft) : Prop where
  files : e.files = d.files
  given : ∀ v, e.given v = d.given v ++ (valuesOf v cs).flatMap (entries v)
  isOn : ∀ w, (e.isOn w).toNat = (d.isOn w).toNat + cs.count (.on w)
  takes : ∀ v t, .value v t ∈ cs → Takes v t

/-- A switch is turned on. -/
theorem grows_of_turnOn {d e : Draft} {s : Switch} (h : d.turnOn s = .ok e) :
    d.Grows [.on s] e := by
  have hvalues : ∀ v, (valuesOf v [.on s]).flatMap (entries v) = [] := fun v => rfl
  cases s <;>
  · simp only [turnOn] at h
    split at h
    · cases h
    · next hoff =>
      cases h
      refine ⟨rfl, fun v => ?_, fun w => ?_, by simp⟩
      · rw [hvalues, List.append_nil]
        cases v <;> rfl
      · cases w <;> simp [isOn, hoff]

/-- A value is added to those of its option, if the option takes it. -/
theorem grows_of_give {d e : Draft} {v : Valued} {t : Text} (h : d.give v t = .ok e) :
    d.Grows [.value v t] e := by
  have key : e.files = d.files ∧
      (∀ w, e.given w = d.given w ++ if v = w then entries w t else []) ∧
      (∀ s, e.isOn s = d.isOn s) ∧ Takes v t := by
    cases v <;> simp only [give] at h
    case expr | dateField | columns =>
      cases h
      exact ⟨rfl, fun w => by cases w <;> simp [given, entries], fun s => by cases s <;> rfl,
        trivial⟩
    case config | output =>
      split_ifs at h with hsome hempty
      cases h
      have hnone := Option.not_isSome_iff_eq_none.mp hsome
      exact ⟨rfl, fun w => by cases w <;> simp [given, entries, hnone],
        fun s => by cases s <;> rfl, by simpa [Takes] using hempty⟩
    case format =>
      split_ifs at h with hsome
      split at h
      · next f hf =>
        cases h
        have hnone := Option.not_isSome_iff_eq_none.mp hsome
        have hname := Format.ofName?_eq_some_iff.mp hf
        exact ⟨rfl, fun w => by cases w <;> simp [given, entries, hnone, hname],
          fun s => by cases s <;> rfl, f, hname⟩
      · cases h
  obtain ⟨hfiles, hgiven, hon, htakes⟩ := key
  refine ⟨hfiles, fun w => ?_, fun s => ?_, fun w u hu => ?_⟩
  · rw [hgiven w]
    by_cases hw : v = w <;> simp [valuesOf, hw]
  · rw [hon s]
    simp
  · obtain ⟨rfl, rfl⟩ := Choice.value.inj (List.mem_singleton.mp hu)
    exact htakes

theorem Grows.of_choose {d e : Draft} {c : Choice} (h : d.choose c = .ok e) : d.Grows [c] e := by
  cases c with
  | on s => exact grows_of_turnOn h
  | value v t => exact grows_of_give h

/-- What options add together is what the first adds and then the others. -/
theorem Grows.cons_iff {d m e : Draft} {c : Choice} {cs : List Choice} (h : d.Grows [c] m) :
    d.Grows (c :: cs) e ↔ m.Grows cs e := by
  have hgiven : ∀ v, d.given v ++ (valuesOf v (c :: cs)).flatMap (entries v) =
      m.given v ++ (valuesOf v cs).flatMap (entries v) := by
    intro v
    rw [← List.singleton_append, valuesOf_append, List.flatMap_append, h.given v, List.append_assoc]
  have hcount : ∀ w, (d.isOn w).toNat + (c :: cs).count (.on w) =
      (m.isOn w).toNat + cs.count (.on w) := by
    intro w
    rw [← List.singleton_append, List.count_append, h.isOn w, Nat.add_assoc]
  constructor
  · intro he
    refine ⟨he.files.trans h.files.symm, fun v => (he.given v).trans (hgiven v),
      fun w => (he.isOn w).trans (hcount w), fun v t ht => he.takes v t (List.mem_cons_of_mem _ ht)⟩
  · intro he
    refine ⟨he.files.trans h.files, fun v => (he.given v).trans (hgiven v).symm,
      fun w => (he.isOn w).trans (hcount w).symm, fun v t ht => ?_⟩
    rcases List.mem_cons.mp ht with rfl | ht
    · exact h.takes v t List.mem_cons_self
    · exact he.takes v t ht

/-- A switch that comes has not been turned on before. -/
theorem Grows.isOn_eq_false {d e : Draft} {s : Switch} {cs : List Choice}
    (h : d.Grows (.on s :: cs) e) : d.isOn s = false := by
  have hcount := h.isOn s
  have hle := Bool.toNat_le (e.isOn s)
  rw [List.count_cons_self] at hcount
  cases hd : d.isOn s with
  | false => rfl
  | true =>
    rw [hd, Bool.toNat_true] at hcount
    omega

/-- Where a draft keeps one value of an option at most, it has none when one comes. -/
theorem Grows.eq_none {d e : Draft} {v : Valued} {t : Text} {cs : List Choice}
    (h : d.Grows (.value v t :: cs) e) (hv : v ≠ .columns) {o o' : Option Text}
    (ho : d.given v = o.toList) (ho' : e.given v = o'.toList) : o = none := by
  have hfirst : valuesOf v (.value v t :: cs) = t :: valuesOf v cs := by simp [valuesOf]
  have hlen := congrArg List.length (h.given v)
  have hle := Option.length_toList_le (o := o')
  rw [flatMap_entries hv, hfirst, ho, ho', List.length_append, List.length_cons] at hlen
  cases o with
  | none => rfl
  | some u =>
    rw [Option.toList_some, List.length_singleton] at hlen
    omega

/-- An option that may still come is taken up. -/
theorem Grows.exists_choose {d e : Draft} {c : Choice} {cs : List Choice}
    (h : d.Grows (c :: cs) e) : ∃ m, d.choose c = .ok m := by
  cases c with
  | on s => cases s <;> exact ⟨_, if_neg (Bool.eq_false_iff.mp h.isOn_eq_false)⟩
  | value v t =>
    have htakes := h.takes v t List.mem_cons_self
    cases v with
    | expr => exact ⟨_, rfl⟩
    | dateField => exact ⟨_, rfl⟩
    | columns => exact ⟨_, rfl⟩
    | config =>
      have hnone := h.eq_none (by decide) (rfl : _ = d.config.toList) (rfl : _ = e.config.toList)
      exact ⟨_, (if_neg (by simp [hnone])).trans (if_neg (mt List.isEmpty_iff.mp htakes))⟩
    | output =>
      have hnone := h.eq_none (by decide) (rfl : _ = d.output.toList) (rfl : _ = e.output.toList)
      exact ⟨_, (if_neg (by simp [hnone])).trans (if_neg (mt List.isEmpty_iff.mp htakes))⟩
    | format =>
      obtain ⟨f, hf⟩ := htakes
      have hnone : d.format.map Format.name = none :=
        h.eq_none (by decide) Option.toList_map.symm (Option.toList_map (o := e.format)).symm
      refine ⟨{ d with format := some f }, ?_⟩
      rw [choose, give, Format.ofName?_eq_some_iff.mpr hf, if_neg (by simpa using hnone)]

/-- A draft is told by its files, by what its options have been given and by its switches. -/
theorem eq_of_given {d e : Draft} (hfiles : e.files = d.files) (hgiven : ∀ v, e.given v = d.given v)
    (hon : ∀ w, e.isOn w = d.isOn w) : e = d := by
  have htoList : ∀ {α : Type}, Function.Injective (Option.toList : Option α → List α) := fun {_} =>
    Function.LeftInverse.injective fun _ => Option.head?_toList
  have hformat : e.format = d.format := by
    have hnames := hgiven .format
    rw [given, given, ← Option.toList_map, ← Option.toList_map] at hnames
    exact Option.map_injective Format.name_injective (htoList hnames)
  have hconfig : e.config = d.config := htoList (hgiven .config)
  have houtput : e.output = d.output := htoList (hgiven .output)
  obtain ⟨⟩ := d
  obtain ⟨⟩ := e
  simp only [mk.injEq]
  exact ⟨hfiles, hgiven .expr, hon .withWhere, hformat, hgiven .dateField, hconfig,
    hgiven .columns, houtput, hon .compact, hon .quiet⟩

theorem grows_nil_iff {d e : Draft} : d.Grows [] e ↔ e = d := by
  constructor
  · intro h
    have htoNat : ∀ a b : Bool, a.toNat = b.toNat → a = b := by decide
    exact eq_of_given h.files (fun v => (h.given v).trans (List.append_nil _)) fun w =>
      htoNat _ _ (h.isOn w)
  · rintro rfl
    exact ⟨rfl, fun v => (List.append_nil _).symm, fun w => rfl, nofun⟩

/-- Reading options adds them all, unless one of them cannot be taken up. -/
theorem foldlM_choose_eq_ok_iff {d e : Draft} {cs : List Choice} :
    cs.foldlM choose d = .ok e ↔ d.Grows cs e := by
  induction cs generalizing d with
  | nil =>
    exact Iff.trans ⟨fun h => (Except.ok.inj h).symm, fun h => congrArg _ h.symm⟩ grows_nil_iff.symm
  | cons c cs ih =>
    rw [List.foldlM_cons, bind_eq_ok_iff]
    constructor
    · rintro ⟨m, hm, he⟩
      exact (Grows.of_choose hm).cons_iff.mpr (ih.mp he)
    · intro h
      obtain ⟨m, hm⟩ := h.exists_choose
      exact ⟨m, hm, ih.mpr ((Grows.of_choose hm).cons_iff.mp h)⟩

/-! ## Arguments in the long form -/

theorem take_long {name : Text} (hne : name ≠ []) (d : Draft) (pending : Pending)
    (rest : List Text) :
    d.take pending (('-' :: '-' :: name) :: rest) =
      d.takeLong pending name >>= fun (e, p) => e.take p rest := by
  obtain ⟨c, name, rfl⟩ := List.exists_cons_of_ne_nil hne
  rfl

theorem takeLong_argument (d : Draft) (c : Choice) :
    ∃ name, c.argument = '-' :: '-' :: name ∧ name ≠ [] ∧
      d.takeLong .nothing name = d.choose c >>= fun e => .ok (e, .nothing) := by
  cases c with
  | on s => exact ⟨s.name, rfl, by cases s <;> exact List.cons_ne_nil _ _, by cases s <;> rfl⟩
  | value v t =>
    refine ⟨v.name ++ '=' :: t, rfl, by simp, ?_⟩
    cases v <;> rfl

/-- An argument in the long form is its option and nothing else, whatever its value holds. -/
theorem take_argument (d : Draft) (c : Choice) (rest : List Text) :
    d.take .nothing (c.argument :: rest) = d.choose c >>= fun e => e.take .nothing rest := by
  obtain ⟨name, hname, hne, hlong⟩ := takeLong_argument d c
  rw [hname, take_long hne, hlong, bind_assoc]
  rfl

theorem take_arguments (d : Draft) (cs : List Choice) (files : List Text) :
    d.take .nothing (cs.map Choice.argument ++ ['-', '-'] :: files) =
      cs.foldlM choose d >>= fun e => e.settle (.files files) := by
  induction cs generalizing d with
  | nil => rfl
  | cons c cs ih =>
    rw [List.map_cons, List.cons_append, take_argument, List.foldlM_cons, bind_assoc]
    exact congrArg (d.choose c >>= ·) (funext ih)

theorem settle_files_eq_ok_iff {d e : Draft} {files : List Text} :
    d.settle (.files files) = .ok e ↔
      (∀ path ∈ files, path ≠ []) ∧ { d with files := d.files ++ files } = e := by
  have hany : files.any List.isEmpty = true ↔ ¬ ∀ path ∈ files, path ≠ [] := by simp
  rw [settle]
  split_ifs with h
  · exact ⟨nofun, fun hfiles => absurd hfiles.1 (hany.mp h)⟩
  · exact ⟨fun hd => ⟨not_not.mp (mt hany.mpr h), Except.ok.inj hd⟩, fun hd => congrArg _ hd.2⟩

/-! ## The settings that have been read -/

theorem Grows.valuesOf_eq {cs : List Choice} {e : Draft} (h : empty.Grows cs e) {v : Valued}
    (hv : v ≠ .columns) : valuesOf v cs = e.given v := by
  rw [h.given v, given_empty, flatMap_entries hv, List.nil_append]

theorem Grows.spelledBy {cs : List Choice} {e : Draft} (h : empty.Grows cs e)
    (files : List Text) : { e with files := files }.settings.SpelledBy cs where
  switches w := by
    rw [← Nat.zero_add (cs.count _)]
    refine Eq.trans ?_ ((h.isOn w).symm.trans ?_) <;> cases w <;> rfl
  format := by
    rw [h.valuesOf_eq (by decide), Draft.given, settings]
    cases e.format with
    | none => exact .inr ⟨rfl, rfl⟩
    | some f => exact .inl rfl
  config := h.valuesOf_eq (by decide)
  output := h.valuesOf_eq (by decide)
  exprs := h.valuesOf_eq (by decide)
  dateFields := h.valuesOf_eq (by decide)
  columns := by
    refine ⟨(valuesOf .columns cs).map (split ','), ?_, ?_, ?_⟩
    · exact List.forall_mem_map.mpr fun t _ => split_ne_nil ',' t
    · rw [← List.flatMap_def]
      exact (h.given .columns).symm
    · rw [List.map_map]
      exact (List.map_id'' (join_split ',') _).symm

theorem Grows.writable {cs : List Choice} {e : Draft} (h : empty.Grows cs e) {files : List Text}
    (hfiles : ∀ path ∈ files, path ≠ []) : { e with files := files }.settings.Writable where
  files := hfiles
  config path hpath := by
    have hmem : path ∈ valuesOf .config cs := by
      rw [h.valuesOf_eq (by decide)]
      exact Option.mem_toList.mpr hpath
    exact h.takes .config path (mem_valuesOf.mp hmem)
  output path hpath := by
    have hmem : path ∈ valuesOf .output cs := by
      rw [h.valuesOf_eq (by decide)]
      exact Option.mem_toList.mpr hpath
    exact h.takes .output path (mem_valuesOf.mp hmem)
  columns column hcolumn := by
    have hgiven : e.columns = (valuesOf .columns cs).flatMap (split ',') := h.given .columns
    have hmem : column ∈ (valuesOf .columns cs).flatMap (split ',') := hgiven ▸ hcolumn
    obtain ⟨t, -, ht⟩ := List.mem_flatMap.mp hmem
    exact not_mem_of_mem_split column ht

/-- The columns of settings are what their options name. -/
theorem columns_of_spelledBy {s : Settings} (hs : s.Writable) {cs : List Choice}
    (h : s.SpelledBy cs) : s.columns = (valuesOf .columns cs).flatMap (split ',') := by
  obtain ⟨groups, hne, hflatten, hgroups⟩ := h.columns
  have hsplit : ∀ g ∈ groups, split ',' (join [','] g) = g := fun g hg =>
    split_join (hne g hg) fun column hcolumn =>
      hs.columns column (hflatten ▸ List.mem_flatten_of_mem hg hcolumn)
  calc s.columns = groups.flatten := hflatten.symm
    _ = (groups.map fun g => split ',' (join [','] g)).flatten := by
      rw [List.map_congr_left hsplit, List.map_id']
    _ = (valuesOf .columns cs).flatMap (split ',') := by
      rw [hgroups, List.flatMap_map, List.flatMap_def]

/-- Options that spell settings are read as a draft of them. -/
theorem exists_grows {s : Settings} (hs : s.Writable) {cs : List Choice} (h : s.SpelledBy cs) :
    ∃ e, empty.Grows cs e ∧ { e with files := e.files ++ s.files }.settings = s := by
  obtain ⟨format, hgetD, hformat⟩ : ∃ format : Option Format, format.getD .text = s.format ∧
      format.toList.map Format.name = valuesOf .format cs := by
    rcases h.format with hname | ⟨hnil, htext⟩
    · exact ⟨some s.format, rfl, hname.symm⟩
    · exact ⟨none, htext.symm, hnil.symm⟩
  refine ⟨⟨[], s.exprs, s.withWhere, format, s.dateFields, s.config, s.columns, s.output,
    s.compact, s.quiet⟩, ⟨rfl, fun v => ?_, fun w => ?_, fun v t ht => ?_⟩, ?_⟩
  · rw [given_empty, List.nil_append]
    cases v with
    | columns => exact columns_of_spelledBy hs h
    | expr => rw [flatMap_entries (by decide)]; exact h.exprs.symm
    | dateField => rw [flatMap_entries (by decide)]; exact h.dateFields.symm
    | config => rw [flatMap_entries (by decide)]; exact h.config.symm
    | output => rw [flatMap_entries (by decide)]; exact h.output.symm
    | format => rw [flatMap_entries (by decide)]; exact hformat
  · rw [h.switches w]
    cases w <;> exact (Nat.zero_add _).symm
  · have hmem := mem_valuesOf.mpr ht
    cases v with
    | config => exact hs.config t (Option.mem_toList.mp (h.config ▸ hmem))
    | output => exact hs.output t (Option.mem_toList.mp (h.output ▸ hmem))
    | format =>
      obtain ⟨f, -, hf⟩ := List.mem_map.mp (hformat ▸ hmem)
      exact ⟨f, hf.symm⟩
    | expr => trivial
    | dateField => trivial
    | columns => trivial
  · simp [settings, hgetD]

end Draft

/-- The options of settings spell them in any order in which no option's own values change places;
and whatever options come, they are read as settings exactly if they spell them. -/
theorem ofArguments_spelled (s : Settings) :
    (∀ cs : List Choice, cs.Perm s.choices → (∀ v, valuesOf v cs = valuesOf v s.choices) →
      s.SpelledBy cs) ∧
    ∀ (cs : List Choice) (files : List Text),
      ofArguments (cs.map Choice.argument ++ ['-', '-'] :: files) = .ok s ↔
        s.Writable ∧ s.files = files ∧ s.SpelledBy cs := by
  refine ⟨fun cs hperm hvalues => ?_, fun cs files => ?_⟩
  · have hs := s.spelledBy_choices
    exact ⟨fun w => (hperm.count_eq _).trans (hs.switches w), hvalues .format ▸ hs.format,
      hvalues .config ▸ hs.config, hvalues .output ▸ hs.output, hvalues .expr ▸ hs.exprs,
      hvalues .dateField ▸ hs.dateFields, hvalues .columns ▸ hs.columns⟩
  · rw [ofArguments, map_eq_ok_iff, Draft.take_arguments]
    simp only [bind_eq_ok_iff, Draft.foldlM_choose_eq_ok_iff, Draft.settle_files_eq_ok_iff]
    constructor
    · rintro ⟨e, ⟨d, hd, hfiles, rfl⟩, rfl⟩
      have hempty : d.files ++ files = files := congrArg (· ++ files) hd.files
      rw [hempty]
      exact ⟨hd.writable hfiles, rfl, hd.spelledBy files⟩
    · rintro ⟨hs, rfl, h⟩
      obtain ⟨e, he, hsettings⟩ := Draft.exists_grows hs h
      exact ⟨_, ⟨e, he, hs.files, rfl⟩, hsettings⟩

/-- Values that look like options or hold signs of equality, one option for two columns, and a file
named like the end of the options. -/
theorem ofArguments_spelled_sample :
    ofArguments (["--quiet", "--columns=Id,", "--expr=--json=1", "--with-where", "--columns=A=b",
        "--format=json", "--expr=", "--config=-c", "--", "-x", "--"].map String.toList) =
      .ok ⟨["-x".toList, "--".toList], ["--json=1".toList, []], true, .json, [],
        some "-c".toList, ["Id".toList, [], "A=b".toList], none, false, true⟩ :=
  ((ofArguments_spelled _).2
    [.on .quiet, .value .columns "Id,".toList, .value .expr "--json=1".toList, .on .withWhere,
      .value .columns "A=b".toList, .value .format "json".toList, .value .expr [],
      .value .config "-c".toList] ["-x".toList, "--".toList]).mpr
    ⟨⟨by decide, by decide, by decide, by decide⟩, rfl,
      ⟨fun w => by cases w <;> rfl, .inl rfl, rfl, rfl, rfl, rfl,
        [["Id".toList, []], ["A=b".toList]], by decide, rfl, rfl⟩⟩

end Settings

end FilterClause
