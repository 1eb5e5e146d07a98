import FilterClause.CommandLine.Run
import Mathlib.Data.List.Forall2

/-!
# What a run reads

A run reads its options and the texts that hold its clauses. What it gets from them is told by what
each of its sources holds (`Plan.ofSettings_eq_ok_iff`), and it gets a plan unless one of them
fails (`Plan.exists_ofSettings_iff`): a file or standard input that is no text, a configuration that
is no JSON form of options, or options that cannot be honoured.
-/

namespace FilterClause

/-! ## Results of steps -/

section Except

variable {ε ε' α β : Type} {x : Except ε α}

theorem bind_eq_ok_iff {f : α → Except ε β} {b : β} :
    (x >>= f) = .ok b ↔ ∃ a, x = .ok a ∧ f a = .ok b := by
  cases x with
  | error e => exact ⟨nofun, fun ⟨_, h, _⟩ => nomatch h⟩
  | ok a => exact ⟨fun h => ⟨a, rfl, h⟩, fun ⟨_, h, hf⟩ => Except.ok.inj h ▸ hf⟩

theorem map_eq_ok_iff {f : α → β} {b : β} : x.map f = .ok b ↔ ∃ a, x = .ok a ∧ f a = b := by
  cases x with
  | error e => exact ⟨nofun, fun ⟨_, h, _⟩ => nomatch h⟩
  | ok a => exact ⟨fun h => ⟨a, rfl, Except.ok.inj h⟩, fun ⟨_, h, hf⟩ => by cases h; cases hf; rfl⟩

theorem mapError_eq_ok_iff {f : ε → ε'} {a : α} : x.mapError f = .ok a ↔ x = .ok a := by
  cases x with
  | error e => exact ⟨nofun, nofun⟩
  | ok b => exact ⟨fun h => congrArg _ (Except.ok.inj h), fun h => congrArg _ (Except.ok.inj h)⟩

theorem exists_ok_or_error (x : Except ε α) : (∃ a, x = .ok a) ∨ ∃ e, x = .error e := by
  cases x with
  | error e => exact .inr ⟨e, rfl⟩
  | ok a => exact .inl ⟨a, rfl⟩

end Except

/-! ## Options -/

theorem Options.checked_eq_ok_iff {o o' : Options} :
    o.checked = .ok o' ↔ o = o' ∧ o'.error? = none := by
  unfold checked
  split
  · next h =>
    constructor
    · rintro ⟨⟩
      exact ⟨rfl, h⟩
    · rintro ⟨rfl, -⟩
      rfl
  · next why h =>
    refine ⟨nofun, ?_⟩
    rintro ⟨rfl, hnone⟩
    exact nomatch h.symm.trans hnone

namespace Sources

variable {sources : Sources}

/-- The options that a run starts from: those of the configuration file, or the standard ones. -/
def Configured (sources : Sources) : Option Text → Options → Prop
  | none, o => o = Options.standard
  | some path, o =>
    ∃ content, sources.readText path = .ok content ∧ Options.ofJson content = .ok o

theorem Configured.unique {config : Option Text} {o o' : Options}
    (h : sources.Configured config o) (h' : sources.Configured config o') : o = o' := by
  cases config with
  | none => exact Eq.trans h (Eq.symm h')
  | some path =>
    obtain ⟨content, hread, hjson⟩ := h
    obtain ⟨content', hread', hjson'⟩ := h'
    cases hread.symm.trans hread'
    exact Except.ok.inj (hjson.symm.trans hjson')

/-- The options of a run are those it starts from with its date fields, if they can be honoured. -/
theorem options_eq_ok_iff {config : Option Text} {names : List Text} {o : Options} :
    sources.options config names = .ok o ↔
      ∃ before, sources.Configured config before ∧ before.addDateFields names = o ∧
        o.error? = none := by
  unfold options
  cases config with
  | none =>
    refine Options.checked_eq_ok_iff.trans ⟨fun h => ⟨Options.standard, rfl, h⟩, ?_⟩
    rintro ⟨before, rfl, h⟩
    exact h
  | some path =>
    simp only [bind_eq_ok_iff, mapError_eq_ok_iff, Configured, Options.checked_eq_ok_iff]
    constructor
    · rintro ⟨content, hread, before, hjson, h⟩
      exact ⟨before, ⟨content, hread, hjson⟩, h⟩
    · rintro ⟨before, ⟨content, hread, hjson⟩, h⟩
      exact ⟨content, hread, before, hjson, h⟩

/-! ## Texts that hold clauses -/

/-- Whether a text is that behind a path, and has the path for its name. -/
def HoldsAt (sources : Sources) (path : Text) (named : Text × Text) : Prop :=
  named.1 = path ∧ sources.readText path = .ok named.2

/-- The texts that a run reads its clauses from, with the names of their sources: those of its
files, or that of standard input if there are neither files nor expressions. -/
inductive Holds (sources : Sources) (paths exprs : List Text) : List (Text × Text) → Prop where
  | files {contents : List (Text × Text)} (h : ¬ (paths = [] ∧ exprs = []))
      (hread : List.Forall₂ sources.HoldsAt paths contents) : Holds sources paths exprs contents
  | stdin {content : Text} (hpaths : paths = []) (hexprs : exprs = [])
      (hread : decodeUtf8 sources.stdin = .ok content) :
      Holds sources paths exprs [("<stdin>".toList, content)]

theorem Holds.exists_stdin {paths exprs : List Text} {contents : List (Text × Text)}
    (h : sources.Holds paths exprs contents) (hpaths : paths = []) (hexprs : exprs = []) :
    ∃ content, decodeUtf8 sources.stdin = .ok content := by
  cases h with
  | files hnot => exact absurd ⟨hpaths, hexprs⟩ hnot
  | stdin _ _ hread => exact ⟨_, hread⟩

/-- Files can be read one after the other if each of them can. -/
theorem exists_forall₂_holdsAt_iff {paths : List Text} :
    (∃ contents, List.Forall₂ sources.HoldsAt paths contents) ↔
      ∀ path ∈ paths, ∃ content, sources.readText path = .ok content := by
  induction paths with
  | nil => exact ⟨fun _ => nofun, fun _ => ⟨[], .nil⟩⟩
  | cons path paths ih =>
    rw [List.forall_mem_cons, ← ih]
    constructor
    · rintro ⟨contents, hreads⟩
      cases hreads with
      | cons hread hreads => exact ⟨⟨_, hread.2⟩, _, hreads⟩
    · rintro ⟨⟨content, hread⟩, contents, hreads⟩
      exact ⟨(path, content) :: contents, .cons ⟨rfl, hread⟩ hreads⟩

theorem Holds.exists_of_mem {paths exprs : List Text} {contents : List (Text × Text)}
    (h : sources.Holds paths exprs contents) :
    ∀ path ∈ paths, ∃ content, sources.readText path = .ok content := by
  cases h with
  | files _ hreads => exact exists_forall₂_holdsAt_iff.mp ⟨_, hreads⟩
  | stdin hpaths => exact hpaths ▸ nofun

end Sources

namespace Located

variable {sources : Sources}

/-- The clauses of texts with the names of their sources. -/
def ofTexts (contents : List (Text × Text)) : List Located :=
  contents.flatMap fun (name, content) => ofLines name content

theorem ofFile_eq_ok_iff {path : Text} {ls : List Located} :
    ofFile sources path = .ok ls ↔
      ∃ content, sources.readText path = .ok content ∧ ofLines path content = ls := by
  rw [ofFile, map_eq_ok_iff]
  simp only [mapError_eq_ok_iff]

/-- Files are read one after the other. -/
theorem mapM_ofFile_eq_ok_iff {paths : List Text} {parts : List (List Located)} :
    paths.mapM (ofFile sources) = .ok parts ↔
      ∃ contents, List.Forall₂ sources.HoldsAt paths contents ∧
        contents.map (fun (name, content) => ofLines name content) = parts := by
  induction paths generalizing parts with
  | nil =>
    rw [List.mapM_nil]
    constructor
    · intro h
      cases h
      exact ⟨[], .nil, rfl⟩
    · rintro ⟨contents, hread, rfl⟩
      cases hread
      rfl
  | cons path paths ih =>
    simp only [List.mapM_cons, bind_eq_ok_iff, ofFile_eq_ok_iff, ih]
    constructor
    · rintro ⟨ls, ⟨content, hread, rfl⟩, rest, ⟨contents, hreads, rfl⟩, h⟩
      cases h
      exact ⟨(path, content) :: contents, .cons ⟨rfl, hread⟩ hreads, rfl⟩
    · rintro ⟨contents, hreads, rfl⟩
      cases hreads with
      | @cons _ named _ contents hread hreads =>
        obtain ⟨rfl, hread⟩ := hread
        exact ⟨_, ⟨named.2, hread, rfl⟩, _, ⟨contents, hreads, rfl⟩, rfl⟩

theorem ofFiles_eq_ok_iff {paths : List Text} {ls : List Located} :
    ofFiles sources paths = .ok ls ↔
      ∃ contents, List.Forall₂ sources.HoldsAt paths contents ∧ ofTexts contents = ls := by
  rw [ofFiles, map_eq_ok_iff]
  constructor
  · rintro ⟨parts, hparts, rfl⟩
    obtain ⟨contents, hreads, rfl⟩ := mapM_ofFile_eq_ok_iff.mp hparts
    exact ⟨contents, hreads, List.flatMap_def ..⟩
  · rintro ⟨contents, hreads, rfl⟩
    exact ⟨_, mapM_ofFile_eq_ok_iff.mpr ⟨contents, hreads, rfl⟩, (List.flatMap_def ..).symm⟩

theorem ofStdin_eq_ok_iff {ls : List Located} :
    ofStdin sources = .ok ls ↔ ∃ content, decodeUtf8 sources.stdin = .ok content ∧
      ofLines "<stdin>".toList content = ls := by
  rw [ofStdin, map_eq_ok_iff]
  simp only [mapError_eq_ok_iff]

/-- The clauses of a run are its expressions and those of the texts that it reads. -/
theorem ofInput_eq_ok_iff {paths exprs : List Text} {ls : List Located} :
    ofInput sources paths exprs = .ok ls ↔
      ∃ contents, sources.Holds paths exprs contents ∧
        ofExprs exprs ++ ofTexts contents = ls := by
  rw [ofInput, map_eq_ok_iff]
  cases paths with
  | cons path paths =>
    simp only [List.isEmpty_cons, Bool.not_false, if_true, ofFiles_eq_ok_iff]
    constructor
    · rintro ⟨rest, ⟨contents, hreads, rfl⟩, rfl⟩
      exact ⟨contents, .files (fun h => nomatch h.1) hreads, rfl⟩
    · rintro ⟨contents, hholds, rfl⟩
      cases hholds with
      | files _ hreads => exact ⟨_, ⟨contents, hreads, rfl⟩, rfl⟩
      | stdin hpaths => cases hpaths
  | nil =>
    cases exprs with
    | cons expr exprs =>
      constructor
      · rintro ⟨rest, h, rfl⟩
        cases h
        exact ⟨[], .files (fun h => nomatch h.2) .nil, rfl⟩
      · rintro ⟨contents, hholds, rfl⟩
        cases hholds with
        | files _ hreads =>
          cases hreads
          exact ⟨[], rfl, rfl⟩
        | stdin _ hexprs => cases hexprs
    | nil =>
      simp only [List.isEmpty_nil, Bool.not_true, Bool.false_eq_true, if_false, if_true,
        ofStdin_eq_ok_iff]
      constructor
      · rintro ⟨rest, ⟨content, hread, rfl⟩, rfl⟩
        exact ⟨_, .stdin rfl rfl hread, by rw [ofTexts, List.flatMap_singleton]⟩
      · rintro ⟨contents, hholds, rfl⟩
        cases hholds with
        | files h => exact absurd ⟨rfl, rfl⟩ h
        | stdin _ _ hread => exact ⟨_, ⟨_, hread, rfl⟩, by rw [ofTexts, List.flatMap_singleton]⟩

end Located

/-! ## Plans -/

/-- What keeps a run from getting its options or its clauses. -/
inductive Settings.Fails (s : Settings) (sources : Sources) : Prop where
  | unreadableConfig {path : Text} {why : FileError} (h : s.config = some path)
      (hread : sources.readText path = .error why)
  | malformedConfig {path content : Text} {why : Json.ReadError} (h : s.config = some path)
      (hread : sources.readText path = .ok content) (hjson : Options.ofJson content = .error why)
  | invalidOptions {before : Options} {why : OptionsError}
      (h : sources.Configured s.config before)
      (herror : (before.addDateFields s.dateFields).error? = some why)
  | unreadableFile {path : Text} {why : FileError} (h : path ∈ s.files)
      (hread : sources.readText path = .error why)
  | unreadableStdin {why : FileError} (hfiles : s.files = []) (hexprs : s.exprs = [])
      (hread : decodeUtf8 sources.stdin = .error why)

namespace Plan

variable {s : Settings} {sources : Sources}

/-- The plan of a run by what its sources hold. -/
def ofSettings (s : Settings) (sources : Sources) : Except RunError Plan := do
  let options ← sources.options s.config s.dateFields
  return ofInput s options (← Located.ofInput sources s.files s.exprs)

/-- The reports on clauses that a plan tells. -/
def reports (s : Settings) (o : Options) (contents : List (Text × Text)) : List Report :=
  (Located.ofExprs s.exprs ++ Located.ofTexts contents).map
    (Report.ofLocated (if s.columns.isEmpty then none else some s.columns) (some o))

/-- A plan tells the reports on what the sources hold. -/
theorem ofSettings_eq_ok_iff {p : Plan} :
    ofSettings s sources = .ok p ↔
      ∃ o contents, sources.options s.config s.dateFields = .ok o ∧
        sources.Holds s.files s.exprs contents ∧ ofReports s (reports s o contents) = p := by
  unfold ofSettings
  simp only [bind_eq_ok_iff, Located.ofInput_eq_ok_iff]
  constructor
  · rintro ⟨o, ho, ls, ⟨contents, hholds, rfl⟩, h⟩
    cases h
    exact ⟨o, contents, ho, hholds, rfl⟩
  · rintro ⟨o, contents, ho, hholds, rfl⟩
    exact ⟨o, ho, _, ⟨contents, hholds, rfl⟩, rfl⟩

/-- What fails keeps a run from a plan. -/
theorem ofSettings_ne_ok (h : s.Fails sources) (p : Plan) : ofSettings s sources ≠ .ok p := by
  rw [Ne, ofSettings_eq_ok_iff]
  simp only [Sources.options_eq_ok_iff]
  rintro ⟨-, contents, ⟨before, hbefore, rfl, hnone⟩, hholds, -⟩
  cases h with
  | unreadableConfig h hread =>
    rw [h] at hbefore
    obtain ⟨content, hread', -⟩ := hbefore
    exact nomatch hread.symm.trans hread'
  | malformedConfig h hread hjson =>
    rw [h] at hbefore
    obtain ⟨content, hread', hjson'⟩ := hbefore
    cases hread.symm.trans hread'
    exact nomatch hjson.symm.trans hjson'
  | invalidOptions h herror =>
    rw [hbefore.unique h] at hnone
    exact nomatch hnone.symm.trans herror
  | unreadableFile h hread =>
    obtain ⟨content, hread'⟩ := hholds.exists_of_mem _ h
    exact nomatch hread.symm.trans hread'
  | unreadableStdin hfiles hexprs hread =>
    obtain ⟨content, hread'⟩ := hholds.exists_stdin hfiles hexprs
    exact nomatch hread.symm.trans hread'

section Succeeds

variable (h : ¬ s.Fails sources)

include h

theorem exists_configured : ∃ before, sources.Configured s.config before := by
  cases hconfig : s.config with
  | none => exact ⟨Options.standard, rfl⟩
  | some path =>
    rcases exists_ok_or_error (sources.readText path) with ⟨content, hread⟩ | ⟨why, hread⟩
    · rcases exists_ok_or_error (Options.ofJson content) with ⟨o, hjson⟩ | ⟨why, hjson⟩
      · exact ⟨o, content, hread, hjson⟩
      · exact absurd (.malformedConfig hconfig hread hjson) h
    · exact absurd (.unreadableConfig hconfig hread) h

theorem exists_options : ∃ o, sources.options s.config s.dateFields = .ok o := by
  obtain ⟨before, hbefore⟩ := exists_configured h
  cases herror : (before.addDateFields s.dateFields).error? with
  | none => exact ⟨_, Sources.options_eq_ok_iff.mpr ⟨before, hbefore, rfl, herror⟩⟩
  | some why => exact absurd (.invalidOptions hbefore herror) h

theorem exists_holds : ∃ contents, sources.Holds s.files s.exprs contents := by
  by_cases hstdin : s.files = [] ∧ s.exprs = []
  · rcases exists_ok_or_error (decodeUtf8 sources.stdin) with ⟨content, hread⟩ | ⟨why, hread⟩
    · exact ⟨_, .stdin hstdin.1 hstdin.2 hread⟩
    · exact absurd (.unreadableStdin hstdin.1 hstdin.2 hread) h
  · obtain ⟨contents, hreads⟩ := Sources.exists_forall₂_holdsAt_iff.mpr fun path hpath =>
      (exists_ok_or_error (sources.readText path)).resolve_right
        fun ⟨why, hread⟩ => h (.unreadableFile hpath hread)
    exact ⟨contents, .files hstdin hreads⟩

end Succeeds

/-- A run gets a plan exactly if nothing that it reads fails. -/
theorem exists_ofSettings_iff : (∃ p, ofSettings s sources = .ok p) ↔ ¬ s.Fails sources := by
  constructor
  · rintro ⟨p, hp⟩ hfails
    exact ofSettings_ne_ok hfails p hp
  · intro hnot
    obtain ⟨o, ho⟩ := exists_options hnot
    obtain ⟨contents, hholds⟩ := exists_holds hnot
    exact ⟨_, ofSettings_eq_ok_iff.mpr ⟨o, contents, ho, hholds, rfl⟩⟩

end Plan

end FilterClause
