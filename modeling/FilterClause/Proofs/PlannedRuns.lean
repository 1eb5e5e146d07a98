import FilterClause.Proofs.Inputs

/-!
# Runs by their plans

A run reads in many steps, each of which may fail, and its files could be written in between. They
are not: reading leaves the world as it is but for standard input (`Peeks`, `Reads`), so all reads
see the folder of the start. With one lemma for each reader, a whole run is carrying out the plan
that is made of what the sources held at its start (`Run.ofArguments_of_settings`).
-/

namespace FilterClause

/-! ## Steps that read -/

namespace World

/-- What can be read in a world. -/
def sources (w : World) : Sources := ⟨w.folder.read, w.stdin⟩

/-- Steps in a folder, each of which may end the run. -/
abbrev Steps (α : Type) := ExceptT RunError (StateM World) α

variable {α β : Type} {w : World} {x : Steps α} {k : α → Steps β} {result : Except RunError α}
  {next : α → Except RunError β}

/-- The steps give a result and change nothing. -/
def Peeks (w : World) (x : Steps α) (result : Except RunError α) : Prop :=
  x.run.run w = (result, w)

/-- The steps give a result and change nothing but what is left of standard input. -/
def Reads (w : World) (x : Steps α) (result : Except RunError α) : Prop :=
  ∃ left, x.run.run w = (result, { w with stdin := left })

theorem Peeks.reads (h : w.Peeks x result) : w.Reads x result := ⟨w.stdin, h⟩

theorem peeks_ofExcept (w : World) (result : Except RunError α) :
    w.Peeks (ofExcept result) result := by
  cases result <;> rfl

theorem run_bind_of_ok {w' : World} {a : α} (h : x.run.run w = (.ok a, w')) :
    (x >>= k).run.run w = (k a).run.run w' := by
  rw [ExceptT.run_bind, StateT.run_bind, h]
  rfl

/-- Steps behind others are not taken if those fail. -/
theorem run_bind_of_error {w' : World} {why : RunError} (h : x.run.run w = (.error why, w')) :
    (x >>= k).run.run w = (.error why, w') := by
  rw [ExceptT.run_bind, StateT.run_bind, h]
  rfl

theorem Peeks.bind (h : w.Peeks x result) (hk : ∀ a, w.Peeks (k a) (next a)) :
    w.Peeks (x >>= k) (result >>= next) := by
  cases result with
  | ok a => exact (run_bind_of_ok h).trans (hk a)
  | error why => exact run_bind_of_error h

theorem Peeks.bind_reads (h : w.Peeks x result) (hk : ∀ a, w.Reads (k a) (next a)) :
    w.Reads (x >>= k) (result >>= next) := by
  cases result with
  | ok a =>
    obtain ⟨left, hleft⟩ := hk a
    exact ⟨left, (run_bind_of_ok h).trans hleft⟩
  | error why => exact ⟨w.stdin, run_bind_of_error h⟩

theorem Reads.map (h : w.Reads x result) (f : α → β) :
    w.Reads (x >>= fun a => pure (f a)) (result.map f) := by
  obtain ⟨left, h⟩ := h
  cases result with
  | ok a => exact ⟨left, run_bind_of_ok h⟩
  | error why => exact ⟨left, run_bind_of_error h⟩

theorem Peeks.map (h : w.Peeks x result) (f : α → β) :
    w.Peeks (x >>= fun a => pure (f a)) (result.map f) :=
  h.bind fun a => peeks_ofExcept w (.ok (f a))

/-! ## The readers of a run -/

theorem peeks_readText (w : World) (fails : FileError → RunError) (path : Text) :
    w.Peeks (system.readText fails path) ((w.sources.readText path).mapError fails) :=
  peeks_ofExcept w _

theorem peeks_readOptions (w : World) (config : Option Text) (dateFields : List Text) :
    w.Peeks (system.readOptions config dateFields) (w.sources.options config dateFields) := by
  unfold System.readOptions Sources.options
  cases config with
  | none =>
    exact (peeks_ofExcept w (.ok Options.standard)).bind fun o => peeks_ofExcept w _
  | some path =>
    exact (peeks_readText w (.unreadableConfig path) path).bind fun content =>
      (peeks_ofExcept w ((Options.ofJson content).mapError (.malformedConfig path))).bind
        fun o => peeks_ofExcept w _

theorem peeks_readFiles (w : World) (paths : List Text) :
    w.Peeks (system.readFiles paths) (Located.ofFiles w.sources paths) := by
  induction paths with
  | nil => exact peeks_ofExcept w (.ok [])
  | cons path paths ih =>
    have h := (peeks_readText w (.unreadableFile path) path).bind fun content =>
      ih.map (Located.ofLines path content ++ ·)
    have hresult : Located.ofFiles w.sources (path :: paths) =
        (w.sources.readText path).mapError (.unreadableFile path) >>= fun content =>
          (Located.ofFiles w.sources paths).map (Located.ofLines path content ++ ·) := by
      unfold Located.ofFiles
      rw [List.mapM_cons, Located.ofFile]
      cases w.sources.readText path with
      | error why => rfl
      | ok content =>
        cases paths.mapM (Located.ofFile w.sources) <;> rfl
    rw [hresult]
    exact h

theorem reads_readStdinClauses (w : World) :
    w.Reads system.readStdinClauses (Located.ofStdin w.sources) := by
  have h := (peeks_ofExcept { w with stdin := .empty }
    ((decodeUtf8 w.stdin).mapError RunError.unreadableStdin)).map
      (Located.ofLines "<stdin>".toList)
  exact ⟨.empty, h⟩

theorem reads_readInput (w : World) (paths exprs : List Text) :
    w.Reads (system.readInput paths exprs) (Located.ofInput w.sources paths exprs) := by
  unfold System.readInput Located.ofInput
  by_cases hpaths : (!paths.isEmpty) = true
  · rw [if_pos hpaths, if_pos hpaths]
    exact (peeks_readFiles w paths).reads.map (Located.ofExprs exprs ++ ·)
  · rw [if_neg hpaths, if_neg hpaths]
    by_cases hexprs : exprs.isEmpty = true
    · rw [if_pos hexprs, if_pos hexprs]
      exact (reads_readStdinClauses w).map (Located.ofExprs exprs ++ ·)
    · rw [if_neg hexprs, if_neg hexprs]
      exact (peeks_ofExcept w (.ok [])).reads.map (Located.ofExprs exprs ++ ·)

/-- A run reads the plan that is made of what its sources hold. -/
theorem reads_readPlan (w : World) (s : Settings) :
    w.Reads (system.readPlan s) (Plan.ofSettings s w.sources) :=
  (peeks_readOptions w s.config s.dateFields).bind_reads fun o =>
    (reads_readInput w s.files s.exprs).map (Plan.ofInput s o)

/-! ## Carrying out a plan -/

theorem run_carryOut_of_print {p : Plan} (h : p.output = none) :
    (system.carryOut p).run.run w = (.ok (), (w.warn p.warnings).print p.printed) := by
  unfold System.carryOut
  rw [h]
  rfl

/-- The warnings are told before the file is written. -/
theorem run_carryOut_of_write {p : Plan} {path : Text} {result : Except FileError Unit} {w' : World}
    (h : p.output = some path)
    (hwrite : (w.warn p.warnings).write path (encodeUtf8 p.content) = (result, w')) :
    (system.carryOut p).run.run w = (result.mapError (.unwritableFile path), w') := by
  have hstep : (liftM (system.write path (encodeUtf8 p.content)) :
      Steps (Except FileError Unit)).run.run (w.warn p.warnings) = (.ok result, w') := by
    change (Except.ok ((w.warn p.warnings).write path (encodeUtf8 p.content)).1,
      ((w.warn p.warnings).write path (encodeUtf8 p.content)).2) = _
    rw [hwrite]
  have htold : (liftM (system.warn p.warnings) : Steps Unit).run.run w =
      (.ok (), w.warn p.warnings) := rfl
  unfold System.carryOut
  rw [h, run_bind_of_ok htold]
  exact (run_bind_of_ok hstep).trans (peeks_ofExcept w' _)

theorem write_of_ok {path : Text} {bytes : ByteArray} {after : Folder}
    (h : w.folder.write path bytes = .ok after) :
    w.write path bytes = (.ok (), { w with folder := after }) := by
  rw [World.write, h]

theorem write_of_error {path : Text} {bytes : ByteArray} {why : FileError}
    (h : w.folder.write path bytes = .error why) :
    w.write path bytes = (.error why, w) := by
  rw [World.write, h]

theorem run_runSettings_of_ok {s : Settings} {code : Nat} {w' : World}
    (h : (system.proceed s).run.run w = (.ok code, w')) :
    (system.runSettings s).run w = (code, w') := by
  rw [System.runSettings, StateT.run_bind, h]
  rfl

/-- A failure is told last. -/
theorem run_runSettings_of_error {s : Settings} {why : RunError} {w' : World}
    (h : (system.proceed s).run.run w = (.error why, w')) :
    (system.runSettings s).run w = (66, w'.warn why.line) := by
  rw [System.runSettings, StateT.run_bind, h]
  rfl

end World

/-! ## Runs -/

namespace Outcome

/-- A run that failed, after it had told some warnings. -/
def failed (warnings : Text) (why : RunError) : Outcome := ⟨66, [], warnings ++ why.line⟩

/-- A run that carried out its plan. -/
def done (p : Plan) : Outcome :=
  ⟨p.exit, if p.output = none then p.printed else [], p.warnings⟩

end Outcome

namespace Run

/-- Carries out a plan in a folder. -/
def ofPlan (f : Folder) (p : Plan) : Run :=
  match p.output with
  | none => ⟨.done p, f⟩
  | some path =>
    match f.write path (encodeUtf8 p.content) with
    | .ok after => ⟨.done p, after⟩
    | .error why => ⟨.failed p.warnings (.unwritableFile path why), f⟩

section Plan

variable {f after : Folder} {p : Plan} {path : Text} {why : FileError}

theorem ofPlan_of_print (h : p.output = none) : ofPlan f p = ⟨.done p, f⟩ := by
  rw [ofPlan, h]

theorem ofPlan_of_write (h : p.output = some path)
    (hwrite : f.write path (encodeUtf8 p.content) = .ok after) : ofPlan f p = ⟨.done p, after⟩ := by
  simp only [ofPlan, h, hwrite]

theorem ofPlan_of_fail (h : p.output = some path)
    (hwrite : f.write path (encodeUtf8 p.content) = .error why) :
    ofPlan f p = ⟨.failed p.warnings (.unwritableFile path why), f⟩ := by
  simp only [ofPlan, h, hwrite]

/-- A plan is carried out, or its output file cannot be written. -/
theorem ofPlan_cases (f : Folder) (p : Plan) :
    (∃ after, ofPlan f p = ⟨.done p, after⟩ ∧
      (after = f ∨ ∃ path, p.output = some path ∧
        f.write path (encodeUtf8 p.content) = .ok after)) ∨
    ∃ path why, ofPlan f p = ⟨.failed p.warnings (.unwritableFile path why), f⟩ := by
  rcases Option.eq_none_or_eq_some p.output with hprint | ⟨path, hpath⟩
  · exact .inl ⟨f, ofPlan_of_print hprint, .inl rfl⟩
  · rcases exists_ok_or_error (f.write path (encodeUtf8 p.content)) with
      ⟨after, hwrite⟩ | ⟨why, hwrite⟩
    · exact .inl ⟨after, ofPlan_of_write hpath hwrite, .inr ⟨path, hpath, hwrite⟩⟩
    · exact .inr ⟨path, why, ofPlan_of_fail hpath hwrite⟩

end Plan

/-- Carries out what was read, or tells why it could not be. -/
def ofResult (f : Folder) : Except RunError Plan → Run
  | .ok p => ofPlan f p
  | .error why => ⟨.failed [] why, f⟩

theorem ofArguments_of_run {f : Folder} {stdin : ByteArray} {arguments : List Text} {s : Settings}
    {code : Nat} {w : World} (h : Settings.ofArguments arguments = .ok s)
    (hrun : (World.system.runSettings s).run ⟨f, stdin, [], []⟩ = (code, w)) :
    ofArguments f stdin arguments = ⟨⟨code, w.stdout, w.stderr⟩, w.folder⟩ := by
  unfold ofArguments System.run
  rw [h]
  dsimp only
  rw [hrun]

section Settings

variable (f : Folder) (stdin : ByteArray) {arguments : List Text} {s : Settings}
  (h : Settings.ofArguments arguments = .ok s)

include h

/-- A run that gets a plan carries it out. -/
theorem ofArguments_of_plan {p : Plan} (hplan : Plan.ofSettings s ⟨f.read, stdin⟩ = .ok p) :
    ofArguments f stdin arguments = ofPlan f p := by
  obtain ⟨left, hread⟩ := World.reads_readPlan ⟨f, stdin, [], []⟩ s
  change _ = (Plan.ofSettings s ⟨f.read, stdin⟩, _) at hread
  rw [hplan] at hread
  have hproceed : (World.system.proceed s).run.run ⟨f, stdin, [], []⟩ =
      (do World.system.carryOut p; return p.exit : World.Steps Nat).run.run ⟨f, left, [], []⟩ :=
    World.run_bind_of_ok hread
  cases houtput : p.output with
  | none =>
    have hcarry := World.run_bind_of_ok (k := fun _ => pure p.exit)
      (World.run_carryOut_of_print (w := ⟨f, left, [], []⟩) houtput)
    rw [ofArguments_of_run h (World.run_runSettings_of_ok (hproceed.trans hcarry)),
      ofPlan_of_print houtput, Outcome.done, if_pos houtput]
    rfl
  | some path =>
    have hfile : p.output ≠ none := by rw [houtput]; exact Option.some_ne_none path
    let told : World := World.warn p.warnings ⟨f, left, [], []⟩
    cases hwrite : f.write path (encodeUtf8 p.content) with
    | ok after =>
      have hcarry := World.run_bind_of_ok (k := fun _ => pure p.exit)
        (World.run_carryOut_of_write houtput (World.write_of_ok (w := told) hwrite))
      rw [ofArguments_of_run h (World.run_runSettings_of_ok (hproceed.trans hcarry)),
        ofPlan_of_write houtput hwrite, Outcome.done, if_neg hfile]
      rfl
    | error why =>
      have hcarry := World.run_bind_of_error (k := fun _ => pure p.exit)
        (World.run_carryOut_of_write houtput (World.write_of_error (w := told) hwrite))
      rw [ofArguments_of_run h (World.run_runSettings_of_error (hproceed.trans hcarry)),
        ofPlan_of_fail houtput hwrite]
      rfl

theorem ofArguments_of_failure {why : RunError}
    (hplan : Plan.ofSettings s ⟨f.read, stdin⟩ = .error why) :
    ofArguments f stdin arguments = ⟨.failed [] why, f⟩ := by
  obtain ⟨left, hread⟩ := World.reads_readPlan ⟨f, stdin, [], []⟩ s
  change _ = (Plan.ofSettings s ⟨f.read, stdin⟩, _) at hread
  rw [hplan] at hread
  exact ofArguments_of_run h (World.run_runSettings_of_error (World.run_bind_of_error hread))

/-- A run is told by what its sources hold at its start. -/
theorem ofArguments_of_settings :
    ofArguments f stdin arguments = ofResult f (Plan.ofSettings s ⟨f.read, stdin⟩) := by
  cases hplan : Plan.ofSettings s ⟨f.read, stdin⟩ with
  | ok p => exact ofArguments_of_plan f stdin h hplan
  | error why => exact ofArguments_of_failure f stdin h hplan

end Settings

theorem ofArguments_of_noRun (f : Folder) (stdin : ByteArray) {arguments : List Text}
    {why : NoRun} (h : Settings.ofArguments arguments = .error why) :
    ofArguments f stdin arguments = ⟨.noRun why, f⟩ := by
  unfold ofArguments System.run
  rw [h]
  rfl

end Run

end FilterClause
