import FilterClause.Proofs.Errors

/-!
# Whole runs

A run is all or nothing. What it prints or writes depends on its sources as they are at its start,
also if the output file is one of them (`Run.ofArguments_of_settings`, `Plan.ofSettings_congr`).
A run that fails leaves every file as it was and prints nothing, and one that succeeds changes the
output file alone (`Folder.resolveOutput_of_changed`).
-/

namespace FilterClause

/-! ## Written files -/

namespace Folder

variable {f after : Folder} {path name : Text} {bytes : ByteArray}

theorem lookup_put_of_ne (h : name ≠ path) (files : List (Text × ByteArray)) :
    (put path bytes files).lookup name = files.lookup name := by
  induction files with
  | nil => rw [put, List.lookup_cons, beq_eq_false_iff_ne.mpr h]
  | cons file files ih =>
    obtain ⟨n, b⟩ := file
    rw [put]
    split
    · next hn =>
      subst hn
      simp only [List.lookup_cons, beq_eq_false_iff_ne.mpr h]
    · rw [List.lookup_cons, List.lookup_cons, ih]

/-- Writing changes no file but the one that the path leads to. -/
theorem resolveOutput_of_changed (hwrite : f.write path bytes = .ok after)
    (hname : after.content? name ≠ f.content? name) :
    f.resolveOutput path = .file name ∨ f.resolveOutput path = .free name := by
  have hput : ∀ other, after = ⟨put other bytes f.files⟩ → other = name := by
    rintro other rfl
    exact (Decidable.byContradiction fun hne => hname (lookup_put_of_ne hne f.files)).symm
  unfold write at hwrite
  split at hwrite
  · exact nomatch hwrite
  · next other htarget =>
    exact .inl (hput other (Except.ok.inj hwrite).symm ▸ htarget)
  · next other htarget =>
    exact .inr (hput other (Except.ok.inj hwrite).symm ▸ htarget)
  · exact absurd (Except.ok.inj hwrite ▸ rfl) hname
  · exact absurd (Except.ok.inj hwrite ▸ rfl) hname
  · exact nomatch hwrite

end Folder

/-! ## What a run depends on -/

/-- A run with the settings reads the same from both sources. -/
structure Settings.Alike (s : Settings) (a b : Sources) : Prop where
  read : ∀ path ∈ s.config.toList ++ s.files, a.read path = b.read path
  stdin : s.files = [] → s.exprs = [] → a.stdin = b.stdin

section Alike

variable {s : Settings} {a b : Sources}

theorem Sources.readText_congr {path : Text} (h : a.read path = b.read path) :
    a.readText path = b.readText path := by
  rw [readText, readText, h]

theorem Located.ofFiles_congr {paths : List Text} (h : ∀ path ∈ paths, a.read path = b.read path) :
    ofFiles a paths = ofFiles b paths := by
  have hmap : paths.mapM (ofFile a) = paths.mapM (ofFile b) := by
    induction paths with
    | nil => rfl
    | cons path paths ih =>
      obtain ⟨hpath, hpaths⟩ := List.forall_mem_cons.mp h
      rw [List.mapM_cons, List.mapM_cons, ih hpaths, ofFile, ofFile,
        Sources.readText_congr hpath]
  rw [ofFiles, ofFiles, hmap]

/-- The plan of a run depends on nothing but the sources that it reads. -/
theorem Plan.ofSettings_congr (h : s.Alike a b) : ofSettings s a = ofSettings s b := by
  have hoptions : a.options s.config s.dateFields = b.options s.config s.dateFields := by
    cases hconfig : s.config with
    | none => rfl
    | some path =>
      have hpath := h.read path (by rw [hconfig]; exact List.mem_cons_self)
      rw [Sources.options, Sources.options, Sources.readText_congr hpath]
  have hinput : Located.ofInput a s.files s.exprs = Located.ofInput b s.files s.exprs := by
    unfold Located.ofInput
    split_ifs with hfiles hexprs
    · rw [Located.ofFiles_congr fun path hpath => h.read path (List.mem_append_right _ hpath)]
    · rw [Located.ofStdin, Located.ofStdin, h.stdin (by simpa using hfiles) (by simpa using hexprs)]
    · rfl
  rw [ofSettings, ofSettings, hoptions, hinput]

end Alike

/-! ## Whole runs -/

namespace Run

/-- A plan without an error is carried out as a whole, and then its output file alone has changed,
or not at all. -/
theorem ofPlan_changes (f : Folder) {p : Plan} (h : p.hasErrors = false) :
    ((ofPlan f p).outcome.exit = 0 ∧ ∀ name, (ofPlan f p).folder.content? name ≠ f.content? name →
      ∃ path, p.output = some path ∧
        (f.resolveOutput path = .file name ∨ f.resolveOutput path = .free name)) ∨
    (ofPlan f p).outcome.exit = 66 ∧ (ofPlan f p).outcome.stdout = [] ∧
      (ofPlan f p).folder = f := by
  rcases ofPlan_cases f p with ⟨after, hdone, hafter⟩ | ⟨path, why, hfailed⟩
  · rw [hdone]
    refine .inl ⟨Plan.exit_of_not_hasErrors h, fun name hname => ?_⟩
    rcases hafter with rfl | ⟨path, hpath, hwrite⟩
    · exact absurd rfl hname
    · exact ⟨path, hpath, Folder.resolveOutput_of_changed hwrite hname⟩
  · rw [hfailed]
    exact .inr ⟨rfl, rfl, rfl⟩

/-- A run is all or nothing. Arguments that lead to no run touch no file. For all others, what is
printed and written depends on what the sources hold at the start of the run, whichever file is
written. If one of them fails, the run ends with the code for that, and whatever makes a run fail,
it prints nothing and leaves every file as it was. A run that succeeds changes no file but the one
that its output path leads to. -/
theorem all_or_nothing (f : Folder) (stdin : ByteArray) (arguments : List Text) :
    (∀ why, Settings.ofArguments arguments = .error why →
      ofArguments f stdin arguments = ⟨.noRun why, f⟩) ∧
    ∀ s, Settings.ofArguments arguments = .ok s →
      (∃ result, ∀ g stdin', s.Alike ⟨f.read, stdin⟩ ⟨g.read, stdin'⟩ →
        ofArguments g stdin' arguments = ofResult g result) ∧
      (s.Fails ⟨f.read, stdin⟩ → (ofArguments f stdin arguments).outcome.exit = 66) ∧
      ((ofArguments f stdin arguments).outcome.exit ≠ 0 →
        (ofArguments f stdin arguments).outcome.stdout = [] ∧
        (ofArguments f stdin arguments).folder = f) ∧
      ((ofArguments f stdin arguments).outcome.exit = 0 → ∀ name,
        (ofArguments f stdin arguments).folder.content? name ≠ f.content? name →
        ∃ path, s.output = some path ∧
          (f.resolveOutput path = .file name ∨ f.resolveOutput path = .free name)) := by
  refine ⟨fun why => ofArguments_of_noRun f stdin, fun s hs => ⟨?_, ?_⟩⟩
  · refine ⟨Plan.ofSettings s ⟨f.read, stdin⟩, fun g stdin' halike => ?_⟩
    rw [ofArguments_of_settings g stdin' hs, Plan.ofSettings_congr halike]
  · rw [ofArguments_of_settings f stdin hs]
    cases hp : Plan.ofSettings s ⟨f.read, stdin⟩ with
    | error why => exact ⟨fun _ => rfl, fun _ => ⟨rfl, rfl⟩, fun h => absurd h (by decide : 66 ≠ 0)⟩
    | ok p =>
      have houtput : p.output = s.output := by
        obtain ⟨o, contents, -, -, rfl⟩ := Plan.ofSettings_eq_ok_iff.mp hp
        rfl
      rw [ofResult]
      refine ⟨fun hfails => absurd hfails (Plan.exists_ofSettings_iff.mp ⟨p, hp⟩), ?_⟩
      rcases ofPlan_changes f (Plan.not_hasErrors hp) with ⟨hexit, hchanged⟩ | ⟨hexit, hnothing⟩
      · exact ⟨fun h => absurd hexit h, fun _ => houtput ▸ hchanged⟩
      · exact ⟨fun _ => hnothing, fun h => absurd (hexit.symm.trans h) (by decide)⟩

/-- Two files with a clause each. -/
def twoFiles : Folder :=
  ⟨[("a".toList, encodeUtf8 "x = 1\n".toList), ("b".toList, encodeUtf8 "y = 2".toList)]⟩

/-- The settings of a run over two files that writes over the first. -/
def overFirst (second : Text) : Settings :=
  ⟨["a".toList, second], [], false, .text, [], none, [], some "a".toList, false, false⟩

/-- The first file is read before it is written, the second stays as it is, and a third one does not
matter. With a second file that is missing nothing happens, nor with an option that is unknown. -/
theorem all_or_nothing_twoFiles :
    ((ofArguments twoFiles .empty ["a".toList, "b".toList, "-oa".toList]).folder.content?
        "a".toList = some (encodeUtf8 "x = '1'\ny = '2'\n".toList) ∧
      (ofArguments twoFiles .empty ["a".toList, "b".toList, "-oa".toList]).folder.content?
        "b".toList = twoFiles.content? "b".toList) ∧
    (∃ result,
      ofArguments twoFiles .empty ["a".toList, "b".toList, "-oa".toList] =
        ofResult twoFiles result ∧
      ofArguments ⟨("c".toList, .empty) :: twoFiles.files⟩ .empty
          ["a".toList, "b".toList, "-oa".toList] =
        ofResult ⟨("c".toList, .empty) :: twoFiles.files⟩ result) ∧
    (ofArguments twoFiles .empty ["a".toList, "c".toList, "-oa".toList]).outcome.exit = 66 ∧
    (ofArguments twoFiles .empty ["a".toList, "c".toList, "-oa".toList]).outcome.stdout = [] ∧
    (ofArguments twoFiles .empty ["a".toList, "c".toList, "-oa".toList]).folder = twoFiles ∧
    ofArguments twoFiles .empty ["a".toList, "--b".toList] =
      ⟨.noRun (.unknownArgument "--b".toList), twoFiles⟩ := by
  obtain ⟨-, hrun⟩ := all_or_nothing twoFiles .empty ["a".toList, "b".toList, "-oa".toList]
  obtain ⟨⟨result, hresult⟩, -, -, hchanged⟩ :=
    hrun (overFirst "b".toList) (by decide +kernel)
  obtain ⟨-, hrun'⟩ := all_or_nothing twoFiles .empty ["a".toList, "c".toList, "-oa".toList]
  obtain ⟨-, hfails, hnothing, -⟩ := hrun' (overFirst "c".toList) (by decide +kernel)
  have hexit := hfails <| .unreadableFile (by decide : "c".toList ∈ (overFirst "c".toList).files)
    (by decide +kernel :
      Sources.readText ⟨twoFiles.read, .empty⟩ "c".toList = .error .notFound)
  refine ⟨⟨by decide +kernel, ?_⟩, ⟨result, ?_, ?_⟩, hexit, (hnothing (by rw [hexit]; decide)).1,
    (hnothing (by rw [hexit]; decide)).2, ?_⟩
  · refine Decidable.byContradiction fun hne => ?_
    obtain ⟨path, hpath, htarget⟩ := hchanged (by decide +kernel) "b".toList hne
    cases hpath
    have hfirst : twoFiles.resolveOutput "a".toList = .file "a".toList := rfl
    rw [hfirst] at htarget
    rcases htarget with h | h <;> cases h
  · exact hresult twoFiles .empty ⟨fun _ _ => rfl, fun _ _ => rfl⟩
  · refine hresult _ .empty ⟨?_, fun _ _ => rfl⟩
    decide +kernel
  · exact (all_or_nothing twoFiles .empty ["a".toList, "--b".toList]).1 _ (by decide +kernel)

end Run

end FilterClause
