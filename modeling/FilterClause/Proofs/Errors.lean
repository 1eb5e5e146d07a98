import FilterClause.Proofs.PlannedRuns

/-!
# Errors

Whatever is noticed of a clause is a warning, so a result tells an error only about options that
cannot be honoured. The options of a run are checked when they are read, by the same rule. So a run
that has read its input meets no error (`errors_only_from_options`).
-/

namespace FilterClause

/-! ## Results -/

/-- What is noticed of a clause is no error. -/
theorem Normal.severity_of_mem_warnings {n : Normal} {i : Issue} (h : i ∈ n.warnings) :
    i.severity = .warning := by
  simp only [warnings, List.mem_append, List.mem_ite_nil_right, List.mem_singleton] at h
  rcases h with (⟨-, rfl⟩ | ⟨-, rfl⟩) | ⟨-, rfl⟩ <;> rfl

theorem Normal.not_error_warnings (n : Normal) :
    (n.warnings.any fun issue => issue.severity == .error) = false := by
  rw [List.any_eq_false]
  intro i hi
  rw [severity_of_mem_warnings hi]
  decide

namespace Request

variable {r : Request}

/-- The result without options is that under the standard ones. -/
theorem chosenOptions_of_error {o : Options} {why : OptionsError} (ho : r.options = some o)
    (hwhy : o.error? = some why) :
    r.chosenOptions = (Options.standard, [Issue.invalidOptions why]) := by
  simp only [chosenOptions, ho, hwhy]

theorem chosenOptions_of_valid (h : ∀ o, r.options = some o → o.error? = none) :
    r.chosenOptions.2 = [] := by
  unfold chosenOptions
  cases ho : r.options with
  | none => rfl
  | some o => simp only [h o ho]

end Request

/-- A result has an error exactly if the options cannot be honoured. -/
theorem hasErrors_clean_iff (r : Request) :
    (clean r).hasErrors = true ↔ ∃ o, r.options = some o ∧ o.error? ≠ none := by
  have hissues : (clean r).hasErrors =
      r.chosenOptions.2.any fun issue => issue.severity == .error := by
    show (r.chosenOptions.2 ++ _).any _ = _
    rw [List.any_append, Normal.not_error_warnings, Bool.or_false]
  rw [hissues]
  constructor
  · intro herror
    refine Decidable.byContradiction fun hnone => ?_
    rw [Request.chosenOptions_of_valid fun o ho => Decidable.byContradiction fun hne =>
      hnone ⟨o, ho, hne⟩] at herror
    cases herror
  · rintro ⟨o, ho, hne⟩
    obtain ⟨why, hwhy⟩ := Option.ne_none_iff_exists'.mp hne
    rw [Request.chosenOptions_of_error ho hwhy]
    rfl

/-- Options that cannot be honoured add one issue to the result without options. -/
theorem clean_of_error {r : Request} {o : Options} {why : OptionsError} (ho : r.options = some o)
    (hwhy : o.error? = some why) :
    clean r = { clean { r with options := none } with
      issues := Issue.invalidOptions why :: (clean { r with options := none }).issues } := by
  unfold clean
  rw [Request.chosenOptions_of_error ho hwhy]
  rfl

/-! ## Runs -/

/-- Options that are read for a run can be honoured. -/
theorem Sources.error?_options {sources : Sources} {config : Option Text} {names : List Text}
    {o : Options} (h : sources.options config names = .ok o) : o.error? = none := by
  obtain ⟨-, -, -, hnone⟩ := options_eq_ok_iff.mp h
  exact hnone

/-- No clause of a run meets an error. -/
theorem Plan.not_hasErrors {s : Settings} {sources : Sources} {p : Plan}
    (h : ofSettings s sources = .ok p) : p.hasErrors = false := by
  obtain ⟨o, contents, ho, -, rfl⟩ := ofSettings_eq_ok_iff.mp h
  show (reports s o contents).any _ = false
  rw [List.any_eq_false, reports, List.forall_mem_map]
  intro l _ herror
  obtain ⟨o', ho', hne⟩ := (hasErrors_clean_iff _).mp herror
  cases ho'
  exact hne (Sources.error?_options ho)

theorem Plan.exit_of_not_hasErrors {p : Plan} (h : p.hasErrors = false) : p.exit = 0 := by
  rw [exit, h, if_neg Bool.false_ne_true]

/-- A plan without an error ends in success or in a failed write. -/
theorem Run.exit_ofPlan (f : Folder) {p : Plan} (h : p.hasErrors = false) :
    (ofPlan f p).outcome.exit = 0 ∨ (ofPlan f p).outcome.exit = 66 := by
  rcases ofPlan_cases f p with ⟨after, hdone, -⟩ | ⟨path, why, hfailed⟩
  · rw [hdone]
    exact .inl (Plan.exit_of_not_hasErrors h)
  · rw [hfailed]
    exact .inr rfl

/-- The code of an error stands at the end of no run. -/
theorem Run.exit_ne_one (f : Folder) (stdin : ByteArray) (arguments : List Text) :
    (ofArguments f stdin arguments).outcome.exit ≠ 1 := by
  cases hsettings : Settings.ofArguments arguments with
  | error why =>
    rw [ofArguments_of_noRun f stdin hsettings]
    cases why <;> exact nofun
  | ok s =>
    rw [ofArguments_of_settings f stdin hsettings]
    cases hplan : Plan.ofSettings s ⟨f.read, stdin⟩ with
    | error why => exact (by decide : (66 : Nat) ≠ 1)
    | ok p =>
      rcases exit_ofPlan f (Plan.not_hasErrors hplan) with h | h <;> rw [ofResult, h] <;> decide

/-- A result tells an error exactly if options are given that cannot be honoured, and then it is the
result without options behind one issue about them. Options that a run has read can be honoured,
whatever its files hold. So no run ends with the code of an error. -/
theorem errors_only_from_options :
    (∀ r : Request,
      ((clean r).hasErrors = true ↔ ∃ o, r.options = some o ∧ o.error? ≠ none) ∧
      ∀ o why, r.options = some o → o.error? = some why →
        clean r = { clean { r with options := none } with
          issues := Issue.invalidOptions why :: (clean { r with options := none }).issues }) ∧
    (∀ (sources : Sources) config names o, sources.options config names = .ok o →
      o.error? = none) ∧
    ∀ f stdin arguments, (Run.ofArguments f stdin arguments).outcome.exit ≠ 1 :=
  ⟨fun r => ⟨hasErrors_clean_iff r, fun _ _ => clean_of_error⟩,
    fun _ _ _ _ => Sources.error?_options, Run.exit_ne_one⟩

/-- A date field with a blank in a request, and one in a configuration file. -/
theorem errors_only_from_options_blank :
    (clean ⟨"a = b".toList, none, some ⟨["close date".toList]⟩⟩).hasErrors = true ∧
    (clean ⟨"a = b".toList, none, some ⟨["close date".toList]⟩⟩).issues =
      [Issue.invalidOptions (.invalidDateField "close date".toList)] ∧
    (⟨["closedate".toList, "day".toList]⟩ : Options).error? = none ∧
    (Run.ofArguments
      ⟨[("c".toList, encodeUtf8 "\x7b\"dateFields\": [\"close date\"]\x7d".toList)]⟩ .empty
      ["--config=c".toList]).outcome.exit ≠ 1 := by
  obtain ⟨hresults, hoptions, hexit⟩ := errors_only_from_options
  obtain ⟨herror, hresult⟩ := hresults ⟨"a = b".toList, none, some ⟨["close date".toList]⟩⟩
  refine ⟨herror.mpr ⟨_, rfl, by decide +kernel⟩, ?_, ?_, hexit _ _ _⟩
  · rw [hresult ⟨["close date".toList]⟩ (.invalidDateField "close date".toList) rfl
      (by decide +kernel)]
    decide +kernel
  · exact hoptions
      ⟨fun _ => .ok (encodeUtf8 "\x7b\"dateFields\": [\"closedate\"]\x7d".toList), .empty⟩
      (some "c".toList) ["CloseDate".toList, "day".toList] _ (by decide +kernel)

end FilterClause
