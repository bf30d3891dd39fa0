import MockAudit.CommandLine.Run
import MockAudit.Proofs.BatchAudit
import MockAudit.Proofs.Grouping

/-!
# Reporting

A report hands over every failure once: those of a test case together, in the order of its
offenses, and the others one by one. The report is clean if and only if there was no failure among
the offenses. The passes attach a failure to every offender, so two recordings are verified without
complaint, and the program ends well, if and only if no pass that was asked for found an offense.

## Main definitions

* `Call.failureIn?`, `Call.suiteFailure?`: where the failure of an offense belongs.
* `Report.IsOn`: the reports that lose and repeat nothing.

## Main results

* `Report.isOn_ofOffenses`: the report on offenses.
* `Report.IsOn.isClean_iff`: when a report is clean.
* `reporting_is_complete`: all of it together, down to the way the program ends.
-/

namespace MockAudit

namespace Call

/-- The test case that an offense makes fail. -/
def failedTestCase? (c : Call) : Option String :=
  c.failure.bind fun _ => c.testCase

/-- The failure of an offense, if it belongs to a test case. -/
def failureIn? (testCase : String) (c : Call) : Option Failure :=
  if c.testCase = some testCase then c.failure else none

/-- The failure of an offense with its location, if it belongs to no test case. -/
def suiteFailure? (c : Call) : Option (Option String × Failure) :=
  if c.testCase = none then c.failure.map fun f => (c.location, f) else none

/-- The failure of an offense with the test case it belongs to. -/
def testCaseFailure? (c : Call) : Option (String × Failure) :=
  c.failure.bind fun f => c.testCase.map (·, f)

end Call

namespace Report

/-- All failures in a report. -/
def failures (r : Report) : List Failure :=
  r.testCases.flatMap Prod.snd ++ r.suite.map Prod.snd

/-- A report on offenses that loses and repeats nothing. -/
structure IsOn (offenses : List Call) (r : Report) : Prop where
  /-- There is one entry for each test case that fails, in the order of first appearance. -/
  names : FirstOccurrences (r.testCases.map Prod.fst) (offenses.filterMap Call.failedTestCase?)
  /-- The entry of a test case has exactly the failures of its offenses, in their order. -/
  testCases : ∀ entry ∈ r.testCases, entry.2 = offenses.filterMap (Call.failureIn? entry.1)
  /-- The other failures are reported one by one, in the order of their offenses. -/
  suite : r.suite = offenses.filterMap Call.suiteFailure?
  /-- The counts are those of the entries. -/
  summary : r.summary = ⟨r.testCases.length, r.suite.length⟩
  /-- Every failure is reported as often as it occurs. -/
  complete : r.failures.Perm (offenses.filterMap Call.failure)

/-- The entry of a test case. -/
def entry (testCase : String) (failures : List (String × Failure)) : String × List Failure :=
  (testCase, failures.map Prod.snd)

/-- A failure joins those of its test case. -/
theorem blame_eq_changeOrAdd (testCase : String) (f : Failure)
    (entries : List (String × List Failure)) : blame testCase f entries =
      changeOrAdd (·.1 = testCase) (fun e => (e.1, e.2 ++ [f])) (testCase, [f]) entries := by
  induction entries with
  | nil => rfl
  | cons e rest ih => rw [blame, changeOrAdd, ih]

/-- What has been collected after some offenses: the failures of test cases are grouped by the test
cases, and those of the suite are listed and counted. -/
theorem foldl_add_eq (offenses : List Call) : offenses.foldl add {} =
    { testCases := groupsBy Prod.fst entry (offenses.filterMap Call.testCaseFailure?)
      suite := offenses.filterMap Call.suiteFailure?
      summary := ⟨0, (offenses.filterMap Call.suiteFailure?).length⟩ } := by
  induction offenses using List.reverseRecOn with
  | nil => rfl
  | append_singleton offenses c ih =>
    rw [List.foldl_append, List.foldl_cons, List.foldl_nil, ih, List.filterMap_append,
      List.filterMap_append, add]
    cases hfailure : c.failure with
    | none => simp [Call.testCaseFailure?, Call.suiteFailure?, hfailure]
    | some f =>
      cases htestCase : c.testCase with
      | none => simp [Call.testCaseFailure?, Call.suiteFailure?, hfailure, htestCase]
      | some testCase =>
        have hnew : [c].filterMap Call.testCaseFailure? = [(testCase, f)] := by
          simp [Call.testCaseFailure?, hfailure, htestCase]
        have hgroup :
            groupsBy Prod.fst entry
              (offenses.filterMap Call.testCaseFailure? ++ [(testCase, f)]) =
            changeOrAdd (·.1 = testCase) (fun e => (e.1, e.2 ++ [f])) (testCase, [f])
              (groupsBy Prod.fst entry (offenses.filterMap Call.testCaseFailure?)) :=
          groupsBy_concat Prod.fst entry _ (testCase, f) (fun _ _ => Iff.rfl)
            fun failures => by simp [entry]
        rw [hnew, hgroup]
        simp [Call.suiteFailure?, htestCase, blame_eq_changeOrAdd]

private theorem perm_failures_add (r : Report) (c : Call) :
    (r.add c).failures.Perm (r.failures ++ c.failure.toList) := by
  rw [add]
  cases c.failure with
  | none => simp
  | some f =>
    cases c.testCase with
    | none => simp [failures]
    | some testCase =>
      have hblame : ((blame testCase f r.testCases).flatMap Prod.snd).Perm
          (r.testCases.flatMap Prod.snd ++ [f]) := by
        rw [blame_eq_changeOrAdd]
        exact perm_flatMap_changeOrAdd Prod.snd (fun _ _ => .refl _) rfl
      have hswap : ([f] ++ r.suite.map Prod.snd).Perm (r.suite.map Prod.snd ++ [f]) :=
        List.perm_append_comm
      have hboth := (hblame.append_right (r.suite.map Prod.snd)).trans
        (by simpa using hswap.append_left (r.testCases.flatMap Prod.snd))
      simpa [failures] using hboth

private theorem perm_failures_foldl_add (offenses : List Call) :
    (offenses.foldl add {}).failures.Perm (offenses.filterMap Call.failure) := by
  induction offenses using List.reverseRecOn with
  | nil => exact .refl _
  | append_singleton offenses c ih =>
    have hlast : [c].filterMap Call.failure = c.failure.toList := by
      cases hfailure : c.failure <;> simp [hfailure]
    rw [List.foldl_append, List.foldl_cons, List.foldl_nil, List.filterMap_append, hlast]
    exact (perm_failures_add _ c).trans (ih.append_right _)

/-- The failures of a test case are those of its offenses. -/
theorem entry_filter_testCaseFailure? (testCase : String) (offenses : List Call) :
    entry testCase ((offenses.filterMap Call.testCaseFailure?).filter (·.1 == testCase)) =
      (testCase, offenses.filterMap (Call.failureIn? testCase)) := by
  rw [entry, List.filter_filterMap, List.map_filterMap]
  refine congrArg (Prod.mk testCase) (List.filterMap_congr fun c _ => ?_)
  rw [Call.testCaseFailure?, Call.failureIn?]
  cases c.failure with
  | none => simp
  | some f =>
    cases c.testCase with
    | none => simp
    | some other => by_cases heq : other = testCase <;> simp [heq]

/-- **The report on offenses** loses and repeats nothing. -/
theorem isOn_ofOffenses (offenses : List Call) : (ofOffenses offenses).IsOn offenses where
  names := by
    have hnames : (offenses.filterMap Call.testCaseFailure?).map Prod.fst =
        offenses.filterMap Call.failedTestCase? := by
      rw [List.map_filterMap]
      refine List.filterMap_congr fun c _ => ?_
      rw [Call.testCaseFailure?, Call.failedTestCase?]
      cases c.failure <;> cases c.testCase <;> rfl
    have hentries : (ofOffenses offenses).testCases.map Prod.fst =
        (offenses.filterMap Call.failedTestCase?).eraseDups := by
      rw [ofOffenses, foldl_add_eq, ← hnames]
      exact (map_groupsBy Prod.fst entry Prod.fst _).trans (List.map_id _)
    rw [hentries]
    exact firstOccurrences_eraseDups _
  testCases := by
    intro e he
    rw [ofOffenses, foldl_add_eq] at he
    obtain ⟨testCase, -, rfl⟩ := List.mem_map.mp he
    rw [entry_filter_testCaseFailure?]
  suite := by rw [ofOffenses, foldl_add_eq]
  summary := by rw [ofOffenses, foldl_add_eq]
  complete := perm_failures_foldl_add offenses

/-- A report is clean if and only if there was no failure to report. -/
theorem IsOn.isClean_iff {offenses : List Call} {r : Report} (h : r.IsOn offenses) :
    r.isClean = true ↔ ∀ c ∈ offenses, c.failure = none := by
  have hcounts : r.isClean = true ↔ r.testCases = [] ∧ r.suite = [] := by
    simp [isClean, h.summary, ReportSummary.isClean]
  rw [hcounts]
  constructor
  · rintro ⟨htestCases, hsuite⟩ c hc
    have hcomplete := h.complete
    rw [failures, htestCases, hsuite] at hcomplete
    exact List.filterMap_eq_nil_iff.mp hcomplete.nil_eq.symm c hc
  · intro hnone
    constructor
    · refine List.eq_nil_iff_forall_not_mem.mpr fun e he => ?_
      have hname := (h.names.mem_iff e.1).mp (List.mem_map_of_mem he)
      obtain ⟨c, hc, hfailed⟩ := List.mem_filterMap.mp hname
      simp [Call.failedTestCase?, hnone c hc] at hfailed
    · rw [h.suite, List.filterMap_eq_nil_iff]
      intro c hc
      simp [Call.suiteFailure?, hnone c hc]

end Report

/-! ### Verified recordings -/

theorem ContractPass.failure_ne_none {real : List Call} {h : Hierarchy} {stubs : List Call}
    {c : Call} (hc : c ∈ (ContractPass.run real h stubs).value) : c.failure ≠ none := by
  obtain ⟨stub, -, hstub⟩ := List.mem_filterMap.mp
    (show c ∈ ContractPass.offenses real h stubs from hc)
  obtain ⟨f, -, rfl⟩ := Option.map_eq_some_iff.mp hstub
  exact Option.some_ne_none _

theorem TypePass.failure_ne_none {checker : Checker} {env : Environment} {strict : Bool}
    {mocked found : List Call} (h : TypePass.offenses checker env strict mocked = .ok found) :
    ∀ c ∈ found, c.failure ≠ none := by
  induction mocked generalizing found with
  | nil =>
    cases h
    exact List.forall_mem_nil _
  | cons c mocked ih =>
    rw [TypePass.offenses] at h
    cases hcheck : checker.check env c strict with
    | error fault => simp [hcheck, bind, Except.bind] at h
    | ok failure =>
      cases hrest : TypePass.offenses checker env strict mocked with
      | error fault => simp [hcheck, hrest, bind, Except.bind] at h
      | ok rest =>
        simp only [hcheck, hrest, bind, Except.bind, pure, Except.pure, Except.ok.injEq] at h
        subst h
        rw [List.forall_mem_append]
        refine ⟨?_, ih hrest⟩
        cases failure with
        | none => exact List.forall_mem_nil _
        | some f => exact List.forall_mem_singleton.mpr (Option.some_ne_none _)

theorem TypePass.exists_offenses_of_run {checker : Checker} {env : Environment}
    {real mocked : List Call} {strict : Bool} {pass : Logged (Checker × List Call)}
    (h : TypePass.run checker env real mocked strict = .ok pass) :
    ∃ informed, TypePass.offenses informed env strict mocked = .ok pass.value.2 := by
  rw [TypePass.run] at h
  cases hinfer : Inference.infer real with
  | error fault => simp [hinfer, bind, Except.bind] at h
  | ok inferred =>
    cases hfound : TypePass.offenses (checker.learn inferred) env strict mocked with
    | error fault => simp [hinfer, hfound, bind, Except.bind] at h
    | ok found =>
      simp only [hinfer, hfound, bind, Except.bind, pure, Except.pure, Except.ok.injEq] at h
      subst h
      exact ⟨_, hfound⟩

namespace Command

variable {files : Files} {settings : VerifyRequest} {o : FoundOffenses}

private theorem checkMocked_failure_ne_none {env : Environment} {real mocked found : List Call}
    (h : (checkMocked files settings env real mocked).value = .ok found) :
    ∀ c ∈ found, c.failure ≠ none := by
  rw [checkMocked, Logged.value_bind] at h
  cases hchecker : (checkerFor files env settings.signatureDirs).value with
  | error e => simp [hchecker] at h
  | ok checker =>
    cases hrun : TypePass.run checker env real mocked settings.raiseOnMissing with
    | error fault => simp [hchecker, hrun] at h
    | ok pass =>
      obtain ⟨informed, hfound⟩ := TypePass.exists_offenses_of_run hrun
      simp only [hchecker, hrun, Logged.value_bind, Logged.value_pure, Except.ok.injEq] at h
      subst h
      exact TypePass.failure_ne_none hfound

/-- The passes that were asked for find what is found in recordings that can be read. -/
theorem value_runPasses {real mocked : List Call} {catalog : Catalog}
    (hread : readRecordings files settings = .ok (real, mocked, catalog)) :
    (runPasses files settings).value =
      (if settings.typeCheck then checkMocked files settings catalog.environment real mocked
        else pure (.ok [])).value.map fun typeOffenses =>
          { typeOffenses
            contractOffenses := (if settings.contracts then
              ContractPass.run real catalog.environment.hierarchy mocked else pure []).value } := by
  rw [runPasses, hread]
  dsimp only
  split_ifs
  · rw [Logged.value_bind]
    cases (checkMocked files settings catalog.environment real mocked).value <;> rfl
  · rw [Logged.value_bind]
    cases (checkMocked files settings catalog.environment real mocked).value <;> rfl
  · rfl
  · rfl

/-- Every offense that the passes found has a failure, and a pass that was not asked for found
none. -/
theorem found_of_runPasses (h : (runPasses files settings).value = .ok o) :
    (∀ c ∈ o.offenses, c.failure ≠ none) ∧ (settings.typeCheck = false → o.typeOffenses = []) ∧
      (settings.contracts = false → o.contractOffenses = []) := by
  cases hread : readRecordings files settings with
  | error e => simp [runPasses, hread] at h
  | ok read =>
    obtain ⟨real, mocked, catalog⟩ := read
    rw [value_runPasses hread] at h
    cases hchecked : (if settings.typeCheck then
        checkMocked files settings catalog.environment real mocked else pure (.ok [])).value with
    | error e => simp [hchecked, Except.map] at h
    | ok typeOffenses =>
      rw [hchecked] at h
      obtain rfl := Except.ok.inj h
      refine ⟨List.forall_mem_append.mpr ⟨?_, ?_⟩, fun hoff => ?_, fun hoff => ?_⟩
      · split_ifs at hchecked
        · exact checkMocked_failure_ne_none hchecked
        · exact Except.ok.inj hchecked ▸ List.forall_mem_nil _
      · dsimp only
        split_ifs
        · exact fun c => ContractPass.failure_ne_none
        · exact List.forall_mem_nil _
      · rw [hoff] at hchecked
        exact (Except.ok.inj hchecked).symm
      · rw [hoff]
        rfl

/-- Recordings that were verified are reported on. -/
theorem value_verify (files : Files) (settings : VerifyRequest) :
    (verify files settings).value =
      (runPasses files settings).value.map fun o => Report.ofOffenses o.offenses := by
  rw [verify]
  split_ifs <;> rfl

/-- The report on what was found is clean if and only if no pass that was asked for found an
offense. -/
theorem isClean_ofOffenses_iff (h : (runPasses files settings).value = .ok o) :
    (Report.ofOffenses o.offenses).isClean = true ↔
      (settings.typeCheck = true → o.typeOffenses = []) ∧
        (settings.contracts = true → o.contractOffenses = []) := by
  obtain ⟨hfailures, htypes, hcontracts⟩ := found_of_runPasses h
  have hnil : (∀ c ∈ o.offenses, c.failure = none) ↔ o.offenses = [] :=
    ⟨fun hnone => List.eq_nil_iff_forall_not_mem.mpr fun c hc => hfailures c hc (hnone c hc),
      fun heq => heq ▸ List.forall_mem_nil _⟩
  rw [(Report.isOn_ofOffenses o.offenses).isClean_iff, hnil, FoundOffenses.offenses,
    List.append_eq_nil_iff]
  have hasked {asked : Bool} {p : Prop} (hoff : asked = false → p) : p ↔ (asked = true → p) := by
    cases asked <;> simp_all
  exact and_congr (hasked htypes) (hasked hcontracts)

end Command

namespace CommandLine

/-- The request of a command that verifies recordings. -/
def Job.verifyRequest? (c : Configuration) : Job → Option VerifyRequest
  | .verify real mocks typeCheck signatureDirs noContracts =>
    some { real, mocks, typeCheck, signatureDirs, contracts := !noContracts
           raiseOnMissing := c.raiseOnMissingAutoTypes }
  | _ => none

/-- The program ends with zero if the report on the verified recordings is clean, and else with
one. -/
theorem exitCode_run {files : Files} {s : Surroundings} {words : List String} {i : Invocation}
    {c : Configuration} {settings : VerifyRequest} {o : FoundOffenses}
    (hparse : parse words s.configuration = .ok i)
    (hconfiguration : loadConfiguration files s i = .ok c)
    (hjob : i.job.verifyRequest? c = some settings)
    (hfound : (Command.runPasses files settings).value = .ok o) :
    (run files s words).exitCode =
      if (Report.ofOffenses o.offenses).isClean then 0 else 1 := by
  obtain ⟨path, job⟩ := i
  cases job with
  | verify real mocks typeCheck signatureDirs noContracts =>
    cases Option.some.inj hjob
    have hverify := Command.value_verify files
      { real, mocks, typeCheck, signatureDirs, contracts := !noContracts
        raiseOnMissing := c.raiseOnMissingAutoTypes }
    rw [hfound] at hverify
    rw [run, hparse]
    simp only [hconfiguration, follow, Job.run, Logged.value_bind, Logged.value_pure, hverify]
    rfl
  | _ => cases hjob

end CommandLine

/-- **Reporting loses and repeats nothing.** The report on any offenses has one entry for each test
case that fails, in the order of first appearance and with exactly the failures of its offenses, and
the failures of no test case one by one; it leaves out offenses without a failure, and counts what
it has. Whenever two recordings can be verified, the report is clean if and only if no pass that was
asked for found an offense, and so the program ends with zero, and else with one. -/
theorem reporting_is_complete :
    (∀ offenses : List Call, (Report.ofOffenses offenses).IsOn offenses) ∧
    (∀ (files : Files) (settings : VerifyRequest) (o : FoundOffenses),
      (Command.runPasses files settings).value = .ok o →
        (Command.verify files settings).value = .ok (Report.ofOffenses o.offenses) ∧
        ((Report.ofOffenses o.offenses).isClean = true ↔
          (settings.typeCheck = true → o.typeOffenses = []) ∧
            (settings.contracts = true → o.contractOffenses = [])) ∧
        ∀ (s : CommandLine.Surroundings) (words : List String) (i : CommandLine.Invocation)
          (c : Configuration), CommandLine.parse words s.configuration = .ok i →
          CommandLine.loadConfiguration files s i = .ok c →
          i.job.verifyRequest? c = some settings →
            (CommandLine.run files s words).exitCode =
              if (Report.ofOffenses o.offenses).isClean then 0 else 1) := by
  refine ⟨Report.isOn_ofOffenses, fun files settings o hfound => ⟨?_, ?_, ?_⟩⟩
  · rw [Command.value_verify, hfound]
    rfl
  · exact Command.isClean_ofOffenses_iff hfound
  · exact fun s words i c hparse hconfiguration hjob =>
      CommandLine.exitCode_run hparse hconfiguration hjob hfound

/-- A recording without calls, one of a call that no real call bears out, and settings that change
nothing. -/
def readings : Files where
  look path :=
    if path = "real.json" then .file (.ok "\x7b\x7d")
    else if path = "mocks.json" then
      .file (.ok ("\x7b\"calls\": [\x7b\"method\": \"Gauge#read\", "
        ++ "\"returns\": \x7b\"Int\": 3\x7d, \"example\": \"reads\"\x7d]\x7d"))
    else if path = "settings.toml" then .file (.ok "")
    else .absent .notFound
  writeFault? _ := none

/-- The test case with the call fails, and the program ends with one. -/
theorem reporting_is_complete_of_readings :
    ∃ o, (Command.runPasses readings { real := "real.json", mocks := "mocks.json" }).value = .ok o ∧
      o.contractOffenses.map Call.testCase = [some "reads"] ∧
      (Report.ofOffenses o.offenses).IsOn o.offenses ∧
      (CommandLine.run readings { directory := "/" } ["--config", "settings.toml", "verify",
        "--real", "real.json", "--mocks", "mocks.json"]).exitCode = 1 := by
  have hany : (Command.runPasses readings { real := "real.json", mocks := "mocks.json" }).value
      |>.toOption.any fun o => o.contractOffenses.map Call.testCase == [some "reads"] := by
    decide +kernel
  cases hfound :
      (Command.runPasses readings { real := "real.json", mocks := "mocks.json" }).value with
  | error e => simp [hfound, Except.toOption] at hany
  | ok o =>
    rw [hfound] at hany
    have htestCases : o.contractOffenses.map Call.testCase = [some "reads"] := eq_of_beq hany
    obtain ⟨hreport, hverify⟩ := reporting_is_complete
    obtain ⟨-, hclean, hend⟩ := hverify readings _ o hfound
    have hexit := hend { directory := "/" } ["--config", "settings.toml", "verify",
      "--real", "real.json", "--mocks", "mocks.json"]
      ⟨some "settings.toml", .verify "real.json" "mocks.json" false [] false⟩ {}
      (by with_unfolding_all rfl) (by with_unfolding_all rfl) rfl
    refine ⟨o, rfl, htestCases, hreport _, ?_⟩
    rw [hexit, if_neg]
    intro hnone
    rw [(hclean.mp hnone).2 rfl] at htestCases
    cases htestCases

end MockAudit
