import MockAudit.Proofs.Announcements
import MockAudit.Proofs.TracerLife

/-!
# Preparations

A preparation can fail at two points: when the checker is built from signature files, and when the
patterns of ignored locations are read. By then the audit has entered its next phase and has been
attached to its program, and nothing of this is taken back. So a preparation that failed leaves an
audit that neither traces anything nor can be prepared again, although its program is as it was
(`Audit.prepare_idle`); and it is refused even when the cause has been removed
(`failed_preparation_is_final`).

## Main definitions

* `Audit.preparedChecker`: the checker that a preparation provides.
* `Audit.readied`: an audit that has been attached, without a tracer.
* `Audit.Prepared`: how a preparation may go.

## Main results

* `Audit.prepare_cases`: the cases of a preparation.
* `Audit.prepare_idle`: when a preparation fails, and what it leaves behind.
-/

namespace MockAudit

/-- Calls are collected only after an audit was idle. -/
theorem Phase.eq_idle_of_mayEnter {p : Phase} (h : p.mayEnter .collecting = true) : p = .idle := by
  cases p with
  | idle => rfl
  | _ => cases h

/-- A tracer that was just added can be started. -/
theorem Machine.startTracer_addTracer (m : Machine) (strategy : Strategy) (filter : ArtifactFilter)
    (watched : WatchList) :
    (m.addTracer { strategy, filter, watched }).1.startTracer m.tracers.length =
      (m.startTracing strategy filter watched, .ok ()) := by
  obtain ⟨lines, hstart⟩ := Machine.startTracer_of_ready
    (m := (m.addTracer { strategy, filter, watched }).1) List.getElem?_concat_length rfl
  exact Prod.ext rfl (by rw [hstart])

namespace Checker

variable {now next : Phase}

/-- Loading from several sources is not refused for a phase if loading from each is not. -/
theorem loadEach_ne_phase {load : Declarations → String → Logged Declarations.LoadResult}
    (h : ∀ d source, (load d source).value.2 ≠ .error (.phase now next)) (d : Declarations)
    (sources : List String) :
    (Declarations.loadEach load d sources).value.2 ≠ .error (.phase now next) := by
  induction sources generalizing d with
  | nil => simp [Declarations.loadEach]
  | cons source sources ih =>
    have hsource := h d source
    rw [Declarations.loadEach, Logged.value_bind]
    generalize (load d source).value = loaded at hsource ⊢
    obtain ⟨d', e | count⟩ := loaded
    · exact hsource
    · have hrest := ih d'
      dsimp only
      rw [Logged.value_bind]
      generalize (Declarations.loadEach load d' sources).value = others at hrest ⊢
      obtain ⟨d'', e | number⟩ := others
      · exact hrest
      · simp [Except.map]

private theorem loadText_ne_phase (d : Declarations) (env : Environment) (text source : String) :
    (d.loadText env text source).value.2 ≠ .error (.phase now next) := by
  rw [Declarations.loadText]
  split
  · simp
  · simp only [Logged.value_bind, Logged.value_pure]
    split <;> simp

private theorem loadDirectory_ne_phase (d : Declarations) (files : Files) (env : Environment)
    (directory : String) :
    (d.loadDirectory files env directory).value.2 ≠ .error (.phase now next) := by
  rw [Declarations.loadDirectory]
  split
  · refine loadEach_ne_phase (fun d path => ?_) d _
    rw [Declarations.loadFile]
    split
    · simp
    · exact loadText_ne_phase d env _ _
  · simp
  · simp

/-- No checker is refused for a phase. -/
theorem build_ne_phase (files : Files) (kind : CheckerKind) (env : Environment)
    (directories : List String) :
    (build files kind env directories).value ≠ .error (.phase now next) := by
  cases kind with
  | annotations => simp [build]
  | signatures =>
    have hload : (Declarations.loadDirectories {} files env directories).value.2 ≠
        .error (.phase now next) :=
      loadEach_ne_phase (fun d directory => loadDirectory_ne_phase d files env directory) _ _
    rw [build, Logged.value_bind]
    generalize (Declarations.loadDirectories {} files env directories).value = loaded at hload ⊢
    obtain ⟨d, e | count⟩ := loaded
    · exact fun h => hload (congrArg Except.error (Except.error.inj h))
    · simp

end Checker

namespace Audit

/-- The checker that a preparation provides: the one there is, or else the one that is asked for. -/
def preparedChecker (a : Audit) (files : Files) : Except Error (Option Checker) :=
  match a.configuration.typeCheck, a.machine.checker with
  | some kind, none =>
    (Checker.build files kind a.machine.environment a.configuration.signatureDirs).value.map some
  | _, checker => .ok checker

/-- An audit that has been attached to its program with some checker, after some lines have been
logged. -/
def readied (a : Audit) (checker : Option Checker) (lines : List LogLine) : Audit :=
  { a with
    phase := .collecting
    attached := true
    machine := { a.machine with checker, log := a.machine.log ++ lines } }

/-- How a preparation may go. It is refused if the audit is not idle. Else it fails at the checker
or at the filter of the tracer, or it succeeds without or with a tracer; whichever it is, the phase
has been entered and announced. -/
inductive Prepared (files : Files) (a : Audit) : Step Unit → Prop
  | refused (hphase : a.phase.mayEnter .collecting = false) :
    Prepared files a (a, .error (.phase a.phase .collecting))
  | failed (e : Error) (checker : Option Checker) (lines : List LogLine)
      (hidle : a.phase = .idle) (hlines : announced lines = [.collecting])
      (hcause : a.preparedChecker files = .error e ∧ checker = a.machine.checker ∨
        a.preparedChecker files = .ok checker ∧ a.configuration.traceRealCalls = true ∧
          a.configuration.filter? = none ∧ e = .pattern) :
    Prepared files a (a.readied checker lines, .error e)
  | untraced (checker : Option Checker) (lines : List LogLine)
      (hidle : a.phase = .idle) (hlines : announced lines = [.collecting])
      (hchecker : a.preparedChecker files = .ok checker)
      (htrace : a.configuration.traceRealCalls = false) :
    Prepared files a (a.readied checker lines, .ok ())
  | traced (checker : Option Checker) (lines : List LogLine) (filter : ArtifactFilter)
      (watched : WatchList) (hidle : a.phase = .idle) (hlines : announced lines = [.collecting])
      (hchecker : a.preparedChecker files = .ok checker)
      (htrace : a.configuration.traceRealCalls = true)
      (hfilter : a.configuration.filter? = some filter) :
    Prepared files a
      ({ a.readied checker lines with
        machine := (a.readied checker lines).machine.startTracing a.configuration.traceVia filter
          watched
        tracer := some a.machine.tracers.length }, .ok ())

variable {a b : Audit} {files : Files}

/-- The checker that is asked for is not refused for the phase. -/
theorem preparedChecker_ne_phase (a : Audit) (files : Files) {now next : Phase} :
    a.preparedChecker files ≠ .error (.phase now next) := by
  rw [preparedChecker]
  split
  · rename_i kind _ _
    have hbuild : (Checker.build files kind a.machine.environment
        a.configuration.signatureDirs).value ≠ .error (.phase now next) :=
      Checker.build_ne_phase files kind _ _
    cases hvalue : (Checker.build files kind a.machine.environment
        a.configuration.signatureDirs).value with
    | error e =>
      rw [hvalue] at hbuild
      exact fun h => hbuild (congrArg Except.error (Except.error.inj h))
    | ok checker => simp [Except.map]
  · simp

private theorem write_useChecker_write (a : Audit) (lines lines' : List LogLine)
    (checker : Checker) : ((a.write lines).useChecker checker).write lines' =
      { a with machine := { a.machine with
          checker := some checker, log := a.machine.log ++ (lines ++ lines') } } := by
  simp only [useChecker, write, Machine.write, List.append_assoc]

/-- A checker is provided, or fails to be built, without an announcement. -/
theorem ensureChecker_cases (a : Audit) (files : Files) :
    (∃ e lines, announced lines = [] ∧ a.preparedChecker files = .error e ∧
      a.ensureChecker files = (a.write lines, .error e)) ∨
    ∃ checker lines, announced lines = [] ∧ a.preparedChecker files = .ok checker ∧
      a.ensureChecker files =
        ({ a with machine := { a.machine with checker, log := a.machine.log ++ lines } },
          .ok ()) := by
  have hkept (hprepared : a.preparedChecker files = .ok a.machine.checker)
      (hensured : a.ensureChecker files = (a, .ok ())) : ∃ checker lines, announced lines = [] ∧
        a.preparedChecker files = .ok checker ∧ a.ensureChecker files =
          ({ a with machine := { a.machine with checker, log := a.machine.log ++ lines } },
            .ok ()) :=
    ⟨a.machine.checker, [], rfl, hprepared, by rw [hensured, List.append_nil]⟩
  cases hkind : a.configuration.typeCheck with
  | none =>
    exact .inr (hkept (by rw [preparedChecker, hkind])
      (by rw [ensureChecker, hkind]))
  | some kind =>
    cases hchecker : a.machine.checker with
    | some checker =>
      exact .inr (hkept (by rw [preparedChecker, hkind, hchecker])
        (by rw [ensureChecker, hkind, hchecker]))
    | none =>
      have hlines := Checker.announced_build files kind a.machine.environment
        a.configuration.signatureDirs
      rw [preparedChecker, hkind, hchecker, ensureChecker, hkind, hchecker]
      dsimp only
      cases (Checker.build files kind a.machine.environment
          a.configuration.signatureDirs).value with
      | error e => exact .inl ⟨e, _, hlines, rfl, rfl⟩
      | ok checker =>
        refine .inr ⟨some checker, _, ?_, rfl,
          congrArg (Prod.mk · (Except.ok ())) (a.write_useChecker_write _ _ checker)⟩
        rw [announced_append, hlines, List.nil_append]
        exact announced_singleton_eq_nil (LogLine.phase?_info _)

/-- The lines logged before a tracer is started. -/
def tracingLines (a : Audit) : List LogLine :=
  .info ("Collect real calls via " ++ a.configuration.traceVia.name) ::
    a.registry.targets.map fun (target, methods) =>
      .debug ("Trace " ++ target.text ++ " methods: " ++ String.intercalate ", " methods)

private theorem announced_tracingLines (a : Audit) : announced a.tracingLines = [] := by
  refine announced_eq_nil_iff.mpr (List.forall_mem_cons.mpr ⟨?_, List.forall_mem_map.mpr ?_⟩)
  · exact LogLine.phase?_info _
  · exact fun _ _ => LogLine.phase?_debug (.append (.append (.append ⟨'T', rfl, by decide⟩ _) _) _)

/-- A tracer is not started without its filter. -/
theorem startTracing_of_filter?_eq_none (h : a.configuration.filter? = none) :
    ∃ lines, announced lines = [] ∧ a.startTracing = (a.write lines, .error .pattern) := by
  rw [startTracing]
  dsimp only
  rw [show (a.write _).configuration.filter? = none from h]
  exact ⟨_, announced_singleton_eq_nil (LogLine.phase?_info _), rfl⟩

/-- With a filter, a tracer is added, and then it is started. -/
theorem startTracing_of_filter? {filter : ArtifactFilter}
    (h : a.configuration.filter? = some filter) : ∃ watched, a.startTracing =
      match ((a.machine.write a.tracingLines).addTracer
          { strategy := a.configuration.traceVia, filter, watched }).1.startTracer
        a.machine.tracers.length with
      | (m, .error e) => ({ a with machine := m }, .error e)
      | (m, .ok ()) =>
        ({ a with machine := m, tracer := some a.machine.tracers.length }, .ok ()) := by
  refine ⟨a.registry.targets.foldl
    (fun list (target, methods) => WatchList.watch list target methods) [], ?_⟩
  simp only [startTracing, write, Machine.write, h, List.append_assoc, List.singleton_append]
  rfl

/-- A new tracer is started without fail. -/
theorem startTracing_of_filter?_eq_some {filter : ArtifactFilter}
    (h : a.configuration.filter? = some filter) : ∃ watched, a.startTracing =
      ({ a with
          machine := (a.machine.write a.tracingLines).startTracing a.configuration.traceVia filter
            watched
          tracer := some a.machine.tracers.length }, .ok ()) := by
  obtain ⟨watched, hstart⟩ := startTracing_of_filter? h
  have hstarted := (a.machine.write a.tracingLines).startTracer_addTracer
    a.configuration.traceVia filter watched
  rw [show (a.machine.write a.tracingLines).tracers.length = a.machine.tracers.length from rfl]
    at hstarted
  rw [hstarted] at hstart
  exact ⟨watched, hstart⟩

private theorem write_readied (a : Audit) (checker : Option Checker) (lines lines' : List LogLine) :
    (a.readied checker lines).write lines' = a.readied checker (lines ++ lines') := by
  simp only [readied, write, Machine.write, List.append_assoc]

/-- The announcement of the phase that a preparation enters. -/
def readiedLine : LogLine :=
  .debug ("Entering phase " ++ Phase.collecting.name)

private theorem announced_readiedLine_cons {lines : List LogLine} (h : announced lines = []) :
    announced (readiedLine :: lines) = [.collecting] := by
  rw [← List.singleton_append, announced_append, h]
  rfl

/-- Once there is a checker, a preparation goes on to collect calls. -/
theorem prepared_of_checker {checker : Option Checker} {lines : List LogLine}
    (hidle : a.phase = .idle) (hchecker : a.preparedChecker files = .ok checker)
    (hlines : announced lines = [.collecting]) :
    a.Prepared files
      (let b := if a.configuration.storeMockedCalls then
          (a.readied checker lines).write [.info "Collect mocked calls"]
        else a.readied checker lines
      if b.configuration.traceRealCalls then b.startTracing else (b, .ok ())) := by
  obtain ⟨lines', hlines', hcollect⟩ : ∃ lines', announced lines' = [.collecting] ∧
      (if a.configuration.storeMockedCalls then
        (a.readied checker lines).write [.info "Collect mocked calls"]
      else a.readied checker lines) = a.readied checker lines' := by
    split_ifs
    · refine ⟨_, ?_, write_readied ..⟩
      rw [announced_append, hlines, announced_singleton_eq_nil
        (LogLine.phase?_info _), List.append_nil]
    · exact ⟨lines, hlines, rfl⟩
  have hlast {lines'' : List LogLine} (h : announced lines'' = []) :
      announced (lines' ++ lines'') = [.collecting] := by
    rw [announced_append, hlines', h, List.append_nil]
  rw [hcollect]
  dsimp only
  split_ifs with htrace
  · cases hfilter : a.configuration.filter? with
    | none =>
      obtain ⟨lines'', hlines'', hstart⟩ :=
        (a.readied checker lines').startTracing_of_filter?_eq_none hfilter
      rw [hstart, write_readied]
      exact .failed _ checker _ hidle (hlast hlines'') (.inr ⟨hchecker, htrace, hfilter, rfl⟩)
    | some filter =>
      obtain ⟨watched, hstart⟩ :=
        (a.readied checker lines').startTracing_of_filter?_eq_some hfilter
      have hannounced := hlast (announced_tracingLines (a.readied checker lines'))
      rw [hstart]
      have hprepared : a.Prepared files _ :=
        .traced checker _ filter watched hidle hannounced hchecker htrace hfilter
      rw [← write_readied] at hprepared
      exact hprepared
  · exact .untraced checker lines' hidle hlines' hchecker (Bool.eq_false_iff.mpr htrace)

/-- A phase that may not be entered is not, and the audit stays as it is. -/
theorem prepare_of_not_mayEnter (h : a.phase.mayEnter .collecting = false) (files : Files) :
    a.prepare files = (a, .error (.phase a.phase .collecting)) := by
  rw [prepare, enter, if_neg (by simp [h])]

/-- Else the audit is attached, and the checker comes next. -/
theorem prepare_of_mayEnter (h : a.phase.mayEnter .collecting = true) (files : Files) :
    a.prepare files =
      match (a.readied a.machine.checker [readiedLine]).ensureChecker files with
      | (b, .error e) => (b, .error e)
      | (b, .ok ()) =>
        let b := if b.configuration.storeMockedCalls then b.write [.info "Collect mocked calls"]
          else b
        if b.configuration.traceRealCalls then b.startTracing else (b, .ok ()) := by
  rw [prepare, enter, if_pos h]
  rfl

/-- **The cases of a preparation.** -/
theorem prepare_cases (a : Audit) (files : Files) : a.Prepared files (a.prepare files) := by
  cases hmay : a.phase.mayEnter .collecting with
  | false =>
    rw [prepare_of_not_mayEnter hmay]
    exact .refused hmay
  | true =>
    have hidle := Phase.eq_idle_of_mayEnter hmay
    rcases (a.readied a.machine.checker [readiedLine]).ensureChecker_cases files with
      ⟨e, lines, hlines, hchecker, hensured⟩ | ⟨checker, lines, hlines, hchecker, hensured⟩
    · rw [prepare_of_mayEnter hmay, hensured, write_readied]
      exact .failed e _ _ hidle (announced_readiedLine_cons hlines) (.inl ⟨hchecker, rfl⟩)
    · have hensured' : (a.readied a.machine.checker [readiedLine]).ensureChecker files =
          (a.readied checker (readiedLine :: lines), .ok ()) := by
        rw [hensured]
        simp [readied]
      rw [prepare_of_mayEnter hmay, hensured']
      exact prepared_of_checker hidle hchecker (announced_readiedLine_cons hlines)

/-- **Preparations that fail.** The preparation of an idle audit fails exactly if no checker can be
provided or the filter of its tracer cannot be read. Then the audit has been attached, has entered
its next phase and, if it was the filter, has kept the checker. All else but the log is as it was:
nothing is traced, no call is stored, and the methods and the subscribers of the program are the
same. Still the audit cannot be prepared again, whatever the files are by then. -/
theorem prepare_idle (hidle : a.phase = .idle) (files : Files) :
    ((∃ b e, a.prepare files = (b, .error e)) ↔
      (∃ e, a.preparedChecker files = .error e) ∨
        a.configuration.traceRealCalls = true ∧ a.configuration.filter? = none) ∧
    ∀ b e, a.prepare files = (b, .error e) →
      (∃ checker lines, b = a.readied checker lines ∧
        (a.preparedChecker files = .error e ∧ checker = a.machine.checker ∨
          a.preparedChecker files = .ok checker ∧ a.configuration.traceRealCalls = true ∧
            a.configuration.filter? = none ∧ e = .pattern)) ∧
      ∀ files', b.prepare files' = (b, .error (.phase .collecting .collecting)) := by
  have hcases := a.prepare_cases files
  refine ⟨⟨?_, ?_⟩, ?_⟩
  · rintro ⟨b, e, hfailed⟩
    rw [hfailed] at hcases
    cases hcases with
    | refused hphase =>
      rw [hidle] at hphase
      cases hphase
    | failed _ checker lines _ _ hcause =>
      exact hcause.imp (fun hchecker => ⟨e, hchecker.1⟩) fun hfilter => ⟨hfilter.2.1, hfilter.2.2.1⟩
  · intro hcause
    generalize a.prepare files = s at hcases
    cases hcases with
    | refused | failed => exact ⟨_, _, rfl⟩
    | untraced checker lines _ _ hchecker htrace =>
      rw [hchecker, htrace] at hcause
      simp at hcause
    | traced checker lines filter watched _ _ hchecker htrace hfilter =>
      rw [hchecker, hfilter] at hcause
      simp at hcause
  · intro b e hfailed
    rw [hfailed] at hcases
    cases hcases with
    | refused hphase =>
      rw [hidle] at hphase
      cases hphase
    | failed _ checker lines _ _ hcause =>
      exact ⟨⟨checker, lines, rfl, hcause⟩, fun files' => prepare_of_not_mayEnter rfl files'⟩

end Audit

/-! ### A mistake in a signature file -/

/-- Settings that check calls against signature files. -/
def declaredSettings : Configuration :=
  { typeCheck := some .signatures }

/-- A directory with one signature file. -/
def signatureFile (text : String) : Files :=
  (FileTree.ofList [("sig/tax.toml", text)]).view

/-- A file that declares a method without saying of which type. -/
def misreferred : Files :=
  signatureFile "[[methods]]\nmethod = \"for_income\"\nsignature = \"(Integer) -> Integer\"\n"

/-- The file as it should be. -/
def corrected : Files :=
  signatureFile "[[methods]]\nmethod = \"Tax.for_income\"\nsignature = \"(Integer) -> Integer\"\n"

/-- With the mistake in the file, the preparation fails, and for good. -/
theorem prepare_idle_of_misreferred :
    ∃ b e, (Audit.start declaredSettings {}).prepare misreferred = (b, .error e) ∧
      (∃ checker lines, b = (Audit.start declaredSettings {}).readied checker lines) ∧
      ∀ files', b.prepare files' = (b, .error (.phase .collecting .collecting)) := by
  have hfailed : ((Audit.start declaredSettings {}).prepare misreferred).2.isOk = false := by
    decide +kernel
  rcases hresult : (Audit.start declaredSettings {}).prepare misreferred with ⟨b, e | ⟨⟩⟩
  · obtain ⟨-, hleft⟩ :=
      Audit.prepare_idle (a := Audit.start declaredSettings {}) rfl misreferred
    obtain ⟨⟨checker, lines, hreadied, -⟩, hagain⟩ := hleft b e hresult
    exact ⟨b, e, rfl, ⟨checker, lines, hreadied⟩, hagain⟩
  · rw [hresult] at hfailed
    cases hfailed

/-- Correcting the file does not help: a new audit can be prepared then, but this one is attached
and in its next phase, and is refused. -/
theorem failed_preparation_is_final :
    let a := Audit.start declaredSettings {}
    let b := (a.prepare misreferred).1
    (a.prepare misreferred).2.isOk = false ∧ (a.phase, a.attached) = (.idle, false) ∧
      (b.phase, b.attached) = (.collecting, true) ∧ (a.prepare corrected).2.isOk = true ∧
      (b.prepare corrected).2.isOk = false := by
  decide +kernel

end MockAudit
