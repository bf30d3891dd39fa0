import MockAudit.Audit
import MockAudit.Proofs.Retention

/-!
# Announced phases

An audit that enters a phase announces it in the log of its program, and no other line of the log
looks like such an announcement: whatever else is logged, on whatever occasion, begins in another
way. So the log tells which phases have been entered, and in which order.

## Main definitions

* `LogLine.phase?`: the phase that a line announces.
* `announced`: the phases that lines announce, in order.
* `Machine.AnnouncesAs`: machines whose logs announce the same phases.

## Main results

* `Machine.isFrame_announcesAs`: programs announce nothing.
* `Machine.announcesAs_startTracer`, `Machine.announcesAs_stopTracer`: neither do tracers.
* `Machine.announcesAs_attachStubs`, `Machine.announcesAs_detachStubs`: nor do stubs.
* `Checker.announced_build`, `TypePass.announced_run`, `ContractPass.announced_run`: nor do the
  checks.
-/

namespace MockAudit

/-! ### Lines -/

/-- The phase that a line announces. -/
def LogLine.phase? (line : LogLine) : Option Phase :=
  Phase.all.find? fun p => line = .debug ("Entering phase " ++ p.name)

/-- The phases that lines announce, in order. -/
def announced (lines : List LogLine) : List Phase :=
  lines.filterMap LogLine.phase?

/-- A text that begins in another way than announcements do. -/
def BeginsOtherwise (text : String) : Prop :=
  ∃ c, text.toList.head? = some c ∧ c ≠ 'E'

theorem BeginsOtherwise.append {text : String} (h : BeginsOtherwise text) (rest : String) :
    BeginsOtherwise (text ++ rest) := by
  obtain ⟨c, hhead, hc⟩ := h
  exact ⟨c, by rw [String.toList_append, List.head?_append, hhead, Option.some_or], hc⟩

namespace LogLine

/-- What an audit logs when it enters a phase announces this phase. -/
theorem phase?_entering (p : Phase) : (debug ("Entering phase " ++ p.name)).phase? = some p := by
  cases p <;> decide

theorem phase?_debug {text : String} (h : BeginsOtherwise text) : (debug text).phase? = none := by
  obtain ⟨c, hhead, hc⟩ := h
  refine List.find?_eq_none.mpr fun p _ heq => ?_
  obtain rfl : text = "Entering phase " ++ p.name := congrArg message (of_decide_eq_true heq)
  rw [String.toList_append, List.head?_append] at hhead
  exact hc (Option.some.inj hhead).symm

private theorem phase?_of_level {line : LogLine} (h : line.level ≠ .debug) :
    line.phase? = none := by
  refine List.find?_eq_none.mpr fun p _ heq => h ?_
  rw [of_decide_eq_true heq]
  rfl

theorem phase?_info (text : String) : (info text).phase? = none :=
  phase?_of_level (by simp [info])

private theorem phase?_warn (text : String) : (warn text).phase? = none :=
  phase?_of_level (by simp [warn])

private theorem phase?_error (text : String) : (error text).phase? = none :=
  phase?_of_level (by simp [error])

end LogLine

theorem announced_append (lines lines' : List LogLine) :
    announced (lines ++ lines') = announced lines ++ announced lines' :=
  List.filterMap_append

theorem announced_eq_nil_iff {lines : List LogLine} :
    announced lines = [] ↔ ∀ line ∈ lines, line.phase? = none :=
  List.filterMap_eq_nil_iff

theorem announced_singleton_eq_nil {line : LogLine} (h : line.phase? = none) :
    announced [line] = [] :=
  announced_eq_nil_iff.mpr (List.forall_mem_singleton.mpr h)

/-! ### Checks -/

namespace Checker

/-- Loading from several sources announces nothing if loading from each does not. -/
theorem announced_loadEach {load : Declarations → String → Logged Declarations.LoadResult}
    (h : ∀ d source, announced (load d source).lines = []) (d : Declarations)
    (sources : List String) : announced (Declarations.loadEach load d sources).lines = [] := by
  induction sources generalizing d with
  | nil => rfl
  | cons source sources ih =>
    rw [Declarations.loadEach, Logged.lines_bind, announced_append, h, List.nil_append]
    rcases (load d source).value with ⟨d', e | count⟩
    · rfl
    · exact (announced_append _ _).trans (by rw [ih]; rfl)

private theorem announced_loadText (d : Declarations) (env : Environment) (text source : String) :
    announced (d.loadText env text source).lines = [] := by
  rw [Declarations.loadText]
  split
  · rfl
  · refine (announced_append _ _).trans ?_
    rw [announced_eq_nil_iff.mpr]
    · rfl
    · intro line hline
      obtain ⟨entry, -, hentry⟩ := List.mem_flatMap.mp hline
      obtain ⟨t, -, rfl⟩ := List.mem_map.mp hentry
      exact LogLine.phase?_warn _

private theorem announced_loadDirectory (d : Declarations) (files : Files) (env : Environment)
    (directory : String) : announced (d.loadDirectory files env directory).lines = [] := by
  rw [Declarations.loadDirectory]
  split
  · refine announced_loadEach (fun d path => ?_) d _
    rw [Declarations.loadFile]
    split
    · rfl
    · exact announced_loadText d env _ _
  · rfl
  · exact announced_singleton_eq_nil
      (LogLine.phase?_debug (.append (.append ⟨'S', rfl, by decide⟩ _) _))

/-- Building a checker announces nothing. -/
theorem announced_build (files : Files) (kind : CheckerKind) (env : Environment)
    (directories : List String) : announced (build files kind env directories).lines = [] := by
  cases kind with
  | annotations => rfl
  | signatures =>
    rw [build]
    have hload : announced (Declarations.loadDirectories {} files env directories).lines = [] :=
      announced_loadEach (fun d directory => announced_loadDirectory d files env directory) _ _
    rw [Logged.lines_bind, announced_append, hload, List.nil_append]
    rcases (Declarations.loadDirectories {} files env directories).value with ⟨d, e | count⟩
    · rfl
    · exact announced_singleton_eq_nil (LogLine.phase?_debug
        (.append (.append (.append (.append ⟨'L', rfl, by decide⟩ _) _) _) _))

/-- Checking a call announces nothing. -/
theorem announced_checkLog (checker : Checker) (c : Call) (strict : Bool) :
    announced (checker.checkLog c strict) = [] := by
  cases checker with
  | annotations table => rfl
  | signatures d =>
    rw [checkLog]
    split_ifs
    · exact announced_singleton_eq_nil
        (LogLine.phase?_debug (.append (.append ⟨'N', rfl, by decide⟩ _) _))
    · rfl

/-- Learning announces nothing. -/
theorem announced_learnLog (checker : Checker) (env : Environment)
    (inferred : List UsageProfile) : announced (checker.learnLog env inferred) = [] := by
  cases checker with
  | annotations table =>
    exact announced_singleton_eq_nil
      (LogLine.phase?_debug (.append (.append ⟨'L', rfl, by decide⟩ _) _))
  | signatures d =>
    rw [learnLog, announced_append, List.append_eq_nil_iff]
    constructor
    · refine announced_eq_nil_iff.mpr (List.forall_mem_map.mpr fun t _ => ?_)
      exact LogLine.phase?_debug (.append (.append ⟨'I', rfl, by decide⟩ _) _)
    · exact announced_singleton_eq_nil (LogLine.phase?_debug
        (.append (.append (.append (.append ⟨'L', rfl, by decide⟩ _) _) _) _))

end Checker

/-- The type pass announces nothing. -/
theorem TypePass.announced_run {checker : Checker} {env : Environment} {real mocked : List Call}
    {strict : Bool} {pass : Logged (Checker × List Call)}
    (h : TypePass.run checker env real mocked strict = .ok pass) : announced pass.lines = [] := by
  obtain ⟨inferred, -, h⟩ := exists_of_bind_eq_ok h
  obtain ⟨found, -, h⟩ := exists_of_bind_eq_ok h
  obtain rfl := Except.ok.inj h
  have hchecks : announced (mocked.flatMap ((checker.learn inferred).checkLog · strict)) = [] := by
    refine announced_eq_nil_iff.mpr fun line hline => ?_
    obtain ⟨c, -, hc⟩ := List.mem_flatMap.mp hline
    exact announced_eq_nil_iff.mp (Checker.announced_checkLog _ c strict) line hc
  have hverdict : (verdictLine found.length).phase? = none := by
    rw [verdictLine]
    split_ifs
    · exact LogLine.phase?_info _
    · exact LogLine.phase?_error _
  have hinferred : (LogLine.debug ("Inferred " ++ toString inferred.length
      ++ " signature(s) from real calls")).phase? = none :=
    LogLine.phase?_debug (.append (.append ⟨'I', rfl, by decide⟩ _) _)
  have hstarted : (LogLine.info
      "Type-checking mocked calls against auto-generated signatures...").phase? = none :=
    LogLine.phase?_info _
  simp only [Logged.lines_bind, Logged.lines_pure, Logged.line, Logged.write, announced_append,
    announced_singleton_eq_nil hinferred, announced_singleton_eq_nil hstarted,
    announced_singleton_eq_nil hverdict, Checker.announced_learnLog, hchecks, List.append_nil]

/-- The contract pass announces nothing. -/
theorem ContractPass.announced_run (real : List Call) (h : Hierarchy) (stubs : List Call) :
    announced (ContractPass.run real h stubs).lines = [] := by
  have hstubs : announced (stubs.map stubLine) = [] := by
    refine announced_eq_nil_iff.mpr (List.forall_mem_map.mpr fun stub _ => ?_)
    rw [stubLine]
    split_ifs
    · exact LogLine.phase?_debug (.append ⟨'S', rfl, by decide⟩ _)
    · exact LogLine.phase?_debug
        (.append (.append (.append (.append ⟨'G', rfl, by decide⟩ _) _) _) _)
  have hverdict (failed : Nat) : (verdictLine failed).phase? = none := by
    rw [verdictLine]
    split_ifs
    · exact LogLine.phase?_info _
    · exact LogLine.phase?_error _
  have hstarted : (LogLine.info "Verifying mock contracts...").phase? = none :=
    LogLine.phase?_info _
  simp only [ContractPass.run, Logged.lines_bind, Logged.lines_pure, Logged.line, Logged.write,
    announced_append, announced_singleton_eq_nil hstarted,
    announced_singleton_eq_nil (hverdict _), hstubs, List.append_nil]

/-! ### Machines -/

namespace Machine

/-- The log of one machine announces the same phases as that of the other. -/
def AnnouncesAs (m n : Machine) : Prop :=
  announced n.log = announced m.log

variable {l m n : Machine}

theorem AnnouncesAs.refl (m : Machine) : m.AnnouncesAs m :=
  rfl

theorem AnnouncesAs.trans (h : l.AnnouncesAs m) (h' : m.AnnouncesAs n) : l.AnnouncesAs n :=
  Eq.trans h' h

private theorem announcesAs_of_log {lines : List LogLine} (hlog : n.log = m.log ++ lines)
    (hlines : announced lines = []) : m.AnnouncesAs n := by
  rw [AnnouncesAs, hlog, announced_append, hlines, List.append_nil]

private theorem announcesAs_write (m : Machine) {lines : List LogLine} (h : announced lines = []) :
    m.AnnouncesAs (m.write lines) :=
  announcesAs_of_log rfl h

private theorem announced_finishLog (c : Capture) (index : Nat) (o : Outcome) :
    announced (c.finishLog index o) = [] := by
  cases o with
  | raised e => rfl
  | returned v =>
    rw [Capture.finishLog]
    cases c.records[index]? with
    | none => rfl
    | some call =>
      rw [Option.map_some, Option.getD_some, Capture.settleLog]
      split_ifs
      · exact announced_singleton_eq_nil (LogLine.phase?_debug (.append ⟨'R', rfl, by decide⟩ _))
      · rfl

private theorem announcesAs_tell (m : Machine) (e : Event) (observer : Nat) :
    m.AnnouncesAs (m.tell e observer) := by
  rw [tell]
  split
  · exact .refl m
  · exact .refl m
  · split
    · exact .refl m
    · refine announcesAs_of_log rfl ?_
      rw [Capture.observeLog.eq_def]
      split
      · exact announced_finishLog _ _ _
      · rfl

private theorem announcesAs_notify (m : Machine) (audience : List Nat) (e : Event) :
    m.AnnouncesAs (m.notify audience e) := by
  induction audience generalizing m with
  | nil => exact .refl m
  | cons observer audience ih => exact (m.announcesAs_tell e observer).trans (ih _)

theorem announcesAs_deliver (m : Machine) (sink : Sink) (c : Call) :
    m.AnnouncesAs (m.deliver sink c).1 := by
  have hlog : announced (m.judgeLog sink.judge c) = [] := by
    rw [judgeLog.eq_def]
    split
    · exact Checker.announced_checkLog _ c _
    · rfl
  rw [deliver]
  split <;> exact announcesAs_of_log rfl hlog

/-- No step of a program announces a phase. -/
theorem isFrame_announcesAs (change : Nat → List TestContext → List TestContext) :
    IsFrame AnnouncesAs (.ofContexts change) where
  refl := .refl
  trans := .trans
  heap _ _ := rfl
  callback _ _ := rfl
  notify := announcesAs_notify
  deliver := announcesAs_deliver
  recording _ _ _ _ _ _ := rfl
  recordEnded m tracer index o := by
    refine announcesAs_of_log rfl ?_
    cases m.tracers[tracer]? with
    | none => rfl
    | some t => exact announced_finishLog _ _ _

/-! ### Tracers and stubs -/

private theorem announcesAs_wrap (tracer : Nat) (state : Machine × List Displaced)
    (key : MethodRef) : state.1.AnnouncesAs (wrap tracer state key).1 := by
  obtain ⟨m, displaced⟩ := state
  rw [wrap]
  split
  · exact m.announcesAs_write (announced_singleton_eq_nil (LogLine.phase?_warn _))
  · exact .refl m

private theorem announcesAs_intercept (m : Machine) (tracer : Nat) (t : Tracer) :
    m.AnnouncesAs (m.intercept tracer t).1 := by
  rw [intercept]
  cases t.strategy with
  | wrap =>
    exact List.foldlRecOn (motive := fun state => m.AnnouncesAs state.1) t.watched.keys
      (wrap tracer) (b := (m, [])) (.refl m) fun state h key _ =>
        h.trans (announcesAs_wrap tracer state key)
  | events => exact .refl m

private theorem log_release (m : Machine) (i : Interception) : (m.release i).log = m.log := by
  cases i with
  | wrapped displaced => rw [release, restoreAll_eq]
  | subscribed observer => rfl

/-- Starting a tracer announces nothing. -/
theorem announcesAs_startTracer (m : Machine) (tracer : Nat) :
    m.AnnouncesAs (m.startTracer tracer).1 := by
  rw [startTracer]
  split
  · rename_i t _
    split
    · refine (m.announcesAs_intercept tracer t).trans (announcesAs_of_log rfl ?_)
      exact announced_singleton_eq_nil (LogLine.phase?_debug
        (.append (.append (.append ⟨'T', rfl, by decide⟩ _) _) _))
    · exact .refl m
  · exact .refl m

theorem announcesAs_startTracing (m : Machine) (strategy : Strategy) (filter : ArtifactFilter)
    (watched : WatchList) : m.AnnouncesAs (m.startTracing strategy filter watched) :=
  (m.addTracer { strategy, filter, watched }).1.announcesAs_startTracer m.tracers.length

/-- Stopping a tracer announces nothing. -/
theorem announcesAs_stopTracer {tracer : Nat} {calls : List Call}
    (h : m.stopTracer tracer = .ok (n, calls)) : m.AnnouncesAs n := by
  have hline (number filtered : Nat) : announced [.debug ("Collected " ++ toString number
      ++ " real calls (" ++ toString filtered ++ " were filtered)")] = [] :=
    announced_singleton_eq_nil (LogLine.phase?_debug
      (.append (.append (.append (.append ⟨'C', rfl, by decide⟩ _) _) _) _))
  cases ht : m.tracers[tracer]? with
  | none =>
    rw [stopTracer, ht] at h
    cases h
    exact .refl m
  | some t =>
    cases hstate : t.state with
    | stopped calls' stats =>
      simp only [stopTracer, ht, hstate] at h
      cases h
      exact .refl m
    | ready =>
      simp only [stopTracer, ht, hstate] at h
      obtain ⟨calls', -, hstopped⟩ := exists_of_bind_eq_ok h
      cases hstopped
      exact m.announcesAs_write (hline _ _)
    | running i =>
      simp only [stopTracer, ht, hstate] at h
      obtain ⟨calls', -, hstopped⟩ := exists_of_bind_eq_ok h
      cases hstopped
      have hreleased : m.AnnouncesAs (m.release i) := congrArg announced (m.log_release i)
      exact hreleased.trans (announcesAs_write _ (hline _ _))

private theorem log_replaceByStubs (sink : Sink) (state : Machine × List Displaced)
    (key : MethodRef) (stubs : List Call) :
    (replaceByStubs sink state key stubs).1.log = state.1.log := by
  cases stubs <;> rfl

private theorem log_stubMethod (r : Registry) (sink : Sink) (state : Machine × List Displaced)
    (key : MethodRef) : (stubMethod r sink state key).1.log = state.1.log := by
  rw [stubMethod]
  split <;> simp only [log_replaceByStubs]

/-- Attaching stubs announces nothing. -/
theorem announcesAs_attachStubs (m : Machine) (r : Registry) (sink : Sink) :
    m.AnnouncesAs (m.attachStubs r sink).1 := by
  have hlog : ((stubbedKeys r).foldl (stubMethod r sink) (m, [])).1.log = m.log :=
    List.foldlRecOn (motive := fun state => state.1.log = m.log) (stubbedKeys r)
      (stubMethod r sink) rfl fun state h key _ => (log_stubMethod r sink state key).trans h
  have hline (number : Nat) (suffix : String) : announced [.debug ("Installed "
      ++ toString number ++ " partial stub(s)" ++ suffix)] = [] :=
    announced_singleton_eq_nil (LogLine.phase?_debug
      (.append (.append (.append ⟨'I', rfl, by decide⟩ _) _) _))
  rw [attachStubs, installStubs]
  rcases hstate : (stubbedKeys r).foldl (stubMethod r sink) (m, []) with ⟨n, displaced⟩
  rw [hstate] at hlog
  cases (stubbedKeys r).flatMap fun key => (r.stubsOf key).filter isOnDouble with
  | nil => exact announcesAs_of_log (congrArg (· ++ _) hlog) (hline _ _)
  | cons stub stubs => exact announcesAs_of_log (congrArg (· ++ _) hlog) (hline _ _)

theorem announcesAs_detachStubs (m : Machine) (number : Nat) :
    m.AnnouncesAs (m.detachStubs number) := by
  obtain ⟨methods, doubleHandler, stubSets, hdetach⟩ := m.detachStubs_eq number
  rw [hdetach]
  rfl

end Machine

end MockAudit
