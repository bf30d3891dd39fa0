import MockAudit.Proofs.TracedRuns

/-!
# The order of phases

In a run of an audit, which lasts from one reset to the next, every phase is entered at most once
and after the earlier ones, whatever is done and how often. What belongs to a phase happens once: a
tracer is started by a preparation that finds the audit idle, and stopped by the conclusion that
finds it not yet concluded, which is also the only one that replaces the real calls. All later
preparations and conclusions are refused, and change nothing. A reset stops a tracer that is still
running and leads back to where the run began (`Audit.runsInOrder_undergoAll`).

That phases are entered can be read off the log, as they are announced there and nothing else looks
like an announcement. What one act enters is an ascent from the phase before it to the phase after
it, and ascents can be joined (`Audit.exists_ascent_undergoAll`). So what one act has made
impossible stays so.

## Main definitions

* `Audit.IsFresh`: audits at the beginning of a run.
* `Audit.RunsInOrder`: what can be said at every point of a run.

## Main results

* `Audit.exists_ascent_undergo`: the phases that an act enters.
* `Audit.IsFresh.runsInOrder`: what holds throughout a run.
* `Audit.runsInOrder_undergoAll`: the same between any two resets.
-/

namespace MockAudit

namespace Audit

variable {a b c : Audit} {act : Act}

/-! ### Phases -/

private theorem announcesAs_drain (h : a.drain = .ok b) : a.machine.AnnouncesAs b.machine := by
  rcases drain_cases h with ⟨-, rfl⟩ | ⟨k, m, calls, -, hstop, rfl⟩
  · rfl
  · exact Machine.announcesAs_stopTracer hstop

private theorem exists_ascent_prepare (a : Audit) (files : Files) :
    ∃ phases, announced (a.prepare files).1.machine.log = announced a.machine.log ++ phases ∧
      a.phase.Ascent phases (a.prepare files).1.phase := by
  have hcases := a.prepare_cases files
  generalize a.prepare files = s at hcases ⊢
  have hascent (hidle : a.phase = .idle) : a.phase.Ascent [.collecting] .collecting :=
    .single (by rw [hidle]; rfl)
  have hreadied (checker : Option Checker) {lines : List LogLine}
      (hlines : announced lines = [.collecting]) :
      announced (a.readied checker lines).machine.log =
        announced a.machine.log ++ [.collecting] :=
    (announced_append _ _).trans (by rw [hlines])
  cases hcases with
  | refused => exact ⟨[], (List.append_nil _).symm, .stay _⟩
  | failed e checker lines hidle hlines | untraced checker lines hidle hlines =>
    exact ⟨[.collecting], hreadied checker hlines, hascent hidle⟩
  | traced checker lines filter watched hidle hlines =>
    refine ⟨[.collecting], ?_, hascent hidle⟩
    rw [← hreadied checker hlines]
    exact Machine.announcesAs_startTracing _ _ _ _

private theorem exists_ascent_conclude (a : Audit) (debugRequest : Option String) :
    ∃ phases, announced (a.conclude debugRequest).1.machine.log =
        announced a.machine.log ++ phases ∧
      a.phase.Ascent phases (a.conclude debugRequest).1.phase := by
  have hcases := a.conclude_cases debugRequest
  generalize a.conclude debugRequest = s at hcases ⊢
  have hdraining : announced a.draining.machine.log = announced a.machine.log ++ [.draining] :=
    announced_append _ _
  cases hcases with
  | refused => exact ⟨[], (List.append_nil _).symm, .stay _⟩
  | faulty fault hmay => exact ⟨[.draining], hdraining, .single hmay⟩
  | drained _ drained hmay hdrain harrives =>
    obtain ⟨phases, hlog, hascent⟩ := harrives.proceedsTo.phases
    rw [announcesAs_drain hdrain, hdraining, List.append_assoc] at hlog
    rw [phase_of_drain hdrain] at hascent
    exact ⟨.draining :: phases, hlog, .enter hmay hascent⟩

/-- **The phases of an act** ascend from the phase before it to the phase after it. -/
theorem exists_ascent_undergo (a : Audit) (hact : act ≠ .reset) :
    ∃ phases, announced (a.undergo act).machine.log = announced a.machine.log ++ phases ∧
      a.phase.Ascent phases (a.undergo act).phase := by
  rcases act.work_or with hwork | ⟨files, rfl⟩ | ⟨debugRequest, rfl⟩ | rfl
  · have hstays := a.staysIn_undergo hwork
    rw [hstays.phase]
    exact ⟨[], Eq.trans hstays.announces (List.append_nil _).symm, .stay _⟩
  · exact a.exists_ascent_prepare files
  · exact a.exists_ascent_conclude debugRequest
  · exact absurd rfl hact

/-- The phases of several acts ascend from the first phase to the last. -/
theorem exists_ascent_undergoAll (a : Audit) {acts : List Act} (hacts : .reset ∉ acts) :
    ∃ phases, announced (a.undergoAll acts).machine.log = announced a.machine.log ++ phases ∧
      a.phase.Ascent phases (a.undergoAll acts).phase := by
  induction acts generalizing a with
  | nil => exact ⟨[], (List.append_nil _).symm, .stay _⟩
  | cons act acts ih =>
    obtain ⟨hact, hrest⟩ := List.ne_and_not_mem_of_not_mem_cons hacts
    obtain ⟨phases, hlog, hascent⟩ := a.exists_ascent_undergo hact.symm
    obtain ⟨phases', hlog', hascent'⟩ := ih (a.undergo act) hrest
    refine ⟨phases ++ phases', ?_, hascent.append hascent'⟩
    rw [← List.append_assoc, ← hlog, ← hlog']
    rfl

/-! ### What does not come again -/

/-- What may not be entered any more may not be entered after further acts either. -/
theorem mayEnter_undergoAll {acts : List Act} {p : Phase} (hacts : .reset ∉ acts)
    (h : a.phase.mayEnter p = false) : (a.undergoAll acts).phase.mayEnter p = false := by
  obtain ⟨phases, -, hascent⟩ := a.exists_ascent_undergoAll hacts
  exact hascent.mayEnter_eq_false h

theorem undergoAll_append (a : Audit) (acts acts' : List Act) :
    a.undergoAll (acts ++ acts') = (a.undergoAll acts).undergoAll acts' :=
  List.foldl_append

/-- A phase that some act of a run leaves behind does not come again in the run. -/
theorem mayEnter_of_mem {acts : List Act} {p : Phase} (hacts : .reset ∉ acts) (hact : act ∈ acts)
    (h : ∀ b : Audit, (b.undergo act).phase.mayEnter p = false) :
    (a.undergoAll acts).phase.mayEnter p = false := by
  obtain ⟨before, after, rfl⟩ := List.append_of_mem hact
  rw [undergoAll_append]
  refine mayEnter_undergoAll (a := (a.undergoAll before).undergo act) (fun hmem => hacts ?_) (h _)
  exact List.mem_append_right before (List.mem_cons_of_mem act hmem)

/-! ### Single acts -/

/-- Only a preparation that finds an audit idle and succeeds gives it a tracer. -/
theorem tracer_undergo (hact : act ≠ .reset) (h : (b.undergo act).tracer ≠ b.tracer) :
    b.phase = .idle ∧ ∃ files, act = .prepare files ∧ (b.prepare files).2 = .ok () := by
  rcases act.work_or with hwork | ⟨files, rfl⟩ | ⟨debugRequest, rfl⟩ | rfl
  · exact absurd (b.staysIn_undergo hwork).tracer h
  · rw [undergo] at h
    have hcases := b.prepare_cases files
    generalize hprepare : b.prepare files = s at hcases h
    cases hcases with
    | refused | failed | untraced => exact absurd rfl h
    | traced checker lines filter watched hidle =>
      exact ⟨hidle, files, rfl, by rw [hprepare]⟩
  · rw [undergo] at h
    have hcases := b.conclude_cases debugRequest
    generalize b.conclude debugRequest = s at hcases h
    cases hcases with
    | refused | faulty => exact absurd rfl h
    | drained _ drained hmay hdrain harrives =>
      rw [harrives.proceedsTo.tracing.1] at h
      rcases drain_cases hdrain with ⟨-, rfl⟩ | ⟨k, m, calls, -, -, rfl⟩ <;> exact absurd rfl h
  · exact absurd rfl hact

/-- Only a conclusion that finds an audit not yet concluded replaces the real calls. -/
theorem realCalls_undergo (hact : act ≠ .reset) (h : (b.undergo act).realCalls ≠ b.realCalls) :
    b.phase.mayEnter .draining = true ∧ ∃ debugRequest, act = .conclude debugRequest := by
  rcases act.work_or with hwork | ⟨files, rfl⟩ | ⟨debugRequest, rfl⟩ | rfl
  · exact absurd (b.staysIn_undergo hwork).realCalls h
  · rw [undergo] at h
    have hcases := b.prepare_cases files
    generalize b.prepare files = s at hcases h
    cases hcases <;> exact absurd rfl h
  · refine ⟨eq_true_of_ne_false fun hmay => ?_, debugRequest, rfl⟩
    rw [undergo, conclude_of_not_mayEnter hmay] at h
    exact absurd rfl h
  · exact absurd rfl hact

/-- A preparation that fails for the phase was refused, and changes nothing. -/
theorem eq_of_prepare_phase {files : Files} {now next : Phase}
    (h : (b.prepare files).2 = .error (.phase now next)) : (b.prepare files).1 = b := by
  have hcases := b.prepare_cases files
  generalize b.prepare files = s at hcases h ⊢
  cases hcases with
  | refused => rfl
  | failed e checker lines hidle hlines hcause =>
    obtain rfl := Except.error.inj h
    rcases hcause with ⟨hchecker, -⟩ | ⟨-, -, -, hpattern⟩
    · exact absurd hchecker (b.preparedChecker_ne_phase files)
    · cases hpattern
  | untraced | traced => cases h

private theorem eq_of_conclude_phase {debugRequest : Option String} {now next : Phase}
    (h : (b.conclude debugRequest).2 = .error (.phase now next)) :
    (b.conclude debugRequest).1 = b := by
  have hcases := b.conclude_cases debugRequest
  generalize b.conclude debugRequest = s at hcases h ⊢
  cases hcases with
  | refused => rfl
  | faulty => cases h
  | drained _ drained hmay hdrain harrives => exact absurd h (harrives.error now next)

theorem phase_of_conclude {debugRequest : Option String} {offenses : List Call}
    (h : (b.conclude debugRequest).2 = .ok offenses) :
    (b.conclude debugRequest).1.phase = .reported := by
  have hcases := b.conclude_cases debugRequest
  generalize b.conclude debugRequest = s at hcases h ⊢
  cases hcases with
  | refused | faulty => cases h
  | drained _ drained hmay hdrain harrives => exact harrives.phase offenses h

/-- After a preparation, however it went, none may begin. -/
theorem mayEnter_collecting_prepare (b : Audit) (files : Files) :
    (b.prepare files).1.phase.mayEnter .collecting = false := by
  have hcases := b.prepare_cases files
  generalize b.prepare files = s at hcases ⊢
  cases hcases with
  | refused hphase => exact hphase
  | failed | untraced | traced => rfl

/-- Only conclusions lead to the phase of draining and beyond. -/
theorem mayEnter_draining_undergo (hmay : b.phase.mayEnter .draining = true) (hact : act ≠ .reset)
    (hconclude : ∀ debugRequest, act ≠ .conclude debugRequest) :
    (b.undergo act).phase.mayEnter .draining = true := by
  rcases act.work_or with hwork | ⟨files, rfl⟩ | ⟨debugRequest, rfl⟩ | rfl
  · rwa [(b.staysIn_undergo hwork).phase]
  · rw [undergo]
    have hcases := b.prepare_cases files
    generalize b.prepare files = s at hcases ⊢
    cases hcases with
    | refused => exact hmay
    | failed | untraced | traced => rfl
  · exact absurd rfl (hconclude debugRequest)
  · exact absurd rfl hact

/-! ### Runs -/

/-- An audit at the beginning of a run. -/
structure IsFresh (a : Audit) : Prop where
  phase : a.phase = .idle
  tracer : a.tracer = none
  isOrderly : a.machine.IsOrderly

/-- An audit on an orderly machine can always be reset, and then it is fresh. -/
theorem exists_reset_of_isOrderly (h : b.machine.IsOrderly) : ∃ drained c, b.drain = .ok drained ∧
    b.reset = .ok c ∧ c.IsFresh ∧ drained.machine.InterceptsAs c.machine ∧
      c.machine.tracers = drained.machine.tracers := by
  obtain ⟨drained, hdrain, horderly⟩ := exists_drain_of_isOrderly h
  rw [reset, hdrain]
  exact ⟨drained, _, rfl, rfl, ⟨rfl, rfl, horderly.subscribers, horderly.records⟩,
    ⟨rfl, rfl, rfl⟩, rfl⟩

theorem IsFresh.hasTraced (h : a.IsFresh) : a.HasTraced a :=
  .untraced h.tracer rfl rfl

theorem IsFresh.isCovered (h : a.IsFresh) : a.IsCovered a :=
  .bare (.inl h.tracer) (.bare (.refl a.machine))

/-- What can be said about an audit after the acts of a run that began with another, and about what
is done to it next. -/
structure RunsInOrder (a : Audit) (run : List Act) (b : Audit) : Prop where
  /-- The phases entered are strictly ascending, up to the present one. -/
  phases : ∃ phases, announced b.machine.log = announced a.machine.log ++ phases ∧
    (.idle :: phases).Pairwise (·.mayEnter ·) ∧ (.idle :: phases).getLast? = some b.phase
  /-- There was at most one tracer. It runs as long as calls are collected, and when it was stopped,
  it has given the real calls. -/
  tracer : a.HasTraced b
  /-- After one preparation or conclusion, no preparation is accepted. -/
  prepare : ((∃ files, .prepare files ∈ run) ∨ ∃ request, .conclude request ∈ run) →
    ∀ files, b.prepare files = (b, .error (.phase b.phase .collecting))
  /-- After one conclusion, no conclusion is accepted. -/
  conclude : (∃ request, .conclude request ∈ run) →
    ∀ request, b.conclude request = (b, .error (.phase b.phase .draining))
  /-- Only conclusions lead to the phase of draining and beyond. -/
  draining : b.phase.mayEnter .draining = false → ∃ request, .conclude request ∈ run
  /-- A preparation that is refused for the phase changes nothing. -/
  prepare_refused : ∀ files now next, (b.prepare files).2 = .error (.phase now next) →
    (b.prepare files).1 = b
  /-- A conclusion that is refused for the phase changes nothing. -/
  conclude_refused : ∀ request now next, (b.conclude request).2 = .error (.phase now next) →
    (b.conclude request).1 = b
  /-- A conclusion that succeeds arrives at the last phase. -/
  reported : ∀ request offenses, (b.conclude request).2 = .ok offenses →
    (b.conclude request).1.phase = .reported
  /-- Before the reset, only a preparation of an idle audit that succeeds brings a tracer. -/
  traces : ∀ act, act ≠ .reset → (b.undergo act).tracer ≠ b.tracer →
    b.phase = .idle ∧ ∃ files, act = .prepare files ∧ (b.prepare files).2 = .ok ()
  /-- Before the reset, only a conclusion that is accepted replaces the real calls. -/
  drains : ∀ act, act ≠ .reset → (b.undergo act).realCalls ≠ b.realCalls →
    b.phase.mayEnter .draining = true ∧ ∃ request, act = .conclude request
  /-- A reset succeeds and stops the tracer. If the run kept the stubs, messages are intercepted as
  they were when it began. -/
  reset : ∃ c, b.reset = .ok c ∧ c.phase = .idle ∧ c.tracer = none ∧
    (∀ k, b.tracer = some k → ∃ t calls stats, c.machine.tracers[k]? = some t ∧
      t.state = .stopped calls stats) ∧
    ((∀ act ∈ run, act.KeepsStubs) → a.machine.InterceptsAs c.machine)

theorem mayEnter_draining_undergoAll (hmay : b.phase.mayEnter .draining = true) {acts : List Act}
    (hacts : .reset ∉ acts) (hconclude : ∀ debugRequest, .conclude debugRequest ∉ acts) :
    (b.undergoAll acts).phase.mayEnter .draining = true := by
  induction acts generalizing b with
  | nil => exact hmay
  | cons act acts ih =>
    obtain ⟨hact, hrest⟩ := List.ne_and_not_mem_of_not_mem_cons hacts
    refine ih (mayEnter_draining_undergo hmay hact.symm ?_) hrest fun request hmem =>
      hconclude request (List.mem_cons_of_mem act hmem)
    rintro request rfl
    exact hconclude request List.mem_cons_self

/-- A reset after a run stops the tracer and takes it away. -/
theorem IsFresh.exists_reset (ha : a.IsFresh) {run : List Act} (hrun : .reset ∉ run) :
    ∃ c, (a.undergoAll run).reset = .ok c ∧ c.phase = .idle ∧ c.tracer = none ∧
      (∀ k, (a.undergoAll run).tracer = some k → ∃ t calls stats,
        c.machine.tracers[k]? = some t ∧ t.state = .stopped calls stats) ∧
      ((∀ act ∈ run, act.KeepsStubs) → a.machine.InterceptsAs c.machine) := by
  have horderly := isOrderly_undergoAll ha.isOrderly run
  have htraced := ha.hasTraced.undergoAll ha.isOrderly hrun
  obtain ⟨drained, c, hdrain, hreset, hfresh, hintercepts, htracers⟩ :=
    exists_reset_of_isOrderly horderly
  refine ⟨c, hreset, hfresh.phase, hfresh.tracer, fun k hk => ?_, fun hstubs => ?_⟩
  · rw [htracers]
    exact htraced.exists_stopped horderly hdrain hk
  · have hcovered := ha.isCovered.undergoAll ha.hasTraced ha.isOrderly hrun hstubs
    have hlayered := hcovered.isLayered_drain htraced horderly rfl rfl
      (Machine.keepsOrder_of_eq rfl rfl rfl rfl rfl rfl) hdrain
    exact hlayered.interceptsAs.trans hintercepts

/-- **Runs go in order.** -/
theorem IsFresh.runsInOrder (ha : a.IsFresh) {run : List Act} (hrun : .reset ∉ run) :
    a.RunsInOrder run (a.undergoAll run) where
  phases := by
    obtain ⟨phases, hlog, hascent⟩ := a.exists_ascent_undergoAll hrun
    rw [ha.phase] at hascent
    exact ⟨phases, hlog, hascent.pairwise, hascent.getLast?⟩
  tracer := ha.hasTraced.undergoAll ha.isOrderly hrun
  prepare hacts files' := by
    refine prepare_of_not_mayEnter ?_ files'
    rcases hacts with ⟨files, hmem⟩ | ⟨request, hmem⟩
    · exact mayEnter_of_mem hrun hmem fun b => b.mayEnter_collecting_prepare files
    · refine mayEnter_of_mem hrun hmem fun b => Bool.eq_false_iff.mpr fun hmay => ?_
      have hlast : (b.undergo (.conclude request)).phase.mayEnter .draining = false :=
        (b.conclude_cases request).mayEnter_draining
      rw [Phase.eq_idle_of_mayEnter hmay] at hlast
      cases hlast
  conclude := by
    rintro ⟨request, hmem⟩ request'
    exact conclude_of_not_mayEnter
      (mayEnter_of_mem hrun hmem fun b => (b.conclude_cases request).mayEnter_draining) request'
  draining hmay := by
    by_contra hnone
    rw [mayEnter_draining_undergoAll (by rw [ha.phase]; rfl) hrun
      fun request hmem => hnone ⟨request, hmem⟩] at hmay
    cases hmay
  prepare_refused _ _ _ := eq_of_prepare_phase
  conclude_refused _ _ _ := eq_of_conclude_phase
  reported _ _ := phase_of_conclude
  traces _ := tracer_undergo
  drains _ := realCalls_undergo
  reset := ha.exists_reset hrun

/-- An audit is fresh when it is started and after every reset. -/
theorem isFresh_undergoAll {cfg : Configuration} {m : Machine} (hm : m.IsOrderly)
    {acts : List Act} (hacts : ∀ act ∈ acts.getLast?, act = .reset) :
    ((start cfg m).undergoAll acts).IsFresh := by
  have hstart : (start cfg m).IsFresh := ⟨rfl, rfl, hm.subscribers, hm.records⟩
  rcases List.eq_nil_or_concat acts with rfl | ⟨before, act, rfl⟩
  · exact hstart
  · obtain rfl : act = .reset := hacts act <| by
      rw [List.concat_eq_append, List.getLast?_concat]
      rfl
    obtain ⟨drained, c, hdrain, hreset, hfresh, -⟩ :=
      exists_reset_of_isOrderly (isOrderly_undergoAll hstart.isOrderly before)
    rw [List.concat_eq_append, undergoAll_append]
    change (undergo _ .reset).IsFresh
    rw [undergo, hreset]
    exact hfresh

/-- **Each phase at most once, in order.** Let anything happen to an audit that was started on an
orderly machine, up to a reset if there was one, and then anything but a reset. Then the phases that
were entered since are in strict order; no second preparation and no second conclusion has been
accepted, and none will be; and all else that `RunsInOrder` says holds. -/
theorem runsInOrder_undergoAll {cfg : Configuration} {m : Machine} (hm : m.IsOrderly)
    {before run : List Act} (hbefore : ∀ act ∈ before.getLast?, act = .reset)
    (hrun : .reset ∉ run) :
    ((start cfg m).undergoAll before).RunsInOrder run
      ((start cfg m).undergoAll (before ++ run)) := by
  rw [undergoAll_append]
  exact (isFresh_undergoAll hm hbefore).runsInOrder hrun

end Audit

/-- Two runs with the meter. In the second it is prepared once more after it was concluded. -/
theorem runsInOrder_of_meterRuns :
    meter.IsOrderly ∧ (∀ act ∈ (meterRun ++ [Act.reset]).getLast?, act = .reset) ∧
      .reset ∉ meterRun ++ laterRun ∧
      ((Audit.start meterSettings meter).undergoAll (meterRun ++ [.reset])).RunsInOrder
        (meterRun ++ laterRun)
        ((Audit.start meterSettings meter).undergoAll
          ((meterRun ++ [.reset]) ++ (meterRun ++ laterRun))) := by
  have hmeter : meter.IsOrderly := ⟨List.forall_mem_nil _, fun _ _ h => by cases h⟩
  have hlast : ∀ act ∈ (meterRun ++ [Act.reset]).getLast?, act = .reset := by
    rw [List.getLast?_concat]
    rintro act ⟨⟩
    rfl
  have hrun : .reset ∉ meterRun ++ laterRun := by simp [meterRun, laterRun]
  exact ⟨hmeter, hlast, hrun, Audit.runsInOrder_undergoAll hmeter hlast hrun⟩

end MockAudit
