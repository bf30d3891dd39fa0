import MockAudit.Proofs.Conclusion
import MockAudit.Proofs.FreshStart
import MockAudit.Proofs.Preparation

/-!
# Tracers of runs

Between two resets an audit goes through a run: it is prepared and concluded, its stubs change,
mocked calls are reported and programs are executed, in any order and any number of times. Whatever
the order, a run has at most one tracer. It was added when calls began to be collected, runs as long
as they are, and is stopped after that, when it gives the real calls of the run
(`Audit.HasTraced`). While it runs, it lies like a layer over what intercepted messages when the run
began, and once it is stopped, that is as it was, as long as the stubs were left alone
(`Audit.IsCovered`).

Both are invariants of the acts of a run on an orderly machine, and machines stay orderly. Most of
the acts are work within a phase, which changes neither the phase nor the tracer
(`Audit.StaysIn`).

## Main definitions

* `Act.IsWork`: acts within a phase.
* `Audit.StaysIn`: audits at two points of the same phase.
* `Audit.HasTraced`: what has become of the tracer of a run.
* `Audit.IsCovered`: what intercepts messages in a run.

## Main results

* `Audit.staysIn_undergo`: work leaves an audit in its phase.
* `Audit.isOrderly_undergo`: every act keeps a machine orderly.
* `Audit.HasTraced.undergo`, `Audit.IsCovered.undergo`: every act preserves the invariants.
-/

namespace MockAudit

/-! ### Work within a phase -/

namespace Act

/-- An act that neither begins nor ends a phase. -/
def IsWork : Act → Prop
  | .prepare _ | .conclude _ | .reset => False
  | _ => True

/-- An act that neither attaches nor detaches stubs. Stubs that were attached over a running tracer
and are detached after it was stopped put its recorders back. -/
def KeepsStubs : Act → Prop
  | .attachStubs | .detachStubs _ => False
  | _ => True

/-- An act is work within a phase, a preparation, a conclusion or a reset. -/
theorem work_or (act : Act) : act.IsWork ∨ (∃ files, act = .prepare files) ∨
    (∃ debugRequest, act = .conclude debugRequest) ∨ act = .reset := by
  cases act <;> simp [IsWork]

end Act

namespace Machine

variable {l m n : Machine}

/-- The tracers of one machine are at the same stages as those of the other. -/
def SameStages (m n : Machine) : Prop :=
  n.tracers.map (·.state) = m.tracers.map (·.state)

private theorem sameStages_of_tracers (h : n.tracers = m.tracers) : m.SameStages n := by
  rw [SameStages, h]

theorem SameStages.trans (h : l.SameStages m) (h' : m.SameStages n) : l.SameStages n :=
  Eq.trans h' h

private theorem SameStages.length (h : m.SameStages n) : n.tracers.length = m.tracers.length := by
  have hlength := congrArg List.length h
  rwa [List.length_map, List.length_map] at hlength

private theorem SameStages.exists_tracer (h : m.SameStages n) {k : Nat} {t : Tracer}
    (ht : m.tracers[k]? = some t) : ∃ t', n.tracers[k]? = some t' ∧ t'.state = t.state := by
  have hstates := congrArg (·[k]?) h
  simp only [List.getElem?_map, ht, Option.map_some] at hstates
  exact Option.map_eq_some_iff.mp hstates

/-- What happens to the records of a tracer leaves it at its stage. -/
theorem sameStages_modify {k : Nat} {f : Tracer → Tracer}
    (htracers : n.tracers = m.tracers.modify k f) (hstate : ∀ t, (f t).state = t.state) :
    m.SameStages n := by
  refine List.ext_getElem? fun j => ?_
  rw [htracers, List.getElem?_map, List.getElem?_map, List.getElem?_modify]
  cases m.tracers[j]? with
  | none => rfl
  | some t =>
    refine congrArg some ?_
    dsimp only
    split_ifs
    · exact hstate t
    · rfl

private theorem sameStages_tell (m : Machine) (e : Event) (observer : Nat) :
    m.SameStages (m.tell e observer) := by
  rcases m.tell_cases e observer with ⟨-, htell⟩ | ⟨events, -, htell⟩ | ⟨k, watched, log, -, htell⟩
  · exact sameStages_of_tracers (by rw [htell])
  · exact sameStages_of_tracers (by rw [htell])
  · rw [htell]
    exact sameStages_modify rfl fun _ => rfl

private theorem sameStages_notify (m : Machine) (audience : List Nat) (e : Event) :
    m.SameStages (m.notify audience e) := by
  induction audience generalizing m with
  | nil => rfl
  | cons observer audience ih => exact (m.sameStages_tell e observer).trans (ih _)

private theorem sameStages_deliver (m : Machine) (sink : Sink) (c : Call) :
    m.SameStages (m.deliver sink c).1 := by
  rw [deliver]
  split <;> rfl

/-- No step of a program starts or stops a tracer. -/
theorem isFrame_sameStages (change : Nat → List TestContext → List TestContext) :
    IsFrame SameStages (.ofContexts change) where
  refl _ := rfl
  trans := .trans
  heap _ _ := rfl
  callback _ _ := rfl
  notify := sameStages_notify
  deliver := sameStages_deliver
  recording _ _ _ _ _ _ := sameStages_modify rfl fun _ => rfl
  recordEnded _ _ _ _ := sameStages_modify rfl fun _ => rfl

end Machine

/-- A host that goes from one context of test cases to another disturbs no interception. -/
theorem Host.isDiscreet_ofContexts (change : Nat → List TestContext → List TestContext) :
    (Host.ofContexts change).IsDiscreet := fun _ _ =>
  Machine.keepsOrder_of_eq rfl rfl rfl rfl rfl rfl

namespace Audit

variable {a b c : Audit} {act : Act}

/-- An audit at a later point of the same phase. -/
structure StaysIn (a b : Audit) : Prop where
  phase : b.phase = a.phase
  tracer : b.tracer = a.tracer
  realCalls : b.realCalls = a.realCalls
  announces : a.machine.AnnouncesAs b.machine
  stages : a.machine.SameStages b.machine
  isOrderly : a.machine.IsOrderly → b.machine.IsOrderly

/-- Work leaves an audit in its phase. -/
theorem staysIn_undergo (hact : act.IsWork) : a.StaysIn (a.undergo act) := by
  cases act with
  | prepare | conclude | reset => exact hact.elim
  | configure registry => exact ⟨rfl, rfl, rfl, rfl, rfl, id⟩
  | report c =>
    exact ⟨rfl, rfl, rfl, a.machine.announcesAs_deliver _ c, a.machine.sameStages_deliver _ c,
      fun h => (a.machine.keepsOrder_deliver _ c h).1⟩
  | attachStubs =>
    obtain ⟨methods, doubleHandler, stubSets, log, hattach⟩ :=
      a.machine.attachStubs_eq a.registry a.sink
    exact ⟨rfl, rfl, rfl, a.machine.announcesAs_attachStubs _ _,
      Machine.sameStages_of_tracers (by rw [undergo, hattach]),
      fun h => h.attachStubs a.registry a.sink⟩
  | detachStubs number =>
    obtain ⟨methods, doubleHandler, stubSets, hdetach⟩ := a.machine.detachStubs_eq number
    exact ⟨rfl, rfl, rfl, a.machine.announcesAs_detachStubs number,
      Machine.sameStages_of_tracers (by rw [undergo, hdetach]), fun h => h.detachStubs number⟩
  | execute change depth program =>
    have hdiscreet := Host.isDiscreet_ofContexts change
    exact ⟨rfl, rfl, rfl, (Machine.isFrame_announcesAs change).execute _ depth program,
      (Machine.isFrame_sameStages change).execute _ depth program,
      fun h => ((Machine.isFrame_keepsOrder hdiscreet).execute _ depth program h).1⟩

/-- Work that keeps the stubs disturbs no interception. -/
theorem keepsOrder_undergo (hact : act.IsWork) (hstubs : act.KeepsStubs) :
    a.machine.KeepsOrder (a.undergo act).machine := by
  cases act with
  | prepare | conclude | reset => exact hact.elim
  | attachStubs | detachStubs => exact hstubs.elim
  | configure registry => exact Machine.keepsOrder_of_eq rfl rfl rfl rfl rfl rfl
  | report c => exact a.machine.keepsOrder_deliver _ c
  | execute change depth program =>
    exact (Machine.isFrame_keepsOrder (Host.isDiscreet_ofContexts change)).execute _ depth program

end Audit

/-! ### The tracer -/

namespace Machine

variable {m n : Machine}

/-- Starting to trace adds one tracer, which runs. -/
theorem exists_tracers_startTracing (m : Machine) (strategy : Strategy) (filter : ArtifactFilter)
    (watched : WatchList) : ∃ t : Tracer, t.isRunning = true ∧
      (m.startTracing strategy filter watched).tracers = m.tracers ++ [t] := by
  rcases hintercept : (m.addTracer { strategy, filter, watched }).1.intercept m.tracers.length
    { strategy, filter, watched } with ⟨m', installation⟩
  have htracers : m'.tracers = m.tracers ++ [⟨strategy, filter, watched, {}, .ready⟩] := by
    obtain ⟨methods, subscribers, observers, log, heq⟩ :=
      (m.addTracer { strategy, filter, watched }).1.intercept_eq m.tracers.length
        { strategy, filter, watched }
    rw [← show _ = m' from congrArg Prod.fst hintercept, heq]
    rfl
  obtain ⟨lines, hstart⟩ := m.startTracing_eq strategy filter watched hintercept htracers
  exact ⟨_, rfl, by rw [hstart]⟩

/-- Stopping a tracer takes none away. -/
theorem length_tracers_stopTracer {k : Nat} {calls : List Call}
    (h : m.stopTracer k = .ok (n, calls)) : n.tracers.length = m.tracers.length := by
  rcases stopTracer_cases h with ⟨-, rfl, -⟩ | ⟨t, stats, -, -, rfl⟩ |
    ⟨t, m₁, lines, stats, -, hreleased, -, rfl⟩
  · rfl
  · rfl
  · refine (List.length_modify _ _ _).trans (congrArg List.length ?_)
    rcases hreleased with ⟨-, rfl⟩ | ⟨i, -, rfl⟩
    · rfl
    · exact m.tracers_release i

end Machine

namespace Audit

variable {a b c : Audit} {act : Act}

/-- What has become of the tracer of a run that began with an audit. There is none, or it was added
at the end of the tracers there were. Then it runs while calls are collected, and later it has been
stopped, and its calls are the real calls of the run. -/
inductive HasTraced (a b : Audit) : Prop
  | untraced (htracer : b.tracer = none)
      (hcount : b.machine.tracers.length = a.machine.tracers.length)
      (hcalls : b.realCalls = a.realCalls)
  | tracing (t : Tracer) (htracer : b.tracer = some a.machine.tracers.length)
      (hcount : b.machine.tracers.length = a.machine.tracers.length + 1)
      (ht : b.machine.tracers[a.machine.tracers.length]? = some t)
      (hrunning : t.isRunning = true) (hphase : b.phase = .collecting)
      (hcalls : b.realCalls = a.realCalls)
  | traced (t : Tracer) (stats : CaptureCounts)
      (htracer : b.tracer = some a.machine.tracers.length)
      (hcount : b.machine.tracers.length = a.machine.tracers.length + 1)
      (ht : b.machine.tracers[a.machine.tracers.length]? = some t)
      (hstopped : t.state = .stopped b.realCalls stats)
      (hphase : b.phase.mayEnter .draining = false)

namespace HasTraced

/-- Work leaves the tracer as it is. -/
theorem staysIn (h : a.HasTraced b) (hb : b.StaysIn c) : a.HasTraced c := by
  have hcount := hb.stages.length
  cases h with
  | untraced htracer hcount' hcalls =>
    exact .untraced (hb.tracer.trans htracer) (hcount.trans hcount') (hb.realCalls.trans hcalls)
  | tracing t htracer hcount' ht hrunning hphase hcalls =>
    obtain ⟨t', ht', hstate⟩ := hb.stages.exists_tracer ht
    refine .tracing t' (hb.tracer.trans htracer) (hcount.trans hcount') ht' ?_
      (hb.phase.trans hphase) (hb.realCalls.trans hcalls)
    rw [Tracer.isRunning, hstate]
    exact hrunning
  | traced t stats htracer hcount' ht hstopped hphase =>
    obtain ⟨t', ht', hstate⟩ := hb.stages.exists_tracer ht
    refine .traced t' stats (hb.tracer.trans htracer) (hcount.trans hcount') ht' ?_ ?_
    · rw [hstate, hstopped, hb.realCalls]
    · rw [hb.phase, hphase]

/-- There is no tracer yet when a preparation begins, and then there may be one that runs. -/
theorem prepare (h : a.HasTraced b) (files : Files) : a.HasTraced (b.prepare files).1 := by
  have hcases := b.prepare_cases files
  generalize b.prepare files = s at hcases ⊢
  -- An idle audit has no tracer.
  have hidle (hphase : b.phase = .idle) : b.tracer = none ∧
      b.machine.tracers.length = a.machine.tracers.length ∧ b.realCalls = a.realCalls := by
    cases h with
    | untraced htracer hcount hcalls => exact ⟨htracer, hcount, hcalls⟩
    | tracing t htracer hcount ht hrunning hcollecting => cases hphase.symm.trans hcollecting
    | traced t stats htracer hcount ht hstopped hlate =>
      rw [hphase] at hlate
      cases hlate
  cases hcases with
  | refused => exact h
  | failed e checker lines hphase | untraced checker lines hphase =>
    obtain ⟨htracer, hcount, hcalls⟩ := hidle hphase
    exact .untraced htracer hcount hcalls
  | traced checker lines filter watched hphase =>
    obtain ⟨htracer, hcount, hcalls⟩ := hidle hphase
    obtain ⟨t, hrunning, htracers⟩ := (b.readied checker lines).machine.exists_tracers_startTracing
      b.configuration.traceVia filter watched
    refine .tracing t (congrArg some hcount) ?_ ?_ hrunning rfl hcalls
    · rw [htracers, List.length_append]
      exact congrArg (· + 1) hcount
    · rw [htracers, ← hcount]
      exact List.getElem?_concat_length

/-- If a conclusion begins and there is a tracer, it runs, and then it is stopped. -/
theorem conclude (h : a.HasTraced b) (hb : b.machine.IsOrderly) (debugRequest : Option String) :
    a.HasTraced (b.conclude debugRequest).1 := by
  have hlast := (b.conclude_cases debugRequest).mayEnter_draining
  rcases b.conclude_of_isOrderly hb debugRequest with
    hrefused | ⟨drained, hmay, hdrain, horderly, harrives⟩
  · rwa [hrefused]
  · obtain ⟨htracer', hcalls', htracers'⟩ := harrives.proceedsTo.tracing
    cases h with
    | traced t stats htracer hcount ht hstopped hphase => cases hmay.symm.trans hphase
    | untraced htracer hcount hcalls =>
      rcases drain_cases hdrain with ⟨-, rfl⟩ | ⟨k, m, calls, hk, -, -⟩
      · exact .untraced (htracer'.trans htracer) ((congrArg List.length htracers').trans hcount)
          (hcalls'.trans hcalls)
      · cases htracer.symm.trans hk
    | tracing t htracer hcount ht hrunning hphase hcalls =>
      rcases drain_cases hdrain with ⟨hnone, -⟩ | ⟨k, m, calls, hk, hstop, rfl⟩
      · cases htracer.symm.trans hnone
      · obtain rfl := Option.some.inj (htracer.symm.trans hk)
        have hdraining : b.draining.machine.IsOrderly := ⟨hb.subscribers, hb.records⟩
        obtain ⟨m', t', calls', stats, hstop', ht', hstopped⟩ := hdraining.exists_stopTracer ht
        cases hstop.symm.trans hstop'
        refine .traced t' stats (htracer'.trans htracer) ?_ ?_ ?_ hlast
        · rw [htracers']
          exact (Machine.length_tracers_stopTracer hstop).trans hcount
        · rw [htracers']
          exact ht'
        · rw [hcalls', hstopped]

/-- **Every act** but a reset preserves what is said about the tracer. -/
theorem undergo (h : a.HasTraced b) (hb : b.machine.IsOrderly) (hact : act ≠ .reset) :
    a.HasTraced (b.undergo act) := by
  rcases act.work_or with hwork | ⟨files, rfl⟩ | ⟨debugRequest, rfl⟩ | rfl
  · exact h.staysIn (b.staysIn_undergo hwork)
  · exact h.prepare files
  · exact h.conclude hb debugRequest
  · exact absurd rfl hact

/-- Draining leaves the tracer stopped. -/
theorem exists_stopped (h : a.HasTraced b) (hb : b.machine.IsOrderly) {drained : Audit}
    (hdrain : b.drain = .ok drained) {k : Nat} (hk : b.tracer = some k) :
    ∃ t calls stats, drained.machine.tracers[k]? = some t ∧ t.state = .stopped calls stats := by
  obtain ⟨t, ht⟩ : ∃ t, b.machine.tracers[k]? = some t := by
    cases h with
    | untraced hnone => cases hk.symm.trans hnone
    | tracing t htracer hcount ht | traced t stats htracer hcount ht =>
      obtain rfl := Option.some.inj (hk.symm.trans htracer)
      exact ⟨t, ht⟩
  obtain ⟨m, t', calls, stats, hstop, ht', hstopped⟩ := hb.exists_stopTracer ht
  rcases drain_cases hdrain with ⟨hnone, -⟩ | ⟨k', m', calls', hk', hstop', rfl⟩
  · cases hk.symm.trans hnone
  · obtain rfl := Option.some.inj (hk.symm.trans hk')
    cases hstop.symm.trans hstop'
    exact ⟨t', calls, stats, ht', hstopped⟩

end HasTraced

end Audit

/-! ### Interception -/

namespace Machine

variable {m n : Machine}

/-- Adding a tracer disturbs nothing, whatever it is going to watch. -/
theorem keepsOrder_addWatching (m : Machine) (strategy : Strategy) (filter : ArtifactFilter)
    (watched : WatchList) : m.KeepsOrder (m.addTracer { strategy, filter, watched }).1 := by
  have hregistered : m.KeepsOrder ((m.addTracer { strategy, filter }).1.modifyTracer
      m.tracers.length fun t => { t with watched }) :=
    (m.keepsOrder_addTracer strategy filter).trans
      (keepsOrder_modifyTracer _ _ (fun _ => rfl) fun _ ht => ht)
  rwa [modifyTracer, addTracer, modify_length_append] at hregistered

/-- The layer that was put on last can be removed, and leaves the layers below. -/
theorem IsLayered.exists_remove {layer : Layer} {before : Machine}
    {layers : List (Layer × Machine)} (h : m.IsLayered n ((layer, before) :: layers))
    (hn : n.IsOrderly) : ∃ n', layer.remove n = .ok n' ∧ m.IsLayered n' layers := by
  cases h with
  | covered hbefore hlayer hundisturbed hbelow =>
    obtain ⟨n', hremove, hundisturbed'⟩ := hlayer.exists_remove hbefore hundisturbed hn
    exact ⟨n', hremove, hbelow.undisturbed hundisturbed'⟩

/-- Where there are no layers, interception is as it was. -/
theorem IsLayered.interceptsAs (h : m.IsLayered n []) : m.InterceptsAs n := by
  cases h with
  | bare h => exact h.toInterceptsAs

end Machine

namespace Audit

variable {a b c : Audit} {act : Act}

private theorem isOrderly_prepare (h : a.machine.IsOrderly) (files : Files) :
    (a.prepare files).1.machine.IsOrderly := by
  have hcases := a.prepare_cases files
  generalize a.prepare files = s at hcases ⊢
  have hreadied (checker : Option Checker) (lines : List LogLine) :
      (a.readied checker lines).machine.IsOrderly := ⟨h.subscribers, h.records⟩
  cases hcases with
  | refused => exact h
  | failed e checker lines | untraced checker lines => exact hreadied checker lines
  | traced checker lines filter watched =>
    exact (Machine.keepsOrder_addWatching _ _ _ _ (hreadied checker lines)).1.startTracer _

private theorem isOrderly_conclude (h : a.machine.IsOrderly) (debugRequest : Option String) :
    (a.conclude debugRequest).1.machine.IsOrderly := by
  rcases a.conclude_of_isOrderly h debugRequest with hrefused | ⟨drained, -, -, horderly, harrives⟩
  · rwa [hrefused]
  · exact (harrives.proceedsTo.keepsOrder horderly).1

/-- Orderly machines stay so whatever happens to an audit. -/
theorem isOrderly_undergo (h : a.machine.IsOrderly) (act : Act) :
    (a.undergo act).machine.IsOrderly := by
  rcases act.work_or with hwork | ⟨files, rfl⟩ | ⟨debugRequest, rfl⟩ | rfl
  · exact (a.staysIn_undergo hwork).isOrderly h
  · exact isOrderly_prepare h files
  · exact isOrderly_conclude h debugRequest
  · obtain ⟨drained, hdrain, horderly⟩ := exists_drain_of_isOrderly h
    rw [undergo, reset, hdrain]
    exact ⟨horderly.subscribers, horderly.records⟩

theorem isOrderly_undergoAll (h : a.machine.IsOrderly) (acts : List Act) :
    (a.undergoAll acts).machine.IsOrderly := by
  induction acts generalizing a with
  | nil => exact h
  | cons act acts ih => exact ih (isOrderly_undergo h act)

/-- What intercepts messages amid a run that began with an audit and kept the stubs: the same as
then, if there is no tracer or it has been stopped; else the tracer that runs is put over it. -/
inductive IsCovered (a b : Audit) : Prop
  | bare (hsettled : b.tracer = none ∨ b.phase.mayEnter .draining = false)
      (h : a.machine.IsLayered b.machine [])
  | covered (k : Nat) (before : Machine) (htracer : b.tracer = some k)
      (hphase : b.phase = .collecting)
      (h : a.machine.IsLayered b.machine [(.tracer k, before)])

namespace IsCovered

/-- Work that keeps the stubs leaves the cover as it is. -/
theorem work (h : a.IsCovered b) (hb : b.machine.IsOrderly) (hwork : act.IsWork)
    (hstubs : act.KeepsStubs) : a.IsCovered (b.undergo act) := by
  have hstays := b.staysIn_undergo hwork
  have hundisturbed := (b.keepsOrder_undergo hwork hstubs hb).2
  cases h with
  | bare hsettled h =>
    refine .bare ?_ (h.undisturbed hundisturbed)
    rwa [hstays.tracer, hstays.phase]
  | covered k before htracer hphase h =>
    exact .covered k before (hstays.tracer.trans htracer) (hstays.phase.trans hphase)
      (h.undisturbed hundisturbed)

/-- A preparation may put a tracer on. -/
theorem prepare (h : a.IsCovered b) (hb : b.machine.IsOrderly) (files : Files) :
    a.IsCovered (b.prepare files).1 := by
  have hcases := b.prepare_cases files
  generalize b.prepare files = s at hcases ⊢
  -- Nothing has been put on while an audit is idle.
  have hidle (hphase : b.phase = .idle) :
      b.tracer = none ∧ a.machine.IsLayered b.machine [] := by
    cases h with
    | bare hsettled h =>
      rw [hphase] at hsettled
      exact ⟨hsettled.resolve_right (by decide), h⟩
    | covered k before htracer hcollecting h => cases hphase.symm.trans hcollecting
  have hreadied (checker : Option Checker) (lines : List LogLine) :
      b.machine.KeepsOrder (b.readied checker lines).machine :=
    Machine.keepsOrder_of_eq rfl rfl rfl rfl rfl rfl
  cases hcases with
  | refused => exact h
  | failed e checker lines hphase | untraced checker lines hphase =>
    obtain ⟨htracer, hlayered⟩ := hidle hphase
    exact .bare (.inl htracer) (hlayered.undisturbed (hreadied checker lines hb).2)
  | traced checker lines filter watched hphase =>
    obtain ⟨htracer, hlayered⟩ := hidle hphase
    obtain ⟨horderly, hundisturbed⟩ := (hreadied checker lines).trans
      (Machine.keepsOrder_addWatching _ b.configuration.traceVia filter watched) hb
    exact .covered _ _ rfl rfl (.covered horderly
      (Machine.startTracer_addTracer _ _ filter watched) (.refl _)
      (hlayered.undisturbed hundisturbed))

/-- Draining removes the tracer, if that has not been done. -/
theorem isLayered_drain (h : a.IsCovered b) (htraced : a.HasTraced b) (hb : b.machine.IsOrderly)
    (htracer : c.tracer = b.tracer) (htracers : c.machine.tracers = b.machine.tracers)
    (hc : b.machine.KeepsOrder c.machine) {d : Audit} (hdrain : c.drain = .ok d) :
    a.machine.IsLayered d.machine [] := by
  obtain ⟨horderly, hundisturbed⟩ := hc hb
  rcases drain_cases hdrain with ⟨hnone, rfl⟩ | ⟨k, m, calls, hk, hstop, rfl⟩
  · cases h with
    | bare hsettled h => exact h.undisturbed hundisturbed
    | covered k before hk hphase h => cases hnone.symm.trans (htracer.trans hk)
  · cases h with
    | covered k' before hk' hphase h =>
      obtain rfl := Option.some.inj (hk.symm.trans (htracer.trans hk'))
      obtain ⟨n, hremove, hlayered⟩ := (h.undisturbed hundisturbed).exists_remove horderly
      rw [Layer.remove, hstop] at hremove
      obtain rfl : m = n := Except.ok.inj hremove
      exact hlayered
    | bare hsettled h =>
      cases htraced with
      | untraced hnone => cases hk.symm.trans (htracer.trans hnone)
      | tracing t hk' hcount ht hrunning hphase =>
        rw [hphase, hk'] at hsettled
        cases hsettled with
        | inl hnone => cases hnone
        | inr hphase => cases hphase
      | traced t stats hk' hcount ht hstopped =>
        -- The tracer was stopped before, so that stopping it again changes nothing.
        obtain rfl := Option.some.inj (hk.symm.trans (htracer.trans hk'))
        rw [← htracers] at ht
        simp only [Machine.stopTracer, ht, hstopped] at hstop
        obtain rfl := congrArg Prod.fst (Except.ok.inj hstop)
        exact h.undisturbed hundisturbed

/-- A conclusion that begins leaves interception as it was when the run began. -/
theorem conclude (h : a.IsCovered b) (htraced : a.HasTraced b) (hb : b.machine.IsOrderly)
    (debugRequest : Option String) : a.IsCovered (b.conclude debugRequest).1 := by
  have hlast := (b.conclude_cases debugRequest).mayEnter_draining
  rcases b.conclude_of_isOrderly hb debugRequest with
    hrefused | ⟨drained, -, hdrain, horderly, harrives⟩
  · rwa [hrefused]
  · have hlayered := h.isLayered_drain htraced hb (c := b.draining) rfl rfl
      (Machine.keepsOrder_of_eq rfl rfl rfl rfl rfl rfl) hdrain
    exact .bare (.inr hlast)
      (hlayered.undisturbed (harrives.proceedsTo.keepsOrder horderly).2)

/-- **Every act** but a reset or one that changes the stubs preserves what is said about
interception. -/
theorem undergo (h : a.IsCovered b) (htraced : a.HasTraced b) (hb : b.machine.IsOrderly)
    (hact : act ≠ .reset) (hstubs : act.KeepsStubs) : a.IsCovered (b.undergo act) := by
  rcases act.work_or with hwork | ⟨files, rfl⟩ | ⟨debugRequest, rfl⟩ | rfl
  · exact h.work hb hwork hstubs
  · exact h.prepare hb files
  · exact h.conclude htraced hb debugRequest
  · exact absurd rfl hact

end IsCovered

/-! ### Whole runs -/

/-- What is said about the tracer holds throughout a run. -/
theorem HasTraced.undergoAll (h : a.HasTraced b) (hb : b.machine.IsOrderly) {acts : List Act}
    (hacts : .reset ∉ acts) : a.HasTraced (b.undergoAll acts) := by
  induction acts generalizing b with
  | nil => exact h
  | cons act acts ih =>
    obtain ⟨hact, hrest⟩ := List.ne_and_not_mem_of_not_mem_cons hacts
    exact ih (h.undergo hb hact.symm) (isOrderly_undergo hb act) hrest

/-- So does what is said about interception, if the run keeps the stubs. -/
theorem IsCovered.undergoAll (h : a.IsCovered b) (htraced : a.HasTraced b)
    (hb : b.machine.IsOrderly) {acts : List Act} (hacts : .reset ∉ acts)
    (hstubs : ∀ act ∈ acts, act.KeepsStubs) : a.IsCovered (b.undergoAll acts) := by
  induction acts generalizing b with
  | nil => exact h
  | cons act acts ih =>
    obtain ⟨hact, hrest⟩ := List.ne_and_not_mem_of_not_mem_cons hacts
    obtain ⟨hkeeps, hkeepsRest⟩ := List.forall_mem_cons.mp hstubs
    exact ih (h.undergo htraced hb hact.symm hkeeps) (htraced.undergo hb hact.symm)
      (isOrderly_undergo hb act) hrest hkeepsRest

end Audit

end MockAudit
