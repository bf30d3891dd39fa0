import MockAudit.Proofs.Building

/-!
# Agreement of the tracing strategies

Whether a tracer wraps methods or follows events, it sees the same calls: on a machine that was
built by definitions, and for methods that have an entry of their own, both strategies capture the
same calls in the same order and keep the same of them when they are stopped. The program does not
notice either of them (`Machine.Built.strategies_agree`).

## Main definitions

* `Machine.captured`: the calls a tracer has captured so far.
* `Machine.SameProgram`: machines that are alike for the programs they run.

## Main results

* `Setting.stopTracer_agrees`: tracers stopped in lockstep keep agreeing lists of calls.
* `Machine.Built.strategies_agree`: the two strategies agree.
-/

namespace MockAudit

namespace Machine

/-- The calls a tracer has captured so far. -/
def captured (m : Machine) (tracer : Nat) : List Call :=
  (m.tracers[tracer]?.map Tracer.captured).getD []

/-- Machines that are alike for the programs they run, whoever watches. -/
structure SameProgram (m n : Machine) : Prop where
  catalog : m.catalog = n.catalog
  methods : m.methods = n.methods
  heap : m.heap = n.heap
  subscribers : m.subscribers = n.subscribers
  doubleHandler : m.doubleHandler = n.doubleHandler
  contexts : m.contexts = n.contexts

end Machine

namespace Setting

variable {s : Setting} {frames : List (Option Nat)} {m mw me : Machine}

/-- Tracers in lockstep have captured agreeing calls. -/
theorem Abreast.captured_agree (h : s.Abreast frames m mw me) :
    List.Forall₂ Call.Agrees (mw.captured s.tracer) (me.captured s.tracer) := by
  obtain ⟨heap, contexts, agree, log, log'⟩ := h
  simpa [Machine.captured, wrapping, following, tracer, Tracer.captured] using agree

/-- Tracers stopped in lockstep keep agreeing lists of calls and leave the program as it is without
them. -/
theorem Abreast.stopTracer_agrees (h : s.Abreast frames m mw me) :
    ∃ mw' calls me' calls', mw.stopTracer s.tracer = .ok (mw', calls) ∧
      me.stopTracer s.tracer = .ok (me', calls') ∧ List.Forall₂ Call.Agrees calls calls' ∧
      mw'.SameProgram m ∧ me'.SameProgram m := by
  obtain ⟨heap, contexts, agree, log, log'⟩ := h
  rename_i records records'
  obtain ⟨calls, calls', hcalls, hcalls', hagree⟩ := s.filter.keepReal_agrees agree
  obtain ⟨lines, stats, hstop⟩ := Machine.stopTracer_of_running
    (m := s.wrapping heap contexts records log) List.getElem?_concat_length rfl hcalls
  obtain ⟨lines', stats', hstop'⟩ := Machine.stopTracer_of_running
    (m := s.following heap contexts ⟨records', frames⟩ log') List.getElem?_concat_length rfl hcalls'
  refine ⟨_, calls, _, calls', hstop, hstop', hagree, ?_, ?_⟩
  · rw [Machine.release, Machine.restoreAll_eq]
    exact ⟨rfl, s.restores, rfl, rfl, rfl, rfl⟩
  · refine ⟨rfl, rfl, rfl, ?_, rfl, rfl⟩
    exact (by simp : [s.observer].filter (· != s.observer) = []).trans s.isBare.subscribers.symm

end Setting

/-- **Agreement of the tracing strategies.** Let methods be registered on a machine that was built
by definitions, each of which, in the form in which it is watched, has an entry of its own or is not
handled at all. Then for every program whose arguments always fit, a tracer that wraps and a tracer
that follows events capture agreeing calls in the same order, the program ends as it does without a
tracer, and when they are stopped, the tracers keep agreeing lists of calls and leave everything
else as it is without them. -/
theorem Machine.Built.strategies_agree {m : Machine} (hbuilt : m.Built) (filter : ArtifactFilter)
    (registrations : List (Target × List String))
    (hdirect : ∀ r ∈ registrations, ∀ method ∈ r.2,
      (m.methods (MethodRef.normalize (r.1, method))).isSome ∨
        m.resolve (MethodRef.normalize (r.1, method)).1 (MethodRef.normalize (r.1, method)).2 =
          none)
    (change : Nat → List TestContext → List TestContext) (depth : Nat) (program : Procedure)
    (hfits : ∀ moment ∈ m.executionTrace (.ofContexts change) depth program,
      moment.ArgumentsFit) :
    let watched := WatchList.ofRegistrations registrations
    let plain := m.execute (.ofContexts change) depth program
    let wrapped := (m.startTracing .wrap filter watched).execute (.ofContexts change) depth program
    let followed :=
      (m.startTracing .events filter watched).execute (.ofContexts change) depth program
    List.Forall₂ Call.Agrees (wrapped.1.captured m.tracers.length)
        (followed.1.captured m.tracers.length) ∧
      wrapped.2 = plain.2 ∧ followed.2 = plain.2 ∧
      ∃ mw calls me calls', wrapped.1.stopTracer m.tracers.length = .ok (mw, calls) ∧
        followed.1.stopTracer m.tracers.length = .ok (me, calls') ∧
        List.Forall₂ Call.Agrees calls calls' ∧
        mw.SameProgram plain.1 ∧ me.SameProgram plain.1 := by
  intro watched plain wrapped followed
  have hkeys : ∀ key ∈ watched.keys, (m.methods key).isSome ∨ m.resolve key.1 key.2 = none := by
    intro key hkey
    obtain ⟨r, hr, method, hmethod, rfl⟩ := WatchList.mem_keys_ofRegistrations.mp hkey
    exact hdirect r hr method hmethod
  have hnodup := WatchList.nodup_keys_ofRegistrations registrations
  obtain ⟨displaced, log, hwrap, hrestore⟩ := m.startTracing_wrap filter hnodup hkeys
  obtain ⟨log', hevents⟩ := m.startTracing_events filter watched
  have hbare := hbuilt.isBare
  let s : Setting := ⟨m, watched, filter, displaced, hbare, hkeys, hrestore⟩
  have hstart : s.Abreast [] m (m.startTracing .wrap filter watched)
      (m.startTracing .events filter watched) := by
    have hsubscribers : m.subscribers ++ [m.observers.length] = [m.observers.length] := by
      rw [hbare.subscribers, List.nil_append]
    rw [hwrap, hevents, hsubscribers]
    exact Setting.Abreast.intro (s := s) m.heap m.contexts .nil _ _
  obtain ⟨⟨frames, hend, -⟩, hwrapped, hfollowed⟩ :=
    Setting.execute_inStep change depth program hstart hfits
  exact ⟨hend.captured_agree, hwrapped, hfollowed, hend.stopTracer_agrees⟩

/-! ### A visit under both strategies -/

/-- A program that greets and welcomes, after a test case has begun. -/
def visit : Procedure :=
  .callback 0 <| .send (.type "Greeter") "greet" [.str "Bob", .map [(.symbol "mark", .str "!")]]
    fun _ => .send (.type "Greeter") "welcome" [] .finish

/-- The test cases of a visit: one is left open, and another one lasts as long as the welcome
greets. -/
def scenes : Nat → List TestContext → List TestContext
  | 0, contexts => ⟨some "visits", none⟩ :: contexts
  | 1, contexts => ⟨some "is welcome", none⟩ :: contexts
  | _, contexts => contexts.tail

/-- The arguments of the greetings fit: a name for the parameter and at most a declared keyword. -/
theorem argumentsFit_visit :
    ∀ moment ∈ reception.executionTrace (.ofContexts scenes) 2 visit, moment.ArgumentsFit := by
  have htrace : reception.executionTrace (.ofContexts scenes) 2 visit =
      [.hosted _ 0,
        .began _ (.typeItself "Greeter") _ _ "greet"
          [.str "Bob", .map [(.symbol "mark", .str "!")]],
        .began _ (.typeItself "Greeter") _ _ "welcome" [],
        .hosted _ 1,
        .began _ (.typeItself "Greeter") _ _ "greet" [.str "Ada"],
        .hosted _ 2] := rfl
  simp only [htrace, List.forall_mem_cons]
  refine ⟨trivial, fun shape hshape => ?_, fun shape hshape => ?_, trivial,
    fun shape hshape => ?_, trivial, List.forall_mem_nil _⟩
  · obtain rfl : ⟨[⟨.required, "name"⟩, ⟨.key, "mark"⟩]⟩ = shape := Option.some.inj hshape
    exact ⟨.inr (by decide), List.nodup_singleton _, .inr <| List.forall_mem_singleton.mpr
      ⟨_, List.mem_cons_of_mem _ (List.mem_singleton_self _), .inr rfl, rfl⟩⟩
  · obtain rfl : ⟨[]⟩ = shape := Option.some.inj hshape
    exact ⟨.inr (by decide), List.nodup_nil, .inr (List.forall_mem_nil _)⟩
  · obtain rfl : ⟨[⟨.required, "name"⟩, ⟨.key, "mark"⟩]⟩ = shape := Option.some.inj hshape
    exact ⟨.inr (by decide), List.nodup_nil, .inr (List.forall_mem_nil _)⟩

/-- Of three watched methods one is not handled. Both strategies capture two greetings and the
welcome around the second of them, which is interrupted. -/
theorem strategies_agree_at_reception :
    let registrations := [(Target.typeItself "Greeter", ["greet", "welcome", "dismiss"])]
    let watched := WatchList.ofRegistrations registrations
    let plain := reception.execute (.ofContexts scenes) 2 visit
    let wrapped :=
      (reception.startTracing .wrap .standard watched).execute (.ofContexts scenes) 2 visit
    let followed :=
      (reception.startTracing .events .standard watched).execute (.ofContexts scenes) 2 visit
    (∀ r ∈ registrations, ∀ method ∈ r.2,
      (reception.methods (MethodRef.normalize (r.1, method))).isSome ∨
        reception.resolve (MethodRef.normalize (r.1, method)).1
          (MethodRef.normalize (r.1, method)).2 = none) ∧
    (∀ moment ∈ reception.executionTrace (.ofContexts scenes) 2 visit, moment.ArgumentsFit) ∧
    ((wrapped.1.captured 0).map fun c => (c.method, c.isCompleted)) =
      [("greet", true), ("welcome", false), ("greet", true)] ∧
    List.Forall₂ Call.Agrees (wrapped.1.captured 0) (followed.1.captured 0) ∧
    wrapped.2 = plain.2 ∧ followed.2 = plain.2 ∧
    ∃ mw calls me calls', wrapped.1.stopTracer 0 = .ok (mw, calls) ∧
      followed.1.stopTracer 0 = .ok (me, calls') ∧ List.Forall₂ Call.Agrees calls calls' ∧
      mw.SameProgram plain.1 ∧ me.SameProgram plain.1 := by
  intro registrations watched plain wrapped followed
  have hdirect : ∀ r ∈ registrations, ∀ method ∈ r.2,
      (reception.methods (MethodRef.normalize (r.1, method))).isSome ∨
        reception.resolve (MethodRef.normalize (r.1, method)).1
          (MethodRef.normalize (r.1, method)).2 = none := by
    simp only [registrations, List.forall_mem_cons]
    exact ⟨⟨Or.inl rfl, Or.inl rfl, Or.inr rfl, List.forall_mem_nil _⟩, List.forall_mem_nil _⟩
  exact ⟨hdirect, argumentsFit_visit, rfl,
    reception_built.strategies_agree .standard registrations hdirect scenes 2 visit
      argumentsFit_visit⟩

end MockAudit
