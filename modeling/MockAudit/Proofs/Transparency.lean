import MockAudit.Machine.Stubs
import MockAudit.Proofs.Lockstep

/-!
# Tracing and the answers of stubs

A tracer should not change what a program does. What a program does depends on the declared types,
the objects, the stubs on doubles, the checker, the test cases and on what the implementations do
when the recorders around them are taken off; it does not depend on who watches. Machines that have
all of this in common are *alike*, and alike machines answer every message alike
(`Machine.Alike.execute`).

A tracer that follows events leaves a machine alike, and so does one that wraps, as long as each
watched method has an entry of its own or is not handled at all (`Machine.startTracing_alike`). As
installing stubs keeps machines alike, programs get the same answers and report the same mocked
calls whether the stubbed methods are traced or not (`Machine.installStubs_execute_alike`). Without
the condition this fails: a recorder for a method that is merely inherited hides the stubs that are
later installed where it is defined (`stub_hidden_by_recorder`).

## Main definitions

* `Implementation.core`: an implementation without the recorders around it.
* `Machine.Alike`: machines that are alike for the programs they run.
* `Reply.Alike`: the same outcome on machines that are alike.

## Main results

* `Machine.Alike.resolve`: alike machines find the same implementations.
* `Machine.Alike.execute`: alike machines run programs alike.
* `Machine.Alike.installStubs`: stubs keep machines alike.
* `Machine.startTracing_alike`: starting a tracer leaves a machine alike.
* `Machine.installStubs_execute_alike`: stubs answer alike whether their methods are traced or not.
-/

namespace MockAudit

/-- The implementation inside of all recorders. -/
def Implementation.core : Implementation → Implementation
  | .recorder _ _ _ _ inner => inner.core
  | .code body => .code body
  | .stubbed key stubs sink => .stubbed key stubs sink

/-- Machines that are alike for the programs they run, whoever watches. -/
structure Machine.Alike (m n : Machine) : Prop where
  catalog : m.catalog = n.catalog
  methods : ∀ key, (m.methods key).map (·.implementation.core) =
    (n.methods key).map (·.implementation.core)
  heap : m.heap = n.heap
  doubleHandler : m.doubleHandler = n.doubleHandler
  stores : m.stores = n.stores
  checker : m.checker = n.checker
  contexts : m.contexts = n.contexts

/-- The same outcome on machines that are alike. -/
structure Reply.Alike (x y : Reply) : Prop where
  machine : x.1.Alike y.1
  outcome : x.2 = y.2

namespace Machine.Alike

variable {l m n : Machine}

theorem refl (m : Machine) : m.Alike m :=
  ⟨rfl, fun _ => rfl, rfl, rfl, rfl, rfl, rfl⟩

theorem symm (h : m.Alike n) : n.Alike m :=
  ⟨h.catalog.symm, fun key => (h.methods key).symm, h.heap.symm, h.doubleHandler.symm,
    h.stores.symm, h.checker.symm, h.contexts.symm⟩

theorem trans (h : l.Alike m) (h' : m.Alike n) : l.Alike n :=
  ⟨h.catalog.trans h'.catalog, fun key => (h.methods key).trans (h'.methods key),
    h.heap.trans h'.heap, h.doubleHandler.trans h'.doubleHandler, h.stores.trans h'.stores,
    h.checker.trans h'.checker, h.contexts.trans h'.contexts⟩

end Machine.Alike

namespace Reply.Alike

variable {x y z : Reply}

theorem symm (h : x.Alike y) : y.Alike x :=
  ⟨h.machine.symm, h.outcome.symm⟩

theorem trans (h : x.Alike y) (h' : y.Alike z) : x.Alike z :=
  ⟨h.machine.trans h'.machine, h.outcome.trans h'.outcome⟩

/-- What goes on alike with the outcome of alike replies ends alike. -/
theorem andThen (h : x.Alike y) {f g : Machine → Outcome → Reply}
    (hnext : ∀ m n o, m.Alike n → (f m o).Alike (g n o)) :
    (x.andThen f).Alike (y.andThen g) := by
  obtain ⟨m, o⟩ := x
  obtain ⟨n, o'⟩ := y
  obtain ⟨hmachine, houtcome⟩ := h
  obtain rfl : o = o' := houtcome
  cases o with
  | none => exact ⟨hmachine, rfl⟩
  | some o => exact hnext m n o hmachine

end Reply.Alike

namespace Machine

variable {m n : Machine}

/-! ### What programs do not notice -/

/-- Observers are told behind the back of the program. -/
theorem notify_alike (m : Machine) (audience : List Nat) (e : Event) :
    (m.notify audience e).Alike m := by
  obtain ⟨observers, tracers, log, hnotify⟩ := m.notify_eq audience e
  rw [hnotify]
  exact ⟨rfl, fun _ => rfl, rfl, rfl, rfl, rfl, rfl⟩

/-- Records are made behind the back of the program. -/
theorem recording_alike (m : Machine) (tracer : Nat) (c : Call) : (m.recording tracer c).Alike m :=
  ⟨rfl, fun _ => rfl, rfl, rfl, rfl, rfl, rfl⟩

private theorem recordEnded_alike (m : Machine) (tracer index : Nat) (o : Outcome) :
    (m.recordEnded tracer index o).Alike m :=
  ⟨rfl, fun _ => rfl, rfl, rfl, rfl, rfl, rfl⟩

/-! ### Stubs -/

namespace Alike

private theorem withHeap (h : m.Alike n) (heap : Heap) : { m with heap }.Alike { n with heap } :=
  ⟨h.catalog, h.methods, rfl, h.doubleHandler, h.stores, h.checker, h.contexts⟩

theorem write (h : m.Alike n) (lines lines' : List LogLine) :
    (m.write lines).Alike (n.write lines') :=
  ⟨h.catalog, h.methods, h.heap, h.doubleHandler, h.stores, h.checker, h.contexts⟩

private theorem keep (h : m.Alike n) (store : Nat) (c : Call) :
    (m.keep store c).Alike (n.keep store c) := by
  have hstores := congrArg (List.modify · store (· ++ [c])) h.stores
  exact ⟨h.catalog, h.methods, h.heap, h.doubleHandler, hstores, h.checker, h.contexts⟩

/-- Mocked calls are judged alike. -/
theorem judge (h : m.Alike n) (j : Judge) (c : Call) : m.judge j c = n.judge j c := by
  unfold Machine.judge
  rw [environment, environment, h.checker, h.catalog]

/-- Mocked calls are delivered alike. -/
theorem deliver (h : m.Alike n) (sink : Sink) (c : Call) :
    (m.deliver sink c).1.Alike (n.deliver sink c).1 ∧
      (m.deliver sink c).2 = (n.deliver sink c).2 := by
  rw [Machine.deliver, Machine.deliver, h.judge]
  have hwritten := h.write (m.judgeLog sink.judge c) (n.judgeLog sink.judge c)
  split
  · exact ⟨hwritten.keep _ c, rfl⟩
  · exact ⟨hwritten, rfl⟩

/-- Stubs answer alike. -/
theorem answerFrom (h : m.Alike n) (stub : Call) (receiver : Value) (args : List Value)
    (sink : Sink) :
    Reply.Alike (m.answerFrom stub receiver args sink) (n.answerFrom stub receiver args sink) := by
  have htest : m.testCase = n.testCase := by rw [testCase, testCase, h.contexts]
  rw [Machine.answerFrom, Machine.answerFrom, h.catalog, htest]
  set c := stub.mocked receiver args _ n.testCase
  obtain ⟨hmachine, hverdict⟩ := h.deliver sink c
  rcases hm : m.deliver sink c with ⟨m', verdict⟩
  rcases hn : n.deliver sink c with ⟨n', verdict'⟩
  rw [hm, hn] at hmachine hverdict
  obtain rfl : verdict = verdict' := hverdict
  rcases verdict with fault | _ | failure <;> exact ⟨hmachine, rfl⟩

/-- Doubles answer alike. -/
theorem answerDouble (h : m.Alike n) (d : TestDouble) (method : String) (args : List Value) :
    Reply.Alike (m.answerDouble d method args) (n.answerDouble d method args) := by
  rw [Machine.answerDouble, Machine.answerDouble, h.doubleHandler]
  split
  · exact ⟨h, rfl⟩
  · split
    · exact ⟨h, rfl⟩
    · split
      · exact h.answerFrom _ _ _ _
      · exact ⟨h, rfl⟩

end Alike

/-! ### Messages and programs -/

/-- Alike machines find implementations that differ in their recorders at most, of the same
owners. -/
theorem Alike.resolve (h : m.Alike n) (target : Target) (name : String) :
    (m.resolve target name).map (fun found => (found.1, found.2.implementation.core)) =
      (n.resolve target name).map fun found => (found.1, found.2.implementation.core) := by
  suffices ∀ visits type,
      (m.resolveFrom target.onType name visits type).map
          (fun found => (found.1, found.2.implementation.core)) =
        (n.resolveFrom target.onType name visits type).map
          fun found => (found.1, found.2.implementation.core) from this _ _
  intro visits
  induction visits with
  | zero => exact fun _ => rfl
  | succ visits ih =>
    intro type
    have hentry := h.methods (⟨type, target.onType⟩, name)
    rw [resolveFrom, resolveFrom, h.catalog]
    cases hm : m.methods (⟨type, target.onType⟩, name) with
    | some e =>
      rw [hm] at hentry
      obtain ⟨e', hn, hcore⟩ := Option.map_eq_some_iff.mp hentry.symm
      simp only [hn, Option.map_some, hcore]
    | none =>
      rw [hm] at hentry
      have hn := Option.map_eq_none_iff.mp hentry.symm
      rw [hn]
      cases n.catalog.find? type with
      | none => rfl
      | some d => cases hsuperclass : d.superclass <;> simp [hsuperclass, ih]

/-- Nothing is found on either machine, or something that differs in its recorders at most. -/
theorem Alike.resolve_cases (h : m.Alike n) (target : Target) (name : String) :
    (m.resolve target name = none ∧ n.resolve target name = none) ∨
    ∃ owner e e', m.resolve target name = some (owner, e) ∧
      n.resolve target name = some (owner, e') ∧
      e.implementation.core = e'.implementation.core := by
  have hresolve := h.resolve target name
  cases hm : m.resolve target name with
  | none =>
    rw [hm] at hresolve
    exact .inl ⟨rfl, Option.map_eq_none_iff.mp hresolve.symm⟩
  | some found =>
    obtain ⟨owner, e⟩ := found
    rw [hm] at hresolve
    obtain ⟨⟨owner', e'⟩, hn, hfound⟩ := Option.map_eq_some_iff.mp hresolve.symm
    obtain ⟨rfl, hcore⟩ := Prod.mk.inj hfound
    exact .inr ⟨owner', e, e', rfl, hn, hcore.symm⟩

end Machine

section

variable (change : Nat → List TestContext → List TestContext)
  (answer : Machine → Message → Reply) {m n : Machine}

/-- Messages to alike machines are answered alike. -/
def AnswersAlike : Prop :=
  ∀ m n message, m.Alike n → (answer m message).Alike (answer n message)

variable {answer}

/-- Alike machines run procedures alike. -/
theorem Procedure.run_alike (hanswer : AnswersAlike answer) (p : Procedure) (h : m.Alike n) :
    (p.run (.ofContexts change) answer m).Alike (p.run (.ofContexts change) answer n) := by
  induction p generalizing m n with
  | finish o => exact ⟨h, rfl⟩
  | onHeap work next ih =>
    rw [run, run, h.heap]
    exact ih _ (h.withHeap _)
  | send receiver method args next ih =>
    rw [run_send, run_send]
    exact (hanswer m n _ h).andThen fun m n o h => ih o h
  | construct type args next ih =>
    rw [run_construct, run_construct]
    exact (hanswer m n _ h).andThen fun m n o h => ih o h
  | allocate type args next ih =>
    rw [run_allocate, run_allocate]
    exact (hanswer m n _ h).andThen fun m n o h => ih o h
  | callback number next ih =>
    refine ih ⟨h.catalog, h.methods, h.heap, h.doubleHandler, h.stores, h.checker, ?_⟩
    exact congrArg (change number) h.contexts

namespace Implementation

/-- Recorders do not change what an implementation does. -/
theorem run_core (hanswer : AnswersAlike answer) (i : Implementation) (h : m.Alike n)
    (receiver : Value) (args : List Value) :
    (i.run (.ofContexts change) answer m receiver args).Alike
      (i.core.run (.ofContexts change) answer n receiver args) := by
  induction i generalizing m with
  | code body => exact (body receiver args).run_alike change hanswer h
  | stubbed key stubs sink =>
    rw [core, run, run]
    split
    · exact h.answerFrom _ _ _ _
    · exact ⟨h, rfl⟩
  | recorder tracer key shape location inner ih =>
    rw [run_recorder]
    have hinner := ih ((m.recording_alike tracer (m.recordedCall key shape location args)).trans h)
    rw [core, ← Reply.andThen_pure (inner.core.run _ _ _ _ _)]
    exact hinner.andThen fun m n o h => ⟨(m.recordEnded_alike tracer _ o).trans h, rfl⟩

/-- Implementations that differ in their recorders at most do the same. -/
theorem run_alike (hanswer : AnswersAlike answer) {i j : Implementation} (hcore : i.core = j.core)
    (h : m.Alike n) (receiver : Value) (args : List Value) :
    (i.run (.ofContexts change) answer m receiver args).Alike
      (j.run (.ofContexts change) answer n receiver args) := by
  have hi := i.run_core change hanswer h receiver args
  have hj := j.run_core change hanswer (.refl n) receiver args
  rw [hcore] at hi
  exact hi.trans hj.symm

end Implementation

namespace Machine.Alike

/-- Alike machines dispatch alike, whoever listens. -/
theorem dispatch (hanswer : AnswersAlike answer) (h : m.Alike n) (target : Target)
    (receiver : Value) (method : String) (args : List Value) :
    (m.dispatch (.ofContexts change) answer target receiver method args).Alike
      (n.dispatch (.ofContexts change) answer target receiver method args) := by
  rcases h.resolve_cases target method with ⟨hm, hn⟩ | ⟨owner, e, e', hm, hn, hcore⟩
  · rw [dispatch_of_resolve_none _ _ hm, dispatch_of_resolve_none _ _ hn]
    exact ⟨h, rfl⟩
  · rw [dispatch_of_resolve _ _ hm, dispatch_of_resolve _ _ hn, enact, enact]
    have hbegun : (m.notify m.subscribers (m.calledEvent owner e receiver method args)).Alike
        (n.notify n.subscribers (n.calledEvent owner e' receiver method args)) :=
      (m.notify_alike _ _).trans (h.trans (n.notify_alike _ _).symm)
    refine (Implementation.run_alike change hanswer hcore hbegun receiver args).andThen
      fun m' n' o h => ⟨?_, rfl⟩
    exact (m'.notify_alike _ _).trans (h.trans (n'.notify_alike _ _).symm)

/-- Alike machines create instances alike. -/
theorem allocate (hanswer : AnswersAlike answer) (h : m.Alike n) (type : TypeName)
    (args : List Value) :
    (m.allocate (.ofContexts change) answer type args).Alike
      (n.allocate (.ofContexts change) answer type args) := by
  have hallocated : (m.allocated type).Alike (n.allocated type) := by
    rw [allocated, allocated, h.heap]
    exact h.withHeap _
  rcases hallocated.resolve_cases (.instances type) constructorName with
    ⟨hm, hn⟩ | ⟨owner, e, e', hm, hn, -⟩
  · rw [allocate_of_resolve_none _ _ hm, allocate_of_resolve_none _ _ hn, h.heap]
    exact ⟨hallocated, rfl⟩
  · rw [allocate_of_resolve _ _ hm, allocate_of_resolve _ _ hn, h.heap]
    exact (hallocated.dispatch change hanswer _ _ _ _).andThen fun m n o h => ⟨h, rfl⟩

/-- Alike machines handle messages alike. -/
theorem handle (hanswer : AnswersAlike answer) :
    AnswersAlike (Machine.handle (.ofContexts change) answer) := by
  intro m n message h
  cases message with
  | send receiver method args =>
    cases receiver with
    | double d => exact h.answerDouble d method args
    | _ => exact h.dispatch change hanswer _ _ _ _
  | construct type args =>
    rcases h.resolve_cases (.typeItself type) allocatorName with
      ⟨hm, hn⟩ | ⟨owner, e, e', hm, hn, -⟩
    · simp only [Machine.handle, hm, hn]
      exact h.allocate change hanswer type args
    · simp only [Machine.handle, hm, hn]
      exact h.dispatch change hanswer _ _ _ _
  | allocate type args => exact h.allocate change hanswer type args

end Machine.Alike

end

/-- Alike machines answer messages alike, however deeply they are nested. -/
theorem Machine.answer_alike (change : Nat → List TestContext → List TestContext) (depth : Nat) :
    AnswersAlike (Machine.answer (.ofContexts change) depth) := by
  induction depth with
  | zero => exact fun m n message h => ⟨h, rfl⟩
  | succ depth ih => exact Machine.Alike.handle change ih

namespace Machine

variable {m n : Machine}

/-- Alike machines run programs alike. -/
theorem Alike.execute (h : m.Alike n) (change : Nat → List TestContext → List TestContext)
    (depth : Nat) (program : Procedure) :
    (m.execute (.ofContexts change) depth program).Alike
      (n.execute (.ofContexts change) depth program) :=
  program.run_alike change (Machine.answer_alike change depth) h

/-! ### Tracers and sets of stubs -/

/-- A recorder around an entry does not change its core. -/
theorem recorderAround_core (m : Machine) (tracer : Nat) (keys : List MethodRef) (key : MethodRef)
    (e : LocatedCode) :
    (m.recorderAround tracer keys key e).implementation.core = e.implementation.core := by
  rw [recorderAround]
  split <;> rfl

/-- **Starting a tracer** leaves a machine alike. If the tracer wraps, each watched method needs an
entry of its own, unless nothing handles it. -/
theorem startTracing_alike (m : Machine) (strategy : Strategy) (filter : ArtifactFilter)
    {watched : WatchList} (hnodup : watched.keys.Nodup)
    (hdirect : strategy = .wrap → ∀ key ∈ watched.keys,
      (m.methods key).isSome ∨ m.resolve key.1 key.2 = none) :
    (m.startTracing strategy filter watched).Alike m := by
  cases strategy with
  | wrap =>
    obtain ⟨displaced, lines, hstart, -⟩ := m.startTracing_wrap filter hnodup (hdirect rfl)
    rw [hstart]
    refine ⟨rfl, fun key => ?_, rfl, rfl, rfl, rfl, rfl⟩
    simp only [recordedTable, Option.map_map]
    congr 1
    funext e
    exact m.recorderAround_core _ _ key e
  | events =>
    obtain ⟨lines, hstart⟩ := m.startTracing_events filter watched
    rw [hstart]
    exact ⟨rfl, fun _ => rfl, rfl, rfl, rfl, rfl, rfl⟩

namespace Alike

private theorem install (h : m.Alike n) (key : MethodRef) (entry : Option LocatedCode) :
    (m.install key entry).Alike (n.install key entry) := by
  have hput (key' : MethodRef) : (m.methods.put key entry key').map (·.implementation.core) =
      (n.methods.put key entry key').map (·.implementation.core) := by
    by_cases hkey : key' = key
    · rw [hkey, MethodTable.put_same, MethodTable.put_same]
    · rw [MethodTable.put_other _ _ hkey, MethodTable.put_other _ _ hkey]
      exact h.methods key'
  exact ⟨h.catalog, hput, h.heap, h.doubleHandler, h.stores, h.checker, h.contexts⟩

variable {state state' : Machine × List Displaced}

theorem replaceByStubs (h : state.1.Alike state'.1) (sink : Sink) (key : MethodRef)
    (stubs : List Call) :
    (Machine.replaceByStubs sink state key stubs).1.Alike
      (Machine.replaceByStubs sink state' key stubs).1 := by
  cases stubs with
  | nil => exact h
  | cons stub stubs => exact h.install key _

theorem stubMethod (h : state.1.Alike state'.1) (r : Registry) (sink : Sink) (key : MethodRef) :
    (Machine.stubMethod r sink state key).1.Alike (Machine.stubMethod r sink state' key).1 := by
  rw [Machine.stubMethod, Machine.stubMethod]
  split
  · exact h.replaceByStubs sink _ _
  · exact (h.replaceByStubs sink _ _).replaceByStubs sink _ _

private theorem foldl_stubMethod (h : state.1.Alike state'.1) (r : Registry) (sink : Sink)
    (keys : List MethodRef) :
    (keys.foldl (Machine.stubMethod r sink) state).1.Alike
      (keys.foldl (Machine.stubMethod r sink) state').1 := by
  induction keys generalizing state state' with
  | nil => exact h
  | cons key keys ih => exact ih (h.stubMethod r sink key)

/-- Installed stubs keep machines alike. -/
theorem installStubs (h : m.Alike n) (r : Registry) (sink : Sink) :
    (m.installStubs r sink).1.Alike (n.installStubs r sink).1 := by
  have hstubbed : ((stubbedKeys r).foldl (Machine.stubMethod r sink) (m, [])).1.Alike
      ((stubbedKeys r).foldl (Machine.stubMethod r sink) (n, [])).1 :=
    foldl_stubMethod h r sink _
  rw [Machine.installStubs, Machine.installStubs]
  dsimp only
  split
  · exact hstubbed.write _ _
  · exact ⟨hstubbed.catalog, hstubbed.methods, hstubbed.heap, rfl, hstubbed.stores,
      hstubbed.checker, hstubbed.contexts⟩

end Alike

/-- **Tracing does not change what stubs answer**, under a condition. Let the methods stubbed by a
registry be traced before its stubs are installed. If the tracer wraps, let each stubbed method
have an entry of its own, unless nothing handles it. Then every program ends with the same outcome
as without the tracer, with the same objects and the same mocked calls. -/
theorem installStubs_execute_alike (m : Machine) (r : Registry) (sink : Sink)
    (strategy : Strategy) (filter : ArtifactFilter)
    (hdirect : strategy = .wrap → ∀ key ∈ (WatchList.ofRegistrations r.targets).keys,
      (m.methods key).isSome ∨ m.resolve key.1 key.2 = none)
    (change : Nat → List TestContext → List TestContext) (depth : Nat) (program : Procedure) :
    let traced := m.startTracing strategy filter (.ofRegistrations r.targets)
    ((traced.installStubs r sink).1.execute (.ofContexts change) depth program).Alike
      ((m.installStubs r sink).1.execute (.ofContexts change) depth program) :=
  ((m.startTracing_alike strategy filter (WatchList.nodup_keys_ofRegistrations r.targets)
    hdirect).installStubs r sink).execute change depth program

end Machine

/-! ### A family of types -/

/-- A type with a method, and a type below it that inherits the method. A double of the type below
has been created. -/
def family : Machine :=
  let heap := (Heap.empty.newDouble none (.instanceOf "Child")).2
  ((({ heap } : Machine).addType "Base" none).addType "Child" (some "Base")).addMethod
    (.instances "Base", "m") ⟨[]⟩ "family.rs:1" fun _ _ => .give (.int 1)

/-- A stub where the method is defined. -/
def familyStub : Call :=
  Registry.stub (.instances "Base") "m" [] none none none (.int 3)

/-- A stub of the inherited method on the double. -/
def familyDoubleStub : Call :=
  let double := Value.double ⟨0, none, .instanceOf "Child"⟩
  Registry.stub (.instances "Child") "m" [] (some double) none none (.int 2)

/-- A program that calls the method on a new object of the type below. -/
def familyProgram : Procedure :=
  .construct "Child" [] fun
    | .returned child => .send child "m" [] .finish
    | .raised e => .finish (.raised e)

/-- If only the method where it is defined is stubbed, a tracer that wraps does not change the
answer. -/
theorem installStubs_execute_alike_of_family :
    ((((family.startTracing .wrap .standard (.ofRegistrations
        (Registry.empty.register familyStub).targets)).installStubs
          (Registry.empty.register familyStub) ⟨.lenient, none⟩).1.execute
            (.ofContexts fun _ contexts => contexts) 2 familyProgram).Alike
      ((family.installStubs (Registry.empty.register familyStub) ⟨.lenient, none⟩).1.execute
        (.ofContexts fun _ contexts => contexts) 2 familyProgram)) ∧
    ∀ key ∈ (WatchList.ofRegistrations (Registry.empty.register familyStub).targets).keys,
      (family.methods key).isSome ∨ family.resolve key.1 key.2 = none := by
  have hdirect : ∀ key ∈
      (WatchList.ofRegistrations (Registry.empty.register familyStub).targets).keys,
      (family.methods key).isSome := by
    decide +kernel
  exact ⟨family.installStubs_execute_alike _ _ .wrap .standard
    (fun _ key hkey => .inl (hdirect key hkey)) _ 2 _, fun key hkey => .inl (hdirect key hkey)⟩

/-- If a double of the type below is stubbed as well, the inherited method is traced there. The
recorder found the method itself, so with a tracer that wraps the program gets the answer of the
method, and else that of the stub. -/
theorem stub_hidden_by_recorder :
    let registry := (Registry.empty.register familyDoubleStub).register familyStub
    let traced := family.startTracing .wrap .standard (.ofRegistrations registry.targets)
    ((traced.installStubs registry ⟨.lenient, none⟩).1.execute
        (.ofContexts fun _ contexts => contexts) 2 familyProgram).2 =
      some (.returned (.int 1)) ∧
    ((family.installStubs registry ⟨.lenient, none⟩).1.execute
        (.ofContexts fun _ contexts => contexts) 2 familyProgram).2 =
      some (.returned (.int 3)) := by
  exact ⟨rfl, rfl⟩

end MockAudit
