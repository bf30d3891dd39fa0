import MockAudit.Machine.Stubs
import MockAudit.Proofs.Interception

/-!
# What interception displaces

Tracers and stubs intercept messages by three parts of a machine: the table of implementations, the
handler of messages to doubles and the list of subscribers. What begins to intercept remembers what
it has displaced. As long as these three parts are as it left them, ending the interception puts
them back (`Machine.release_intercept`, `Machine.uninstallStubs_installStubs`). All other parts of
the machine, apart from the tracers and the sets of stubs themselves, are left alone.

## Main definitions

* `Machine.InterceptsAs`: machines on which interception is the same.

## Main results

* `Machine.release_intercept`: ending to watch undoes what was done to watch.
* `Machine.uninstallStubs_installStubs`: uninstalling stubs undoes what installing them has done.
* `Machine.startTracer_eq`, `Machine.stopTracer_eq`, `Machine.attachStubs_eq`,
  `Machine.detachStubs_eq`: the parts of a machine that interception changes.
-/

namespace MockAudit.Machine

/-- Messages to one machine are intercepted as those to the other. -/
structure InterceptsAs (m n : Machine) : Prop where
  methods : n.methods = m.methods
  doubleHandler : n.doubleHandler = m.doubleHandler
  subscribers : n.subscribers = m.subscribers

theorem InterceptsAs.trans {l m n : Machine} (h : l.InterceptsAs m) (h' : m.InterceptsAs n) :
    l.InterceptsAs n :=
  ⟨h'.methods.trans h.methods, h'.doubleHandler.trans h.doubleHandler,
    h'.subscribers.trans h.subscribers⟩

/-! ### Stubs -/

namespace Displaces

variable {m : Machine} {state : Machine × List Displaced}

theorem replaceByStubs (h : m.Displaces state) (sink : Sink) (key : MethodRef)
    (stubs : List Call) : m.Displaces (Machine.replaceByStubs sink state key stubs) := by
  cases stubs with
  | nil => exact h
  | cons stub stubs => exact h.install key _

theorem stubMethod (h : m.Displaces state) (r : Registry) (sink : Sink) (key : MethodRef) :
    m.Displaces (Machine.stubMethod r sink state key) := by
  rw [Machine.stubMethod]
  split
  · exact h.replaceByStubs sink key _
  · exact (h.replaceByStubs sink _ _).replaceByStubs sink key _

theorem foldl_stubMethod (m : Machine) (r : Registry) (sink : Sink) (keys : List MethodRef) :
    m.Displaces (keys.foldl (Machine.stubMethod r sink) (m, [])) :=
  List.foldlRecOn keys _ (.refl m) fun _ h key _ => h.stubMethod r sink key

end Displaces

/-- **Installing stubs** changes the table and the handler of messages to doubles, and it remembers
what they were. -/
theorem installStubs_eq (m : Machine) (r : Registry) (sink : Sink) :
    ∃ methods doubleHandler log displaced previousHandler,
      m.installStubs r sink =
        ({ m with methods, doubleHandler, log }, ⟨displaced, previousHandler⟩) ∧
      MethodTable.restore methods displaced = m.methods ∧
      previousHandler.getD doubleHandler = m.doubleHandler := by
  have hstubbed := Displaces.foldl_stubMethod m r sink (stubbedKeys r)
  rw [installStubs]
  rcases hstate : (stubbedKeys r).foldl (stubMethod r sink) (m, []) with ⟨n, displaced⟩
  rw [hstate] at hstubbed
  obtain ⟨⟨methods, log, rfl⟩, hrestore⟩ := hstubbed
  cases (stubbedKeys r).flatMap fun key => (r.stubsOf key).filter isOnDouble with
  | nil => exact ⟨methods, _, _, displaced, none, rfl, hrestore, rfl⟩
  | cons stub stubs => exact ⟨methods, _, _, displaced, some m.doubleHandler, rfl, hrestore, rfl⟩

/-- **Uninstalling stubs** puts back what they have displaced and changes nothing else. -/
theorem uninstallStubs_eq (m : Machine) (set : InstalledStubs) :
    m.uninstallStubs set =
      { m with
        methods := m.methods.restore set.displaced
        doubleHandler := set.previousHandler.getD m.doubleHandler } := by
  rw [uninstallStubs, restoreAll_eq]
  cases set.previousHandler <;> rfl

/-- Uninstalling stubs undoes what installing them has done. -/
theorem uninstallStubs_installStubs {m n : Machine} {r : Registry} {sink : Sink}
    (h : (m.installStubs r sink).1.InterceptsAs n) :
    n.uninstallStubs (m.installStubs r sink).2 =
      { n with methods := m.methods, doubleHandler := m.doubleHandler } := by
  obtain ⟨methods, doubleHandler, log, displaced, previousHandler, hinstall, hrestore, hprevious⟩ :=
    m.installStubs_eq r sink
  rw [hinstall] at h ⊢
  rw [uninstallStubs_eq, h.methods, h.doubleHandler, hrestore, hprevious]

/-- Attaching stubs installs them and adds what they have displaced as a new set. -/
theorem attachStubs_installed (m : Machine) (r : Registry) (sink : Sink) :
    m.attachStubs r sink =
      ({ (m.installStubs r sink).1 with
          stubSets := m.stubSets ++ [some (m.installStubs r sink).2] }, m.stubSets.length) := by
  obtain ⟨methods, doubleHandler, log, displaced, previousHandler, hinstall, -, -⟩ :=
    m.installStubs_eq r sink
  rw [attachStubs, hinstall]

theorem attachStubs_eq (m : Machine) (r : Registry) (sink : Sink) :
    ∃ methods doubleHandler stubSets log, (m.attachStubs r sink).1 =
      { m with methods, doubleHandler, stubSets, log } := by
  obtain ⟨methods, doubleHandler, log, displaced, previousHandler, hinstall, -, -⟩ :=
    m.installStubs_eq r sink
  rw [attachStubs_installed, hinstall]
  exact ⟨methods, doubleHandler, _, log, rfl⟩

theorem detachStubs_eq (m : Machine) (number : Nat) :
    ∃ methods doubleHandler stubSets, m.detachStubs number =
      { m with methods, doubleHandler, stubSets } := by
  rw [detachStubs]
  split
  · rename_i set _
    rw [uninstallStubs_eq]
    exact ⟨_, _, _, rfl⟩
  · exact ⟨m.methods, m.doubleHandler, m.stubSets, rfl⟩

/-! ### Tracers -/

/-- A tracer watches by recorders in the table, which can be taken off again, or else by a new
subscription. -/
theorem intercept_cases (m : Machine) (tracer : Nat) (t : Tracer) :
    (∃ methods log displaced,
      m.intercept tracer t = ({ m with methods, log }, .wrapped displaced) ∧
      MethodTable.restore methods displaced = m.methods) ∨
    m.intercept tracer t =
      ({ m with
          observers := m.observers ++ [.follower tracer t.watched]
          subscribers := m.subscribers ++ [m.observers.length] },
        .subscribed m.observers.length) := by
  rw [intercept]
  cases t.strategy with
  | wrap =>
    refine Or.inl ?_
    have hwrapped := Displaces.foldl_wrap m tracer t.watched.keys
    rcases hstate : t.watched.keys.foldl (wrap tracer) (m, []) with ⟨n, displaced⟩
    rw [hstate] at hwrapped
    obtain ⟨⟨methods, log, rfl⟩, hrestore⟩ := hwrapped
    exact ⟨methods, log, displaced, rfl, hrestore⟩
  | events => exact Or.inr rfl

theorem intercept_eq (m : Machine) (tracer : Nat) (t : Tracer) :
    ∃ methods subscribers observers log, (m.intercept tracer t).1 =
      { m with methods, subscribers, observers, log } := by
  rcases m.intercept_cases tracer t with ⟨methods, log, displaced, hintercept, -⟩ | hintercept
  · exact ⟨methods, m.subscribers, m.observers, log, by rw [hintercept]⟩
  · exact ⟨m.methods, _, _, m.log, by rw [hintercept]⟩

/-- Ending to watch undoes what was done to watch, if no subscriber had the number of the observer
that was subscribed. -/
theorem release_intercept {m n : Machine} {tracer : Nat} {t : Tracer}
    (hm : ∀ observer ∈ m.subscribers, observer < m.observers.length)
    (h : (m.intercept tracer t).1.InterceptsAs n) :
    n.release (m.intercept tracer t).2 =
      { n with methods := m.methods, subscribers := m.subscribers } := by
  rcases m.intercept_cases tracer t with
    ⟨methods, log, displaced, hintercept, hrestore⟩ | hintercept
  · rw [hintercept] at h ⊢
    rw [release, restoreAll_eq, h.methods, hrestore, ← h.subscribers]
  · rw [hintercept] at h ⊢
    have hothers : m.subscribers.filter (· != m.observers.length) = m.subscribers :=
      List.filter_eq_self.mpr fun observer hmem => by
        simpa using Nat.ne_of_lt (hm observer hmem)
    rw [release, unsubscribe, h.subscribers, List.filter_append, hothers, ← h.methods]
    simp

theorem startTracer_eq (m : Machine) (tracer : Nat) :
    ∃ methods subscribers observers tracers log, (m.startTracer tracer).1 =
      { m with methods, subscribers, observers, tracers, log } := by
  rcases m.startTracer_cases tracer with hsame | ⟨t, lines, -, -, hstart⟩
  · exact ⟨m.methods, m.subscribers, m.observers, m.tracers, m.log, by rw [hsame]⟩
  · obtain ⟨methods, subscribers, observers, log, hintercept⟩ := m.intercept_eq tracer t
    rw [hstart, hintercept]
    exact ⟨methods, subscribers, observers, _, _, rfl⟩

theorem stopTracer_eq {m m' : Machine} {tracer : Nat} {calls : List Call}
    (h : m.stopTracer tracer = .ok (m', calls)) :
    ∃ methods subscribers tracers log, m' = { m with methods, subscribers, tracers, log } := by
  rcases stopTracer_cases h with ⟨-, hsame, -⟩ | ⟨t, stats, -, -, hsame⟩ |
    ⟨t, m₁, lines, stats, -, ⟨-, rfl⟩ | ⟨displaced | observer, -, rfl⟩, -, rfl⟩
  · exact ⟨m.methods, m.subscribers, m.tracers, m.log, hsame⟩
  · exact ⟨m.methods, m.subscribers, m.tracers, m.log, hsame⟩
  · exact ⟨m₁.methods, m₁.subscribers, _, _, rfl⟩
  · rw [release, restoreAll_eq]
    exact ⟨_, m.subscribers, _, _, rfl⟩
  · exact ⟨m.methods, _, _, _, rfl⟩

end MockAudit.Machine
