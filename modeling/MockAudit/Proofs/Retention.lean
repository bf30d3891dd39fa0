import MockAudit.Proofs.Displacement
import MockAudit.Proofs.Frames
import MockAudit.Proofs.Lockstep

/-!
# What programs leave to the audit

The checker and the places for mocked calls belong to the audit. A program that runs, the tracers
and the stubs may put mocked calls into these places, but they neither take one of them away nor
touch the checker.

## Main definitions

* `Machine.Retains`: a machine that has kept its checker and its places for mocked calls.

## Main results

* `Machine.retains_execute`: programs leave the checker and the places alone.
* `Machine.retains_startTracer`, `Machine.retains_stopTracer`: so do tracers.
* `Machine.retains_attachStubs`, `Machine.retains_detachStubs`: and so do stubs.
-/

namespace MockAudit

/-! ### What programs leave alone -/

/-- A machine that has kept the checker and the places for mocked calls of another. -/
structure Machine.Retains (m n : Machine) : Prop where
  checker : n.checker = m.checker
  stores : n.stores.length = m.stores.length

namespace Machine

variable {l m n : Machine}

theorem Retains.refl (m : Machine) : m.Retains m :=
  ⟨rfl, rfl⟩

theorem Retains.trans (h : l.Retains m) (h' : m.Retains n) : l.Retains n :=
  ⟨h'.checker.trans h.checker, h'.stores.trans h.stores⟩

theorem retains_deliver (m : Machine) (sink : Sink) (c : Call) :
    m.Retains (m.deliver sink c).1 := by
  rw [deliver]
  split
  · exact ⟨rfl, List.length_modify _ _ _⟩
  · exact ⟨rfl, rfl⟩

/-- No step of a program touches the checker or takes a place away. -/
theorem isFrame_retains (change : Nat → List TestContext → List TestContext) :
    IsFrame Retains (.ofContexts change) where
  refl := .refl
  trans := .trans
  heap _ _ := ⟨rfl, rfl⟩
  callback _ _ := ⟨rfl, rfl⟩
  notify m audience e := by
    obtain ⟨observers, tracers, log, hnotify⟩ := m.notify_eq audience e
    rw [hnotify]
    exact ⟨rfl, rfl⟩
  deliver := retains_deliver
  recording _ _ _ _ _ _ := ⟨rfl, rfl⟩
  recordEnded _ _ _ _ := ⟨rfl, rfl⟩

/-- Programs change neither the checker nor the number of places for mocked calls. -/
theorem retains_execute (m : Machine) (change : Nat → List TestContext → List TestContext)
    (depth : Nat) (program : Procedure) :
    m.Retains (m.execute (.ofContexts change) depth program).1 :=
  (isFrame_retains change).execute m depth program

/-! ### What tracers and stubs leave alone -/

theorem retains_startTracer {m m' : Machine} {tracer : Nat} {result : Except Error Unit}
    (h : m.startTracer tracer = (m', result)) : m.Retains m' := by
  obtain ⟨methods, subscribers, observers, tracers, log, hstart⟩ := m.startTracer_eq tracer
  obtain rfl : (m.startTracer tracer).1 = m' := by rw [h]
  rw [hstart]
  exact ⟨rfl, rfl⟩

theorem retains_stopTracer {m m' : Machine} {tracer : Nat} {calls : List Call}
    (h : m.stopTracer tracer = .ok (m', calls)) : m.Retains m' := by
  obtain ⟨methods, subscribers, tracers, log, rfl⟩ := stopTracer_eq h
  exact ⟨rfl, rfl⟩

theorem retains_attachStubs (m : Machine) (r : Registry) (sink : Sink) :
    m.Retains (m.attachStubs r sink).1 := by
  obtain ⟨methods, doubleHandler, stubSets, log, hattach⟩ := m.attachStubs_eq r sink
  rw [hattach]
  exact ⟨rfl, rfl⟩

theorem retains_detachStubs (m : Machine) (number : Nat) : m.Retains (m.detachStubs number) := by
  obtain ⟨methods, doubleHandler, stubSets, hdetach⟩ := m.detachStubs_eq number
  rw [hdetach]
  exact ⟨rfl, rfl⟩

end Machine

end MockAudit
