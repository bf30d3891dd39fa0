import MockAudit.Proofs.Displacement
import Mathlib.Data.List.Induction

/-!
# Honest locations

A recorder hides the implementation it was put around, which may be a stub, another recorder, or a
recorder around a stub. What tells them apart is the location: it is that of the innermost
implementation. A table of implementations is *honest* if every entry that runs a stub in the end
says so by its location, and so does every recorder inside of it (`LocatedCode.Honest`).

Stubs and recorders keep honest tables honest, whatever they are put over, and so does taking them
off in any order: what they have displaced is honest because it was in the table before.

## Main definitions

* `Implementation.runsStub`: whether a stub answers in the end.
* `LocatedCode.Honest`, `MethodTable.Honest`: entries and tables that say so.

## Main results

* `Machine.foldl_wrap_honest`: wrapping keeps the table honest.
* `Machine.installStubs_honest`: installing stubs keeps the table honest.
* `MethodTable.Honest.restore`: so does putting back honest entries.
-/

namespace MockAudit

/-- Whether a stub answers in the end. -/
def Implementation.runsStub : Implementation → Bool
  | .code _ => false
  | .stubbed .. => true
  | .recorder _ _ _ _ inner => inner.runsStub

/-- An implementation whose recorders record the location of a stub if a stub answers. -/
def Implementation.Honest : Implementation → Prop
  | .code _ | .stubbed .. => True
  | .recorder _ _ _ location inner =>
    (inner.runsStub = true → location = stubLocation) ∧ inner.Honest

/-- An honest implementation that says by its location if a stub answers. -/
structure LocatedCode.Honest (e : LocatedCode) : Prop where
  location : e.implementation.runsStub = true → e.location = stubLocation
  implementation : e.implementation.Honest

/-- A table of honest implementations. -/
def MethodTable.Honest (table : MethodTable) : Prop :=
  ∀ key e, table key = some e → e.Honest

/-- Displaced entries are honest if there were any. -/
def Displaced.Honest (d : Displaced) : Prop :=
  ∀ e, d.previous = some e → e.Honest

namespace MethodTable.Honest

variable {table : MethodTable}

theorem put (h : table.Honest) (key : MethodRef) {entry : Option LocatedCode}
    (hentry : ∀ e, entry = some e → e.Honest) : MethodTable.Honest (table.put key entry) := by
  intro key' e he
  by_cases hkey : key' = key
  · rw [hkey, put_same] at he
    exact hentry e he
  · rw [put_other _ _ hkey] at he
    exact h key' e he

/-- Putting back honest entries keeps a table honest. -/
theorem restore (h : table.Honest) {displaced : List Displaced}
    (hdisplaced : ∀ d ∈ displaced, d.Honest) : MethodTable.Honest (table.restore displaced) := by
  induction displaced using List.reverseRecOn generalizing table with
  | nil => exact h
  | append_singleton displaced d ih =>
    rw [restore_concat]
    rw [List.forall_mem_append] at hdisplaced
    exact ih (h.put d.key (hdisplaced.2 d (List.mem_singleton_self d))) hdisplaced.1

end MethodTable.Honest

namespace Machine

/-- The entry that handles a message is honest if the table is. -/
theorem honest_of_resolve {m : Machine} (h : m.methods.Honest) {target owner : Target}
    {name : String} {e : LocatedCode} (hresolve : m.resolve target name = some (owner, e)) :
    e.Honest :=
  h _ e (methods_of_resolve hresolve)

/-! ### Recorders -/

/-- A recorder is as honest as what it is put around. -/
theorem honest_recorder {e : LocatedCode} (h : e.Honest) (tracer : Nat) (key : MethodRef)
    (shape : Option Shape) :
    LocatedCode.Honest ⟨.recorder tracer key shape e.location e.implementation, e.location⟩ :=
  ⟨h.location, h.location, h.implementation⟩

/-- Wrapping methods keeps the table honest and displaces honest entries; nothing else changes but
the log. -/
theorem foldl_wrap_honest (tracer : Nat) (keys : List MethodRef) (m : Machine)
    (displaced : List Displaced) (h : m.methods.Honest) (hdisplaced : ∀ d ∈ displaced, d.Honest) :
    ∃ methods log displaced', MethodTable.Honest methods ∧ (∀ d ∈ displaced', d.Honest) ∧
      keys.foldl (wrap tracer) (m, displaced) = ({ m with methods, log }, displaced') := by
  induction keys generalizing m displaced with
  | nil => exact ⟨m.methods, m.log, displaced, h, hdisplaced, rfl⟩
  | cons key keys ih =>
    rw [List.foldl_cons]
    rcases wrap_cases tracer m displaced key with ⟨-, lines, hwrap⟩ | ⟨owner, e, hresolve, hwrap⟩
    · rw [hwrap]
      exact ih (m.write lines) displaced h hdisplaced
    · rw [hwrap]
      have hentry := honest_of_resolve h hresolve
      refine ih (m.install key _) _ (h.put key ?_) ?_
      · rintro _ ⟨⟩
        exact honest_recorder hentry tracer key _
      · refine List.forall_mem_append.mpr ⟨hdisplaced, ?_⟩
        rintro _ (_ | ⟨_, ⟨⟩⟩)
        exact h key

/-! ### Stubs -/

/-- Replacing a method by stubs keeps the table honest and displaces an honest entry. -/
theorem replaceByStubs_honest (sink : Sink) (m : Machine) (displaced : List Displaced)
    (key : MethodRef) (stubs : List Call) (h : m.methods.Honest)
    (hdisplaced : ∀ d ∈ displaced, d.Honest) :
    ∃ methods displaced', MethodTable.Honest methods ∧ (∀ d ∈ displaced', d.Honest) ∧
      replaceByStubs sink (m, displaced) key stubs = ({ m with methods }, displaced') := by
  cases stubs with
  | nil => exact ⟨m.methods, displaced, h, hdisplaced, rfl⟩
  | cons stub stubs =>
    refine ⟨_, _, h.put key ?_, ?_, rfl⟩
    · rintro _ ⟨⟩
      exact ⟨fun _ => rfl, trivial⟩
    · refine List.forall_mem_append.mpr ⟨hdisplaced, ?_⟩
      rintro _ (_ | ⟨_, ⟨⟩⟩)
      exact h key

private theorem stubMethod_honest (r : Registry) (sink : Sink) (m : Machine)
    (displaced : List Displaced) (key : MethodRef) (h : m.methods.Honest)
    (hdisplaced : ∀ d ∈ displaced, d.Honest) :
    ∃ methods displaced', MethodTable.Honest methods ∧ (∀ d ∈ displaced', d.Honest) ∧
      stubMethod r sink (m, displaced) key = ({ m with methods }, displaced') := by
  rw [stubMethod]
  split_ifs
  · exact replaceByStubs_honest sink m displaced key _ h hdisplaced
  · obtain ⟨methods, displaced₁, h₁, hdisplaced₁, heq⟩ := replaceByStubs_honest sink m displaced
      (.typeItself key.1.type, allocatorName) _ h hdisplaced
    rw [heq]
    exact replaceByStubs_honest sink { m with methods } displaced₁ key _ h₁ hdisplaced₁

private theorem foldl_stubMethod_honest (r : Registry) (sink : Sink) (keys : List MethodRef)
    (m : Machine) (displaced : List Displaced) (h : m.methods.Honest)
    (hdisplaced : ∀ d ∈ displaced, d.Honest) :
    ∃ methods displaced', MethodTable.Honest methods ∧ (∀ d ∈ displaced', d.Honest) ∧
      keys.foldl (stubMethod r sink) (m, displaced) = ({ m with methods }, displaced') := by
  induction keys generalizing m displaced with
  | nil => exact ⟨m.methods, displaced, h, hdisplaced, rfl⟩
  | cons key keys ih =>
    obtain ⟨methods, displaced₁, h₁, hdisplaced₁, heq⟩ :=
      stubMethod_honest r sink m displaced key h hdisplaced
    rw [List.foldl_cons, heq]
    exact ih { m with methods } displaced₁ h₁ hdisplaced₁

/-- Installing stubs keeps the table honest and displaces honest entries; besides, only the handler
of messages to doubles and the log change. -/
theorem installStubs_honest (m : Machine) (r : Registry) (sink : Sink) (h : m.methods.Honest) :
    ∃ methods doubleHandler log, MethodTable.Honest methods ∧
      (m.installStubs r sink).1 = { m with methods, doubleHandler, log } ∧
      ∀ d ∈ (m.installStubs r sink).2.displaced, d.Honest := by
  obtain ⟨methods, displaced, hmethods, hdisplaced, heq⟩ :=
    foldl_stubMethod_honest r sink (stubbedKeys r) m [] h (by simp)
  rw [installStubs, heq]
  cases (stubbedKeys r).flatMap fun key => (r.stubsOf key).filter isOnDouble with
  | nil => exact ⟨methods, m.doubleHandler, _, hmethods, rfl, hdisplaced⟩
  | cons stub stubs => exact ⟨methods, _, _, hmethods, rfl, hdisplaced⟩

end Machine

end MockAudit
