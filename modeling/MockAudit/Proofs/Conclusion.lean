import MockAudit.Proofs.Announcements
import MockAudit.Proofs.BatchAudit
import MockAudit.Proofs.TracerLife

/-!
# Conclusions

A conclusion enters the phase of draining, stops the tracer, and then goes on from pass to pass.
None of what it does after the tracer was stopped touches the tracer, the real calls or the
interception of the program (`Audit.ProceedsTo`): it enters later phases, each of which it
announces, and it may change the checker, the stubs and the log. So from a phase in which an audit
may be concluded at all, no later phase is ever refused to it, and if it succeeds, it has arrived at
the last one (`Audit.conclude_cases`).

## Main definitions

* `Phase.Ascent`: phases that are entered one from the other.
* `Audit.ProceedsTo`: an audit at a later point of the same conclusion.
* `Audit.Step.Arrives`: a step of a conclusion that leads to phases of a kind.
* `Audit.Concluded`: how a conclusion may go.

## Main results

* `Audit.drain_cases`: how an audit is drained.
* `Audit.conclude_cases`: the cases of a conclusion.
-/

namespace MockAudit

/-! ### Ascents -/

namespace Phase

/-- Phases that are entered one from the other, between a first one and a last one. -/
inductive Ascent : Phase → List Phase → Phase → Prop
  | stay (p : Phase) : Ascent p [] p
  | enter {p q r : Phase} {phases : List Phase} (h : p.mayEnter q = true)
      (rest : Ascent q phases r) : Ascent p (q :: phases) r

namespace Ascent

variable {p q r : Phase} {phases phases' : List Phase}

theorem single (h : p.mayEnter q = true) : Ascent p [q] q :=
  .enter h (.stay q)

theorem append (h : Ascent p phases q) (h' : Ascent q phases' r) :
    Ascent p (phases ++ phases') r := by
  induction h with
  | stay p => exact h'
  | enter h rest ih => exact .enter h (ih h')

/-- What may not be entered any more may not be entered later. -/
theorem mayEnter_eq_false (h : Ascent p phases q) (hr : p.mayEnter r = false) :
    q.mayEnter r = false := by
  induction h with
  | stay p => exact hr
  | enter h rest ih =>
    refine ih (Bool.eq_false_iff.mpr fun hlater => ?_)
    rw [mayEnter_trans h hlater] at hr
    cases hr

/-- All phases of an ascent may be entered from the first. -/
theorem forall_mayEnter (h : Ascent p phases q) : ∀ r ∈ phases, p.mayEnter r = true := by
  induction h with
  | stay p => exact List.forall_mem_nil _
  | enter h rest ih =>
    exact List.forall_mem_cons.mpr ⟨h, fun r hr => mayEnter_trans h (ih r hr)⟩

/-- The phases of an ascent are in strict order. -/
theorem pairwise (h : Ascent p phases q) : (p :: phases).Pairwise (·.mayEnter ·) := by
  induction h with
  | stay p => exact List.pairwise_singleton _ p
  | enter h rest ih => exact List.pairwise_cons.mpr ⟨(enter h rest).forall_mayEnter, ih⟩

/-- An ascent ends with its last phase. -/
theorem getLast? (h : Ascent p phases q) : (p :: phases).getLast? = some q := by
  induction h with
  | stay p => rfl
  | enter h rest ih => rw [List.getLast?_cons_cons, ih]

end Ascent

end Phase

namespace Audit

variable {a b c : Audit}

/-! ### Steps after the tracer was stopped -/

/-- An audit at a later point of the same conclusion. It may have entered later phases, each of
which it has announced; apart from that only the stubs, the checker and the log may be different. -/
structure ProceedsTo (a b : Audit) : Prop where
  audit : ∃ registry phase checker log, b =
    { a with registry, phase, machine := { a.machine with checker, log } }
  phases : ∃ phases, announced b.machine.log = announced a.machine.log ++ phases ∧
    a.phase.Ascent phases b.phase

theorem ProceedsTo.refl (a : Audit) : a.ProceedsTo a :=
  ⟨⟨_, _, _, _, rfl⟩, [], (List.append_nil _).symm, .stay _⟩

theorem ProceedsTo.trans (h : a.ProceedsTo b) (h' : b.ProceedsTo c) : a.ProceedsTo c := by
  obtain ⟨⟨registry, phase, checker, log, hb⟩, phases, hlog, hascent⟩ := h
  obtain ⟨⟨registry', phase', checker', log', hc⟩, phases', hlog', hascent'⟩ := h'
  refine ⟨⟨registry', phase', checker', log', by rw [hc, hb]⟩, phases ++ phases', ?_,
    hascent.append hascent'⟩
  rw [hlog', hlog, List.append_assoc]

/-- What an audit goes through on its way is no matter of its tracers. -/
theorem ProceedsTo.tracing (h : a.ProceedsTo b) : b.tracer = a.tracer ∧
    b.realCalls = a.realCalls ∧ b.machine.tracers = a.machine.tracers := by
  obtain ⟨registry, phase, checker, log, rfl⟩ := h.audit
  exact ⟨rfl, rfl, rfl⟩

theorem ProceedsTo.keepsOrder (h : a.ProceedsTo b) : a.machine.KeepsOrder b.machine := by
  obtain ⟨registry, phase, checker, log, rfl⟩ := h.audit
  exact Machine.keepsOrder_of_eq rfl rfl rfl rfl rfl rfl

private theorem proceedsTo_write (a : Audit) {lines : List LogLine} (h : announced lines = []) :
    a.ProceedsTo (a.write lines) :=
  ⟨⟨_, _, _, _, rfl⟩, [], by rw [write, Machine.write, announced_append, h], .stay _⟩

private theorem proceedsTo_useChecker_write (a : Audit) (checker : Checker) {lines : List LogLine}
    (h : announced lines = []) : a.ProceedsTo ((a.useChecker checker).write lines) :=
  ⟨⟨_, _, _, _, rfl⟩, [], (announced_append _ _).trans (by rw [h]; rfl), .stay _⟩

private theorem proceedsTo_registry_write (a : Audit) (registry : Registry) {lines : List LogLine}
    (h : announced lines = []) : a.ProceedsTo ({ a with registry }.write lines) :=
  ⟨⟨_, _, _, _, rfl⟩, [], (announced_append _ _).trans (by rw [h]), .stay _⟩

/-- A phase that may be entered is entered, which is announced. -/
theorem enter_eq {next : Phase} (h : a.phase.mayEnter next = true) :
    a.enter next =
      .ok ({ a with phase := next }.write [.debug ("Entering phase " ++ next.name)]) :=
  if_pos h

private theorem announced_entering (next : Phase) :
    announced [.debug ("Entering phase " ++ next.name)] = [next] := by
  rw [announced, List.filterMap_cons_some (LogLine.phase?_entering next), List.filterMap_nil]

private theorem proceedsTo_enter {next : Phase} (h : a.phase.mayEnter next = true) :
    a.ProceedsTo ({ a with phase := next }.write [.debug ("Entering phase " ++ next.name)]) := by
  refine ⟨⟨_, _, _, _, rfl⟩, [next], ?_, .single h⟩
  rw [write, Machine.write, announced_append, announced_entering]

/-- A step of a conclusion: it is never refused for the phase, and if it succeeds, it has arrived at
a phase of some kind. -/
structure Step.Arrives {α : Type} (s : Step α) (a : Audit) (kind : Phase → Prop) : Prop where
  proceedsTo : a.ProceedsTo s.1
  phase : ∀ result, s.2 = .ok result → kind s.1.phase
  error : ∀ now next, s.2 ≠ .error (.phase now next)

theorem Step.Arrives.of_ok {α : Type} {kind : Phase → Prop} (h : a.ProceedsTo b)
    (hkind : kind b.phase) (result : α) : Step.Arrives (b, .ok result) a kind :=
  ⟨h, fun _ _ => hkind, fun _ _ heq => by cases heq⟩

theorem Step.Arrives.of_error {α : Type} {kind : Phase → Prop} {e : Error} (h : a.ProceedsTo b)
    (he : ∀ now next, e ≠ .phase now next) :
    Step.Arrives ((b, .error e) : Step α) a kind :=
  ⟨h, fun _ heq => (by cases heq), fun now next heq => he now next (Except.error.inj heq)⟩

/-- What arrives may be followed by what arrives. -/
theorem Step.Arrives.andThen {α β : Type} {s : Step α} {next : Audit → α → Step β}
    {kind kind' : Phase → Prop} (h : s.Arrives a kind)
    (hnext : ∀ b result, kind b.phase → (next b result).Arrives b kind') :
    (s.andThen next).Arrives a kind' := by
  obtain ⟨b, e | result⟩ := s
  · exact .of_error h.proceedsTo fun now phase heq => h.error now phase (congrArg _ heq)
  · have hthen := hnext b result (h.phase result rfl)
    exact ⟨h.proceedsTo.trans hthen.proceedsTo, hthen.phase, hthen.error⟩

/-- The type pass is on its way if it may begin. -/
theorem arrives_typePass (h : a.phase.mayEnter .typeChecking = true) :
    a.typePass.Arrives a (· = .typeChecking) := by
  have hentered := proceedsTo_enter h
  rw [typePass, enter_eq h]
  dsimp only
  split
  · exact .of_error hentered (by simp)
  · split
    · exact .of_error hentered (by simp)
    · rename_i pass hrun
      refine .of_ok (hentered.trans ?_) (by rfl) pass.value.2
      exact proceedsTo_useChecker_write _ _ (TypePass.announced_run hrun)

/-- So is the contract pass. -/
theorem arrives_contractPass (h : a.phase.mayEnter .contractVerifying = true) :
    a.contractPass.Arrives a (· = .contractVerifying) := by
  rw [contractPass, enter_eq h]
  dsimp only
  refine .of_ok ((proceedsTo_enter h).trans ?_) (by rfl) _
  exact proceedsTo_registry_write _ _ (ContractPass.announced_run _ _ _)

/-- A pass that is not asked for stays at the phase. -/
theorem arrives_passIf {enabled : Bool} {pass : Audit → Step (List Call)} {kind : Phase → Prop}
    (hstay : kind a.phase) (hpass : (pass a).Arrives a kind) :
    (a.passIf enabled pass).Arrives a kind := by
  rw [passIf]
  split
  · exact hpass
  · exact .of_ok (.refl a) hstay _

theorem Step.Arrives.of_imp {α : Type} {s : Step α} {kind kind' : Phase → Prop}
    (h : s.Arrives a kind) (himp : ∀ p, kind p → kind' p) : s.Arrives a kind' :=
  ⟨h.proceedsTo, fun result hresult => himp _ (h.phase result hresult), h.error⟩

theorem Step.Arrives.of_proceedsTo {α : Type} {s : Step α} {kind : Phase → Prop}
    (h : s.Arrives b kind) (hb : a.ProceedsTo b) : s.Arrives a kind :=
  ⟨hb.trans h.proceedsTo, h.phase, h.error⟩

/-- Entering a phase that may be entered is a step of its own. -/
theorem arrives_enter {α : Type} {next : Phase} (h : a.phase.mayEnter next = true) (result : α) :
    Step.Arrives (match a.enter next with
      | .error e => (a, .error e)
      | .ok a => (a, .ok result)) a (· = next) := by
  rw [enter_eq h]
  dsimp only
  exact .of_ok (proceedsTo_enter h) (by rfl) result

/-- The passes and the last phase, one after the other. -/
theorem arrives_passes (h : a.phase = .draining) :
    Step.Arrives ((a.passIf a.configuration.autoTypeCheck typePass).andThen fun a mismatched =>
      (a.passIf a.configuration.verifyMockContracts contractPass).andThen fun a unbacked =>
      match a.enter .reported with
      | .error e => (a, .error e)
      | .ok a => (a, .ok (mismatched ++ unbacked))) a (· = .reported) := by
  have htypes : (a.passIf a.configuration.autoTypeCheck typePass).Arrives a
      (·.mayEnter .contractVerifying = true) := by
    refine arrives_passIf (by rw [h]; rfl) ((arrives_typePass (by rw [h]; rfl)).of_imp ?_)
    rintro p rfl
    rfl
  refine htypes.andThen fun b mismatched hb => ?_
  have hcontracts : (b.passIf b.configuration.verifyMockContracts contractPass).Arrives b
      (·.mayEnter .reported = true) := by
    refine arrives_passIf (Phase.mayEnter_trans hb rfl) ((arrives_contractPass hb).of_imp ?_)
    rintro p rfl
    rfl
  exact hcontracts.andThen fun c unbacked hc => arrives_enter hc _

/-! ### Draining -/

/-- An audit without a tracer is left as it is when it is drained. Else the tracer is stopped, and
its calls are the real ones. -/
theorem drain_cases (h : a.drain = .ok b) :
    a.tracer = none ∧ b = a ∨
    ∃ k m calls, a.tracer = some k ∧ a.machine.stopTracer k = .ok (m, calls) ∧
      b = { a with machine := m, realCalls := calls } := by
  rw [drain] at h
  split at h
  · rename_i htracer
    exact .inl ⟨htracer, (Except.ok.inj h).symm⟩
  · rename_i k htracer
    obtain ⟨⟨m, calls⟩, hstop, hdrained⟩ := exists_of_bind_eq_ok h
    exact .inr ⟨k, m, calls, htracer, hstop, (Except.ok.inj hdrained).symm⟩

theorem phase_of_drain (h : a.drain = .ok b) : b.phase = a.phase := by
  rcases drain_cases h with ⟨-, rfl⟩ | ⟨k, m, calls, -, -, rfl⟩ <;> rfl

/-- The lines that list the collected calls announce nothing. -/
theorem announced_callLines (mocked real : List Call) :
    announced [.debug ("Stored mocked calls:\n" ++ callLines mocked),
      .debug ("Traced real calls:\n" ++ callLines real)] = [] := by
  refine announced_eq_nil_iff.mpr (List.forall_mem_cons.mpr ⟨?_, List.forall_mem_singleton.mpr ?_⟩)
  · exact LogLine.phase?_debug (.append ⟨'S', rfl, by decide⟩ _)
  · exact LogLine.phase?_debug (.append ⟨'T', rfl, by decide⟩ _)

/-- An audit that has entered the phase of draining. -/
def draining (a : Audit) : Audit :=
  { a with phase := .draining }.write [.debug ("Entering phase " ++ Phase.draining.name)]

/-- A conclusion that may not begin is refused and changes nothing. -/
theorem conclude_of_not_mayEnter (h : a.phase.mayEnter .draining = false)
    (debugRequest : Option String) :
    a.conclude debugRequest = (a, .error (.phase a.phase .draining)) := by
  rw [conclude, enter, if_neg (by simp [h])]

/-- A conclusion that may begin either cannot stop the tracer, or comes to the passes. -/
theorem conclude_of_mayEnter (h : a.phase.mayEnter .draining = true)
    (debugRequest : Option String) :
    (∃ fault, a.draining.drain = .error fault ∧
      a.conclude debugRequest = (a.draining, .error (.callFault fault))) ∨
    ∃ drained, a.draining.drain = .ok drained ∧
      (a.conclude debugRequest).Arrives drained (· = .reported) := by
  have hentered : a.enter .draining = .ok a.draining := enter_eq h
  rw [conclude, hentered]
  dsimp only
  cases hdrain : a.draining.drain with
  | error fault => exact .inl ⟨fault, rfl, rfl⟩
  | ok drained =>
    refine .inr ⟨drained, rfl, ?_⟩
    dsimp only
    have hphase : drained.phase = .draining := phase_of_drain hdrain
    -- Whether debug output is asked for makes a difference to the log only.
    split_ifs
    · exact (arrives_passes (a := drained.write _) hphase).of_proceedsTo
        (drained.proceedsTo_write (announced_callLines drained.mockedCalls drained.realCalls))
    · exact arrives_passes hphase

/-- How a conclusion may go. It is refused if there has been one. Else the tracer cannot be stopped,
or it is stopped, and the passes begin; if they succeed, the audit has arrived at its last phase. -/
inductive Concluded (a : Audit) : Step (List Call) → Prop
  | refused (hphase : a.phase.mayEnter .draining = false) :
    Concluded a (a, .error (.phase a.phase .draining))
  | faulty (fault : Fault) (hmay : a.phase.mayEnter .draining = true)
      (hdrain : a.draining.drain = .error fault) :
    Concluded a (a.draining, .error (.callFault fault))
  | drained (s : Step (List Call)) (b : Audit) (hmay : a.phase.mayEnter .draining = true)
      (hdrain : a.draining.drain = .ok b) (harrives : s.Arrives b (· = .reported)) :
    Concluded a s

/-- **The cases of a conclusion.** -/
theorem conclude_cases (a : Audit) (debugRequest : Option String) :
    a.Concluded (a.conclude debugRequest) := by
  cases hmay : a.phase.mayEnter .draining with
  | false =>
    rw [conclude_of_not_mayEnter hmay]
    exact .refused hmay
  | true =>
    rcases conclude_of_mayEnter hmay debugRequest with
      ⟨fault, hdrain, hconclude⟩ | ⟨b, hdrain, harrives⟩
    · rw [hconclude]
      exact .faulty fault hmay hdrain
    · exact .drained _ b hmay hdrain harrives

/-- After a conclusion, however it went, none may begin. -/
theorem Concluded.mayEnter_draining {s : Step (List Call)} (h : a.Concluded s) :
    s.1.phase.mayEnter .draining = false := by
  cases h with
  | refused hphase => exact hphase
  | faulty => rfl
  | drained _ b hmay hdrain harrives =>
    obtain ⟨phases, -, hascent⟩ := harrives.proceedsTo.phases
    rw [phase_of_drain hdrain] at hascent
    exact hascent.mayEnter_eq_false rfl

/-- On an orderly machine every audit can be drained. -/
theorem exists_drain_of_isOrderly (h : a.machine.IsOrderly) :
    ∃ b, a.drain = .ok b ∧ b.machine.IsOrderly := by
  rw [drain]
  cases a.tracer with
  | none => exact ⟨a, rfl, h⟩
  | some k =>
    obtain ⟨m, calls, hstop⟩ : ∃ m calls, a.machine.stopTracer k = .ok (m, calls) := by
      cases ht : a.machine.tracers[k]? with
      | none => exact ⟨a.machine, [], by rw [Machine.stopTracer, ht]⟩
      | some t =>
        obtain ⟨m, t', calls, stats, hstop, -⟩ := h.exists_stopTracer ht
        exact ⟨m, calls, hstop⟩
    simp only [hstop]
    exact ⟨_, rfl, h.stopTracer hstop⟩

/-- So there a conclusion that is not refused comes to the passes. -/
theorem conclude_of_isOrderly (h : a.machine.IsOrderly) (debugRequest : Option String) :
    a.conclude debugRequest = (a, .error (.phase a.phase .draining)) ∨
    ∃ b, a.phase.mayEnter .draining = true ∧ a.draining.drain = .ok b ∧ b.machine.IsOrderly ∧
      (a.conclude debugRequest).Arrives b (· = .reported) := by
  have hdraining : a.draining.machine.IsOrderly := ⟨h.subscribers, h.records⟩
  obtain ⟨drained, hdrained, horderly⟩ := exists_drain_of_isOrderly hdraining
  have hcases := a.conclude_cases debugRequest
  generalize a.conclude debugRequest = s at hcases ⊢
  cases hcases with
  | refused => exact .inl rfl
  | faulty fault hmay hdrain => cases hdrained.symm.trans hdrain
  | drained _ b hmay hdrain harrives =>
    obtain rfl := Except.ok.inj (hdrained.symm.trans hdrain)
    exact .inr ⟨drained, hmay, hdrain, horderly, harrives⟩

end Audit

end MockAudit
