import MockAudit.Audit
import MockAudit.Proofs.Retention

/-!
# Audits that were reset

An audit that is reset should be as good as a new one. Whatever happened to it, resetting brings
back all of its parts but one: the checker stays, and with it the signatures that were inferred
from the real calls of earlier runs. So an audit that never checks calls is a new audit once it is
reset, and any other is new or has been handed an old checker (`Audit.reset_undergoAll`). Without
type passes the old checker is one that was built from signature files. With type passes it
remembers real calls, and this makes a difference (`reset_remembers_reading`).

## Main definitions

* `Act`, `Audit.undergo`: what can happen to an audit.
* `Configuration.MayUse`: the checkers that an audit with some settings may have.
* `Audit.StemsFrom`: an audit that some settings and acts can lead to.

## Main results

* `Audit.StemsFrom.prepare`, `Audit.StemsFrom.conclude`: runs lead to audits of the same kind.
* `Audit.StemsFrom.undergo`: so does every act.
* `Audit.reset_undergoAll`: an audit that was reset is new but for its checker.
-/

namespace MockAudit

/-- What can happen to an audit. -/
inductive Act
  /-- The configured stubs change. -/
  | configure (registry : Registry)
  | prepare (files : Files)
  /-- A mocked call is reported. -/
  | report (c : Call)
  /-- The configured stubs are installed and report their calls to the audit. -/
  | attachStubs
  | detachStubs (number : Nat)
  /-- A program runs. -/
  | execute (change : Nat → List TestContext → List TestContext) (depth : Nat)
      (program : Procedure)
  | conclude (debugRequest : Option String)
  | reset

namespace Audit

/-- The audit after an act. -/
def undergo (a : Audit) : Act → Audit
  | .configure registry => { a with registry }
  | .prepare files => (a.prepare files).1
  | .report c => (a.report c).1
  | .attachStubs => { a with machine := (a.machine.attachStubs a.registry a.sink).1 }
  | .detachStubs number => { a with machine := a.machine.detachStubs number }
  | .execute change depth program =>
    { a with machine := (a.machine.execute (.ofContexts change) depth program).1 }
  | .conclude debugRequest => (a.conclude debugRequest).1
  | .reset =>
    match a.reset with
    | .ok b => b
    | .error _ => a

/-- The audit after several acts. -/
def undergoAll (a : Audit) (acts : List Act) : Audit :=
  acts.foldl undergo a

/-- The program of an audit as it is without the audit. -/
def program (a : Audit) : Machine :=
  { a.machine with stores := a.machine.stores.dropLast, checker := none }

/-! ### Steps that keep the checker -/

/-- An audit that has kept the settings, the checker and the place for mocked calls of another. -/
structure Retains (a b : Audit) : Prop where
  configuration : b.configuration = a.configuration
  store : b.store = a.store
  machine : a.machine.Retains b.machine

variable {a b : Audit}

theorem Retains.refl (a : Audit) : a.Retains a :=
  ⟨rfl, rfl, .refl _⟩

private theorem retains_write (a : Audit) (lines : List LogLine) : a.Retains (a.write lines) :=
  ⟨rfl, rfl, rfl, rfl⟩

private theorem retains_enter {next : Phase} (h : a.enter next = .ok b) : a.Retains b := by
  rw [enter] at h
  split at h
  · obtain rfl := Except.ok.inj h
    exact ⟨rfl, rfl, rfl, rfl⟩
  · cases h

private theorem retains_startTracing (a : Audit) : a.Retains a.startTracing.1 := by
  rw [startTracing]
  dsimp only
  split
  · exact a.retains_write _
  · split
    · rename_i hstart
      have hstarted := Machine.retains_startTracer hstart
      exact ⟨rfl, rfl, hstarted.checker, hstarted.stores⟩
    · rename_i hstart
      have hstarted := Machine.retains_startTracer hstart
      exact ⟨rfl, rfl, hstarted.checker, hstarted.stores⟩

private theorem retains_drain (h : a.drain = .ok b) : a.Retains b := by
  rw [drain] at h
  split at h
  · obtain rfl := Except.ok.inj h
    exact .refl a
  · rename_i tracer _
    obtain ⟨stopped, hstop, hdrained⟩ := exists_of_bind_eq_ok h
    obtain rfl := Except.ok.inj hdrained
    exact ⟨rfl, rfl, Machine.retains_stopTracer hstop⟩

private theorem retains_contractPass (a : Audit) : a.Retains a.contractPass.1 := by
  rw [contractPass]
  split
  · exact .refl a
  · rename_i hentered
    have hretains := retains_enter hentered
    exact ⟨hretains.configuration, hretains.store, hretains.machine.checker,
      hretains.machine.stores⟩

end Audit

/-! ### Where a checker comes from -/

/-- A checker that an audit with some settings may have when it was prepared with some files: none
if no calls are checked, and without type passes one that was built from the files. -/
def Configuration.MayUse (cfg : Configuration) (prepared : Files → Prop) (checker : Checker) :
    Prop :=
  ∃ kind, cfg.typeCheck = some kind ∧ (cfg.autoTypeCheck = false →
    ∃ files env, prepared files ∧
      (Checker.build files kind env cfg.signatureDirs).value = .ok checker)

/-- An audit that has the given settings, the last place for mocked calls, and no checker but one
it may use. -/
structure Audit.StemsFrom (cfg : Configuration) (prepared : Files → Prop) (a : Audit) : Prop where
  configuration : a.configuration = cfg.normalize
  stores : a.machine.stores.length = a.store + 1
  checker : ∀ checker ∈ a.machine.checker, cfg.MayUse prepared checker

namespace Audit

variable {a b : Audit} {cfg : Configuration} {prepared : Files → Prop}

theorem stemsFrom_start {m : Machine} (hchecker : m.checker = none) (prepared : Files → Prop) :
    (start cfg m).StemsFrom cfg prepared := by
  refine ⟨rfl, List.length_append, fun checker hmem => ?_⟩
  rw [start, Machine.newStore, hchecker] at hmem
  cases hmem

private theorem Retains.stemsFrom (h : a.Retains b) (ha : a.StemsFrom cfg prepared) :
    b.StemsFrom cfg prepared where
  configuration := h.configuration.trans ha.configuration
  stores := by rw [h.machine.stores, ha.stores, h.store]
  checker := by
    rw [h.machine.checker]
    exact ha.checker

namespace StemsFrom

/-- The checker that is built at the preparation may be used. -/
theorem ensureChecker (h : a.StemsFrom cfg prepared) {files : Files} (hfiles : prepared files) :
    (a.ensureChecker files).1.StemsFrom cfg prepared := by
  rw [Audit.ensureChecker]
  split
  · rename_i kind hkind _
    dsimp only
    split
    · exact (a.retains_write _).stemsFrom h
    · rename_i checker hbuilt
      refine ⟨h.configuration, h.stores, fun checker' hmem => ?_⟩
      obtain rfl : checker = checker' := Option.some.inj hmem
      rw [h.configuration] at hkind hbuilt
      exact ⟨kind, hkind, fun _ => ⟨files, _, hfiles, hbuilt⟩⟩
  · exact h

/-- Preparations lead to audits of the same kind. -/
theorem prepare (h : a.StemsFrom cfg prepared) {files : Files} (hfiles : prepared files) :
    (a.prepare files).1.StemsFrom cfg prepared := by
  rw [Audit.prepare]
  split
  · exact h
  · rename_i entered hentered
    have hstems := (retains_enter hentered).stemsFrom h
    have hattached : StemsFrom cfg prepared { entered with attached := true } :=
      ⟨hstems.configuration, hstems.stores, hstems.checker⟩
    have hensured := hattached.ensureChecker hfiles
    split
    · rename_i hresult
      rwa [hresult] at hensured
    · rename_i ensured hresult
      rw [hresult] at hensured
      have hwritten (lines : List LogLine) : (ensured.write lines).StemsFrom cfg prepared :=
        (ensured.retains_write lines).stemsFrom hensured
      dsimp only
      split_ifs
      · exact (retains_startTracing _).stemsFrom (hwritten _)
      · exact hwritten _
      · exact (retains_startTracing _).stemsFrom hensured
      · exact hensured

/-- The checker that learned from real calls may be used, as type passes are asked for. -/
theorem typePass (h : a.StemsFrom cfg prepared) (hauto : cfg.autoTypeCheck = true) :
    a.typePass.1.StemsFrom cfg prepared := by
  rw [Audit.typePass]
  split
  · exact h
  · rename_i entered hentered
    have hstems := (retains_enter hentered).stemsFrom h
    split
    · exact hstems
    · rename_i checker hchecker
      obtain ⟨kind, hkind, -⟩ := hstems.checker checker hchecker
      split
      · exact hstems
      · refine ⟨hstems.configuration, hstems.stores, fun _ _ => ⟨kind, hkind, fun hnone => ?_⟩⟩
        rw [hauto] at hnone
        cases hnone

/-- What goes on with an audit of the kind leads to one. -/
theorem andThen {α β : Type} {s : Step α} (h : s.1.StemsFrom cfg prepared)
    {next : Audit → α → Step β}
    (hnext : ∀ b result, b.StemsFrom cfg prepared → (next b result).1.StemsFrom cfg prepared) :
    (s.andThen next).1.StemsFrom cfg prepared := by
  obtain ⟨b, error | result⟩ := s
  · exact h
  · exact hnext b result h

/-- Conclusions lead to audits of the same kind. -/
theorem conclude (h : a.StemsFrom cfg prepared) (debugRequest : Option String) :
    (a.conclude debugRequest).1.StemsFrom cfg prepared := by
  have htypes (b : Audit) (hb : b.StemsFrom cfg prepared) :
      (b.passIf b.configuration.autoTypeCheck Audit.typePass).1.StemsFrom cfg prepared := by
    rw [passIf]
    split
    · rename_i hauto
      rw [hb.configuration] at hauto
      exact hb.typePass hauto
    · exact hb
  have hcontracts (b : Audit) (hb : b.StemsFrom cfg prepared) :
      (b.passIf b.configuration.verifyMockContracts contractPass).1.StemsFrom cfg prepared := by
    rw [passIf]
    split
    · exact (retains_contractPass b).stemsFrom hb
    · exact hb
  rw [Audit.conclude]
  split
  · exact h
  · rename_i entered hentered
    have hstems := (retains_enter hentered).stemsFrom h
    split
    · exact hstems
    · rename_i drained hdrained
      have hkept := (retains_drain hdrained).stemsFrom hstems
      dsimp only
      refine andThen (htypes _ ?_) fun b mismatched hb =>
        andThen (hcontracts b hb) fun b unbacked hb => ?_
      · split
        · exact (retains_write _ _).stemsFrom hkept
        · exact hkept
      · split
        · exact hb
        · rename_i hreported
          exact (retains_enter hreported).stemsFrom hb

/-- Resetting brings everything back but the checker. -/
theorem reset (h : a.StemsFrom cfg prepared) (hreset : a.reset = .ok b) :
    b.StemsFrom cfg prepared ∧
      b = { start cfg b.program with
        machine := { (start cfg b.program).machine with checker := b.machine.checker } } := by
  obtain ⟨drained, hdrain, hcleared⟩ := exists_of_bind_eq_ok hreset
  obtain rfl := Except.ok.inj hcleared
  have hkept := (retains_drain hdrain).stemsFrom h
  obtain ⟨front, last, hstores⟩ : ∃ front last, drained.machine.stores = front ++ [last] := by
    rcases List.eq_nil_or_concat drained.machine.stores with hnil | hconcat
    · have hlength := hkept.stores
      rw [hnil] at hlength
      cases hlength
    · simpa using hconcat
  have hfront : front.length = drained.store := by
    have hlength := hkept.stores
    rw [hstores, List.length_append] at hlength
    exact Nat.add_right_cancel hlength
  have hemptied : drained.machine.stores.set drained.store [] = front ++ [[]] := by
    rw [hstores, ← hfront, List.set_append_right _ _ (Nat.le_refl _), Nat.sub_self,
      List.set_cons_zero]
  refine ⟨⟨hkept.configuration, ?_, hkept.checker⟩, ?_⟩
  · exact List.length_set.trans hkept.stores
  · simp only [start, program, Machine.newStore, hemptied, List.dropLast_concat, hfront,
      hkept.configuration]

/-- **Every act** leads to an audit of the same kind. -/
theorem undergo (h : a.StemsFrom cfg prepared) (act : Act)
    (hfiles : ∀ files, act = .prepare files → prepared files) :
    (a.undergo act).StemsFrom cfg prepared := by
  have hmachine {m : Machine} (hm : a.machine.Retains m) :
      StemsFrom cfg prepared { a with machine := m } := by
    have hretains : a.Retains { a with machine := m } := ⟨rfl, rfl, hm⟩
    exact hretains.stemsFrom h
  cases act with
  | configure registry => exact ⟨h.configuration, h.stores, h.checker⟩
  | prepare files => exact h.prepare (hfiles files rfl)
  | report c => exact hmachine (a.machine.retains_deliver _ c)
  | attachStubs => exact hmachine (a.machine.retains_attachStubs _ _)
  | detachStubs number => exact hmachine (a.machine.retains_detachStubs number)
  | execute change depth program => exact hmachine (a.machine.retains_execute change depth program)
  | conclude debugRequest => exact h.conclude debugRequest
  | reset =>
    rw [Audit.undergo]
    split
    · rename_i hreset
      exact (h.reset hreset).1
    · exact h

/-- Several acts lead to an audit of the same kind. -/
theorem undergoAll (h : a.StemsFrom cfg prepared) (acts : List Act)
    (hfiles : ∀ files, .prepare files ∈ acts → prepared files) :
    (a.undergoAll acts).StemsFrom cfg prepared := by
  induction acts generalizing a with
  | nil => exact h
  | cons act acts ih =>
    have hact := h.undergo act fun files heq => hfiles files (heq ▸ List.mem_cons_self)
    exact ih hact fun files hmem => hfiles files (List.mem_cons_of_mem act hmem)

end StemsFrom

/-- **A reset audit is a new audit but for its checker.** Let anything happen to an audit that was
started without a checker, and let it be reset then. The result is the audit that would be started
on the program as it is now, or that audit with a checker handed to it. The latter happens only if
calls are checked at all; and if there are no type passes, the checker is one that was built from
files with which the audit had been prepared. -/
theorem reset_undergoAll {cfg : Configuration} {m : Machine} (hchecker : m.checker = none)
    (acts : List Act) {b : Audit} (hreset : ((start cfg m).undergoAll acts).reset = .ok b) :
    b = start cfg b.program ∨
    ∃ kind checker, b = (start cfg b.program).useChecker checker ∧ cfg.typeCheck = some kind ∧
      (cfg.autoTypeCheck = false → ∃ files env, .prepare files ∈ acts ∧
        (Checker.build files kind env cfg.signatureDirs).value = .ok checker) := by
  have hstart : (start cfg m).StemsFrom cfg fun files => .prepare files ∈ acts :=
    stemsFrom_start hchecker _
  have hend := hstart.undergoAll acts fun _ hmem => hmem
  obtain ⟨hstems, hfresh⟩ := hend.reset hreset
  cases hkept : b.machine.checker with
  | none =>
    rw [hkept] at hfresh
    exact .inl hfresh
  | some checker =>
    rw [hkept] at hfresh
    obtain ⟨kind, hkind, hbuilt⟩ := hstems.checker checker hkept
    exact .inr ⟨kind, checker, hfresh, hkind, hbuilt⟩

end Audit

/-! ### A meter -/

/-- A program with one method, which takes a unit and gives a number. -/
def meter : Machine :=
  ({} : Machine).addMethod (.typeItself "Meter", "read") ⟨[⟨.required, "unit"⟩]⟩ "meter.rs:1"
    fun _ _ => .give (.int 7)

/-- Settings that check mocked calls against what real calls reveal. -/
def meterSettings : Configuration :=
  { typeCheck := some .annotations, autoTypeCheck := true }

/-- A file system without files. -/
def noFiles : Files :=
  ⟨fun _ => .absent .notFound, fun _ => none⟩

/-- A run in which the meter is stubbed and really read with a number for the unit. -/
def meterRun : List Act :=
  [.configure (Registry.empty.register
      (Registry.stub (.typeItself "Meter") "read" [] none none none (.int 1))),
    .prepare noFiles,
    .execute (fun _ contexts => contexts) 1 (.send (.type "Meter") "read" [.int 5] .finish),
    .conclude none]

/-- A later run in which a mocked reading is reported that has a text for the unit. -/
def laterRun : List Act :=
  [.prepare noFiles,
    .report { target := .typeItself "Meter", method := "read", arguments := [.str "litre"],
              result := some (.int 1) }]

/-- After the run the audit can be reset, and then it is new but for its checker. -/
theorem reset_undergoAll_of_meter :
    ∃ b, ((Audit.start meterSettings meter).undergoAll meterRun).reset = .ok b ∧
      (b = Audit.start meterSettings b.program ∨
      ∃ kind checker, b = (Audit.start meterSettings b.program).useChecker checker ∧
        meterSettings.typeCheck = some kind ∧
        (meterSettings.autoTypeCheck = false → ∃ files env, .prepare files ∈ meterRun ∧
          (Checker.build files kind env meterSettings.signatureDirs).value = .ok checker)) := by
  have hok : ((Audit.start meterSettings meter).undergoAll meterRun).reset.isOk = true := by
    decide +kernel
  cases hreset : ((Audit.start meterSettings meter).undergoAll meterRun).reset with
  | error fault =>
    rw [hreset] at hok
    cases hok
  | ok b => exact ⟨b, rfl, Audit.reset_undergoAll rfl meterRun hreset⟩

/-- The checker that stays makes a difference: it takes numbers for units from the real reading, so
in the later run the reset audit refuses the mocked reading, while a new audit of the same program
keeps it. -/
theorem reset_remembers_reading :
    ((Audit.start meterSettings meter).undergoAll meterRun).reset.toOption.map (fun b =>
        ((b.undergoAll laterRun).mockedCalls.length,
          ((Audit.start meterSettings b.program).undergoAll laterRun).mockedCalls.length)) =
      some (0, 1) := by
  decide +kernel

end MockAudit
