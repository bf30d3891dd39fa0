import MockAudit.Proofs.Agreement
import MockAudit.Proofs.Building
import MockAudit.Proofs.Displacement
import MockAudit.Proofs.Frames
import MockAudit.Proofs.NamedFlags
import MockAudit.Proofs.Session

/-!
# Nested interception

Tracers that run and sets of stubs that are attached lie over each other like layers: each of them
is put over a machine and removed again after all layers that were put on top of it. Between these
operations any programs run, whether their messages return or raise.

Whatever the order and the depth, removing a layer succeeds and leaves the table of implementations,
the handler of messages to doubles and the subscribers exactly as they were just before the layer
was put on (`Machine.Nests.remove_restores`). What carries the induction is that nothing that
happens between putting a layer on and removing it disturbs the layers below
(`Machine.Undisturbed`): a layer that was itself removed in between has restored what it found.

A tracer can be stopped only if its records can be filtered, and a subscription can be ended without
ending another one only if no number of an observer is given twice. Machines with these two
properties are *orderly*; every machine that was built is, and all operations keep it so.

## Main definitions

* `Machine.IsOrderly`: the invariant.
* `Machine.Undisturbed`: machines on which interception is as it was and can still be undone.
* `Layer`: tracers and sets of stubs, with what puts them on and what removes them.
* `Machine.Nests`: properly nested sequences of such operations, with programs between them.

## Main results

* `Machine.undisturbed_execute`: programs disturb nothing.
* `Layer.PutsOn.exists_remove`: removing a layer undoes what putting it on has done.
* `Machine.Nests.remove_restores`: the same in nested sequences.
-/

namespace MockAudit

/-! ### Records that can be filtered -/

namespace Capture

private theorem isWellFlagged_recordOf (target : Target) (method : String) (binding : List Binding)
    (location : String) (testCase : Option String) :
    (recordOf target method binding location testCase).IsWellFlagged :=
  Call.isWellFlagged_iff.mpr
    ⟨_, (Call.arguments_recordOf target method binding location testCase).1⟩

/-- The end of a call changes neither the flag nor the arguments of its record. -/
theorem forall_isWellFlagged_modify {records : List Call} (h : ∀ c ∈ records, c.IsWellFlagged)
    (index : Nat) (o : Outcome) : ∀ c ∈ records.modify index (ended · o), c.IsWellFlagged := by
  intro c hc
  obtain ⟨k, hk⟩ := List.mem_iff_getElem?.mp hc
  rw [List.getElem?_modify] at hk
  obtain ⟨c', hc', rfl⟩ := Option.map_eq_some_iff.mp hk
  have hwell := h c' (List.mem_of_getElem? hc')
  split_ifs
  · rw [ended_eq]
    exact hwell
  · exact hwell

/-- Following events makes well-flagged records. -/
theorem forall_isWellFlagged_observe {c : Capture} (h : ∀ r ∈ c.records, r.IsWellFlagged)
    (watched : WatchList) (testCase : Option String) (e : Event) :
    ∀ r ∈ (c.observe watched testCase e).records, r.IsWellFlagged := by
  rcases c.observe_records watched testCase e with heq | ⟨-, index, o, heq⟩
  · rw [heq]
    refine List.forall_mem_append.mpr ⟨h, fun r hr => ?_⟩
    cases e with
    | called owner method receiver binding location =>
      obtain ⟨target, -, rfl⟩ := Option.map_eq_some_iff.mp (Option.mem_toList.mp hr)
      exact isWellFlagged_recordOf target method binding location testCase
    | returned | unwound => cases hr
  · rw [heq]
    exact forall_isWellFlagged_modify h index o

end Capture

namespace Machine

/-! ### Orderly machines -/

/-- A machine whose subscriptions are to observers it knows and whose records can be filtered. -/
structure IsOrderly (m : Machine) : Prop where
  subscribers : ∀ observer ∈ m.subscribers, observer < m.observers.length
  records : ∀ (k : Nat) (t : Tracer), m.tracers[k]? = some t →
    ∀ c ∈ t.capture.records, c.IsWellFlagged

/-- Nothing is attached to a machine that was built. -/
theorem Built.isOrderly {m : Machine} (h : m.Built) : m.IsOrderly := by
  obtain ⟨hsubscribers, -, htracers, -⟩ := h.unattached
  exact ⟨by simp [hsubscribers], by simp [htracers]⟩

/-! ### Undisturbed machines -/

/-- Messages are intercepted as before, and what intercepts them can still be removed: all tracers
that ran are still running, and all stubs that were attached still are. -/
structure Undisturbed (m n : Machine) : Prop extends m.InterceptsAs n where
  running : ∀ (k : Nat) (t : Tracer) i, m.tracers[k]? = some t → t.state = .running i →
    ∃ t' : Tracer, n.tracers[k]? = some t' ∧ t'.state = .running i
  attached : ∀ (k : Nat) set, m.stubSets[k]? = some (some set) → n.stubSets[k]? = some (some set)

variable {l m n : Machine}

theorem Undisturbed.refl (m : Machine) : m.Undisturbed m where
  methods := rfl
  doubleHandler := rfl
  subscribers := rfl
  running _ t _ ht hi := ⟨t, ht, hi⟩
  attached _ _ h := h

theorem Undisturbed.trans (h : l.Undisturbed m) (h' : m.Undisturbed n) : l.Undisturbed n where
  toInterceptsAs := h.toInterceptsAs.trans h'.toInterceptsAs
  running k t i ht hi := by
    obtain ⟨t', ht', hi'⟩ := h.running k t i ht hi
    exact h'.running k t' i ht' hi'
  attached k set hset := h'.attached k set (h.attached k set hset)

/-- From an orderly machine it is a way to an orderly machine, and it disturbs nothing. -/
def KeepsOrder (m n : Machine) : Prop :=
  m.IsOrderly → n.IsOrderly ∧ m.Undisturbed n

theorem KeepsOrder.trans (h : l.KeepsOrder m) (h' : m.KeepsOrder n) : l.KeepsOrder n := fun hl =>
  ⟨(h' (h hl).1).1, (h hl).2.trans (h' (h hl).1).2⟩

/-- Changes apart from interception keep order. -/
theorem keepsOrder_of_eq (hmethods : n.methods = m.methods)
    (hdoubleHandler : n.doubleHandler = m.doubleHandler)
    (hsubscribers : n.subscribers = m.subscribers) (hobservers : n.observers = m.observers)
    (htracers : n.tracers = m.tracers) (hstubSets : n.stubSets = m.stubSets) : m.KeepsOrder n :=
  fun h => {
    left := {
      subscribers := by rw [hsubscribers, hobservers]; exact h.subscribers
      records := by rw [htracers]; exact h.records }
    right := {
      methods := hmethods
      doubleHandler := hdoubleHandler
      subscribers := hsubscribers
      running := by rw [htracers]; exact (Undisturbed.refl m).running
      attached := by rw [hstubSets]; exact (Undisturbed.refl m).attached } }

theorem getElem?_modifyTracer (m : Machine) (tracer : Nat) (f : Tracer → Tracer) (k : Nat) :
    (m.modifyTracer tracer f).tracers[k]? =
      m.tracers[k]?.map fun t => if tracer = k then f t else t := by
  rw [modifyTracer, List.getElem?_modify]
  rfl

/-- A tracer may be given well-flagged records at any time. -/
theorem keepsOrder_modifyTracer (m : Machine) (tracer : Nat) {f : Tracer → Tracer}
    (hstate : ∀ t, (f t).state = t.state)
    (hrecords : ∀ t : Tracer, (∀ c ∈ t.capture.records, c.IsWellFlagged) →
      ∀ c ∈ (f t).capture.records, c.IsWellFlagged) :
    m.KeepsOrder (m.modifyTracer tracer f) := by
  refine fun h => ⟨⟨h.subscribers, fun k t ht => ?_⟩, ⟨rfl, rfl, rfl⟩, fun k t i ht hi => ?_,
    fun _ _ hset => hset⟩
  · rw [getElem?_modifyTracer] at ht
    obtain ⟨t', ht', rfl⟩ := Option.map_eq_some_iff.mp ht
    split_ifs
    · exact hrecords t' (h.records k t' ht')
    · exact h.records k t' ht'
  · rw [getElem?_modifyTracer, ht]
    refine ⟨_, rfl, ?_⟩
    split_ifs
    · rw [hstate, hi]
    · exact hi

/-! ### Programs -/

theorem keepsOrder_tell (m : Machine) (e : Event) (observer : Nat) :
    m.KeepsOrder (m.tell e observer) := by
  rcases m.tell_cases e observer with ⟨-, htell⟩ | ⟨events, -, htell⟩ | ⟨k, watched, log, -, htell⟩
  · rw [htell]
    exact keepsOrder_of_eq rfl rfl rfl rfl rfl rfl
  · rw [htell]
    refine fun h => ⟨⟨?_, h.records⟩, ⟨rfl, rfl, rfl⟩, (Undisturbed.refl m).running,
      (Undisturbed.refl m).attached⟩
    simpa using h.subscribers
  · rw [htell]
    have hobserved : m.KeepsOrder (m.modifyTracer k fun t =>
        { t with capture := t.capture.observe watched m.testCase e }) :=
      m.keepsOrder_modifyTracer k (fun _ => rfl) fun _ ht =>
        Capture.forall_isWellFlagged_observe ht watched m.testCase e
    exact hobserved.trans (keepsOrder_of_eq rfl rfl rfl rfl rfl rfl)

private theorem keepsOrder_notify (m : Machine) (audience : List Nat) (e : Event) :
    m.KeepsOrder (m.notify audience e) := by
  induction audience generalizing m with
  | nil => exact keepsOrder_of_eq rfl rfl rfl rfl rfl rfl
  | cons observer audience ih => exact (m.keepsOrder_tell e observer).trans (ih _)

theorem keepsOrder_deliver (m : Machine) (sink : Sink) (c : Call) :
    m.KeepsOrder (m.deliver sink c).1 := by
  rw [deliver]
  split
  · exact keepsOrder_of_eq rfl rfl rfl rfl rfl rfl
  · exact keepsOrder_of_eq rfl rfl rfl rfl rfl rfl

theorem keepsOrder_record (m : Machine) (tracer : Nat) {c : Call} (hc : c.IsWellFlagged) :
    m.KeepsOrder (m.modifyTracer tracer fun t => { t with capture := t.capture.record c }) :=
  m.keepsOrder_modifyTracer tracer (fun _ => rfl) fun _ ht =>
    List.forall_mem_append.mpr ⟨ht, List.forall_mem_singleton.mpr hc⟩

theorem keepsOrder_recordEnded (m : Machine) (tracer index : Nat) (o : Outcome) :
    m.KeepsOrder (m.recordEnded tracer index o) := by
  have hfinished : m.KeepsOrder (m.modifyTracer tracer fun t =>
      { t with capture := t.capture.finish index o }) := by
    refine m.keepsOrder_modifyTracer tracer (fun _ => rfl) fun t ht => ?_
    rw [Capture.finish_records]
    exact Capture.forall_isWellFlagged_modify ht index o
  exact hfinished.trans (keepsOrder_of_eq rfl rfl rfl rfl rfl rfl)

end Machine

/-- A host that disturbs no interception when a program calls back. -/
def Host.IsDiscreet (host : Host) : Prop :=
  ∀ (number : Nat) (m : Machine), m.KeepsOrder (host number m)

namespace Machine

variable {l m n : Machine}

theorem isFrame_keepsOrder {host : Host} (h : host.IsDiscreet) : IsFrame KeepsOrder host where
  refl _ := keepsOrder_of_eq rfl rfl rfl rfl rfl rfl
  trans := .trans
  heap _ _ := keepsOrder_of_eq rfl rfl rfl rfl rfl rfl
  callback := h
  notify := keepsOrder_notify
  deliver := keepsOrder_deliver
  recording m tracer _ _ _ _ := m.keepsOrder_record tracer (by rintro ⟨⟩)
  recordEnded := keepsOrder_recordEnded

/-- **Programs** disturb no interception, whether their messages return or raise. -/
theorem undisturbed_execute {host : Host} (hhost : host.IsDiscreet) (hm : m.IsOrderly)
    (depth : Nat) (program : Procedure) : m.Undisturbed (m.execute host depth program).1 :=
  ((isFrame_keepsOrder hhost).execute m depth program hm).2

/-! ### Preparations -/

theorem keepsOrder_addTracer (m : Machine) (strategy : Strategy) (filter : ArtifactFilter) :
    m.KeepsOrder (m.addTracer { strategy, filter }).1 := by
  refine fun h => ⟨⟨h.subscribers, fun k t ht => ?_⟩, ⟨rfl, rfl, rfl⟩, fun k t i ht hi => ?_,
    (Undisturbed.refl m).attached⟩
  · rcases List.mem_append.mp (List.mem_of_getElem? ht) with hmem | hmem
    · obtain ⟨k', hk'⟩ := List.mem_iff_getElem?.mp hmem
      exact h.records k' t hk'
    · rw [List.mem_singleton.mp hmem]
      exact fun _ hc => nomatch hc
  · obtain ⟨hlt, -⟩ := List.getElem?_eq_some_iff.mp ht
    exact ⟨t, (List.getElem?_append_left hlt).trans ht, hi⟩

end Machine

/-- The operations that neither begin nor end an interception. Only well-flagged records are handed
in. -/
def Operation.IsPreparation : Operation → Prop
  | .addTracer .. | .register .. | .openStore | .enterTestCase _ | .leaveTestCase => True
  | .observe _ c => c.IsWellFlagged
  | .start _ | .stop _ | .attach .. | .detach _ => False

namespace Machine

variable {l m n : Machine}

theorem keepsOrder_perform (m : Machine) {op : Operation} (hop : op.IsPreparation) :
    m.KeepsOrder (m.perform op) := by
  cases op with
  | addTracer strategy filter => exact m.keepsOrder_addTracer strategy filter
  | register tracer target methods =>
    exact m.keepsOrder_modifyTracer tracer (fun _ => rfl) fun _ ht => ht
  | observe tracer c => exact m.keepsOrder_record tracer hop
  | openStore | enterTestCase | leaveTestCase => exact keepsOrder_of_eq rfl rfl rfl rfl rfl rfl
  | start | stop | attach | detach => exact hop.elim

end Machine

/-- A host whose operations are preparations is discreet. -/
theorem Host.isDiscreet_performing {plan : Nat → Machine → Operation}
    (h : ∀ number m, (plan number m).IsPreparation) : (Host.performing plan).IsDiscreet :=
  fun number m => m.keepsOrder_perform (h number m)

namespace Machine

variable {m n : Machine}

/-! ### Operations on orderly machines -/

namespace IsOrderly

theorem intercept (h : m.IsOrderly) (tracer : Nat) (t : Tracer) :
    (m.intercept tracer t).1.IsOrderly := by
  rcases m.intercept_cases tracer t with ⟨methods, log, displaced, hintercept, -⟩ | hintercept
  · rw [hintercept]
    exact ⟨h.subscribers, h.records⟩
  · rw [hintercept]
    refine ⟨fun observer hmem => ?_, h.records⟩
    rw [List.length_append, List.length_singleton]
    rcases List.mem_append.mp hmem with hmem | hmem
    · exact Nat.lt_succ_of_lt (h.subscribers observer hmem)
    · exact Nat.lt_succ_of_le (Nat.le_of_eq (List.mem_singleton.mp hmem))

theorem release (h : m.IsOrderly) (i : Interception) : (m.release i).IsOrderly := by
  cases i with
  | wrapped displaced =>
    rw [Machine.release, restoreAll_eq]
    exact ⟨h.subscribers, h.records⟩
  | subscribed observer =>
    exact ⟨fun observer' hmem => h.subscribers observer' (List.mem_of_mem_filter hmem), h.records⟩

/-- Changing a tracer keeps a machine orderly if the records it has then can be filtered. -/
theorem modifyTracer (h : m.IsOrderly) (tracer : Nat) {f : Tracer → Tracer}
    (hf : ∀ t, m.tracers[tracer]? = some t → ∀ c ∈ (f t).capture.records, c.IsWellFlagged) :
    (m.modifyTracer tracer f).IsOrderly := by
  refine ⟨h.subscribers, fun k t ht => ?_⟩
  rw [getElem?_modifyTracer] at ht
  obtain ⟨t', ht', rfl⟩ := Option.map_eq_some_iff.mp ht
  split_ifs with hk
  · subst hk
    exact hf t' ht'
  · exact h.records k t' ht'

theorem startTracer (h : m.IsOrderly) (tracer : Nat) : (m.startTracer tracer).1.IsOrderly := by
  rcases m.startTracer_cases tracer with hrefused | ⟨t, lines, -, -, hstart⟩
  · rwa [hrefused]
  · rw [hstart]
    have hwritten : ((m.intercept tracer t).1.write lines).IsOrderly :=
      ⟨(h.intercept tracer t).subscribers, (h.intercept tracer t).records⟩
    exact hwritten.modifyTracer tracer fun t' ht' => hwritten.records tracer t' ht'

theorem stopTracer (h : m.IsOrderly) {tracer : Nat} {m' : Machine} {calls : List Call}
    (hstop : m.stopTracer tracer = .ok (m', calls)) : m'.IsOrderly := by
  rcases stopTracer_cases hstop with ⟨-, rfl, -⟩ | ⟨t, stats, -, -, rfl⟩ |
    ⟨t, m₁, lines, stats, -, hreleased, -, rfl⟩
  · exact h
  · exact h
  · have hm₁ : m₁.IsOrderly := by
      rcases hreleased with ⟨-, rfl⟩ | ⟨i, -, rfl⟩
      · exact h
      · exact h.release i
    have hwritten : (m₁.write lines).IsOrderly := ⟨hm₁.subscribers, hm₁.records⟩
    exact hwritten.modifyTracer tracer fun _ _ _ hc => nomatch hc

theorem attachStubs (h : m.IsOrderly) (r : Registry) (sink : Sink) :
    (m.attachStubs r sink).1.IsOrderly := by
  obtain ⟨methods, doubleHandler, stubSets, log, hattach⟩ := m.attachStubs_eq r sink
  rw [hattach]
  exact ⟨h.subscribers, h.records⟩

theorem detachStubs (h : m.IsOrderly) (number : Nat) : (m.detachStubs number).IsOrderly := by
  obtain ⟨methods, doubleHandler, stubSets, hdetach⟩ := m.detachStubs_eq number
  rw [hdetach]
  exact ⟨h.subscribers, h.records⟩

end IsOrderly

/-! ### Undoing one interception -/

/-- A tracer that was started has begun to watch, and it is the only tracer that changes. -/
theorem startTracer_started {tracer : Nat} (h : m.startTracer tracer = (n, .ok ())) :
    ∃ t, m.tracers[tracer]? = some t ∧ t.state = .ready ∧
      (m.intercept tracer t).1.InterceptsAs n ∧ n.stubSets = m.stubSets ∧
      n.tracers[tracer]? = some { t with state := .running (m.intercept tracer t).2 } ∧
      ∀ k, tracer ≠ k → n.tracers[k]? = m.tracers[k]? := by
  rcases m.startTracer_cases tracer with hrefused | ⟨t, lines, ht, hready, hstarted⟩
  · rw [hrefused] at h
    cases h
  · obtain rfl : _ = n := congrArg Prod.fst (hstarted.symm.trans h)
    obtain ⟨methods, subscribers, observers, log, hintercept⟩ := m.intercept_eq tracer t
    have htracers : ((m.intercept tracer t).1.write lines).tracers = m.tracers := by
      rw [hintercept]
      rfl
    refine ⟨t, ht, hready, ⟨rfl, rfl, rfl⟩, ?_, ?_, fun k hk => ?_⟩
    · rw [modifyTracer, write, hintercept]
    · rw [getElem?_modifyTracer, htracers, ht, Option.map_some, if_pos rfl]
    · simp [getElem?_modifyTracer, htracers, hk]

/-- A tracer that was started can be stopped as long as nothing disturbs it, and then interception
is as it was before. -/
theorem exists_stopTracer {n' : Machine} {tracer : Nat} (hm : m.IsOrderly)
    (hstart : m.startTracer tracer = (n, .ok ())) (hn : n.Undisturbed n') (hn' : n'.IsOrderly) :
    ∃ m' calls, n'.stopTracer tracer = .ok (m', calls) ∧ m.Undisturbed m' := by
  obtain ⟨t, ht, hready, hsame, hstubSets, hstarted, hothers⟩ := startTracer_started hstart
  obtain ⟨t', ht', hrunning⟩ := hn.running tracer _ _ hstarted rfl
  obtain ⟨calls, hcalls⟩ := t'.filter.exists_keepReal (hn'.records tracer t' ht')
  obtain ⟨lines, stats, hstop⟩ := stopTracer_of_running ht' hrunning hcalls
  refine ⟨_, calls, hstop, ?_⟩
  have hintercept : (m.intercept tracer t).1.InterceptsAs n' := hsame.trans hn.toInterceptsAs
  have hdoubleHandler : (m.intercept tracer t).1.doubleHandler = m.doubleHandler := by
    obtain ⟨methods, subscribers, observers, log, heq⟩ := m.intercept_eq tracer t
    rw [heq]
  rw [release_intercept hm.subscribers hintercept]
  refine ⟨⟨rfl, hintercept.doubleHandler.trans hdoubleHandler, rfl⟩, fun k tk i htk hi => ?_,
    fun k set hset => ?_⟩
  · -- The tracer that is stopped was not running before it was started.
    have hk : tracer ≠ k := by
      rintro rfl
      obtain rfl : t = tk := Option.some.inj (ht.symm.trans htk)
      cases hready.symm.trans hi
    obtain ⟨tk', htk', hi'⟩ := hn.running k tk i ((hothers k hk).trans htk) hi
    exact ⟨tk', by simpa [getElem?_modifyTracer, write, hk] using htk', hi'⟩
  · exact hn.attached k set (by rw [hstubSets, hset])

/-- Stubs that were attached can be detached, and as long as nothing disturbs them, interception is
then as it was before. -/
theorem undisturbed_detachStubs {n' : Machine} {r : Registry} {sink : Sink}
    (hn : (m.attachStubs r sink).1.Undisturbed n') :
    m.Undisturbed (n'.detachStubs m.stubSets.length) := by
  obtain ⟨methods, doubleHandler, log, displaced, previousHandler, hinstall, -, -⟩ :=
    m.installStubs_eq r sink
  rw [attachStubs_installed] at hn
  have hset : n'.stubSets[m.stubSets.length]? = some (some (m.installStubs r sink).2) :=
    hn.attached _ _ List.getElem?_concat_length
  have hsame : (m.installStubs r sink).1.InterceptsAs n' :=
    ⟨hn.methods, hn.doubleHandler, hn.subscribers⟩
  rw [detachStubs, hset, Option.join_some]
  dsimp only
  rw [uninstallStubs_installStubs hsame]
  refine ⟨⟨rfl, rfl, ?_⟩, fun k t i ht hi => ?_, fun k set hk => ?_⟩
  · rw [hsame.subscribers, hinstall]
  · exact hn.running k t i (by rw [hinstall]; exact ht) hi
  · obtain ⟨hlt, -⟩ := List.getElem?_eq_some_iff.mp hk
    rw [List.getElem?_set_ne (Nat.ne_of_gt hlt)]
    exact hn.attached k set ((List.getElem?_append_left hlt).trans hk)

end Machine

/-! ### Layers -/

/-- Something that intercepts messages: a tracer that runs or an attached set of stubs, by its
number. -/
inductive Layer
  | tracer (number : Nat)
  | stubs (number : Nat)

namespace Layer

/-- Putting the layer on one machine results in the other. -/
def PutsOn : Layer → Machine → Machine → Prop
  | .tracer number, m, n => m.startTracer number = (n, .ok ())
  | .stubs number, m, n => ∃ r sink, m.attachStubs r sink = (n, number)

/-- The machine from which a layer was removed. -/
def remove (m : Machine) : Layer → Except Fault Machine
  | .tracer number => (m.stopTracer number).map Prod.fst
  | .stubs number => .ok (m.detachStubs number)

variable {layer : Layer} {m n n' : Machine}

private theorem PutsOn.isOrderly (h : layer.PutsOn m n) (hm : m.IsOrderly) : n.IsOrderly := by
  cases layer with
  | tracer number =>
    have hstart := hm.startTracer number
    rwa [show m.startTracer number = (n, .ok ()) from h] at hstart
  | stubs number =>
    obtain ⟨r, sink, hattach⟩ := h
    have hattached := hm.attachStubs r sink
    rwa [hattach] at hattached

private theorem isOrderly_of_remove (h : layer.remove m = .ok n) (hm : m.IsOrderly) :
    n.IsOrderly := by
  cases layer with
  | tracer number =>
    rw [remove] at h
    cases hstop : m.stopTracer number with
    | error fault =>
      rw [hstop] at h
      cases h
    | ok result =>
      rw [hstop] at h
      cases h
      exact hm.stopTracer hstop
  | stubs number =>
    cases h
    exact hm.detachStubs number

/-- **Removing a layer** succeeds and undoes what putting it on has done, as long as nothing
disturbs it. -/
theorem PutsOn.exists_remove (h : layer.PutsOn m n) (hm : m.IsOrderly) (hn : n.Undisturbed n')
    (hn' : n'.IsOrderly) : ∃ m', layer.remove n' = .ok m' ∧ m.Undisturbed m' := by
  cases layer with
  | tracer number =>
    obtain ⟨m', calls, hstop, hm'⟩ := Machine.exists_stopTracer hm h hn hn'
    exact ⟨m', by rw [remove, hstop]; rfl, hm'⟩
  | stubs number =>
    obtain ⟨r, sink, hattach⟩ := h
    obtain rfl : m.stubSets.length = number := by
      rw [m.attachStubs_installed r sink] at hattach
      exact congrArg Prod.snd hattach
    have hattached : (m.attachStubs r sink).1.Undisturbed n' := by rwa [hattach]
    exact ⟨_, rfl, Machine.undisturbed_detachStubs hattached⟩

end Layer

/-! ### Nested sequences -/

namespace Machine

/-- The machines that properly nested sequences lead to, with the layers that are on them, the last
one first, each with the machine just before it was put on. Between putting layers on and removing
them, programs run and preparations are made. -/
inductive Nests (host : Host) (m : Machine) : Machine → List (Layer × Machine) → Prop
  | nothing : Nests host m m []
  | run {n : Machine} {layers : List (Layer × Machine)} (h : Nests host m n layers) (depth : Nat)
      (program : Procedure) : Nests host m (n.execute host depth program).1 layers
  | prepare {n : Machine} {layers : List (Layer × Machine)} (h : Nests host m n layers)
      {op : Operation} (hop : op.IsPreparation) : Nests host m (n.perform op) layers
  | putOn {n n' : Machine} {layers : List (Layer × Machine)} (h : Nests host m n layers)
      {layer : Layer} (hlayer : layer.PutsOn n n') : Nests host m n' ((layer, n) :: layers)
  | remove {n n' before : Machine} {layer : Layer} {layers : List (Layer × Machine)}
      (h : Nests host m n ((layer, before) :: layers)) (hlayer : layer.remove n = .ok n') :
    Nests host m n' layers

/-- The invariant of nested sequences: nothing has disturbed the last layer since it was put on, nor
the layers below until then. -/
inductive IsLayered (m : Machine) : Machine → List (Layer × Machine) → Prop
  | bare {n : Machine} (h : m.Undisturbed n) : IsLayered m n []
  | covered {before after n : Machine} {layer : Layer} {layers : List (Layer × Machine)}
      (hbefore : before.IsOrderly) (hlayer : layer.PutsOn before after) (h : after.Undisturbed n)
      (hbelow : IsLayered m before layers) : IsLayered m n ((layer, before) :: layers)

variable {m n n' : Machine} {layers : List (Layer × Machine)}

theorem IsLayered.undisturbed (h : m.IsLayered n layers) (hn : n.Undisturbed n') :
    m.IsLayered n' layers := by
  cases h with
  | bare h => exact .bare (h.trans hn)
  | covered hbefore hlayer h hbelow => exact .covered hbefore hlayer (h.trans hn) hbelow

variable {host : Host}

theorem Nests.isLayered (h : m.Nests host n layers) (hhost : host.IsDiscreet) (hm : m.IsOrderly) :
    n.IsOrderly ∧ m.IsLayered n layers := by
  induction h with
  | nothing => exact ⟨hm, .bare (.refl m)⟩
  | run h depth program ih =>
    obtain ⟨hn, hlayered⟩ := ih
    obtain ⟨hn', hundisturbed⟩ := (isFrame_keepsOrder hhost).execute _ depth program hn
    exact ⟨hn', hlayered.undisturbed hundisturbed⟩
  | prepare h hop ih =>
    obtain ⟨hn, hlayered⟩ := ih
    obtain ⟨hn', hundisturbed⟩ := keepsOrder_perform _ hop hn
    exact ⟨hn', hlayered.undisturbed hundisturbed⟩
  | putOn h hlayer ih =>
    obtain ⟨hn, hlayered⟩ := ih
    exact ⟨hlayer.isOrderly hn, .covered hn hlayer (.refl _) hlayered⟩
  | remove h hremove ih =>
    obtain ⟨hn, hlayered⟩ := ih
    cases hlayered with
    | covered hbefore hlayer hundisturbed hbelow =>
      obtain ⟨n', hremoved, hundisturbed'⟩ := hlayer.exists_remove hbefore hundisturbed hn
      cases hremove.symm.trans hremoved
      exact ⟨Layer.isOrderly_of_remove hremove hn, hbelow.undisturbed hundisturbed'⟩

/-- A sequence after which no layer is left disturbs nothing, so a discreet host may go through one
itself when a program calls back. -/
theorem Nests.keepsOrder (h : m.Nests host n []) (hhost : host.IsDiscreet) : m.KeepsOrder n := by
  intro hm
  obtain ⟨hn, hundisturbed | _⟩ := h.isLayered hhost hm
  exact ⟨hn, hundisturbed⟩

/-- **Interception leaves no trace.** In a properly nested sequence of any depth, the layer that was
put on last can be removed, and then the implementations, the handler of messages to doubles and
the subscribers are exactly what they were just before it was put on. -/
theorem Nests.remove_restores {layer : Layer} {before : Machine}
    (h : m.Nests host n ((layer, before) :: layers)) (hhost : host.IsDiscreet)
    (hm : m.IsOrderly) : ∃ n', layer.remove n = .ok n' ∧ before.InterceptsAs n' := by
  obtain ⟨hn, hlayered⟩ := h.isLayered hhost hm
  cases hlayered with
  | covered hbefore hlayer hundisturbed hbelow =>
    obtain ⟨n', hremove, hundisturbed'⟩ := hlayer.exists_remove hbefore hundisturbed hn
    exact ⟨n', hremove, hundisturbed'.toInterceptsAs⟩

end Machine

/-- A program that lets a test case begin and greets. -/
def welcome : Procedure :=
  .callback 0 (.send (.type "Greeter") "greet" [.str "Ada"] .finish)

/-- Stubs attached to a greeter that is traced, with greetings before and after. -/
theorem remove_restores_of_welcome :
    let host := Host.performing fun _ _ => .enterTestCase ⟨some "greets", none⟩
    let watching := (greeter.perform (.addTracer .wrap .standard)).perform
      (.register 0 (.typeItself "Greeter") ["greet"])
    let traced := ((watching.startTracer 0).1.execute host 1 welcome).1
    let registry := Registry.empty.register
      (Registry.stub (.typeItself "Greeter") "greet" [] none none none (.str "Hello"))
    let stubbed := ((traced.attachStubs registry ⟨.lenient, none⟩).1.execute host 1 welcome).1
    host.IsDiscreet ∧ greeter.IsOrderly ∧
      greeter.Nests host stubbed [(.stubs traced.stubSets.length, traced), (.tracer 0, watching)] ∧
      ∃ n, Layer.remove stubbed (.stubs traced.stubSets.length) = .ok n ∧
        traced.InterceptsAs n := by
  intro host watching traced registry stubbed
  have hhost : host.IsDiscreet := Host.isDiscreet_performing fun _ _ => trivial
  have hadded : Operation.IsPreparation (.addTracer .wrap .standard) := trivial
  have hregistered : Operation.IsPreparation (.register 0 (.typeItself "Greeter") ["greet"]) :=
    trivial
  have hstarted : Layer.PutsOn (.tracer 0) watching (watching.startTracer 0).1 := rfl
  have hattached : Layer.PutsOn (.stubs traced.stubSets.length) traced
      (traced.attachStubs registry ⟨.lenient, none⟩).1 :=
    ⟨registry, ⟨.lenient, none⟩, Prod.ext rfl (by rw [Machine.attachStubs_installed])⟩
  have hnests : greeter.Nests host stubbed
      [(.stubs traced.stubSets.length, traced), (.tracer 0, watching)] :=
    (((((Machine.Nests.nothing.prepare hadded).prepare hregistered).putOn hstarted).run 1
      welcome).putOn hattached).run 1 welcome
  exact ⟨hhost, greeter_built.isOrderly, hnests,
    hnests.remove_restores hhost greeter_built.isOrderly⟩

end MockAudit
