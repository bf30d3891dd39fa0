import MockAudit.Proofs.Frames
import MockAudit.Proofs.GroundTruth
import MockAudit.Proofs.NestedInterception

/-!
# The life of a tracer

A tracer is ready, then it may run, and in the end it is stopped; it never goes back
(`TracerStage.MayBecome`), and once it is stopped, what it returns is settled. Nothing that happens
to a machine makes an exception, be it an operation of the host or a step of a program, so this is
a relation that runs respect from moment to moment (`Machine.isFrame_ages`). Whatever a tracer has
come to at one moment of a session, also while methods are running, therefore holds at all moments
after it.

What a tracer returns when it is stopped for the first time are the real ones of the calls it has
captured, and these correspond one by one to the records that were made for it or handed in
(`Machine.IsSound`). That it returns a list at all is a matter of the records: they can be filtered
if no named flag is set over an empty argument list (`Machine.IsOrderly`).

## Main definitions

* `TracerStage.MayBecome`: the stages a tracer may come to.
* `Machine.Ages`: machines on which tracers are as old or older.
* `Machine.Later`: the machines of a session after a moment.
* `Machine.HasStopped`: what a tracer that was stopped answers.
* `CaptureCounts.Counts`: the numbers of captured, dropped and kept calls.

## Main results

* `Machine.ages_perform`: operations make no tracer younger.
* `Machine.isFrame_ages`: neither do programs.
* `Machine.Built.tracer_lifecycle`: a tracer starts once, and what it returns is settled when it is
  stopped first.
-/

namespace MockAudit

/-- A tracer that is at one stage may come to the other: one that runs is never ready again, and one
that was stopped stays as it is. -/
def TracerStage.MayBecome : TracerStage → TracerStage → Prop
  | .ready, _ => True
  | .running _, stage => stage ≠ .ready
  | .stopped calls stats, stage => stage = .stopped calls stats

namespace TracerStage.MayBecome

theorem refl (stage : TracerStage) : stage.MayBecome stage := by
  cases stage with
  | ready => trivial
  | running installation => exact nofun
  | stopped calls stats => rfl

theorem trans {a b c : TracerStage} (hab : a.MayBecome b) (hbc : b.MayBecome c) :
    a.MayBecome c := by
  cases a with
  | ready => trivial
  | running installation =>
    cases b with
    | ready => exact absurd rfl hab
    | running installation' => exact hbc
    | stopped calls stats =>
      obtain rfl : c = .stopped calls stats := hbc
      exact nofun
  | stopped calls stats =>
    obtain rfl : b = .stopped calls stats := hab
    exact hbc

private theorem ne_ready {a b : TracerStage} (hab : a.MayBecome b) (ha : a ≠ .ready) :
    b ≠ .ready := by
  cases a with
  | ready => exact absurd rfl ha
  | running installation => exact hab
  | stopped calls stats =>
    obtain rfl : b = .stopped calls stats := hab
    exact nofun

end TracerStage.MayBecome

/-- A tracer that was not stopped answers with the records it has. -/
theorem Tracer.captured_of_isOpen {t : Tracer} (h : t.isOpen = true) :
    t.captured = t.capture.records := by
  cases hstate : t.state with
  | ready | running i => rw [captured, hstate]
  | stopped calls stats =>
    rw [isOpen, hstate] at h
    cases h

/-- The numbers of captured calls: of all of them, of those that a filter drops and of those that it
keeps. -/
structure CaptureCounts.Counts (stats : CaptureCounts) (f : ArtifactFilter)
    (captured : List Call) : Prop where
  collected : stats.collected = captured.length
  filtered : stats.filtered = captured.countP (!f.isReal ·)
  kept : stats.kept = (captured.filter f.isReal).length

private theorem CaptureCounts.counts_filter (f : ArtifactFilter) (captured : List Call) :
    Counts ⟨captured.length, captured.length - (captured.filter f.isReal).length⟩ f captured where
  collected := rfl
  filtered := by
    have hcount := captured.length_eq_countP_add_countP f.isReal
    simp only [Bool.not_eq_true, Bool.decide_eq_false] at hcount
    rw [hcount, List.countP_eq_length_filter, Nat.add_sub_cancel_left]
  kept := Nat.sub_sub_self (List.length_filter_le _ _)

namespace Machine

/-! ### Machines that age -/

/-- On the second machine all tracers of the first are still there, as old as they were or older,
and if the first machine is orderly, so is the second. -/
structure Ages (m n : Machine) : Prop where
  isOrderly : m.IsOrderly → n.IsOrderly
  tracer : ∀ (k : Nat) (t : Tracer), m.tracers[k]? = some t →
    ∃ t' : Tracer, n.tracers[k]? = some t' ∧ t.state.MayBecome t'.state

variable {l m n : Machine}

theorem Ages.trans (h : l.Ages m) (h' : m.Ages n) : l.Ages n where
  isOrderly := h'.isOrderly ∘ h.isOrderly
  tracer k t ht := by
    obtain ⟨t', ht', hstate⟩ := h.tracer k t ht
    obtain ⟨t'', ht'', hstate'⟩ := h'.tracer k t' ht'
    exact ⟨t'', ht'', hstate.trans hstate'⟩

/-- What changes no tracer makes none older. -/
theorem ages_of_tracers (htracers : n.tracers = m.tracers) (h : m.IsOrderly → n.IsOrderly) :
    m.Ages n where
  isOrderly := h
  tracer k t ht := ⟨t, by rw [htracers, ht], .refl t.state⟩

private theorem ages_of_keepsOrder (htracers : n.tracers = m.tracers) (h : m.KeepsOrder n) :
    m.Ages n :=
  ages_of_tracers htracers fun hm => (h hm).1

/-- One tracer may come to a stage that it may become. -/
theorem ages_modifyTracer {k : Nat} {f : Tracer → Tracer}
    (htracers : n.tracers = m.tracers.modify k f)
    (hstate : ∀ t, m.tracers[k]? = some t → t.state.MayBecome (f t).state)
    (h : m.IsOrderly → n.IsOrderly) : m.Ages n where
  isOrderly := h
  tracer j t ht := by
    refine ⟨if k = j then f t else t, by rw [htracers, List.getElem?_modify, ht]; rfl, ?_⟩
    split_ifs with hk
    · subst hk
      exact hstate t ht
    · exact .refl t.state

/-- Whatever else happens to a tracer, it stays at its stage. -/
theorem ages_of_state {k : Nat} {f : Tracer → Tracer} (htracers : n.tracers = m.tracers.modify k f)
    (hstate : ∀ t, (f t).state = t.state) (h : m.KeepsOrder n) : m.Ages n :=
  ages_modifyTracer htracers (fun t _ => by rw [hstate]; exact .refl t.state) fun hm => (h hm).1

private theorem ages_tell (m : Machine) (e : Event) (observer : Nat) :
    m.Ages (m.tell e observer) := by
  have horder := m.keepsOrder_tell e observer
  rcases m.tell_cases e observer with ⟨-, htell⟩ | ⟨events, -, htell⟩ | ⟨k, watched, log, -, htell⟩
  · exact ages_of_keepsOrder (by rw [htell]) horder
  · exact ages_of_keepsOrder (by rw [htell]) horder
  · rw [htell] at horder ⊢
    exact ages_of_state rfl (fun _ => rfl) horder

private theorem ages_notify (m : Machine) (audience : List Nat) (e : Event) :
    m.Ages (m.notify audience e) := by
  induction audience generalizing m with
  | nil => exact ages_of_tracers rfl id
  | cons observer audience ih => exact (m.ages_tell e observer).trans (ih _)

/-! ### Starting and stopping -/

theorem tracers_release (m : Machine) (i : Interception) : (m.release i).tracers = m.tracers := by
  cases i with
  | wrapped displaced => rw [release, restoreAll_eq]
  | subscribed observer => rfl

/-- Once a tracer has been started or stopped, starting it is refused, and changes nothing. -/
theorem startTracer_of_ne_ready {k : Nat} {t : Tracer} (ht : m.tracers[k]? = some t)
    (hstate : t.state ≠ .ready) : m.startTracer k = (m, .error .tracerAlreadyStarted) := by
  rcases m.startTracer_cases k with hrefused | ⟨t', lines, ht', hready, -⟩
  · exact hrefused
  · obtain rfl : t = t' := Option.some.inj (ht.symm.trans ht')
    exact absurd hready hstate

/-- A start that is refused changes nothing. -/
theorem eq_of_startTracer_error {k : Nat} {e : Error} (h : m.startTracer k = (n, .error e)) :
    n = m := by
  rcases m.startTracer_cases k with hrefused | ⟨t, lines, -, -, hstarted⟩
  · rw [hrefused] at h
    exact (congrArg Prod.fst h).symm
  · rw [hstarted] at h
    cases h

/-- A tracer that was told to start is not ready any more. -/
theorem exists_ne_ready_startTracer {k : Nat} {t : Tracer} (ht : m.tracers[k]? = some t) :
    ∃ t' : Tracer, (m.startTracer k).1.tracers[k]? = some t' ∧ t'.state ≠ .ready := by
  by_cases hready : t.state = .ready
  · obtain ⟨lines, hstart⟩ := startTracer_of_ready ht hready
    obtain ⟨methods, subscribers, observers, log, hintercept⟩ := m.intercept_eq k t
    rw [hstart, getElem?_modifyTracer, write, hintercept, ht]
    exact ⟨_, rfl, by simp⟩
  · rw [startTracer_of_ne_ready ht hready]
    exact ⟨t, ht, hready⟩

/-- Stopping a tracer that was not stopped before returns the real ones of the calls it has
captured, and settles them. -/
theorem stopTracer_of_isOpen {k : Nat} {t : Tracer} (ht : m.tracers[k]? = some t)
    (hopen : t.isOpen = true) (hrecords : ∀ c ∈ t.captured, c.IsWellFlagged) :
    ∃ m' t' stats, m.stopTracer k = .ok (m', t.captured.filter t.filter.isReal) ∧
      m'.tracers[k]? = some t' ∧
      t'.state = .stopped (t.captured.filter t.filter.isReal) stats ∧
      stats.Counts t.filter t.captured := by
  obtain ⟨calls, hcalls⟩ := t.filter.exists_keepReal hrecords
  obtain rfl := ArtifactFilter.keepReal_eq_filter hcalls
  have hcounts := CaptureCounts.counts_filter t.filter t.captured
  rw [Tracer.captured_of_isOpen hopen] at hcalls hcounts ⊢
  let t' : Tracer :=
    { t with
      capture := { t.capture with records := [] }
      state := .stopped (t.capture.records.filter t.filter.isReal)
        ⟨t.capture.records.length,
          t.capture.records.length - (t.capture.records.filter t.filter.isReal).length⟩ }
  simp only [stopTracer, ht]
  cases hstate : t.state with
  | stopped calls' stats =>
    rw [Tracer.isOpen, hstate] at hopen
    cases hopen
  | ready =>
    simp only [hcalls]
    refine ⟨_, t', _, rfl, ?_, rfl, hcounts⟩
    rw [getElem?_modifyTracer, write, ht, Option.map_some, if_pos rfl]
  | running i =>
    simp only [hcalls]
    refine ⟨_, t', _, rfl, ?_, rfl, hcounts⟩
    rw [getElem?_modifyTracer, write, tracers_release, ht, Option.map_some, if_pos rfl]

/-- On an orderly machine every tracer can be stopped. -/
theorem IsOrderly.exists_stopTracer (h : m.IsOrderly) {k : Nat} {t : Tracer}
    (ht : m.tracers[k]? = some t) :
    ∃ m' t' calls stats, m.stopTracer k = .ok (m', calls) ∧ m'.tracers[k]? = some t' ∧
      t'.state = .stopped calls stats := by
  cases hstate : t.state with
  | stopped calls stats =>
    exact ⟨m, t, calls, stats, by simp only [Machine.stopTracer, ht, hstate], ht, hstate⟩
  | ready | running i =>
    have hopen : t.isOpen = true := by rw [Tracer.isOpen, hstate]
    obtain ⟨m', t', stats, hstop, ht', hstate', -⟩ :=
      stopTracer_of_isOpen ht hopen (t.captured_of_isOpen hopen ▸ h.records k t ht)
    exact ⟨m', t', _, stats, hstop, ht', hstate'⟩

/-- What a tracer that was stopped answers: it cannot be started, stopping it again changes nothing
and returns the same calls, and so do the questions for its calls and their numbers. -/
structure HasStopped (m : Machine) (k : Nat) (calls : List Call) (stats : CaptureCounts) :
    Prop where
  start : m.startTracer k = (m, .error .tracerAlreadyStarted)
  stop : m.stopTracer k = .ok (m, calls)
  queries : ∃ t, m.tracers[k]? = some t ∧ t.captured = calls ∧ t.stats = stats

private theorem hasStopped_of_state {k : Nat} {t : Tracer} {calls : List Call}
    {stats : CaptureCounts} (ht : m.tracers[k]? = some t)
    (hstate : t.state = .stopped calls stats) :
    m.HasStopped k calls stats where
  start := startTracer_of_ne_ready ht (by simp [hstate])
  stop := by simp only [stopTracer, ht, hstate]
  queries := ⟨t, ht, by rw [Tracer.captured, hstate], by rw [Tracer.stats, hstate]⟩

/-! ### Operations and programs -/

private theorem ages_startTracer (m : Machine) (k : Nat) : m.Ages (m.startTracer k).1 := by
  have horder (hm : m.IsOrderly) := hm.startTracer k
  rcases m.startTracer_cases k with hrefused | ⟨t, lines, ht, hready, hstart⟩
  · rw [hrefused]
    exact ages_of_tracers rfl id
  · obtain ⟨methods, subscribers, observers, log, hintercept⟩ := m.intercept_eq k t
    rw [hstart] at horder ⊢
    refine ages_modifyTracer (by rw [modifyTracer, write, hintercept]) (fun t' ht' => ?_) horder
    obtain rfl : t = t' := Option.some.inj (ht.symm.trans ht')
    rw [hready]
    trivial

private theorem ages_stopTracer {k : Nat} {calls : List Call}
    (hstop : m.stopTracer k = .ok (n, calls)) : m.Ages n := by
  have horder (hm : m.IsOrderly) := hm.stopTracer hstop
  rcases stopTracer_cases hstop with ⟨-, rfl, -⟩ | ⟨t, stats, -, -, rfl⟩ |
    ⟨t, m₁, lines, stats, ht, hreleased, -, rfl⟩
  · exact ages_of_tracers rfl id
  · exact ages_of_tracers rfl id
  · have htracers : m₁.tracers = m.tracers := by
      rcases hreleased with ⟨-, rfl⟩ | ⟨i, -, rfl⟩
      · rfl
      · exact m.tracers_release i
    refine ages_modifyTracer (by rw [modifyTracer, write, htracers]) (fun t' ht' => ?_) horder
    obtain rfl : t = t' := Option.some.inj (ht.symm.trans ht')
    rcases hreleased with ⟨hready, -⟩ | ⟨i, hrunning, -⟩
    · rw [hready]
      trivial
    · rw [hrunning]
      simp [TracerStage.MayBecome]

/-- **Operations** make no tracer younger. Records that are handed in have to be well flagged. -/
theorem ages_perform (m : Machine) {op : Operation}
    (hop : ∀ k c, op = .observe k c → c.IsWellFlagged) : m.Ages (m.perform op) := by
  cases op with
  | addTracer strategy filter =>
    refine ⟨fun hm => (m.keepsOrder_addTracer strategy filter hm).1, fun k t ht => ⟨t, ?_, .refl _⟩⟩
    obtain ⟨hlt, -⟩ := List.getElem?_eq_some_iff.mp ht
    exact (List.getElem?_append_left hlt).trans ht
  | register k target methods =>
    have hregister : Operation.IsPreparation (.register k target methods) := trivial
    exact ages_of_state rfl (fun _ => rfl) (m.keepsOrder_perform hregister)
  | start k => exact m.ages_startTracer k
  | stop k =>
    rw [perform]
    split
    · exact ages_stopTracer ‹_›
    · exact ages_of_tracers rfl id
  | observe k c => exact ages_of_state rfl (fun _ => rfl) (m.keepsOrder_record k (hop k c rfl))
  | attach registry sink =>
    obtain ⟨methods, doubleHandler, stubSets, log, hattach⟩ := m.attachStubs_eq registry sink
    exact ages_of_tracers (by rw [perform, hattach]) fun hm => hm.attachStubs registry sink
  | detach stubs =>
    obtain ⟨methods, doubleHandler, stubSets, hdetach⟩ := m.detachStubs_eq stubs
    exact ages_of_tracers (by rw [perform, hdetach]) fun hm => hm.detachStubs stubs
  | openStore | enterTestCase | leaveTestCase =>
    exact ages_of_tracers rfl fun hm => ⟨hm.subscribers, hm.records⟩

variable {plan : Nat → Machine → Operation}

/-- **Programs** make no tracer younger, whatever the host does while they run. -/
theorem isFrame_ages (hplan : ∀ number m k c, plan number m = .observe k c → c.IsWellFlagged) :
    IsFrame Ages (.performing plan) where
  refl _ := ages_of_tracers rfl id
  trans := .trans
  heap _ _ := ages_of_tracers rfl fun hm => ⟨hm.subscribers, hm.records⟩
  callback number m := m.ages_perform (hplan number m)
  notify := ages_notify
  deliver m sink c := by
    have horder := m.keepsOrder_deliver sink c
    refine ages_of_keepsOrder ?_ horder
    rw [deliver]
    split <;> rfl
  recording m tracer _ _ _ _ :=
    ages_of_state rfl (fun _ => rfl) (m.keepsOrder_record tracer (by rintro ⟨⟩))
  recordEnded m tracer index o :=
    ages_of_state rfl (fun _ => rfl) (m.keepsOrder_recordEnded tracer index o)

/-! ### Sessions -/

/-- The machines of a session on which its host may ask a tracer something after a moment: the one
right after the moment, those of the moments that follow, and the one at the end. -/
inductive Later (next : Machine) (trace : List Moment) (last : Machine) : Machine → Prop
  | next : Later next trace last next
  | amid {moment : Moment} (h : moment ∈ trace) : Later next trace last moment.machine
  | last : Later next trace last last

private theorem IsFrame.later {R : Machine → Machine → Prop} {host : Host} (hR : IsFrame R host)
    {trace : List Moment} (h : Trail R host m trace n) {l : Machine} (hl : Later m trace n l) :
    R m l := by
  cases hl with
  | next => exact hR.refl m
  | amid hmem => exact hR.machine h hmem
  | last => exact hR.related h

/-- **The life of a tracer.** At any moment of a session, also while methods are running, let the
host perform an operation on a tracer. A start that is refused changes nothing, and after a start
or a stop all starts are refused. The first stop returns exactly the real ones of the captured
calls, in order; the captured calls are the records that were made for the tracer or handed in so
far, one by one. And whatever happens after that stop, the tracer gives the same calls and the same
numbers whenever it is asked. -/
theorem Built.tracer_lifecycle (hm : m.Built)
    (hplan : ∀ number m k c, plan number m = .observe k c → c.IsWellFlagged) {depth : Nat}
    {program : Procedure} {before after : List Moment} {now : Machine} {number : Nat}
    (htrace : m.executionTrace (.performing plan) depth program =
      before ++ .hosted now number :: after)
    {k : Nat} {t : Tracer} (ht : now.tracers[k]? = some t) :
    let later := Later (now.perform (plan number now)) after
      (m.execute (.performing plan) depth program).1
    (∀ n e, now.startTracer k = (n, .error e) → n = now) ∧
      (plan number now = .start k ∨ plan number now = .stop k →
        ∀ n, later n → n.startTracer k = (n, .error .tracerAlreadyStarted)) ∧
      (plan number now = .stop k → t.isOpen = true →
        ∃ stopped calls stats,
          now.stopTracer k = .ok (stopped, calls) ∧
          calls = t.captured.filter t.filter.isReal ∧
          List.Forall₂ Origin.Describes (originsOf plan before k) t.captured ∧
          stats.Counts t.filter t.captured ∧
          ∀ n, later n → n.HasStopped k calls stats) := by
  intro later
  have hframe := isFrame_ages hplan
  have htrail := hframe.trail m depth program
  have hsoundTrail := hm.isSound.execute plan depth program
  rw [htrace] at htrail hsoundTrail
  have hnow : Moment.hosted now number ∈ before ++ .hosted now number :: after := by simp
  have horderly : now.IsOrderly := (hframe.machine htrail hnow).isOrderly hm.isOrderly
  have hsound : now.IsSound (originsOf plan before) := hsoundTrail.isSound_machine
  -- What the operation has made of the tracer can be followed to all later machines.
  have hlater (n : Machine) (hn : later n) : Ages (now.perform (plan number now)) n :=
    hframe.later htrail.next hn
  refine ⟨fun n e => eq_of_startTracer_error, fun hop n hn => ?_, fun hop hopen => ?_⟩
  · obtain ⟨t', ht', hstate'⟩ : ∃ t' : Tracer,
        (now.perform (plan number now)).tracers[k]? = some t' ∧ t'.state ≠ .ready := by
      rcases hop with hop | hop
      · rw [hop]
        exact exists_ne_ready_startTracer ht
      · obtain ⟨stopped, t', calls, stats, hstop, ht', hstate'⟩ := horderly.exists_stopTracer ht
        rw [hop, perform, hstop]
        exact ⟨t', ht', by simp [hstate']⟩
    obtain ⟨t'', ht'', hbecome⟩ := (hlater n hn).tracer k t' ht'
    exact startTracer_of_ne_ready ht'' (hbecome.ne_ready hstate')
  · have hcaptured := t.captured_of_isOpen hopen
    obtain ⟨stopped, t', stats, hstop, ht', hstate', hcounts⟩ :=
      stopTracer_of_isOpen ht hopen (hcaptured ▸ horderly.records k t ht)
    refine ⟨stopped, _, stats, hstop, rfl, hcaptured ▸ (hsound.tracer k t ht).records hopen,
      hcounts, fun n hn => ?_⟩
    have hages := hlater n hn
    rw [hop, perform, hstop] at hages
    obtain ⟨t'', ht'', hbecome⟩ := hages.tracer k t' ht'
    rw [hstate'] at hbecome
    exact hasStopped_of_state ht'' hbecome

end Machine

/-! ### A tracer that is stopped amid a call -/

/-- Traces a reception, stops amid a welcome, and then hands in a further record. -/
def roundup : Nat → Machine → Operation
  | 0, _ => .addTracer .events .standard
  | 1, _ => .stop 0
  | 2, _ => .observe 0 { target := .typeItself "Greeter", method := "greet", arguments := [] }
  | 3, _ => .register 0 (.typeItself "Greeter") ["greet", "welcome"]
  | _, _ => .start 0

/-- A program that greets and welcomes, after a tracer has been set up. -/
def tour : Procedure :=
  .callback 0 <| .callback 3 <| .callback 4 <|
    .send (.type "Greeter") "greet" [.str "Bob"] fun _ =>
      .send (.type "Greeter") "welcome" [] .finish

/-- All that is handed in is well flagged. -/
theorem isWellFlagged_roundup (number : Nat) (m : Machine) (k : Nat) (c : Call)
    (h : roundup number m = .observe k c) : c.IsWellFlagged := by
  rcases number with _ | _ | _ | _ | number
  · cases h
  · cases h
  · cases h
    exact nofun
  · cases h
  · cases h

/-- When the tracer is stopped, the greeting has ended and the welcome is still running. In the end
the tracer gives these two calls. -/
theorem tracer_lifecycle_of_tour :
    ∃ (before after : List Moment) (now : Machine) (t : Tracer),
      reception.executionTrace (.performing roundup) 2 tour = before ++ .hosted now 1 :: after ∧
      now.tracers[0]? = some t ∧ t.isOpen = true ∧
      (t.captured.map (·.isCompleted)) = [true, false] ∧
      (reception.execute (.performing roundup) 2 tour).1.startTracer 0 =
        ((reception.execute (.performing roundup) 2 tour).1, .error .tracerAlreadyStarted) ∧
      ∃ calls stats, calls.length = 2 ∧ stats.Counts t.filter t.captured ∧
        (reception.execute (.performing roundup) 2 tour).1.HasStopped 0 calls stats := by
  let trace := reception.executionTrace (.performing roundup) 2 tour
  refine ⟨trace.take 5, _, _, _, (List.take_append_drop 5 trace).symm, rfl, rfl, rfl, ?_⟩
  obtain ⟨-, hstart, hstop⟩ := reception_built.tracer_lifecycle (k := 0) isWellFlagged_roundup
    (List.take_append_drop 5 trace).symm rfl
  obtain ⟨stopped, calls, stats, -, rfl, -, hcounts, hlater⟩ := hstop rfl rfl
  exact ⟨hstart (Or.inr rfl) _ .last, _, stats, rfl, hcounts, hlater _ .last⟩

end MockAudit
