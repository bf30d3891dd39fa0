import MockAudit.Proofs.Agreement
import MockAudit.Proofs.Building
import MockAudit.Proofs.Filtering
import MockAudit.Proofs.Honesty
import MockAudit.Proofs.Session

/-!
# Ground truth without stubs

What a tracer returns when it is stopped is taken as the truth about real calls. In every session,
however stubs and recorders have been put over each other and taken off again, none of the returned
records was made for a stub, and no test double flows through any of them
(`Machine.Built.stopTracer_genuine`).

The invariant (`Machine.IsSound`) has two sides. The table of implementations is honest, and so is
all that may be put back into it. And the records of every tracer match their origins one by one:
apart from result and error they are as they were made, and a record made for a stub has the
location of a stub.

## Main definitions

* `Origin.Describes`: what a record has in common with its origin.
* `Machine.IsSound`: the invariant of sessions.
* `SoundTrail`: a trace along which the invariant holds.
* `Machine.Stops`: a tracer of a session is stopped, between two messages or amid one.
* `Origin.IsGenuine`: a record of something real.

## Main results

* `Machine.IsSound.perform`: operations keep the invariant.
* `Machine.answer_soundly`, `Machine.IsSound.execute`: messages and programs keep the invariant.
* `Machine.Built.stopTracer_genuine`: no record that a stopped tracer returns was made for a stub.
-/

namespace MockAudit

/-! ### Records and their origins -/

/-- A record is as its origin made it, apart from result and error, and if a stub was about to run,
it has the location of stubs. -/
structure Origin.Describes (o : Origin) (c : Call) : Prop where
  record : c = { o.opening with result := c.result, raised := c.raised }
  location : ∀ implementation, o.ran = some implementation →
    implementation.runsStub = true → c.location = some stubLocation

private theorem Origin.describes_opening {o : Origin}
    (h : ∀ implementation, o.ran = some implementation →
      implementation.runsStub = true → o.opening.location = some stubLocation) :
    o.Describes o.opening :=
  ⟨rfl, h⟩

/-- The end of a call does not change what its record was made for. -/
theorem Origin.Describes.ended {o : Origin} {c : Call} (h : o.Describes c) (outcome : Outcome) :
    o.Describes (Capture.ended c outcome) := by
  rw [Capture.ended_eq]
  exact ⟨congrArg (fun c' : Call => { c' with
    result := (Capture.ended c outcome).result, raised := (Capture.ended c outcome).raised })
    h.record, h.location⟩

private theorem forall₂_describes_modify {origins : List Origin} {records : List Call}
    (h : List.Forall₂ Origin.Describes origins records) (index : Nat) (o : Outcome) :
    List.Forall₂ Origin.Describes origins (records.modify index (Capture.ended · o)) := by
  rw [← List.modify_id index origins]
  exact forall₂_modify (fun _ _ hr => hr.ended o) h index

/-! ### Tracers -/

/-- What was displaced in order to watch. -/
def Interception.displaced : Interception → List Displaced
  | .wrapped displaced => displaced
  | .subscribed _ => []

/-- What a running tracer has displaced. -/
def Tracer.displaced (t : Tracer) : List Displaced :=
  match t.state with
  | .running installation => installation.displaced
  | _ => []

/-- The calls a tracer has been given, each described by its origin. A tracer that was stopped has
kept those that its filter took as real. -/
def Tracer.Accounts (t : Tracer) (origins : List Origin) : Prop :=
  ∃ captured, List.Forall₂ Origin.Describes origins captured ∧
    match t.state with
    | .stopped calls _ => t.filter.keepReal captured = .ok calls
    | _ => t.capture.records = captured

/-- A tracer that may put back only honest entries and accounts for its records. -/
structure Tracer.IsSound (origins : List Origin) (t : Tracer) : Prop where
  displaced : ∀ d ∈ t.displaced, d.Honest
  accounts : t.Accounts origins

namespace Tracer.IsSound

variable {origins : List Origin} {t : Tracer}

theorem records (h : t.IsSound origins) (hopen : t.isOpen = true) :
    List.Forall₂ Origin.Describes origins t.capture.records := by
  obtain ⟨captured, hcaptured, hstate⟩ := h.accounts
  obtain ⟨strategy, filter, watched, capture, state⟩ := t
  cases state with
  | ready | running installation => exact hstate ▸ hcaptured
  | stopped calls stats => cases hopen

/-- A tracer may be given more records if it accounts for them; one that was stopped does not
notice. -/
theorem withCapture (h : t.IsSound origins) {added : List Origin} {capture : Capture}
    (hcapture : List.Forall₂ Origin.Describes origins t.capture.records →
      List.Forall₂ Origin.Describes (origins ++ added) capture.records) :
    Tracer.IsSound (origins ++ if t.isOpen then added else []) { t with capture } := by
  refine ⟨h.displaced, ?_⟩
  have hrecords := h.records
  obtain ⟨captured, hcaptured, hstate⟩ := h.accounts
  obtain ⟨strategy, filter, watched, capture', state⟩ := t
  cases state with
  | ready | running installation => exact ⟨capture.records, hcapture (hrecords rfl), rfl⟩
  | stopped calls stats => exact ⟨captured, (List.append_nil origins).symm ▸ hcaptured, hstate⟩

theorem running (h : t.IsSound origins) (hready : t.state = .ready) {i : Interception}
    (hi : ∀ d ∈ i.displaced, d.Honest) : Tracer.IsSound origins { t with state := .running i } := by
  refine ⟨hi, t.capture.records, h.records ?_, rfl⟩
  rw [isOpen, hready]

/-- A tracer that is stopped keeps what its filter takes as real of the records it accounts for. -/
theorem stopped (h : t.IsSound origins) (hopen : t.isOpen = true) {calls : List Call}
    (hcalls : t.filter.keepReal t.capture.records = .ok calls) (stats : CaptureCounts)
    (capture : Capture) :
    Tracer.IsSound origins { t with capture, state := .stopped calls stats } :=
  ⟨by simp [Tracer.displaced], t.capture.records, h.records hopen, hcalls⟩

end Tracer.IsSound

/-! ### The invariant -/

namespace Machine

/-- The invariant of sessions: all entries that are installed or may be put back are honest, and
every tracer accounts for its records by their origins. -/
structure IsSound (ledger : Ledger) (m : Machine) : Prop where
  methods : m.methods.Honest
  tracer : ∀ k (t : Tracer), m.tracers[k]? = some t → t.IsSound (ledger k)
  unused : ∀ k, m.tracers[k]? = none → ledger k = []
  stubSets : ∀ set, some set ∈ m.stubSets → ∀ d ∈ set.displaced, d.Honest

namespace IsSound

variable {ledger : Ledger} {m : Machine}

/-- Only the entries, the tracers and the sets of stubs matter. -/
theorem congr (h : m.IsSound ledger) {n : Machine} (hmethods : n.methods = m.methods)
    (htracers : n.tracers = m.tracers) (hstubSets : n.stubSets = m.stubSets) :
    n.IsSound ledger :=
  ⟨hmethods ▸ h.methods, htracers ▸ h.tracer, htracers ▸ h.unused, hstubSets ▸ h.stubSets⟩

/-- Changing one tracer keeps the invariant if the tracer accounts for what it is given. -/
theorem modifyTracer (h : m.IsSound ledger) (k : Nat) (f : Tracer → Tracer) (origins : List Origin)
    (hf : ∀ t, m.tracers[k]? = some t →
      (f t).IsSound (ledger k ++ if t.isOpen then origins else [])) :
    (m.modifyTracer k f).IsSound
      (ledger.add (m.openPart (.ofTracer k origins))) := by
  refine ⟨h.methods, fun j t ht => ?_, fun j hj => ?_, h.stubSets⟩
  · rw [Machine.modifyTracer, List.getElem?_modify] at ht
    obtain ⟨t', ht', rfl⟩ := Option.map_eq_some_iff.mp ht
    by_cases hjk : j = k
    · subst hjk
      simpa [Ledger.add, Ledger.ofTracer, openPart, ht'] using hf t' ht'
    · simpa [Ledger.add, Ledger.ofTracer, openPart, hjk, Ne.symm hjk] using h.tracer j t' ht'
  · rw [Machine.modifyTracer, List.getElem?_modify] at hj
    have hj' : m.tracers[j]? = none := Option.map_eq_none_iff.mp hj
    simp [Ledger.add, openPart, hj', h.unused j hj']

theorem modifyTracer_same (h : m.IsSound ledger) (k : Nat) (f : Tracer → Tracer)
    (hf : ∀ t, m.tracers[k]? = some t → (f t).IsSound (ledger k)) :
    (m.modifyTracer k f).IsSound ledger := by
  have h' := h.modifyTracer k f [] fun t ht => by simpa using hf t ht
  rwa [Ledger.ofTracer_nil, openPart_empty, Ledger.add_empty] at h'

theorem record (h : m.IsSound ledger) (k : Nat) {o : Origin} (ho : o.Describes o.opening) :
    (m.modifyTracer k fun t => { t with capture := t.capture.record o.opening }).IsSound
      (ledger.add (m.openPart (.ofTracer k [o]))) :=
  h.modifyTracer k _ _ fun _ ht =>
    (h.tracer k _ ht).withCapture fun hrecords => List.rel_append hrecords (.cons ho .nil)

end IsSound

/-! ### Events -/

/-- Telling an observer about an event keeps the invariant, if a record made for a stub has the
location of stubs. -/
theorem IsSound.tell {ledger : Ledger} {m : Machine} (h : m.IsSound ledger) {e : Event}
    (ran : Implementation)
    (hran : ∀ watched testCase r, Capture.newRecord? watched testCase e = some r →
      ran.runsStub = true → r.location = some stubLocation) (observer : Nat) :
    (m.tell e observer).IsSound (ledger.add (m.openPart (m.heard e ran observer))) := by
  rcases m.tell_cases e observer with ⟨hobserver, htell⟩ | ⟨events, hobserver, htell⟩ |
    ⟨k, watched, log, hobserver, htell⟩
  · rw [htell, heard, hobserver, openPart_empty, Ledger.add_empty]
    exact h
  · rw [htell, heard, hobserver, openPart_empty, Ledger.add_empty]
    exact h.congr rfl rfl rfl
  · rw [htell, heard, hobserver]
    refine (h.modifyTracer k _ _ fun t ht => ?_).congr rfl rfl rfl
    refine (h.tracer k t ht).withCapture fun hrecords => ?_
    rcases t.capture.observe_records watched m.testCase e with heq | ⟨hnone, index, o, heq⟩
    · rw [heq]
      refine List.rel_append hrecords ?_
      rw [List.forall₂_map_left_iff, List.forall₂_same]
      intro r hr
      refine Origin.describes_opening (o := ⟨r, some ran⟩) ?_
      rintro _ ⟨⟩
      exact hran watched m.testCase r (Option.mem_toList.mp hr)
    · rw [hnone, Option.toList_none, List.map_nil, List.append_nil, heq]
      exact forall₂_describes_modify hrecords index o

private theorem heard_tell (m : Machine) (e : Event) (ran : Implementation)
    (observer observer' : Nat) :
    (m.tell e observer).heard e ran observer' = m.heard e ran observer' := by
  rcases m.tell_cases e observer with ⟨-, htell⟩ | ⟨events, hobserver, htell⟩ |
    ⟨k, watched, log, -, htell⟩
  · rw [htell]
  · rw [htell, heard, heard, List.getElem?_set']
    split_ifs with hsame
    · subst hsame
      rw [hobserver]
      rfl
    · rfl
  · rw [htell]
    rfl

private theorem openPart_tell (m : Machine) (e : Event) (observer : Nat) (ledger : Ledger) :
    (m.tell e observer).openPart ledger = m.openPart ledger := by
  rcases m.tell_cases e observer with ⟨-, htell⟩ | ⟨events, -, htell⟩ | ⟨k, watched, log, -, htell⟩
  · rw [htell]
  · rw [htell]
    rfl
  · rw [htell]
    funext j
    rw [openPart, openPart, List.getElem?_modify]
    cases m.tracers[j]? with
    | none => rfl
    | some t =>
      by_cases hk : k = j
      · subst hk
        simp only [Option.map_eq_map, Option.map_some, if_true]
        rfl
      · simp [hk]

theorem IsSound.notify {ledger : Ledger} {m : Machine} (h : m.IsSound ledger) {e : Event}
    (ran : Implementation)
    (hran : ∀ watched testCase r, Capture.newRecord? watched testCase e = some r →
      ran.runsStub = true → r.location = some stubLocation) (audience : List Nat) :
    (m.notify audience e).IsSound (ledger.add (m.openPart (m.heardBy e ran audience))) := by
  induction audience generalizing m ledger with
  | nil => simpa [Machine.notify, heardBy] using h
  | cons observer audience ih =>
    have h' := ih (h.tell ran hran observer)
    have hheard : (m.tell e observer).heardBy e ran audience = m.heardBy e ran audience := by
      simp only [heardBy, heard_tell]
    rw [hheard, openPart_tell, Ledger.add_assoc, ← openPart_add] at h'
    exact h'

/-! ### Operations -/

namespace IsSound

variable {ledger : Ledger} {m : Machine}

theorem addTracer (h : m.IsSound ledger) (strategy : Strategy) (filter : ArtifactFilter) :
    (m.addTracer { strategy, filter }).1.IsSound ledger := by
  refine ⟨h.methods, fun k t ht => ?_, fun k hk => h.unused k ?_, h.stubSets⟩
  · replace ht : (m.tracers ++ [⟨strategy, filter, [], {}, .ready⟩])[k]? = some t := ht
    rw [List.getElem?_append] at ht
    split_ifs at ht with hk
    · exact h.tracer k t ht
    · cases List.mem_singleton.mp (List.mem_of_getElem? ht)
      rw [h.unused k (List.getElem?_eq_none (Nat.le_of_not_lt hk))]
      exact ⟨by simp [Tracer.displaced], [], .nil, rfl⟩
  · replace hk : (m.tracers ++ [⟨strategy, filter, [], {}, .ready⟩])[k]? = none := hk
    rw [List.getElem?_eq_none_iff, List.length_append] at hk
    exact List.getElem?_eq_none (by omega)

/-- Beginning to watch keeps the invariant and the tracers, and displaces honest entries. -/
theorem intercept (h : m.IsSound ledger) (k : Nat) (t : Tracer) :
    (m.intercept k t).1.IsSound ledger ∧ (m.intercept k t).1.tracers = m.tracers ∧
      ∀ d ∈ (m.intercept k t).2.displaced, d.Honest := by
  rw [Machine.intercept]
  cases t.strategy with
  | wrap =>
    obtain ⟨methods, log, displaced, hmethods, hdisplaced, heq⟩ :=
      foldl_wrap_honest k t.watched.keys m [] h.methods (by simp)
    rw [heq]
    exact ⟨⟨hmethods, h.tracer, h.unused, h.stubSets⟩, rfl, hdisplaced⟩
  | events => exact ⟨h.congr rfl rfl rfl, rfl, by simp [Interception.displaced]⟩

theorem startTracer (h : m.IsSound ledger) (k : Nat) : (m.startTracer k).1.IsSound ledger := by
  rcases m.startTracer_cases k with heq | ⟨t, lines, ht, hready, heq⟩
  · rwa [heq]
  · obtain ⟨hm, htracers, hdisplaced⟩ := h.intercept k t
    have hm' : ((m.intercept k t).1.write lines).IsSound ledger := hm.congr rfl rfl rfl
    rw [heq]
    refine hm'.modifyTracer_same k _ fun t' ht' => ?_
    replace ht' : (m.intercept k t).1.tracers[k]? = some t' := ht'
    rw [htracers, ht] at ht'
    cases ht'
    exact (h.tracer k t ht).running hready hdisplaced

theorem release (h : m.IsSound ledger) {i : Interception} (hi : ∀ d ∈ i.displaced, d.Honest) :
    (m.release i).IsSound ledger ∧ (m.release i).tracers = m.tracers := by
  cases i with
  | wrapped displaced =>
    rw [Machine.release, restoreAll_eq]
    exact ⟨⟨h.methods.restore hi, h.tracer, h.unused, h.stubSets⟩, rfl⟩
  | subscribed observer => exact ⟨h.congr rfl rfl rfl, rfl⟩

theorem stopTracer (h : m.IsSound ledger) {k : Nat} {m' : Machine} {calls : List Call}
    (hstop : m.stopTracer k = .ok (m', calls)) : m'.IsSound ledger := by
  rcases stopTracer_cases hstop with ⟨-, rfl, -⟩ | ⟨t, stats, -, -, rfl⟩ |
    ⟨t, m₁, lines, stats, ht, hm₁, hcalls, rfl⟩
  · exact h
  · exact h
  · obtain ⟨hopen, hsound, htracers⟩ : t.isOpen = true ∧ m₁.IsSound ledger ∧
        m₁.tracers = m.tracers := by
      rcases hm₁ with ⟨hready, rfl⟩ | ⟨i, hrunning, rfl⟩
      · exact ⟨by rw [Tracer.isOpen, hready], h, rfl⟩
      · have hi : ∀ d ∈ i.displaced, d.Honest := by
          have hdisplaced := (h.tracer k t ht).displaced
          rwa [Tracer.displaced, hrunning] at hdisplaced
        exact ⟨by rw [Tracer.isOpen, hrunning], h.release hi⟩
    have hsound' : (m₁.write lines).IsSound ledger := hsound.congr rfl rfl rfl
    refine hsound'.modifyTracer_same k _ fun t' ht' => ?_
    replace ht' : m₁.tracers[k]? = some t' := ht'
    rw [htracers, ht] at ht'
    cases ht'
    exact (h.tracer k t ht).stopped hopen hcalls stats _

theorem attachStubs (h : m.IsSound ledger) (r : Registry) (sink : Sink) :
    (m.attachStubs r sink).1.IsSound ledger := by
  obtain ⟨methods, doubleHandler, log, hmethods, heq, hdisplaced⟩ :=
    installStubs_honest m r sink h.methods
  obtain ⟨m₁, set, hinstall⟩ : ∃ m₁ set, m.installStubs r sink = (m₁, set) := ⟨_, _, rfl⟩
  rw [hinstall] at heq hdisplaced
  subst heq
  rw [Machine.attachStubs, hinstall]
  refine ⟨hmethods, h.tracer, h.unused, fun set' hset' => ?_⟩
  rcases List.mem_append.mp hset' with hmem | hmem
  · exact h.stubSets set' hmem
  · cases List.mem_singleton.mp hmem
    exact hdisplaced

theorem detachStubs (h : m.IsSound ledger) (number : Nat) :
    (m.detachStubs number).IsSound ledger := by
  rw [Machine.detachStubs]
  cases hset : m.stubSets[number]?.join with
  | none => exact h
  | some set =>
    have hmem : some set ∈ m.stubSets :=
      List.mem_of_getElem? (Option.join_eq_some_iff.mp hset)
    simp only [m.uninstallStubs_eq set]
    refine ⟨h.methods.restore (h.stubSets set hmem), h.tracer, h.unused, fun set' hset' => ?_⟩
    rcases List.mem_or_eq_of_mem_set hset' with hold | hnew
    · exact h.stubSets set' hold
    · cases hnew

/-- An operation keeps the invariant. -/
theorem perform (h : m.IsSound ledger) (op : Operation) :
    (m.perform op).IsSound (ledger.add (m.openPart op.handedIn)) := by
  cases op with
  | observe k c => exact h.record (o := ⟨c, none⟩) k (Origin.describes_opening (by simp))
  | addTracer strategy filter =>
    simpa [Operation.handedIn, Machine.perform] using h.addTracer strategy filter
  | register k target methods =>
    simp only [Operation.handedIn, openPart_empty, Ledger.add_empty]
    exact h.modifyTracer_same k _ fun t ht =>
      ⟨(h.tracer k t ht).displaced, (h.tracer k t ht).accounts⟩
  | start k => simpa [Operation.handedIn, Machine.perform] using h.startTracer k
  | stop k =>
    simp only [Operation.handedIn, openPart_empty, Ledger.add_empty, Machine.perform]
    split
    · exact h.stopTracer ‹_›
    · exact h
  | attach r sink => simpa [Operation.handedIn, Machine.perform] using h.attachStubs r sink
  | detach number => simpa [Operation.handedIn, Machine.perform] using h.detachStubs number
  | openStore | enterTestCase context | leaveTestCase =>
    simp only [Operation.handedIn, openPart_empty, Ledger.add_empty]
    exact h.congr rfl rfl rfl

end IsSound

/-! ### Trails -/

section

variable {plan : Nat → Machine → Operation} {ledger : Ledger} {m m' : Machine}

/-- A trace at whose moments, and at the machine at its end, the invariant holds with the origins
that the moments before have added to a ledger. -/
inductive SoundTrail (plan : Nat → Machine → Operation) : Ledger → List Moment → Machine → Prop
  | nil {ledger : Ledger} {m : Machine} (h : m.IsSound ledger) : SoundTrail plan ledger [] m
  | cons {ledger : Ledger} {moment : Moment} {trace : List Moment} {m : Machine}
    (h : moment.machine.IsSound ledger)
    (rest : SoundTrail plan (ledger.add (moment.origins plan)) trace m) :
    SoundTrail plan ledger (moment :: trace) m

namespace SoundTrail

theorem append {trace trace' : List Moment} (h : SoundTrail plan ledger trace m)
    (h' : ∀ ledger, m.IsSound ledger → SoundTrail plan ledger trace' m') :
    SoundTrail plan ledger (trace ++ trace') m' := by
  induction h with
  | nil h => exact h' _ h
  | cons h rest ih => exact .cons h (ih h')

theorem isSound {trace : List Moment} (h : SoundTrail plan ledger trace m) :
    m.IsSound (ledger.add (originsOf plan trace)) := by
  induction h with
  | nil h => rwa [originsOf_nil, Ledger.add_empty]
  | cons h rest ih => rwa [originsOf_cons, ← Ledger.add_assoc]

theorem isSound_machine {before after : List Moment} {moment : Moment}
    (h : SoundTrail plan ledger (before ++ moment :: after) m) :
    moment.machine.IsSound (ledger.add (originsOf plan before)) := by
  induction before generalizing ledger with
  | nil =>
    obtain - | ⟨h, -⟩ := h
    rwa [originsOf_nil, Ledger.add_empty]
  | cons moment' before ih =>
    obtain - | ⟨-, rest⟩ := h
    rw [originsOf_cons, ← Ledger.add_assoc]
    exact ih rest

/-- What goes on with the outcome of a reply continues its trail. -/
theorem andThen {x : Reply} {trace : List Moment} (h : SoundTrail plan ledger trace x.1)
    {f : Machine → Outcome → Reply} {rest : Machine → Outcome → List Moment}
    (hf : ∀ m o ledger, m.IsSound ledger → SoundTrail plan ledger (rest m o) (f m o).1) :
    SoundTrail plan ledger (trace ++ x.traceThen rest) (x.andThen f).1 := by
  obtain ⟨m, _ | o⟩ := x
  · exact h.append fun ledger h => .nil h
  · exact h.append (hf m o)

theorem andThen_silent {x : Reply} {trace : List Moment} (h : SoundTrail plan ledger trace x.1)
    {f : Machine → Outcome → Reply}
    (hf : ∀ m o ledger, m.IsSound ledger → (f m o).1.IsSound ledger) :
    SoundTrail plan ledger trace (x.andThen f).1 := by
  obtain ⟨m, _ | o⟩ := x
  · exact h
  · rw [← List.append_nil trace]
    exact h.append fun ledger h => .nil (hf m o ledger h)

end SoundTrail

end

/-! ### Runs -/

section

variable {plan : Nat → Machine → Operation} {answer : Machine → Message → Reply}
  {traced : Machine → Message → List Moment} {ledger : Ledger} {m : Machine}

/-- The traces of messages are sound trails if the invariant holds at their begin. -/
def AnswersSoundly (plan : Nat → Machine → Operation) (answer : Machine → Message → Reply)
    (traced : Machine → Message → List Moment) : Prop :=
  ∀ (ledger : Ledger) (m : Machine) (message : Message), m.IsSound ledger →
    SoundTrail plan ledger (traced m message) (answer m message).1

/-- A procedure has a sound trail if its messages have. -/
theorem IsSound.runProcedure (hanswer : AnswersSoundly plan answer traced) (p : Procedure)
    (h : m.IsSound ledger) :
    SoundTrail plan ledger (p.trace (.performing plan) answer traced m)
      (p.run (.performing plan) answer m).1 := by
  induction p generalizing m ledger with
  | finish o => exact .nil h
  | onHeap work next ih => exact ih _ (h.congr rfl rfl rfl)
  | callback number next ih => exact .cons h (ih (h.perform (plan number m)))
  | send receiver method args next ih =>
    rw [Procedure.run_send]
    exact (hanswer ledger m _ h).andThen fun m' o ledger' h' => ih o h'
  | construct type args next ih =>
    rw [Procedure.run_construct]
    exact (hanswer ledger m _ h).andThen fun m' o ledger' h' => ih o h'
  | allocate type args next ih =>
    rw [Procedure.run_allocate]
    exact (hanswer ledger m _ h).andThen fun m' o ledger' h' => ih o h'

theorem IsSound.recordEnded (h : m.IsSound ledger) (k index : Nat) (o : Outcome) :
    (m.recordEnded k index o).IsSound ledger := by
  have hfinish : (m.modifyTracer k fun t => { t with capture := t.capture.finish index o }).IsSound
      ledger := by
    refine h.modifyTracer_same k _ fun t ht => ?_
    have hcapture : Tracer.IsSound (ledger k ++ if t.isOpen then [] else [])
        { t with capture := t.capture.finish index o } :=
      (h.tracer k t ht).withCapture fun hrecords => by
        rw [Capture.finish_records, List.append_nil]
        exact forall₂_describes_modify hrecords index o
    rwa [ite_self, List.append_nil] at hcapture
  exact hfinish.congr rfl rfl rfl

/-- An honest implementation has a sound trail if messages have. -/
theorem IsSound.runImplementation (hanswer : AnswersSoundly plan answer traced)
    (i : Implementation) (hi : i.Honest) (h : m.IsSound ledger) (receiver : Value)
    (args : List Value) :
    SoundTrail plan ledger (i.trace (.performing plan) answer traced m receiver args)
      (i.run (.performing plan) answer m receiver args).1 := by
  induction i generalizing m ledger with
  | code body => exact h.runProcedure hanswer (body receiver args)
  | stubbed key stubs sink =>
    refine .nil ?_
    rw [Implementation.run]
    cases fittingStub? stubs args with
    | none => exact h
    | some stub =>
      obtain ⟨stores, log, heq⟩ := m.answerFrom_eq stub receiver args sink
      rw [heq]
      exact h.congr rfl rfl rfl
  | recorder k key shape location inner ih =>
    rw [Implementation.run_recorder]
    have hrecord := h.record (o := ⟨m.recordedCall key shape location args, some inner⟩) k <|
      Origin.describes_opening <| by
        rintro _ ⟨⟩ hstub
        exact congrArg some (hi.1 hstub)
    exact (SoundTrail.cons h (ih hi.2 hrecord)).andThen_silent
      fun m' o ledger' h' => h'.recordEnded k _ o

/-! ### Dispatches and messages -/

private theorem location_newRecord? {watched : WatchList} {testCase : Option String}
    {owner : Target} {e : LocatedCode} {receiver : Value} {method : String} {args : List Value}
    {r : Call}
    (h : Capture.newRecord? watched testCase (m.calledEvent owner e receiver method args) =
      some r) : r.location = some e.location := by
  obtain ⟨target, -, rfl⟩ := Option.map_eq_some_iff.mp h
  rfl

private theorem newRecord?_ofOutcome (watched : WatchList) (testCase : Option String)
    (owner : Target) (method : String) (o : Outcome) :
    Capture.newRecord? watched testCase (.ofOutcome owner method o) = none := by
  cases o <;> rfl

private theorem heardBy_ofOutcome (owner : Target) (method : String) (o : Outcome)
    (ran : Implementation) (audience : List Nat) :
    m.heardBy (.ofOutcome owner method o) ran audience = .empty := by
  have hheard (observer : Nat) : m.heard (.ofOutcome owner method o) ran observer = .empty := by
    rw [heard]
    split
    · rw [newRecord?_ofOutcome, Option.toList_none, List.map_nil, Ledger.ofTracer_nil]
    · rfl
  induction audience with
  | nil => rfl
  | cons observer audience ih =>
    rw [heardBy, List.foldr_cons, ← heardBy, ih, hheard, Ledger.add_empty]

theorem IsSound.notify_ended (h : m.IsSound ledger) (audience : List Nat) (owner : Target)
    (method : String) (o : Outcome) :
    (m.notify audience (.ofOutcome owner method o)).IsSound ledger := by
  have hended := h.notify (e := .ofOutcome owner method o)
    (.stubbed (owner, method) [] ⟨.lenient, none⟩)
    (fun watched testCase r hr => by
      rw [newRecord?_ofOutcome] at hr
      cases hr) audience
  rwa [heardBy_ofOutcome, openPart_empty, Ledger.add_empty] at hended

/-- An honest entry that is enacted has a sound trail if messages have. -/
theorem IsSound.enact (hanswer : AnswersSoundly plan answer traced) (h : m.IsSound ledger)
    {e : LocatedCode} (he : e.Honest) (owner : Target) (receiver : Value) (method : String)
    (args : List Value) :
    SoundTrail plan ledger (.began m owner e receiver method args ::
        e.implementation.trace (.performing plan) answer traced
          (m.notify m.subscribers (m.calledEvent owner e receiver method args)) receiver args)
      (m.enact (.performing plan) answer owner e receiver method args).1 := by
  have hbegan := h.notify (e := m.calledEvent owner e receiver method args) e.implementation
    (fun watched testCase r hr hstub => by
      rw [location_newRecord? hr, he.location hstub]) m.subscribers
  have hrun := hbegan.runImplementation hanswer e.implementation he.implementation receiver args
  rw [Machine.enact]
  exact (SoundTrail.cons h hrun).andThen_silent fun m' o ledger' h' =>
    h'.notify_ended m.subscribers owner method o

theorem IsSound.dispatch (hanswer : AnswersSoundly plan answer traced) (h : m.IsSound ledger)
    (target : Target) (receiver : Value) (method : String) (args : List Value) :
    SoundTrail plan ledger
      (m.dispatchTrace (.performing plan) answer traced target receiver method args)
      (m.dispatch (.performing plan) answer target receiver method args).1 := by
  rw [dispatchTrace]
  cases hresolve : m.resolve target method with
  | none =>
    rw [dispatch_of_resolve_none _ _ hresolve]
    exact .nil h
  | some found =>
    rw [dispatch_of_resolve _ _ hresolve]
    exact h.enact hanswer (honest_of_resolve h.methods hresolve) found.1 receiver method args

theorem IsSound.allocate (hanswer : AnswersSoundly plan answer traced) (h : m.IsSound ledger)
    (type : TypeName) (args : List Value) :
    SoundTrail plan ledger (m.allocateTrace (.performing plan) answer traced type args)
      (m.allocate (.performing plan) answer type args).1 := by
  have h' : (m.allocated type).IsSound ledger := h.congr rfl rfl rfl
  rw [allocateTrace]
  cases hresolve : (m.allocated type).resolve (.instances type) constructorName with
  | none =>
    rw [allocate_of_resolve_none _ _ hresolve, dispatchTrace, hresolve]
    exact .nil h'
  | some found =>
    rw [allocate_of_resolve _ _ hresolve]
    exact (h'.dispatch hanswer _ _ _ _).andThen_silent fun _ _ _ h => h

theorem IsSound.answerDouble (h : m.IsSound ledger) (d : TestDouble) (method : String)
    (args : List Value) : (m.answerDouble d method args).1.IsSound ledger := by
  obtain ⟨stores, log, heq⟩ := m.answerDouble_eq d method args
  rw [heq]
  exact h.congr rfl rfl rfl

/-- Messages have sound trails if the messages they lead to have. -/
theorem AnswersSoundly.handle (hanswer : AnswersSoundly plan answer traced) :
    AnswersSoundly plan (Machine.handle (.performing plan) answer)
      (Machine.handleTrace (.performing plan) answer traced) := by
  intro ledger m message h
  cases message with
  | send receiver method args =>
    cases receiver with
    | double d => exact .nil (h.answerDouble d method args)
    | _ => exact h.dispatch hanswer _ _ method args
  | construct type args =>
    rw [Machine.handle, handleTrace]
    cases m.resolve (.typeItself type) allocatorName with
    | some found => exact h.dispatch hanswer _ _ _ args
    | none => exact h.allocate hanswer type args
  | allocate type args => exact h.allocate hanswer type args

end

/-- Messages have sound trails, however deeply they are nested. -/
theorem answer_soundly (plan : Nat → Machine → Operation) (depth : Nat) :
    AnswersSoundly plan (Machine.answer (.performing plan) depth)
      (Machine.trace (.performing plan) depth) := by
  induction depth with
  | zero => exact fun ledger m message h => .nil h
  | succ depth ih => exact ih.handle

/-- Programs have sound trails. -/
theorem IsSound.execute {ledger : Ledger} {m : Machine} (h : m.IsSound ledger)
    (plan : Nat → Machine → Operation) (depth : Nat) (program : Procedure) :
    SoundTrail plan ledger (m.executionTrace (.performing plan) depth program)
      (m.execute (.performing plan) depth program).1 :=
  h.runProcedure (answer_soundly plan depth) program

/-! ### What tracers return -/

/-- The calls that a tracer returns are kept from records it accounts for. -/
theorem IsSound.keepReal_of_stopTracer {ledger : Ledger} {m m' : Machine} (h : m.IsSound ledger)
    {k : Nat} {calls : List Call} (hstop : m.stopTracer k = .ok (m', calls)) :
    ∃ (filter : ArtifactFilter) (captured : List Call),
      List.Forall₂ Origin.Describes (ledger k) captured ∧ filter.keepReal captured = .ok calls := by
  rcases stopTracer_cases hstop with ⟨hnone, -, rfl⟩ | ⟨t, stats, ht, hstopped, -⟩ |
    ⟨t, m₁, lines, stats, ht, hm₁, hcalls, -⟩
  · rw [h.unused k hnone]
    exact ⟨.standard, [], .nil, rfl⟩
  · obtain ⟨captured, hcaptured, hstate⟩ := (h.tracer k t ht).accounts
    rw [hstopped] at hstate
    exact ⟨t.filter, captured, hcaptured, hstate⟩
  · refine ⟨t.filter, t.capture.records, (h.tracer k t ht).records ?_, hcalls⟩
    rcases hm₁ with ⟨hready, -⟩ | ⟨i, hrunning, -⟩
    · rw [Tracer.isOpen, hready]
    · rw [Tracer.isOpen, hrunning]

end Machine

/-- A record of something real: it was not made for a stub, and no test double flows through it. -/
structure Origin.IsGenuine (o : Origin) (c : Call) : Prop where
  describes : o.Describes c
  noStub : ∀ implementation, o.ran = some implementation → implementation.runsStub = false
  doubleFree : c.IsDoubleFree

/-- What a filter keeps of described records is genuine. -/
theorem Origin.Describes.isGenuine {o : Origin} {c : Call} (h : o.Describes c)
    {filter : ArtifactFilter} (hreal : filter.isArtifact c = .ok false) : o.IsGenuine c := by
  obtain ⟨hlocation, hfree⟩ := ArtifactFilter.isArtifact_eq_false_iff.mp hreal
  refine ⟨h, fun implementation hran => ?_, hfree⟩
  rw [Bool.eq_false_iff]
  intro hstub
  have hignored := hlocation _ (h.location implementation hran hstub)
  simp [ArtifactFilter.ignoresLocation] at hignored

/-- The invariant holds before anything has happened on a machine that was built. -/
theorem Machine.Built.isSound {m : Machine} (h : m.Built) : m.IsSound .empty := by
  obtain ⟨-, -, htracers, hstubSets⟩ := h.unattached
  refine ⟨fun key e he => ?_, ?_, fun _ _ => rfl, ?_⟩
  · obtain ⟨⟨body, hcode⟩, -⟩ := h.entry he
    refine ⟨fun hstub => ?_, by rw [hcode]; trivial⟩
    rw [hcode] at hstub
    cases hstub
  · simp [htracers]
  · simp [hstubSets]

/-- The stops of a tracer during and after a session: the moments before the stop, and the calls it
returns. -/
inductive Machine.Stops (m : Machine) (plan : Nat → Machine → Operation) (depth : Nat)
    (program : Procedure) (tracer : Nat) : List Moment → List Call → Prop
  | during {before after : List Moment} {m₀ m' : Machine} {number : Nat} {calls : List Call}
    (htrace : m.executionTrace (.performing plan) depth program =
      before ++ .hosted m₀ number :: after)
    (hplan : plan number m₀ = .stop tracer) (hstop : m₀.stopTracer tracer = .ok (m', calls)) :
    Stops m plan depth program tracer before calls
  | after {m' : Machine} {calls : List Call}
    (hstop : (m.execute (.performing plan) depth program).1.stopTracer tracer = .ok (m', calls)) :
    Stops m plan depth program tracer (m.executionTrace (.performing plan) depth program) calls

/-- **Ground truth without stubs.** However a session adds, starts and stops tracers, attaches and
detaches sets of stubs and runs programs, between and within each other: the calls that a tracer
returns when it is stopped come, in order, from records that were made for it or handed in before;
none of them was made for an implementation that is a stub in the end, and no test double flows
through any of them. -/
theorem Machine.Built.stopTracer_genuine {m : Machine} (hbuilt : m.Built)
    (plan : Nat → Machine → Operation) (depth : Nat) (program : Procedure) {tracer : Nat}
    {before : List Moment} {calls : List Call}
    (hstop : m.Stops plan depth program tracer before calls) :
    ∃ sources : List Origin, sources.Sublist (originsOf plan before tracer) ∧
      List.Forall₂ Origin.IsGenuine sources calls := by
  have htrail := hbuilt.isSound.execute plan depth program
  obtain ⟨m₀, m', hsound, hcalls⟩ : ∃ m₀ m' : Machine, m₀.IsSound (originsOf plan before) ∧
      m₀.stopTracer tracer = .ok (m', calls) := by
    cases hstop with
    | during htrace hplan hstop =>
      rw [htrace] at htrail
      exact ⟨_, _, htrail.isSound_machine, hstop⟩
    | after hstop => exact ⟨_, _, htrail.isSound, hstop⟩
  obtain ⟨filter, captured, hcaptured, hkeep⟩ := hsound.keepReal_of_stopTracer hcalls
  obtain ⟨sources, hsublist, hsources⟩ := ArtifactFilter.keepReal_forall₂ hcaptured hkeep
  exact ⟨sources, hsublist, hsources.imp fun o c h => h.1.isGenuine h.2⟩

/-! ### A session -/

/-- Traces greetings, and then lets a stub answer them. -/
def rehearsal : Nat → Machine → Operation
  | 0, _ => .addTracer .events .standard
  | 1, _ => .register 0 (.typeItself "Greeter") ["greet"]
  | 2, _ => .start 0
  | _, _ =>
    .attach (Registry.empty.register (Registry.stub (.typeItself "Greeter") "greet" [] none none
      none .nil)) ⟨.lenient, none⟩

/-- A program that greets before and after the stub is in place. -/
def greetings : Procedure :=
  .callback 0 <| .callback 1 <| .callback 2 <|
    .send (.type "Greeter") "greet" [.str "Ada"] fun _ =>
      .callback 3 <| .send (.type "Greeter") "greet" [.str "Ada"] .finish

/-- Of two greetings the one that a stub answered is not returned. -/
theorem stopTracer_genuine_of_rehearsal :
    ∃ calls, greeter.Stops rehearsal 1 greetings 0
        (greeter.executionTrace (.performing rehearsal) 1 greetings) calls ∧
      calls.length = 1 ∧
      ∃ sources : List Origin,
        sources.Sublist (originsOf rehearsal
          (greeter.executionTrace (.performing rehearsal) 1 greetings) 0) ∧
        List.Forall₂ Origin.IsGenuine sources calls := by
  refine ⟨_, .after rfl, rfl, ?_⟩
  exact greeter_built.stopTracer_genuine rehearsal 1 greetings (.after rfl)

end MockAudit
