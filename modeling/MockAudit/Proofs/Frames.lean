import MockAudit.Proofs.Trace

/-!
# Relations that runs respect

Much of what is said about a run compares the machine after it with the machine before: nothing was
taken away, this part is as it was. Such a comparison is a preorder, and if each single thing that a
running program can do to a machine respects it, then so does every program, however deeply its
messages are nested (`Machine.IsFrame.execute`).

The comparison also holds from each moment of the run to the next (`Machine.IsFrame.trail`). What
has come about at one moment, be it deep inside of a message, can so be followed to all moments
after it.

## Main definitions

* `Machine.IsFrame`: a preorder that all steps of programs respect.
* `Machine.Trail`: a trace along which a relation holds.

## Main results

* `Machine.IsFrame.trail`: programs respect it from moment to moment.
* `Machine.IsFrame.execute`: programs respect it.
-/

namespace MockAudit

/-- A preorder between machines that each single thing a running program can do respects: work on
the heap, a call back to the host, an announcement, the report of a mocked call, and the beginning
and the end of a record. -/
structure Machine.IsFrame (R : Machine → Machine → Prop) (host : Host) : Prop where
  refl : ∀ m : Machine, R m m
  trans : ∀ {l m n : Machine}, R l m → R m n → R l n
  heap : ∀ (m : Machine) (heap : Heap), R m { m with heap }
  callback : ∀ (number : Nat) (m : Machine), R m (host number m)
  notify : ∀ (m : Machine) (audience : List Nat) (e : Event), R m (m.notify audience e)
  deliver : ∀ (m : Machine) (sink : Sink) (c : Call), R m (m.deliver sink c).1
  recording : ∀ (m : Machine) (tracer : Nat) (key : MethodRef) (shape : Option Shape)
    (location : String) (args : List Value),
    R m (m.recording tracer (m.recordedCall key shape location args))
  recordEnded : ∀ (m : Machine) (tracer index : Nat) (o : Outcome),
    R m (m.recordEnded tracer index o)

/-- The machine on which a run goes on after a moment. -/
def Moment.next (host : Host) : Moment → Machine
  | .began m owner entry receiver method args =>
    m.notify m.subscribers (m.calledEvent owner entry receiver method args)
  | .recorded m tracer call _ => m.recording tracer call
  | .hosted m number => host number m

namespace Machine

/-- A trace that leads from one machine to another, such that a relation holds from the first
machine to the first moment, through each moment, and from each moment to what comes next. -/
inductive Trail (R : Machine → Machine → Prop) (host : Host) :
    Machine → List Moment → Machine → Prop
  | nil {m n : Machine} (h : R m n) : Trail R host m [] n
  | cons {m n : Machine} {moment : Moment} {trace : List Moment} (h : R m moment.machine)
    (hthrough : R moment.machine (moment.next host))
    (rest : Trail R host (moment.next host) trace n) : Trail R host m (moment :: trace) n

/-- What happens after a moment of a trail has a trail of its own. -/
theorem Trail.next {R : Machine → Machine → Prop} {host : Host} {m n : Machine}
    {before after : List Moment} {moment : Moment}
    (h : Trail R host m (before ++ moment :: after) n) :
    Trail R host (moment.next host) after n := by
  induction before generalizing m with
  | nil =>
    obtain - | ⟨-, -, rest⟩ := h
    exact rest
  | cons first before ih =>
    obtain - | ⟨-, -, rest⟩ := h
    exact ih rest

namespace IsFrame

variable {R : Machine → Machine → Prop} {host : Host}

/-! ### Trails of a preorder -/

section

variable (hR : IsFrame R host) {l m n : Machine} {trace trace' : List Moment}
include hR

/-- A trail may begin earlier. -/
theorem after (hlm : R l m) (h : Trail R host m trace n) : Trail R host l trace n := by
  cases h with
  | nil h => exact .nil (hR.trans hlm h)
  | cons h hthrough rest => exact .cons (hR.trans hlm h) hthrough rest

/-- A trail may go on from its end. -/
theorem append (h : Trail R host l trace m) (h' : Trail R host m trace' n) :
    Trail R host l (trace ++ trace') n := by
  induction h with
  | nil h => exact hR.after h h'
  | cons h hthrough rest ih => exact .cons h hthrough (ih h')

theorem silent (h : Trail R host l trace m) (h' : R m n) : Trail R host l trace n := by
  have hext := hR.append h (.nil h')
  rwa [List.append_nil] at hext

/-- The relation holds from the begin of a trail to its end. -/
theorem related (h : Trail R host m trace n) : R m n := by
  induction h with
  | nil h => exact h
  | cons h hthrough rest ih => exact hR.trans h (hR.trans hthrough ih)

/-- The relation holds from the begin of a trail to all its moments. -/
theorem machine (h : Trail R host m trace n) {moment : Moment} (hmem : moment ∈ trace) :
    R m moment.machine := by
  induction h with
  | nil h => cases hmem
  | cons h hthrough rest ih =>
    rcases List.mem_cons.mp hmem with rfl | hmem
    · exact h
    · exact hR.trans h (hR.trans hthrough (ih hmem))

/-- What goes on with the outcome of a reply goes on with its trail. -/
theorem andThen {x : Reply} (h : Trail R host m trace x.1) {f : Machine → Outcome → Reply}
    {rest : Machine → Outcome → List Moment}
    (hnext : ∀ m' o, Trail R host m' (rest m' o) (f m' o).1) :
    Trail R host m (trace ++ x.traceThen rest) (x.andThen f).1 := by
  obtain ⟨m', _ | o⟩ := x
  · exact hR.append h (.nil (hR.refl m'))
  · exact hR.append h (hnext m' o)

/-- What leaves no trace goes on with a trail if it respects the relation. -/
theorem andThen_silent {x : Reply} (h : Trail R host m trace x.1)
    {f : Machine → Outcome → Reply} (hnext : ∀ m' o, R m' (f m' o).1) :
    Trail R host m trace (x.andThen f).1 := by
  obtain ⟨m', _ | o⟩ := x
  · exact h
  · exact hR.silent h (hnext m' o)

end

/-! ### Answers of stubs -/

theorem answerFrom (hR : IsFrame R host) (m : Machine) (stub : Call) (receiver : Value)
    (args : List Value) (sink : Sink) : R m (m.answerFrom stub receiver args sink).1 := by
  rw [Machine.answerFrom]
  generalize stub.mocked receiver args _ m.testCase = c
  have hdeliver := hR.deliver m sink c
  rcases hreply : m.deliver sink c with ⟨m', fault | _ | failure⟩ <;>
  · rw [hreply] at hdeliver
    exact hdeliver

theorem answerDouble (hR : IsFrame R host) (m : Machine) (d : TestDouble) (method : String)
    (args : List Value) : R m (m.answerDouble d method args).1 := by
  rw [Machine.answerDouble]
  split
  · exact hR.refl m
  · split
    · exact hR.refl m
    · split
      · exact hR.answerFrom m _ _ _ _
      · exact hR.refl m

/-! ### Trails of runs -/

section

variable (hR : IsFrame R host) {answer : Machine → Message → Reply}
  {traced : Machine → Message → List Moment}
  (hanswer : ∀ (m : Machine) message, Trail R host m (traced m message) (answer m message).1)
include hR hanswer

theorem procedure (p : Procedure) (m : Machine) :
    Trail R host m (p.trace host answer traced m) (p.run host answer m).1 := by
  induction p generalizing m with
  | finish o => exact .nil (hR.refl m)
  | onHeap work next ih => exact hR.after (hR.heap m _) (ih _ _)
  | send receiver method args next ih =>
    rw [Procedure.run_send]
    exact hR.andThen (hanswer m _) fun m' o => ih o m'
  | construct type args next ih =>
    rw [Procedure.run_construct]
    exact hR.andThen (hanswer m _) fun m' o => ih o m'
  | allocate type args next ih =>
    rw [Procedure.run_allocate]
    exact hR.andThen (hanswer m _) fun m' o => ih o m'
  | callback number next ih => exact .cons (hR.refl m) (hR.callback number m) (ih _)

theorem implementation (i : Implementation) (m : Machine) (receiver : Value) (args : List Value) :
    Trail R host m (i.trace host answer traced m receiver args)
      (i.run host answer m receiver args).1 := by
  induction i generalizing m with
  | code body => exact hR.procedure hanswer (body receiver args) m
  | stubbed key stubs sink =>
    rw [Implementation.run]
    split
    · exact .nil (hR.answerFrom m _ _ _ _)
    · exact .nil (hR.refl m)
  | recorder tracer key shape location inner ih =>
    rw [Implementation.run_recorder]
    exact .cons (hR.refl m) (hR.recording m tracer key shape location args) <|
      hR.andThen_silent (ih _) fun m' o => hR.recordEnded m' tracer _ o

theorem dispatch (m : Machine) (target : Target) (receiver : Value) (method : String)
    (args : List Value) :
    Trail R host m (m.dispatchTrace host answer traced target receiver method args)
      (m.dispatch host answer target receiver method args).1 := by
  rw [dispatchTrace]
  cases hresolve : m.resolve target method with
  | none =>
    rw [dispatch_of_resolve_none _ _ hresolve]
    exact .nil (hR.refl m)
  | some found =>
    rw [dispatch_of_resolve _ _ hresolve, enact]
    exact .cons (hR.refl m) (hR.notify m _ _) <|
      hR.andThen_silent (hR.implementation hanswer _ _ receiver args) fun m' o => hR.notify m' _ _

theorem allocate (m : Machine) (type : TypeName) (args : List Value) :
    Trail R host m (m.allocateTrace host answer traced type args)
      (m.allocate host answer type args).1 := by
  have hallocated : R m (m.allocated type) := hR.heap m _
  rw [allocateTrace]
  cases hresolve : (m.allocated type).resolve (.instances type) constructorName with
  | none =>
    rw [allocate_of_resolve_none _ _ hresolve, dispatchTrace, hresolve]
    exact .nil hallocated
  | some found =>
    rw [allocate_of_resolve _ _ hresolve]
    exact hR.andThen_silent (hR.after hallocated (hR.dispatch hanswer _ _ _ _ _))
      fun m' o => hR.refl m'

theorem handle (m : Machine) (message : Message) :
    Trail R host m (m.handleTrace host answer traced message) (m.handle host answer message).1 := by
  cases message with
  | send receiver method args =>
    cases receiver with
    | double d => exact .nil (hR.answerDouble m d method args)
    | _ => exact hR.dispatch hanswer m _ _ _ _
  | construct type args =>
    rw [Machine.handle, handleTrace]
    cases m.resolve (.typeItself type) allocatorName with
    | some found => exact hR.dispatch hanswer m _ _ _ _
    | none => exact hR.allocate hanswer m type args
  | allocate type args => exact hR.allocate hanswer m type args

end

/-- Messages respect a preorder that all steps respect. -/
theorem answer (hR : IsFrame R host) (depth : Nat) (m : Machine) (message : Message) :
    Trail R host m (Machine.trace host depth m message)
      (Machine.answer host depth m message).1 := by
  induction depth generalizing m message with
  | zero => exact .nil (hR.refl m)
  | succ depth ih => exact hR.handle ih m message

/-- **Programs** respect, from moment to moment, a preorder that all steps respect. -/
theorem trail (hR : IsFrame R host) (m : Machine) (depth : Nat) (program : Procedure) :
    Trail R host m (m.executionTrace host depth program) (m.execute host depth program).1 :=
  hR.procedure (hR.answer depth) program m

theorem execute (hR : IsFrame R host) (m : Machine) (depth : Nat) (program : Procedure) :
    R m (m.execute host depth program).1 :=
  hR.related (hR.trail m depth program)

end IsFrame

end Machine

end MockAudit
