import MockAudit.Proofs.Agreement
import MockAudit.Proofs.Interception
import MockAudit.Proofs.Trace

/-!
# Runs in lockstep

One program is run by three machines that differ only in how the program is watched: nobody watches
on the first, recorders are installed on the second, and a tracer follows the events of the third.
The machines go in *lockstep* (`Setting.Abreast`): they share heap and test cases at every moment,
and the records of the two tracers agree one by one. The number of frames of the tracer that follows
events depends on how deeply dispatches are nested; whatever comes to an end leaves the frames as
they were when it began, so a record is always ended by its own dispatch.

## Main definitions

* `Machine.IsBare`: a machine on which nothing but declared code is installed.
* `Setting`: a bare machine and what is watched on it.
* `Setting.Abreast`: three machines in lockstep.
* `Setting.InStep`: three replies in lockstep.

## Main results

* `Setting.dispatch_inStep`: one dispatch keeps the machines in lockstep if the messages it leads to
  do.
* `Setting.answer_inStep`, `Setting.execute_inStep`: messages and programs keep the machines in
  lockstep if the arguments of all dispatches fit.
-/

namespace MockAudit

/-- A host that lets test cases begin and end and does nothing else. -/
def Host.ofContexts (change : Nat → List TestContext → List TestContext) : Host :=
  fun number m => { m with contexts := change number m.contexts }

/-- If a dispatch begins, then its arguments fit the declared shape of the method that runs. -/
def Moment.ArgumentsFit : Moment → Prop
  | .began m owner _ _ method args =>
    ∀ shape, m.shape? (owner, method) = some shape → shape.Fits args
  | .recorded .. | .hosted .. => True

/-- A machine on which nobody watches and nothing is stubbed: all entries are declared code. -/
structure Machine.IsBare (m : Machine) : Prop where
  code : ∀ key e, m.methods key = some e → ∃ body, e.implementation = .code body
  declared : ∀ key e, m.methods key = some e → ∃ shape, m.shape? key = some shape
  subscribers : m.subscribers = []
  doubleHandler : m.doubleHandler = none

/-- A bare machine and what a tracer watches on it: methods with an entry of their own, or methods
that nothing handles. -/
structure Setting where
  base : Machine
  watched : WatchList
  filter : ArtifactFilter
  /-- What the recorders of the tracer have displaced. -/
  displaced : List Displaced
  isBare : base.IsBare
  direct : ∀ key ∈ watched.keys, (base.methods key).isSome ∨ base.resolve key.1 key.2 = none
  restores : (base.recordedTable base.tracers.length watched.keys).restore displaced = base.methods

namespace Setting

variable (s : Setting)

/-- The number of the tracer. -/
def tracer : Nat := s.base.tracers.length

/-- The number of the observer through which the tracer follows events. -/
def observer : Nat := s.base.observers.length

/-- The machine on which nobody watches. -/
def plain (heap : Heap) (contexts : List TestContext) : Machine :=
  { s.base with heap, contexts }

/-- The machine with recorders. -/
def wrapping (heap : Heap) (contexts : List TestContext) (records : List Call)
    (log : List LogLine) : Machine :=
  { s.base with
    heap, contexts, log
    methods := s.base.recordedTable s.tracer s.watched.keys
    tracers := s.base.tracers ++
      [⟨.wrap, s.filter, s.watched, ⟨records, []⟩, .running (.wrapped s.displaced)⟩] }

/-- The machine on which a tracer follows events. -/
def following (heap : Heap) (contexts : List TestContext) (capture : Capture)
    (log : List LogLine) : Machine :=
  { s.base with
    heap, contexts, log
    subscribers := [s.observer]
    observers := s.base.observers ++ [.follower s.tracer s.watched]
    tracers := s.base.tracers ++
      [⟨.events, s.filter, s.watched, capture, .running (.subscribed s.observer)⟩] }

/-- Three machines in lockstep, with the frames of the tracer that follows events. -/
inductive Abreast (frames : List (Option Nat)) : Machine → Machine → Machine → Prop
  | intro (heap : Heap) (contexts : List TestContext) {records records' : List Call}
      (agree : List.Forall₂ Call.Agrees records records') (log log' : List LogLine) :
    Abreast frames (s.plain heap contexts) (s.wrapping heap contexts records log)
      (s.following heap contexts ⟨records', frames⟩ log')

/-- Three replies in lockstep: the outcomes are the same, and so are the frames unless there is no
outcome. -/
structure InStep (frames : List (Option Nat)) (x y z : Reply) : Prop where
  abreast : ∃ frames', s.Abreast frames' x.1 y.1 z.1 ∧ (x.2.isSome → frames' = frames)
  wrapped : y.2 = x.2
  followed : z.2 = x.2

variable {s} {frames : List (Option Nat)}

/-- Machines in lockstep with one outcome for all of them. -/
theorem Abreast.inStep {m mw me : Machine} (h : s.Abreast frames m mw me) (o : Outcome) :
    s.InStep frames (m, some o) (mw, some o) (me, some o) :=
  ⟨⟨frames, h, fun _ => rfl⟩, rfl, rfl⟩

/-- What goes on with the outcome of replies in lockstep goes on in lockstep. It may leave other
frames than it found. -/
theorem InStep.andThen {frames₁ frames₂ : List (Option Nat)} {x y z : Reply}
    (h : s.InStep frames₁ x y z) {f g k : Machine → Outcome → Reply}
    (hf : ∀ m mw me o, x = (m, some o) → s.Abreast frames₁ m mw me →
      s.InStep frames₂ (f m o) (g mw o) (k me o)) :
    s.InStep frames₂ (x.andThen f) (y.andThen g) (z.andThen k) := by
  obtain ⟨m, o⟩ := x
  obtain ⟨mw, ow⟩ := y
  obtain ⟨me, oe⟩ := z
  obtain ⟨⟨frames', habreast, hframes⟩, hw, he⟩ := h
  obtain rfl : ow = o := hw
  obtain rfl : oe = ow := he
  cases oe with
  | none => exact ⟨⟨frames', habreast, by simp⟩, rfl, rfl⟩
  | some o =>
    obtain rfl := hframes rfl
    exact hf m mw me o rfl habreast

/-! ### What the machines find -/

private theorem resolve_plain (heap : Heap) (contexts : List TestContext) (target : Target)
    (name : String) : (s.plain heap contexts).resolve target name = s.base.resolve target name :=
  Machine.resolve_congr (m := s.base) (n := s.plain heap contexts) rfl rfl target name

private theorem resolve_following (heap : Heap) (contexts : List TestContext) (capture : Capture)
    (log : List LogLine) (target : Target) (name : String) :
    (s.following heap contexts capture log).resolve target name = s.base.resolve target name :=
  Machine.resolve_congr (m := s.base) (n := s.following heap contexts capture log) rfl rfl target
    name

private theorem resolve_wrapping (heap : Heap) (contexts : List TestContext) (records : List Call)
    (log : List LogLine) (target : Target) (name : String) :
    (s.wrapping heap contexts records log).resolve target name =
      (s.base.resolve target name).map fun (owner, e) =>
        (owner, s.base.recorderAround s.tracer s.watched.keys (owner, name) e) :=
  Machine.resolve_recorded (m := s.base) (n := s.wrapping heap contexts records log) rfl rfl target
    name

/-- A dispatch that is handled is watched exactly as the method of its owner. -/
theorem watchedAs?_of_resolve {receiver : Value} {method : String} {owner : Target}
    {e : LocatedCode} (h : s.base.resolve (.ofReceiver receiver) method = some (owner, e)) :
    Capture.watchedAs? s.watched owner receiver method =
      if (owner, method) ∈ s.watched.keys then some owner else none := by
  -- If the type of the receiver is watched, then it has an entry of its own and is the owner.
  have howner : (Target.ofReceiver receiver, method) ∈ s.watched.keys →
      Target.ofReceiver receiver = owner := by
    intro hmem
    rcases s.direct _ hmem with hentry | hnone
    · obtain ⟨e', he'⟩ := Option.isSome_iff_exists.mp hentry
      rw [Machine.resolve_of_methods he'] at h
      exact (Prod.mk.inj (Option.some.inj h)).1
    · rw [hnone] at h
      cases h
  rw [Capture.watchedAs?_eq_find?]
  by_cases hmem : (Target.ofReceiver receiver, method) ∈ s.watched.keys
  · obtain rfl := howner hmem
    simp [hmem]
  · by_cases hmem' : (owner, method) ∈ s.watched.keys <;> simp [hmem, hmem']

/-! ### What the tracers note -/

private theorem recording_wrapping (heap : Heap) (contexts : List TestContext) (records : List Call)
    (log : List LogLine) (c : Call) :
    (s.wrapping heap contexts records log).recording s.tracer c =
      s.wrapping heap contexts (records ++ [c]) log := by
  simp only [Machine.recording, Machine.modifyTracer, wrapping, tracer, modify_length_append,
    Capture.record]

private theorem recordCount_wrapping (heap : Heap) (contexts : List TestContext)
    (records : List Call) (log : List LogLine) :
    (s.wrapping heap contexts records log).recordCount s.tracer = records.length := by
  simp [Machine.recordCount, wrapping, tracer]

private theorem recordEnded_wrapping (heap : Heap) (contexts : List TestContext)
    (records : List Call) (log : List LogLine) (index : Nat) (o : Outcome) :
    ∃ log', (s.wrapping heap contexts records log).recordEnded s.tracer index o =
      s.wrapping heap contexts (records.modify index (Capture.ended · o)) log' := by
  have hfinish : Capture.finish ⟨records, []⟩ index o =
      ⟨records.modify index (Capture.ended · o), []⟩ :=
    congrArg (Capture.mk · []) (Capture.finish_records ⟨records, []⟩ index o)
  simp only [Machine.recordEnded, Machine.modifyTracer, wrapping, tracer, modify_length_append,
    Machine.write, hfinish]
  exact ⟨_, rfl⟩

private theorem notify_following (heap : Heap) (contexts : List TestContext) (capture : Capture)
    (log : List LogLine) (e : Event) :
    ∃ log', (s.following heap contexts capture log).notify [s.observer] e =
      s.following heap contexts
        (capture.observe s.watched (s.plain heap contexts).testCase e) log' := by
  have hobserver : (s.following heap contexts capture log).observers[s.observer]? =
      some (.follower s.tracer s.watched) := List.getElem?_concat_length
  have htracer : (s.following heap contexts capture log).tracers[s.tracer]? =
      some ⟨.events, s.filter, s.watched, capture, .running (.subscribed s.observer)⟩ :=
    List.getElem?_concat_length
  simp only [Machine.notify, List.foldl_cons, List.foldl_nil, Machine.tell, hobserver, htracer]
  refine ⟨log ++ capture.observeLog e, ?_⟩
  simp [following, tracer, Machine.testCase, plain]

/-- The end of a dispatch ends the frame on top. -/
theorem notify_following_end (heap : Heap) (contexts : List TestContext) (records : List Call)
    (frame : Option Nat) (frames : List (Option Nat)) (log : List LogLine) (owner : Target)
    (method : String) (o : Outcome) :
    ∃ log', (s.following heap contexts ⟨records, frame :: frames⟩ log).notify [s.observer]
        (.ofOutcome owner method o) =
      s.following heap contexts
        ⟨frame.elim records fun index => records.modify index (Capture.ended · o), frames⟩
        log' := by
  obtain ⟨log', hnotify⟩ := s.notify_following heap contexts ⟨records, frame :: frames⟩ log
    (.ofOutcome owner method o)
  refine ⟨log', ?_⟩
  rw [hnotify, Capture.observe_ofOutcome]
  cases frame with
  | none => rfl
  | some index =>
    exact congrArg (fun c => s.following heap contexts (Capture.mk c frames) log')
      (Capture.finish_records ⟨records, frames⟩ index o)

/-! ### Steps -/

section

variable (change : Nat → List TestContext → List TestContext) (answer : Machine → Message → Reply)
  (traced : Machine → Message → List Moment)

/-- Messages are answered in lockstep if the arguments of all dispatches fit. -/
def AnswersInStep (s : Setting) : Prop :=
  ∀ frames m mw me message, s.Abreast frames m mw me →
    (∀ moment ∈ traced m message, moment.ArgumentsFit) →
    s.InStep frames (answer m message) (answer mw message) (answer me message)

variable {change answer traced}

/-- A procedure runs in lockstep if its messages are answered so. -/
theorem run_inStep (hanswer : s.AnswersInStep answer traced) (p : Procedure) {m mw me : Machine}
    (h : s.Abreast frames m mw me)
    (hfits : ∀ moment ∈ p.trace (.ofContexts change) answer traced m, moment.ArgumentsFit) :
    s.InStep frames (p.run (.ofContexts change) answer m) (p.run (.ofContexts change) answer mw)
      (p.run (.ofContexts change) answer me) := by
  induction p generalizing m mw me with
  | finish o => exact h.inStep o
  | onHeap work next ih =>
    obtain ⟨heap, contexts, agree, log, log'⟩ := h
    exact ih _ (.intro _ contexts agree log log') hfits
  | callback number next ih =>
    obtain ⟨heap, contexts, agree, log, log'⟩ := h
    exact ih (.intro heap _ agree log log') fun moment hmem =>
      hfits moment (List.mem_cons_of_mem _ hmem)
  | send receiver method args next ih =>
    rw [Procedure.run_send, Procedure.run_send, Procedure.run_send]
    rw [Procedure.trace, List.forall_mem_append] at hfits
    refine (hanswer _ _ _ _ _ h hfits.1).andThen fun m' mw' me' o hx h' => ih o h' ?_
    simpa only [hx, Reply.traceThen_some] using hfits.2
  | construct type args next ih =>
    rw [Procedure.run_construct, Procedure.run_construct, Procedure.run_construct]
    rw [Procedure.trace, List.forall_mem_append] at hfits
    refine (hanswer _ _ _ _ _ h hfits.1).andThen fun m' mw' me' o hx h' => ih o h' ?_
    simpa only [hx, Reply.traceThen_some] using hfits.2
  | allocate type args next ih =>
    rw [Procedure.run_allocate, Procedure.run_allocate, Procedure.run_allocate]
    rw [Procedure.trace, List.forall_mem_append] at hfits
    refine (hanswer _ _ _ _ _ h hfits.1).andThen fun m' mw' me' o hx h' => ih o h' ?_
    simpa only [hx, Reply.traceThen_some] using hfits.2

/-! ### Dispatches -/

section

variable {heap : Heap} {contexts : List TestContext} {records : List Call} {log : List LogLine}
  {owner : Target} {receiver : Value} {method : String} {e : LocatedCode}
  {body : Value → List Value → Procedure} {args : List Value} {shape : Shape}

private theorem enact_plain (hcode : e.implementation = .code body) :
    (s.plain heap contexts).enact (.ofContexts change) answer owner e receiver method args =
      (body receiver args).run (.ofContexts change) answer (s.plain heap contexts) := by
  rw [Machine.enact_of_subscribers_nil (m := s.plain heap contexts) _ _ s.isBare.subscribers, hcode,
    Implementation.run]

private theorem enact_wrapping_unwatched (hcode : e.implementation = .code body)
    (hwatched : (owner, method) ∉ s.watched.keys) :
    (s.wrapping heap contexts records log).enact (.ofContexts change) answer owner
        (s.base.recorderAround s.tracer s.watched.keys (owner, method) e) receiver method args =
      (body receiver args).run (.ofContexts change) answer
        (s.wrapping heap contexts records log) := by
  rw [Machine.enact_of_subscribers_nil (m := s.wrapping heap contexts records log) _ _
    s.isBare.subscribers, Machine.recorderAround, if_neg hwatched, hcode, Implementation.run]

private theorem enact_wrapping_watched (hcode : e.implementation = .code body)
    (hshape : s.base.shape? (owner, method) = some shape)
    (hwatched : (owner, method) ∈ s.watched.keys) :
    (s.wrapping heap contexts records log).enact (.ofContexts change) answer owner
        (s.base.recorderAround s.tracer s.watched.keys (owner, method) e) receiver method args =
      ((body receiver args).run (.ofContexts change) answer
        (s.wrapping heap contexts
          (records ++ [(s.plain heap contexts).recordedCall (owner, method) (some shape)
            e.location args]) log)).andThen fun m' o =>
        (m'.recordEnded s.tracer records.length o, some o) := by
  rw [Machine.enact_of_subscribers_nil (m := s.wrapping heap contexts records log) _ _
    s.isBare.subscribers, Machine.recorderAround, if_pos hwatched, hshape, hcode,
    Implementation.run_recorder, recording_wrapping, recordCount_wrapping, Implementation.run]
  rfl

private theorem enact_following (host : Host) (answer : Machine → Message → Reply) (heap : Heap)
    (contexts : List TestContext) (capture : Capture) (log : List LogLine) (receiver : Value)
    (args : List Value) (hcode : e.implementation = .code body)
    (hshape : s.base.shape? (owner, method) = some shape) :
    ∃ log', (s.following heap contexts capture log).enact host answer owner e receiver method args =
      ((body receiver args).run host answer
        (s.following heap contexts
          (capture.observe s.watched (s.plain heap contexts).testCase
            (.called owner method receiver (shape.bind args) e.location)) log')).andThen fun m' o =>
        (m'.notify [s.observer] (.ofOutcome owner method o), some o) := by
  obtain ⟨log', hnotify⟩ := s.notify_following heap contexts capture log
    (.called owner method receiver (shape.bind args) e.location)
  refine ⟨log', ?_⟩
  rw [Machine.enact, Machine.calledEvent_of_shape (m := s.following heap contexts capture log)
    hshape, ← hnotify, hcode, Implementation.run]
  rfl

end

/-- A watched dispatch: both tracers make a record when it begins and end it when it ends. -/
theorem enact_watched (hanswer : s.AnswersInStep answer traced) {m mw me : Machine}
    (h : s.Abreast frames m mw me) {owner : Target} {receiver : Value} {method : String}
    {e : LocatedCode} {body : Value → List Value → Procedure} {args : List Value} {shape : Shape}
    (hresolve : s.base.resolve (.ofReceiver receiver) method = some (owner, e))
    (hcode : e.implementation = .code body) (hshape : s.base.shape? (owner, method) = some shape)
    (hwatched : (owner, method) ∈ s.watched.keys) (hargs : shape.Fits args)
    (hfits : ∀ moment ∈ (body receiver args).trace (.ofContexts change) answer traced m,
      moment.ArgumentsFit) :
    s.InStep frames (m.enact (.ofContexts change) answer owner e receiver method args)
      (mw.enact (.ofContexts change) answer owner
        (s.base.recorderAround s.tracer s.watched.keys (owner, method) e) receiver method args)
      (me.enact (.ofContexts change) answer owner e receiver method args) := by
  obtain ⟨heap, contexts, agree, log, log'⟩ := h
  rename_i records records'
  obtain ⟨log₁, hfollowing⟩ := enact_following (.ofContexts change) answer heap contexts
    ⟨records', frames⟩ log' receiver args hcode hshape
  rw [enact_plain hcode, enact_wrapping_watched hcode hshape hwatched, hfollowing]
  -- Both tracers make a record, and a frame points to the one of the tracer that follows events.
  have hobserve : Capture.observe s.watched (s.plain heap contexts).testCase ⟨records', frames⟩
      (.called owner method receiver (shape.bind args) e.location) =
      ⟨records' ++ [Capture.recordOf owner method (shape.bind args) e.location
        (s.plain heap contexts).testCase], some records'.length :: frames⟩ := by
    rw [Capture.observe, watchedAs?_of_resolve hresolve, if_pos hwatched]
  have hopened := List.rel_append agree
    (.cons (hargs.agrees owner method e.location (s.plain heap contexts).testCase) .nil)
  rw [hobserve, ← Reply.andThen_pure ((body receiver args).run _ _ (s.plain heap contexts))]
  refine (run_inStep hanswer _ (.intro heap contexts hopened log log₁) hfits).andThen ?_
  rintro _ _ _ o - ⟨heap, contexts, agree', log, log'⟩
  rename_i records₁ records₁'
  -- Nested dispatches have come to an end, so the frame on top is that of this one.
  obtain ⟨log₂, hended⟩ := s.recordEnded_wrapping heap contexts records₁ log records.length o
  obtain ⟨log₃, hnotified⟩ := s.notify_following_end heap contexts records₁'
    (some records'.length) frames log' owner method o
  rw [hended, hnotified, ← agree.length_eq]
  exact (Abreast.intro heap contexts (forall₂_agrees_modify agree' records.length o) log₂
    log₃).inStep o

/-- An unwatched dispatch leaves no record, only a frame of the tracer that follows events, which is
taken away at the end. -/
theorem enact_unwatched (hanswer : s.AnswersInStep answer traced) {m mw me : Machine}
    (h : s.Abreast frames m mw me) {owner : Target} {receiver : Value} {method : String}
    {e : LocatedCode} {body : Value → List Value → Procedure} {args : List Value} {shape : Shape}
    (hresolve : s.base.resolve (.ofReceiver receiver) method = some (owner, e))
    (hcode : e.implementation = .code body) (hshape : s.base.shape? (owner, method) = some shape)
    (hwatched : (owner, method) ∉ s.watched.keys)
    (hfits : ∀ moment ∈ (body receiver args).trace (.ofContexts change) answer traced m,
      moment.ArgumentsFit) :
    s.InStep frames (m.enact (.ofContexts change) answer owner e receiver method args)
      (mw.enact (.ofContexts change) answer owner
        (s.base.recorderAround s.tracer s.watched.keys (owner, method) e) receiver method args)
      (me.enact (.ofContexts change) answer owner e receiver method args) := by
  obtain ⟨heap, contexts, agree, log, log'⟩ := h
  rename_i records records'
  obtain ⟨log₁, hfollowing⟩ := enact_following (.ofContexts change) answer heap contexts
    ⟨records', frames⟩ log' receiver args hcode hshape
  rw [enact_plain hcode, enact_wrapping_unwatched hcode hwatched, hfollowing]
  have hobserve : Capture.observe s.watched (s.plain heap contexts).testCase ⟨records', frames⟩
      (.called owner method receiver (shape.bind args) e.location) =
      ⟨records', none :: frames⟩ := by
    rw [Capture.observe, watchedAs?_of_resolve hresolve, if_neg hwatched]
  rw [hobserve, ← Reply.andThen_pure ((body receiver args).run _ _ (s.plain heap contexts)),
    ← Reply.andThen_pure ((body receiver args).run _ _ (s.wrapping heap contexts records log))]
  refine (run_inStep hanswer _ (.intro heap contexts agree log log₁) hfits).andThen ?_
  rintro _ _ _ o - ⟨heap, contexts, agree', log, log'⟩
  rename_i records₁ records₁'
  obtain ⟨log₂, hnotified⟩ := s.notify_following_end heap contexts records₁' none frames log' owner
    method o
  rw [hnotified]
  exact (Abreast.intro heap contexts agree' log log₂).inStep o

/-- A dispatch keeps the machines in lockstep. -/
theorem dispatch_inStep (hanswer : s.AnswersInStep answer traced) {m mw me : Machine}
    (h : s.Abreast frames m mw me) {target : Target} {receiver : Value} {method : String}
    {args : List Value} (hreceiver : .ofReceiver receiver = target)
    (hfits : ∀ moment ∈ m.dispatchTrace (.ofContexts change) answer traced target receiver method
      args, moment.ArgumentsFit) :
    s.InStep frames (m.dispatch (.ofContexts change) answer target receiver method args)
      (mw.dispatch (.ofContexts change) answer target receiver method args)
      (me.dispatch (.ofContexts change) answer target receiver method args) := by
  subst hreceiver
  have h' := h
  obtain ⟨heap, contexts, agree, log, log'⟩ := h'
  rename_i records records'
  have hplain := s.resolve_plain heap contexts (.ofReceiver receiver) method
  have hwrapping := s.resolve_wrapping heap contexts records log (.ofReceiver receiver) method
  have hfollowing := s.resolve_following heap contexts ⟨records', frames⟩ log'
    (.ofReceiver receiver) method
  cases hresolve : s.base.resolve (.ofReceiver receiver) method with
  | none =>
    rw [hresolve] at hplain hwrapping hfollowing
    rw [Machine.dispatch_of_resolve_none _ _ hplain, Machine.dispatch_of_resolve_none _ _ hwrapping,
      Machine.dispatch_of_resolve_none _ _ hfollowing]
    exact h.inStep _
  | some found =>
    obtain ⟨owner, e⟩ := found
    have hentry := Machine.methods_of_resolve hresolve
    obtain ⟨body, hcode⟩ := s.isBare.code _ e hentry
    obtain ⟨shape, hshape⟩ := s.isBare.declared _ e hentry
    rw [hresolve] at hplain hwrapping hfollowing
    rw [Machine.dispatchTrace, hplain, List.forall_mem_cons, hcode, Implementation.trace] at hfits
    have hbody : ∀ moment ∈ (body receiver args).trace (.ofContexts change) answer traced
        (s.plain heap contexts), moment.ArgumentsFit := by
      have hsubscribers : (s.plain heap contexts).subscribers = [] := s.isBare.subscribers
      rw [hsubscribers] at hfits
      exact hfits.2
    rw [Machine.dispatch_of_resolve _ _ hplain, Machine.dispatch_of_resolve _ _ hwrapping,
      Machine.dispatch_of_resolve _ _ hfollowing]
    by_cases hwatched : (owner, method) ∈ s.watched.keys
    · exact enact_watched hanswer h hresolve hcode hshape hwatched (hfits.1 shape hshape) hbody
    · exact enact_unwatched hanswer h hresolve hcode hshape hwatched hbody

/-! ### Messages and programs -/

/-- What is found is found by all machines or by none. -/
theorem Abreast.isSome_resolve {m mw me : Machine} (h : s.Abreast frames m mw me) (target : Target)
    (name : String) :
    (mw.resolve target name).isSome = (m.resolve target name).isSome ∧
      (me.resolve target name).isSome = (m.resolve target name).isSome := by
  obtain ⟨heap, contexts, agree, log, log'⟩ := h
  rw [resolve_plain, resolve_wrapping, resolve_following, Option.isSome_map]
  exact ⟨rfl, rfl⟩

/-- The creation of an instance keeps the machines in lockstep. -/
theorem allocate_inStep (hanswer : s.AnswersInStep answer traced) {m mw me : Machine}
    (h : s.Abreast frames m mw me) (type : TypeName) (args : List Value)
    (hfits : ∀ moment ∈ m.allocateTrace (.ofContexts change) answer traced type args,
      moment.ArgumentsFit) :
    s.InStep frames (m.allocate (.ofContexts change) answer type args)
      (mw.allocate (.ofContexts change) answer type args)
      (me.allocate (.ofContexts change) answer type args) := by
  obtain ⟨heap, contexts, agree, log, log'⟩ := h
  have h' : s.Abreast frames ((s.plain heap contexts).allocated type)
      ((s.wrapping heap contexts _ log).allocated type)
      ((s.following heap contexts _ log').allocated type) :=
    .intro (heap.newObject type []).2 contexts agree log log'
  obtain ⟨hwrapping, hfollowing⟩ := h'.isSome_resolve (.instances type) constructorName
  cases hplain : ((s.plain heap contexts).allocated type).resolve (.instances type)
    constructorName with
  | none =>
    rw [hplain, Option.isSome_none, Option.isSome_eq_false_iff, Option.isNone_iff_eq_none]
      at hwrapping hfollowing
    rw [Machine.allocate_of_resolve_none _ _ hplain, Machine.allocate_of_resolve_none _ _ hwrapping,
      Machine.allocate_of_resolve_none _ _ hfollowing]
    exact h'.inStep _
  | some found =>
    rw [hplain, Option.isSome_some, Option.isSome_iff_exists] at hwrapping hfollowing
    obtain ⟨foundw, hwrapping⟩ := hwrapping
    obtain ⟨foundf, hfollowing⟩ := hfollowing
    rw [Machine.allocate_of_resolve _ _ hplain, Machine.allocate_of_resolve _ _ hwrapping,
      Machine.allocate_of_resolve _ _ hfollowing]
    refine (dispatch_inStep hanswer h' ?_ hfits).andThen fun m mw me o _ h => h.inStep _
    rfl

/-- Handling a message keeps the machines in lockstep. -/
theorem handle_inStep (hanswer : s.AnswersInStep answer traced) :
    s.AnswersInStep (Machine.handle (.ofContexts change) answer)
      (Machine.handleTrace (.ofContexts change) answer traced) := by
  intro frames m mw me message h hfits
  cases message with
  | send receiver method args =>
    cases receiver with
    | double d =>
      obtain ⟨heap, contexts, agree, log, log'⟩ := h
      rw [Machine.handle_double (m := s.plain heap contexts) _ _ s.isBare.doubleHandler,
        Machine.handle_double (m := s.wrapping heap contexts _ log) _ _ s.isBare.doubleHandler,
        Machine.handle_double (m := s.following heap contexts _ log') _ _ s.isBare.doubleHandler]
      exact (Abreast.intro heap contexts agree log log').inStep _
    | _ => exact dispatch_inStep hanswer h rfl hfits
  | construct type args =>
    obtain ⟨hwrapping, hfollowing⟩ := h.isSome_resolve (.typeItself type) allocatorName
    cases hplain : m.resolve (.typeItself type) allocatorName with
    | none =>
      rw [hplain, Option.isSome_none, Option.isSome_eq_false_iff, Option.isNone_iff_eq_none]
        at hwrapping hfollowing
      simp only [Machine.handle, Machine.handleTrace, hplain, hwrapping, hfollowing] at hfits ⊢
      exact allocate_inStep hanswer h type args hfits
    | some found =>
      rw [hplain, Option.isSome_some, Option.isSome_iff_exists] at hwrapping hfollowing
      obtain ⟨foundw, hwrapping⟩ := hwrapping
      obtain ⟨foundf, hfollowing⟩ := hfollowing
      simp only [Machine.handle, Machine.handleTrace, hplain, hwrapping, hfollowing] at hfits ⊢
      exact dispatch_inStep hanswer h rfl hfits
  | allocate type args => exact allocate_inStep hanswer h type args hfits

end

/-- Messages are answered in lockstep, however deeply they are nested. -/
theorem answer_inStep (change : Nat → List TestContext → List TestContext) (depth : Nat) :
    s.AnswersInStep (Machine.answer (.ofContexts change) depth)
      (Machine.trace (.ofContexts change) depth) := by
  induction depth with
  | zero =>
    intro frames m mw me message h _
    exact ⟨⟨frames, h, fun _ => rfl⟩, rfl, rfl⟩
  | succ depth ih => exact handle_inStep ih

/-- A program is executed in lockstep if the arguments of all dispatches fit. -/
theorem execute_inStep (change : Nat → List TestContext → List TestContext) (depth : Nat)
    (program : Procedure) {m mw me : Machine} (h : s.Abreast frames m mw me)
    (hfits : ∀ moment ∈ m.executionTrace (.ofContexts change) depth program, moment.ArgumentsFit) :
    s.InStep frames (m.execute (.ofContexts change) depth program)
      (mw.execute (.ofContexts change) depth program)
      (me.execute (.ofContexts change) depth program) :=
  run_inStep (answer_inStep change depth) program h hfits

end Setting

end MockAudit
