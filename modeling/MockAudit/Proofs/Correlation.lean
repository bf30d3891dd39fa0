import MockAudit.Tracing.Capture
import Mathlib.Data.List.Forall2

/-!
# Correlation of nested calls

The dispatches of a program form a forest: every dispatch ends after the dispatches that are
nested in it, and before the next one of the same level begins. Announcing each of them when it
begins and again when it ends gives the *event stream* of the forest.

A capture that follows the event stream of a forest keeps one record for every watched dispatch,
in the order in which the dispatches began, and every record ends with the outcome of its own
dispatch (`Capture.follow_events_reports`). What carries the induction is that the stream of a
whole forest only appends finished records and leaves the frames as they were
(`Capture.follow_events`).

## Main definitions

* `CallForest`: finite forests of nested dispatches.
* `CallForest.events`: the event stream of a forest.
* `CallForest.watchedCalls`: the watched dispatches of a forest.
* `Capture.follow`: a capture that takes note of a stream of events.
* `Call.Reports`: what a record says about its own dispatch.
-/

namespace MockAudit

/-! ### Forests of calls -/

/-- A dispatch that begins during a test case. -/
structure Announcement where
  owner : Target
  method : String
  receiver : Value
  binding : List Binding
  location : String
  testCase : Option String

/-- A finite forest of dispatches: a first dispatch with the dispatches nested in it, its outcome
and the test case in which it ends, and the dispatches after it. -/
inductive CallForest
  | done
  | call (start : Announcement) (nested : CallForest) (outcome : Outcome)
      (endCase : Option String) (later : CallForest)

/-- Events in the order in which they happen, each with the test case that is running. -/
abbrev EventStream := List (Option String × Event)

/-- The event that announces a dispatch. -/
def Announcement.event (a : Announcement) : Event :=
  .called a.owner a.method a.receiver a.binding a.location

/-- The event stream of a forest. -/
def CallForest.events : CallForest → EventStream
  | done => []
  | call start nested outcome endCase later =>
    (start.testCase, start.event) :: nested.events
      ++ (endCase, .ofOutcome start.owner start.method outcome) :: later.events

/-- A watched dispatch: the target it is watched as, its announcement and its outcome. -/
structure WatchedCall where
  target : Target
  start : Announcement
  outcome : Outcome

/-- The watched dispatches of a forest in the order in which they begin. -/
def CallForest.watchedCalls (watched : WatchList) : CallForest → List WatchedCall
  | done => []
  | call start nested outcome _ later =>
    ((Capture.watchedAs? watched start.owner start.receiver start.method).toList.map
      (⟨·, start, outcome⟩)) ++ nested.watchedCalls watched ++ later.watchedCalls watched

/-- Changing the element behind a list of known length. -/
theorem modify_length_append {α : Type*} (f : α → α) (before after : List α) (a : α) :
    (before ++ a :: after).modify before.length f = before ++ f a :: after :=
  List.modifyTailIdx_add (List.modifyHead f) 0 before (a :: after)

namespace Capture

/-- The capture that has taken note of a stream of events. -/
def follow (watched : WatchList) (c : Capture) (stream : EventStream) : Capture :=
  stream.foldl (fun c (testCase, e) => c.observe watched testCase e) c

@[simp] theorem follow_nil (watched : WatchList) (c : Capture) : c.follow watched [] = c := rfl

@[simp] theorem follow_cons (watched : WatchList) (c : Capture) (testCase : Option String)
    (e : Event) (stream : EventStream) :
    c.follow watched ((testCase, e) :: stream) =
      (c.observe watched testCase e).follow watched stream := rfl

@[simp] theorem follow_append (watched : WatchList) (c : Capture) (s t : EventStream) :
    c.follow watched (s ++ t) = (c.follow watched s).follow watched t :=
  List.foldl_append

/-! ### Records of finished calls -/

/-- A record with the end of its call. -/
def ended (call : Call) : Outcome → Call
  | .returned v => settle call v
  | .raised e => mark call e

theorem finish_records (c : Capture) (index : Nat) (o : Outcome) :
    (c.finish index o).records = c.records.modify index (ended · o) := by
  cases o <;> rfl

/-- The event that ends a dispatch ends the frame on top, whatever it returned or raised. -/
theorem observe_ofOutcome (watched : WatchList) (testCase : Option String) (c : Capture)
    (owner : Target) (method : String) (o : Outcome) :
    c.observe watched testCase (.ofOutcome owner method o) = observe.endFrame c o := by
  cases o <;> rfl

/-- Ending the frame of a record ends that record, wherever it stands in the list. -/
theorem endFrame_record (before after : List Call) (call : Call) (frames : List (Option Nat))
    (o : Outcome) :
    observe.endFrame ⟨before ++ call :: after, some before.length :: frames⟩ o =
      ⟨before ++ ended call o :: after, frames⟩ := by
  have hrecords := finish_records ⟨before ++ call :: after, frames⟩ before.length o
  rw [modify_length_append] at hrecords
  exact congrArg (Capture.mk · frames) hrecords

/-- Ending a frame without a record leaves all records as they are. -/
theorem endFrame_none (records : List Call) (frames : List (Option Nat)) (o : Outcome) :
    observe.endFrame ⟨records, none :: frames⟩ o = ⟨records, frames⟩ := rfl

/-- An unwatched dispatch begins with a frame that has no record. -/
theorem observe_unwatched {watched : WatchList} {a : Announcement}
    (h : watchedAs? watched a.owner a.receiver a.method = none) (c : Capture) :
    c.observe watched a.testCase a.event = ⟨c.records, none :: c.frames⟩ := by
  simp only [observe, Announcement.event, h]

/-- A watched dispatch begins with a new record and a frame for it. -/
theorem observe_watched {watched : WatchList} {a : Announcement} {target : Target}
    (h : watchedAs? watched a.owner a.receiver a.method = some target) (c : Capture) :
    c.observe watched a.testCase a.event =
      ⟨c.records ++ [recordOf target a.method a.binding a.location a.testCase],
        some c.records.length :: c.frames⟩ := by
  simp only [observe, Announcement.event, h]

end Capture

/-- The record of a watched dispatch as it is made when the dispatch begins. -/
def WatchedCall.opening (w : WatchedCall) : Call :=
  Capture.recordOf w.target w.start.method w.start.binding w.start.location w.start.testCase

/-- The record of a watched dispatch after its end. -/
def WatchedCall.record (w : WatchedCall) : Call :=
  Capture.ended w.opening w.outcome

/-! ### The records of a forest -/

/-- The event stream of a forest adds the finished records of the watched dispatches and leaves the
frames as they were. -/
theorem Capture.follow_events (watched : WatchList) (forest : CallForest) (c : Capture) :
    c.follow watched forest.events =
      ⟨c.records ++ (forest.watchedCalls watched).map WatchedCall.record, c.frames⟩ := by
  induction forest generalizing c with
  | done => simp [CallForest.events, CallForest.watchedCalls]
  | call start nested outcome endCase later ihNested ihLater =>
    simp only [CallForest.events, CallForest.watchedCalls, follow_append, follow_cons,
      List.cons_append]
    cases h : watchedAs? watched start.owner start.receiver start.method with
    | none =>
      rw [observe_unwatched h, ihNested, observe_ofOutcome, endFrame_none, ihLater]
      simp
    | some target =>
      -- The dispatches nested in this one append their records behind its own, so that its frame
      -- still points to it when it comes to the top again.
      rw [observe_watched h, ihNested, observe_ofOutcome, List.append_assoc,
        List.singleton_append, endFrame_record, ihLater]
      simp [WatchedCall.record, WatchedCall.opening]

/-- What a record says about the watched dispatch it was made for: it was made when the dispatch
began, and of all outcomes it holds that of its own dispatch. Constructors have no result. -/
structure Call.Reports (r : Call) (w : WatchedCall) : Prop where
  opening : { r with result := none, raised := none } = w.opening
  result_of_returned : ∀ v, w.outcome = .returned v → r.isConstructor = false → r.result = some v
  raised_of_returned : ∀ v, w.outcome = .returned v → r.raised = none
  result_of_raised : ∀ e, w.outcome = .raised e → r.result = none
  raised_of_raised : ∀ e, w.outcome = .raised e → r.raised = some e.text
  result_of_constructor : r.isConstructor = true → r.result = none

/-- A finished record reports its dispatch. -/
theorem WatchedCall.record_reports (w : WatchedCall) : w.record.Reports w := by
  obtain ⟨target, start, outcome⟩ := w
  cases outcome with
  | returned v =>
    by_cases h : start.method = constructorName
    · constructor <;> simp [WatchedCall.record, WatchedCall.opening, Capture.ended,
        Capture.settle, Capture.recordOf, Call.isConstructor, h]
    · constructor <;> simp [WatchedCall.record, WatchedCall.opening, Capture.ended,
        Capture.settle, Capture.recordOf, Call.isConstructor, Call.complete?, h]
  | raised e =>
    constructor <;> simp [WatchedCall.record, WatchedCall.opening, Capture.ended, Capture.mark,
      Capture.recordOf]

/-- **Correlation of nested calls.** A capture that follows the events of a forest of calls from
the beginning holds exactly one record for every watched call, in the order in which the calls
began; every record reports the call it was made for, and no frame is left. -/
theorem Capture.follow_events_reports (watched : WatchList) (forest : CallForest) :
    List.Forall₂ Call.Reports (Capture.follow watched {} forest.events).records
        (forest.watchedCalls watched) ∧
      (Capture.follow watched {} forest.events).frames = [] := by
  rw [follow_events]
  refine ⟨?_, rfl⟩
  rw [List.nil_append, List.forall₂_map_left_iff, List.forall₂_same]
  exact fun w _ => w.record_reports

end MockAudit
