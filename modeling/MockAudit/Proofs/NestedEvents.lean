import MockAudit.Proofs.Building
import MockAudit.Proofs.Displacement
import MockAudit.Proofs.Session

/-!
# Nested streams of events

Observers may be subscribed and unsubscribed at any time, also while methods are running. Whatever
the host does, the events that one of them is told are properly nested, and the dispatches they
announce are exactly those that began while it was subscribed (`Machine.Built.heard_nested`).

A dispatch remembers the observers that were subscribed when it began, and tells the same ones of
its end. What an observer hears of a run is therefore decided by the *history* of the run, which
says for each dispatch which dispatches happened while it was running and how it ended: an observer
hears of the dispatches in whose beginning it was subscribed, and of no others. Since a dispatch
ends after all dispatches that happened while it was running, leaving some of them out keeps the
stream nested.

The histories are not made up: their dispatches are those of the trace of the run, and the outcome
of each of them is the one that the dispatch has on the machine on which it began.

## Main definitions

* `IsNested`: properly nested streams of events.
* `History`: the dispatches of a run, with those that happen while they are running.
* `History.heard`: what an observer hears of them.
* `Intervention`, `Host.intervening`: a host that subscribes and unsubscribes observers.
* `Machine.IsRecounted`: the history of a run that accounts for what observers hear.

## Main results

* `History.isNested_heard`: what an observer hears of a history is nested.
* `Machine.isHeard_answer`: messages have histories, however deeply they are nested.
* `Machine.Built.heard_nested`: every observer is told a nested stream of events.
-/

namespace MockAudit

/-! ### Nested streams -/

/-- A properly nested stream: each dispatch that is announced is followed by the streams of the
dispatches nested in it, and then by one event that ends it, for the same target and method. -/
inductive IsNested : List Event → Prop
  | nil : IsNested []
  | dispatch (owner : Target) (method : String) (receiver : Value) (binding : List Binding)
      (location : String) (o : Outcome) {inner later : List Event} (hinner : IsNested inner)
      (hlater : IsNested later) :
    IsNested (.called owner method receiver binding location ::
      (inner ++ .ofOutcome owner method o :: later))

theorem IsNested.append {events events' : List Event} (h : IsNested events)
    (h' : IsNested events') : IsNested (events ++ events') := by
  induction h with
  | nil => exact h'
  | dispatch owner method receiver binding location o hinner hlater ihInner ihLater =>
    rw [List.cons_append, List.append_assoc, List.cons_append]
    exact .dispatch owner method receiver binding location o hinner ihLater

/-- Whether an event announces a dispatch. -/
def Event.isCall : Event → Bool
  | .called .. => true
  | .returned .. | .unwound .. => false

@[simp] theorem Event.isCall_ofOutcome (owner : Target) (method : String) (o : Outcome) :
    (Event.ofOutcome owner method o).isCall = false := by
  cases o <;> rfl

/-! ### Histories -/

/-- A dispatch that begins: the machine just before it is announced, the entry that is about to run
with its owner, and the message. -/
structure Onset where
  machine : Machine
  owner : Target
  entry : LocatedCode
  receiver : Value
  method : String
  args : List Value

namespace Onset

/-- The event that announces a dispatch. -/
def event (start : Onset) : Event :=
  start.machine.calledEvent start.owner start.entry start.receiver start.method start.args

@[simp] theorem isCall_event (start : Onset) : start.event.isCall = true := rfl

/-- Whether an observer is subscribed when a dispatch begins. -/
def isHeardBy (start : Onset) (observer : Nat) : Bool :=
  start.machine.subscribers.contains observer

/-- A dispatch ends with an outcome on the machine on which it began. -/
def HasOutcome (host : Host) (start : Onset) (o : Outcome) : Prop :=
  ∃ depth target, start.machine.resolve target start.method = some (start.owner, start.entry) ∧
    (start.machine.dispatch host (Machine.answer host depth) target start.receiver start.method
      start.args).2 = some o

end Onset

/-- The dispatch that begins at a moment. -/
def Moment.onset? : Moment → Option Onset
  | .began machine owner entry receiver method args =>
    some { machine, owner, entry, receiver, method, args }
  | .recorded .. | .hosted .. => none

/-- The dispatches of a run: a first one with those that happen while it is running and its outcome,
and the dispatches after it. -/
inductive History
  | done
  | dispatch (start : Onset) (nested : History) (outcome : Outcome) (later : History)

namespace History

/-- One history after the other. -/
def append : History → History → History
  | done, h => h
  | dispatch start nested outcome later, h => dispatch start nested outcome (later.append h)

/-- The dispatches in the order in which they begin. -/
def onsets : History → List Onset
  | done => []
  | dispatch start nested _ later => start :: (nested.onsets ++ later.onsets)

/-- The events that an observer hears: the begin and the end of each dispatch in whose beginning it
is subscribed. -/
def heard (observer : Nat) : History → List Event
  | done => []
  | dispatch start nested outcome later =>
    if start.isHeardBy observer then
      start.event :: (nested.heard observer ++
        .ofOutcome start.owner start.method outcome :: later.heard observer)
    else nested.heard observer ++ later.heard observer

/-- Every dispatch has its own outcome. -/
def IsFaithful (host : Host) : History → Prop
  | done => True
  | dispatch start nested outcome later =>
    start.HasOutcome host outcome ∧ nested.IsFaithful host ∧ later.IsFaithful host

variable {host : Host} (h h' : History) (observer : Nat)

@[simp] theorem done_append : done.append h = h := rfl

@[simp] theorem onsets_append : (h.append h').onsets = h.onsets ++ h'.onsets := by
  induction h with
  | done => rfl
  | dispatch start nested outcome later _ ih => simp [append, onsets, ih]

@[simp] theorem heard_append :
    (h.append h').heard observer = h.heard observer ++ h'.heard observer := by
  induction h with
  | done => rfl
  | dispatch start nested outcome later _ ih =>
    rw [append, heard, heard, ih]
    split_ifs <;> simp

theorem isFaithful_append :
    (h.append h').IsFaithful host ↔ h.IsFaithful host ∧ h'.IsFaithful host := by
  induction h with
  | done => simp [IsFaithful]
  | dispatch start nested outcome later _ ih => simp only [append, IsFaithful, ih, and_assoc]

/-- **What an observer hears is nested**, whichever dispatches it misses. -/
theorem isNested_heard : IsNested (h.heard observer) := by
  induction h with
  | done => exact .nil
  | dispatch start nested outcome later ihNested ihLater =>
    rw [heard]
    split_ifs
    · exact .dispatch start.owner start.method start.receiver _ start.entry.location outcome
        ihNested ihLater
    · exact ihNested.append ihLater

/-- The dispatches that are announced to an observer are those in whose beginning it is
subscribed. -/
theorem filter_isCall_heard :
    (h.heard observer).filter Event.isCall =
      (h.onsets.filter (·.isHeardBy observer)).map Onset.event := by
  induction h with
  | done => rfl
  | dispatch start nested outcome later ihNested ihLater =>
    rw [heard, onsets, List.filter_cons, List.filter_append]
    split_ifs <;> simp [List.filter_cons, ihNested, ihLater]

end History

/-! ### What observers have received -/

namespace Machine

/-- The events that an observer has kept. A follower keeps none, and an observer that is not there
yet has not missed any. -/
def received? (m : Machine) (observer : Nat) : Option (List Event) :=
  match m.observers[observer]? with
  | none => some []
  | some (.transcript events) => some events
  | some (.follower ..) => none

/-- A machine on which no observer is subscribed twice and every one that is subscribed is known. -/
structure IsWellSubscribed (m : Machine) : Prop where
  nodup : m.subscribers.Nodup
  known : ∀ observer ∈ m.subscribers, observer < m.observers.length

private theorem received?_congr {m n : Machine} (h : n.observers = m.observers) (observer : Nat) :
    n.received? observer = m.received? observer := by
  rw [received?, received?, h]

/-- An observer that is told about an event adds it to what it has kept. -/
theorem received?_tell (m : Machine) (e : Event) {observer : Nat}
    (h : observer < m.observers.length) (observer' : Nat) :
    (m.tell e observer).received? observer' =
      (m.received? observer').map (· ++ if observer' = observer then [e] else []) := by
  have hsame : (m.received? observer').map (· ++ []) = m.received? observer' := by simp
  by_cases heq : observer' = observer
  · subst heq
    rw [if_pos rfl]
    rcases m.tell_cases e observer' with ⟨hnone, -⟩ | ⟨events, hobserver, htell⟩ |
      ⟨k, watched, log, hobserver, htell⟩
    · exact absurd (List.getElem?_eq_none_iff.mp hnone) (Nat.not_le_of_lt h)
    · rw [htell, received?, List.getElem?_set_self h, received?, hobserver]
      rfl
    · rw [htell, received?, received?, hobserver]
      rfl
  · rw [if_neg heq, hsame]
    rcases m.tell_cases e observer with ⟨-, htell⟩ | ⟨events, -, htell⟩ |
      ⟨k, watched, log, -, htell⟩
    · rw [htell]
    · rw [htell, received?, received?, List.getElem?_set_ne (Ne.symm heq)]
    · rw [htell]
      exact received?_congr rfl observer'

private theorem length_observers_tell (m : Machine) (e : Event) (observer : Nat) :
    (m.tell e observer).observers.length = m.observers.length := by
  rcases m.tell_cases e observer with ⟨-, htell⟩ | ⟨events, -, htell⟩ | ⟨k, watched, log, -, htell⟩
  · rw [htell]
  · rw [htell, List.length_set]
  · rw [htell]

private theorem length_observers_notify (m : Machine) (audience : List Nat) (e : Event) :
    (m.notify audience e).observers.length = m.observers.length := by
  induction audience generalizing m with
  | nil => rfl
  | cons observer audience ih => exact (ih _).trans (m.length_observers_tell e observer)

private theorem subscribers_notify (m : Machine) (audience : List Nat) (e : Event) :
    (m.notify audience e).subscribers = m.subscribers := by
  obtain ⟨observers, tracers, log, heq⟩ := m.notify_eq audience e
  rw [heq]

/-- **An announcement** reaches exactly its audience. -/
theorem received?_notify (m : Machine) {audience : List Nat} (hnodup : audience.Nodup)
    (hknown : ∀ observer ∈ audience, observer < m.observers.length) (e : Event) (observer : Nat) :
    (m.notify audience e).received? observer =
      (m.received? observer).map (· ++ if audience.contains observer then [e] else []) := by
  induction audience generalizing m with
  | nil => simp [notify]
  | cons first audience ih =>
    obtain ⟨hfirst, hnodup⟩ := List.nodup_cons.mp hnodup
    obtain ⟨hlt, hknown⟩ := List.forall_mem_cons.mp hknown
    rw [notify, List.foldl_cons, ← notify,
      ih (m.tell e first) hnodup (by rwa [m.length_observers_tell e first]),
      m.received?_tell e hlt, Option.map_map]
    congr 1
    funext events
    by_cases heq : observer = first
    · subst heq
      simp [hfirst]
    · simp [heq]

/-- The announcement of a dispatch leaves the subscriptions as they are. -/
theorem IsWellSubscribed.notify {m : Machine} (h : m.IsWellSubscribed) (audience : List Nat)
    (e : Event) : (m.notify audience e).IsWellSubscribed := by
  refine ⟨?_, ?_⟩
  · rw [m.subscribers_notify]
    exact h.nodup
  · rw [m.subscribers_notify, m.length_observers_notify]
    exact h.known

/-- One more observer that is known may be subscribed if it is not subscribed yet. -/
theorem IsWellSubscribed.append {m n : Machine} (h : m.IsWellSubscribed) {observer : Nat}
    (hnew : observer ∉ m.subscribers) (hknown : observer < n.observers.length)
    (hobservers : m.observers.length ≤ n.observers.length)
    (hsubscribers : n.subscribers = m.subscribers ++ [observer]) : n.IsWellSubscribed where
  nodup := by
    rw [hsubscribers, ← List.concat_eq_append, List.nodup_concat]
    exact ⟨hnew, h.nodup⟩
  known other hmem := by
    rw [hsubscribers] at hmem
    rcases List.mem_append.mp hmem with hmem | hmem
    · exact Nat.lt_of_lt_of_le (h.known other hmem) hobservers
    · rwa [List.mem_singleton.mp hmem]

/-- What happens between two machines lets observers hear a history: whatever one of them has kept
at the end, it had kept before, or it is what the observer hears of the history. -/
structure Tells (m : Machine) (h : History) (n : Machine) : Prop where
  known : m.observers.length ≤ n.observers.length
  received : ∀ observer events, n.received? observer = some events →
    ∃ before, m.received? observer = some before ∧ events = before ++ h.heard observer

theorem Tells.trans {l m n : Machine} {h h' : History} (hlm : l.Tells h m) (hmn : m.Tells h' n) :
    l.Tells (h.append h') n := by
  refine ⟨Nat.le_trans hlm.known hmn.known, fun observer events hevents => ?_⟩
  obtain ⟨between, hbetween, rfl⟩ := hmn.received observer events hevents
  obtain ⟨before, hbefore, rfl⟩ := hlm.received observer between hbetween
  exact ⟨before, hbefore, by rw [History.heard_append, List.append_assoc]⟩

/-- A dispatch tells its audience of its begin and of its end. The audience of the end is that of
the begin, whoever has been subscribed since then. -/
theorem Tells.dispatch {start : Onset} {nested : History} {n : Machine}
    (h : (start.machine.notify start.machine.subscribers start.event).Tells nested n)
    (hstart : start.machine.IsWellSubscribed) (o : Outcome) :
    start.machine.Tells (.dispatch start nested o .done)
      (n.notify start.machine.subscribers (.ofOutcome start.owner start.method o)) := by
  have hgrown := h.known
  rw [length_observers_notify] at hgrown
  have hbegan := start.machine.received?_notify hstart.nodup hstart.known start.event
  have hended := n.received?_notify hstart.nodup
    (fun observer hmem => Nat.lt_of_lt_of_le (hstart.known observer hmem) hgrown)
    (.ofOutcome start.owner start.method o)
  refine ⟨by rwa [length_observers_notify], fun observer events hevents => ?_⟩
  rw [hended observer, Option.map_eq_some_iff] at hevents
  obtain ⟨ended, hended, rfl⟩ := hevents
  obtain ⟨begun, hbegun, rfl⟩ := h.received observer ended hended
  rw [hbegan observer, Option.map_eq_some_iff] at hbegun
  obtain ⟨before, hbefore, rfl⟩ := hbegun
  refine ⟨before, hbefore, ?_⟩
  by_cases hmem : observer ∈ start.machine.subscribers <;>
    simp [History.heard, Onset.isHeardBy, hmem]

end Machine

/-! ### Hosts that intervene -/

/-- What a host does when it is called: it subscribes a new observer that keeps all events, ends a
subscription, subscribes an observer again that is there already, or performs an operation on
tracers and stubs. -/
inductive Intervention
  | subscribe
  | unsubscribe (observer : Nat)
  | resubscribe (observer : Nat)
  | perform (op : Operation)

/-- Intervenes. An observer that is subscribed, or that is not there, cannot be subscribed again. -/
def Machine.intervene (m : Machine) : Intervention → Machine
  | .subscribe => (m.subscribe (.transcript [])).1
  | .unsubscribe observer => m.unsubscribe observer
  | .resubscribe observer =>
    if observer < m.observers.length ∧ observer ∉ m.subscribers then
      { m with subscribers := m.subscribers ++ [observer] }
    else m
  | .perform op => m.perform op

/-- A host that intervenes as a plan says for its number and the state. -/
def Host.intervening (plan : Nat → Machine → Intervention) : Host :=
  fun number m => m.intervene (plan number m)

namespace Machine

/-- A change of subscriptions by which nobody hears anything. -/
structure Resubscribes (m n : Machine) : Prop where
  tells : m.Tells .done n
  wellSubscribed : m.IsWellSubscribed → n.IsWellSubscribed

section

variable {m n : Machine}

private theorem tells_done_of_observers (hobservers : n.observers = m.observers) :
    m.Tells .done n where
  known := Nat.le_of_eq (congrArg List.length hobservers.symm)
  received observer events hevents :=
    ⟨events, by rwa [received?_congr hobservers] at hevents, (List.append_nil events).symm⟩

/-- Subscriptions may end. -/
theorem resubscribes_of_sublist (hobservers : n.observers = m.observers)
    (hsubscribers : n.subscribers.Sublist m.subscribers) : m.Resubscribes n where
  tells := tells_done_of_observers hobservers
  wellSubscribed h := {
    nodup := h.nodup.sublist hsubscribers
    known := fun observer hmem => by
      rw [hobservers]
      exact h.known observer (hsubscribers.subset hmem) }

/-- A new observer may be subscribed that has not kept any event. -/
theorem resubscribes_of_append {o : Observer}
    (hnew : ∀ events, o = .transcript events → events = [])
    (hobservers : n.observers = m.observers ++ [o])
    (hsubscribers : n.subscribers = m.subscribers ++ [m.observers.length]) : m.Resubscribes n where
  tells := {
    known := by simp [hobservers]
    received := fun observer events hevents => by
      refine ⟨events, ?_, (List.append_nil events).symm⟩
      rw [received?, hobservers, List.getElem?_append] at hevents
      split_ifs at hevents with hlt
      · exact hevents
      · have hnone : m.received? observer = some [] := by
          rw [received?, List.getElem?_eq_none (Nat.le_of_not_lt hlt)]
        rw [hnone]
        cases hi : observer - m.observers.length with
        | succ i =>
          rw [hi, List.getElem?_eq_none (by simp)] at hevents
          exact hevents
        | zero =>
          rw [hi, List.getElem?_cons_zero] at hevents
          cases o with
          | transcript events' =>
            rw [hnew events' rfl] at hevents
            exact hevents
          | follower tracer watched => cases hevents }
  wellSubscribed h := h.append (fun hmem => Nat.lt_irrefl _ (h.known _ hmem))
    (by simp [hobservers]) (by simp [hobservers]) hsubscribers

end

/-- The operations on tracers and stubs let nobody hear anything. -/
theorem resubscribes_perform (m : Machine) (op : Operation) : m.Resubscribes (m.perform op) := by
  cases op with
  | start tracer =>
    rw [perform]
    rcases m.startTracer_cases tracer with hrefused | ⟨t, lines, -, -, hstarted⟩
    · rw [hrefused]
      exact resubscribes_of_sublist rfl (.refl _)
    · rw [hstarted]
      rcases m.intercept_cases tracer t with ⟨methods, log, displaced, hintercept, -⟩ | hintercept
      · rw [hintercept]
        exact resubscribes_of_sublist rfl (.refl _)
      · rw [hintercept]
        exact resubscribes_of_append (o := .follower tracer t.watched) nofun rfl rfl
  | stop tracer =>
    rw [perform]
    split
    · rename_i n calls hstop
      rcases stopTracer_cases hstop with ⟨-, rfl, -⟩ | ⟨t, stats, -, -, rfl⟩ |
        ⟨t, n, lines, stats, -, ⟨-, rfl⟩ | ⟨displaced | observer, -, rfl⟩, -, rfl⟩
      · exact resubscribes_of_sublist rfl (.refl _)
      · exact resubscribes_of_sublist rfl (.refl _)
      · exact resubscribes_of_sublist rfl (.refl _)
      · rw [release, restoreAll_eq]
        exact resubscribes_of_sublist rfl (.refl _)
      · exact resubscribes_of_sublist rfl List.filter_sublist
    · exact resubscribes_of_sublist rfl (.refl _)
  | attach registry sink =>
    obtain ⟨methods, doubleHandler, stubSets, log, hattach⟩ := m.attachStubs_eq registry sink
    rw [perform, hattach]
    exact resubscribes_of_sublist rfl (.refl _)
  | detach stubs =>
    obtain ⟨methods, doubleHandler, stubSets, hdetach⟩ := m.detachStubs_eq stubs
    rw [perform, hdetach]
    exact resubscribes_of_sublist rfl (.refl _)
  | addTracer | register | observe | openStore | enterTestCase | leaveTestCase =>
    exact resubscribes_of_sublist rfl (.refl _)

/-- **Interventions** change subscriptions, and nobody hears of them. -/
theorem resubscribes_intervene (m : Machine) (i : Intervention) :
    m.Resubscribes (m.intervene i) := by
  cases i with
  | subscribe =>
    exact resubscribes_of_append (o := .transcript []) (fun events h => by cases h; rfl) rfl rfl
  | unsubscribe observer => exact resubscribes_of_sublist rfl List.filter_sublist
  | resubscribe observer =>
    rw [intervene]
    split_ifs with hcan
    · exact ⟨tells_done_of_observers rfl, fun h => h.append hcan.2 hcan.1 (Nat.le_refl _) rfl⟩
    · exact resubscribes_of_sublist rfl (.refl _)
  | perform op => exact m.resubscribes_perform op

/-! ### Runs -/

/-- A history of a part of a run with a given trace: it lets observers hear what they do hear, its
dispatches are those of the trace, and each has its own outcome. -/
structure IsRecounted (host : Host) (m : Machine) (trace : List Moment) (n : Machine)
    (h : History) : Prop where
  wellSubscribed : n.IsWellSubscribed
  tells : m.Tells h n
  onsets : h.onsets = trace.filterMap Moment.onset?
  faithful : h.IsFaithful host

/-- A part of a run that has a history if it comes to an end. -/
def IsHeard (host : Host) (m : Machine) (trace : List Moment) (x : Reply) : Prop :=
  m.IsWellSubscribed → ∀ n o, x = (n, some o) → ∃ h, IsRecounted host m trace n h

namespace IsHeard

variable {host : Host} {m n : Machine} {trace : List Moment} {x : Reply}

/-- Nothing is heard of changes apart from observers and subscriptions. -/
theorem silent (hobservers : x.1.observers = m.observers)
    (hsubscribers : x.1.subscribers = m.subscribers) : IsHeard host m [] x := by
  rintro hm n o rfl
  have hn : m.Resubscribes n := resubscribes_of_sublist hobservers (by rw [hsubscribers])
  exact ⟨.done, hn.wellSubscribed hm, hn.tells, rfl, trivial⟩

/-- A change of subscriptions may come first. -/
theorem after (h : IsHeard host n trace x) (hn : m.Resubscribes n) : IsHeard host m trace x := by
  intro hm n' o heq
  obtain ⟨history, hhistory⟩ := h (hn.wellSubscribed hm) n' o heq
  exact ⟨history, hhistory.wellSubscribed, hn.tells.trans hhistory.tells, hhistory.onsets,
    hhistory.faithful⟩

/-- Nothing is heard of moments at which no dispatch begins. -/
theorem cons (h : IsHeard host m trace x) {moment : Moment} (hmoment : moment.onset? = none) :
    IsHeard host m (moment :: trace) x := by
  intro hm n o heq
  obtain ⟨history, hhistory⟩ := h hm n o heq
  refine ⟨history, hhistory.wellSubscribed, hhistory.tells, ?_, hhistory.faithful⟩
  rw [hhistory.onsets, List.filterMap_cons_none hmoment]

/-- What goes on with the outcome of a reply continues its history. -/
theorem andThen (h : IsHeard host m trace x) {f : Machine → Outcome → Reply}
    {rest : Machine → Outcome → List Moment} (hf : ∀ m' o, IsHeard host m' (rest m' o) (f m' o)) :
    IsHeard host m (trace ++ x.traceThen rest) (x.andThen f) := by
  intro hm n o heq
  obtain ⟨m', _ | o'⟩ := x
  · cases heq
  · obtain ⟨first, hfirst⟩ := h hm m' o' rfl
    obtain ⟨second, hsecond⟩ := hf m' o' hfirst.wellSubscribed n o heq
    refine ⟨first.append second, hsecond.wellSubscribed, hfirst.tells.trans hsecond.tells, ?_,
      (History.isFaithful_append first second).mpr ⟨hfirst.faithful, hsecond.faithful⟩⟩
    rw [History.onsets_append, hfirst.onsets, hsecond.onsets, List.filterMap_append,
      Reply.traceThen_some]

/-- What is silent and leaves no trace continues a history without adding to it. -/
theorem andThen_silent (h : IsHeard host m trace x) {f : Machine → Outcome → Reply}
    (hf : ∀ m' o, (f m' o).1.observers = m'.observers ∧ (f m' o).1.subscribers = m'.subscribers) :
    IsHeard host m trace (x.andThen f) := by
  have hcontinued : IsHeard host m (trace ++ x.traceThen fun _ _ => []) (x.andThen f) :=
    h.andThen fun m' o => silent (hf m' o).1 (hf m' o).2
  rwa [show x.traceThen (fun _ _ => []) = [] by obtain ⟨m', _ | o⟩ := x <;> rfl,
    List.append_nil] at hcontinued

end IsHeard

/-! ### Messages and programs -/

section

variable {host : Host} {m : Machine}

/-- A dispatch adds itself to the history, with all that happens while its implementation runs. -/
theorem isHeard_enact {depth : Nat} {target owner : Target} {method : String} {entry : LocatedCode}
    (hresolve : m.resolve target method = some (owner, entry)) {receiver : Value}
    {args : List Value} {trace : List Moment}
    (hrun : IsHeard host
      (m.notify m.subscribers (m.calledEvent owner entry receiver method args)) trace
      (entry.implementation.run host (Machine.answer host depth)
        (m.notify m.subscribers (m.calledEvent owner entry receiver method args)) receiver args)) :
    IsHeard host m (.began m owner entry receiver method args :: trace)
      (m.enact host (Machine.answer host depth) owner entry receiver method args) := by
  intro hm n o heq
  have houtcome : (m.dispatch host (Machine.answer host depth) target receiver method args).2 =
      some o := by
    rw [dispatch_of_resolve _ _ hresolve, heq]
  rw [enact] at heq
  rcases hreply : entry.implementation.run host (Machine.answer host depth)
    (m.notify m.subscribers (m.calledEvent owner entry receiver method args)) receiver args
    with ⟨m', _ | o'⟩
  · rw [hreply] at heq
    cases heq
  · rw [hreply] at heq
    cases heq
    obtain ⟨nested, hnested⟩ := hrun (hm.notify _ _) m' o hreply
    let start : Onset := ⟨m, owner, entry, receiver, method, args⟩
    exact ⟨.dispatch start nested o .done, hnested.wellSubscribed.notify _ _,
      @Tells.dispatch start nested m' hnested.tells hm o,
      by simp [History.onsets, Moment.onset?, hnested.onsets, start],
      ⟨depth, target, hresolve, houtcome⟩, hnested.faithful, trivial⟩

/-- All messages have histories. -/
def AnswersHeard (host : Host) (depth : Nat) : Prop :=
  ∀ (m : Machine) (message : Message),
    IsHeard host m (Machine.trace host depth m message) (Machine.answer host depth m message)

variable {depth : Nat} (hhost : ∀ number (m : Machine), m.Resubscribes (host number m))
  (hanswer : AnswersHeard host depth)
include hhost hanswer

/-- A procedure has a history if its messages have. -/
theorem isHeard_procedure (p : Procedure) (m : Machine) :
    IsHeard host m (p.trace host (Machine.answer host depth) (Machine.trace host depth) m)
      (p.run host (Machine.answer host depth) m) := by
  induction p generalizing m with
  | finish o => exact .silent rfl rfl
  | onHeap work next ih =>
    exact (ih _ _).after (resubscribes_of_sublist rfl (.refl _))
  | callback number next ih => exact ((ih _).after (hhost number m)).cons rfl
  | send receiver method args next ih =>
    rw [Procedure.run_send]
    exact (hanswer m _).andThen fun m' o => ih o m'
  | construct type args next ih =>
    rw [Procedure.run_construct]
    exact (hanswer m _).andThen fun m' o => ih o m'
  | allocate type args next ih =>
    rw [Procedure.run_allocate]
    exact (hanswer m _).andThen fun m' o => ih o m'

/-- An implementation has a history if messages have. -/
theorem isHeard_implementation (i : Implementation) (m : Machine) (receiver : Value)
    (args : List Value) :
    IsHeard host m
      (i.trace host (Machine.answer host depth) (Machine.trace host depth) m receiver args)
      (i.run host (Machine.answer host depth) m receiver args) := by
  induction i generalizing m with
  | code body => exact isHeard_procedure hhost hanswer (body receiver args) m
  | stubbed key stubs sink =>
    rw [Implementation.run, Implementation.trace]
    split
    · obtain ⟨stores, log, heq⟩ := m.answerFrom_eq _ receiver args sink
      exact .silent (by rw [heq]) (by rw [heq])
    · exact .silent rfl rfl
  | recorder tracer key shape location inner ih =>
    rw [Implementation.run_recorder, Implementation.trace]
    have hrecorded := (ih (m.recording tracer (m.recordedCall key shape location args))).after
      (m := m) (resubscribes_of_sublist rfl (.refl _))
    exact (hrecorded.andThen_silent fun m' o => ⟨rfl, rfl⟩).cons rfl

private theorem isHeard_dispatch (m : Machine) (target : Target) (receiver : Value)
    (method : String) (args : List Value) :
    IsHeard host m
      (m.dispatchTrace host (Machine.answer host depth) (Machine.trace host depth) target receiver
        method args)
      (m.dispatch host (Machine.answer host depth) target receiver method args) := by
  rw [dispatchTrace]
  cases hresolve : m.resolve target method with
  | none =>
    rw [dispatch_of_resolve_none _ _ hresolve]
    exact .silent rfl rfl
  | some found =>
    rw [dispatch_of_resolve _ _ hresolve]
    exact isHeard_enact hresolve (isHeard_implementation hhost hanswer _ _ receiver args)

private theorem isHeard_allocate (m : Machine) (type : TypeName) (args : List Value) :
    IsHeard host m
      (m.allocateTrace host (Machine.answer host depth) (Machine.trace host depth) type args)
      (m.allocate host (Machine.answer host depth) type args) := by
  rw [allocateTrace]
  cases hresolve : (m.allocated type).resolve (.instances type) constructorName with
  | none =>
    rw [allocate_of_resolve_none _ _ hresolve, dispatchTrace, hresolve]
    exact .silent rfl rfl
  | some found =>
    rw [allocate_of_resolve _ _ hresolve]
    have hconstructed := (isHeard_dispatch hhost hanswer (m.allocated type) (.instances type)
      (.object m.heap.next type) constructorName args).after (m := m)
      (resubscribes_of_sublist rfl (.refl _))
    exact hconstructed.andThen_silent fun m' o => ⟨rfl, rfl⟩

private theorem isHeard_handle (m : Machine) (message : Message) :
    IsHeard host m
      (m.handleTrace host (Machine.answer host depth) (Machine.trace host depth) message)
      (m.handle host (Machine.answer host depth) message) := by
  cases message with
  | send receiver method args =>
    cases receiver with
    | double d =>
      obtain ⟨stores, log, heq⟩ := m.answerDouble_eq d method args
      exact .silent (by rw [handle, heq]) (by rw [handle, heq])
    | _ => exact isHeard_dispatch hhost hanswer m _ _ method args
  | construct type args =>
    rw [Machine.handle, handleTrace]
    cases m.resolve (.typeItself type) allocatorName with
    | some found => exact isHeard_dispatch hhost hanswer m _ _ _ args
    | none => exact isHeard_allocate hhost hanswer m type args
  | allocate type args => exact isHeard_allocate hhost hanswer m type args

end

/-- Messages have histories, however deeply they are nested. -/
theorem isHeard_answer {host : Host}
    (hhost : ∀ number (m : Machine), m.Resubscribes (host number m)) (depth : Nat) :
    AnswersHeard host depth := by
  induction depth with
  | zero =>
    rintro m message - n o heq
    cases heq
  | succ depth ih => exact isHeard_handle hhost ih

/-- **Nested streams.** Whatever a host does while a program runs, in whatever moments: there is a
history of the dispatches that began in the run, each with its own outcome, and every observer hears
a properly nested part of it, in which exactly those dispatches are announced that began while it
was subscribed. What an observer has kept in the end is what it heard. -/
theorem Built.heard_nested {m n : Machine} (hm : m.Built) (plan : Nat → Machine → Intervention)
    (depth : Nat) {program : Procedure} {o : Outcome}
    (hrun : m.execute (.intervening plan) depth program = (n, some o)) :
    ∃ h : History, h.IsFaithful (.intervening plan) ∧
      h.onsets = (m.executionTrace (.intervening plan) depth program).filterMap Moment.onset? ∧
      ∀ observer, IsNested (h.heard observer) ∧
        (h.heard observer).filter Event.isCall =
          (h.onsets.filter (·.isHeardBy observer)).map Onset.event ∧
        ∀ events, n.observers[observer]? = some (.transcript events) →
          events = h.heard observer := by
  have hhost (number : Nat) (m : Machine) : m.Resubscribes (Host.intervening plan number m) :=
    m.resubscribes_intervene (plan number m)
  obtain ⟨hsubscribers, -, -, -⟩ := hm.unattached
  obtain ⟨h, hh⟩ := isHeard_procedure hhost (isHeard_answer hhost depth) program m
    ⟨by simp [hsubscribers], by simp [hsubscribers]⟩ n o hrun
  refine ⟨h, hh.faithful, hh.onsets, fun observer =>
    ⟨h.isNested_heard observer, h.filter_isCall_heard observer, fun events hevents => ?_⟩⟩
  obtain ⟨before, hbefore, rfl⟩ := hh.tells.received observer events (by rw [received?, hevents])
  have hnew : m.received? observer = some [] := by
    rw [received?, hm.observers, List.getElem?_nil]
  cases hbefore.symm.trans hnew
  rfl

end Machine

/-! ### Observers that come and go -/

/-- An observer is subscribed before the welcome and leaves during it; a second one is subscribed
during the welcome and stays. -/
def attendance : Nat → Machine → Intervention
  | 0, _ | 1, _ => .subscribe
  | _, _ => .unsubscribe 0

/-- Each of two observers, of which one leaves and one comes while a method runs, hears of two
dispatches: the one of the welcome and the greeting in it, the other of two greetings. -/
theorem heard_nested_of_reception :
    let program : Procedure :=
      .callback 0 <| .send (.type "Greeter") "welcome" [] fun _ =>
        .send (.type "Greeter") "greet" [.str "Bob"] .finish
    reception.Built ∧
      ∃ n o, reception.execute (.intervening attendance) 2 program = (n, some o) ∧
        (n.received? 0).map List.length = some 4 ∧ (n.received? 1).map List.length = some 4 ∧
        ∃ h : History, h.IsFaithful (.intervening attendance) ∧
          h.onsets = (reception.executionTrace (.intervening attendance) 2 program).filterMap
            Moment.onset? ∧
          ∀ observer, IsNested (h.heard observer) ∧
            (h.heard observer).filter Event.isCall =
              (h.onsets.filter (·.isHeardBy observer)).map Onset.event ∧
            ∀ events, n.observers[observer]? = some (.transcript events) →
              events = h.heard observer := by
  intro program
  exact ⟨reception_built, _, _, rfl, rfl, rfl, reception_built.heard_nested attendance 2 rfl⟩

end MockAudit
