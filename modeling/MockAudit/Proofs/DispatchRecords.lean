import MockAudit.Proofs.Frames
import MockAudit.Proofs.Resolution
import MockAudit.Proofs.Strategies
import MockAudit.Proofs.Transparency

/-!
# The records of one dispatch

A tracer that wraps goes through the registered methods one after the other and puts a recorder
around whatever handles each of them when its turn comes (`Machine.FoundAt`). If a target only
inherits the method, that may be the recorder of another target that was wrapped before. The new
recorder is then put around that one, and a dispatch that passes through both is recorded twice.

How often a dispatch is recorded is thus decided by the order of the registrations
(`Machine.ownRecords_startTracing_wrap`). The dispatches of a run are those of its trace, and each
begins with the implementation that is found for its receiver
(`Machine.isResolved_of_mem_executionTrace`); its own records are one for each recorder of that
implementation (`Machine.map_ownRecords`). The entry of a wrapped method has its own recorder and
those of what it was put around. Which those are is not changed by what is wrapped later, since each
method is registered once.

## Main definitions

* `Machine.ownRecords`: the records that a dispatch makes itself, without those of its messages.
* `Machine.wrapAll`: the machine on which methods have been wrapped one after the other.
* `Machine.FoundAt`: where a registered method is found when its turn comes.

## Main results

* `Machine.isResolved_of_mem_executionTrace`: what the dispatches of a run begin with.
* `Machine.exists_recorders`, `Machine.one_lt_length_recorders_iff`: the recorders of an entry.
* `Machine.ownRecords_startTracing_wrap`: how often a dispatch is recorded, and for which target.
-/

namespace MockAudit

/-! ### What a dispatch begins with -/

/-- A dispatch begins with the implementation that is found for its receiver. -/
def Moment.IsResolved : Moment → Prop
  | .began m owner entry receiver method _ =>
    m.resolve (.ofReceiver receiver) method = some (owner, entry)
  | .recorded .. | .hosted .. => True

private theorem Reply.exists_of_mem_traceThen {x : Reply} {rest : Machine → Outcome → List Moment}
    {moment : Moment} (h : moment ∈ x.traceThen rest) : ∃ m o, moment ∈ rest m o := by
  obtain ⟨m, _ | o⟩ := x
  · cases h
  · exact ⟨m, o, h⟩

section

variable {host : Host} {answer : Machine → Message → Reply}
  {traced : Machine → Message → List Moment}

/-- The moments of a procedure are those in which the host acts and those of its messages. -/
theorem Procedure.forall_mem_trace {P : Moment → Prop}
    (hhosted : ∀ m number, P (.hosted m number))
    (htraced : ∀ m message, ∀ moment ∈ traced m message, P moment) (p : Procedure) (m : Machine) :
    ∀ moment ∈ p.trace host answer traced m, P moment := by
  intro moment hmem
  induction p generalizing m with
  | finish o => cases hmem
  | onHeap work next ih => exact ih _ _ hmem
  | send _ _ _ next ih | construct _ _ next ih | allocate _ _ next ih =>
    rcases List.mem_append.mp hmem with hmem | hmem
    · exact htraced _ _ _ hmem
    · obtain ⟨m', o, hmem⟩ := Reply.exists_of_mem_traceThen hmem
      exact ih o m' hmem
  | callback number next ih =>
    rcases List.mem_cons.mp hmem with rfl | hmem
    · exact hhosted m number
    · exact ih _ hmem

section

variable (htraced : ∀ m message, ∀ moment ∈ traced m message, moment.IsResolved)
include htraced

private theorem Implementation.isResolved_of_mem_trace (i : Implementation) (m : Machine)
    (receiver : Value) (args : List Value) {moment : Moment}
    (hmem : moment ∈ i.trace host answer traced m receiver args) : moment.IsResolved := by
  induction i generalizing m with
  | code body =>
    exact (body receiver args).forall_mem_trace (fun _ _ => trivial) htraced m moment hmem
  | stubbed key stubs sink => cases hmem
  | recorder tracer key shape location inner ih =>
    rcases List.mem_cons.mp hmem with rfl | hmem
    · exact trivial
    · exact ih _ hmem

private theorem Machine.isResolved_of_mem_dispatchTrace (m : Machine) (receiver : Value)
    (method : String) (args : List Value) {moment : Moment}
    (hmem : moment ∈ m.dispatchTrace host answer traced (.ofReceiver receiver) receiver method
      args) : moment.IsResolved := by
  rw [dispatchTrace] at hmem
  cases hresolve : m.resolve (.ofReceiver receiver) method with
  | none =>
    rw [hresolve] at hmem
    cases hmem
  | some found =>
    rw [hresolve] at hmem
    rcases List.mem_cons.mp hmem with rfl | hmem
    · exact hresolve
    · exact found.2.implementation.isResolved_of_mem_trace htraced _ receiver args hmem

private theorem Machine.isResolved_of_mem_handleTrace (m : Machine) (message : Message)
    {moment : Moment} (hmem : moment ∈ m.handleTrace host answer traced message) :
    moment.IsResolved := by
  -- The receiver of a constructor is an object of the type, that of an allocator is the type.
  have hallocate (type : TypeName) (args : List Value)
      (hmem : moment ∈ m.allocateTrace host answer traced type args) : moment.IsResolved :=
    (m.allocated type).isResolved_of_mem_dispatchTrace htraced (.object m.heap.next type)
      constructorName args hmem
  cases message with
  | send receiver method args =>
    cases receiver with
    | double d => cases hmem
    | _ => exact m.isResolved_of_mem_dispatchTrace htraced _ method args hmem
  | construct type args =>
    rw [handleTrace] at hmem
    split at hmem
    · exact m.isResolved_of_mem_dispatchTrace htraced (.type type) allocatorName args hmem
    · exact hallocate type args hmem
  | allocate type args => exact hallocate type args hmem

end

/-- **Every dispatch of a run** begins with the implementation that is found for its receiver. -/
theorem Machine.isResolved_of_mem_executionTrace (host : Host) (depth : Nat) (m : Machine)
    (program : Procedure) {moment : Moment} (hmem : moment ∈ m.executionTrace host depth program) :
    moment.IsResolved := by
  have htrace (depth : Nat) : ∀ m message, ∀ moment ∈ Machine.trace host depth m message,
      moment.IsResolved := by
    induction depth with
    | zero => exact fun _ _ _ hmem => absurd hmem List.not_mem_nil
    | succ depth ih =>
      exact fun m message _ hmem => m.isResolved_of_mem_handleTrace ih message hmem
  exact program.forall_mem_trace (fun _ _ => trivial) (htrace depth) m moment hmem

end

/-- A program that sends a message to an object begins with the dispatch of that message. -/
theorem Machine.began_mem_executionTrace_send {m : Machine} {type : TypeName}
    {owner : Target} {entry : LocatedCode} {method : String}
    (hresolve : m.resolve (.instances type) method = some (owner, entry)) (host : Host)
    (depth id : Nat) (args : List Value) (next : Outcome → Procedure) :
    .began m owner entry (.object id type) method args ∈
      m.executionTrace host (depth + 1) (.send (.object id type) method args next) := by
  simp only [executionTrace, Procedure.trace, Machine.trace, handleTrace, Target.ofReceiver,
    Value.typeName, dispatchTrace, hresolve]
  exact List.mem_append_left _ List.mem_cons_self

/-! ### The records that a dispatch makes itself -/

/-- The methods for which the recorders of a tracer in an implementation make records, the outer
ones first. -/
def Implementation.recorders (tracer : Nat) : Implementation → List MethodRef
  | .recorder k key _ _ inner => (if k = tracer then [key] else []) ++ inner.recorders tracer
  | .code _ | .stubbed .. => []

/-- The record that is made for a tracer at a moment. -/
def Moment.record? (tracer : Nat) : Moment → Option Call
  | .recorded _ k call _ => if k = tracer then some call else none
  | .began .. | .hosted .. => none

/-- The records that a dispatch itself makes for a tracer: those of its trace when all that comes
of the messages it leads to is left out. -/
def Machine.ownRecords (host : Host) (answer : Machine → Message → Reply) (m : Machine)
    (tracer : Nat) (receiver : Value) (method : String) (args : List Value) : List Call :=
  (m.dispatchTrace host answer (fun _ _ => []) (.ofReceiver receiver) receiver method
    args).filterMap (Moment.record? tracer)

section

variable (host : Host) (answer : Machine → Message → Reply) (tracer : Nat)

/-- A procedure makes no records itself. -/
theorem Procedure.filterMap_record?_trace (p : Procedure) (m : Machine) :
    (p.trace host answer (fun _ _ => []) m).filterMap (Moment.record? tracer) = [] :=
  List.filterMap_eq_nil_iff.mpr
    (p.forall_mem_trace (fun _ _ => rfl) (fun _ _ _ hmem => absurd hmem List.not_mem_nil) m)

/-- An implementation makes one record for each of its recorders. -/
theorem Implementation.map_filterMap_record?_trace (i : Implementation) (m : Machine)
    (receiver : Value) (args : List Value) :
    ((i.trace host answer (fun _ _ => []) m receiver args).filterMap (Moment.record? tracer)).map
        (fun c => ((c.target, c.method), c.arguments)) =
      (i.recorders tracer).map fun key => (key, args) := by
  induction i generalizing m with
  | code body =>
    rw [Implementation.trace, Procedure.filterMap_record?_trace]
    rfl
  | stubbed key stubs sink => rfl
  | recorder k key shape location inner ih =>
    rw [Implementation.trace, recorders, List.filterMap_cons, Moment.record?]
    split_ifs with hk
    · exact congrArg _ (ih _)
    · exact ih _

/-- A dispatch makes one record for each recorder of the implementation that is found. -/
theorem Machine.map_ownRecords {m : Machine} {owner : Target} {e : LocatedCode} {receiver : Value}
    {method : String} (hresolve : m.resolve (.ofReceiver receiver) method = some (owner, e))
    (args : List Value) :
    (m.ownRecords host answer tracer receiver method args).map
        (fun c => ((c.target, c.method), c.arguments)) =
      (e.implementation.recorders tracer).map fun key => (key, args) := by
  rw [ownRecords, dispatchTrace, hresolve]
  exact e.implementation.map_filterMap_record?_trace host answer tracer _ receiver args

end

/-! ### Wrapping one method after the other -/

namespace Machine

/-- The machine on which methods have been wrapped one after the other. -/
def wrapAll (m : Machine) (tracer : Nat) (keys : List MethodRef) : Machine :=
  (keys.foldl (wrap tracer) (m, [])).1

/-- Machines that find the same implementations for messages. -/
structure DispatchesAs (m n : Machine) : Prop where
  catalog : n.catalog = m.catalog
  methods : n.methods = m.methods

/-- No step of a program changes what is found for messages. -/
theorem isFrame_dispatchesAs (change : Nat → List TestContext → List TestContext) :
    IsFrame DispatchesAs (.ofContexts change) where
  refl _ := ⟨rfl, rfl⟩
  trans h h' := ⟨h'.catalog.trans h.catalog, h'.methods.trans h.methods⟩
  heap _ _ := ⟨rfl, rfl⟩
  callback _ _ := ⟨rfl, rfl⟩
  notify m audience e := by
    obtain ⟨observers, tracers, log, hnotify⟩ := m.notify_eq audience e
    rw [hnotify]
    exact ⟨rfl, rfl⟩
  deliver m sink c := by
    rw [deliver]
    split <;> exact ⟨rfl, rfl⟩
  recording _ _ _ _ _ _ := ⟨rfl, rfl⟩
  recordEnded _ _ _ _ := ⟨rfl, rfl⟩

variable {m n : Machine} {tracer : Nat} {key : MethodRef} {keys before after : List MethodRef}
  {state state' : Machine × List Displaced}

/-- Wrapping leaves the entries of all other methods alone. -/
theorem methods_wrap_other (tracer : Nat) (state : Machine × List Displaced) {key key' : MethodRef}
    (hne : key' ≠ key) : (wrap tracer state key).1.methods key' = state.1.methods key' := by
  rcases wrap_cases tracer state.1 state.2 key with ⟨-, lines, hwrap⟩ | ⟨owner, e, -, hwrap⟩
  · rw [hwrap]
    rfl
  · rw [hwrap]
    exact MethodTable.put_other _ _ hne

/-- The entry of a wrapped method is a recorder around what is found when its turn comes. -/
theorem methods_wrap_same (tracer : Nat) (state : Machine × List Displaced) (key : MethodRef) :
    (wrap tracer state key).1.methods key =
      (state.1.resolve key.1 key.2).map fun (_, e) =>
        ⟨.recorder tracer key (state.1.shape? key) e.location e.implementation, e.location⟩ := by
  rcases wrap_cases tracer state.1 state.2 key with
    ⟨hresolve, lines, hwrap⟩ | ⟨owner, e, hresolve, hwrap⟩
  · rw [hwrap, hresolve]
    -- What nothing handles has no entry of its own.
    refine Option.eq_none_iff_forall_ne_some.mpr fun e (he : state.1.methods key = some e) => ?_
    rw [resolve_of_methods he] at hresolve
    cases hresolve
  · rw [hwrap, hresolve]
    exact MethodTable.put_same _ _ _

private theorem methods_foldl_wrap_of_not_mem (hkey : key ∉ keys)
    (state : Machine × List Displaced) :
    (keys.foldl (wrap tracer) state).1.methods key = state.1.methods key := by
  induction keys generalizing state with
  | nil => rfl
  | cons first keys ih =>
    obtain ⟨hfirst, hkeys⟩ := List.ne_and_not_mem_of_not_mem_cons hkey
    rw [List.foldl_cons, ih hkeys, methods_wrap_other tracer state hfirst]

/-- The entries of methods that are not wrapped are left alone. -/
theorem methods_wrapAll_of_not_mem (hkey : key ∉ keys) :
    (m.wrapAll tracer keys).methods key = m.methods key :=
  methods_foldl_wrap_of_not_mem hkey _

/-- What a recorder is put around is decided by the methods that were wrapped before. -/
theorem methods_wrapAll_of_eq_append (hnodup : keys.Nodup) (hkeys : keys = before ++ key :: after) :
    (m.wrapAll tracer keys).methods key =
      ((m.wrapAll tracer before).resolve key.1 key.2).map fun (_, e) =>
        ⟨.recorder tracer key ((m.wrapAll tracer before).shape? key) e.location e.implementation,
          e.location⟩ := by
  subst hkeys
  have hafter : key ∉ after := (List.nodup_cons.mp (List.nodup_append.mp hnodup).2.1).1
  rw [wrapAll, List.foldl_append, List.foldl_cons, methods_foldl_wrap_of_not_mem hafter,
    methods_wrap_same]
  rfl

private theorem catalog_wrap (tracer : Nat) (state : Machine × List Displaced) (key : MethodRef) :
    (wrap tracer state key).1.catalog = state.1.catalog := by
  rcases wrap_cases tracer state.1 state.2 key with ⟨-, lines, hwrap⟩ | ⟨owner, e, -, hwrap⟩
  · rw [hwrap]
    rfl
  · rw [hwrap]
    rfl

private theorem catalog_wrapAll (m : Machine) (tracer : Nat) (keys : List MethodRef) :
    (m.wrapAll tracer keys).catalog = m.catalog := by
  obtain ⟨methods, log, heq⟩ := (Displaces.foldl_wrap m tracer keys).machine
  rw [wrapAll, heq]

/-- Wrapping takes no entry away. -/
theorem isSome_methods_wrapAll (h : (m.methods key).isSome) :
    ((m.wrapAll tracer keys).methods key).isSome := by
  let kept (state : Machine × List Displaced) : Prop := (state.1.methods key).isSome
  refine List.foldlRecOn (motive := kept) keys _ h fun state hstate key' _ => ?_
  by_cases hkey : key = key'
  · subst hkey
    obtain ⟨e, he⟩ := Option.isSome_iff_exists.mp hstate
    simp only [kept, methods_wrap_same, resolve_of_methods he]
    rfl
  · simpa only [kept, methods_wrap_other tracer state hkey] using hstate

/-- A message that is handled is still handled after methods have been wrapped. -/
theorem isSome_resolve_wrapAll {target : Target} {name : String}
    (h : (m.resolve target name).isSome) :
    ((m.wrapAll tracer keys).resolve target name).isSome := by
  rw [resolve_eq_search, Option.isSome_map] at h ⊢
  rw [catalog_wrapAll]
  exact Hierarchy.isSome_search_mono (fun _ => isSome_methods_wrapAll) _ _ h

/-- A registered method is *found* at a target when its turn to be wrapped comes, those before it
being wrapped already. -/
def FoundAt (m : Machine) (tracer : Nat) (keys : List MethodRef) (key : MethodRef)
    (before : List MethodRef) (owner : Target) : Prop :=
  ∃ after e, keys = before ++ key :: after ∧
    (m.wrapAll tracer before).resolve key.1 key.2 = some (owner, e)

/-- A registered method that is handled is found when its turn comes. -/
theorem exists_foundAt (hmem : key ∈ keys) (h : (m.resolve key.1 key.2).isSome) :
    ∃ before owner, m.FoundAt tracer keys key before owner := by
  obtain ⟨before, after, hkeys⟩ := List.append_of_mem hmem
  have hresolve : ((m.wrapAll tracer before).resolve key.1 key.2).isSome := isSome_resolve_wrapAll h
  obtain ⟨⟨owner, e⟩, hfound⟩ := Option.isSome_iff_exists.mp hresolve
  exact ⟨before, owner, after, e, hkeys, hfound⟩

/-- A registered method that has an entry after wrapping was found when its turn came. -/
theorem exists_foundAt_of_methods (hnodup : keys.Nodup) (hmem : key ∈ keys)
    (h : ((m.wrapAll tracer keys).methods key).isSome) :
    ∃ before owner, m.FoundAt tracer keys key before owner := by
  obtain ⟨before, after, hkeys⟩ := List.append_of_mem hmem
  rw [methods_wrapAll_of_eq_append hnodup hkeys, Option.isSome_map] at h
  obtain ⟨⟨owner, e⟩, hfound⟩ := Option.isSome_iff_exists.mp h
  exact ⟨before, owner, after, e, hkeys, hfound⟩

/-- A method has an entry after wrapping if it had one or is found when its turn comes. -/
theorem isSome_methods_wrapAll_iff (hnodup : keys.Nodup) :
    ((m.wrapAll tracer keys).methods key).isSome ↔
      (m.methods key).isSome ∨ ∃ before owner, m.FoundAt tracer keys key before owner := by
  constructor
  · intro h
    by_cases hmem : key ∈ keys
    · exact .inr (exists_foundAt_of_methods hnodup hmem h)
    · rw [methods_wrapAll_of_not_mem hmem] at h
      exact .inl h
  · rintro (h | ⟨before, owner, after, e, hkeys, hfound⟩)
    · exact isSome_methods_wrapAll h
    · rw [methods_wrapAll_of_eq_append hnodup hkeys, hfound]
      rfl

namespace FoundAt

variable {owner : Target} (hfound : m.FoundAt tracer keys key before owner) (hnodup : keys.Nodup)
include hfound hnodup

/-- The methods whose turn is before that of another are registered once. -/
theorem nodup : before.Nodup := by
  obtain ⟨after, e, rfl, -⟩ := hfound
  exact (List.nodup_append.mp hnodup).1

/-- The entry of a registered method is a recorder around what was found when its turn came. -/
theorem recorders {e : LocatedCode} (he : (m.wrapAll tracer keys).methods key = some e) :
    ∃ e', (m.wrapAll tracer before).methods (owner, key.2) = some e' ∧
      e.implementation.recorders tracer = key :: e'.implementation.recorders tracer := by
  obtain ⟨after, e', hkeys, hresolve⟩ := hfound
  rw [methods_wrapAll_of_eq_append hnodup hkeys, hresolve, Option.map_some,
    Option.some.injEq] at he
  refine ⟨e', methods_of_resolve hresolve, ?_⟩
  rw [← he, Implementation.recorders, if_pos rfl]
  rfl

end FoundAt

/-- The recorders that a call of a registered method passes begin with its own. -/
theorem exists_recorders (hnodup : keys.Nodup) {e : LocatedCode}
    (he : (m.wrapAll tracer keys).methods key = some e) (hmem : key ∈ keys) :
    ∃ inner, e.implementation.recorders tracer = key :: inner := by
  obtain ⟨before, owner, hfound⟩ :=
    exists_foundAt_of_methods hnodup hmem (Option.isSome_of_eq_some he)
  obtain ⟨e', -, hrecorders⟩ := hfound.recorders hnodup he
  exact ⟨_, hrecorders⟩

section Fresh

variable (hfresh : ∀ key e, m.methods key = some e → e.implementation.recorders tracer = [])
  (hnodup : keys.Nodup) {e : LocatedCode} (he : (m.wrapAll tracer keys).methods key = some e)
include hfresh hnodup he

/-- A call passes a recorder exactly if its method is registered. -/
theorem recorders_wrapAll_ne_nil_iff : e.implementation.recorders tracer ≠ [] ↔ key ∈ keys := by
  constructor
  · intro hne
    by_contra hmem
    rw [methods_wrapAll_of_not_mem hmem] at he
    exact hne (hfresh key e he)
  · intro hmem
    obtain ⟨inner, hrecorders⟩ := exists_recorders hnodup he hmem
    rw [hrecorders]
    exact List.cons_ne_nil key inner

/-- A call passes more than one recorder exactly if its method was found, when its turn came, at a
target that was wrapped before. -/
theorem one_lt_length_recorders_iff : 1 < (e.implementation.recorders tracer).length ↔
    ∃ before owner, m.FoundAt tracer keys key before owner ∧ (owner, key.2) ∈ before := by
  -- Besides its own recorder there are those of what was found, a target wrapped before or not.
  have hinner {before : List MethodRef} {owner : Target}
      (hfound : m.FoundAt tracer keys key before owner) :
      1 < (e.implementation.recorders tracer).length ↔ (owner, key.2) ∈ before := by
    obtain ⟨e', he', hrecorders⟩ := hfound.recorders hnodup he
    rw [hrecorders, List.length_cons, Nat.lt_add_left_iff_pos, List.length_pos_iff]
    exact recorders_wrapAll_ne_nil_iff hfresh (hfound.nodup hnodup) he'
  constructor
  · intro hlt
    have hmem : key ∈ keys := (recorders_wrapAll_ne_nil_iff hfresh hnodup he).mp <|
      List.ne_nil_of_length_pos (Nat.lt_of_succ_lt hlt)
    obtain ⟨before, owner, hfound⟩ :=
      exists_foundAt_of_methods hnodup hmem (Option.isSome_of_eq_some he)
    exact ⟨before, owner, hfound, (hinner hfound).mp hlt⟩
  · rintro ⟨before, owner, hfound, hbefore⟩
    exact (hinner hfound).mpr hbefore

end Fresh

/-! ### Tracing -/

private theorem DispatchesAs.resolve (h : m.DispatchesAs n) (target : Target) (name : String) :
    n.resolve target name = m.resolve target name :=
  resolve_congr h.catalog h.methods target name

/-- Only what is found for messages decides what wrapping makes of it. -/
theorem DispatchesAs.wrap (h : state.1.DispatchesAs state'.1) (tracer : Nat) (key : MethodRef) :
    (Machine.wrap tracer state key).1.DispatchesAs (Machine.wrap tracer state' key).1 where
  catalog := by rw [catalog_wrap, catalog_wrap, h.catalog]
  methods := by
    funext key'
    by_cases hkey : key' = key
    · rw [hkey, methods_wrap_same, methods_wrap_same, h.resolve, shape?, shape?, h.catalog]
    · rw [methods_wrap_other tracer state hkey, methods_wrap_other tracer state' hkey, h.methods]

theorem DispatchesAs.wrapAll (h : m.DispatchesAs n) (tracer : Nat) (keys : List MethodRef) :
    (m.wrapAll tracer keys).DispatchesAs (n.wrapAll tracer keys) := by
  suffices ∀ state state' : Machine × List Displaced, state.1.DispatchesAs state'.1 →
      (keys.foldl (Machine.wrap tracer) state).1.DispatchesAs
        (keys.foldl (Machine.wrap tracer) state').1 from this (m, []) (n, []) h
  induction keys with
  | nil => exact fun _ _ h => h
  | cons key keys ih => exact fun _ _ h => ih _ _ (h.wrap tracer key)

/-- A tracer that wraps is started by wrapping the methods on its watch list. -/
theorem dispatchesAs_startTracing_wrap (m : Machine) (filter : ArtifactFilter)
    (watched : WatchList) :
    (m.wrapAll m.tracers.length watched.keys).DispatchesAs
      (m.startTracing .wrap filter watched) := by
  let m₁ : Machine := (m.addTracer { strategy := .wrap, filter, watched }).1
  obtain ⟨methods, log, hfold⟩ :=
    (Displaces.foldl_wrap m₁ m.tracers.length watched.keys).machine
  obtain ⟨lines, hstart⟩ := startTracing_eq m .wrap filter watched rfl (by rw [hfold]; rfl)
  have hadd : m.DispatchesAs m₁ := ⟨rfl, rfl⟩
  have hwrapped := hadd.wrapAll m.tracers.length watched.keys
  rw [hstart]
  exact ⟨hwrapped.catalog, hwrapped.methods⟩

/-- A machine that was built has no recorders. -/
theorem Built.recorders_eq_nil (h : m.Built) (tracer : Nat) {e : LocatedCode}
    (he : m.methods key = some e) : e.implementation.recorders tracer = [] := by
  obtain ⟨body, hcode⟩ := (h.entry he).1
  rw [hcode, Implementation.recorders]

/-- **The records of one dispatch.** On a machine without recorders of its own let a tracer that
wraps be started, with any registrations in any order, and let any program run. Every dispatch is
handled by the first target on the chain of its receiver that defines the method, or is registered
for it and was found to handle it when its turn came; each registered target that handles the method
without a tracer is. The dispatch is recorded exactly if the method is registered for that target,
and its first record is for that target and has the arguments. There is more than one record exactly
if that target was found to inherit the method from one that was wrapped before it. -/
theorem ownRecords_startTracing_wrap (m : Machine)
    (hfresh : ∀ key e, m.methods key = some e →
      e.implementation.recorders m.tracers.length = [])
    (filter : ArtifactFilter) (registrations : List (Target × List String))
    (change : Nat → List TestContext → List TestContext) (depth : Nat) (program : Procedure)
    {l : Machine} {owner : Target} {entry : LocatedCode} {receiver : Value} {method : String}
    {args : List Value}
    (hbegan : .began l owner entry receiver method args ∈
      (m.startTracing .wrap filter (.ofRegistrations registrations)).executionTrace
        (.ofContexts change) depth program)
    (answer : Machine → Message → Reply) :
    let keys := (WatchList.ofRegistrations registrations).keys
    let found := m.FoundAt m.tracers.length keys
    let target := Target.ofReceiver receiver
    let records := l.ownRecords (.ofContexts change) answer m.tracers.length receiver method args
    (owner.onType = target.onType ∧ ∃ steps ≤ Hierarchy.maxSteps, m.catalog.links.FirstAbove
      (fun t => (m.methods (⟨t, target.onType⟩, method)).isSome ∨
        ∃ before above, found (⟨t, target.onType⟩, method) before above)
      target.type steps owner.type) ∧
    (∀ key ∈ keys, (m.resolve key.1 key.2).isSome → ∃ before above, found key before above) ∧
    (records ≠ [] ↔ (owner, method) ∈ keys) ∧
    (∀ r ∈ records.head?, r.target = owner ∧ r.method = method ∧ r.arguments = args) ∧
    (1 < records.length ↔
      ∃ before above, found (owner, method) before above ∧ (above, method) ∈ before) := by
  intro keys found target records
  have hnodup : keys.Nodup := WatchList.nodup_keys_ofRegistrations registrations
  -- The machine finds for messages what it found when the tracer was started.
  have hsame : (m.wrapAll m.tracers.length keys).DispatchesAs l :=
    (isFrame_dispatchesAs change).trans
      (m.dispatchesAs_startTracing_wrap filter (.ofRegistrations registrations))
      ((isFrame_dispatchesAs change).machine ((isFrame_dispatchesAs change).trail _ _ _) hbegan)
  have hresolve : l.resolve target method = some (owner, entry) :=
    isResolved_of_mem_executionTrace _ _ _ _ hbegan
  have hentry : (m.wrapAll m.tracers.length keys).methods (owner, method) = some entry := by
    rw [← hsame.methods]
    exact methods_of_resolve hresolve
  have hrecords := map_ownRecords (.ofContexts change) answer m.tracers.length hresolve args
  have hlength : records.length = (entry.implementation.recorders m.tracers.length).length := by
    simpa using congrArg List.length hrecords
  have hrecorded : records ≠ [] ↔ (owner, method) ∈ keys := by
    rw [← recorders_wrapAll_ne_nil_iff hfresh hnodup hentry, ← List.length_pos_iff, hlength,
      List.length_pos_iff]
  refine ⟨?_, fun _ => exists_foundAt, hrecorded, fun r hr => ?_, ?_⟩
  · obtain ⟨hside, -, steps, hle, hfirst⟩ := resolve_eq_some_iff.mp hresolve
    have hentries (t : TypeName) : (l.methods (⟨t, target.onType⟩, method)).isSome ↔
        (m.methods (⟨t, target.onType⟩, method)).isSome ∨
          ∃ before above, found (⟨t, target.onType⟩, method) before above := by
      rw [hsame.methods, isSome_methods_wrapAll_iff hnodup]
    rw [hsame.catalog, catalog_wrapAll] at hfirst
    simp only [hentries] at hfirst
    exact ⟨hside, steps, hle, hfirst⟩
  · obtain ⟨inner, hinner⟩ := exists_recorders hnodup hentry
      (hrecorded.mp (List.ne_nil_of_mem (List.mem_of_mem_head? hr)))
    have hhead := congrArg List.head? hrecords
    rw [List.head?_map, hr, hinner, List.map_cons, List.head?_cons, Option.map_some] at hhead
    simp only [Option.some.injEq, Prod.mk.injEq] at hhead
    exact ⟨hhead.1.1, hhead.1.2, hhead.2⟩
  · rw [hlength]
    exact one_lt_length_recorders_iff hfresh hnodup hentry

end Machine

/-! ### A type and one that inherits from it -/

/-- A call of the inherited method on an object of the type below. -/
def childCall : Procedure :=
  .send (.object 0 "Child") "m" [] .finish

theorem family_built : family.Built :=
  .defineMethod (.defineType (.defineType (.fresh _ _) _ _) _ _) _ _ _ _

/-- If the type below is registered first, its recorder is put around the method itself, and the
call is recorded once. -/
theorem ownRecords_startTracing_wrap_of_family :
    let traced := family.startTracing .wrap .standard
      (.ofRegistrations [(.instances "Child", ["m"]), (.instances "Base", ["m"])])
    (∀ key e, family.methods key = some e → e.implementation.recorders 0 = []) ∧
    ∃ owner entry, .began traced owner entry (.object 0 "Child") "m" [] ∈
        traced.executionTrace (.ofContexts fun _ contexts => contexts) 1 childCall ∧
      (traced.ownRecords (.ofContexts fun _ contexts => contexts)
          (Machine.answer (.ofContexts fun _ contexts => contexts) 0) 0 (.object 0 "Child") "m"
          []).map (fun r => (r.target, r.method)) = [(.instances "Child", "m")] := by
  intro traced
  have hfresh : ∀ key e, family.methods key = some e → e.implementation.recorders 0 = [] :=
    fun _ _ => family_built.recorders_eq_nil 0
  obtain ⟨entry, hresolve⟩ : ∃ entry, traced.resolve (.instances "Child") "m" =
    some (.instances "Child", entry) := ⟨_, rfl⟩
  have hbegan : .began traced (.instances "Child") entry (.object 0 "Child") "m" [] ∈
      traced.executionTrace (.ofContexts fun _ contexts => contexts) 1 childCall :=
    Machine.began_mem_executionTrace_send hresolve _ 0 0 [] .finish
  obtain ⟨-, -, hrecorded, hfirst, hmore⟩ := family.ownRecords_startTracing_wrap hfresh .standard
    _ _ 1 childCall hbegan (Machine.answer (.ofContexts fun _ contexts => contexts) 0)
  rw [show family.tracers.length = 0 from rfl] at hrecorded hfirst hmore
  refine ⟨hfresh, _, _, hbegan, ?_⟩
  have hone : ¬ ∃ before above,
      family.FoundAt 0 [(.instances "Child", "m"), (.instances "Base", "m")]
        (.instances "Child", "m") before above ∧ (above, "m") ∈ before := by
    rintro ⟨_ | ⟨first, before⟩, above, ⟨after, e, hkeys, -⟩, habove⟩
    · cases habove
    · have hlater : (Target.instances "Child", "m") ∈ [(Target.instances "Base", "m")] := by
        rw [(List.cons.inj hkeys).2]
        exact List.mem_append_right before List.mem_cons_self
      exact absurd hlater (by decide)
  have hne := hrecorded.mpr (by decide)
  have hle := Nat.not_lt.mp fun hlt => hone (hmore.mp hlt)
  obtain ⟨r, hrecords⟩ := List.length_eq_one_iff.mp
    (Nat.le_antisymm hle (List.length_pos_iff.mpr hne))
  rw [hrecords] at hfirst ⊢
  obtain ⟨htarget, hmethod, -⟩ := hfirst r rfl
  rw [List.map_singleton, htarget, hmethod]

/-- If the type above is registered first, the recorder of the type below is put around its
recorder, and the same call is recorded twice; a tracer that follows events records it once. -/
theorem dispatch_recorded_twice :
    let registrations := [(Target.instances "Base", ["m"]), (Target.instances "Child", ["m"])]
    let traced := family.startTracing .wrap .standard (.ofRegistrations registrations)
    (∃ owner entry, .began traced owner entry (.object 0 "Child") "m" [] ∈
        traced.executionTrace (.ofContexts fun _ contexts => contexts) 1 childCall) ∧
      (traced.ownRecords (.ofContexts fun _ contexts => contexts)
          (Machine.answer (.ofContexts fun _ contexts => contexts) 0) 0 (.object 0 "Child") "m"
          []).map (·.target) = [.instances "Child", .instances "Base"] ∧
      ((traced.execute (.ofContexts fun _ contexts => contexts) 1 childCall).1.captured 0).map
          (·.target) = [.instances "Child", .instances "Base"] ∧
      (((family.startTracing .events .standard (.ofRegistrations registrations)).execute
          (.ofContexts fun _ contexts => contexts) 1 childCall).1.captured 0).map (·.target) =
        [.instances "Child"] := by
  intro registrations traced
  obtain ⟨entry, hresolve⟩ : ∃ entry, traced.resolve (.instances "Child") "m" =
    some (.instances "Child", entry) := ⟨_, rfl⟩
  have hbegan := Machine.began_mem_executionTrace_send hresolve
    (.ofContexts fun _ contexts => contexts) 0 0 [] .finish
  exact ⟨⟨_, _, hbegan⟩, rfl, rfl, rfl⟩

end MockAudit
