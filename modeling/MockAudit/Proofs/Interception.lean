import MockAudit.Machine.Tracers
import MockAudit.Proofs.Correlation
import MockAudit.Proofs.Trace
import Mathlib.Data.List.Nodup
import Mathlib.Data.Prod.Basic

/-!
# Interception by recorders

A tracer that wraps methods replaces the entry of each watched method that is found on its own
target. If no watched method is merely inherited, the table then differs from the one before
exactly by the recorders around the watched entries (`Machine.foldl_wrap`), a message is still
handled by the same owner (`Machine.resolve_map`), and putting back what was displaced restores the
table (`Machine.Displaces.foldl_wrap`).

## Main definitions

* `WatchList.ofRegistrations`: the watch list after some registrations.
* `MethodTable.restore`: a table with displaced entries put back.
* `Machine.Displaces`: what replacing entries of a machine leads to.
* `Machine.recordedTable`: the method table with recorders around watched entries.

## Main results

* `WatchList.mem_keys_ofRegistrations`, `WatchList.nodup_keys_ofRegistrations`: a watch list holds
  the registered methods in normal form, each once.
* `Machine.startTracer_wrap`, `Machine.startTracer_events`: the machine on which a tracer has been
  started.
-/

namespace MockAudit

/-! ### Watch lists -/

namespace WatchList

/-- The watch list after methods of targets have been registered one after the other. -/
def ofRegistrations (registrations : List (Target × List String)) : WatchList :=
  registrations.foldl (fun list r => list.watch r.1 r.2) []

theorem mem_keys {list : WatchList} {key : MethodRef} :
    key ∈ list.keys ↔ ∃ group ∈ list, group.1 = key.1 ∧ key.2 ∈ group.2 := by
  obtain ⟨target, method⟩ := key
  simp only [keys, List.mem_flatMap, List.mem_map, Prod.mk.injEq]
  constructor
  · rintro ⟨group, hgroup, method, hmethod, rfl, rfl⟩
    exact ⟨group, hgroup, rfl, hmethod⟩
  · rintro ⟨group, hgroup, rfl, hmethod⟩
    exact ⟨group, hgroup, method, hmethod, rfl, rfl⟩

private theorem mem_keys_add {list : WatchList} {key key' : MethodRef} :
    key' ∈ (list.add key).keys ↔ key' = key ∨ key' ∈ list.keys := by
  induction list with
  | nil => simp [add, mem_keys, Prod.ext_iff, eq_comm]
  | cons group rest ih =>
    obtain ⟨target, methods⟩ := group
    have hcons (ms : List String) (list : WatchList) : key' ∈ keys ((target, ms) :: list) ↔
        (target = key'.1 ∧ key'.2 ∈ ms) ∨ key' ∈ list.keys := by
      simp [mem_keys]
    rw [add]
    split_ifs with htarget hmethod
    · subst htarget
      rw [hcons]
      constructor
      · exact Or.inr
      · rintro (rfl | h)
        · exact Or.inl ⟨rfl, hmethod⟩
        · exact h
    · subst htarget
      rw [hcons, hcons, List.mem_append, List.mem_singleton]
      constructor
      · rintro (⟨h, hm | hm⟩ | h)
        · exact Or.inr (Or.inl ⟨h, hm⟩)
        · exact Or.inl (Prod.ext h.symm hm)
        · exact Or.inr (Or.inr h)
      · rintro (rfl | ⟨h, hm⟩ | h)
        · exact Or.inl ⟨rfl, Or.inr rfl⟩
        · exact Or.inl ⟨h, Or.inl hm⟩
        · exact Or.inr h
    · rw [hcons, hcons, ih, or_left_comm]

/-- Each target and each of its methods is listed once. -/
structure IsTidy (list : WatchList) : Prop where
  targets : (list.map Prod.fst).Nodup
  methods : ∀ group ∈ list, group.2.Nodup

theorem IsTidy.nodup_keys {list : WatchList} (h : list.IsTidy) : list.keys.Nodup := by
  rw [keys, List.nodup_flatMap]
  refine ⟨fun group hgroup => (h.methods group hgroup).map (Prod.mk_right_injective _), ?_⟩
  refine (List.pairwise_map.mp h.targets).imp fun {a b} hab => ?_
  simp only [Function.onFun, List.disjoint_left, List.mem_map]
  rintro _ ⟨_, -, rfl⟩ ⟨_, -, heq⟩
  exact hab (congrArg Prod.fst heq).symm

private theorem map_fst_add (list : WatchList) (key : MethodRef) :
    (list.add key).map Prod.fst =
      if key.1 ∈ list.map Prod.fst then list.map Prod.fst else list.map Prod.fst ++ [key.1] := by
  induction list with
  | nil => simp [add]
  | cons group rest ih =>
    rw [add]
    split_ifs with htarget hmem hmem <;> simp_all [eq_comm]

private theorem nodup_methods_add {list : WatchList} (h : ∀ group ∈ list, group.2.Nodup)
    (key : MethodRef) : ∀ group ∈ list.add key, group.2.Nodup := by
  induction list with
  | nil => simp [add]
  | cons group rest ih =>
    obtain ⟨hgroup, hrest⟩ := List.forall_mem_cons.mp h
    rw [add]
    split_ifs with htarget hmethod
    · exact h
    · refine List.forall_mem_cons.mpr ⟨?_, hrest⟩
      exact List.nodup_append.mpr ⟨hgroup, List.nodup_singleton _, by
        rintro a ha b hb rfl
        exact hmethod (List.mem_singleton.mp hb ▸ ha)⟩
    · exact List.forall_mem_cons.mpr ⟨hgroup, ih hrest⟩

theorem IsTidy.add {list : WatchList} (h : list.IsTidy) (key : MethodRef) :
    (list.add key).IsTidy := by
  refine ⟨?_, nodup_methods_add h.methods key⟩
  rw [map_fst_add]
  split_ifs with hmem
  · exact h.targets
  · exact List.nodup_append.mpr ⟨h.targets, List.nodup_singleton _, by
      rintro a ha b hb rfl
      exact hmem (List.mem_singleton.mp hb ▸ ha)⟩

theorem IsTidy.watch {list : WatchList} (h : list.IsTidy) (target : Target)
    (methods : List String) : (list.watch target methods).IsTidy := by
  induction methods generalizing list with
  | nil => exact h
  | cons method methods ih => exact ih (h.add _)

theorem isTidy_ofRegistrations (registrations : List (Target × List String)) :
    (ofRegistrations registrations).IsTidy := by
  suffices ∀ list : WatchList, list.IsTidy →
      IsTidy (registrations.foldl (fun list r => list.watch r.1 r.2) list) from
    this [] ⟨by simp, by simp⟩
  induction registrations with
  | nil => exact fun _ h => h
  | cons r registrations ih => exact fun list h => ih _ (h.watch r.1 r.2)

/-- Every registered method is listed once. -/
theorem nodup_keys_ofRegistrations (registrations : List (Target × List String)) :
    (ofRegistrations registrations).keys.Nodup :=
  (isTidy_ofRegistrations registrations).nodup_keys

private theorem mem_keys_watch {list : WatchList} {target : Target} {methods : List String}
    {key : MethodRef} : key ∈ (list.watch target methods).keys ↔
      (∃ method ∈ methods, key = MethodRef.normalize (target, method)) ∨ key ∈ list.keys := by
  induction methods generalizing list with
  | nil => simp [watch]
  | cons method methods ih =>
    rw [watch, List.foldl_cons, ← watch, ih, mem_keys_add, List.exists_mem_cons_iff, or_left_comm,
      or_assoc]

/-- The listed methods are the registered ones in normal form. -/
theorem mem_keys_ofRegistrations {registrations : List (Target × List String)} {key : MethodRef} :
    key ∈ (ofRegistrations registrations).keys ↔
      ∃ r ∈ registrations, ∃ method ∈ r.2, key = MethodRef.normalize (r.1, method) := by
  suffices ∀ list : WatchList,
      key ∈ keys (registrations.foldl (fun list r => list.watch r.1 r.2) list) ↔
        (∃ r ∈ registrations, ∃ method ∈ r.2, key = MethodRef.normalize (r.1, method)) ∨
          key ∈ list.keys by
    rw [ofRegistrations, this []]
    simp [mem_keys]
  induction registrations with
  | nil => simp
  | cons r registrations ih =>
    intro list
    rw [List.foldl_cons, ih, mem_keys_watch, List.exists_mem_cons_iff, or_left_comm, or_assoc]

end WatchList

/-- A dispatch is watched as the first of its two targets whose method is listed. -/
theorem Capture.watchedAs?_eq_find? (watched : WatchList) (owner : Target) (receiver : Value)
    (method : String) :
    watchedAs? watched owner receiver method =
      [Target.ofReceiver receiver, owner].find? fun target => (target, method) ∈ watched.keys := by
  rw [watchedAs?]
  congr 1
  funext target
  rw [Bool.eq_iff_iff, decide_eq_true_iff]
  simp [WatchList.mem_keys]

namespace Machine

/-! ### Finding implementations -/

/-- What nothing but the entries distinguishes from a machine finds the same owners. -/
theorem resolveFrom_map {m n : Machine} {f : MethodRef → LocatedCode → LocatedCode}
    (hcatalog : n.catalog = m.catalog)
    (hmethods : ∀ key, n.methods key = (m.methods key).map (f key))
    (onType : Bool) (name : String) (visits : Nat) (type : TypeName) :
    n.resolveFrom onType name visits type =
      (m.resolveFrom onType name visits type).map fun (owner, e) => (owner, f (owner, name) e) := by
  induction visits generalizing type with
  | zero => rfl
  | succ visits ih =>
    rw [resolveFrom, resolveFrom, hmethods, hcatalog]
    cases m.methods (⟨type, onType⟩, name) with
    | some e => rfl
    | none =>
      cases m.catalog.find? type with
      | none => rfl
      | some d => cases h : d.superclass <;> simp [h, ih]

/-- Changing entries in place changes what is found for a message, but not where. -/
theorem resolve_map {m n : Machine} {f : MethodRef → LocatedCode → LocatedCode}
    (hcatalog : n.catalog = m.catalog)
    (hmethods : ∀ key, n.methods key = (m.methods key).map (f key))
    (target : Target) (name : String) :
    n.resolve target name =
      (m.resolve target name).map fun (owner, e) => (owner, f (owner, name) e) :=
  resolveFrom_map hcatalog hmethods _ _ _ _

/-- Only the declared types and the entries decide what is found for a message. -/
theorem resolve_congr {m n : Machine} (hcatalog : n.catalog = m.catalog)
    (hmethods : n.methods = m.methods) (target : Target) (name : String) :
    n.resolve target name = m.resolve target name := by
  have h := resolve_map (m := m) (n := n) (f := fun _ e => e) hcatalog
    (fun key => by rw [hmethods, Option.map_id']) target name
  rwa [show (fun x : Target × LocatedCode => (x.1, x.2)) = id from rfl, Option.map_id, id] at h

/-- The entry that is found is that of its owner. -/
theorem methods_of_resolve {m : Machine} {target owner : Target} {name : String} {e : LocatedCode}
    (h : m.resolve target name = some (owner, e)) : m.methods (owner, name) = some e := by
  suffices ∀ visits type, m.resolveFrom target.onType name visits type = some (owner, e) →
      m.methods (owner, name) = some e from this _ _ h
  intro visits
  induction visits with
  | zero => simp [resolveFrom]
  | succ visits ih =>
    intro type h
    rw [resolveFrom] at h
    cases hentry : m.methods (⟨type, target.onType⟩, name) with
    | some e' =>
      rw [hentry] at h
      obtain ⟨rfl, rfl⟩ := Prod.mk.inj (Option.some.inj h)
      exact hentry
    | none =>
      rw [hentry] at h
      obtain ⟨d, -, h⟩ := Option.bind_eq_some_iff.mp h
      obtain ⟨superclass, -, h⟩ := Option.bind_eq_some_iff.mp h
      exact ih superclass h

/-- A target that has an entry of its own handles the method itself. -/
theorem resolve_of_methods {m : Machine} {target : Target} {name : String} {e : LocatedCode}
    (h : m.methods (target, name) = some e) : m.resolve target name = some (target, e) := by
  rw [resolve, show Catalog.maxVisits = 64 + 1 from rfl, resolveFrom, h]

end Machine

/-! ### Putting displaced entries back -/

/-- A table with displaced entries put back, the last one first. -/
def MethodTable.restore (table : MethodTable) (displaced : List Displaced) : MethodTable :=
  displaced.reverse.foldl (fun t d => t.put d.key d.previous) table

/-- The entry displaced last is put back first. -/
theorem MethodTable.restore_concat (table : MethodTable) (displaced : List Displaced)
    (d : Displaced) :
    table.restore (displaced ++ [d]) = (table.put d.key d.previous).restore displaced := by
  simp [restore]

namespace Machine

/-- Undoing changes to the method table changes nothing else. -/
theorem restoreAll_eq (m : Machine) (displaced : List Displaced) :
    m.restoreAll displaced = { m with methods := m.methods.restore displaced } := by
  rw [restoreAll, MethodTable.restore]
  induction displaced.reverse generalizing m with
  | nil => rfl
  | cons d ds ih => exact ih (m.install d.key d.previous)

/-! ### Recorders around watched entries -/

/-- The entry with a recorder around it, unless it is not watched. -/
def recorderAround (m : Machine) (tracer : Nat) (keys : List MethodRef) (key : MethodRef)
    (e : LocatedCode) : LocatedCode :=
  if key ∈ keys then
    ⟨.recorder tracer key (m.shape? key) e.location e.implementation, e.location⟩
  else e

/-- The method table with recorders around the watched entries. -/
def recordedTable (m : Machine) (tracer : Nat) (keys : List MethodRef) : MethodTable :=
  fun key => (m.methods key).map (m.recorderAround tracer keys key)

private theorem recordedTable_nil (m : Machine) (tracer : Nat) :
    m.recordedTable tracer [] = m.methods := by
  funext key
  cases h : m.methods key <;> simp [recordedTable, recorderAround, h]

/-- With recorders around watched entries, messages are handled by the same owners. -/
theorem resolve_recorded {m n : Machine} {tracer : Nat} {keys : List MethodRef}
    (hcatalog : n.catalog = m.catalog) (hmethods : n.methods = m.recordedTable tracer keys)
    (target : Target) (name : String) :
    n.resolve target name = (m.resolve target name).map fun (owner, e) =>
      (owner, m.recorderAround tracer keys (owner, name) e) :=
  resolve_map hcatalog (fun _ => congrFun hmethods _) target name

/-- Putting recorders around one more entry. -/
theorem recordedTable_cons (m : Machine) (tracer : Nat) {key : MethodRef} {keys : List MethodRef}
    (h : key ∉ keys) (lines : List LogLine) :
    recordedTable { m with methods := m.recordedTable tracer [key], log := lines } tracer keys =
      m.recordedTable tracer (key :: keys) := by
  funext key'
  by_cases hkey : key' = key
  · subst hkey
    cases hentry : m.methods key' <;> simp [recordedTable, recorderAround, shape?, h, hentry]
  · cases hentry : m.methods key' <;> simp [recordedTable, recorderAround, shape?, hkey, hentry]

/-- Wrapping a method leaves it alone if nothing handles it, and else installs a recorder around the
entry that was found and takes down what was there before. -/
theorem wrap_cases (tracer : Nat) (m : Machine) (displaced : List Displaced) (key : MethodRef) :
    (m.resolve key.1 key.2 = none ∧
      ∃ lines, wrap tracer (m, displaced) key = (m.write lines, displaced)) ∨
    ∃ owner e, m.resolve key.1 key.2 = some (owner, e) ∧
      wrap tracer (m, displaced) key =
        (m.install key (some
            ⟨.recorder tracer key (m.shape? key) e.location e.implementation, e.location⟩),
          displaced ++ [⟨key, m.methods key⟩]) := by
  cases h : m.resolve key.1 key.2 with
  | none =>
    rw [wrap, h]
    exact Or.inl ⟨rfl, _, rfl⟩
  | some found =>
    refine Or.inr ⟨found.1, found.2, rfl, ?_⟩
    rw [wrap, h]
    rfl

/-- Wrapping a method that has an entry of its own, or that nothing handles, puts a recorder around
its entry, if there is one, and changes nothing else. -/
theorem wrap_direct {m : Machine} {key : MethodRef}
    (h : (m.methods key).isSome ∨ m.resolve key.1 key.2 = none) (tracer : Nat)
    (displaced : List Displaced) :
    ∃ lines, (wrap tracer (m, displaced) key).1 =
      { m with methods := m.recordedTable tracer [key], log := m.log ++ lines } := by
  have hother (key' : MethodRef) (hkey : key' ≠ key) :
      m.recordedTable tracer [key] key' = m.methods key' := by
    cases hentry : m.methods key' <;> simp [recordedTable, recorderAround, hkey, hentry]
  rcases wrap_cases tracer m displaced key with
    ⟨hresolve, lines, hwrap⟩ | ⟨owner, e, hresolve, hwrap⟩
  · have hnone : m.methods key = none := by
      by_contra hne
      obtain ⟨e, he⟩ := Option.ne_none_iff_exists'.mp hne
      rw [resolve_of_methods he] at hresolve
      cases hresolve
    have htable : m.recordedTable tracer [key] = m.methods := by
      funext key'
      by_cases hkey : key' = key
      · rw [hkey, recordedTable, hnone, Option.map_none]
      · exact hother key' hkey
    exact ⟨lines, by rw [hwrap, htable, write]⟩
  · obtain ⟨e', he'⟩ := Option.isSome_iff_exists.mp (h.resolve_right (by simp [hresolve]))
    obtain rfl : e' = e := by
      rw [resolve_of_methods he'] at hresolve
      exact (Prod.mk.inj (Option.some.inj hresolve)).2
    have htable : m.methods.put key (some (m.recorderAround tracer [key] key e')) =
        m.recordedTable tracer [key] := by
      funext key'
      by_cases hkey : key' = key
      · rw [hkey, MethodTable.put_same, recordedTable, he', Option.map_some]
      · rw [MethodTable.put_other _ _ hkey, hother key' hkey]
    refine ⟨[], ?_⟩
    rw [hwrap, ← htable, List.append_nil]
    simp [install, recorderAround]

/-- **Wrapping watched methods.** If each watched method has an entry of its own or is not handled
at all, wrapping all of them puts recorders around the watched entries and changes nothing else. -/
theorem foldl_wrap (tracer : Nat) {keys : List MethodRef} (hnodup : keys.Nodup) (m : Machine)
    (hdirect : ∀ key ∈ keys, (m.methods key).isSome ∨ m.resolve key.1 key.2 = none)
    (displaced : List Displaced) :
    ∃ lines, (keys.foldl (wrap tracer) (m, displaced)).1 =
      { m with methods := m.recordedTable tracer keys, log := m.log ++ lines } := by
  induction keys generalizing m displaced with
  | nil => exact ⟨[], by simp [recordedTable_nil]⟩
  | cons key keys ih =>
    obtain ⟨hkey, hkeys⟩ := List.nodup_cons.mp hnodup
    obtain ⟨hdirectKey, hdirectKeys⟩ := List.forall_mem_cons.mp hdirect
    obtain ⟨lines, hwrap⟩ := wrap_direct hdirectKey tracer displaced
    let m₁ : Machine := { m with methods := m.recordedTable tracer [key], log := m.log ++ lines }
    obtain ⟨displaced₁, hpair⟩ : ∃ displaced₁, wrap tracer (m, displaced) key = (m₁, displaced₁) :=
      ⟨_, Prod.ext hwrap rfl⟩
    -- A recorder takes the place of an entry, so the other methods are handled as before.
    have hresolve := resolve_recorded (m := m) (n := m₁) rfl rfl
    have hdirect₁ (key') (hmem : key' ∈ keys) :
        (m₁.methods key').isSome ∨ m₁.resolve key'.1 key'.2 = none := by
      refine (hdirectKeys key' hmem).imp (fun h => ?_) fun h => ?_
      · simpa [m₁, recordedTable] using h
      · rw [hresolve, h, Option.map_none]
    obtain ⟨lines', hfold⟩ := ih hkeys m₁ hdirect₁ displaced₁
    refine ⟨lines ++ lines', ?_⟩
    rw [List.foldl_cons, hpair, hfold, recordedTable_cons m tracer hkey, List.append_assoc]

/-! ### What replacing entries displaces -/

/-- A machine on which entries of another were replaced, with what was displaced: besides the
entries only the log differs, and putting back what was displaced restores the table. -/
structure Displaces (m : Machine) (state : Machine × List Displaced) : Prop where
  machine : ∃ methods log, state.1 = { m with methods, log }
  restore : state.1.methods.restore state.2 = m.methods

namespace Displaces

variable {m n : Machine} {displaced : List Displaced}

theorem refl (m : Machine) : m.Displaces (m, []) :=
  ⟨⟨m.methods, m.log, rfl⟩, rfl⟩

theorem write (h : m.Displaces (n, displaced)) (lines : List LogLine) :
    m.Displaces (n.write lines, displaced) := by
  obtain ⟨⟨methods, log, rfl⟩, hrestore⟩ := h
  exact ⟨⟨methods, log ++ lines, rfl⟩, hrestore⟩

/-- An entry that is replaced is the last one displaced and the first one to be put back. -/
theorem install (h : m.Displaces (n, displaced)) (key : MethodRef) (entry : Option LocatedCode) :
    m.Displaces (n.install key entry, displaced ++ [⟨key, n.methods key⟩]) := by
  refine ⟨?_, ?_⟩
  · obtain ⟨⟨methods, log, rfl⟩, -⟩ := h
    exact ⟨methods.put key entry, log, rfl⟩
  · rw [MethodTable.restore_concat, Machine.install, MethodTable.put_put_eq]
    exact h.restore

theorem wrap {state : Machine × List Displaced} (h : m.Displaces state) (tracer : Nat)
    (key : MethodRef) : m.Displaces (Machine.wrap tracer state key) := by
  obtain ⟨n, displaced⟩ := state
  rcases wrap_cases tracer n displaced key with ⟨-, lines, hwrap⟩ | ⟨owner, e, -, hwrap⟩
  · rw [hwrap]
    exact h.write lines
  · rw [hwrap]
    exact h.install key _

/-- Putting back what wrapping has displaced restores the table there was before. -/
theorem foldl_wrap (m : Machine) (tracer : Nat) (keys : List MethodRef) :
    m.Displaces (keys.foldl (Machine.wrap tracer) (m, [])) :=
  List.foldlRecOn keys _ (.refl m) fun _ h key _ => h.wrap tracer key

end Displaces

/-! ### Starting and stopping -/

/-- Starting a tracer that is ready installs its interception. -/
theorem startTracer_of_ready {m : Machine} {tracer : Nat} {t : Tracer}
    (hget : m.tracers[tracer]? = some t) (hready : t.state = .ready) :
    ∃ lines, m.startTracer tracer =
      (((m.intercept tracer t).1.write lines).modifyTracer tracer fun t' =>
        { t' with state := .running (m.intercept tracer t).2 }, .ok ()) := by
  rw [startTracer, hget]
  simp only [hready]
  exact ⟨_, rfl⟩

/-- Starting a tracer is refused, and changes nothing, unless it is ready. -/
theorem startTracer_cases (m : Machine) (tracer : Nat) :
    m.startTracer tracer = (m, .error .tracerAlreadyStarted) ∨
    ∃ t lines, m.tracers[tracer]? = some t ∧ t.state = .ready ∧ m.startTracer tracer =
      (((m.intercept tracer t).1.write lines).modifyTracer tracer fun t' =>
        { t' with state := .running (m.intercept tracer t).2 }, .ok ()) := by
  cases hget : m.tracers[tracer]? with
  | none => exact Or.inl (by rw [startTracer, hget])
  | some t =>
    cases hstate : t.state with
    | ready =>
      obtain ⟨lines, hstart⟩ := startTracer_of_ready hget hstate
      exact Or.inr ⟨t, lines, rfl, hstate, hstart⟩
    | running i => exact Or.inl (by simp only [startTracer, hget, hstate])
    | stopped calls stats => exact Or.inl (by simp only [startTracer, hget, hstate])

/-- Stopping a tracer changes nothing if there is no such tracer or it was stopped before. Else what
it has intercepted is undone, and it keeps what the filter takes as real. -/
theorem stopTracer_cases {m m' : Machine} {tracer : Nat} {calls : List Call}
    (h : m.stopTracer tracer = .ok (m', calls)) :
    (m.tracers[tracer]? = none ∧ m' = m ∧ calls = []) ∨
    (∃ t stats, m.tracers[tracer]? = some t ∧ t.state = .stopped calls stats ∧ m' = m) ∨
    ∃ t m₁ lines stats, m.tracers[tracer]? = some t ∧
      (t.state = .ready ∧ m₁ = m ∨ ∃ i, t.state = .running i ∧ m₁ = m.release i) ∧
      t.filter.keepReal t.capture.records = .ok calls ∧
      m' = (m₁.write lines).modifyTracer tracer fun t' =>
        { t' with
          capture := { t'.capture with records := [] }, state := .stopped calls stats } := by
  rw [stopTracer] at h
  cases hget : m.tracers[tracer]? with
  | none =>
    rw [hget] at h
    cases h
    exact Or.inl ⟨rfl, rfl, rfl⟩
  | some t =>
    rw [hget] at h
    refine Or.inr ?_
    cases hstate : t.state with
    | stopped calls' stats =>
      simp only [hstate] at h
      cases h
      exact Or.inl ⟨t, stats, rfl, hstate, rfl⟩
    | ready =>
      simp only [hstate] at h
      obtain ⟨calls', hcalls, hresult⟩ := exists_of_bind_eq_ok h
      cases hresult
      exact Or.inr ⟨t, _, _, _, rfl, Or.inl ⟨hstate, rfl⟩, hcalls, rfl⟩
    | running i =>
      simp only [hstate] at h
      obtain ⟨calls', hcalls, hresult⟩ := exists_of_bind_eq_ok h
      cases hresult
      exact Or.inr ⟨t, _, _, _, rfl, Or.inr ⟨i, hstate, rfl⟩, hcalls, rfl⟩

/-- Stopping a tracer that runs undoes its interception and keeps what the filter takes as real. -/
theorem stopTracer_of_running {m : Machine} {tracer : Nat} {t : Tracer}
    {installation : Interception} {calls : List Call} (hget : m.tracers[tracer]? = some t)
    (hrunning : t.state = .running installation)
    (hcalls : t.filter.keepReal t.capture.records = .ok calls) :
    ∃ lines stats, m.stopTracer tracer =
      .ok (((m.release installation).write lines).modifyTracer tracer fun t' =>
        { t' with capture := { t'.capture with records := [] }, state := .stopped calls stats },
      calls) := by
  simp only [stopTracer, hget, hrunning, hcalls]
  exact ⟨_, _, rfl⟩

/-- The machine on which a tracer with the given settings has been added and started. -/
def startTracing (m : Machine) (strategy : Strategy) (filter : ArtifactFilter)
    (watched : WatchList) : Machine :=
  ((m.addTracer { strategy, filter, watched }).1.startTracer m.tracers.length).1

/-- Starting a new tracer installs its interception. -/
theorem startTracing_eq (m : Machine) (strategy : Strategy) (filter : ArtifactFilter)
    (watched : WatchList) {m' : Machine} {installation : Interception}
    (hintercept : (m.addTracer { strategy, filter, watched }).1.intercept m.tracers.length
      { strategy, filter, watched } = (m', installation))
    (htracers : m'.tracers = m.tracers ++ [⟨strategy, filter, watched, {}, .ready⟩]) :
    ∃ lines, m.startTracing strategy filter watched =
      { m' with
        tracers := m.tracers ++ [⟨strategy, filter, watched, {}, .running installation⟩]
        log := m'.log ++ lines } := by
  obtain ⟨lines, hstart⟩ := startTracer_of_ready
    (m := (m.addTracer { strategy, filter, watched }).1) List.getElem?_concat_length rfl
  refine ⟨lines, ?_⟩
  rw [startTracing, hstart, hintercept]
  simp only [modifyTracer, write, htracers, modify_length_append]

/-- Starting a tracer that wraps puts recorders around the watched entries, and they can be taken
off again. -/
theorem startTracing_wrap (m : Machine) (filter : ArtifactFilter) {watched : WatchList}
    (hnodup : watched.keys.Nodup)
    (hdirect : ∀ key ∈ watched.keys, (m.methods key).isSome ∨ m.resolve key.1 key.2 = none) :
    ∃ displaced lines,
      m.startTracing .wrap filter watched =
        { m with
          methods := m.recordedTable m.tracers.length watched.keys
          tracers := m.tracers ++ [⟨.wrap, filter, watched, {}, .running (.wrapped displaced)⟩]
          log := m.log ++ lines } ∧
      (m.recordedTable m.tracers.length watched.keys).restore displaced = m.methods := by
  let m₁ : Machine := (m.addTracer { strategy := .wrap, filter, watched }).1
  have hresolve := resolve_congr (m := m) (n := m₁) rfl rfl
  obtain ⟨lines, hfold⟩ := foldl_wrap m.tracers.length hnodup m₁
    (fun key hkey => by rw [hresolve]; exact hdirect key hkey) []
  have hrestore := (Displaces.foldl_wrap m₁ m.tracers.length watched.keys).restore
  rw [hfold] at hrestore
  obtain ⟨lines', hstart⟩ := startTracing_eq m .wrap filter watched
    (Prod.ext hfold rfl) rfl
  exact ⟨_, lines ++ lines', by rw [hstart, List.append_assoc]; rfl, hrestore⟩

/-- Starting a tracer that follows events subscribes it with its watch list. -/
theorem startTracing_events (m : Machine) (filter : ArtifactFilter) (watched : WatchList) :
    ∃ lines, m.startTracing .events filter watched =
      { m with
        subscribers := m.subscribers ++ [m.observers.length]
        observers := m.observers ++ [.follower m.tracers.length watched]
        tracers := m.tracers ++
          [⟨.events, filter, watched, {}, .running (.subscribed m.observers.length)⟩]
        log := m.log ++ lines } :=
  startTracing_eq m .events filter watched rfl rfl

end Machine

end MockAudit
