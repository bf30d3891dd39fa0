import MockAudit.Proofs.Grouping
import MockAudit.Proofs.Interception
import MockAudit.Stubs.Registry

/-!
# What a registry keeps

A registry is filled step by step: a test configures a stub on a method or on a test double, a
finished record is registered, or everything is cleared. Each step looks for the group of a target
and for the group of a method in it, and opens what is missing. The outcome can be described without
these searches: the stubs are grouped by their targets and within these by their methods
(`Registry.entries_ofStubs`). From this form it follows what a registry keeps
(`Registry.keeps_stubs`): every stub once, under the method for which a tracer watches it.

## Main definitions

* `Registry.targetGroups`: stubs by their targets and methods.
* `StubRequest`, `RegistryStep`: how a registry is filled.
* `Call.IsKeptAs`: the record that a registry keeps of a stub.

## Main results

* `Registry.entries_ofStubs`: the entries of a registry are its stubs by targets and methods.
* `Registry.stubsOf_ofStubs`, `Registry.perm_stubs_ofStubs`: the stubs of a method, and all stubs.
* `WatchList.IsTidy.ofRegistrations_eq`: a tidy list of watched methods is rebuilt as it is.
* `Registry.keeps_stubs`: what a registry keeps, whatever steps have filled it.
-/

namespace MockAudit

/-! ### Stubs by target and method -/

/-- No allocator is watched. -/
theorem MethodRef.normalize_ne (key : MethodRef) (type : TypeName) :
    normalize key ≠ (.typeItself type, allocatorName) := by
  obtain ⟨target, method⟩ := key
  rw [normalize]
  split_ifs with h
  · simp [Target.instances, Target.typeItself]
  · rintro ⟨⟩
    exact h ⟨rfl, rfl⟩

/-- What is watched for a method is watched for itself. -/
theorem MethodRef.normalize_normalize (key : MethodRef) :
    normalize (normalize key) = normalize key := by
  have hne := normalize_ne key
  generalize normalize key = watched at hne
  obtain ⟨⟨type, onType⟩, method⟩ := watched
  refine if_neg ?_
  rintro ⟨rfl, rfl⟩
  exact hne type rfl

/-- A stub is kept under the method for which a tracer watches its method. -/
theorem Call.key_normalizeStub (stub : Call) :
    stub.normalizeStub.key = MethodRef.normalize stub.key := by
  by_cases h : stub.target.onType ∧ stub.method = allocatorName
  · rw [normalizeStub, if_pos h, MethodRef.normalize]
    exact (if_pos h).symm
  · rw [normalizeStub, if_neg h, MethodRef.normalize]
    exact (if_neg h).symm

namespace Registry

/-- The stubs of one target by their methods. -/
def methodGroups (stubs : List Call) : List StubGroup :=
  groupsBy Call.method StubGroup.mk stubs

/-- Stubs by their targets and methods. -/
def targetGroups (stubs : List Call) : List TargetGroup :=
  groupsBy Call.target (fun target stubs => ⟨target, methodGroups stubs⟩) stubs

private theorem addToMethods_eq (stub : Call) (groups : List StubGroup) :
    addToMethods stub groups = changeOrAdd (·.method = stub.method)
      (fun group => ⟨group.method, group.stubs ++ [stub]⟩) ⟨stub.method, [stub]⟩ groups := by
  induction groups with
  | nil => rfl
  | cons group groups ih => rw [addToMethods, changeOrAdd, ih]

private theorem addToTargets_eq (stub : Call) (groups : List TargetGroup) :
    addToTargets stub groups = changeOrAdd (·.target = stub.target)
      (fun group => ⟨group.target, addToMethods stub group.methods⟩)
      ⟨stub.target, [⟨stub.method, [stub]⟩]⟩ groups := by
  induction groups with
  | nil => rfl
  | cons group groups ih => rw [addToTargets, changeOrAdd, ih]

private theorem addToMethods_methodGroups (stubs : List Call) (stub : Call) :
    addToMethods stub (methodGroups stubs) = methodGroups (stubs ++ [stub]) := by
  rw [addToMethods_eq, methodGroups, methodGroups]
  exact (groupsBy_concat _ _ stubs stub (fun _ _ => .rfl) fun _ => rfl).symm

private theorem addToTargets_targetGroups (stubs : List Call) (stub : Call) :
    addToTargets stub (targetGroups stubs) = targetGroups (stubs ++ [stub]) := by
  have hsingle : [⟨stub.method, [stub]⟩] = methodGroups [stub] :=
    addToMethods_methodGroups [] stub
  rw [addToTargets_eq, hsingle, targetGroups, targetGroups]
  refine (groupsBy_concat Call.target
    (fun target stubs => TargetGroup.mk target (methodGroups stubs)) stubs stub
    (p := (·.target = stub.target)) (fun _ _ => .rfl) fun stubs => ?_).symm
  rw [addToMethods_methodGroups]

/-- The registry in which stubs were registered in order. -/
def ofStubs (stubs : List Call) : Registry :=
  stubs.foldl register empty

private theorem ofStubs_concat (stubs : List Call) (stub : Call) :
    ofStubs (stubs ++ [stub]) = (ofStubs stubs).register stub :=
  List.foldl_concat ..

/-- **A registry** holds its stubs by target and method. -/
theorem entries_ofStubs (stubs : List Call) :
    (ofStubs stubs).entries = targetGroups (stubs.map (·.normalizeStub)) := by
  induction stubs using List.reverseRecOn with
  | nil => rfl
  | append_singleton stubs stub ih =>
    rw [ofStubs_concat, register, ih, List.map_append, List.map_singleton,
      addToTargets_targetGroups]

/-- The methods for which tracers watch those of stubs. -/
def watchedKeys (stubs : List Call) : List MethodRef :=
  stubs.map fun stub => MethodRef.normalize stub.key

private theorem targets_ofStubs (stubs : List Call) : (ofStubs stubs).targets =
    groupsBy Prod.fst (fun target keys => (target, (keys.map Prod.snd).eraseDups))
      (watchedKeys stubs) := by
  have hkeys : watchedKeys stubs = (stubs.map (·.normalizeStub)).map Call.key := by
    rw [watchedKeys, List.map_map]
    exact List.map_congr_left fun stub _ => stub.key_normalizeStub.symm
  rw [targets, entries_ofStubs, targetGroups, map_groupsBy, hkeys, groupsBy_map Call.key]
  refine congrArg (groupsBy Call.target · _) ?_
  funext target kept
  have hmethods : (methodGroups kept).map (·.method) = (kept.map Call.method).eraseDups := by
    rw [methodGroups, map_groupsBy, groupsBy, List.map_id']
  rw [hmethods, List.map_map]
  rfl

/-- The stubs of a method are those registered for it, in the order of registration. -/
theorem stubsOf_ofStubs (stubs : List Call) (key : MethodRef) :
    (ofStubs stubs).stubsOf key =
      (stubs.filter fun stub => MethodRef.normalize stub.key == key).map (·.normalizeStub) := by
  have hkept : (stubs.filter fun stub => MethodRef.normalize stub.key == key).map
      (·.normalizeStub) = (stubs.map (·.normalizeStub)).filter (·.key == key) := by
    rw [List.filter_map]
    refine congrArg _ (List.filter_congr fun stub _ => ?_)
    rw [Function.comp_apply, stub.key_normalizeStub]
  rw [hkept, stubsOf, entries_ofStubs]
  generalize stubs.map (·.normalizeStub) = kept
  have hkeyed : kept.filter (·.key == key) =
      (kept.filter (·.target == key.1)).filter (·.method == key.2) := by
    rw [List.filter_filter]
    exact List.filter_congr fun stub _ => Bool.and_comm ..
  rw [targetGroups, find?_groupsBy _ _ TargetGroup.target fun _ _ => rfl, hkeyed]
  split_ifs with hmem
  · rw [Option.bind_some, methodGroups, find?_groupsBy _ _ StubGroup.method fun _ _ => rfl]
    split_ifs with hmem'
    · rfl
    · refine (List.filter_eq_nil_iff.mpr fun stub hstub hmethod => hmem' ?_).symm
      exact eq_of_beq hmethod ▸ List.mem_map_of_mem hstub
  · have hnone : kept.filter (·.target == key.1) = [] :=
      List.filter_eq_nil_iff.mpr fun stub hstub htarget =>
        hmem (eq_of_beq htarget ▸ List.mem_map_of_mem hstub)
    rw [hnone]
    rfl

private theorem perm_addToMethods (stub : Call) (groups : List StubGroup) :
    ((addToMethods stub groups).flatMap (·.stubs)).Perm (groups.flatMap (·.stubs) ++ [stub]) := by
  rw [addToMethods_eq]
  exact perm_flatMap_changeOrAdd StubGroup.stubs (fun group _ => .rfl) rfl

/-- A registered stub is kept besides those that were kept before. -/
theorem perm_stubs_register (r : Registry) (stub : Call) :
    (r.register stub).stubs.Perm (r.stubs ++ [stub.normalizeStub]) := by
  have hentries : (r.register stub).entries = addToTargets stub.normalizeStub r.entries := rfl
  rw [stubs, stubs, hentries, addToTargets_eq]
  apply perm_flatMap_changeOrAdd
  · exact fun entry _ => perm_addToMethods _ entry.methods
  · rfl

/-- **All stubs** that were registered are kept, each of them once. -/
theorem perm_stubs_ofStubs (stubs : List Call) :
    (ofStubs stubs).stubs.Perm (stubs.map (·.normalizeStub)) := by
  induction stubs using List.reverseRecOn with
  | nil => exact .rfl
  | append_singleton stubs stub ih =>
    rw [ofStubs_concat, List.map_append]
    exact (perm_stubs_register _ stub).trans (ih.append_right _)

end Registry

/-! ### Watching what is stubbed -/

namespace WatchList

theorem add_eq (key : MethodRef) (list : WatchList) :
    list.add key = changeOrAdd (fun group : Target × List String => group.1 = key.1)
      (fun group => (group.1, if key.2 ∈ group.2 then group.2 else group.2 ++ [key.2]))
      (key.1, [key.2]) list := by
  induction list with
  | nil => rfl
  | cons group list ih => rw [add, changeOrAdd, ih]

/-- Further methods of the target that was watched last join its group. -/
theorem watch_last {list : WatchList} {target : Target} (htarget : target ∉ list.map Prod.fst)
    {watched methods : List String} (hmethods : (watched ++ methods).Nodup)
    (hnormal : ∀ method ∈ methods, MethodRef.normalize (target, method) = (target, method)) :
    watch (list ++ [(target, watched)]) target methods =
      list ++ [(target, watched ++ methods)] := by
  have hother : ∀ group ∈ list, ¬group.1 = target := fun group hgroup heq =>
    htarget (heq ▸ List.mem_map_of_mem hgroup)
  induction methods generalizing watched with
  | nil => rw [List.append_nil]; rfl
  | cons method methods ih =>
    obtain ⟨hmethod, hnormal⟩ := List.forall_mem_cons.mp hnormal
    have hnew : method ∉ watched := fun hmem =>
      (List.nodup_append.mp hmethods).2.2 method hmem method (List.mem_cons_self ..) rfl
    rw [watch, List.foldl_cons, ← watch, hmethod, add_eq, changeOrAdd_append hother, changeOrAdd,
      if_pos rfl, if_neg hnew, ih (by rwa [List.append_assoc]) hnormal, List.append_assoc]
    rfl

/-- The methods of a target that is not watched yet form a group of their own. -/
theorem watch_of_notMem {list : WatchList} {target : Target} (htarget : target ∉ list.map Prod.fst)
    {methods : List String} (hsome : methods ≠ []) (hmethods : methods.Nodup)
    (hnormal : ∀ method ∈ methods, MethodRef.normalize (target, method) = (target, method)) :
    list.watch target methods = list ++ [(target, methods)] := by
  obtain ⟨method, methods, rfl⟩ := List.exists_cons_of_ne_nil hsome
  obtain ⟨hmethod, hrest⟩ := List.forall_mem_cons.mp hnormal
  have hother : ∀ group ∈ list, ¬group.1 = target := fun group hgroup heq =>
    htarget (heq ▸ List.mem_map_of_mem hgroup)
  rw [watch, List.foldl_cons, ← watch, hmethod, add_eq, changeOrAdd_of_forall_not hother]
  exact watch_last htarget hmethods hrest

/-- **A tidy watch list** without empty groups and without allocators is rebuilt as it is. -/
theorem IsTidy.ofRegistrations_eq {list : WatchList} (h : list.IsTidy)
    (hsome : ∀ group ∈ list, group.2 ≠ [])
    (hnormal : ∀ key ∈ list.keys, MethodRef.normalize key = key) : ofRegistrations list = list := by
  induction list using List.reverseRecOn with
  | nil => rfl
  | append_singleton list group ih =>
    obtain ⟨target, methods⟩ := group
    obtain ⟨htargets, hmethods⟩ := h
    rw [List.map_append, List.map_singleton, List.nodup_append] at htargets
    rw [List.forall_mem_append, List.forall_mem_singleton] at hsome hmethods
    have hlast : ∀ method ∈ methods, MethodRef.normalize (target, method) = (target, method) :=
      fun method hmethod => hnormal _ (mem_keys.mpr ⟨_, List.mem_append_right _
        (List.mem_singleton_self _), rfl, hmethod⟩)
    have hinit : ∀ key ∈ keys list, MethodRef.normalize key = key := fun key hkey => by
      obtain ⟨group, hgroup, hkey⟩ := mem_keys.mp hkey
      exact hnormal key (mem_keys.mpr ⟨group, List.mem_append_left _ hgroup, hkey⟩)
    have hnew : target ∉ list.map Prod.fst := fun hmem =>
      htargets.2.2 target hmem target (List.mem_singleton_self _) rfl
    rw [ofRegistrations, List.foldl_append, ← ofRegistrations,
      ih ⟨htargets.1, hmethods.1⟩ hsome.1 hinit]
    exact watch_of_notMem hnew hsome.2 hmethods.2 hlast

end WatchList

namespace Registry

private theorem firstOccurrences_targets (stubs : List Call) :
    FirstOccurrences ((ofStubs stubs).targets.map Prod.fst) ((watchedKeys stubs).map Prod.fst) := by
  rw [targets_ofStubs, map_groupsBy, groupsBy, List.map_id']
  exact firstOccurrences_eraseDups _

private theorem firstOccurrences_methods {stubs : List Call} {group : Target × List String}
    (hgroup : group ∈ (ofStubs stubs).targets) :
    FirstOccurrences group.2
      (((watchedKeys stubs).filter (·.1 == group.1)).map Prod.snd) := by
  rw [targets_ofStubs, groupsBy] at hgroup
  obtain ⟨target, -, rfl⟩ := List.mem_map.mp hgroup
  exact firstOccurrences_eraseDups _

/-- A registry is an orderly watch list: it has no empty groups and no allocators. -/
theorem isTidy_targets (stubs : List Call) : WatchList.IsTidy (ofStubs stubs).targets where
  targets := (firstOccurrences_targets stubs).nodup
  methods _ hgroup := (firstOccurrences_methods hgroup).nodup

theorem mem_keys_targets {stubs : List Call} {key : MethodRef} :
    key ∈ WatchList.keys (ofStubs stubs).targets ↔ key ∈ watchedKeys stubs := by
  obtain ⟨target, method⟩ := key
  rw [WatchList.mem_keys]
  constructor
  · rintro ⟨group, hgroup, rfl, hmethod⟩
    obtain ⟨key, hkey, rfl⟩ := List.mem_map.mp
      (((firstOccurrences_methods hgroup).mem_iff _).mp hmethod)
    obtain ⟨hkey, htarget⟩ := List.mem_filter.mp hkey
    rwa [← eq_of_beq htarget]
  · intro hkey
    obtain ⟨group, hgroup, rfl⟩ := List.mem_map.mp
      (((firstOccurrences_targets stubs).mem_iff target).mpr (List.mem_map_of_mem hkey))
    refine ⟨group, hgroup, rfl, ((firstOccurrences_methods hgroup).mem_iff method).mpr ?_⟩
    exact List.mem_map.mpr ⟨_, List.mem_filter.mpr ⟨hkey, beq_self_eq_true _⟩, rfl⟩

/-- A tracer that is to watch the stubbed methods watches just these. -/
theorem ofRegistrations_targets (stubs : List Call) :
    WatchList.ofRegistrations (ofStubs stubs).targets = (ofStubs stubs).targets := by
  refine (isTidy_targets stubs).ofRegistrations_eq (fun group hgroup => ?_) fun key hkey => ?_
  · have htarget := ((firstOccurrences_targets stubs).mem_iff group.1).mp
      (List.mem_map_of_mem hgroup)
    obtain ⟨key, hkey, heq⟩ := List.mem_map.mp htarget
    refine List.ne_nil_of_mem (((firstOccurrences_methods hgroup).mem_iff key.2).mpr ?_)
    exact List.mem_map_of_mem (List.mem_filter.mpr ⟨hkey, beq_iff_eq.mpr heq⟩)
  · obtain ⟨stub, -, rfl⟩ := List.mem_map.mp (mem_keys_targets.mp hkey)
    exact MethodRef.normalize_normalize _

end Registry

/-! ### Filling a registry -/

/-- What a stub is configured on. -/
inductive StubSubject
  /-- A method, which the stub replaces. -/
  | method (target : Target)
  /-- A test double. -/
  | double (d : TestDouble)

/-- A stub as a test configures it. -/
structure StubRequest where
  subject : StubSubject
  method : String
  arguments : List Value := []
  location : Option String := none
  /-- The test case that configures the stub. -/
  testCase : Option String := none
  result : Value

/-- The stub that is configured. -/
def StubRequest.stub (q : StubRequest) : Call :=
  match q.subject with
  | .method target =>
    Registry.stub target q.method q.arguments none q.location q.testCase q.result
  | .double d =>
    Registry.stub (Registry.targetOfDouble d) q.method q.arguments (some (.double d)) q.location
      q.testCase q.result

/-- A step by which a registry is filled or emptied. -/
inductive RegistryStep
  | configure (q : StubRequest)
  | register (stub : Call)
  | clear

namespace RegistryStep

/-- The registry after a step. -/
def perform (r : Registry) : RegistryStep → Registry
  | configure q => r.register q.stub
  | register stub => r.register stub
  | clear => .empty

/-- The stubs registered since the last clearing, after a step. -/
def registered (stubs : List Call) : RegistryStep → List Call
  | configure q => stubs ++ [q.stub]
  | register stub => stubs ++ [stub]
  | clear => []

private theorem perform_ofStubs (stubs : List Call) (step : RegistryStep) :
    perform (.ofStubs stubs) step = .ofStubs (registered stubs step) := by
  cases step with
  | configure q => exact (Registry.ofStubs_concat stubs q.stub).symm
  | register stub => exact (Registry.ofStubs_concat stubs stub).symm
  | clear => rfl

end RegistryStep

namespace Registry

/-- The registry after several steps. -/
def afterSteps (steps : List RegistryStep) : Registry :=
  steps.foldl RegistryStep.perform empty

/-- The stubs that several steps have registered and not cleared. -/
def registeredBy (steps : List RegistryStep) : List Call :=
  steps.foldl RegistryStep.registered []

/-- Steps fill a registry with the stubs they register. -/
theorem afterSteps_eq (steps : List RegistryStep) :
    afterSteps steps = ofStubs (registeredBy steps) := by
  induction steps using List.reverseRecOn with
  | nil => rfl
  | append_singleton steps step ih =>
    rw [afterSteps, registeredBy, List.foldl_concat, List.foldl_concat, ← afterSteps,
      ← registeredBy, ih, RegistryStep.perform_ofStubs]

end Registry

/-- The record that a registry keeps of a stub: the stub itself, unless it is configured on the
allocator of a type. Then the record is that of the constructor, and it remembers the type as the
receiver if there was no other. -/
structure Call.IsKeptAs (stub kept : Call) : Prop where
  other : (∀ type, stub.key ≠ (.typeItself type, allocatorName)) → kept = stub
  allocator : ∀ type, stub.key = (.typeItself type, allocatorName) →
    kept.key = (.instances type, constructorName) ∧
      kept.receiver = some (stub.receiver.getD (.type type))
  arguments : kept.arguments = stub.arguments
  result : kept.result = stub.result
  testCase : kept.testCase = stub.testCase
  location : kept.location = stub.location
  raised : kept.raised = stub.raised
  failure : kept.failure = stub.failure

theorem Call.isKeptAs_normalizeStub (stub : Call) : stub.IsKeptAs stub.normalizeStub := by
  have hallocator (type : TypeName) (hkey : stub.key = (.typeItself type, allocatorName)) :
      stub.target = .typeItself type ∧ stub.method = allocatorName :=
    Prod.mk.inj hkey
  by_cases h : stub.target.onType ∧ stub.method = allocatorName
  · rw [normalizeStub, if_pos h]
    refine ⟨fun hother => absurd ?_ (hother stub.target.type), fun type hkey => ?_, rfl, rfl, rfl,
      rfl, rfl, rfl⟩
    · exact Prod.ext (congrArg (Target.mk stub.target.type) h.1) h.2
    · rw [(hallocator type hkey).1]
      exact ⟨rfl, rfl⟩
  · rw [normalizeStub, if_neg h]
    refine ⟨fun _ => rfl, fun type hkey => absurd ?_ h, rfl, rfl, rfl, rfl, rfl, rfl⟩
    obtain ⟨htarget, hmethod⟩ := hallocator type hkey
    exact ⟨by rw [htarget]; rfl, hmethod⟩

namespace Registry

/-- **A registry keeps every stub once.** Whatever steps have filled a registry since it was last
cleared: its targets and the methods of each target stand in the order of first registration,
without repetitions; the stubs of a method are the records kept of the stubs registered for it, in
the order of registration; all stubs together are the records of all registered ones, and no stub is
kept under an allocator. A tracer that is told to watch the stubbed methods watches just these. -/
theorem keeps_stubs (steps : List RegistryStep) :
    let r := afterSteps steps
    let stubs := registeredBy steps
    let keys := stubs.map fun stub => MethodRef.normalize stub.key
    FirstOccurrences (r.targets.map Prod.fst) (keys.map Prod.fst) ∧
    (∀ group ∈ r.targets,
      FirstOccurrences group.2 ((keys.filter (·.1 == group.1)).map Prod.snd)) ∧
    (∀ key, List.Forall₂ Call.IsKeptAs
      (stubs.filter fun stub => MethodRef.normalize stub.key == key) (r.stubsOf key)) ∧
    (∃ kept, List.Forall₂ Call.IsKeptAs stubs kept ∧ r.stubs.Perm kept) ∧
    r.size = stubs.length ∧
    (∀ type, (.typeItself type, allocatorName) ∉ WatchList.keys r.targets ∧
      r.stubsOf (.typeItself type, allocatorName) = []) ∧
    WatchList.ofRegistrations r.targets = r.targets ∧
    (WatchList.keys r.targets).Nodup := by
  intro r stubs keys
  have hr : r = ofStubs stubs := afterSteps_eq steps
  have hkept (stubs : List Call) :
      List.Forall₂ Call.IsKeptAs stubs (stubs.map (·.normalizeStub)) :=
    List.forall₂_map_right_iff.mpr <| List.forall₂_same.mpr fun stub _ =>
      stub.isKeptAs_normalizeStub
  rw [hr]
  refine ⟨firstOccurrences_targets stubs, fun group hgroup => firstOccurrences_methods hgroup,
    fun key => ?_, ⟨_, hkept stubs, perm_stubs_ofStubs stubs⟩, ?_, fun type => ⟨?_, ?_⟩,
    ofRegistrations_targets stubs, (isTidy_targets stubs).nodup_keys⟩
  · rw [stubsOf_ofStubs]
    exact hkept _
  · rw [size, (perm_stubs_ofStubs stubs).length_eq, List.length_map]
  · rw [mem_keys_targets]
    intro hmem
    obtain ⟨stub, -, hkey⟩ := List.mem_map.mp hmem
    exact MethodRef.normalize_ne stub.key type hkey
  · rw [stubsOf_ofStubs, List.map_eq_nil_iff, List.filter_eq_nil_iff]
    exact fun stub _ hkey => MethodRef.normalize_ne stub.key type (eq_of_beq hkey)

end Registry

end MockAudit
