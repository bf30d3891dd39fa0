import MockAudit.Proofs.Displacement
import MockAudit.Proofs.NamedFlags
import MockAudit.Proofs.Registration

/-!
# What stubs answer

When a registry is installed, the stubs of a method are divided several times: those configured on
doubles go to the handler of messages to doubles, and of the others those of an allocator go to the
allocator. Neither step loses or reorders any. So the entry of a method holds the stubs that were
configured for just this method, in the order of configuration (`Machine.methods_installStubs`), and
what the handler finds for a message to a double are the stubs configured on this double for this
message (`Registry.stubsOnDouble_ofRequests`). In both places the last one that fits answers.

A registry without stubs on doubles leaves the messages to doubles to whoever answered them before,
and that may be an earlier set of stubs (`Machine.earlier_stubs_answer`).

## Main definitions

* `IsLast`: the last one with a property.
* `StubRequest.IsReport`: the record that a stub reports.
* `Machine.AnswersFrom`: how configured stubs answer.

## Main results

* `Machine.methods_installStubs`: the table after installing a registry.
* `Machine.latest_stub_answers`: the latest stub that fits answers, and reports this once.
-/

namespace MockAudit

/-! ### The latest stub -/

/-- An entry of a list with a property that no later entry has. -/
def IsLast {α : Type} (p : α → Prop) (as : List α) (a : α) : Prop :=
  p a ∧ ∃ before after, as = before ++ a :: after ∧ ∀ b ∈ after, ¬p b

/-- Searching backwards finds the last one. -/
theorem isLast_of_find?_reverse {α : Type} {p : α → Bool} {as : List α} {a : α}
    (h : as.reverse.find? p = some a) : IsLast (p · = true) as a := by
  obtain ⟨ha, after, before, hsplit, hafter⟩ := List.find?_eq_some_iff_append.mp h
  refine ⟨ha, before.reverse, after.reverse, ?_, fun b hb => ?_⟩
  · rw [← as.reverse_reverse, hsplit, List.reverse_append, List.reverse_cons, List.append_assoc,
      List.singleton_append]
  · simpa using hafter b (List.mem_reverse.mp hb)

/-- If nothing is found at all but one place, everything is found there. -/
theorem flatMap_eq_of_nodup {α β : Type} [DecidableEq α] {f : α → List β} {as : List α}
    (hnodup : as.Nodup) {a : α} (hf : ∀ b ∈ as, b ≠ a → f b = []) :
    as.flatMap f = if a ∈ as then f a else [] := by
  induction as with
  | nil => rfl
  | cons b as ih =>
    obtain ⟨hb, hnodup⟩ := List.nodup_cons.mp hnodup
    obtain ⟨hfb, hfas⟩ := List.forall_mem_cons.mp hf
    rw [List.flatMap_cons, ih hnodup hfas]
    by_cases hab : b = a
    · subst hab
      rw [if_neg hb, if_pos (List.mem_cons_self ..), List.append_nil]
    · rw [hfb hab, List.nil_append]
      simp [List.mem_cons, Ne.symm hab]

/-! ### What is kept of a configured stub -/

deriving instance DecidableEq for StubSubject

namespace StubRequest

variable {q : StubRequest}

/-- The stub is configured on this subject for this method. -/
def IsFor (subject : StubSubject) (method : String) (q : StubRequest) : Prop :=
  q.subject = subject ∧ q.method = method

instance (subject : StubSubject) (method : String) : DecidablePred (IsFor subject method) :=
  fun _ => inferInstanceAs (Decidable (_ ∧ _))

/-- The stub fits these arguments: it has none, or they are equal. -/
def Fits (args : List Value) (q : StubRequest) : Prop :=
  q.arguments = [] ∨ q.arguments == args

/-- The stub as a registry keeps it. -/
def kept (q : StubRequest) : Call :=
  q.stub.normalizeStub

private theorem kept_key (q : StubRequest) : q.kept.key = MethodRef.normalize q.stub.key :=
  q.stub.key_normalizeStub

private theorem kept_arguments (q : StubRequest) : q.kept.arguments = q.arguments := by
  rw [kept, q.stub.isKeptAs_normalizeStub.arguments, stub]
  cases q.subject <;> rfl

private theorem kept_resultOrNil (q : StubRequest) : q.kept.resultOrNil = q.result := by
  rw [kept, Call.resultOrNil, q.stub.isKeptAs_normalizeStub.result, stub]
  cases q.subject <;> rfl

private theorem fits_kept (q : StubRequest) (args : List Value) :
    q.kept.fits args = true ↔ q.Fits args := by
  rw [Call.fits, kept_arguments, Bool.or_eq_true, List.isEmpty_iff, Fits]

/-- What is configured on a method is kept as a stub that is on no double, and with the mark of the
allocator if the method is one. -/
theorem kept_of_method {target : Target} (h : q.subject = .method target) :
    Machine.isOnDouble q.kept = false ∧
      q.kept.isOnAllocator = decide (target.onType = true ∧ q.method = allocatorName) := by
  have hstub : q.stub =
      Registry.stub target q.method q.arguments none q.location q.testCase q.result := by
    rw [stub, h]
  by_cases hallocator : target.onType = true ∧ q.method = allocatorName
  · have hkept : q.kept = { Registry.stub target q.method q.arguments none q.location q.testCase
        q.result with
        target := .instances target.type
        method := constructorName
        namedFlag := none
        shape := none
        receiver := some (.type target.type) } := by
      rw [kept, hstub, Call.normalizeStub]
      exact if_pos hallocator
    rw [hkept, decide_eq_true hallocator]
    exact ⟨rfl, beq_self_eq_true target.type⟩
  · have hkept : q.kept =
        Registry.stub target q.method q.arguments none q.location q.testCase q.result := by
      rw [kept, hstub, Call.normalizeStub]
      exact if_neg hallocator
    rw [hkept, decide_eq_false hallocator]
    exact ⟨rfl, rfl⟩

/-- What is configured on a double keeps the double as its receiver. -/
theorem kept_of_double {d : TestDouble} (h : q.subject = .double d) :
    q.kept.receiver = some (.double d) := by
  have hreceiver : q.stub.receiver = some (.double d) := by
    rw [stub, h]
    rfl
  rw [kept, Call.normalizeStub]
  split
  · rw [hreceiver]
    rfl
  · exact hreceiver

/-- A stub responds to the message for which it was configured, unless this is about the creation of
an instance. -/
theorem respondsTo_kept (q : StubRequest) {method : String}
    (hconstructor : method ≠ constructorName) (hnew : method ≠ allocatorName) :
    q.kept.respondsTo method = true ↔ q.method = method := by
  have hkept : q.kept.method = (MethodRef.normalize q.stub.key).2 := congrArg Prod.snd q.kept_key
  have hmethod : q.stub.key.2 = q.method := by
    rw [stub]
    cases q.subject <;> rfl
  rw [Call.respondsTo, beq_false_of_ne hnew, Bool.false_and, Bool.or_false, beq_iff_eq, hkept,
    ← hmethod]
  by_cases h : q.stub.key.1.onType = true ∧ q.stub.key.2 = allocatorName
  · rw [MethodRef.normalize, if_pos h, h.2]
    exact iff_of_false hconstructor.symm hnew.symm
  · rw [MethodRef.normalize, if_neg h]

/-- The record that a stub reports when it answers: that of its method with the arguments and the
receiver of the message, and with the canned value, unless it stands for a constructor. -/
structure IsReport (q : StubRequest) (receiver : Value) (args : List Value) (c : Call) : Prop where
  key : c.key = MethodRef.normalize q.stub.key
  arguments : c.arguments = args
  receiver : c.receiver = some receiver
  result : c.result = if c.isConstructor then none else some q.result
  location : c.location = some stubLocation
  namedFlag : c.namedFlag = none
  raised : c.raised = none
  failure : c.failure = none

private theorem isReport_mocked (q : StubRequest) (receiver : Value) (args : List Value)
    (shape : Option Shape) (testCase : Option String) :
    q.IsReport receiver args (q.kept.mocked receiver args shape testCase) where
  key := q.kept_key
  arguments := rfl
  receiver := rfl
  result := by rw [← q.kept_resultOrNil]; rfl
  location := rfl
  namedFlag := rfl
  raised := rfl
  failure := rfl

end StubRequest

namespace Machine

/-- The answer of a machine when stubs are configured for a message: the latest that fits reports to
the sink, once, and its canned value is handed out if the sink accepts the record, and the failure
if it refuses it. If none fits, the message is not expected, and nothing else happens. -/
inductive AnswersFrom (m : Machine) (sink : Sink) (requests : List StubRequest)
    (p : StubRequest → Prop) (receiver : Value) (args : List Value) : Reply → Prop
  | accepted {q : StubRequest} {c : Call} {m' : Machine}
    (hq : IsLast (fun q => p q ∧ q.Fits args) requests q) (hc : q.IsReport receiver args c)
    (hsink : m.deliver sink c = (m', .ok none)) :
    AnswersFrom m sink requests p receiver args (m', some (.returned q.result))
  | refused {q : StubRequest} {c : Call} {m' : Machine} {f : Failure}
    (hq : IsLast (fun q => p q ∧ q.Fits args) requests q) (hc : q.IsReport receiver args c)
    (hsink : m.deliver sink c = (m', .ok (some f))) :
    AnswersFrom m sink requests p receiver args (m', some (.raised (Call.raiseFailure f)))
  | unexpected {e : RaisedError} (hnone : ∀ q ∈ requests, p q → ¬q.Fits args)
    (he : e.type = "MockExpectationError") :
    AnswersFrom m sink requests p receiver args (m, some (.raised e))

/-- Stubs answer only if one of them fits; else there is an error. -/
theorem AnswersFrom.isLast_or_raised {m : Machine} {sink : Sink} {requests : List StubRequest}
    {p : StubRequest → Prop} {receiver : Value} {args : List Value} {reply : Reply}
    (h : m.AnswersFrom sink requests p receiver args reply) :
    (∃ q, IsLast (fun q => p q ∧ q.Fits args) requests q) ∨ ∃ e, reply.2 = some (.raised e) := by
  cases h with
  | accepted hq => exact Or.inl ⟨_, hq⟩
  | refused hq => exact Or.inl ⟨_, hq⟩
  | unexpected => exact Or.inr ⟨_, rfl⟩

/-- A sink accepts or refuses every well-flagged record. -/
theorem exists_deliver (m : Machine) (sink : Sink) {c : Call} (h : c.IsWellFlagged) :
    ∃ m' verdict, m.deliver sink c = (m', .ok verdict) := by
  have hjudge : ∃ verdict, m.judge sink.judge c = .ok verdict := by
    rw [judge.eq_def]
    split
    · exact ⟨none, rfl⟩
    · exact ⟨none, rfl⟩
    · exact ⟨_, rfl⟩
    · rename_i checker _ _
      obtain ⟨verdict, hverdict⟩ := checker.exists_check m.environment _ h
      exact ⟨_, by rw [hverdict]; rfl⟩
  obtain ⟨verdict, hverdict⟩ := hjudge
  simp only [deliver, hverdict]
  split
  · exact ⟨_, _, rfl⟩
  · exact ⟨_, _, rfl⟩

variable {requests : List StubRequest} {p : StubRequest → Prop} {args : List Value}

/-- Stubs find the latest request that fits. -/
theorem isLast_of_fittingStub? [DecidablePred p] {stub : Call}
    (h : fittingStub? ((requests.filter (p ·)).map (·.kept)) args = some stub) :
    ∃ q, stub = q.kept ∧ IsLast (fun q => p q ∧ q.Fits args) requests q := by
  rw [fittingStub?, ← List.map_reverse, List.find?_map, ← List.filter_reverse,
    List.find?_filter] at h
  obtain ⟨q, hq, rfl⟩ := Option.map_eq_some_iff.mp h
  obtain ⟨hlast, before, after, hsplit, hafter⟩ := isLast_of_find?_reverse hq
  have hiff (q : StubRequest) :
      decide (decide (p q) = true ∧ ((·.fits args) ∘ StubRequest.kept) q = true) = true ↔
        p q ∧ q.Fits args := by
    rw [decide_eq_true_iff, decide_eq_true_iff, Function.comp_apply, q.fits_kept]
  exact ⟨q, rfl, (hiff q).mp hlast, before, after, hsplit,
    fun b hb h => hafter b hb ((hiff b).mpr h)⟩

private theorem not_fits_of_fittingStub? [DecidablePred p]
    (h : fittingStub? ((requests.filter (p ·)).map (·.kept)) args = none)
    (q : StubRequest) (hq : q ∈ requests) (hp : p q) : ¬q.Fits args := by
  intro hfits
  rw [fittingStub?, List.find?_eq_none] at h
  refine h q.kept (List.mem_reverse.mpr (List.mem_map_of_mem ?_)) ((q.fits_kept args).mpr hfits)
  exact List.mem_filter.mpr ⟨hq, decide_eq_true hp⟩

/-- A stub that was chosen answers as configured. -/
theorem answersFrom_of_isLast {q : StubRequest}
    (hq : IsLast (fun q => p q ∧ q.Fits args) requests q) (m : Machine) (sink : Sink)
    (receiver : Value) :
    m.AnswersFrom sink requests p receiver args (m.answerFrom q.kept receiver args sink) := by
  have hreport := q.isReport_mocked receiver args
    ((m.catalog.lookup q.kept.target q.kept.method).map (·.2.shape)) m.testCase
  obtain ⟨m', verdict, hdeliver⟩ := m.exists_deliver sink
    (c := q.kept.mocked receiver args
      ((m.catalog.lookup q.kept.target q.kept.method).map (·.2.shape)) m.testCase) nofun
  cases verdict with
  | none =>
    simp only [answerFrom, hdeliver, q.kept_resultOrNil]
    exact .accepted hq hreport hdeliver
  | some f =>
    simp only [answerFrom, hdeliver]
    exact .refused hq hreport hdeliver

end Machine

/-! ### The stubs of a method and those of a double -/

/-- A method is known by the method under which it is watched and by whether it is an allocator. -/
theorem MethodRef.eq_iff_normalize_eq {key key' : MethodRef} : key = key' ↔
    normalize key = normalize key' ∧
      ((key.1.onType = true ∧ key.2 = allocatorName) ↔
        (key'.1.onType = true ∧ key'.2 = allocatorName)) := by
  constructor
  · rintro rfl
    exact ⟨rfl, .rfl⟩
  · rintro ⟨hnormal, hallocator⟩
    obtain ⟨⟨type, onType⟩, method⟩ := key
    obtain ⟨⟨type', onType'⟩, method'⟩ := key'
    by_cases h : onType = true ∧ method = allocatorName
    · obtain ⟨rfl, rfl⟩ := h
      obtain ⟨rfl, rfl⟩ := hallocator.mp ⟨rfl, rfl⟩
      simpa [normalize, Target.instances] using hnormal
    · rwa [normalize, normalize, if_neg h, if_neg fun h' => h (hallocator.mpr h')] at hnormal

/-- Only constructors carry the mark of the allocator. -/
theorem Call.method_of_isOnAllocator {stub : Call} (h : stub.isOnAllocator = true) :
    stub.method = constructorName := by
  rw [isOnAllocator] at h
  split at h
  · rw [Bool.and_eq_true, Bool.and_eq_true] at h
    exact eq_of_beq h.1.2
  · cases h

/-- What is watched is watched for itself, and a constructor also for the allocator. -/
theorem MethodRef.normalize_eq_iff {key key' : MethodRef} (hkey : normalize key = key) :
    normalize key' = key ↔ key' = key ∨
      key' = (.typeItself key.1.type, allocatorName) ∧
        key.1.onType = false ∧ key.2 = constructorName := by
  constructor
  · rintro rfl
    by_cases h : key'.1.onType = true ∧ key'.2 = allocatorName
    · have hnormal : normalize key' = (.instances key'.1.type, constructorName) := if_pos h
      rw [hnormal]
      exact Or.inr ⟨Prod.ext (congrArg (Target.mk key'.1.type) h.1) h.2, rfl, rfl⟩
    · exact Or.inl (by rw [normalize, if_neg h])
  · rintro (rfl | ⟨rfl, honType, hmethod⟩)
    · exact hkey
    · obtain ⟨⟨type, onType⟩, method⟩ := key
      obtain rfl : onType = false := honType
      obtain rfl : method = constructorName := hmethod
      rfl

namespace Registry

/-- The registry in which requests were configured in order. -/
def ofRequests (requests : List StubRequest) : Registry :=
  ofStubs (requests.map (·.stub))

/-- The stubs of a registry that take the place of a method: those of its key that are on no double,
and are on the allocator if the method is one. -/
def replacing (r : Registry) (key : MethodRef) : List Call :=
  ((r.stubsOf (MethodRef.normalize key)).filter (!Machine.isOnDouble ·)).filter
    (·.isOnAllocator == decide (key.1.onType = true ∧ key.2 = allocatorName))

private theorem stubsOf_ofRequests (requests : List StubRequest) (key : MethodRef) :
    (ofRequests requests).stubsOf key =
      (requests.filter fun q => q.kept.key == key).map (·.kept) := by
  rw [ofRequests, stubsOf_ofStubs, List.filter_map, List.map_map]
  refine congrArg _ (List.filter_congr fun q _ => ?_)
  rw [Function.comp_apply, q.kept_key]

/-- **The stubs that take the place of a method** are those configured for just this method. -/
theorem replacing_ofRequests (requests : List StubRequest) (key : MethodRef) :
    (ofRequests requests).replacing key =
      (requests.filter (StubRequest.IsFor (.method key.1) key.2 ·)).map (·.kept) := by
  rw [replacing, stubsOf_ofRequests, List.filter_map, List.filter_map, List.filter_filter,
    List.filter_filter]
  refine congrArg _ (List.filter_congr fun q _ => ?_)
  simp only [Function.comp_apply]
  cases h : q.subject with
  | method target =>
    obtain ⟨hdouble, hallocator⟩ := q.kept_of_method h
    have hkey : q.stub.key = (target, q.method) := by
      rw [StubRequest.stub, h]
      rfl
    have hfor : q.IsFor (.method key.1) key.2 ↔ (target, q.method) = key := by
      rw [StubRequest.IsFor, h, StubSubject.method.injEq, Prod.ext_iff]
    rw [hdouble, hallocator, Bool.eq_iff_iff, decide_eq_true_iff, hfor,
      MethodRef.eq_iff_normalize_eq, q.kept_key, hkey, Bool.not_false, Bool.and_true,
      Bool.and_eq_true, beq_iff_eq, beq_iff_eq, decide_eq_decide, and_comm]
  | double d =>
    have hdouble : Machine.isOnDouble q.kept = true := by
      rw [Machine.isOnDouble, q.kept_of_double h]
      rfl
    rw [hdouble, Bool.not_true, Bool.and_false, Bool.false_and]
    exact (decide_eq_false fun hq => by rw [hq.1] at h; cases h).symm

/-- The stubs of a registry that answer messages to doubles. -/
def onDoubles (r : Registry) : List Call :=
  (Machine.stubbedKeys r).flatMap fun key => (r.stubsOf key).filter Machine.isOnDouble

theorem mem_onDouble_iff {q : StubRequest} {d : TestDouble} {method : String}
    (hconstructor : method ≠ constructorName) (hnew : method ≠ allocatorName)
    (hidentity : ∀ d', q.subject = .double d' → d'.identity = d.identity → d' = d) :
    Machine.isOnDouble q.kept = true ∧ q.kept.respondsTo method = true ∧
      q.kept.receiver.any (· == Value.double d) = true ↔ q.IsFor (.double d) method := by
  rw [q.respondsTo_kept hconstructor hnew, StubRequest.IsFor]
  cases h : q.subject with
  | method target =>
    rw [(q.kept_of_method h).1]
    exact iff_of_false nofun nofun
  | double d' =>
    have hsame : d'.identity = d.identity ↔ d' = d := ⟨hidentity d' h, congrArg _⟩
    rw [Machine.isOnDouble, q.kept_of_double h, Option.any_some, Option.any_some, Value.beq_def,
      Value.equal, beq_iff_eq, hsame, StubSubject.double.injEq]
    exact (and_iff_right rfl).trans and_comm

/-- A request on a double leaves the registry with a stub that answers messages to doubles. -/
theorem onDoubles_ne_nil {requests : List StubRequest} {q : StubRequest} {d : TestDouble}
    (hq : q ∈ requests) (h : q.subject = .double d) : (ofRequests requests).onDoubles ≠ [] := by
  refine List.ne_nil_of_mem (List.mem_flatMap.mpr ⟨q.kept.key, ?_, List.mem_filter.mpr ⟨?_, ?_⟩⟩)
    (a := q.kept)
  · rw [q.kept_key]
    exact mem_keys_targets.mpr (List.mem_map_of_mem (List.mem_map_of_mem hq))
  · rw [stubsOf_ofRequests]
    exact List.mem_map_of_mem (List.mem_filter.mpr ⟨hq, beq_self_eq_true _⟩)
  · rw [Machine.isOnDouble, q.kept_of_double h]
    rfl

/-- What is configured on a double is kept under its target. -/
theorem kept_key_of_isFor {q : StubRequest} {d : TestDouble} {method : String}
    (hnew : method ≠ allocatorName) (h : q.IsFor (.double d) method) :
    q.kept.key = (targetOfDouble d, method) := by
  have hkey : q.stub.key = (targetOfDouble d, method) := by
    rw [StubRequest.stub, h.1, ← h.2]
    rfl
  rw [q.kept_key, hkey, MethodRef.normalize, if_neg fun h => hnew h.2]

/-- **The stubs that answer a message to a double** are those configured on this double for this
message, if no other double has its identity. -/
theorem stubsOnDouble_ofRequests {requests : List StubRequest} {d : TestDouble} {method : String}
    (hconstructor : method ≠ constructorName) (hnew : method ≠ allocatorName)
    (hidentity : ∀ q ∈ requests, ∀ d', q.subject = .double d' → d'.identity = d.identity → d' = d) :
    stubsOnDouble (ofRequests requests).onDoubles d method =
      (requests.filter (StubRequest.IsFor (.double d) method ·)).map (·.kept) := by
  have hkeys : (Machine.stubbedKeys (ofRequests requests)).Nodup := (isTidy_targets _).nodup_keys
  -- Under each key, the stubs that respond are those of the requests in question.
  have hresponding (key : MethodRef) :
      (((ofRequests requests).stubsOf key).filter Machine.isOnDouble).filter (fun stub =>
        stub.respondsTo method && stub.receiver.any (· == Value.double d)) =
      ((requests.filter (StubRequest.IsFor (.double d) method ·)).filter (·.kept.key == key)).map
        (·.kept) := by
    rw [stubsOf_ofRequests, List.filter_map, List.filter_map, List.filter_filter,
      List.filter_filter, List.filter_filter]
    refine congrArg _ (List.filter_congr fun q hq => ?_)
    rw [Bool.eq_iff_iff, Bool.and_eq_true, Bool.and_eq_true, Bool.and_eq_true, decide_eq_true_iff,
      ← mem_onDouble_iff hconstructor hnew (hidentity q hq), Function.comp_apply,
      Function.comp_apply, Bool.and_eq_true]
    tauto
  -- They are all kept under the key of the double and the message.
  have hkey (q : StubRequest) (hq : q ∈ requests.filter (StubRequest.IsFor (.double d) method ·)) :
      q.kept.key = (targetOfDouble d, method) :=
    kept_key_of_isFor hnew (of_decide_eq_true (List.mem_filter.mp hq).2)
  rw [stubsOnDouble, onDoubles, List.filter_flatMap]
  simp only [hresponding]
  rw [flatMap_eq_of_nodup hkeys (a := (targetOfDouble d, method))]
  · rw [List.filter_eq_self.mpr fun q hq => beq_iff_eq.mpr (hkey q hq)]
    split_ifs with hmem
    · rfl
    · refine (List.map_eq_nil_iff.mpr (List.eq_nil_iff_forall_not_mem.mpr fun q hq => hmem ?_)).symm
      rw [← hkey q hq, q.kept_key]
      exact mem_keys_targets.mpr (List.mem_map_of_mem
        (List.mem_map_of_mem (List.mem_filter.mp hq).1))
  · intro key _ hne
    rw [List.map_eq_nil_iff, List.filter_eq_nil_iff]
    exact fun q hq h => hne ((eq_of_beq h).symm.trans (hkey q hq))

end Registry

/-! ### Installing a registry -/

namespace Machine

/-- The entry for a method that stubs replace, if there are any. -/
def stubbedCode? (key : MethodRef) (stubs : List Call) (sink : Sink) : Option LocatedCode :=
  match stubs with
  | [] => none
  | stubs => some ⟨.stubbed key stubs sink, stubLocation⟩

private theorem stubbedCode?_of_ne_nil (key : MethodRef) {stubs : List Call} (h : stubs ≠ [])
    (sink : Sink) : stubbedCode? key stubs sink = some ⟨.stubbed key stubs sink, stubLocation⟩ := by
  obtain ⟨stub, stubs, rfl⟩ := List.exists_cons_of_ne_nil h
  rfl

theorem methods_replaceByStubs (sink : Sink) (state : Machine × List Displaced) (key : MethodRef)
    (stubs : List Call) (key' : MethodRef) :
    (replaceByStubs sink state key stubs).1.methods key' =
      if key' = key then (stubbedCode? key stubs sink).or (state.1.methods key)
      else state.1.methods key' := by
  cases stubs with
  | nil =>
    rw [replaceByStubs, stubbedCode?, Option.none_or]
    split_ifs with h
    · rw [h]
    · rfl
  | cons stub stubs => rfl

/-- What a registry puts in the place of a method. -/
def replacement? (r : Registry) (sink : Sink) (key : MethodRef) : Option LocatedCode :=
  stubbedCode? key (r.replacing key) sink

/-- Stubbing a method that is watched changes the entries of this method, and of the allocator if
the method is a constructor, and no others. -/
theorem methods_stubMethod {r : Registry} {key : MethodRef} (hkey : MethodRef.normalize key = key)
    (hstubs : ∀ stub ∈ r.stubsOf key, stub.method = key.2) (sink : Sink)
    (state : Machine × List Displaced) (key' : MethodRef) :
    (stubMethod r sink state key).1.methods key' =
      if MethodRef.normalize key' = key then (replacement? r sink key').or (state.1.methods key')
      else state.1.methods key' := by
  have hallocator : ¬(key.1.onType = true ∧ key.2 = allocatorName) := fun h =>
    MethodRef.normalize_ne key key.1.type
      (hkey.trans (Prod.ext (congrArg (Target.mk key.1.type) h.1) h.2))
  have hreplacing : ((r.stubsOf key).filter (!isOnDouble ·)).filter (!·.isOnAllocator) =
      r.replacing key := by
    rw [Registry.replacing, hkey, decide_eq_false hallocator]
    exact List.filter_congr fun stub _ => by cases stub.isOnAllocator <;> rfl
  simp only [MethodRef.normalize_eq_iff hkey, stubMethod, hreplacing]
  rw [methods_replaceByStubs]
  cases honType : key.1.onType with
  | true =>
    rw [if_pos rfl]
    by_cases hsame : key' = key
    · rw [if_pos hsame, if_pos (Or.inl hsame), hsame, replacement?]
    · rw [if_neg hsame, if_neg (by simp [hsame])]
  | false =>
    let allocator : MethodRef := (.typeItself key.1.type, allocatorName)
    have hother : key ≠ allocator := fun h => by
      rw [h] at honType
      cases honType
    rw [if_neg Bool.false_ne_true, methods_replaceByStubs, methods_replaceByStubs, if_neg hother]
    by_cases hsame : key' = key
    · rw [if_pos hsame, if_pos (Or.inl hsame), hsame, replacement?]
    · rw [if_neg hsame]
      by_cases hnew : key' = allocator
      · rw [if_pos hnew]
        by_cases hconstructor : key.2 = constructorName
        · have hnormal : MethodRef.normalize allocator = key :=
            (MethodRef.normalize_eq_iff hkey).mpr (Or.inr ⟨rfl, honType, hconstructor⟩)
          have hreplacing' : r.replacing allocator =
              ((r.stubsOf key).filter (!isOnDouble ·)).filter (·.isOnAllocator) := by
            rw [Registry.replacing, hnormal]
            exact List.filter_congr fun stub _ => by cases stub.isOnAllocator <;> rfl
          rw [if_pos (Or.inr ⟨hnew, rfl, hconstructor⟩), hnew, replacement?, hreplacing']
        · have hnone : ((r.stubsOf key).filter (!isOnDouble ·)).filter (·.isOnAllocator) = [] :=
            List.filter_eq_nil_iff.mpr fun stub hstub h => hconstructor <|
              (hstubs stub (List.mem_filter.mp hstub).1).symm.trans (Call.method_of_isOnAllocator h)
          rw [hnone, stubbedCode?, Option.none_or, if_neg (by simp [hsame, hconstructor]), hnew]
      · rw [if_neg hnew, if_neg (by simp [hsame, allocator, hnew])]

/-- Stubbing several methods that are watched. -/
theorem methods_foldl_stubMethod {r : Registry} {keys : List MethodRef}
    (hkeys : ∀ key ∈ keys, MethodRef.normalize key = key)
    (hstubs : ∀ key ∈ keys, ∀ stub ∈ r.stubsOf key, stub.method = key.2) (sink : Sink)
    (state : Machine × List Displaced) (key' : MethodRef) :
    (keys.foldl (stubMethod r sink) state).1.methods key' =
      if MethodRef.normalize key' ∈ keys then (replacement? r sink key').or (state.1.methods key')
      else state.1.methods key' := by
  induction keys generalizing state with
  | nil => rfl
  | cons key keys ih =>
    obtain ⟨hkey, hkeys⟩ := List.forall_mem_cons.mp hkeys
    obtain ⟨hstub, hstubs⟩ := List.forall_mem_cons.mp hstubs
    rw [List.foldl_cons, ih hkeys hstubs, methods_stubMethod hkey hstub]
    simp only [List.mem_cons]
    by_cases hhead : MethodRef.normalize key' = key
    · rw [if_pos hhead, if_pos (Or.inl hhead), ← Option.or_assoc, Option.or_self, ite_self]
    · simp only [hhead, if_false, false_or]

/-- What a registry keeps for a method are stubs of this method. -/
theorem key_of_mem_stubsOf {requests : List StubRequest} {key : MethodRef} {stub : Call}
    (h : stub ∈ (Registry.ofRequests requests).stubsOf key) : stub.key = key := by
  rw [Registry.stubsOf_ofRequests] at h
  obtain ⟨q, hq, rfl⟩ := List.mem_map.mp h
  exact eq_of_beq (List.mem_filter.mp hq).2

/-- Installing a registry changes the table by its stubbed methods, and the handler of messages to
doubles if it has stubs on doubles. -/
theorem installStubs_intercepts (m : Machine) (r : Registry) (sink : Sink) :
    (m.installStubs r sink).1.methods =
      ((stubbedKeys r).foldl (stubMethod r sink) (m, [])).1.methods ∧
    (m.installStubs r sink).1.doubleHandler =
      if r.onDoubles = [] then m.doubleHandler else some ⟨r.onDoubles, sink⟩ := by
  obtain ⟨⟨methods, log, hmachine⟩, -⟩ := Displaces.foldl_stubMethod m r sink (stubbedKeys r)
  rw [installStubs, ← Registry.onDoubles]
  rcases hstate : (stubbedKeys r).foldl (stubMethod r sink) (m, []) with ⟨n, displaced⟩
  rw [hstate] at hmachine
  obtain rfl : n = { m with methods, log } := hmachine
  cases r.onDoubles with
  | nil => exact ⟨rfl, rfl⟩
  | cons stub stubs => exact ⟨rfl, rfl⟩

/-- **The table after installing a registry**: a method that was configured has the stubs configured
for just this method in their order, and the other methods have the entries they had before. -/
theorem methods_installStubs (m : Machine) (requests : List StubRequest) (sink : Sink)
    (key : MethodRef) :
    (m.installStubs (.ofRequests requests) sink).1.methods key =
      (stubbedCode? key ((requests.filter (StubRequest.IsFor (.method key.1) key.2 ·)).map (·.kept))
        sink).or (m.methods key) := by
  have hnormal : ∀ key ∈ stubbedKeys (.ofRequests requests), MethodRef.normalize key = key := by
    intro key hkey
    obtain ⟨stub, -, rfl⟩ := List.mem_map.mp (Registry.mem_keys_targets.mp hkey)
    exact MethodRef.normalize_normalize stub.key
  rw [(m.installStubs_intercepts _ sink).1, methods_foldl_stubMethod hnormal fun _ _ _ hstub =>
    congrArg Prod.snd (key_of_mem_stubsOf hstub), replacement?, Registry.replacing_ofRequests]
  split_ifs with hmem
  · rfl
  · have hnone : requests.filter (StubRequest.IsFor (.method key.1) key.2 ·) = [] := by
      refine List.filter_eq_nil_iff.mpr fun q hq h => hmem ?_
      obtain ⟨hsubject, hmethod⟩ := of_decide_eq_true h
      have hkey : q.stub.key = key := by
        rw [StubRequest.stub, hsubject]
        exact Prod.ext rfl hmethod
      rw [← hkey]
      exact Registry.mem_keys_targets.mpr (List.mem_map_of_mem (List.mem_map_of_mem hq))
    rw [hnone, List.map_nil, stubbedCode?, Option.none_or]

/-! ### Answers -/

/-- An entry that holds the stubs of some requests answers from these. -/
theorem answersFrom_run (host : Host) (answer : Machine → Message → Reply) (m : Machine)
    (sink : Sink) (requests : List StubRequest) (p : StubRequest → Prop) [DecidablePred p]
    (key : MethodRef) (receiver : Value) (args : List Value) :
    m.AnswersFrom sink requests p receiver args
      ((Implementation.stubbed key ((requests.filter (p ·)).map (·.kept)) sink).run host answer m
        receiver args) := by
  cases hfitting : fittingStub? ((requests.filter (p ·)).map (·.kept)) args with
  | some stub =>
    obtain ⟨q, rfl, hq⟩ := isLast_of_fittingStub? hfitting
    simp only [Implementation.run, hfitting]
    exact answersFrom_of_isLast hq m sink receiver
  | none =>
    simp only [Implementation.run, hfitting]
    exact .unexpected (not_fits_of_fittingStub? hfitting) rfl

/-- A handler that finds the stubs of some requests for a message to a double answers from these. -/
theorem answersFrom_answerDouble {m : Machine} {handler : DoubleResponder}
    (hhandler : m.doubleHandler = some handler) {requests : List StubRequest}
    {p : StubRequest → Prop} [DecidablePred p] {d : TestDouble} {method : String}
    (hstubs : stubsOnDouble handler.stubs d method = (requests.filter (p ·)).map (·.kept))
    (args : List Value) :
    m.AnswersFrom handler.sink requests p (.double d) args (m.answerDouble d method args) := by
  simp only [answerDouble, hhandler]
  split
  · rename_i hnone
    rw [hstubs] at hnone
    refine .unexpected (fun q hq hp => ?_) rfl
    rw [List.map_eq_nil_iff, List.filter_eq_nil_iff] at hnone
    exact absurd (decide_eq_true hp) (hnone q hq)
  · rename_i first others hsome
    rw [← hsome, hstubs]
    cases hfitting : fittingStub? ((requests.filter (p ·)).map (·.kept)) args with
    | some stub =>
      obtain ⟨q, rfl, hq⟩ := isLast_of_fittingStub? hfitting
      exact answersFrom_of_isLast hq m handler.sink (.double d)
    | none => exact .unexpected (not_fits_of_fittingStub? hfitting) rfl

/-- **The latest stub answers.** When a registry has been installed on any machine, a dispatch that
reaches an entry for which stubs are configured is answered by the latest of these stubs that fits,
and so is a message to a double, unless it is about its creation, by those configured on this very
double. A double is known by its identity. The registry must have some stub on a double, or nobody
must have answered messages to doubles before: it leaves these to the handler it finds if it has
nothing to say about them. The observers of a dispatch learn of its begin and of its end. -/
theorem latest_stub_answers (m : Machine) (requests : List StubRequest) (sink : Sink) :
    let installed := (m.installStubs (.ofRequests requests) sink).1
    (∀ (n : Machine) (host : Host) (answer : Machine → Message → Reply) (target owner : Target)
      (receiver : Value) (method : String) (args : List Value) (e : LocatedCode),
      n.resolve target method = some (owner, e) → installed.methods (owner, method) = some e →
      (∃ q ∈ requests, q.IsFor (.method owner) method) →
      ∃ reply, (n.notify n.subscribers (n.calledEvent owner e receiver method args)).AnswersFrom
          sink requests (StubRequest.IsFor (.method owner) method) receiver args reply ∧
        n.dispatch host answer target receiver method args =
          reply.andThen fun n' o =>
            (n'.notify n.subscribers (.ofOutcome owner method o), some o)) ∧
    (∀ (n : Machine) (host : Host) (answer : Machine → Message → Reply) (d : TestDouble)
      (method : String) (args : List Value),
      n.doubleHandler = installed.doubleHandler →
      method ≠ constructorName → method ≠ allocatorName →
      (∀ q ∈ requests, ∀ d', q.subject = .double d' → d'.identity = d.identity → d' = d) →
      ((∃ q ∈ requests, ∃ d', q.subject = .double d') ∨ m.doubleHandler = none) →
      n.AnswersFrom sink requests (StubRequest.IsFor (.double d) method) (.double d) args
        (n.handle host answer (.send (.double d) method args))) := by
  intro installed
  refine ⟨?_, ?_⟩
  · intro n host answer target owner receiver method args e hresolve he hfor
    have hstubs : (requests.filter (StubRequest.IsFor (.method owner) method ·)).map (·.kept) ≠
        [] := by
      obtain ⟨q, hq, hfor⟩ := hfor
      exact List.ne_nil_of_mem
        (List.mem_map_of_mem (List.mem_filter.mpr ⟨hq, decide_eq_true hfor⟩))
    rw [methods_installStubs, stubbedCode?_of_ne_nil _ hstubs, Option.some_or] at he
    obtain rfl := Option.some.inj he
    rw [dispatch_of_resolve host answer hresolve]
    exact ⟨_, answersFrom_run host answer _ sink requests _ _ receiver args, rfl⟩
  · intro n host answer d method args hhandler hconstructor hnew hidentity hstubbed
    rw [(m.installStubs_intercepts _ sink).2] at hhandler
    by_cases hnone : (Registry.ofRequests requests).onDoubles = []
    · -- Without stubs on doubles there is no handler, neither before nor afterwards.
      have hrequests : ∀ q ∈ requests, ∀ d', q.subject ≠ .double d' := fun q hq d' hd' =>
        Registry.onDoubles_ne_nil hq hd' hnone
      have hbefore : m.doubleHandler = none :=
        hstubbed.resolve_left fun ⟨q, hq, d', hd'⟩ => hrequests q hq d' hd'
      rw [if_pos hnone, hbefore] at hhandler
      rw [handle_double host answer hhandler]
      exact .unexpected (fun q hq hfor => absurd hfor.1 (hrequests q hq d)) rfl
    · rw [if_neg hnone] at hhandler
      exact answersFrom_answerDouble hhandler
        (Registry.stubsOnDouble_ofRequests hconstructor hnew hidentity) args

/-- A stub on a type and a stub on a double, installed on a machine without anything. -/
theorem latest_stub_answers_greeter :
    let d : TestDouble := ⟨1, some "d", .plain⟩
    let greeter : Target := .instances "Greeter"
    let requests : List StubRequest :=
      [{ subject := .method greeter, method := "bow", result := .int 1 },
        { subject := .double d, method := "greet", result := .int 2 }]
    let sink : Sink := ⟨.lenient, none⟩
    let installed := (installStubs {} (.ofRequests requests) sink).1
    let answer : Machine → Message → Reply := fun m _ => (m, none)
    (∃ e reply, (installed.notify [] (installed.calledEvent greeter e (.object 0 "Greeter") "bow"
          [.nil])).AnswersFrom sink requests (StubRequest.IsFor (.method greeter) "bow")
          (.object 0 "Greeter") [.nil] reply ∧
        installed.dispatch .idle answer greeter (.object 0 "Greeter") "bow" [.nil] =
          reply.andThen fun n o => (n.notify [] (.ofOutcome greeter "bow" o), some o)) ∧
    installed.AnswersFrom sink requests (StubRequest.IsFor (.double d) "greet") (.double d) []
      (installed.handle .idle answer (.send (.double d) "greet" [])) := by
  intro d greeter requests sink installed answer
  obtain ⟨hdispatch, hdouble⟩ := latest_stub_answers {} requests sink
  have hentry : installed.methods (greeter, "bow") = some ⟨.stubbed (greeter, "bow")
      ((requests.filter (StubRequest.IsFor (.method greeter) "bow" ·)).map (·.kept)) sink,
      stubLocation⟩ := methods_installStubs {} requests sink (greeter, "bow")
  refine ⟨⟨_, hdispatch installed .idle answer greeter greeter _ "bow" _ _
    (resolve_of_methods hentry) hentry ⟨_, List.mem_cons_self .., rfl, rfl⟩⟩, ?_⟩
  refine hdouble installed .idle answer d "greet" [] rfl (by decide) (by decide) ?_
    (Or.inr rfl)
  simp [requests]

/-- A registry that has no stubs on doubles leaves the messages to doubles to stubs that were
installed earlier, so that a message for which it has no stub may have an answer. -/
theorem earlier_stubs_answer :
    ¬∀ (m : Machine) (requests : List StubRequest) (sink : Sink) (host : Host)
      (answer : Machine → Message → Reply) (d : TestDouble) (method : String) (args : List Value),
      method ≠ constructorName → method ≠ allocatorName →
      (∀ q ∈ requests, ∀ d', q.subject = .double d' → d'.identity = d.identity → d' = d) →
      let installed := (m.installStubs (.ofRequests requests) sink).1
      installed.AnswersFrom sink requests (StubRequest.IsFor (.double d) method) (.double d) args
        (installed.handle host answer (.send (.double d) method args)) := by
  intro h
  let d : TestDouble := ⟨1, some "d", .plain⟩
  let sink : Sink := ⟨.lenient, none⟩
  let earlier := (installStubs {}
    (.ofRequests [{ subject := .double d, method := "greet", result := .int 1 }]) sink).1
  let requests : List StubRequest :=
    [{ subject := .method (.instances "Greeter"), method := "bow", result := .int 2 }]
  have hanswer := h earlier requests sink .idle (fun m _ => (m, none)) d "greet" [] (by decide)
    (by decide) (by simp [requests])
  have hreturned : ((earlier.installStubs (.ofRequests requests) sink).1.handle .idle
      (fun m _ => (m, none)) (.send (.double d) "greet" [])).2 = some (.returned (.int 1)) := rfl
  have hnone (q : StubRequest) (hq : IsLast (fun q => q.IsFor (.double d) "greet" ∧ q.Fits [])
      requests q) : False := by
    obtain ⟨⟨⟨hsubject, -⟩, -⟩, before, after, hsplit, -⟩ := hq
    have hmem : q ∈ requests := by simp [hsplit]
    rw [List.mem_singleton.mp hmem] at hsubject
    cases hsubject
  rcases hanswer.isLast_or_raised with ⟨q, hq⟩ | ⟨e, he⟩
  · exact hnone q hq
  · rw [hreturned] at he
    cases he

end Machine

end MockAudit
