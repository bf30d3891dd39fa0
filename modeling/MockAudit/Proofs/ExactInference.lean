import MockAudit.Proofs.InferredSignatures
import MockAudit.Proofs.Verdicts
import Mathlib.Data.List.Sort

/-!
# What inferred signatures say

An inferred signature says what its calls show and nothing else. It has a slot for each place that
some call fills, with the types seen there; the slot is optional if some call leaves it empty. It
has the keywords that some call gives, and the types of the results. This determines it
(`UsageProfile.IsExact.eq`): the lists of types and of keywords are ascending, so they are known by
their members. Since only the members of the group matter, inference does not depend on the order of
the calls.

## Main definitions

* `Lists`: the ascending list of all names with a property.
* `UsageProfile.IsExact`: a profile that says exactly what calls show.
* `UsageProfile.Mentions`: the types that occur in a profile.

## Main results

* `Inference.isExact_profile`, `UsageProfile.IsExact.eq`: a profile is exact, and this determines
  it.
* `Inference.infer_exact`: inference is exact and does not depend on the order of the calls.
-/

namespace MockAudit

/-! ### Ascending lists of names -/

/-- The list has all names with a property and no others, in ascending order and each of them
once. -/
structure Lists (names : List String) (p : String → Prop) : Prop where
  ascending : names.Pairwise (· < ·)
  mem_iff : ∀ name, name ∈ names ↔ p name

theorem Lists.imp {names : List String} {p q : String → Prop} (h : Lists names p)
    (hpq : ∀ name, p name ↔ q name) : Lists names q :=
  ⟨h.ascending, fun name => (h.mem_iff name).trans (hpq name)⟩

/-- A property has one list only. -/
theorem Lists.eq {names names' : List String} {p : String → Prop} (h : Lists names p)
    (h' : Lists names' p) : names = names' :=
  h.ascending.eq_of_mem_iff h'.ascending fun name => (h.mem_iff name).trans (h'.mem_iff name).symm

private theorem lists_sortedNames (names : List String) :
    Lists (sortedNames names) (· ∈ names) where
  ascending := by
    have hnodup : (sortedNames names).Nodup :=
      List.nodup_mergeSort.mpr (firstOccurrences_eraseDups names).nodup
    have hle : (sortedNames names).Pairwise (· ≤ ·) := List.pairwise_mergeSort' _ _
    exact hle.imp₂ (fun _ _ hab hne => String.not_le.mp fun hba => hne (String.le_antisymm hab hba))
      hnodup
  mem_iff _ := mem_sortedNames

/-- Some value among those in question is no double and has this runtime type. -/
def TypeAmong (among : Value → Prop) (name : TypeName) : Prop :=
  ∃ v, among v ∧ v.isDouble = false ∧ v.typeName = name

private theorem Value.sampledType?_eq_some_iff {v : Value} {name : TypeName} :
    v.sampledType? = some name ↔ v.isDouble = false ∧ v.typeName = name := by
  cases v <;> simp [sampledType?, isDouble, typeName]

/-- The types that values reveal are the runtime types of those that are no doubles. -/
theorem lists_sampledTypes {α : Type} {as : List α} {f : α → Option Value} {among : Value → Prop}
    (h : ∀ v, (∃ a ∈ as, f a = some v) ↔ among v) :
    Lists (sortedNames (as.filterMap fun a => (f a).bind Value.sampledType?))
      (TypeAmong among) := by
  refine (lists_sortedNames _).imp fun name => ?_
  rw [List.mem_filterMap, TypeAmong]
  constructor
  · rintro ⟨a, ha, hname⟩
    obtain ⟨v, hv, hname⟩ := Option.bind_eq_some_iff.mp hname
    exact ⟨v, (h v).mp ⟨a, ha, hv⟩, Value.sampledType?_eq_some_iff.mp hname⟩
  · rintro ⟨v, hv, hname⟩
    obtain ⟨a, ha, hv⟩ := (h v).mpr hv
    exact ⟨a, ha, by rw [hv, Option.bind_some, Value.sampledType?_eq_some_iff.mpr hname]⟩

/-- A list in which a property is never lost again consists of members without and of members with
the property. -/
theorem exists_split_of_pairwise {α : Type} {p : α → Bool} {as : List α}
    (h : as.Pairwise fun a b => p a = true → p b = true) : ∃ before after,
      as = before ++ after ∧ (∀ a ∈ before, p a = false) ∧ ∀ a ∈ after, p a = true := by
  induction as with
  | nil => exact ⟨[], [], rfl, nofun, nofun⟩
  | cons a as ih =>
    obtain ⟨hlater, has⟩ := List.pairwise_cons.mp h
    cases ha : p a with
    | true => exact ⟨[], a :: as, rfl, nofun,
        List.forall_mem_cons.mpr ⟨ha, fun b hb => hlater b hb ha⟩⟩
    | false =>
      obtain ⟨before, after, rfl, hbefore, hafter⟩ := ih has
      exact ⟨a :: before, after, rfl, List.forall_mem_cons.mpr ⟨ha, hbefore⟩, hafter⟩

/-! ### Exact profiles -/

namespace UsageProfile

/-- The profile says exactly what the calls show. -/
structure IsExact (s : UsageProfile) (calls : List Call) : Prop where
  samples : s.samples = calls.length
  /-- There is a slot for each place that some call fills. -/
  width : ∀ i, i < s.positional.length ↔ ∃ c ∈ calls, i < c.positionalValues.length
  slot : ∀ i slot, s.positional[i]? = some slot →
    Lists slot.types (TypeAmong fun v => ∃ c ∈ calls, c.positionalValues[i]? = some v) ∧
      (slot.isOptional = true ↔ ∃ c ∈ calls, c.positionalValues.length ≤ i)
  keywords : Lists (s.named.map Prod.fst) fun name =>
    ∃ c ∈ calls, ∃ e ∈ c.named, Signature.keyName e.1 = name
  keyword : ∀ name types, (name, types) ∈ s.named → Lists types (TypeAmong fun v =>
    ∃ c ∈ calls, ∃ e ∈ c.named, Signature.keyName e.1 = name ∧ e.2 = v)
  /-- A constructor returns the new instance. -/
  returnsSelf : s.method = constructorName → s.returns = .self
  returns : s.method ≠ constructorName → ∃ types, s.returns = .union types ∧
    Lists types (TypeAmong fun v => ∃ c ∈ calls, c.raised = none ∧ c.resultOrNil = v)

namespace IsExact

variable {s t : UsageProfile} {calls : List Call}

/-- What calls show does not depend on their order. -/
theorem perm (h : s.IsExact calls) {calls' : List Call} (hperm : calls'.Perm calls) :
    s.IsExact calls' where
  samples := h.samples.trans hperm.length_eq.symm
  width := by simpa only [hperm.mem_iff] using h.width
  slot := by simpa only [hperm.mem_iff] using h.slot
  keywords := by simpa only [hperm.mem_iff] using h.keywords
  keyword := by simpa only [hperm.mem_iff] using h.keyword
  returnsSelf := h.returnsSelf
  returns := by simpa only [hperm.mem_iff] using h.returns

private theorem positional_eq (hs : s.IsExact calls) (ht : t.IsExact calls) :
    s.positional = t.positional := by
  have hwidth (i : Nat) : i < s.positional.length ↔ i < t.positional.length :=
    (hs.width i).trans (ht.width i).symm
  refine List.ext_getElem ?_ fun i hi hi' => ?_
  · have := hwidth s.positional.length
    have := hwidth t.positional.length
    omega
  · obtain ⟨htypes, hoptional⟩ := hs.slot i _ (List.getElem?_eq_getElem hi)
    obtain ⟨htypes', hoptional'⟩ := ht.slot i _ (List.getElem?_eq_getElem hi')
    have htypes_eq := htypes.eq htypes'
    have hoptional_eq := Bool.eq_iff_iff.mpr (hoptional.trans hoptional'.symm)
    generalize s.positional[i] = slot at htypes_eq hoptional_eq
    generalize t.positional[i] = slot' at htypes_eq hoptional_eq
    cases slot
    cases slot'
    obtain rfl : _ = _ := htypes_eq
    obtain rfl : _ = _ := hoptional_eq
    rfl

private theorem named_eq (hs : s.IsExact calls) (ht : t.IsExact calls) : s.named = t.named := by
  have hnames : s.named.map Prod.fst = t.named.map Prod.fst := hs.keywords.eq ht.keywords
  have hlength : s.named.length = t.named.length := by
    simpa using congrArg List.length hnames
  refine List.ext_getElem hlength fun i hi hi' => ?_
  have hname : s.named[i].1 = t.named[i].1 := by
    have hget := congrArg (·[i]?) hnames
    simpa [hi, hi'] using hget
  have htypes := hs.keyword s.named[i].1 s.named[i].2 (List.getElem_mem hi)
  rw [hname] at htypes
  exact Prod.ext hname (htypes.eq (ht.keyword _ _ (List.getElem_mem hi')))

private theorem returns_eq (hs : s.IsExact calls) (ht : t.IsExact calls) (hkey : s.key = t.key) :
    s.returns = t.returns := by
  have hmethod : s.method = t.method := congrArg Prod.snd hkey
  by_cases hconstructor : t.method = constructorName
  · rw [hs.returnsSelf (hmethod.trans hconstructor), ht.returnsSelf hconstructor]
  · obtain ⟨types, hreturns, htypes⟩ := hs.returns (hmethod ▸ hconstructor)
    obtain ⟨types', hreturns', htypes'⟩ := ht.returns hconstructor
    rw [hreturns, hreturns', htypes.eq htypes']

/-- **An exact profile** is determined by its method and its calls. -/
theorem eq (hs : s.IsExact calls) (ht : t.IsExact calls) (hkey : s.key = t.key) : s = t := by
  have hpositional := hs.positional_eq ht
  have hnamed := hs.named_eq ht
  have hreturns := hs.returns_eq ht hkey
  have hsamples := hs.samples.trans ht.samples.symm
  cases s
  cases t
  obtain ⟨rfl, rfl⟩ := Prod.mk.inj hkey
  simp only at hpositional hnamed hreturns hsamples
  rw [hpositional, hnamed, hreturns, hsamples]

/-- A call that leaves a slot empty leaves those after it empty. -/
theorem pairwise_isOptional (h : s.IsExact calls) :
    s.positional.Pairwise fun a b => a.isOptional = true → b.isOptional = true := by
  refine List.pairwise_iff_getElem.mpr fun i j hi hj hij hoptional => ?_
  obtain ⟨c, hc, hle⟩ := (h.slot i _ (List.getElem?_eq_getElem hi)).2.mp hoptional
  exact (h.slot j _ (List.getElem?_eq_getElem hj)).2.mpr ⟨c, hc, hle.trans hij.le⟩

/-- The optional slots are the last ones. -/
theorem optional_last (h : s.IsExact calls) : ∃ required optional,
    s.positional = required ++ optional ∧ (∀ slot ∈ required, slot.isOptional = false) ∧
      ∀ slot ∈ optional, slot.isOptional = true :=
  exists_split_of_pairwise h.pairwise_isOptional

end IsExact

/-- The type occurs in the profile. -/
def Mentions (s : UsageProfile) (name : TypeName) : Prop :=
  (∃ slot ∈ s.positional, name ∈ slot.types) ∨ (∃ e ∈ s.named, name ∈ e.2) ∨
    ∃ types, s.returns = .union types ∧ name ∈ types

private theorem mem_references {s : UsageProfile} {name : TypeName} :
    name ∈ s.references ↔ s.Mentions name := by
  rw [references, Mentions, List.mem_append, List.mem_append, List.mem_flatMap, List.mem_flatMap,
    or_assoc]
  cases s.returns <;> simp

end UsageProfile

/-! ### Inference -/

namespace Inference

private theorem lt_width_iff {rows : List (List Value)} {i : Nat} :
    i < width rows ↔ ∃ row ∈ rows, i < row.length := by
  have hfold (n : Nat) : i < rows.foldl (fun n row => max n row.length) n ↔
      i < n ∨ ∃ row ∈ rows, i < row.length := by
    induction rows generalizing n with
    | nil => simp
    | cons row rows ih =>
      have hmax : i < max n row.length ↔ i < n ∨ i < row.length := by omega
      rw [List.foldl_cons, ih, hmax, List.exists_mem_cons_iff, or_assoc]
  exact (hfold 0).trans (or_iff_right (Nat.not_lt_zero i))

/-- **What inference finds out** about a method is exactly what its calls show. -/
theorem isExact_profile (key : MethodRef) (calls : List Call) :
    (profile key calls).IsExact calls where
  samples := rfl
  width i := by
    have hlength : (profile key calls).positional.length =
        width (calls.map Call.positionalValues) := by simp [profile]
    simp [hlength, lt_width_iff]
  slot i slot hslot := by
    simp only [profile, List.getElem?_map] at hslot
    obtain ⟨j, hj, rfl⟩ := Option.map_eq_some_iff.mp hslot
    obtain ⟨_, rfl⟩ := List.getElem?_eq_some_iff.mp hj
    rw [List.getElem_range, slotAt]
    exact ⟨lists_sampledTypes (f := (·[i]?)) (by simp), by simp⟩
  keywords := by
    have hnames : (profile key calls).named.map Prod.fst =
        sortedNames ((calls.flatMap (·.named)).map (Signature.keyName ·.1)) := by
      simp [profile, keywordTypes, Function.comp_def]
    rw [hnames]
    refine (lists_sortedNames _).imp fun name => ?_
    simp only [List.mem_map, List.mem_flatMap]
    constructor
    · rintro ⟨e, ⟨c, hc, he⟩, hname⟩
      exact ⟨c, hc, e, he, hname⟩
    · rintro ⟨c, hc, e, he, hname⟩
      exact ⟨e, ⟨c, hc, he⟩, hname⟩
  keyword name types hmem := by
    obtain ⟨_, -, hentry⟩ := List.mem_map.mp hmem
    obtain ⟨rfl, rfl⟩ := Prod.mk.inj hentry
    refine lists_sampledTypes (f := fun e : Value × Value => some e.2) fun v => ?_
    simp only [List.mem_filter, List.mem_flatMap, beq_iff_eq, Option.some.injEq]
    constructor
    · rintro ⟨e, ⟨⟨c, hc, he⟩, hname⟩, hv⟩
      exact ⟨c, hc, e, he, hname, hv⟩
    · rintro ⟨c, hc, e, he, hname, hv⟩
      exact ⟨e, ⟨⟨c, hc, he⟩, hname⟩, hv⟩
  returnsSelf h := if_pos (beq_iff_eq.mpr h)
  returns h := by
    refine ⟨_, if_neg fun heq => h (eq_of_beq heq), ?_⟩
    refine lists_sampledTypes (f := fun c : Call => some c.resultOrNil) fun v => ?_
    simp only [List.mem_filter, Option.isNone_iff_eq_none, Option.some.injEq, and_assoc]

/-- What inference finds out about all methods that were called. -/
def profiles (calls : List Call) : List UsageProfile :=
  (methods calls).map fun key => profile key (callsOf calls key)

private theorem map_key_profiles (calls : List Call) : (profiles calls).map UsageProfile.key =
    methods calls := by
  rw [profiles, List.map_map]
  exact List.map_id' _

private theorem nodup_profiles (calls : List Call) :
    ((profiles calls).map UsageProfile.key).Nodup := by
  rw [map_key_profiles]
  exact (firstOccurrences_eraseDups _).nodup

/-- No method has two profiles, so the profile of a method is found by the method. -/
theorem find?_profiles_eq_some_iff {calls : List Call} {key : MethodRef} {s : UsageProfile} :
    (profiles calls).find? (·.key == key) = some s ↔ s ∈ profiles calls ∧ s.key = key := by
  constructor
  · intro h
    have hkey := List.find?_some (p := fun s : UsageProfile => s.key == key) h
    exact ⟨List.mem_of_find?_eq_some h, eq_of_beq hkey⟩
  · rintro ⟨hs, rfl⟩
    have hsome : ((profiles calls).find? (·.key == s.key)).isSome = true :=
      List.find?_isSome.mpr ⟨s, hs, beq_self_eq_true s.key⟩
    obtain ⟨t, ht⟩ := Option.isSome_iff_exists.mp hsome
    have hkey := eq_of_beq (List.find?_some (p := fun t : UsageProfile => t.key == s.key) ht)
    rw [ht, List.inj_on_of_nodup_map (nodup_profiles calls) (List.mem_of_find?_eq_some ht) hs hkey]

/-- Calls in another order have the same profiles, perhaps in another order. -/
theorem perm_profiles {calls calls' : List Call} (h : calls'.Perm calls) :
    (profiles calls').Perm (profiles calls) := by
  have hprofile (key : MethodRef) :
      profile key (callsOf calls' key) = profile key (callsOf calls key) :=
    (isExact_profile key _).eq ((isExact_profile key _).perm (h.filter _)) rfl
  have hmethods : (methods calls').Perm (methods calls) := by
    refine (List.perm_ext_iff_of_nodup (firstOccurrences_eraseDups _).nodup
      (firstOccurrences_eraseDups _).nodup).mpr fun key => ?_
    rw [List.mem_eraseDups, List.mem_eraseDups, (h.map Call.key).mem_iff]
  rw [profiles, List.map_congr_left fun key _ => hprofile key]
  exact hmethods.map _

/-- The custom types are the types in profiles that have to be declared. -/
theorem lists_customTypes (found : List UsageProfile) : Lists (customTypes found) fun name =>
    TypeName.isBuiltin name = false ∧ ∃ s ∈ found, s.Mentions name := by
  refine (lists_sortedNames _).imp fun name => ?_
  rw [List.mem_filter, List.mem_flatMap, Bool.not_eq_true', and_comm]
  simp only [UsageProfile.mem_references]

/-- **Inference is exact.** Calls whose named flags are set over arguments only are grouped by their
methods, in the order in which the methods first occur. Each method has one profile, which says
exactly what its calls show; the optional slots are the last ones. The custom types are those in the
profiles that are not known without a declaration. In another order, the same calls give each method
the same profile, and the same custom types. -/
theorem infer_exact {calls : List Call} (h : ∀ c ∈ calls, c.IsWellFlagged) :
    ∃ found, infer calls = .ok found ∧
      FirstOccurrences (found.map UsageProfile.key) (calls.map Call.key) ∧
      (∀ s ∈ found, s.IsExact (callsOf calls s.key) ∧
        ∃ required optional, s.positional = required ++ optional ∧
          (∀ slot ∈ required, slot.isOptional = false) ∧
          ∀ slot ∈ optional, slot.isOptional = true) ∧
      Lists (customTypes found) (fun name =>
        TypeName.isBuiltin name = false ∧ ∃ s ∈ found, s.Mentions name) ∧
      ∀ calls', calls'.Perm calls → ∃ found', infer calls' = .ok found' ∧
        (∀ key, found'.find? (·.key == key) = found.find? (·.key == key)) ∧
        customTypes found' = customTypes found := by
  have hpositional (calls' : List Call) (hperm : calls'.Perm calls) (c : Call) (hc : c ∈ calls') :
      c.positional = .ok c.positionalValues :=
    Call.positional_eq_of_flag (h c (hperm.mem_iff.mp hc))
  refine ⟨profiles calls, infer_of_positional (hpositional calls .rfl), ?_, ?_,
    lists_customTypes _, fun calls' hperm =>
      ⟨profiles calls', infer_of_positional (hpositional calls' hperm), ?_, ?_⟩⟩
  · rw [map_key_profiles]
    exact firstOccurrences_eraseDups _
  · intro s hs
    obtain ⟨key, -, rfl⟩ := List.mem_map.mp hs
    exact ⟨isExact_profile key _, (isExact_profile key _).optional_last⟩
  · intro key
    refine Option.ext fun s => ?_
    rw [find?_profiles_eq_some_iff, find?_profiles_eq_some_iff, (perm_profiles hperm).mem_iff]
  · refine (lists_customTypes _).eq ((lists_customTypes _).imp fun name => ?_)
    simp only [(perm_profiles hperm).mem_iff]

/-- A short call, a call with a double and a call that raised, of one method. -/
theorem infer_exact_of_quotes :
    let price (arguments : List Value) (result : Option Value) (raised : Option String) : Call :=
      { target := .typeItself "Quote", method := "price", arguments, result, raised }
    let calls : List Call :=
      [price [.str "SKU"] (some (.int 40)) none,
        price [.str "SKU", .double ⟨1, none, .plain⟩] (some .nil) none,
        price [.object 1 "Product", .int 2] none (some "sold out")]
    (∀ c ∈ calls, c.IsWellFlagged) ∧ ∃ found, infer calls = .ok found ∧
      (∀ s ∈ found, s.IsExact (callsOf calls s.key)) ∧
      ∀ name, name ∈ customTypes found ↔
        TypeName.isBuiltin name = false ∧ ∃ s ∈ found, s.Mentions name := by
  intro price calls
  have hflag : ∀ c ∈ calls, c.IsWellFlagged := by
    simp [calls, price, Call.IsWellFlagged]
  obtain ⟨found, hinfer, -, hexact, hcustom, -⟩ := infer_exact hflag
  exact ⟨hflag, found, hinfer, fun s hs => (hexact s hs).1, hcustom.mem_iff⟩

end Inference

end MockAudit
