import MockAudit.Proofs.Building
import MockAudit.Proofs.Subtyping
import Mathlib.Data.List.Induction

/-!
# Dispatch, reflection and subtyping on one hierarchy

Three walks go up the superclasses of a type: dispatch looks for an implementation in the method
table, reflection looks for a declaration in the catalog, and the subtype test looks for a type.
The first two are instances of one bounded search along the declared superclasses
(`Hierarchy.search`), which finds the first type on the chain that has what is looked for
(`Hierarchy.search_eq_some_iff`): reflection stops at a type that is not declared, where it would
find nothing anyway.

On a machine that is built by a history of definitions the method table and the catalog know the
same methods, at the locations of their last definitions (`Machine.location_methods_define`,
`Machine.location_declared_define`), and so the two searches end at the same type. It stands no
higher than the subtype test looks.

## Main definitions

* `Hierarchy.FirstAbove`: the first type on the chain of a type that has a property.
* `Hierarchy.search`: the bounded search for it.
* `Definition`, `Machine.define`: what a machine is built from.
* `Definition.lastLocation?`: where a history defines a method.

## Main results

* `Hierarchy.search_eq_some_iff`: what the bounded search finds.
* `Catalog.lookup_eq_search`, `Machine.resolve_eq_search`: the two walks as searches.
* `Machine.resolve_eq_some_iff`: what dispatch finds.
* `Machine.resolve_lookup_agree`: dispatch, reflection and subtyping agree.
-/

namespace MockAudit

/-! ### Searching a chain -/

namespace Hierarchy

variable {h : Hierarchy} {P : TypeName → Prop} {t s u : TypeName} {n : Nat}

/-- The first type on the chain of a type that has a property, with the number of steps it stands
above. -/
structure FirstAbove (h : Hierarchy) (P : TypeName → Prop) (t : TypeName) (steps : Nat)
    (s : TypeName) : Prop where
  climb : h.ancestor? steps t = some s
  holds : P s
  first : ∀ k < steps, ∀ u, h.ancestor? k t = some u → ¬ P u

theorem firstAbove_zero_iff : h.FirstAbove P t 0 s ↔ t = s ∧ P s := by
  constructor
  · rintro ⟨hclimb, hholds, -⟩
    exact ⟨Option.some.inj hclimb, hholds⟩
  · rintro ⟨rfl, hholds⟩
    exact ⟨rfl, hholds, fun k hk => absurd hk k.not_lt_zero⟩

theorem firstAbove_succ_iff :
    h.FirstAbove P t (n + 1) s ↔ ¬ P t ∧ ∃ u, h t = some u ∧ h.FirstAbove P u n s := by
  constructor
  · rintro ⟨hclimb, hholds, hfirst⟩
    obtain ⟨u, hu, hus⟩ := Option.bind_eq_some_iff.mp hclimb
    refine ⟨hfirst 0 n.succ_pos t rfl, u, hu, hus, hholds, fun k hk v hv => ?_⟩
    exact hfirst (k + 1) (Nat.succ_lt_succ hk) v (by rw [ancestor?_succ, hu, Option.bind_some, hv])
  · rintro ⟨hother, u, hu, hclimb, hholds, hfirst⟩
    refine ⟨by rw [ancestor?_succ, hu, Option.bind_some, hclimb], hholds, ?_⟩
    rintro (_ | k) hk v hv
    · exact Option.some.inj hv ▸ hother
    · rw [ancestor?_succ, hu, Option.bind_some] at hv
      exact hfirst k (Nat.lt_of_succ_lt_succ hk) v hv

/-- The chain of a type goes on in the same way in a hierarchy that knows more links. -/
theorem ancestor?_layered {second : Hierarchy} (hs : h.ancestor? n t = some s) :
    (layered h second).ancestor? n t = some s := by
  induction n generalizing t with
  | zero => exact hs
  | succ n ih =>
    obtain ⟨u, hu, hus⟩ := Option.bind_eq_some_iff.mp hs
    rw [ancestor?_succ, layered, hu, Option.some_or, Option.bind_some, ih hus]

private theorem FirstAbove.layered (hfirst : h.FirstAbove P t n s) (second : Hierarchy) :
    (layered h second).FirstAbove P t n s := by
  refine ⟨ancestor?_layered hfirst.climb, hfirst.holds, fun k hk u hu => ?_⟩
  -- The chain below what is found has declared links only.
  have hclimb := hfirst.climb
  rw [← Nat.add_sub_cancel' (Nat.le_of_lt hk), ancestor?_add] at hclimb
  obtain ⟨v, hv, -⟩ := Option.bind_eq_some_iff.mp hclimb
  obtain rfl : v = u := Option.some.inj ((ancestor?_layered hv).symm.trans hu)
  exact hfirst.first k hk v hv

section Search

variable {α β : Type}

/-- Looks along the chain of a type for the first type that is given something, visiting a bounded
number of types. -/
def search (h : Hierarchy) (given : TypeName → Option α) : Nat → TypeName → Option (TypeName × α)
  | 0, _ => none
  | visits + 1, t =>
    match given t with
    | some a => some (t, a)
    | none => (h t).bind (h.search given visits)

/-- The search finds the first type on the chain that is given something, if it stands low
enough. -/
theorem search_eq_some_iff {given : TypeName → Option α} {a : α} :
    h.search given n t = some (s, a) ↔
      given s = some a ∧ ∃ steps < n, h.FirstAbove (fun u => (given u).isSome) t steps s := by
  induction n generalizing t with
  | zero => simp [search]
  | succ n ih =>
    cases ht : given t with
    | some b =>
      simp only [search, ht, Option.some.injEq, Prod.mk.injEq]
      constructor
      · rintro ⟨rfl, rfl⟩
        exact ⟨ht, 0, n.succ_pos, firstAbove_zero_iff.mpr ⟨rfl, by rw [ht]; rfl⟩⟩
      · rintro ⟨hs, _ | steps, -, hfirst⟩
        · obtain ⟨rfl, -⟩ := firstAbove_zero_iff.mp hfirst
          exact ⟨rfl, Option.some.inj (ht.symm.trans hs)⟩
        · exact absurd (by rw [ht]; rfl) (firstAbove_succ_iff.mp hfirst).1
    | none =>
      simp only [search, ht, Option.bind_eq_some_iff, ih]
      constructor
      · rintro ⟨u, hu, hs, steps, hlt, hfirst⟩
        exact ⟨hs, steps + 1, Nat.succ_lt_succ hlt,
          firstAbove_succ_iff.mpr ⟨by simp [ht], u, hu, hfirst⟩⟩
      · rintro ⟨hs, _ | steps, hlt, hfirst⟩
        · obtain ⟨rfl, -⟩ := firstAbove_zero_iff.mp hfirst
          simp [ht] at hs
        · obtain ⟨-, u, hu, hrest⟩ := firstAbove_succ_iff.mp hfirst
          exact ⟨u, hu, hs, steps, Nat.lt_of_succ_lt_succ hlt, hrest⟩

/-- What is found can be looked at right where it is given. -/
theorem map_search (given : TypeName → Option α) (f : α → β) (n : Nat) (t : TypeName) :
    (h.search given n t).map (Prod.map id f) = h.search (fun u => (given u).map f) n t := by
  induction n generalizing t with
  | zero => rfl
  | succ n ih =>
    rw [search, search]
    cases given t with
    | some a => rfl
    | none =>
      cases h t with
      | none => rfl
      | some u => exact ih u

/-- A search finds something if another one does that is given less. -/
theorem isSome_search_mono {given : TypeName → Option α} {given' : TypeName → Option β}
    (hgiven : ∀ u, (given u).isSome → (given' u).isSome) (n : Nat) (t : TypeName)
    (hfound : (h.search given n t).isSome) : (h.search given' n t).isSome := by
  induction n generalizing t with
  | zero => cases hfound
  | succ n ih =>
    rw [search] at hfound ⊢
    cases ht' : given' t with
    | some b => rfl
    | none =>
      have ht : given t = none := by
        have := hgiven t
        rw [ht'] at this
        simpa using this
      rw [ht] at hfound
      cases hu : h t with
      | none =>
        rw [hu] at hfound
        cases hfound
      | some u =>
        rw [hu] at hfound
        exact ih u hfound

end Search

end Hierarchy

/-! ### The two walks -/

/-- Defining a type without methods adds no declaration of a method and takes none away. -/
theorem Catalog.declaredMethod?_define_bare (c : Catalog) (type : TypeName)
    (superclass : Option TypeName) (target : Target) (name : String) :
    (c.define type { superclass }).declaredMethod? target name = c.declaredMethod? target name := by
  rw [declaredMethod?, find?, define, Entries.find?_store, declaredMethod?]
  split_ifs with htype
  · subst htype
    cases hfind : c.find? target.type <;>
      simp [TypeDeclaration.merge, TypeDeclaration.methods, Entries.find?]
  · rfl

/-- The declared superclasses. -/
def Catalog.links (c : Catalog) : Hierarchy :=
  fun t => (c.find? t).bind (·.superclass)

theorem Catalog.lookup_eq_search (c : Catalog) (target : Target) (name : String) :
    c.lookup target name =
      (c.links.search (fun t => c.declaredMethod? ⟨t, target.onType⟩ name) maxVisits
        target.type).map (Prod.map (⟨·, target.onType⟩) id) := by
  obtain ⟨t, onType⟩ := target
  rw [lookup]
  generalize maxVisits = visits
  induction visits generalizing t with
  | zero => rfl
  | succ visits ih =>
    rw [lookupFrom, Hierarchy.search]
    cases ht : c.find? t with
    | none => simp [declaredMethod?, links, ht]
    | some d =>
      cases hd : (d.methods onType).find? name with
      | some m => simp [declaredMethod?, ht, hd]
      | none => cases hs : d.superclass <;> simp_all [declaredMethod?, links]

theorem Machine.resolve_eq_search (m : Machine) (target : Target) (name : String) :
    m.resolve target name =
      (m.catalog.links.search (fun t => m.methods (⟨t, target.onType⟩, name)) Catalog.maxVisits
        target.type).map (Prod.map (⟨·, target.onType⟩) id) := by
  obtain ⟨t, onType⟩ := target
  rw [resolve]
  generalize Catalog.maxVisits = visits
  induction visits generalizing t with
  | zero => rfl
  | succ visits ih =>
    rw [resolveFrom, Hierarchy.search]
    cases ht : m.methods (⟨t, onType⟩, name) with
    | some e => simp
    | none =>
      cases hd : m.catalog.find? t with
      | none => simp [Catalog.links, hd]
      | some d => cases hs : d.superclass <;> simp_all [Catalog.links]

/-- What both walks find: what is given to the first type on the chain of the target that is given
something, if that type is no more steps up than the bound. -/
theorem Hierarchy.map_search_eq_some_iff {α : Type} {h : Hierarchy} {given : TypeName → Option α}
    {target owner : Target} {a : α} :
    (h.search given Catalog.maxVisits target.type).map (Prod.map (⟨·, target.onType⟩) id) =
        some (owner, a) ↔
      owner.onType = target.onType ∧ given owner.type = some a ∧ ∃ steps ≤ maxSteps,
        h.FirstAbove (fun t => (given t).isSome) target.type steps owner.type := by
  obtain ⟨s, onType⟩ := owner
  have hbound (steps : Nat) : steps < Catalog.maxVisits ↔ steps ≤ maxSteps := Nat.lt_succ_iff
  rw [Option.map_eq_some_iff]
  simp only [Prod.exists, Prod.map, id, Prod.mk.injEq, Target.mk.injEq, search_eq_some_iff, hbound]
  constructor
  · rintro ⟨_, _, hfound, ⟨rfl, rfl⟩, rfl⟩
    exact ⟨rfl, hfound⟩
  · rintro ⟨rfl, hfound⟩
    exact ⟨_, _, hfound, ⟨rfl, rfl⟩, rfl⟩

/-- Dispatch finds the first type on the chain of the target that has an entry on the same side, if
that type is no more steps up than the bound. -/
theorem Machine.resolve_eq_some_iff {m : Machine} {target owner : Target} {name : String}
    {e : LocatedCode} : m.resolve target name = some (owner, e) ↔
      owner.onType = target.onType ∧ m.methods (owner, name) = some e ∧
        ∃ steps ≤ Hierarchy.maxSteps, m.catalog.links.FirstAbove
          (fun t => (m.methods (⟨t, target.onType⟩, name)).isSome) target.type steps
          owner.type := by
  rw [resolve_eq_search, Hierarchy.map_search_eq_some_iff]
  refine and_congr_right fun hside => ?_
  rw [← hside]

/-! ### Machines built by a history of definitions -/

/-- A definition in an audited program. -/
inductive Definition
  | type (name : TypeName) (superclass : Option TypeName)
  | method (key : MethodRef) (shape : Shape) (location : String)
    (body : Value → List Value → Procedure)
  /-- A signature for a method; there is nothing to annotate if the target does not declare it. -/
  | signature (key : MethodRef) (s : Signature)

namespace Definition

/-- Where a definition puts a method, if it defines this one. -/
def location? (key : MethodRef) : Definition → Option String
  | method key' _ location _ => if key' = key then some location else none
  | type .. | signature .. => none

/-- Where a history of definitions has put a method, if it defines it: the last definition
counts. -/
def lastLocation? (history : List Definition) (key : MethodRef) : Option String :=
  history.reverse.findSome? (location? key)

private theorem lastLocation?_concat (history : List Definition) (d : Definition)
    (key : MethodRef) :
    lastLocation? (history ++ [d]) key = (d.location? key).or (lastLocation? history key) := by
  rw [lastLocation?, List.reverse_append, List.reverse_singleton, List.singleton_append,
    List.findSome?_cons]
  cases d.location? key <;> rfl

end Definition

namespace Machine

/-- The machine after one more definition. -/
def define (m : Machine) : Definition → Machine
  | .type name superclass => m.addType name superclass
  | .method key shape location body => m.addMethod key shape location body
  | .signature key s =>
    { m with catalog := (m.catalog.annotate? key.1 key.2 s).getD m.catalog }

theorem location_methods_define (m : Machine) (d : Definition) (key : MethodRef) :
    ((m.define d).methods key).map (·.location) =
      (d.location? key).or ((m.methods key).map (·.location)) := by
  cases d with
  | type | signature => rfl
  | method key' shape location body =>
    simp only [define, addMethod, MethodTable.put, Definition.location?, eq_comm (a := key)]
    split_ifs <;> rfl

theorem location_declared_define (m : Machine) (d : Definition) (key : MethodRef) :
    ((m.define d).catalog.declaredMethod? key.1 key.2).map (·.location) =
      (d.location? key).or ((m.catalog.declaredMethod? key.1 key.2).map (·.location)) := by
  obtain ⟨target, name⟩ := key
  cases d with
  | type name' superclass =>
    rw [define, addType, Catalog.declaredMethod?_define_bare]
    rfl
  | method key' shape location body =>
    obtain ⟨target', name'⟩ := key'
    simp only [define, addMethod, Catalog.declaredMethod?_addMethod, Definition.location?,
      Prod.mk.injEq]
    split_ifs <;> rfl
  | signature key' s =>
    rw [define, Catalog.annotate?, Definition.location?, Option.none_or]
    cases hdeclared : m.catalog.declaredMethod? key'.1 key'.2 with
    | none => rfl
    | some declared =>
      simp only [Option.map_some, Option.getD_some, Catalog.declaredMethod?_addMethod]
      split_ifs with hkey
      · obtain ⟨rfl, rfl⟩ := hkey
        rw [hdeclared]
        rfl
      · rfl

/-- A machine that is built knows a method, in its table as in its catalog, if the history defines
it, and where the history has defined it last. -/
theorem location_foldl_define (heap : Heap) (contexts : List TestContext)
    (history : List Definition) (key : MethodRef) :
    let m := history.foldl define { heap, contexts }
    (m.methods key).map (·.location) = Definition.lastLocation? history key ∧
      (m.catalog.declaredMethod? key.1 key.2).map (·.location) =
        Definition.lastLocation? history key := by
  induction history using List.reverseRecOn with
  | nil => exact ⟨rfl, rfl⟩
  | append_singleton history d ih =>
    simp only [List.foldl_append, List.foldl_cons, List.foldl_nil, location_methods_define,
      location_declared_define, Definition.lastLocation?_concat, ih.1, ih.2, and_self]

/-- **Dispatch, reflection and subtyping agree** on every machine that is built by a history of
definitions, whatever the superclasses are: both searches end, with an implementation or without.
Dispatch finds an implementation exactly if reflection finds a declaration, and both name the same
target and the same location. They find the last definition of the method for the first type, on the
chain of the target, for which the history defines the method on the same side, if that type is no
more steps up than the bound. The type of the target is a subtype of that type, which is also the
first one to define the method on the chain that the subtype test walks up. -/
theorem resolve_lookup_agree (heap : Heap) (contexts : List TestContext)
    (history : List Definition) (target : Target) (name : String) :
    let m := history.foldl define { heap, contexts }
    let location? (t : TypeName) :=
      Definition.lastLocation? history (⟨t, target.onType⟩, name)
    (m.resolve target name).map (Prod.map id (·.location)) =
        (m.catalog.lookup target name).map (Prod.map id (·.location)) ∧
      (∀ owner location,
        (m.catalog.lookup target name).map (Prod.map id (·.location)) = some (owner, location) ↔
          owner.onType = target.onType ∧ location? owner.type = some location ∧
            ∃ steps ≤ Hierarchy.maxSteps, m.catalog.links.FirstAbove
              (fun t => (location? t).isSome) target.type steps owner.type) ∧
      ∀ owner declared, m.catalog.lookup target name = some (owner, declared) →
        m.catalog.hierarchy.isSubtype target.type owner.type = true ∧
          ∃ steps ≤ Hierarchy.maxSteps, m.catalog.hierarchy.FirstAbove
            (fun t => (location? t).isSome) target.type steps owner.type := by
  intro m location?
  have hlocation (key : MethodRef) := location_foldl_define heap contexts history key
  -- Seen through the locations the two searches are one, for what the history says.
  have hresolve : (m.resolve target name).map (Prod.map id (·.location)) =
      (m.catalog.links.search location? Catalog.maxVisits target.type).map
        (Prod.map (⟨·, target.onType⟩) id) := by
    have htable : (fun t => (m.methods (⟨t, target.onType⟩, name)).map (·.location)) = location? :=
      funext fun t => (hlocation _).1
    rw [resolve_eq_search, ← htable, ← Hierarchy.map_search, Option.map_map, Option.map_map]
    rfl
  have hlookup : (m.catalog.lookup target name).map (Prod.map id (·.location)) =
      (m.catalog.links.search location? Catalog.maxVisits target.type).map
        (Prod.map (⟨·, target.onType⟩) id) := by
    have hdeclared : (fun t => (m.catalog.declaredMethod? ⟨t, target.onType⟩ name).map
        (·.location)) = location? :=
      funext fun t => (hlocation (⟨t, target.onType⟩, name)).2
    rw [Catalog.lookup_eq_search, ← hdeclared, ← Hierarchy.map_search, Option.map_map,
      Option.map_map]
    rfl
  have hfound (owner : Target) (location : String) :
      (m.catalog.lookup target name).map (Prod.map id (·.location)) = some (owner, location) ↔
        owner.onType = target.onType ∧ location? owner.type = some location ∧
          ∃ steps ≤ Hierarchy.maxSteps, m.catalog.links.FirstAbove
            (fun t => (location? t).isSome) target.type steps owner.type := by
    rw [hlookup, Hierarchy.map_search_eq_some_iff]
  refine ⟨hresolve.trans hlookup.symm, hfound, fun owner declared howner => ?_⟩
  obtain ⟨-, -, steps, hle, hfirst⟩ :=
    (hfound owner declared.location).mp (by rw [howner]; rfl)
  have habove := hfirst.layered Hierarchy.builtin
  refine ⟨Hierarchy.isSubtype_iff.mpr ?_, steps, hle, habove⟩
  rcases Nat.eq_zero_or_pos steps with rfl | hpos
  · exact .inl (Option.some.inj habove.climb).symm
  · exact .inr (.inr ⟨steps, hpos, hle, habove.climb⟩)

end Machine

/-! ### A cyclic hierarchy -/

/-- Two types that inherit from each other, one of which has a method. -/
def parity : List Definition :=
  [.type "Even" (some "Odd"),
    .method (.instances "Odd", "next") Shape.empty "parity.rs:3" fun _ _ => .give .nil,
    .type "Odd" (some "Even")]

/-- The method is found one step up, by dispatch as by reflection. -/
theorem resolve_lookup_agree_on_parity :
    let m := parity.foldl Machine.define {}
    (m.resolve (.instances "Even") "next").map (Prod.map id (·.location)) =
        some (.instances "Odd", "parity.rs:3") ∧
      (m.catalog.lookup (.instances "Even") "next").map (Prod.map id (·.location)) =
        some (.instances "Odd", "parity.rs:3") := by
  intro m
  obtain ⟨hagree, hfound, -⟩ :=
    Machine.resolve_lookup_agree Heap.empty [] parity (.instances "Even") "next"
  have hlookup := (hfound (.instances "Odd") "parity.rs:3").mpr ⟨rfl, rfl, 1, by decide,
    Hierarchy.firstAbove_succ_iff.mpr ⟨by decide, "Odd", rfl,
      Hierarchy.firstAbove_zero_iff.mpr ⟨rfl, rfl⟩⟩⟩
  exact ⟨hagree.trans hlookup, hlookup⟩

end MockAudit
