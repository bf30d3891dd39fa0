import MockAudit.Proofs.Lockstep

/-!
# Machines built by definitions

A machine is *built* by defining types and methods, in any order and as often as one likes. On such
a machine every entry is the code of a method that its own target declares, nobody listens, and
doubles are not stubbed (`Machine.Built.isBare`): a definition of a type may add to declarations and
replace them, but never takes one away.
-/

namespace MockAudit

/-! ### Declarations -/

namespace Catalog

/-- What a target declares itself is found there. -/
theorem lookup_of_declaredMethod? {c : Catalog} {target : Target} {name : String}
    {d : MethodDeclaration} (h : c.declaredMethod? target name = some d) :
    c.lookup target name = some (target, d) := by
  obtain ⟨t, ht, hd⟩ := Option.bind_eq_some_iff.mp h
  rw [lookup, show maxVisits = 64 + 1 from rfl, lookupFrom, ht]
  simp [hd]

end Catalog

/-- Storing entries takes none away. -/
theorem Entries.isSome_find?_foldl_store {α : Type} (stored entries : Entries α) {key : String}
    (h : (entries.find? key).isSome) :
    ((stored.foldl (fun es e => es.store e.1 e.2) entries).find? key).isSome := by
  induction stored generalizing entries with
  | nil => exact h
  | cons e stored ih =>
    refine ih _ ?_
    rw [Entries.find?_store]
    split_ifs
    · rfl
    · exact h

private theorem TypeDeclaration.isSome_find?_merge {d : TypeDeclaration} (other : TypeDeclaration)
    {onType : Bool} {name : String} (h : ((d.methods onType).find? name).isSome) :
    (((d.merge other).methods onType).find? name).isSome := by
  cases onType with
  | true => exact Entries.isSome_find?_foldl_store other.typeMethods d.typeMethods h
  | false => exact Entries.isSome_find?_foldl_store other.instanceMethods d.instanceMethods h

/-- A method that is declared on one side of a type is found there, and every other method is found
as before. -/
theorem TypeDeclaration.find?_storeMethod (d : TypeDeclaration) (onType : Bool) (name : String)
    (m : MethodDeclaration) (onType' : Bool) (name' : String) :
    ((d.storeMethod onType name m).methods onType').find? name' =
      if onType = onType' ∧ name = name' then some m else (d.methods onType').find? name' := by
  cases onType <;> cases onType' <;> simp [storeMethod, methods, Entries.find?_store]

namespace Catalog

/-- Defining a type takes no declaration away. -/
theorem isSome_declaredMethod?_define {c : Catalog} (type : TypeName) (d : TypeDeclaration)
    {target : Target} {name : String} (h : (c.declaredMethod? target name).isSome) :
    ((c.define type d).declaredMethod? target name).isSome := by
  obtain ⟨m, hm⟩ := Option.isSome_iff_exists.mp h
  obtain ⟨t, ht, hm⟩ := Option.bind_eq_some_iff.mp hm
  rw [declaredMethod?, find?, define, Entries.find?_store]
  split_ifs with htype
  · subst htype
    rw [ht]
    exact TypeDeclaration.isSome_find?_merge d (Option.isSome_of_eq_some hm)
  · rw [← find?, ht]
    exact Option.isSome_of_eq_some hm

/-- A declared method is found at its target, and every other method is found as before. -/
theorem declaredMethod?_addMethod (c : Catalog) (target : Target) (name : String)
    (d : MethodDeclaration) (target' : Target) (name' : String) :
    (c.addMethod target name d).declaredMethod? target' name' =
      if target = target' ∧ name = name' then some d else c.declaredMethod? target' name' := by
  obtain ⟨type, onType⟩ := target
  obtain ⟨type', onType'⟩ := target'
  rw [declaredMethod?, find?, addMethod, Entries.find?_store]
  by_cases htype : type = type'
  · subst htype
    rw [if_pos rfl, Option.bind_some, TypeDeclaration.find?_storeMethod]
    cases hfind : c.find? type <;>
      simp [declaredMethod?, hfind, TypeDeclaration.methods, Entries.find?]
  · simp [htype, declaredMethod?, find?]

/-- Declaring a method declares it and takes no other declaration away. -/
theorem isSome_declaredMethod?_addMethod {c : Catalog} (key key' : MethodRef)
    (d : MethodDeclaration) (h : key' = key ∨ (c.declaredMethod? key'.1 key'.2).isSome) :
    ((c.addMethod key.1 key.2 d).declaredMethod? key'.1 key'.2).isSome := by
  rw [declaredMethod?_addMethod]
  split_ifs with hkey
  · rfl
  · exact h.resolve_left fun h => hkey (by rw [h]; exact ⟨rfl, rfl⟩)

end Catalog

/-! ### Building -/

namespace Machine

/-- A machine that is built by defining types and methods. -/
inductive Built : Machine → Prop
  | fresh (heap : Heap) (contexts : List TestContext) : Built { heap, contexts }
  | defineType {m : Machine} (h : Built m) (name : TypeName) (d : TypeDeclaration) :
    Built { m with catalog := m.catalog.define name d }
  | defineMethod {m : Machine} (h : Built m) (key : MethodRef) (shape : Shape) (location : String)
    (body : Value → List Value → Procedure) : Built (m.addMethod key shape location body)

/-- Every entry of a machine that was built is code that its own target declares. -/
theorem Built.entry {m : Machine} (h : m.Built) {key : MethodRef} {e : LocatedCode}
    (he : m.methods key = some e) :
    (∃ body, e.implementation = .code body) ∧ (m.catalog.declaredMethod? key.1 key.2).isSome := by
  induction h with
  | fresh heap contexts => cases he
  | defineType h name d ih =>
    obtain ⟨hcode, hdeclared⟩ := ih he
    exact ⟨hcode, Catalog.isSome_declaredMethod?_define name d hdeclared⟩
  | @defineMethod m h key' shape location body ih =>
    by_cases hkey : key = key'
    · subst hkey
      replace he : m.methods.put key _ key = some e := he
      rw [MethodTable.put_same] at he
      cases he
      exact ⟨⟨body, rfl⟩, Catalog.isSome_declaredMethod?_addMethod key key _ (Or.inl rfl)⟩
    · replace he : m.methods.put key' _ key = some e := he
      rw [MethodTable.put_other _ _ hkey] at he
      obtain ⟨hcode, hdeclared⟩ := ih he
      exact ⟨hcode, Catalog.isSome_declaredMethod?_addMethod key' key _ (Or.inr hdeclared)⟩

/-- Nothing is attached to a machine that was built. -/
theorem Built.unattached {m : Machine} (h : m.Built) :
    m.subscribers = [] ∧ m.doubleHandler = none ∧ m.tracers = [] ∧ m.stubSets = [] := by
  induction h with
  | fresh heap contexts => exact ⟨rfl, rfl, rfl, rfl⟩
  | defineType h name d ih => exact ih
  | defineMethod h key shape location body ih => exact ih

/-- A machine that was built never had an observer. -/
theorem Built.observers {m : Machine} (h : m.Built) : m.observers = [] := by
  induction h with
  | fresh heap contexts => rfl
  | defineType h name d ih => exact ih
  | defineMethod h key shape location body ih => exact ih

/-- On a machine that was built nobody watches and nothing is stubbed. -/
theorem Built.isBare {m : Machine} (h : m.Built) : m.IsBare where
  code _ _ he := (h.entry he).1
  declared key e he := by
    obtain ⟨d, hd⟩ := Option.isSome_iff_exists.mp (h.entry he).2
    exact ⟨d.shape, by rw [shape?, Catalog.lookup_of_declaredMethod? hd, Option.map_some]⟩
  subscribers := h.unattached.1
  doubleHandler := h.unattached.2.1

end Machine

/-! ### A machine that was built -/

/-- A type that greets, with a required parameter and a keyword. -/
def greeter : Machine :=
  ({} : Machine).addMethod (.typeItself "Greeter", "greet")
    ⟨[⟨.required, "name"⟩, ⟨.key, "mark"⟩]⟩ "greeter.rs:1" fun _ args =>
      .give (args.headD .nil)

theorem greeter_built : greeter.Built := .defineMethod (.fresh _ _) _ _ _ _

/-- A greeter that also welcomes: it greets amid two calls back to the host, and then it is
interrupted. -/
def reception : Machine :=
  greeter.addMethod (.typeItself "Greeter", "welcome") ⟨[]⟩ "greeter.rs:2" fun receiver _ =>
    .callback 1 <| .send receiver "greet" [.str "Ada"] fun _ =>
      .callback 2 <| .raise "Interruption" "the bell rings"

theorem reception_built : reception.Built := .defineMethod greeter_built _ _ _ _

end MockAudit
