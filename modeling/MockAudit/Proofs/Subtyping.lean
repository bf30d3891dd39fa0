import MockAudit.Catalog
import Mathlib.Logic.Relation

/-!
# Subtyping as the order of the superclass chains

The subtype test walks up a bounded number of superclasses. What it answers is said in terms of the
type that stands a given number of steps above another (`Hierarchy.ancestor?`): for any hierarchy,
cyclic ones included, a supertype is the type itself, the top, or at most `Hierarchy.maxSteps`
steps above (`Hierarchy.isSubtype_iff`).

In a *rooted* hierarchy (`Hierarchy.IsRooted`) the chain of every type ends at the top, within the
bound. As the top has no superclass, the top stands a single number of steps above each type
(`Hierarchy.IsRooted.steps_eq`). So no type is higher than the bound, and the walk misses none; and
a type that stands above itself does so in no steps, which makes the order antisymmetric. The types
above a given one form a chain, because a type has one superclass at most.

## Main definitions

* `Hierarchy.ancestor?`: the type some steps above another.
* `Hierarchy.Above`: being the type itself or on its superclass chain.
* `Hierarchy.IsRooted`: the chain of every type ends at the top within the bound.

## Main results

* `Hierarchy.isSubtype_iff`: the subtype test on any hierarchy.
* `Hierarchy.IsRooted.isSubtype_iff_above`: the subtype test on a rooted hierarchy.
* `Hierarchy.isSubtype_chain_order`: subtyping is the order of the superclass chains.
-/

namespace MockAudit

namespace Hierarchy

variable {h : Hierarchy} {a b c t : TypeName} {m n : Nat}

/-! ### The types above a type -/

/-- The type that stands a number of superclass steps above a type. -/
def ancestor? (h : Hierarchy) : Nat → TypeName → Option TypeName
  | 0, t => some t
  | n + 1, t => (h t).bind (h.ancestor? n)

@[simp] theorem ancestor?_zero : h.ancestor? 0 t = some t := rfl

theorem ancestor?_succ : h.ancestor? (n + 1) t = (h t).bind (h.ancestor? n) := rfl

theorem ancestor?_add : h.ancestor? (m + n) t = (h.ancestor? m t).bind (h.ancestor? n) := by
  induction m generalizing t with
  | zero => simp
  | succ m ih =>
    rw [Nat.add_right_comm, ancestor?_succ, ancestor?_succ, Option.bind_assoc]
    exact Option.bind_congr fun s _ => ih

/-- Two climbs, one from where the other ends. -/
theorem ancestor?_trans (hab : h.ancestor? m a = some b) (hbc : h.ancestor? n b = some c) :
    h.ancestor? (m + n) a = some c := by
  rw [ancestor?_add, hab, Option.bind_some, hbc]

/-- Of two climbs from one type the longer one goes on from where the shorter one ends. -/
theorem ancestor?_sub (hab : h.ancestor? m a = some b) (hac : h.ancestor? n a = some c)
    (hmn : m ≤ n) : h.ancestor? (n - m) b = some c := by
  rw [← Nat.add_sub_cancel' hmn, ancestor?_add, hab, Option.bind_some] at hac
  exact hac

/-- A type is itself or on the superclass chain of another. -/
def Above (h : Hierarchy) : TypeName → TypeName → Prop :=
  Relation.ReflTransGen fun t s => h t = some s

theorem above_iff : h.Above a b ↔ ∃ n, h.ancestor? n a = some b := by
  constructor
  · intro hab
    induction hab using Relation.ReflTransGen.head_induction_on with
    | refl => exact ⟨0, rfl⟩
    | head hstep _ ih =>
      obtain ⟨n, hn⟩ := ih
      exact ⟨n + 1, by rw [ancestor?_succ, hstep, Option.bind_some, hn]⟩
  · rintro ⟨n, hn⟩
    induction n generalizing a with
    | zero => exact Option.some.inj hn ▸ .refl
    | succ n ih =>
      obtain ⟨s, hs, hsb⟩ := Option.bind_eq_some_iff.mp hn
      exact .head hs (ih hsb)

/-! ### The bounded walk -/

/-- The walk finds what stands at least one step above, and no more than the steps it may take. -/
theorem reaches_iff :
    h.reaches b n a = true ↔ ∃ steps, 0 < steps ∧ steps ≤ n ∧ h.ancestor? steps a = some b := by
  induction n generalizing a with
  | zero => simp only [reaches, Bool.false_eq_true, false_iff]; omega
  | succ n ih =>
    cases ha : h a with
    | none =>
      simp only [reaches, ha, Bool.false_eq_true, false_iff]
      rintro ⟨_ | steps, hpos, -, hsteps⟩
      · exact absurd hpos (Nat.lt_irrefl 0)
      · simp [ancestor?_succ, ha] at hsteps
    | some s =>
      simp only [reaches, ha, Bool.or_eq_true, beq_iff_eq, ih]
      constructor
      · rintro (rfl | ⟨steps, -, hle, hsteps⟩)
        · exact ⟨1, by omega, by omega, by simp [ancestor?_succ, ha]⟩
        · exact ⟨steps + 1, by omega, by omega, by simp [ancestor?_succ, ha, hsteps]⟩
      · rintro ⟨_ | _ | steps, hpos, hle, hsteps⟩
        · exact absurd hpos (Nat.lt_irrefl 0)
        · exact .inl (by simpa [ancestor?_succ, ha] using hsteps)
        · rw [ancestor?_succ, ha, Option.bind_some] at hsteps
          exact .inr ⟨steps + 1, by omega, by omega, hsteps⟩

/-- A supertype is the type itself, the top, or above the type by no more steps than the bound. -/
theorem isSubtype_iff : h.isSubtype a b = true ↔
    b = a ∨ b = TypeName.object ∨
      ∃ steps, 0 < steps ∧ steps ≤ maxSteps ∧ h.ancestor? steps a = some b := by
  simp only [isSubtype, Bool.or_eq_true, beq_iff_eq, reaches_iff, or_assoc, eq_comm (a := a)]

/-! ### Rooted hierarchies -/

/-- A hierarchy is *rooted* if the top has no superclass and is reached from every type within the
bound. -/
structure IsRooted (h : Hierarchy) : Prop where
  top : h TypeName.object = none
  below : ∀ t, ∃ steps ≤ maxSteps, h.ancestor? steps t = some TypeName.object

namespace IsRooted

/-- Nothing stands above the top. -/
theorem eq_zero_of_ancestor? (hroot : h.IsRooted)
    (hn : h.ancestor? n TypeName.object = some t) : n = 0 := by
  cases n with
  | zero => rfl
  | succ n => simp [ancestor?_succ, hroot.top] at hn

/-- The top stands a single number of steps above a type. -/
theorem steps_eq (hroot : h.IsRooted) (hm : h.ancestor? m t = some TypeName.object)
    (hn : h.ancestor? n t = some TypeName.object) : m = n := by
  rcases Nat.le_total m n with hmn | hnm
  · have := hroot.eq_zero_of_ancestor? (ancestor?_sub hm hn hmn)
    omega
  · have := hroot.eq_zero_of_ancestor? (ancestor?_sub hn hm hnm)
    omega

/-- No climb is longer than the bound. -/
theorem le_maxSteps (hroot : h.IsRooted) (hn : h.ancestor? n a = some b) : n ≤ maxSteps := by
  obtain ⟨total, htotal, htop⟩ := hroot.below a
  obtain ⟨rest, -, hrest⟩ := hroot.below b
  have := hroot.steps_eq (ancestor?_trans hn hrest) htop
  omega

theorem isSubtype_iff_above (hroot : h.IsRooted) : h.isSubtype a b = true ↔ h.Above a b := by
  rw [isSubtype_iff, above_iff]
  constructor
  · rintro (rfl | rfl | ⟨steps, -, -, hsteps⟩)
    · exact ⟨0, rfl⟩
    · obtain ⟨steps, -, hsteps⟩ := hroot.below a
      exact ⟨steps, hsteps⟩
    · exact ⟨steps, hsteps⟩
  · rintro ⟨steps, hsteps⟩
    rcases Nat.eq_zero_or_pos steps with rfl | hpos
    · exact .inl (Option.some.inj hsteps).symm
    · exact .inr (.inr ⟨steps, hpos, hroot.le_maxSteps hsteps, hsteps⟩)

theorem above_antisymm (hroot : h.IsRooted) (hab : h.Above a b) (hba : h.Above b a) : a = b := by
  obtain ⟨m, hm⟩ := above_iff.mp hab
  obtain ⟨n, hn⟩ := above_iff.mp hba
  obtain ⟨steps, -, htop⟩ := hroot.below a
  -- From the type round to itself and then to the top is as far as to the top right away.
  have := hroot.steps_eq (ancestor?_trans (ancestor?_trans hm hn) htop) htop
  obtain rfl : m = 0 := by omega
  exact Option.some.inj hm

end IsRooted

/-- Two types above one type are above one another, one way or the other. -/
theorem Above.total (hab : h.Above a b) (hac : h.Above a c) : h.Above b c ∨ h.Above c b :=
  Relation.ReflTransGen.total_of_right_unique
    (fun _ _ _ => Option.mem_unique) hab hac

/-- **Subtyping is the order of the superclass chains.** On any hierarchy, cyclic ones included, a
supertype of a type is the type itself, the top, or above it by no more steps than the bound. On a
rooted hierarchy the supertypes of a type are the type itself and those on its superclass chain;
this is a partial order with the top as its greatest element, and any two supertypes of one type
are comparable. -/
theorem isSubtype_chain_order (h : Hierarchy) :
    (∀ a b, h.isSubtype a b = true →
      b = a ∨ b = TypeName.object ∨ ∃ steps ≤ maxSteps, h.ancestor? steps a = some b) ∧
    (h.IsRooted →
      (∀ a b, h.isSubtype a b = true ↔ h.Above a b) ∧
      (∀ a, h.isSubtype a a = true) ∧
      (∀ a b c, h.isSubtype a b = true → h.isSubtype b c = true → h.isSubtype a c = true) ∧
      (∀ a b, h.isSubtype a b = true → h.isSubtype b a = true → a = b) ∧
      (∀ a, h.isSubtype a TypeName.object = true) ∧
      ∀ a b c, h.isSubtype a b = true → h.isSubtype a c = true →
        h.isSubtype b c = true ∨ h.isSubtype c b = true) := by
  constructor
  · intro a b hab
    rcases isSubtype_iff.mp hab with heq | htop | ⟨steps, -, hle, hsteps⟩
    · exact .inl heq
    · exact .inr (.inl htop)
    · exact .inr (.inr ⟨steps, hle, hsteps⟩)
  · intro hroot
    have hiff : ∀ a b, h.isSubtype a b = true ↔ h.Above a b := fun _ _ => hroot.isSubtype_iff_above
    refine ⟨hiff, h.isSubtype_self, ?_, ?_, h.isSubtype_object, ?_⟩ <;> simp only [hiff]
    · exact fun _ _ _ => .trans
    · exact fun _ _ => hroot.above_antisymm
    · exact fun _ _ _ => Above.total

/-! ### Declared types over the built-in ones -/

/-- To see that a hierarchy over the built-in types is rooted it is enough to follow the declared
links. -/
theorem isRooted_layered_builtin {declared : Hierarchy} (htop : declared TypeName.object = none)
    (hbelow : ∀ t s, declared t = some s → ∃ steps < maxSteps,
      (layered declared builtin).ancestor? steps t = some TypeName.object) :
    (layered declared builtin).IsRooted where
  top := by simp [layered, htop, builtin]
  below t := by
    cases ht : declared t with
    | some s =>
      obtain ⟨steps, hlt, hsteps⟩ := hbelow t s ht
      exact ⟨steps, Nat.le_of_lt hlt, hsteps⟩
    | none =>
      have hstep : layered declared builtin t = builtin t := by simp [layered, ht]
      by_cases hobject : t = TypeName.object
      · exact ⟨0, Nat.zero_le _, by rw [hobject, ancestor?_zero]⟩
      by_cases hnumber : t = "Integer" ∨ t = "Float"
      · rw [builtin, if_neg hobject, if_pos hnumber] at hstep
        cases hnumeric : declared "Numeric" with
        | none =>
          have hobject : layered declared builtin "Numeric" = some TypeName.object := by
            simp [layered, hnumeric, builtin, TypeName.object]
          exact ⟨2, by decide, by simp [ancestor?_succ, hstep, hobject]⟩
        | some s =>
          obtain ⟨steps, hlt, hsteps⟩ := hbelow "Numeric" s hnumeric
          exact ⟨steps + 1, hlt, by simp [ancestor?_succ, hstep, hsteps]⟩
      · rw [builtin, if_neg hobject, if_neg hnumber] at hstep
        exact ⟨1, by decide, by simp [ancestor?_succ, hstep]⟩

/-- The hierarchy of the types that need no declaration is rooted. -/
theorem builtin_isRooted : builtin.IsRooted := by
  have hlayered : (layered (fun _ => none) builtin).IsRooted := isRooted_layered_builtin rfl nofun
  exact hlayered

end Hierarchy

/-! ### Dogs and other animals -/

/-- The catalog of a kennel. -/
def kennel : Catalog :=
  (Catalog.empty.define "Dog" { superclass := some "Animal" }).define "Puppy"
    { superclass := some "Dog" }

private theorem kennel_isRooted : kennel.hierarchy.IsRooted := by
  refine Hierarchy.isRooted_layered_builtin rfl fun t s hs => ?_
  by_cases hpuppy : t = "Puppy"
  · exact ⟨3, by decide, hpuppy ▸ rfl⟩
  by_cases hdog : t = "Dog"
  · exact ⟨2, by decide, hdog ▸ rfl⟩
  -- No other type is declared.
  · simp [kennel, Catalog.define, Catalog.find?, Catalog.empty, Entries.store, Entries.find?,
      eq_comm (b := t), hpuppy, hdog] at hs

/-- Puppies are animals, two steps up; and dogs are no puppies, because puppies are dogs. -/
theorem isSubtype_chain_order_kennel :
    kennel.hierarchy.isSubtype "Puppy" "Animal" = true ∧
      kennel.hierarchy.isSubtype "Dog" "Puppy" = false := by
  obtain ⟨hiff, -, -, hantisymm, -, -⟩ := kennel.hierarchy.isSubtype_chain_order.2 kennel_isRooted
  refine ⟨(hiff _ _).mpr (Hierarchy.above_iff.mpr ⟨2, rfl⟩), Bool.eq_false_iff.mpr fun hdog => ?_⟩
  have hpuppy : kennel.hierarchy.isSubtype "Puppy" "Dog" = true :=
    (hiff _ _).mpr (Hierarchy.above_iff.mpr ⟨1, rfl⟩)
  exact absurd (hantisymm _ _ hdog hpuppy) (by decide)

end MockAudit
