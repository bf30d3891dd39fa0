import MockAudit.Tracing.Capture
import Mathlib.Data.List.Perm.Basic

/-!
# Arguments through a binding

A capture that follows events rebuilds the arguments of a call from their binding to the
parameters of the method. Arguments that *fit* the method (`Shape.Fits`) come back: the positional
ones in order, the named ones up to order (`Shape.Fits.unbind_bind`). The record rebuilt from the
binding and the record that keeps the arguments and the shape of the method therefore agree on
the positional arguments, on the named ones up to order, and on whether there are any. Of arguments
that do not fit some are lost, but none is invented, repeated or moved
(`Shape.arguments_recordOf_bind`).

## Main definitions

* `Shape.Fits`: arguments that leave nothing over when they are bound.
* `Capture.Leaves`: what is left over of named arguments.

## Main results

* `Capture.positional_unbind_bindParams`, `Capture.named_unbind_bindParams`: what is rebuilt from
  a binding, for all arguments.
* `Shape.positional_unbind_bind`, `Shape.named_unbind_bind`: which arguments come back, each kind
  for itself, and hence all that fit (`Shape.Fits.unbind_bind`).
* `Call.arguments_of_shape`, `Call.arguments_recordOf`: the arguments of the two kinds of records.
* `Shape.arguments_recordOf_bind`: the record rebuilt from a binding against the arguments given.
-/

namespace MockAudit

/-- Only a symbol equals a symbol. -/
theorem Value.equal_symbol_iff {k : Value} {name : String} :
    k.equal (.symbol name) = true ↔ k = .symbol name := by
  cases k <;> simp [Value.equal]

namespace Shape

/-! ### Keywords -/

private theorem takeKeyword_eq_none {name : String} {named : List (Value × Value)}
    (h : takeKeyword name named = none) : ∀ e ∈ named, e.1 ≠ .symbol name := by
  induction named with
  | nil => simp
  | cons e rest ih =>
    obtain ⟨k, v⟩ := e
    rw [takeKeyword] at h
    split_ifs at h with hk
    rw [Option.map_eq_none_iff] at h
    rintro e he
    rcases List.mem_cons.mp he with rfl | he
    · exact fun heq => hk (Value.equal_symbol_iff.mpr heq)
    · exact ih h e he

/-- Taking a keyword takes out one entry and keeps the others. -/
theorem perm_of_takeKeyword {name : String} {named others : List (Value × Value)} {v : Value}
    (h : takeKeyword name named = some (v, others)) : ((.symbol name, v) :: others).Perm named := by
  induction named generalizing v others with
  | nil => simp [takeKeyword] at h
  | cons e rest ih =>
    obtain ⟨k, w⟩ := e
    rw [takeKeyword] at h
    split_ifs at h with hk
    · obtain ⟨rfl, rfl⟩ := Prod.mk.inj (Option.some.inj h)
      rw [Value.equal_symbol_iff.mp hk]
    · obtain ⟨⟨found, left⟩, htaken, heq⟩ := Option.map_eq_some_iff.mp h
      obtain ⟨rfl, rfl⟩ := Prod.mk.inj heq
      exact (List.Perm.swap _ _ _).trans ((ih htaken).cons _)

/-! ### Fitting arguments -/

/-- Whether a parameter takes one positional argument. -/
def takesPlace (p : Parameter) : Bool :=
  p.kind == .required || p.kind == .optional

/-- Whether a parameter takes the value of a keyword. -/
def takesKeyword (p : Parameter) (key : Value) : Prop :=
  (p.kind = .keyRequired ∨ p.kind = .key) ∧ key = .symbol p.name

/-- Arguments *fit* a method if there are no more positional ones than the method has places,
unless the method takes any number, and if the named ones have distinct names, each declared unless
the method takes any name. -/
structure Fits (shape : Shape) (args : List Value) : Prop where
  positional : (∃ p ∈ shape.params, p.kind = .rest) ∨
    (shape.split args).1.length ≤ shape.params.countP takesPlace
  distinct : ((shape.split args).2.map Prod.fst).Nodup
  declared : (∃ p ∈ shape.params, p.kind = .keyRest) ∨
    ∀ e ∈ (shape.split args).2, ∃ p ∈ shape.params, takesKeyword p e.1

end Shape

/-! ### Unbinding -/

namespace Capture

open Shape

/-- The positional arguments rebuilt from a binding: all of them if there is a rest parameter, and
else as many as there are places. -/
theorem positional_unbind_bindParams (params : List Parameter) (positional : List Value)
    (named : List (Value × Value)) :
    (unbind (bindParams params positional named)).1 =
      if params.any (·.kind == .rest) then positional
      else positional.take (params.countP takesPlace) := by
  induction params generalizing positional named with
  | nil => simp [bindParams, unbind]
  | cons p params ih =>
    obtain ⟨kind, name⟩ := p
    cases kind with
    | required | optional =>
      cases positional with
      | nil => simp [bindParams, ih]
      | cons v vs =>
        cases h : params.any (·.kind == .rest) <;>
          simp [bindParams, unbind, ih, h, takesPlace]
    | rest => simp [bindParams, unbind, ih]
    | keyRequired | key =>
      cases h : takeKeyword name named <;> simp [bindParams, unbind, ih, h, takesPlace]
    | keyRest => simp [bindParams, unbind, ih, takesPlace]
    | noKey | block => simp [bindParams, ih, takesPlace]

/-- Of named arguments some are rebuilt for parameters and others are *left over*. Nothing is left
over if there is a parameter for all other names, and if the names are distinct, then nothing
declared is left over. -/
structure Leaves (params : List Parameter) (named rebuilt left : List (Value × Value)) : Prop where
  perm : (rebuilt ++ left).Perm named
  keyRest : (∃ p ∈ params, p.kind = .keyRest) → left = []
  undeclared : (named.map Prod.fst).Nodup → ∀ e ∈ left, ∀ p ∈ params, ¬ takesKeyword p e.1

namespace Leaves

variable {params : List Parameter} {named rebuilt left : List (Value × Value)} {p : Parameter}

private theorem mem_of_mem_left (h : Leaves params named rebuilt left) {e : Value × Value}
    (he : e ∈ left) : e ∈ named :=
  h.perm.subset (List.mem_append_right rebuilt he)

/-- One more parameter leaves over the same if it takes nothing of that. -/
theorem skip (h : Leaves params named rebuilt left) (hkind : p.kind ≠ .keyRest)
    (hp : ∀ e ∈ left, ¬ takesKeyword p e.1) : Leaves (p :: params) named rebuilt left := by
  refine ⟨h.perm, ?_, ?_⟩
  · rintro ⟨q, _ | ⟨_, hq⟩, hrest⟩
    · exact absurd hrest hkind
    · exact h.keyRest ⟨q, hq, hrest⟩
  · rintro hdistinct e he q (_ | ⟨_, hq⟩)
    · exact hp e he
    · exact h.undeclared hdistinct e he q hq

/-- One more parameter that takes a keyword leaves over what the others leave of the rest. -/
theorem take {others : List (Value × Value)} {v : Value}
    (h : Leaves params others rebuilt left) (hkind : p.kind ≠ .keyRest)
    (htaken : ((.symbol p.name, v) :: others).Perm named) :
    Leaves (p :: params) named ((.symbol p.name, v) :: rebuilt) left := by
  refine ⟨(h.perm.cons _).trans htaken, ?_, ?_⟩
  · rintro ⟨q, _ | ⟨_, hq⟩, hrest⟩
    · exact absurd hrest hkind
    · exact h.keyRest ⟨q, hq, hrest⟩
  · intro hdistinct
    -- The name that was taken does not occur among the others, hence not in what is left.
    have hothers : Value.symbol p.name ∉ others.map Prod.fst ∧ (others.map Prod.fst).Nodup := by
      simpa using ((htaken.map Prod.fst).nodup_iff).mpr hdistinct
    rintro e he q (_ | ⟨_, hq⟩) ht
    · exact hothers.1 (ht.2 ▸ List.mem_map_of_mem (h.mem_of_mem_left he))
    · exact h.undeclared hothers.2 e he q hq ht

end Leaves

/-- The named arguments rebuilt from a binding, together with those that are left over, are those
that were given. -/
theorem named_unbind_bindParams (params : List Parameter) (positional : List Value)
    (named : List (Value × Value)) :
    ∃ left, Leaves params named (unbind (bindParams params positional named)).2 left := by
  induction params generalizing positional named with
  | nil => exact ⟨named, by simp [bindParams, unbind], by simp, by simp⟩
  | cons p params ih =>
    obtain ⟨kind, name⟩ := p
    cases kind with
    | required | optional =>
      cases positional with
      | nil =>
        obtain ⟨left, hleft⟩ := ih [] named
        exact ⟨left, hleft.skip (by simp) (by simp [takesKeyword])⟩
      | cons v vs =>
        obtain ⟨left, hleft⟩ := ih vs named
        exact ⟨left, hleft.skip (by simp) (by simp [takesKeyword])⟩
    | rest =>
      obtain ⟨left, hleft⟩ := ih [] named
      exact ⟨left, hleft.skip (by simp) (by simp [takesKeyword])⟩
    | keyRequired | key =>
      cases h : takeKeyword name named with
      | none =>
        obtain ⟨left, hleft⟩ := ih positional named
        refine ⟨left, ?_⟩
        rw [bindParams, h]
        exact hleft.skip (by simp) fun e he ht =>
          takeKeyword_eq_none h e (hleft.mem_of_mem_left he) ht.2
      | some taken =>
        obtain ⟨v, others⟩ := taken
        obtain ⟨left, hleft⟩ := ih positional others
        refine ⟨left, ?_⟩
        rw [bindParams, h]
        exact hleft.take (by simp) (perm_of_takeKeyword h)
    | keyRest =>
      obtain ⟨left, hleft⟩ := ih positional []
      obtain ⟨hnamed, -⟩ := List.append_eq_nil_iff.mp (List.perm_nil.mp hleft.perm)
      exact ⟨[], by simp [bindParams, unbind, Value.entries?, hnamed], by simp, by simp⟩
    | noKey | block =>
      obtain ⟨left, hleft⟩ := ih positional named
      exact ⟨left, hleft.skip (by simp) (by simp [takesKeyword])⟩

end Capture

namespace Shape

variable {shape : Shape} {args : List Value}

/-- The positional arguments come back from a binding if there is a place for each of them. -/
theorem positional_unbind_bind (h : (∃ p ∈ shape.params, p.kind = .rest) ∨
    (shape.split args).1.length ≤ shape.params.countP takesPlace) :
    (Capture.unbind (shape.bind args)).1 = (shape.split args).1 := by
  rw [bind, Capture.positional_unbind_bindParams]
  split_ifs with hrest
  · rfl
  · refine List.take_of_length_le (h.resolve_left fun ⟨p, hp, hkind⟩ => hrest ?_)
    exact List.any_eq_true.mpr ⟨p, hp, by simp [hkind]⟩

/-- The named arguments come back from a binding, up to order, if none of them is left over. -/
theorem named_unbind_bind (h : (∃ p ∈ shape.params, p.kind = .keyRest) ∨
    ((shape.split args).2.map Prod.fst).Nodup ∧
      ∀ e ∈ (shape.split args).2, ∃ p ∈ shape.params, takesKeyword p e.1) :
    (Capture.unbind (shape.bind args)).2.Perm (shape.split args).2 := by
  obtain ⟨left, hleft⟩ := Capture.named_unbind_bindParams shape.params
    (shape.split args).1 (shape.split args).2
  have hnil : left = [] := by
    rcases h with hany | ⟨hdistinct, hdeclared⟩
    · exact hleft.keyRest hany
    · refine List.eq_nil_iff_forall_not_mem.mpr fun e he => ?_
      obtain ⟨p, hp, htakes⟩ := hdeclared e (hleft.mem_of_mem_left he)
      exact hleft.undeclared hdistinct e he p hp htakes
  have hperm := hleft.perm
  rw [hnil, List.append_nil] at hperm
  exact hperm

/-- Arguments that fit a method come back from their binding, the named ones up to order. -/
theorem Fits.unbind_bind (h : shape.Fits args) :
    (Capture.unbind (shape.bind args)).1 = (shape.split args).1 ∧
      (Capture.unbind (shape.bind args)).2.Perm (shape.split args).2 :=
  ⟨positional_unbind_bind h.positional, named_unbind_bind (h.declared.imp_right (⟨h.distinct, ·⟩))⟩

/-- A binding invents nothing and repeats nothing: what is rebuilt from it are the first of the
positional arguments, and some of the named ones. -/
theorem unbind_bind_sub (shape : Shape) (args : List Value) :
    (Capture.unbind (shape.bind args)).1 <+: (shape.split args).1 ∧
      (Capture.unbind (shape.bind args)).2.Subperm (shape.split args).2 := by
  constructor
  · rw [bind, Capture.positional_unbind_bindParams]
    split_ifs
    · exact List.prefix_rfl
    · exact List.take_prefix _ _
  · obtain ⟨left, hleft⟩ := Capture.named_unbind_bindParams shape.params
      (shape.split args).1 (shape.split args).2
    exact (List.sublist_append_left _ left).subperm.trans hleft.perm.subperm

end Shape

/-! ### The arguments of records -/

namespace Call

/-- A record whose flag is not fixed splits its arguments as the shape of its method does. -/
theorem arguments_of_shape {c : Call} {shape : Shape} (hflag : c.namedFlag = none)
    (hshape : c.shape = some shape) :
    c.positional = .ok (shape.split c.arguments).1 ∧ c.named = (shape.split c.arguments).2 ∧
      c.hasNamed = !(shape.split c.arguments).2.isEmpty := by
  have hnamed : c.hasNamed =
      (shape.acceptsNamed && c.arguments.getLast?.any Value.isNamedArguments) := by
    simp [hasNamed, hflag, hshape]
  cases hlast : c.arguments.getLast? with
  | none => simp_all [positional, named, Shape.split]
  | some v =>
    have hne : c.arguments ≠ [] := by
      rintro he
      simp [he] at hlast
    cases v with
    | map entries =>
      by_cases hform : shape.acceptsNamed && (Value.map entries).isNamedArguments
      · have hentries : entries ≠ [] := by
          rintro rfl
          simp [Value.isNamedArguments] at hform
        have hsplit : shape.split c.arguments = (c.arguments.dropLast, entries) := by
          simp [Shape.split, hlast, hform]
        simp_all [positional, named, Value.entries?]
      · have hsplit : shape.split c.arguments = (c.arguments, []) := by
          simp [Shape.split, hlast, hform]
        simp_all [positional, named]
    | _ => simp_all [positional, named, Shape.split, Value.isNamedArguments]

/-- A record rebuilt from a binding has the arguments that are rebuilt from the binding. -/
theorem arguments_recordOf (target : Target) (method : String) (binding : List Binding)
    (location : String) (testCase : Option String) :
    let r := Capture.recordOf target method binding location testCase
    r.positional = .ok (Capture.unbind binding).1 ∧ r.named = (Capture.unbind binding).2 ∧
      r.hasNamed = !(Capture.unbind binding).2.isEmpty := by
  cases h : (Capture.unbind binding).2 with
  | nil => simp [Capture.recordOf, positional, named, hasNamed, h]
  | cons e rest =>
    simp [Capture.recordOf, positional, named, hasNamed, h, Value.entries?]

end Call

/-- **A record rebuilt from a binding loses nothing that fits**: let `r` be the record rebuilt from
the binding of some arguments to a method, for any parameters and any arguments. Its positional
arguments are the first of the positional ones that were given, and its named arguments are some
of the named ones that were given, each taken once. If the method has a place for each positional
argument, then `r` has all of them. If the method takes any name, or if the names are distinct and
all declared, then `r` has the named ones up to order, and is flagged to have named arguments
exactly if the record is that keeps the arguments and the shape of the method. -/
theorem Shape.arguments_recordOf_bind (shape : Shape) (args : List Value) (target : Target)
    (method location : String) (testCase : Option String) :
    let r := Capture.recordOf target method (shape.bind args) location testCase
    let given : Call := { target, method, arguments := args, shape := some shape }
    let (positional, named) := shape.split args
    (∃ rebuilt, r.positional = .ok rebuilt ∧ rebuilt <+: positional ∧
      ((∃ p ∈ shape.params, p.kind = .rest) ∨
          positional.length ≤ shape.params.countP takesPlace → rebuilt = positional)) ∧
      r.named.Subperm named ∧
      ((∃ p ∈ shape.params, p.kind = .keyRest) ∨
          (named.map Prod.fst).Nodup ∧
            (∀ e ∈ named, ∃ p ∈ shape.params, takesKeyword p e.1) →
        r.named.Perm named ∧ r.hasNamed = given.hasNamed) := by
  intro r given
  obtain ⟨hfront, hsub⟩ := shape.unbind_bind_sub args
  obtain ⟨hpositional, hnamed, hflag⟩ :=
    Call.arguments_recordOf target method (shape.bind args) location testCase
  refine ⟨⟨_, hpositional, hfront, positional_unbind_bind⟩, hnamed ▸ hsub, fun hfits => ?_⟩
  have hperm := named_unbind_bind hfits
  refine ⟨hnamed ▸ hperm, ?_⟩
  obtain ⟨-, -, hgiven⟩ := Call.arguments_of_shape (c := given) rfl rfl
  rw [hflag, hgiven, hperm.isEmpty_eq]

/-! ### Copying files -/

/-- A method that takes any number of files before one required, and two keywords. -/
def copyShape : Shape where
  params := [⟨.rest, "files"⟩, ⟨.required, "last"⟩, ⟨.keyRequired, "to"⟩, ⟨.key, "mode"⟩]

/-- Two files, with the keywords in another order than the method declares them. -/
def copyArguments : List Value :=
  [.str "a", .str "b", .map [(.symbol "mode", .int 6), (.symbol "to", .str "c")]]

/-- The first parameter takes both files, so that none is left for the second, and the keywords
come back in the order of their parameters. -/
theorem arguments_recordOf_bind_copy :
    let binding := copyShape.bind copyArguments
    let r := Capture.recordOf (.instances "Disk") "copy" binding "disk:3" none
    r.positional = .ok [.str "a", .str "b"] ∧
      r.named.Perm [(.symbol "mode", .int 6), (.symbol "to", .str "c")] ∧ r.hasNamed = true := by
  intro binding r
  obtain ⟨⟨rebuilt, hpositional, -, hall⟩, -, hnamed⟩ :=
    copyShape.arguments_recordOf_bind copyArguments (.instances "Disk") "copy" "disk:3" none
  have hrebuilt : rebuilt = [.str "a", .str "b"] :=
    hall (.inl ⟨⟨.rest, "files"⟩, by simp [copyShape]⟩)
  obtain ⟨hperm, hflag⟩ := hnamed (.inr ⟨by simp, by simp [copyShape, Shape.takesKeyword]⟩)
  exact ⟨hrebuilt ▸ hpositional, hperm, hflag⟩

end MockAudit
