import MockAudit.Proofs.CheckReports
import Mathlib.Data.List.Forall2

/-!
# Instance doubles in place of objects

An instance double may be passed wherever an object of its type may. If a call is in accord with a
signature, it remains so when some of the objects among its arguments, the values of its keywords
and its result are replaced by doubles of their types; and nothing is lost on the way back, unless
it is doubles that the signature asks for (`Signature.check_of_replacedBy`).

A double stands for its type and, besides, for every double. So the names that it goes by are those
of the object and one more, and a type expression accepts no less of it. Doubles are no maps, and
the keys of a map are not replaced. Hence the arguments of both calls are separated at the same
place, and each argument of one call meets the same condition as the one it was replaced by.

## Main definitions

* `Value.ReplacedBy`, `Value.ReplacedWithin`, `Call.ReplacedBy`: objects are replaced by instance
  doubles of their types.

## Main results

* `Value.inhabits_double`: which types a double inhabits besides those of the object.
* `TypeExpr.accepts_of_inhabits`: accepting a value depends on the names in a type expression.
* `Call.ReplacedBy.exists_separateArguments`: the arguments are separated in the same way.
* `Signature.check_of_replacedBy`: doubles may stand in for objects, and objects for doubles.
-/

namespace MockAudit

/-! ### Values -/

namespace Value

/-- A value is left as it is, or is an object and replaced by an instance double of its type. -/
inductive ReplacedBy : Value → Value → Prop
  | itself (v : Value) : ReplacedBy v v
  | double {identity : Nat} {type : TypeName} {d : TestDouble} (h : d.kind = .instanceOf type) :
    ReplacedBy (.object identity type) (.double d)

/-- The keys of the entries are left as they are, and the values may be replaced. -/
def EntriesReplacedBy : List (Value × Value) → List (Value × Value) → Prop :=
  List.Forall₂ fun entry entry' => entry.1 = entry'.1 ∧ entry.2.ReplacedBy entry'.2

/-- An argument is replaced, or is a map in which values are replaced. -/
inductive ReplacedWithin : Value → Value → Prop
  | value {v v' : Value} (h : v.ReplacedBy v') : ReplacedWithin v v'
  | values {entries entries' : List (Value × Value)} (h : EntriesReplacedBy entries entries') :
    ReplacedWithin (.map entries) (.map entries')

theorem EntriesReplacedBy.refl (entries : List (Value × Value)) :
    EntriesReplacedBy entries entries :=
  List.forall₂_same.mpr fun entry _ => ⟨rfl, .itself entry.2⟩

/-- An instance double inhabits the types of an object of its type, and that of doubles. -/
theorem inhabits_double {d : TestDouble} {type : TypeName} (h : d.kind = .instanceOf type)
    (identity : Nat) (name : TypeName) (H : Hierarchy) :
    (double d).inhabits name H = (name == "Double" || (object identity type).inhabits name H) := by
  have hstands : d.standsFor? = some type := by rw [TestDouble.standsFor?, h]
  rw [inhabits, inhabits, hstands, Option.any_some, typeName, Bool.or_assoc]
  · -- the top is mentioned for doubles only, but it is above the type of the object as well
    cases htop : name == TypeName.object with
    | false => rw [Bool.false_or]
    | true => rw [beq_iff_eq.mp htop, H.isSubtype_object, Bool.or_true]
  · exact fun d hd => by cases hd

variable {v v' : Value} {name : TypeName} {H : Hierarchy}

/-- What is replaced inhabits what it has inhabited before. -/
theorem ReplacedWithin.inhabits (h : v.ReplacedWithin v') (hv : v.inhabits name H = true) :
    v'.inhabits name H = true := by
  rcases h with (_ | @⟨identity, type, d, hd⟩) | _
  · exact hv
  · rw [inhabits_double hd identity, hv, Bool.or_true]
  · exact hv

/-- Nothing but the type of doubles is inhabited now and was not before. -/
theorem ReplacedWithin.of_inhabits (h : v.ReplacedWithin v') (hname : name ≠ "Double")
    (hv : v'.inhabits name H = true) : v.inhabits name H = true := by
  rcases h with (_ | @⟨identity, type, d, hd⟩) | _
  · exact hv
  · rwa [inhabits_double hd identity, beq_false_of_ne hname, Bool.false_or] at hv
  · exact hv

private theorem ReplacedWithin.isNil_eq (h : v.ReplacedWithin v') : v'.isNil = v.isNil := by
  rcases h with (_ | _) | _ <;> rfl

private theorem EntriesReplacedBy.keys_eq {entries entries' : List (Value × Value)}
    (h : EntriesReplacedBy entries entries') : entries'.map (·.1) = entries.map (·.1) := by
  induction h with
  | nil => rfl
  | cons hentry _ ih => rw [List.map_cons, List.map_cons, hentry.1, ih]

/-- The form in which named arguments travel is kept. -/
theorem ReplacedWithin.isNamedArguments_eq (h : v.ReplacedWithin v') :
    v'.isNamedArguments = v.isNamedArguments := by
  rcases h with (_ | _) | @⟨entries, entries', h⟩
  · rfl
  · rfl
  · have hkeys (entries : List (Value × Value)) : (map entries).isNamedArguments =
        (!(entries.map (·.1)).isEmpty && (entries.map (·.1)).all isSymbol) := by
      rw [isNamedArguments, List.isEmpty_map, List.all_map]
      rfl
    rw [hkeys, hkeys, h.keys_eq]

private theorem ReplacedWithin.entries? (h : v.ReplacedWithin v') :
    EntriesReplacedBy (v.entries?.getD []) (v'.entries?.getD []) := by
  rcases h with (_ | _) | h
  · exact .refl _
  · exact .refl _
  · exact h

end Value

/-! ### Type expressions -/

namespace TypeExpr

section

variable {v v' : Value} {receiver : TypeName} {H : Hierarchy}

mutual

/-- What accepts a value accepts every other one that inhabits the types in question if the value
does. -/
theorem accepts_of_inhabits (hnil : v.isNil = true → v'.isNil = true) : (t : TypeExpr) →
    (∀ name ∈ receiver :: t.references, v.inhabits name H = true → v'.inhabits name H = true) →
    t.accepts v receiver H = true → t.accepts v' receiver H = true
  | .untyped, _, h => h
  | .self, hnames, h => by
    rw [accepts] at h ⊢
    exact hnames receiver (List.mem_cons_self ..) h
  | .named name, hnames, h => by
    rw [accepts] at h ⊢
    exact hnames name (List.mem_cons_of_mem _ (List.mem_singleton_self name)) h
  | .optional inner, hnames, h => by
    rw [accepts, Bool.or_eq_true] at h ⊢
    rw [references] at hnames
    exact h.imp hnil (accepts_of_inhabits hnil inner hnames)
  | .union members, hnames, h => by
    rw [accepts] at h ⊢
    rw [references] at hnames
    exact anyAccepts_of_inhabits hnil members hnames h

theorem anyAccepts_of_inhabits (hnil : v.isNil = true → v'.isNil = true) : (ts : List TypeExpr) →
    (∀ name ∈ receiver :: allReferences ts,
      v.inhabits name H = true → v'.inhabits name H = true) →
    anyAccepts v receiver H ts = true → anyAccepts v' receiver H ts = true
  | [], _, h => h
  | t :: ts, hnames, h => by
    rw [anyAccepts, Bool.or_eq_true] at h ⊢
    rw [allReferences] at hnames
    have hfirst : receiver :: t.references ⊆ receiver :: (t.references ++ allReferences ts) :=
      List.cons_subset_cons _ (List.subset_append_left ..)
    have hothers : receiver :: allReferences ts ⊆ receiver :: (t.references ++ allReferences ts) :=
      List.cons_subset_cons _ (List.subset_append_right ..)
    exact h.imp (accepts_of_inhabits hnil t fun name hname => hnames name (hfirst hname))
      (anyAccepts_of_inhabits hnil ts fun name hname => hnames name (hothers hname))

end

/-- What is replaced is accepted where it was before. -/
theorem accepts_of_replacedWithin (h : v.ReplacedWithin v') (t : TypeExpr)
    (hv : t.accepts v receiver H = true) : t.accepts v' receiver H = true :=
  accepts_of_inhabits (fun hnil => h.isNil_eq.trans hnil) t (fun _ _ => h.inhabits) hv

/-- Where no double is asked for, what is replaced was accepted before if it is now. -/
theorem accepts_of_accepts_replacedWithin (h : v.ReplacedWithin v') {t : TypeExpr}
    (hreceiver : receiver ≠ "Double") (ht : "Double" ∉ t.references)
    (hv : t.accepts v' receiver H = true) : t.accepts v receiver H = true := by
  refine accepts_of_inhabits (fun hnil => h.isNil_eq.symm.trans hnil) t (fun name hname => ?_) hv
  refine h.of_inhabits fun hdouble => ?_
  rw [hdouble, List.mem_cons] at hname
  exact hname.elim (fun heq => hreceiver heq.symm) ht

end

end TypeExpr

/-! ### Calls -/

private theorem forall₂_getElem? {α β : Type} {R : α → β → Prop} {as : List α} {bs : List β}
    (h : List.Forall₂ R as bs) (i : Nat) : Option.Rel R as[i]? bs[i]? := by
  induction h generalizing i with
  | nil => exact .none
  | cons hab _ ih => cases i with
    | zero => exact .some hab
    | succ i => exact ih i

private theorem exists_of_forall₂_getElem? {α β : Type} {R : α → β → Prop} {as : List α}
    {bs : List β} {i : Nat} {b : β} (h : List.Forall₂ R as bs) (hb : bs[i]? = some b) :
    ∃ a, as[i]? = some a ∧ R a b := by
  have hrel := forall₂_getElem? h i
  rw [hb] at hrel
  generalize as[i]? = oa at hrel ⊢
  cases hrel with
  | some hab => exact ⟨_, rfl, hab⟩

/-- Arguments and the result of a call are replaced, and all else is left as it is. -/
structure Call.ReplacedBy (c c' : Call) : Prop where
  arguments : List.Forall₂ Value.ReplacedWithin c.arguments c'.arguments
  result : Option.Rel Value.ReplacedBy c.result c'.result
  others : c' = { c with arguments := c'.arguments, result := c'.result }

namespace Signature

variable {s : Signature} {c : Call} {H : Hierarchy}

/-- The type expressions of a signature. -/
def types (s : Signature) : List TypeExpr :=
  s.positional.map (·.type) ++ s.named.map (·.type) ++ s.rest.toList ++ s.namedRest.toList ++
    [s.returns]

private theorem mem_references {name : TypeName} :
    name ∈ s.references ↔ ∃ t ∈ s.types, name ∈ t.references := by
  rw [references, List.mem_mergeSort, List.mem_eraseDups, types]
  simp only [← List.mem_flatMap, List.flatMap_append, List.flatMap_map, List.flatMap_singleton]

private theorem ExpectsAt.mem_types {index : Nat} {t : TypeExpr} (h : s.ExpectsAt index t) :
    t ∈ s.types := by
  simp only [types, List.mem_append]
  cases h with
  | slot h => exact .inl (.inl (.inl (.inl (List.mem_map_of_mem (List.mem_of_getElem? h)))))
  | rest _ hrest => exact .inl (.inl (.inr (Option.mem_toList.mpr hrest)))

private theorem ExpectsOf.mem_types {name : String} {t : TypeExpr} (h : s.ExpectsOf name t) :
    t ∈ s.types := by
  simp only [types, List.mem_append]
  cases h with
  | declared h => exact .inl (.inl (.inl (.inr (List.mem_map_of_mem (by simp [h])))))
  | other _ hrest => exact .inl (.inr (Option.mem_toList.mpr hrest))

/-- A call agrees with a signature if it has been made from one that does, and whatever was accepted
before of arguments and result is accepted still. -/
theorem Agrees.of_forall₂ {R : Value → Value → Prop} {c c' : Call} {vs vs' : List Value}
    {entries entries' : List (Value × Value)}
    (hR : ∀ t ∈ s.types, ∀ v v', R v v' →
      t.accepts v c.target.type H = true → t.accepts v' c.target.type H = true)
    (h : s.Agrees H c vs entries) (hvs : List.Forall₂ R vs vs')
    (hentries : List.Forall₂ (fun entry entry' => entry.1 = entry'.1 ∧ R entry.2 entry'.2)
      entries entries')
    (hresult : R c.resultOrNil c'.resultOrNil) (htarget : c'.target = c.target)
    (hmethod : c'.method = c.method) (hraised : c'.raised = c.raised) :
    s.Agrees H c' vs' entries' := by
  refine ⟨hvs.length_eq ▸ h.arity, fun i v' hv' => ?_, fun entry' hentry' => ?_,
    fun p hp hrequired => ?_, fun hconstructor hnone => ?_⟩
  · obtain ⟨v, hv, hvv'⟩ := exists_of_forall₂_getElem? hvs hv'
    obtain ⟨t, ht, haccepts⟩ := h.positional i v hv
    exact ⟨t, ht, htarget ▸ hR t ht.mem_types v v' hvv' haccepts⟩
  · obtain ⟨i, hi⟩ := List.mem_iff_getElem?.mp hentry'
    obtain ⟨entry, hentry, hkey, hvv'⟩ := exists_of_forall₂_getElem? hentries hi
    obtain ⟨t, ht, haccepts⟩ := h.named entry (List.mem_of_getElem? hentry)
    exact ⟨t, hkey ▸ ht, htarget ▸ hR t ht.mem_types _ _ hvv' haccepts⟩
  · obtain ⟨entry, hentry, hname⟩ := h.required p hp hrequired
    obtain ⟨i, hi⟩ := List.mem_iff_getElem?.mp hentry
    have hflip := List.Forall₂.flip (R := fun entry' entry : Value × Value =>
      entry.1 = entry'.1 ∧ R entry.2 entry'.2) hentries
    obtain ⟨entry', hentry', hkey, -⟩ := exists_of_forall₂_getElem? hflip hi
    exact ⟨entry', List.mem_of_getElem? hentry', hkey ▸ hname⟩
  · rw [Call.isConstructor, hmethod] at hconstructor
    rw [htarget]
    exact hR _ (by simp [types]) _ _ hresult (h.result hconstructor (hraised.symm.trans hnone))

end Signature

namespace Call.ReplacedBy

variable {c c' : Call} (h : c.ReplacedBy c')
include h

theorem resultOrNil : c.resultOrNil.ReplacedWithin c'.resultOrNil := by
  have hresult := h.result
  rw [Call.resultOrNil, Call.resultOrNil]
  generalize c.result = result, c'.result = result' at hresult ⊢
  cases hresult with
  | none => exact .value (.itself .nil)
  | some hv => exact .value hv

private theorem namedFlag_eq : c'.namedFlag = c.namedFlag := by
  rw [h.others]

private theorem arguments_eq_nil_iff : c'.arguments = [] ↔ c.arguments = [] := by
  rw [← List.length_eq_zero_iff, ← List.length_eq_zero_iff, h.arguments.length_eq]

private theorem isWellFlagged_iff : c'.IsWellFlagged ↔ c.IsWellFlagged := by
  rw [Call.IsWellFlagged, Call.IsWellFlagged, h.namedFlag_eq, ne_eq, ne_eq, h.arguments_eq_nil_iff]

/-- The last argument is replaced as every other. -/
theorem getLast? : Option.Rel Value.ReplacedWithin c.arguments.getLast? c'.arguments.getLast? := by
  rw [List.getLast?_eq_getElem?, List.getLast?_eq_getElem?, ← h.arguments.length_eq]
  exact forall₂_getElem? h.arguments _

private theorem any_isNamedArguments : c'.arguments.getLast?.any Value.isNamedArguments =
    c.arguments.getLast?.any Value.isNamedArguments := by
  have hlast := h.getLast?
  generalize c.arguments.getLast? = last, c'.arguments.getLast? = last' at hlast ⊢
  cases hlast with
  | none => rfl
  | some hv => exact hv.isNamedArguments_eq

private theorem takesLast_eq (s : Signature) : s.takesLast c' = s.takesLast c := by
  have hshape : c'.shape = c.shape := by rw [h.others]
  rw [Signature.takesLast, Signature.takesLast, Call.hasNamed, Call.hasNamed, h.namedFlag_eq,
    hshape, h.any_isNamedArguments, h.arguments.length_eq]

private theorem lastEntries : Value.EntriesReplacedBy c.lastEntries c'.lastEntries := by
  have hlast := h.getLast?
  rw [Call.lastEntries, Call.lastEntries]
  generalize c.arguments.getLast? = last, c'.arguments.getLast? = last' at hlast ⊢
  cases hlast with
  | none => exact .refl []
  | some hv => exact hv.entries?

/-- The arguments of both calls are separated at the same place. -/
theorem exists_separateArguments (s : Signature) (hflagged : c.IsWellFlagged) :
    ∃ vs entries vs' entries', s.separateArguments c = .ok (vs, entries) ∧
      s.separateArguments c' = .ok (vs', entries') ∧
      List.Forall₂ Value.ReplacedWithin vs vs' ∧ Value.EntriesReplacedBy entries entries' := by
  rw [s.separateArguments_eq hflagged, s.separateArguments_eq (h.isWellFlagged_iff.mpr hflagged),
    h.takesLast_eq]
  split_ifs
  · refine ⟨_, _, _, _, rfl, rfl, ?_, h.lastEntries⟩
    rw [List.dropLast_eq_take, List.dropLast_eq_take, ← h.arguments.length_eq]
    exact List.forall₂_take _ h.arguments
  · exact ⟨_, _, _, _, rfl, rfl, h.arguments, .refl []⟩

end Call.ReplacedBy

/-! ### Checks -/

/-- **Doubles stand in for objects.** If a call is in accord with a signature, it remains so when
objects among its arguments, the values of its keywords and its result are replaced by instance
doubles of their types. If the signature mentions doubles nowhere and the receiver is none, the
call with the doubles is in accord with it only if the call with the objects is. -/
theorem Signature.check_of_replacedBy {c c' : Call} (s : Signature) (H : Hierarchy)
    (h : c.ReplacedBy c') :
    (s.check c H = .ok none → s.check c' H = .ok none) ∧
    ("Double" ∉ s.references → c.target.type ≠ "Double" →
      s.check c' H = .ok none → s.check c H = .ok none) := by
  have htarget : c'.target = c.target := by rw [h.others]
  have hmethod : c'.method = c.method := by rw [h.others]
  have hraised : c'.raised = c.raised := by rw [h.others]
  constructor
  · intro hcheck
    obtain ⟨vs, entries, vs', entries', harguments, harguments', hvs, hentries⟩ :=
      h.exists_separateArguments s (Call.isWellFlagged_of_check hcheck)
    have hagrees := (Signature.check_eq_none_iff harguments H).mp hcheck
    refine (Signature.check_eq_none_iff harguments' H).mpr (hagrees.of_forall₂
      (fun t _ v v' hv => TypeExpr.accepts_of_replacedWithin hv t) hvs ?_ h.resultOrNil
      htarget hmethod hraised)
    exact hentries.imp fun _ _ hentry => ⟨hentry.1, .value hentry.2⟩
  · intro hdouble hreceiver hcheck
    have hflagged := h.isWellFlagged_iff.mp (Call.isWellFlagged_of_check hcheck)
    obtain ⟨vs, entries, vs', entries', harguments, harguments', hvs, hentries⟩ :=
      h.exists_separateArguments s hflagged
    have hagrees := (Signature.check_eq_none_iff harguments' H).mp hcheck
    rw [← htarget] at hreceiver
    refine (Signature.check_eq_none_iff harguments H).mpr (hagrees.of_forall₂
      (R := fun v' v => v.ReplacedWithin v') (fun t ht v' v hv => ?_) hvs.flip ?_ h.resultOrNil
      htarget.symm hmethod.symm hraised.symm)
    · exact TypeExpr.accepts_of_accepts_replacedWithin hv hreceiver
        fun hname => hdouble (Signature.mem_references.mpr ⟨t, ht, hname⟩)
    · exact List.Forall₂.flip (hentries.imp fun _ _ hentry => ⟨hentry.1.symm, .value hentry.2⟩)

/-- A calculator or a number is handed over to an accountant. -/
def handingOver : Signature :=
  { Signature.returning .self with
    positional := [⟨.union [.optional (.named "Integer"), .named "TaxCalculator"], false⟩]
    named := [⟨"to", .optional (.named "Accountant"), true⟩] }

/-- An accountant hands over what is given to somebody, and somebody is returned. -/
def handOver (given receiver result : Value) : Call :=
  { target := .instances "Accountant"
    method := "hand_over"
    arguments := [given, .map [(.symbol "to", receiver)]]
    result := some result }

theorem check_handOver :
    let c := handOver (.object 1 "TaxCalculator") (.object 2 "Accountant") (.object 3 "Accountant")
    let c' := handOver (.double ⟨4, none, .instanceOf "TaxCalculator"⟩)
      (.double ⟨5, none, .instanceOf "Accountant"⟩)
      (.double ⟨6, some "junior", .instanceOf "Accountant"⟩)
    c.ReplacedBy c' ∧ "Double" ∉ handingOver.references ∧ c.target.type ≠ "Double" ∧
      handingOver.check c .builtin = .ok none ∧ handingOver.check c' .builtin = .ok none := by
  intro c c'
  have hreplaced : c.ReplacedBy c' :=
    { arguments :=
        .cons (.value (.double rfl)) (.cons (.values (.cons ⟨rfl, .double rfl⟩ .nil)) .nil)
      result := .some (.double rfl)
      others := rfl }
  have hdouble : "Double" ∉ handingOver.references := by
    rw [Signature.mem_references]
    decide
  have hreceiver : c.target.type ≠ "Double" := by decide
  have hcheck : handingOver.check c .builtin = .ok none := by rfl
  obtain ⟨hforth, hback⟩ := Signature.check_of_replacedBy handingOver .builtin hreplaced
  have hcheck' := hforth hcheck
  exact ⟨hreplaced, hdouble, hreceiver, hback hdouble hreceiver hcheck', hcheck'⟩

/-- Where a double is asked for, an object of its type will not do. -/
example :
    let s := Signature.returning (.named "Double")
    let c : Call := { target := .instances "Accountant", method := "successor", arguments := [] }
    let accountant := Value.object 1 "Accountant"
    s.check { c with result := some (.double ⟨2, none, .instanceOf "Accountant"⟩) } .builtin =
        .ok none ∧
      s.check { c with result := some accountant } .builtin =
        .ok (some ⟨"Accountant#successor", [.returnType (.named "Double") accountant]⟩) :=
  ⟨rfl, rfl⟩

end MockAudit
