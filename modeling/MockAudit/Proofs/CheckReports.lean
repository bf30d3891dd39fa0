import MockAudit.Proofs.NamedFlags
import Mathlib.Data.List.Basic
import Mathlib.Data.Prod.Lex

/-!
# Reports of a check

A signature puts conditions on the arguments and the result of a call. A call that meets them all
passes its check, and a call that does not is reported with every condition it breaks
(`Signature.check_reports`). There is a condition on the number of the positional arguments, one on
each of them, one on each named argument, one for each keyword parameter and one on the result, and
this is the order in which they are reported. Each of them is broken in one way at most. That they
are all looked at, whatever was found before, has one exception: if the number of the positional
arguments is wrong, there is no saying which parameters they belong to, and their types are no
matter.

The conditions are stated of the signature as it is written, by relations that know nothing of the
way in which a check proceeds. What a check finds is then compared with the list of all conditions
in the order of the report: the violations are what one gets by asking of each condition in turn
whether it is broken.

## Main definitions

* `Signature.ExpectsAt`, `Signature.ExpectsOf`: the types of positional and named arguments.
* `Signature.Agrees`: a call meets all conditions of a signature.
* `Signature.Condition`, `Signature.Breaks`: the conditions one by one, and how they are broken.

## Main results

* `Signature.breach?_eq_some_iff`: asking a condition whether it is broken.
* `Signature.violations_eq`: a check finds what is in the report.
* `Signature.agrees_iff`: a call agrees with a signature if it breaks no condition.
* `Signature.check_reports`: what a check answers.
-/

namespace MockAudit

namespace Signature

/-! ### What a signature asks for -/

/-- The type that is expected of the positional argument at an index: that of the parameter there,
or behind the last parameter that of the rest. -/
inductive ExpectsAt (s : Signature) (index : Nat) : TypeExpr → Prop
  | slot {p : OrderedParam} (h : s.positional[index]? = some p) : ExpectsAt s index p.type
  | rest {t : TypeExpr} (h : s.positional.length ≤ index) (hrest : s.rest = some t) :
    ExpectsAt s index t

/-- The type that is expected of the value of a keyword: that of the first parameter with this
name, or if there is none that of the other keywords. -/
inductive ExpectsOf (s : Signature) (name : String) : TypeExpr → Prop
  | declared {before after : List KeywordParam} {p : KeywordParam}
    (h : s.named = before ++ p :: after) (hname : p.name = name)
    (hfirst : ∀ q ∈ before, q.name ≠ name) : ExpectsOf s name p.type
  | other {t : TypeExpr} (h : ∀ p ∈ s.named, p.name ≠ name) (hrest : s.namedRest = some t) :
    ExpectsOf s name t

/-- Whether so many positional arguments may be given: one for each parameter that is not optional,
and without a rest no more than there are parameters. -/
def TakesCount (s : Signature) (count : Nat) : Prop :=
  s.positional.countP (!·.isOptional) ≤ count ∧ (s.rest = none → count ≤ s.positional.length)

theorem positionalType?_eq_some_iff {s : Signature} {index : Nat} {t : TypeExpr} :
    s.positionalType? index = some t ↔ s.ExpectsAt index t := by
  rw [positionalType?]
  cases hslot : s.positional[index]? with
  | none =>
    rw [Option.map_none, Option.none_or]
    refine ⟨.rest (List.getElem?_eq_none_iff.mp hslot), fun h => ?_⟩
    cases h with
    | slot h => cases hslot.symm.trans h
    | rest h hrest => exact hrest
  | some p =>
    rw [Option.map_some, Option.some_or, Option.some_inj]
    constructor
    · rintro rfl
      exact .slot hslot
    · rintro (h | ⟨h, -⟩)
      · rw [Option.some.inj (hslot.symm.trans h)]
      · cases hslot.symm.trans (List.getElem?_eq_none_iff.mpr h)

theorem keywordType?_eq_some_iff {s : Signature} {name : String} {t : TypeExpr} :
    s.keywordType? name = some t ↔ s.ExpectsOf name t := by
  rw [keywordType?]
  cases hfind : s.named.find? (·.name == name) with
  | none =>
    have hnone : ∀ p ∈ s.named, p.name ≠ name := by simpa using hfind
    rw [Option.map_none, Option.none_or]
    refine ⟨.other hnone, fun h => ?_⟩
    cases h with
    | declared h hname hfirst => exact absurd hname (hnone _ (by rw [h]; simp))
    | other h hrest => exact hrest
  | some p =>
    obtain ⟨hname, before, after, hsplit, hfirst⟩ := List.find?_eq_some_iff_append.mp hfind
    rw [Option.map_some, Option.some_or, Option.some_inj]
    constructor
    · rintro rfl
      exact .declared hsplit (by simpa using hname) (by simpa using hfirst)
    · rintro (@⟨before', after', q, hsplit', hname', hfirst'⟩ | ⟨hnone, -⟩)
      · have hfind' : s.named.find? (·.name == name) = some q :=
          List.find?_eq_some_iff_append.mpr
            ⟨by simpa using hname', before', after', hsplit', by simpa using hfirst'⟩
        rw [Option.some.inj (hfind.symm.trans hfind')]
      · exact absurd (by simpa using hname) (hnone p (by rw [hsplit]; simp))

theorem fitsArity_iff {s : Signature} {count : Nat} :
    s.fitsArity count = true ↔ s.TakesCount count := by
  rw [fitsArity, TakesCount, leastPositional]
  cases s.rest <;> simp

/-- If their number is right, there is a type for each of the positional arguments. -/
theorem TakesCount.exists_expectsAt {s : Signature} {count index : Nat} (h : s.TakesCount count)
    (hindex : index < count) : ∃ t, s.ExpectsAt index t := by
  rcases Nat.lt_or_ge index s.positional.length with hslot | hbehind
  · exact ⟨_, .slot (List.getElem?_eq_getElem hslot)⟩
  · cases hrest : s.rest with
    | none => exact absurd (h.2 hrest) (by omega)
    | some t => exact ⟨t, .rest hbehind hrest⟩

section

variable (s : Signature) (H : Hierarchy) (c : Call) (vs : List Value)
  (entries : List (Value × Value))

/-- A call with the given positional and named arguments meets all conditions of a signature. -/
structure Agrees : Prop where
  arity : s.TakesCount vs.length
  positional : ∀ i v, vs[i]? = some v → ∃ t, s.ExpectsAt i t ∧ t.accepts v c.target.type H = true
  named : ∀ entry ∈ entries,
    ∃ t, s.ExpectsOf (keyName entry.1) t ∧ t.accepts entry.2 c.target.type H = true
  required : ∀ p ∈ s.named, p.isRequired = true → ∃ entry ∈ entries, keyName entry.1 = p.name
  result : c.isConstructor = false → c.raised = none →
    s.returns.accepts c.resultOrNil c.target.type H = true

end

/-! ### The conditions one by one -/

/-- The conditions that a signature puts on a call: on the number of the positional arguments, on
each of them, on each named argument, for each keyword parameter, and on the result. -/
inductive Condition
  | arity
  | argument (index : Nat)
  | keyword (index : Nat)
  | requirement (index : Nat)
  | result

/-- The place of a condition in a report: the kind of condition comes before the index. -/
def Condition.place : Condition → ℕ ×ₗ ℕ
  | arity => toLex (0, 0)
  | argument index => toLex (1, index)
  | keyword index => toLex (2, index)
  | requirement index => toLex (3, index)
  | result => toLex (4, 0)

section

variable (s : Signature) (H : Hierarchy) (c : Call) (vs : List Value)
  (entries : List (Value × Value))

/-- How a call breaks a condition. The types of the positional arguments are of no matter if there
are too few or too many of them. -/
inductive Breaks : Condition → Violation → Prop
  | arity (h : ¬ s.TakesCount vs.length) : Breaks .arity (.arity s.paramsText vs.length)
  | argument {i : Nat} {v : Value} {t : TypeExpr} (harity : s.TakesCount vs.length)
    (hv : vs[i]? = some v) (ht : s.ExpectsAt i t) (h : t.accepts v c.target.type H = false) :
    Breaks (.argument i) (.argumentType (.positional i) t v)
  | unknownKeyword {i : Nat} {entry : Value × Value} (hentry : entries[i]? = some entry)
    (h : ∀ t, ¬ s.ExpectsOf (keyName entry.1) t) :
    Breaks (.keyword i) (.unknownKeyword (keyName entry.1))
  | keyword {i : Nat} {entry : Value × Value} {t : TypeExpr} (hentry : entries[i]? = some entry)
    (ht : s.ExpectsOf (keyName entry.1) t) (h : t.accepts entry.2 c.target.type H = false) :
    Breaks (.keyword i) (.argumentType (.keyword (keyName entry.1)) t entry.2)
  | requirement {i : Nat} {p : KeywordParam} (hp : s.named[i]? = some p)
    (hrequired : p.isRequired = true) (h : ∀ entry ∈ entries, keyName entry.1 ≠ p.name) :
    Breaks (.requirement i) (.missingKeyword p.name)
  | result (hconstructor : c.isConstructor = false) (hraised : c.raised = none)
    (h : s.returns.accepts c.resultOrNil c.target.type H = false) :
    Breaks .result (.returnType s.returns c.resultOrNil)

/-- A call agrees with a signature if it breaks no condition. -/
theorem agrees_iff : s.Agrees H c vs entries ↔ ∀ p v, ¬ s.Breaks H c vs entries p v := by
  constructor
  · rintro hagrees p v (h | ⟨-, hv, ht, h⟩ | ⟨hentry, h⟩ | ⟨hentry, ht, h⟩ | ⟨hp, hrequired, h⟩ |
      ⟨hconstructor, hraised, h⟩)
    · exact h hagrees.arity
    · obtain ⟨t, ht', haccepts⟩ := hagrees.positional _ _ hv
      have heq := (positionalType?_eq_some_iff.mpr ht).symm.trans
        (positionalType?_eq_some_iff.mpr ht')
      rw [← Option.some.inj heq, h] at haccepts
      cases haccepts
    · obtain ⟨t, ht, -⟩ := hagrees.named _ (List.mem_of_getElem? hentry)
      exact h t ht
    · obtain ⟨t, ht', haccepts⟩ := hagrees.named _ (List.mem_of_getElem? hentry)
      have heq := (keywordType?_eq_some_iff.mpr ht).symm.trans (keywordType?_eq_some_iff.mpr ht')
      rw [← Option.some.inj heq, h] at haccepts
      cases haccepts
    · obtain ⟨entry, hentry, hname⟩ := hagrees.required _ (List.mem_of_getElem? hp) hrequired
      exact h entry hentry hname
    · rw [hagrees.result hconstructor hraised] at h
      cases h
  · intro h
    have harity : s.TakesCount vs.length := by
      by_contra harity
      exact h _ _ (.arity harity)
    refine ⟨harity, fun i v hv => ?_, fun entry hentry => ?_, fun p hp hrequired => ?_,
      fun hconstructor hraised => ?_⟩
    · obtain ⟨t, ht⟩ := harity.exists_expectsAt (List.getElem?_eq_some_iff.mp hv).1
      refine ⟨t, ht, Bool.eq_true_of_not_eq_false fun hrefused => ?_⟩
      exact h _ _ (.argument harity hv ht hrefused)
    · obtain ⟨i, hi⟩ := List.getElem?_of_mem hentry
      by_cases hexpects : ∃ t, s.ExpectsOf (keyName entry.1) t
      · obtain ⟨t, ht⟩ := hexpects
        refine ⟨t, ht, Bool.eq_true_of_not_eq_false fun hrefused => ?_⟩
        exact h _ _ (.keyword hi ht hrefused)
      · exact absurd (.unknownKeyword hi (not_exists.mp hexpects)) (h _ _)
    · obtain ⟨i, hi⟩ := List.getElem?_of_mem hp
      by_contra hmissing
      push Not at hmissing
      exact h _ _ (.requirement hi hrequired hmissing)
    · refine Bool.eq_true_of_not_eq_false fun hrefused => ?_
      exact h _ _ (.result hconstructor hraised hrefused)

/-! ### Asking the conditions in their order -/

/-- The conditions on a call with the given arguments, in the order of the report. -/
def conditions : List Condition :=
  .arity :: ((List.range vs.length).map .argument ++ ((List.range entries.length).map .keyword ++
    ((List.range s.named.length).map .requirement ++ [.result])))

/-- The violation of the condition on a positional argument. -/
def argumentViolation (index : Nat) (v : Value) : Option Violation :=
  (s.positionalType? index).bind fun expected =>
    if expected.accepts v c.target.type H then none
    else some (.argumentType (.positional index) expected v)

/-- The violation of the condition that a required keyword is given. -/
def requirementViolation (p : KeywordParam) : Option Violation :=
  if p.isRequired && !(entries.map (keyName ·.1)).contains p.name then
    some (.missingKeyword p.name)
  else none

/-- What is wrong with a condition, if anything. -/
def breach? : Condition → Option Violation
  | .arity =>
    if s.fitsArity vs.length then none else some (.arity s.paramsText vs.length)
  | .argument i =>
    if s.fitsArity vs.length then vs[i]?.bind (s.argumentViolation H c i) else none
  | .keyword i => entries[i]?.bind (s.keywordViolation c.target.type H)
  | .requirement i => s.named[i]?.bind (requirementViolation entries)
  | .result => s.returnViolation c.target.type H c

/-- The broken conditions in their order, each with its violation. -/
def report : List (Condition × Violation) :=
  (s.conditions vs entries).filterMap fun p => (s.breach? H c vs entries p).map (p, ·)

/-- Asking a condition tells how it is broken, if it is. -/
theorem breach?_eq_some_iff {p : Condition} {v : Violation} :
    s.breach? H c vs entries p = some v ↔ s.Breaks H c vs entries p v := by
  cases p with
  | arity =>
    rw [breach?]
    split_ifs with hfits
    · refine iff_of_false (fun h => nomatch h) ?_
      rintro ⟨h⟩
      exact h (fitsArity_iff.mp hfits)
    · rw [Option.some_inj]
      constructor
      · rintro rfl
        exact .arity (mt fitsArity_iff.mpr hfits)
      · rintro ⟨-⟩
        rfl
  | argument i =>
    rw [breach?]
    split_ifs with hfits
    · simp only [Option.bind_eq_some_iff, argumentViolation, positionalType?_eq_some_iff,
        Option.ite_none_left_eq_some, Bool.not_eq_true, Option.some_inj]
      constructor
      · rintro ⟨actual, hv, expected, ht, hrefused, rfl⟩
        exact .argument (fitsArity_iff.mp hfits) hv ht hrefused
      · rintro (h | ⟨-, hv, ht, hrefused⟩)
        exact ⟨_, hv, _, ht, hrefused, rfl⟩
    · refine iff_of_false (fun h => nomatch h) ?_
      rintro (h | ⟨harity, -⟩)
      exact hfits (fitsArity_iff.mpr harity)
  | keyword i =>
    rw [breach?, Option.bind_eq_some_iff]
    constructor
    · rintro ⟨entry, hentry, hviolation⟩
      rw [keywordViolation] at hviolation
      cases htype : s.keywordType? (keyName entry.1) with
      | none =>
        simp only [htype, Option.some_inj] at hviolation
        rw [← hviolation]
        refine .unknownKeyword hentry fun t ht => ?_
        cases htype.symm.trans (keywordType?_eq_some_iff.mpr ht)
      | some expected =>
        simp only [htype, Option.ite_none_left_eq_some, Bool.not_eq_true, Option.some_inj]
          at hviolation
        rw [← hviolation.2]
        exact .keyword hentry (keywordType?_eq_some_iff.mp htype) hviolation.1
    · rintro (h | h | @⟨_, entry, hentry, hnone⟩ | @⟨_, entry, t, hentry, ht, hrefused⟩)
      · have htype : s.keywordType? (keyName entry.1) = none :=
          Option.eq_none_iff_forall_ne_some.mpr fun t ht => hnone t (keywordType?_eq_some_iff.mp ht)
        exact ⟨entry, hentry, by simp only [keywordViolation, htype]⟩
      · have htype := keywordType?_eq_some_iff.mpr ht
        exact ⟨entry, hentry, by simp only [keywordViolation, htype, hrefused]; rfl⟩
  | requirement i =>
    simp only [breach?, Option.bind_eq_some_iff, requirementViolation,
      Option.ite_none_right_eq_some, Bool.and_eq_true, Bool.not_eq_true', Option.some_inj]
    constructor
    · rintro ⟨p, hp, ⟨hrequired, hgiven⟩, rfl⟩
      refine .requirement hp hrequired fun entry hentry hname => ?_
      have hmem : p.name ∈ entries.map (keyName ·.1) := hname ▸ List.mem_map_of_mem hentry
      rw [List.contains_iff_mem.mpr hmem] at hgiven
      cases hgiven
    · rintro (h | h | h | h | @⟨_, p, hp, hrequired, hmissing⟩)
      refine ⟨p, hp, ⟨hrequired, Bool.eq_false_iff.mpr fun hgiven => ?_⟩, rfl⟩
      obtain ⟨entry, hentry, hname⟩ := List.mem_map.mp (List.contains_iff_mem.mp hgiven)
      exact hmissing entry hentry hname
  | result =>
    rw [breach?, returnViolation]
    simp only [Option.ite_none_left_eq_some, Bool.not_eq_true, Bool.or_eq_false_iff,
      Option.isSome_eq_false_iff, Option.isNone_iff_eq_none, Option.some_inj]
    constructor
    · rintro ⟨⟨⟨hconstructor, hraised⟩, hrefused⟩, rfl⟩
      exact .result hconstructor hraised hrefused
    · rintro (h | h | h | h | h | ⟨hconstructor, hraised, hrefused⟩)
      exact ⟨⟨⟨hconstructor, hraised⟩, hrefused⟩, rfl⟩

/-- Only the conditions of a call can be broken. -/
theorem mem_conditions {p : Condition} {v : Violation} (h : s.Breaks H c vs entries p v) :
    p ∈ s.conditions vs entries := by
  have hindex {α : Type} {as : List α} {i : Nat} {a : α} (ha : as[i]? = some a)
      (condition : Nat → Condition) : condition i ∈ (List.range as.length).map condition :=
    List.mem_map_of_mem (List.mem_range.mpr (List.getElem?_eq_some_iff.mp ha).1)
  simp only [conditions, List.mem_cons, List.mem_append, List.not_mem_nil, or_false]
  cases h with
  | arity => exact .inl rfl
  | argument _ hv => exact .inr (.inl (hindex hv _))
  | unknownKeyword hentry => exact .inr (.inr (.inl (hindex hentry _)))
  | keyword hentry => exact .inr (.inr (.inl (hindex hentry _)))
  | requirement hp => exact .inr (.inr (.inr (.inl (hindex hp _))))
  | result => exact .inr (.inr (.inr (.inr rfl)))

/-- The conditions come in the order of their places. -/
theorem pairwise_conditions :
    (s.conditions vs entries).Pairwise fun p q => p.place < q.place := by
  have hrange (n : Nat) {condition : Nat → Condition} {kind : Nat}
      (hplace : ∀ i, (condition i).place = toLex (kind, i)) :
      ((List.range n).map condition).Pairwise fun p q => p.place < q.place := by
    rw [List.pairwise_map]
    refine List.pairwise_lt_range.imp fun hlt => ?_
    rw [hplace, hplace, Prod.Lex.toLex_lt_toLex]
    exact .inr ⟨rfl, hlt⟩
  have hkind {kind kind' i i' : Nat} (hlt : kind < kind') : toLex (kind, i) < toLex (kind', i') :=
    Prod.Lex.toLex_lt_toLex.mpr (.inl hlt)
  simp only [conditions, List.pairwise_cons, List.pairwise_append, List.mem_append, List.mem_map,
    List.mem_singleton]
  refine ⟨?_, hrange _ fun _ => rfl, ⟨hrange _ fun _ => rfl, ⟨hrange _ fun _ => rfl,
    ⟨fun _ h => (nomatch h), .nil⟩, ?_⟩, ?_⟩, ?_⟩
  · rintro _ (⟨_, -, rfl⟩ | ⟨_, -, rfl⟩ | ⟨_, -, rfl⟩ | rfl) <;> exact hkind (by decide)
  · rintro _ ⟨_, -, rfl⟩ _ rfl
    exact hkind (by decide)
  · rintro _ ⟨_, -, rfl⟩ _ (⟨_, -, rfl⟩ | rfl) <;> exact hkind (by decide)
  · rintro _ ⟨_, -, rfl⟩ _ (⟨_, -, rfl⟩ | ⟨_, -, rfl⟩ | rfl) <;> exact hkind (by decide)

/-! ### The report -/

/-- A report has nothing in it but the broken conditions, and all of them. -/
theorem mem_report_iff {p : Condition} {v : Violation} :
    (p, v) ∈ s.report H c vs entries ↔ s.Breaks H c vs entries p v := by
  rw [report, List.mem_filterMap, ← breach?_eq_some_iff]
  constructor
  · rintro ⟨q, -, hq⟩
    obtain ⟨w, hw, heq⟩ := Option.map_eq_some_iff.mp hq
    obtain ⟨rfl, rfl⟩ := Prod.mk.inj heq
    exact hw
  · intro hbreach
    have hbreaks := (s.breach?_eq_some_iff H c vs entries).mp hbreach
    exact ⟨p, s.mem_conditions H c vs entries hbreaks, by rw [hbreach]; rfl⟩

private theorem pairwise_report :
    (s.report H c vs entries).Pairwise fun a b => a.1.place < b.1.place := by
  refine (s.pairwise_conditions vs entries).filterMap _ fun p q hlt a ha b hb => ?_
  obtain ⟨v, -, rfl⟩ := Option.map_eq_some_iff.mp ha
  obtain ⟨w, -, rfl⟩ := Option.map_eq_some_iff.mp hb
  exact hlt

theorem report_eq_nil_iff : s.report H c vs entries = [] ↔ s.Agrees H c vs entries := by
  rw [List.eq_nil_iff_forall_not_mem, agrees_iff]
  exact ⟨fun hnone p v hbreaks => hnone (p, v) ((s.mem_report_iff H c vs entries).mpr hbreaks),
    fun hnone a ha => hnone a.1 a.2 ((s.mem_report_iff H c vs entries).mp ha)⟩

private theorem map_report : (s.report H c vs entries).map (·.2) =
    (s.conditions vs entries).filterMap (s.breach? H c vs entries) := by
  rw [report, List.map_filterMap]
  simp only [Option.map_map, Function.comp_def, Option.map_id']

/-- Going through the indices of a list is going through the list. -/
theorem filterMap_range_cons {α β : Type} (f : Nat → α → Option β) (a : α) (as : List α) :
    (List.range (a :: as).length).filterMap (fun i => (a :: as)[i]?.bind (f i)) =
      (f 0 a).toList ++
        (List.range as.length).filterMap (fun i => as[i]?.bind (f (i + 1))) := by
  rw [List.length_cons, List.range_succ_eq_map, List.filterMap_cons, List.filterMap_map]
  cases hfirst : f 0 a <;> simp [hfirst]

private theorem filterMap_range {α β : Type} (f : α → Option β) (as : List α) :
    (List.range as.length).filterMap (fun i => as[i]?.bind f) = as.filterMap f := by
  induction as with
  | nil => rfl
  | cons a as ih =>
    rw [filterMap_range_cons (fun _ => f), ih, List.filterMap_cons]
    cases f a <;> rfl

private theorem positionalViolations_eq (index : Nat) :
    s.positionalViolations c.target.type H index vs =
      (List.range vs.length).filterMap fun i =>
        vs[i]?.bind (s.argumentViolation H c (index + i)) := by
  induction vs generalizing index with
  | nil => rfl
  | cons v vs ih =>
    rw [filterMap_range_cons fun i => s.argumentViolation H c (index + i), positionalViolations,
      ih (index + 1), argumentViolation]
    congr 1
    · cases s.positionalType? index with
      | none => rfl
      | some expected =>
        simp only [Nat.add_zero, Option.bind_some]
        split_ifs <;> rfl
    · simp only [Nat.add_assoc, Nat.add_comm 1]

/-- A keyword parameter counts as given whether or not its name is looked up before. -/
theorem missingKeywords_eq : (s.missingKeywords entries).map .missingKeyword =
    s.named.filterMap (requirementViolation entries) := by
  have hgiven (p : KeywordParam) (hp : p ∈ s.named) :
      ((entries.map (keyName ·.1)).filter fun name =>
        (s.keywordType? name).isSome).contains p.name =
        (entries.map (keyName ·.1)).contains p.name := by
    have hdeclared : (s.keywordType? p.name).isSome = true := by
      rw [keywordType?, Option.isSome_or, Option.isSome_map, List.find?_isSome.mpr ⟨p, hp, by simp⟩,
        Bool.true_or]
    rw [Bool.eq_iff_iff, List.contains_iff_mem, List.contains_iff_mem, List.mem_filter]
    exact and_iff_left hdeclared
  rw [missingKeywords, List.map_map, ← List.filterMap_eq_map, List.filterMap_filter]
  refine List.filterMap_congr fun p hp => ?_
  rw [hgiven p hp]
  rfl

/-- The violations that a check finds are those of the report. -/
theorem violations_eq (h : s.separateArguments c = .ok (vs, entries)) :
    s.violations c H = .ok ((s.report H c vs entries).map (·.2)) := by
  have hkeywords : (List.range entries.length).filterMap (s.breach? H c vs entries ∘ .keyword) =
      entries.filterMap (s.keywordViolation c.target.type H) := filterMap_range _ _
  have hrequirements :
      (List.range s.named.length).filterMap (s.breach? H c vs entries ∘ .requirement) =
        (s.missingKeywords entries).map .missingKeyword :=
    (filterMap_range _ _).trans (s.missingKeywords_eq entries).symm
  have hresult : [Condition.result].filterMap (s.breach? H c vs entries) =
      (s.returnViolation c.target.type H c).toList := by
    rw [List.filterMap_cons, breach?]
    cases s.returnViolation c.target.type H c <;> rfl
  have hpositional : (Condition.arity :: (List.range vs.length).map .argument).filterMap
      (s.breach? H c vs entries) =
        if s.fitsArity vs.length then s.positionalViolations c.target.type H 0 vs
        else [.arity s.paramsText vs.length] := by
    rw [List.filterMap_cons, List.filterMap_map, positionalViolations_eq]
    cases hfits : s.fitsArity vs.length <;> simp [breach?, hfits, Function.comp_def]
  rw [violations, h, map_report, conditions, ← List.cons_append, List.filterMap_append,
    List.filterMap_append, List.filterMap_append, hpositional, hresult, List.filterMap_map,
    List.filterMap_map, hkeywords, hrequirements, ← List.append_assoc, ← List.append_assoc]
  rfl

end

/-! ### What a check answers -/

/-- A check answers with the report, unless there is nothing in it. -/
theorem check_eq {s : Signature} {c : Call} {vs : List Value} {entries : List (Value × Value)}
    (h : s.separateArguments c = .ok (vs, entries)) (H : Hierarchy) :
    s.check c H = .ok (if s.report H c vs entries = [] then none
      else some ⟨c.describe, (s.report H c vs entries).map (·.2)⟩) := by
  rw [check, s.violations_eq H c vs entries h]
  cases s.report H c vs entries <;> rfl

/-- With its arguments separated, a call passes its check if and only if it agrees with the
signature. -/
theorem check_eq_none_iff {s : Signature} {c : Call} {vs : List Value}
    {entries : List (Value × Value)} (h : s.separateArguments c = .ok (vs, entries))
    (H : Hierarchy) : s.check c H = .ok none ↔ s.Agrees H c vs entries := by
  rw [check_eq h, Except.ok.injEq, ← report_eq_nil_iff]
  cases s.report H c vs entries with
  | nil => exact iff_of_true (if_pos rfl) rfl
  | cons entry others => exact iff_of_false (by simp) (List.cons_ne_nil _ _)

/-- **Checks are exact and complete.** The arguments of a well-flagged call can be separated. If
they agree with the signature, the call passes its check. Otherwise it is reported with each
condition that it breaks, once and in the order of the conditions. -/
theorem check_reports (s : Signature) (c : Call) (H : Hierarchy) (h : c.IsWellFlagged) :
    ∃ vs entries, s.separateArguments c = .ok (vs, entries) ∧
      (s.check c H = .ok none ↔ s.Agrees H c vs entries) ∧
      (¬ s.Agrees H c vs entries → ∃ report : List (Condition × Violation),
        s.check c H = .ok (some ⟨c.describe, report.map (·.2)⟩) ∧
        report.Pairwise (fun a b => a.1.place < b.1.place) ∧
        ∀ p v, (p, v) ∈ report ↔ s.Breaks H c vs entries p v) := by
  obtain ⟨vs, entries, harguments⟩ := s.exists_separateArguments h
  refine ⟨vs, entries, harguments, check_eq_none_iff harguments H, fun hdisagrees => ?_⟩
  refine ⟨s.report H c vs entries, ?_, s.pairwise_report H c vs entries,
    fun p v => s.mem_report_iff H c vs entries⟩
  rw [check_eq harguments, if_neg (mt (s.report_eq_nil_iff H c vs entries).mp hdisagrees)]

/-- A method with a parameter that may be left out and three keywords. -/
def transferring : Signature :=
  { positional := [⟨.named "Integer", false⟩, ⟨.named "String", true⟩]
    rest := none
    named := [⟨"to", .named "Account", true⟩, ⟨"fee", .named "Numeric", false⟩,
      ⟨"on", .untyped, true⟩]
    namedRest := none
    returns := .named "Nil" }

/-- A call with a text for the amount and for the fee, with a keyword too many and one too few. -/
def transfer : Call :=
  { target := ⟨"Account", false⟩
    method := "transfer"
    arguments := [.str "10", .map [(.symbol "fee", .str "2"), (.symbol "tip", .nil),
      (.symbol "on", .nil)]]
    namedFlag := some true
    result := some (.bool true) }

/-- Five conditions are broken, and all five are reported. -/
theorem check_reports_transfer : transfer.IsWellFlagged ∧
    (∃ vs entries, transferring.separateArguments transfer = .ok (vs, entries) ∧
      ¬ transferring.Agrees .builtin transfer vs entries ∧
      ∃ report : List (Condition × Violation),
        transferring.check transfer .builtin =
          .ok (some ⟨transfer.describe, report.map (·.2)⟩) ∧
        report.Pairwise (fun a b => a.1.place < b.1.place) ∧
        ∀ p v, (p, v) ∈ report ↔ transferring.Breaks .builtin transfer vs entries p v) ∧
    transferring.check transfer .builtin = .ok (some ⟨"Account#transfer",
      [.argumentType (.positional 0) (.named "Integer") (.str "10"),
        .argumentType (.keyword "fee") (.named "Numeric") (.str "2"),
        .unknownKeyword "tip", .missingKeyword "to",
        .returnType (.named "Nil") (.bool true)]⟩) := by
  have hflagged : transfer.IsWellFlagged := fun _ => List.cons_ne_nil _ _
  have hcheck : transferring.check transfer .builtin = .ok (some ⟨"Account#transfer",
      [.argumentType (.positional 0) (.named "Integer") (.str "10"),
        .argumentType (.keyword "fee") (.named "Numeric") (.str "2"),
        .unknownKeyword "tip", .missingKeyword "to",
        .returnType (.named "Nil") (.bool true)]⟩) := rfl
  obtain ⟨vs, entries, harguments, hagrees, hreport⟩ :=
    check_reports transferring transfer .builtin hflagged
  have hdisagrees : ¬ transferring.Agrees .builtin transfer vs entries := fun h => by
    cases hcheck.symm.trans (hagrees.mpr h)
  exact ⟨hflagged, ⟨vs, entries, harguments, hdisagrees, hreport hdisagrees⟩, hcheck⟩

end Signature

end MockAudit
