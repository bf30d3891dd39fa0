import MockAudit.Proofs.InferredSignatures
import MockAudit.Proofs.PrintedSignatures

/-!
# The meaning of printed signatures

What matters about a signature is which calls are in accord with it. Printing a signature and
reading it again keeps this if no positional parameter can be mistaken for another kind of
parameter, since unions within unions accept what their members accept. It keeps it in no other
case (`Signature.meansSame_iff`). Where a parameter is taken for a keyword with its type, this
type begins with a colon and the text is rejected. Where one that has to be given is taken for an
optional one, fewer arguments have to be given, and a call that gives just as many is now in accord
with the signature although it was not before. That there is such a call takes a value for every
type: nil for those that nil satisfies, and a double of the type for the others.

## Main definitions

* `Signature.IsMet`: a call with the given arguments is in accord with a signature.
* `Signature.MeansSame`: two signatures find fault with the same calls.

## Main results

* `Signature.exists_check_eq`: a check finds nothing exactly if the signature is met.
* `Signature.check_flattened`: flattening changes no verdict.
* `Signature.IsWritten.exists_isMet`: a signature is met by some call that gives no more than it has
  to.
* `Signature.meansSame_iff`: which signatures keep their meaning.
-/

namespace MockAudit

namespace Signature

open TypeExpr

/-! ### What checking finds -/

/-- A call with the given arguments is in accord with a signature. -/
structure IsMet (s : Signature) (H : Hierarchy) (c : Call) (vs : List Value)
    (entries : List (Value × Value)) : Prop where
  arity : s.fitsArity vs.length = true
  positional : s.positionalViolations c.target.type H 0 vs = []
  named : ∀ entry ∈ entries, s.keywordViolation c.target.type H entry = none
  missing : s.missingKeywords entries = []
  returns : s.returnViolation c.target.type H c = none

/-- A check finds something unless the call is in accord with the signature. -/
theorem exists_check_eq {s : Signature} {c : Call} {vs : List Value}
    {entries : List (Value × Value)} (h : s.separateArguments c = .ok (vs, entries))
    (H : Hierarchy) :
    ∃ result, s.check c H = .ok result ∧ (result = none ↔ s.IsMet H c vs entries) := by
  obtain ⟨found, hfound, hiff⟩ : ∃ found, s.violations c H = .ok found ∧
      (found = [] ↔ s.IsMet H c vs entries) := by
    rw [violations, h]
    refine ⟨_, rfl, ?_⟩
    rw [List.append_eq_nil_iff, List.append_eq_nil_iff, List.append_eq_nil_iff,
      List.filterMap_eq_nil_iff, List.map_eq_nil_iff, Option.toList_eq_nil_iff]
    cases harity : s.fitsArity vs.length with
    | false =>
      rw [if_neg Bool.false_ne_true]
      constructor
      · rintro ⟨⟨⟨hnone, -⟩, -⟩, -⟩
        cases hnone
      · exact fun hmet => absurd (harity.symm.trans hmet.arity) Bool.false_ne_true
    | true =>
      rw [if_pos rfl]
      constructor
      · rintro ⟨⟨⟨hpositional, hentries⟩, hmissing⟩, hreturns⟩
        exact ⟨harity, hpositional, hentries, hmissing, hreturns⟩
      · exact fun hmet => ⟨⟨⟨hmet.positional, hmet.named⟩, hmet.missing⟩, hmet.returns⟩
  rw [check, hfound]
  cases found with
  | nil => exact ⟨none, rfl, iff_of_true rfl (hiff.mp rfl)⟩
  | cons violation found =>
    exact ⟨_, rfl, iff_of_false (Option.some_ne_none _) (mt hiff.mpr (List.cons_ne_nil _ _))⟩

section

variable (s : Signature) (receiver : TypeName) (H : Hierarchy)

private theorem positionalType?_flattened (index : Nat) :
    s.flattened.positionalType? index = (s.positionalType? index).map (·.flattened) := by
  rw [positionalType?, positionalType?, flattened, List.getElem?_map]
  cases s.positional[index]? <;> cases s.rest <;> rfl

private theorem keywordType?_flattened (name : String) :
    s.flattened.keywordType? name = (s.keywordType? name).map (·.flattened) := by
  have hfind : s.flattened.named.find? (·.name == name) =
      (s.named.find? (·.name == name)).map (·.flattened) := by
    rw [flattened, List.find?_map]
    rfl
  rw [keywordType?, keywordType?, hfind, flattened]
  cases s.named.find? (·.name == name) <;> cases s.namedRest <;> rfl

private theorem positionalViolations_flattened (index : Nat) (vs : List Value) :
    s.flattened.positionalViolations receiver H index vs = [] ↔
      s.positionalViolations receiver H index vs = [] := by
  induction vs generalizing index with
  | nil => exact Iff.rfl
  | cons v vs ih =>
    rw [positionalViolations, positionalViolations, List.append_eq_nil_iff, List.append_eq_nil_iff,
      ih, positionalType?_flattened]
    cases s.positionalType? index with
    | none => exact Iff.rfl
    | some t =>
      simp only [Option.map_some, accepts_flattened]
      cases t.accepts v receiver H <;> simp

private theorem keywordViolation_flattened (entry : Value × Value) :
    s.flattened.keywordViolation receiver H entry = none ↔
      s.keywordViolation receiver H entry = none := by
  rw [keywordViolation, keywordViolation]
  simp only [keywordType?_flattened]
  cases s.keywordType? (keyName entry.1) with
  | none => exact Iff.rfl
  | some t =>
    simp only [Option.map_some, accepts_flattened]
    cases t.accepts entry.2 receiver H <;> simp

private theorem missingKeywords_flattened (entries : List (Value × Value)) :
    s.flattened.missingKeywords entries = s.missingKeywords entries := by
  have hgiven : (fun name => (s.flattened.keywordType? name).isSome) =
      fun name => (s.keywordType? name).isSome := by
    funext name
    rw [keywordType?_flattened, Option.isSome_map]
  rw [missingKeywords, missingKeywords, hgiven, flattened, List.filter_map, List.map_map]
  rfl

private theorem returnViolation_flattened (c : Call) :
    s.flattened.returnViolation receiver H c = none ↔ s.returnViolation receiver H c = none := by
  rw [returnViolation, returnViolation, flattened, accepts_flattened]
  split <;> simp

private theorem separateArguments_flattened (c : Call) :
    s.flattened.separateArguments c = s.separateArguments c := by
  simp [separateArguments, acceptsNamed, flattened]

private theorem fitsArity_flattened (count : Nat) :
    s.flattened.fitsArity count = s.fitsArity count := by
  have hleast : s.flattened.leastPositional = s.leastPositional := by
    rw [leastPositional, leastPositional, flattened, List.countP_map]
    rfl
  rw [fitsArity, fitsArity, hleast, flattened, List.length_map, Option.isSome_map]

private theorem isMet_flattened (c : Call) (vs : List Value) (entries : List (Value × Value)) :
    s.flattened.IsMet H c vs entries ↔ s.IsMet H c vs entries := by
  constructor
  · rintro ⟨harity, hpositional, hnamed, hmissing, hreturns⟩
    exact ⟨(s.fitsArity_flattened _).symm.trans harity,
      (s.positionalViolations_flattened _ H _ _).mp hpositional,
      fun entry hentry => (s.keywordViolation_flattened _ H entry).mp (hnamed entry hentry),
      (s.missingKeywords_flattened _).symm.trans hmissing,
      (s.returnViolation_flattened _ H c).mp hreturns⟩
  · rintro ⟨harity, hpositional, hnamed, hmissing, hreturns⟩
    exact ⟨(s.fitsArity_flattened _).trans harity,
      (s.positionalViolations_flattened _ H _ _).mpr hpositional,
      fun entry hentry => (s.keywordViolation_flattened _ H entry).mpr (hnamed entry hentry),
      (s.missingKeywords_flattened _).trans hmissing,
      (s.returnViolation_flattened _ H c).mpr hreturns⟩

end

private theorem check_of_separateArguments_error {s : Signature} {c : Call} {e : Fault}
    (h : s.separateArguments c = .error e) (H : Hierarchy) : s.check c H = .error e := by
  rw [check, violations, h]
  rfl

/-- Flattening does not change what a check says about any call. -/
theorem check_flattened (s : Signature) (c : Call) (H : Hierarchy) :
    (s.flattened.check c H).map Option.isSome = (s.check c H).map Option.isSome := by
  have hflattened := s.separateArguments_flattened c
  cases harguments : s.separateArguments c with
  | error e =>
    rw [check_of_separateArguments_error harguments,
      check_of_separateArguments_error (hflattened.trans harguments)]
  | ok arguments =>
    obtain ⟨result, hresult, hmet⟩ := exists_check_eq harguments H
    obtain ⟨result', hresult', hmet'⟩ := exists_check_eq (hflattened.trans harguments) H
    have hiff : result' = none ↔ result = none :=
      hmet'.trans ((s.isMet_flattened H c _ _).trans hmet.symm)
    rw [hresult, hresult']
    cases result <;> cases result' <;> simp_all [Except.map]

/-- Two signatures find fault with the same calls, against every hierarchy. -/
def MeansSame (s s' : Signature) : Prop :=
  ∀ c H, (s'.check c H).map Option.isSome = (s.check c H).map Option.isSome

private theorem exists_meansSame {text : String} {s : Signature} (h : parse text = .ok s)
    (hclear : ∀ p ∈ s.positional, p.IsClear) :
    ∃ s', parse s.text = .ok s' ∧ s.MeansSame s' :=
  ⟨s.flattened, parse_text_of_isClear (isWritten_of_parse h) hclear, s.check_flattened⟩

/-! ### Calls in accord with a signature -/

/-- Every type expression that can be written accepts some value. -/
theorem exists_accepts {t : TypeExpr} (h : t.IsWritten) (receiver : TypeName) (H : Hierarchy) :
    ∃ v, t.accepts v receiver H = true := by
  have hdouble (name : TypeName) : ∃ v : Value, v.inhabits name H = true :=
    ⟨.double ⟨0, none, .instanceOf name⟩, by simp [Value.inhabits, TestDouble.standsFor?]⟩
  induction h with
  | untyped => exact ⟨.nil, rfl⟩
  | self => exact hdouble receiver
  | @named name h => exact hdouble name
  | optional h ih => exact ⟨.nil, rfl⟩
  | @union ts hlength h ih =>
    match ts, hlength, ih with
    | first :: others, _, ih =>
      obtain ⟨v, hv⟩ := ih first (List.mem_cons_self ..)
      exact ⟨v, by rw [accepts, anyAccepts, hv, Bool.true_or]⟩

private theorem IsWritten.exists_keywordType? {s : Signature} (h : s.IsWritten) {p : KeywordParam}
    (hp : p ∈ s.named) : ∃ t, s.keywordType? p.name = some t ∧ t.IsWritten := by
  rw [keywordType?]
  cases hfind : s.named.find? (·.name == p.name) with
  | none => exact absurd (List.find?_eq_none.mp hfind p hp) (by simp)
  | some q => exact ⟨q.type, rfl, (h.named q (List.mem_of_find?_eq_some hfind)).2⟩

/-- A signature as it is read is met by a call that gives no more than what has to be given. -/
theorem IsWritten.exists_isMet {s : Signature} (h : s.IsWritten) (H : Hierarchy) :
    ∃ c vs entries, vs.length = s.leastPositional ∧ s.IsMet H c vs entries ∧
      ∀ s' : Signature, s'.separateArguments c = .ok (vs, entries) := by
  have hvalue : ∀ t : TypeExpr, ∃ v, t.IsWritten → t.accepts v "" H = true := by
    intro t
    by_cases ht : t.IsWritten
    · obtain ⟨v, hv⟩ := exists_accepts ht "" H
      exact ⟨v, fun _ => hv⟩
    · exact ⟨.nil, fun ht' => absurd ht' ht⟩
  choose value haccepts using hvalue
  have hleast : s.leastPositional ≤ s.positional.length := List.countP_le_length
  let vs := (s.positional.map fun p => value p.type).take s.leastPositional
  let entries := s.named.map fun p =>
    (Value.symbol p.name, value ((s.keywordType? p.name).getD .untyped))
  let c : Call :=
    { target := ⟨"", false⟩, method := "", arguments := vs ++ [.map entries],
      namedFlag := some true, raised := some "" }
  have hlength : vs.length = s.leastPositional := by
    simp [vs, hleast]
  have hgiven {p : KeywordParam} (hp : p ∈ s.named) : p.name ∈ entries.map (keyName ·.1) := by
    rw [List.map_map]
    exact List.mem_map.mpr ⟨p, hp, rfl⟩
  refine ⟨c, vs, entries, hlength, ⟨?_, ?_, ?_, ?_, rfl⟩, fun s' => ?_⟩
  · rw [hlength, fitsArity, decide_eq_true (Nat.le_refl _), decide_eq_true hleast, Bool.or_true]
    rfl
  · refine positionalViolations_eq_nil fun i v expected hv hexpected => ?_
    obtain ⟨p, hp, rfl⟩ : ∃ p, s.positional[i]? = some p ∧ value p.type = v := by
      rw [List.getElem?_take] at hv
      split at hv
      · rwa [List.getElem?_map, Option.map_eq_some_iff] at hv
      · cases hv
    rw [Nat.zero_add, positionalType?, hp] at hexpected
    obtain rfl : p.type = expected := Option.some.inj hexpected
    exact haccepts _ (h.positional p (List.mem_of_getElem? hp))
  · rintro entry hentry
    obtain ⟨p, hp, rfl⟩ := List.mem_map.mp hentry
    obtain ⟨t, ht, hwritten⟩ := h.exists_keywordType? hp
    have haccepted := haccepts t hwritten
    simp only [keywordViolation, keyName, ht, Option.getD_some]
    exact if_pos haccepted
  · rw [missingKeywords, List.map_eq_nil_iff, List.filter_eq_nil_iff]
    rintro p hp
    obtain ⟨t, ht, -⟩ := h.exists_keywordType? hp
    have hcontains : ((entries.map (keyName ·.1)).filter fun name =>
        (s.keywordType? name).isSome).contains p.name = true :=
      List.contains_iff_mem.mpr (List.mem_filter.mpr ⟨hgiven hp, by rw [ht]; rfl⟩)
    rw [hcontains]
    simp
  · simp [separateArguments, c, Call.hasNamed, Call.positional, Call.named, Value.entries?]

/-- Fewer parameters have to be given if some marked one had to be. -/
theorem leastPositional_lt {ps qs : List OrderedParam}
    (h : List.Forall₂ (fun p q => q.isOptional = (p.isOptional || p.type.isMarked)) ps qs) :
    qs.countP (!·.isOptional) ≤ ps.countP (!·.isOptional) ∧
      ((∃ p ∈ ps, p.type.isMarked = true ∧ p.isOptional = false) →
        qs.countP (!·.isOptional) < ps.countP (!·.isOptional)) := by
  induction h with
  | nil => exact ⟨Nat.le_refl _, by simp⟩
  | @cons p q ps qs hpq hrest ih =>
    obtain ⟨hle, hlt⟩ := ih
    rw [List.countP_cons, List.countP_cons, hpq]
    refine ⟨?_, ?_⟩
    · cases p.isOptional <;> cases p.type.isMarked <;> simp <;> omega
    · rintro ⟨r, hr, hmarked, hrequired⟩
      rcases List.mem_cons.mp hr with rfl | hr
      · rw [hmarked, hrequired]
        simp
        omega
      · have hfewer := hlt ⟨r, hr, hmarked, hrequired⟩
        cases p.isOptional <;> cases p.type.isMarked <;> simp <;> omega

/-- **Printing and reading keep the meaning of a signature** exactly if none of its positional
parameters can be mistaken. -/
theorem meansSame_iff {text : String} {s : Signature} (h : parse text = .ok s) :
    (∃ s', parse s.text = .ok s' ∧ s.MeansSame s') ↔ ∀ p ∈ s.positional, p.IsClear := by
  have hwritten := isWritten_of_parse h
  constructor
  · rintro ⟨s', hs', hsame⟩
    have hwritten' := isWritten_of_parse hs'
    rw [parse_text_eq_bind hwritten] at hs'
    obtain ⟨s₁, hpositional, hbehind⟩ := exists_of_bind_eq_ok hs'
    obtain ⟨hnames, qs, rfl, hqs⟩ := exists_of_foldlM_positionals hwritten.positional hpositional
    have hs : s' = { s.flattened with positional := qs } :=
      Except.ok.inj (hbehind.symm.trans (foldlM_textsBehind hwritten qs))
    have hcount : s'.leastPositional = qs.countP (!·.isOptional) := by rw [hs, leastPositional]
    refine fun p hp => ⟨fun hmarked => ?_, hnames p hp⟩
    by_contra hrequired
    have hlt : s'.leastPositional < s.leastPositional :=
      hcount ▸ (leastPositional_lt hqs).2 ⟨p, hp, hmarked, Bool.eq_false_iff.mpr hrequired⟩
    obtain ⟨c, vs, entries, hlength, hmet, harguments⟩ := hwritten'.exists_isMet fun _ => none
    obtain ⟨result, hresult, hiff⟩ := exists_check_eq (harguments s) fun _ => none
    obtain ⟨result', hresult', hiff'⟩ := exists_check_eq (harguments s') fun _ => none
    have hrefused : result ≠ none := by
      intro hnone
      have harity := (hiff.mp hnone).arity
      rw [hlength, fitsArity, decide_eq_false (Nat.not_le.mpr hlt)] at harity
      exact absurd harity Bool.false_ne_true
    have heq := hsame c fun _ => none
    rw [hresult, hresult', hiff'.mpr hmet] at heq
    cases result with
    | none => exact hrefused rfl
    | some mismatch => cases heq
  · exact exists_meansSame h

end Signature

/-! ### Parentheses that matter -/

/-- A method with one parameter that has to be given, if only as nil. -/
def nullable : Signature :=
  { Signature.returning (.named "Nil") with positional := [⟨.optional (.named "Integer"), false⟩] }

/-- **Parentheses that matter are lost.** The printed form of a signature need not mean the same:
with parentheses around its type a parameter has to be given and may be nil, without them it may be
left out but is no longer allowed to be nil. -/
theorem nullable_not_meansSame : ¬ ∀ text s, Signature.parse text = .ok s →
    ∃ s', Signature.parse s.text = .ok s' ∧ s.MeansSame s' := by
  intro h
  obtain ⟨s', hs', hsame⟩ := h "((?Integer)) -> Nil" nullable (by with_unfolding_all rfl)
  have hread : Signature.parse nullable.text =
      .ok ((Signature.returning (.named "Nil")).addPositional (.named "Integer") true) := by
    with_unfolding_all rfl
  obtain rfl := Except.ok.inj (hread.symm.trans hs')
  let call : Call :=
    { target := ⟨"Meter", false⟩, method := "set", arguments := [.nil], result := some .nil }
  have hbefore : (nullable.check call fun _ => none).map Option.isSome = .ok false := by
    with_unfolding_all rfl
  have hafter : (((Signature.returning (.named "Nil")).addPositional (.named "Integer") true).check
      call fun _ => none).map Option.isSome = .ok true := by with_unfolding_all rfl
  have hagree := (hafter.symm.trans (hsame call fun _ => none)).trans hbefore
  cases hagree

/-- A method with a union within a union, an optional parameter and a keyword. -/
def resizing : Signature :=
  { Signature.returning .self with
    positional := [⟨.union [.named "Shape", .union [.optional (.named "Size"), .untyped]], false⟩,
      ⟨.optional (.named "Color"), true⟩]
    named := [⟨"unit", .named "geo::Unit", false⟩] }

theorem resizing_meansSame :
    Signature.parse "((Shape | (?Size | untyped)), ?(?Color), ?unit: (geo::Unit)) -> self" =
        .ok resizing ∧
      ∃ s', Signature.parse resizing.text = .ok s' ∧ resizing.MeansSame s' := by
  have hparse : Signature.parse
      "((Shape | (?Size | untyped)), ?(?Color), ?unit: (geo::Unit)) -> self" = .ok resizing := by
    with_unfolding_all rfl
  refine ⟨hparse, (Signature.meansSame_iff hparse).mpr ?_⟩
  have hshape : ¬ LooksNamed "Shape".toList := by
    rintro ⟨c, cs, ⟨⟩, hlower, -⟩
    exact absurd hlower (by decide)
  refine List.forall_mem_cons.mpr ⟨⟨by decide, ?_⟩, List.forall_mem_singleton.mpr ⟨by decide, ?_⟩⟩
  · rintro ⟨name, hhead, hlooks⟩
    obtain rfl := TypeExpr.named.inj (Option.some.inj hhead)
    exact hshape hlooks
  · rintro ⟨name, hhead, -⟩
    cases hhead

end MockAudit
