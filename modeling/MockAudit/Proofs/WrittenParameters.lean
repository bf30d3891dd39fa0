import MockAudit.Proofs.PrintedSignatures

/-!
# What becomes of the parameters of a signature

The list of parameters stands between the first parenthesis of a signature and the one that closes
it, and is divided at the commas outside parentheses. Each part begins with a mark, or none, which
says what kind of parameter it is, and the rest of it is a type. Positional parameters and keywords
are collected in the order in which they are written. A parameter for the rest of the arguments is
not collected but stored, in a place that holds one of them: a second one takes the place of the
first, and the first is lost. The same holds of the parameter for the rest of the keywords. So a
signature has as many parameters as its text unless one of these two is repeated, and then it has
fewer (`Signature.parse_parameters`, `Signature.repeated_rest_is_dropped`).

## Main definitions

* `ParamRole`: what the mark in front of a parameter makes of it.
* `Signature.roleOf`: a part of a list of parameters, divided into its mark and its type.
* `IsParamList`: the text between the parentheses of a signature.
* `Signature.HasParams`: a signature consists of given parameters.

## Main results

* `IsBalanced.insert`, `Signature.isBalanced_of_splitAtClosing`: a search for a closing parenthesis
  ends at the partner of the one that is open.
* `Signature.addParam_eq`: reading a parameter, by its mark and its type.
* `Signature.HasParams.paramCount_add`: how many parameters a signature keeps.
* `Signature.parse_parameters`: what becomes of the parameters of a text that is accepted.
-/

namespace MockAudit

/-! ### The list of parameters -/

/-- Balanced texts may be inserted into each other anywhere. -/
theorem IsBalanced.insert {as bs cs : List Char} (h : IsBalanced (as ++ bs)) (hcs : IsBalanced cs) :
    IsBalanced (as ++ (cs ++ bs)) := by
  generalize htext : as ++ bs = text at h
  induction h generalizing as bs with
  | nil =>
    obtain ⟨rfl, rfl⟩ := List.append_eq_nil_iff.mp htext
    exact hcs.append .nil
  | @char c ds hopen hclose h ih =>
    cases as with
    | nil =>
      rw [List.nil_append] at htext
      rw [List.nil_append, htext]
      exact hcs.append (.char hopen hclose h)
    | cons a as =>
      obtain ⟨rfl, hds⟩ := List.cons.inj htext
      exact .char hopen hclose (ih hds)
  | @parentheses ds es h h' ih ih' =>
    cases as with
    | nil =>
      rw [List.nil_append] at htext
      rw [List.nil_append, htext]
      exact hcs.append (.parentheses h h')
    | cons a as =>
      obtain ⟨rfl, hrest⟩ := List.cons.inj htext
      -- The place of the insertion is inside the parentheses or behind them.
      rcases List.append_eq_append_iff.mp hrest with ⟨fs, rfl, rfl⟩ | ⟨fs, rfl, hes⟩
      · have htext' : '(' :: as ++ (cs ++ (fs ++ ')' :: es)) =
            '(' :: (as ++ (cs ++ fs) ++ ')' :: es) := by simp
        rw [htext']
        exact .parentheses (ih rfl) h'
      · cases fs with
        | nil =>
          have htext' : '(' :: (ds ++ []) ++ (cs ++ bs) = '(' :: (ds ++ cs ++ ')' :: es) := by
            rw [← show ')' :: es = bs from hes]
            simp
          rw [htext']
          exact .parentheses (h.append hcs) h'
        | cons f fs =>
          obtain ⟨rfl, rfl⟩ := List.cons.inj hes
          have htext' : '(' :: (ds ++ ')' :: fs) ++ (cs ++ bs) =
              '(' :: (ds ++ ')' :: (fs ++ (cs ++ bs))) := by simp
          rw [htext']
          exact .parentheses h (ih' rfl)

/-- The text between the first parenthesis of a signature and the one that closes it. -/
def IsParamList (text : String) (params : List Char) : Prop :=
  IsBalanced params ∧ ∃ after, Text.trim text.toList = '(' :: (params ++ ')' :: after)

namespace Signature

open TypeExpr

/-- The search for a closing parenthesis ends at the partner of the last one that is open. -/
theorem isBalanced_of_splitAtClosing {depth : Nat} {cs inner after : List Char}
    (h : splitAtClosing depth cs = some (inner, after)) :
    cs = inner ++ ')' :: after ∧ IsBalanced (List.replicate depth '(' ++ inner) := by
  induction cs generalizing depth inner with
  | nil => cases depth <;> cases h
  | cons c cs ih =>
    by_cases hopen : c = '('
    · subst hopen
      rw [splitAtClosing_opening] at h
      obtain ⟨⟨inner, after⟩, hfound, ⟨⟩⟩ := Option.map_eq_some_iff.mp h
      obtain ⟨rfl, hinner⟩ := ih hfound
      rw [List.replicate_succ', List.append_assoc] at hinner
      exact ⟨rfl, hinner⟩
    by_cases hclose : c = ')'
    · cases depth with
      | zero =>
        rw [splitAtClosing, if_neg hopen, if_pos hclose] at h
        obtain ⟨rfl, rfl⟩ := Prod.ext_iff.mp (Option.some.inj h)
        exact ⟨hclose ▸ rfl, .nil⟩
      | succ depth =>
        rw [splitAtClosing, if_neg hopen, if_pos hclose] at h
        obtain ⟨⟨inner, after⟩, hfound, ⟨⟩⟩ := Option.map_eq_some_iff.mp h
        obtain ⟨rfl, hinner⟩ := ih hfound
        refine ⟨rfl, ?_⟩
        rw [List.replicate_succ', List.append_assoc, hclose]
        exact hinner.insert (.parentheses .nil .nil)
    · rw [splitAtClosing_char hopen hclose] at h
      obtain ⟨⟨inner, after⟩, hfound, ⟨⟩⟩ := Option.map_eq_some_iff.mp h
      obtain ⟨rfl, hinner⟩ := ih hfound
      exact ⟨rfl, hinner.insert (.char hopen hclose .nil)⟩

end Signature

/-! ### Kinds of parameters -/

/-- What the mark in front of a parameter makes of it. -/
inductive ParamRole
  /-- It takes the rest of the positional arguments. -/
  | rest
  /-- It takes the rest of the keywords. -/
  | namedRest
  | keyword (name : String) (isRequired : Bool)
  | positional (isOptional : Bool)

/-- A parameter as it was read: its role and its type. -/
abbrev ReadParam := ParamRole × TypeExpr

namespace ReadParam

/-- The type of a parameter that takes the rest of the positional arguments. -/
def rest? : ReadParam → Option TypeExpr
  | (.rest, type) => some type
  | _ => none

/-- The type of a parameter that takes the rest of the keywords. -/
def namedRest? : ReadParam → Option TypeExpr
  | (.namedRest, type) => some type
  | _ => none

/-- A keyword parameter. -/
def keyword? : ReadParam → Option KeywordParam
  | (.keyword name isRequired, type) => some ⟨name, type, isRequired⟩
  | _ => none

/-- A positional parameter. -/
def positional? : ReadParam → Option OrderedParam
  | (.positional isOptional, type) => some ⟨type, isOptional⟩
  | _ => none

/-- Every parameter is of one of the four kinds. -/
theorem length_kinds (ps : List ReadParam) :
    (ps.filterMap positional?).length + (ps.filterMap keyword?).length +
      (ps.filterMap rest?).length + (ps.filterMap namedRest?).length = ps.length := by
  induction ps with
  | nil => rfl
  | cons p ps ih =>
    obtain ⟨role, type⟩ := p
    cases role <;>
    · simp only [List.filterMap_cons, positional?, keyword?, rest?, namedRest?, List.length_cons]
      omega

end ReadParam

namespace Signature

open TypeExpr

/-- A part of a list of parameters, divided into its mark and the text of its type. -/
def roleOf (param : List Char) : ParamRole × List Char :=
  match param with
  | '*' :: '*' :: type => (.namedRest, type)
  | '*' :: type => (.rest, type)
  | param =>
    match keywordParts? param with
    | some (isRequired, name, type) => (.keyword (String.ofList name) isRequired, type)
    | none =>
      match param with
      | '?' :: type => (.positional true, type)
      | type => (.positional false, type)

/-- The signature with one more parameter. -/
def addRead (s : Signature) : ReadParam → Signature
  | (.rest, type) => { s with rest := some type }
  | (.namedRest, type) => { s with namedRest := some type }
  | (.keyword name isRequired, type) => s.addNamed name type isRequired
  | (.positional isOptional, type) => s.addPositional type isOptional

/-- A part is read as a parameter: its mark gives the role, and the rest of it is read as the
type. -/
def Reads (part : List Char) (p : ReadParam) : Prop :=
  (roleOf part).1 = p.1 ∧ ofChars (roleOf part).2 = .ok p.2

/-- Reading a parameter is reading its type. -/
theorem addParam_eq (s : Signature) (param : List Char) :
    addParam s param =
      ofChars (roleOf param).2 >>= fun type => .ok (s.addRead ((roleOf param).1, type)) := by
  fun_cases roleOf param with
  | case1 type => rfl
  | case2 type hstar =>
    rw [addParam]
    · rfl
    · exact hstar
  | case3 _ _ hstar _ _ _ hparts => exact addParam_of_keyword s hstar hparts
  | case4 type _ _ hparts => exact addParam_of_mark s hparts
  | case5 param hmark _ hstar hparts => exact addParam_of_type s hstar hmark hparts

private theorem reads_of_addParam {s s' : Signature} {param : List Char}
    (h : addParam s param = .ok s') : ∃ p, Reads param p ∧ s' = s.addRead p := by
  rw [addParam_eq] at h
  obtain ⟨type, htype, hs⟩ := exists_of_bind_eq_ok h
  exact ⟨((roleOf param).1, type), ⟨rfl, htype⟩, (Except.ok.inj hs).symm⟩

/-- A signature consists of given parameters. Of those that take the rest of the arguments, and of
those that take the rest of the keywords, it has the last one. -/
structure HasParams (s : Signature) (ps : List ReadParam) : Prop where
  positional : s.positional = ps.filterMap ReadParam.positional?
  rest : s.rest = (ps.filterMap ReadParam.rest?).getLast?
  named : s.named = ps.filterMap ReadParam.keyword?
  namedRest : s.namedRest = (ps.filterMap ReadParam.namedRest?).getLast?

namespace HasParams

variable {s : Signature} {ps : List ReadParam}

private theorem returning (type : TypeExpr) : (returning type).HasParams [] :=
  ⟨rfl, rfl, rfl, rfl⟩

private theorem addRead (h : s.HasParams ps) (p : ReadParam) :
    (s.addRead p).HasParams (ps ++ [p]) := by
  obtain ⟨role, type⟩ := p
  constructor <;> rw [List.filterMap_append] <;>
    cases role <;>
    simp [Signature.addRead, addPositional, addNamed, ReadParam.positional?, ReadParam.rest?,
      ReadParam.keyword?, ReadParam.namedRest?, h.positional, h.rest, h.named, h.namedRest]

end HasParams

/-- The number of parameters of a signature, of all kinds together. -/
def paramCount (s : Signature) : Nat :=
  s.positional.length + s.rest.toList.length + s.named.length + s.namedRest.toList.length

private theorem length_toList_getLast? {α : Type} (as : List α) :
    as.getLast?.toList.length + (as.length - 1) = as.length := by
  cases as with
  | nil => rfl
  | cons a as =>
    rw [List.getLast?_cons, Option.toList_some, List.length_singleton, List.length_cons]
    omega

/-- A parameter that is repeated, and may not be, is not counted. -/
theorem HasParams.paramCount_add {s : Signature} {ps : List ReadParam} (h : s.HasParams ps) :
    s.paramCount + ((ps.filterMap ReadParam.rest?).length - 1) +
      ((ps.filterMap ReadParam.namedRest?).length - 1) = ps.length := by
  have hrest := length_toList_getLast? (ps.filterMap ReadParam.rest?)
  have hnamedRest := length_toList_getLast? (ps.filterMap ReadParam.namedRest?)
  have hkinds := ReadParam.length_kinds ps
  rw [paramCount, h.positional, h.rest, h.named, h.namedRest]
  omega

/-- The parts of a list of parameters between the commas outside parentheses. A list without any
text has no parts. -/
def partsOfList (params : List Char) : List (List Char) :=
  if (Text.trim params).isEmpty then [] else partsOf ',' params

private theorem writtenParams_eq (params : List Char) :
    writtenParams params = (partsOfList params).map Text.trim := by
  rw [writtenParams, partsOfList]
  split_ifs <;> rfl

/-- Parameters are read one after the other. -/
theorem exists_of_foldlM {parts : List (List Char)} {s s' : Signature} {qs : List ReadParam}
    (hs : s.HasParams qs) (h : parts.foldlM addParam s = .ok s') :
    ∃ ps, List.Forall₂ Reads parts ps ∧ s'.HasParams (qs ++ ps) := by
  induction parts generalizing s qs with
  | nil =>
    obtain rfl := Except.ok.inj h
    exact ⟨[], .nil, by rwa [List.append_nil]⟩
  | cons part parts ih =>
    rw [List.foldlM_cons] at h
    obtain ⟨s₁, hfirst, hrest⟩ := exists_of_bind_eq_ok h
    obtain ⟨p, hp, rfl⟩ := reads_of_addParam hfirst
    obtain ⟨ps, hps, hparams⟩ := ih (hs.addRead p) hrest
    exact ⟨p :: ps, .cons hp hps, by rwa [List.append_cons]⟩

/-- What is accepted has a list of parameters, which is read in front of the type of the result. -/
theorem exists_of_parse {text : String} {s : Signature} (h : parse text = .ok s) :
    ∃ params after type, Text.trim text.toList = '(' :: (params ++ ')' :: after) ∧
      IsBalanced params ∧ (writtenParams params).foldlM addParam (returning type) = .ok s := by
  simp only [parse] at h
  split at h
  · rename_i afterOpening htrim
    split at h
    · cases h
    · rename_i params after hsplit
      obtain ⟨rfl, hbalanced⟩ := isBalanced_of_splitAtClosing hsplit
      split at h
      · obtain ⟨type, -, hparams⟩ := exists_of_bind_eq_ok h
        exact ⟨params, after, type, htrim, hbalanced, hparams⟩
      · cases h
  · cases h

/-- A text has at most one list of parameters. -/
theorem IsParamList.unique {text : String} {params params' : List Char}
    (h : IsParamList text params) (h' : IsParamList text params') : params = params' := by
  obtain ⟨hbalanced, after, htext⟩ := h
  obtain ⟨hbalanced', after', htext'⟩ := h'
  have hrest : params ++ ')' :: after = params' ++ ')' :: after' :=
    (List.cons.inj (htext.symm.trans htext')).2
  have hsplit := splitAtClosing_closed hbalanced after
  rw [hrest, splitAtClosing_closed hbalanced'] at hsplit
  exact (Prod.ext_iff.mp (Option.some.inj hsplit)).1.symm

/-- **Parameters are kept unless one for the rest is repeated.** A text that is accepted has one
list of parameters. Each part of it is read as a parameter, by the type behind its mark. The
positional parameters and the keywords of the signature are those that were read, in the order in
which they are written; what takes the rest of the arguments or of the keywords is the last that was
read as such. So each repetition of one of these two is missing from the signature, and it has as
many parameters as the text has parts exactly if neither is repeated. -/
theorem parse_parameters {text : String} {s : Signature} (h : parse text = .ok s) :
    ∃ params ps, IsParamList text params ∧
      (∀ params', IsParamList text params' → params' = params) ∧
      List.Forall₂ (fun part p => Reads (Text.trim part) p) (partsOfList params) ps ∧
      s.HasParams ps ∧
      s.paramCount + ((ps.filterMap ReadParam.rest?).length - 1) +
        ((ps.filterMap ReadParam.namedRest?).length - 1) = (partsOfList params).length ∧
      (s.paramCount = (partsOfList params).length ↔
        (ps.filterMap ReadParam.rest?).length ≤ 1 ∧
          (ps.filterMap ReadParam.namedRest?).length ≤ 1) := by
  obtain ⟨params, after, type, htext, hbalanced, hread⟩ := exists_of_parse h
  have hlist : IsParamList text params := ⟨hbalanced, after, htext⟩
  obtain ⟨ps, hps, hparams⟩ := exists_of_foldlM (.returning type) hread
  rw [List.nil_append] at hparams
  rw [writtenParams_eq, List.forall₂_map_left_iff] at hps
  have hcount := hparams.paramCount_add
  rw [← hps.length_eq] at hcount
  have hunique (params' : List Char) (h' : IsParamList text params') : params' = params :=
    IsParamList.unique h' hlist
  refine ⟨params, ps, hlist, hunique, hps, hparams, hcount, ?_⟩
  omega

/-! ### A measure and a list of names -/

/-- A signature with a parameter of each kind. -/
def measure : Signature :=
  { positional := [⟨.named "Size", true⟩]
    rest := some (.named "Integer")
    named := [⟨"unit", .union [.named "Length", .named "Nil"], true⟩]
    namedRest := some .untyped
    returns := .self }

/-- With each of the parameters for the rest written once, all four parameters are kept. -/
theorem parse_parameters_measure :
    parse "(?Size, *Integer, unit: (Length | Nil), **untyped) -> self" = .ok measure ∧
      ∃ params ps, IsParamList "(?Size, *Integer, unit: (Length | Nil), **untyped) -> self" params ∧
        List.Forall₂ (fun part p => Reads (Text.trim part) p) (partsOfList params) ps ∧
        measure.HasParams ps ∧ measure.paramCount = 4 := by
  have hread : parse "(?Size, *Integer, unit: (Length | Nil), **untyped) -> self" =
      .ok measure := by with_unfolding_all rfl
  obtain ⟨params, ps, hlist, -, hps, hparams, -, -⟩ := parse_parameters hread
  exact ⟨hread, params, ps, hlist, hps, hparams, rfl⟩

/-- **A repeated parameter is dropped.** Of two parameters for the rest of the arguments only the
second is left, although the text is accepted. -/
theorem repeated_rest_is_dropped : ¬ ∀ text s params, parse text = .ok s →
    IsParamList text params → s.paramCount = (partsOfList params).length := by
  intro h
  have hread : parse "(*Integer, *String) -> Nil" =
      .ok { returning (.named "Nil") with rest := some (.named "String") } := by
    with_unfolding_all rfl
  have hlist : IsParamList "(*Integer, *String) -> Nil" "*Integer, *String".toList :=
    ⟨.of_forall (by simp), " -> Nil".toList, by decide⟩
  have hcount := h _ _ _ hread hlist
  exact absurd hcount (by decide)

end Signature

end MockAudit
