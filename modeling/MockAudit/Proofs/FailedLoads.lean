import MockAudit.Proofs.SignatureRoundTrip

/-!
# Loads that fail

A signature file is read as a whole, but its declarations become known one after the other: first
its types, then its methods up to the first that cannot be read. When that one ends the load,
nothing of what became known is taken back. So a load that fails leaves behind exactly what the
successful load of a shorter file leaves, the one that ends in front of the fault
(`Declarations.loadText_error_iff`). A text that is no signature file leaves nothing behind.

What is left behind can be seen: methods of the refused file have signatures, and superclasses that
it gives to types are used in the checks of methods that were declared elsewhere
(`Declarations.loadText_failed`, `refused_file_is_used`).

## Main definitions

* `latest`: the value that a list gives last to a key.
* `DeclarationFile.signature?`, `DeclarationFile.superclass?`: what a file says of a method and of a
  type.
* `Declarations.IsReadable`: a method of a file can be read.
* `Declarations.extended`: the declarations together with those of a file.
* `Declarations.Front`: the part of a file in front of the fault that ends its load.
* `Declarations.AnswersAlike`: no question is answered differently.

## Main results

* `Declarations.signature?_extended`, `Declarations.hierarchy_extended`: what declarations answer
  once those of a file have been added.
* `Declarations.loadText_error_iff`: what a failed load does, as a successful load.
* `Declarations.loadText_failed`: what a failed load changes, and when it changes nothing.
-/

namespace MockAudit

/-! ### The last value of a key -/

section

variable {α β : Type} [DecidableEq α]

/-- The value that a list gives last to a key. -/
def latest (entries : List (α × β)) (key : α) : Option β :=
  entries.reverse.lookup key

private theorem latest_concat (entries : List (α × β)) (last : α × β) (key : α) :
    latest (entries ++ [last]) key = if key = last.1 then some last.2 else latest entries key := by
  rw [latest, List.reverse_append, List.reverse_singleton, List.singleton_append, List.lookup_cons]
  by_cases hkey : key = last.1
  · rw [beq_iff_eq.mpr hkey, if_pos hkey]
  · rw [beq_eq_false_iff_ne.mpr hkey, if_neg hkey, latest]

end

private theorem SignatureTable.storeAll_apply (table : SignatureTable)
    (entries : List (MethodRef × Signature)) (key : MethodRef) :
    table.storeAll entries key = (latest entries key).or (table key) := by
  induction entries using List.reverseRecOn with
  | nil => rfl
  | append_singleton entries last ih =>
    rw [storeAll_concat, store, ih, latest_concat]
    split_ifs <;> rfl

namespace DeclarationFile

/-- The methods of a file that can be read, with their signatures. -/
def readable (file : DeclarationFile) : List (MethodRef × Signature) :=
  file.methods.filterMap fun entry => (Declarations.readMethod entry).toOption

/-- The signature that a file declares for a method. If there are several, the last one counts. -/
def signature? (file : DeclarationFile) (key : MethodRef) : Option Signature :=
  latest file.readable key

/-- The superclass, if any, that a file declares for a type, if it declares the type. -/
def superclass? (file : DeclarationFile) (type : TypeName) : Option (Option TypeName) :=
  latest file.types type

end DeclarationFile

namespace Declarations

variable {d d' : Declarations} {env : Environment} {text source : String} {file : DeclarationFile}
  {before after : List (String × String)} {entry : String × String} {fault : SignatureFault}
  {e : Error}

/-! ### Reading methods up to a fault -/

/-- A declared method that can be read. -/
def IsReadable (entry : String × String) : Prop :=
  ∃ read, readMethod entry = .ok read

/-- Behind methods that can be read, reading goes on. -/
theorem readMethods_append (h : ∀ m ∈ before, IsReadable m) (rest : List (String × String)) :
    readMethods (before ++ rest) =
      ((readMethods before).1 ++ (readMethods rest).1, (readMethods rest).2) := by
  induction before with
  | nil => rfl
  | cons m before ih =>
    obtain ⟨⟨read, hread⟩, hbefore⟩ := List.forall_mem_cons.mp h
    rw [List.cons_append]
    simp only [readMethods, hread, ih hbefore, List.cons_append]

private theorem readMethods_of_readable (h : ∀ m ∈ before, IsReadable m) :
    (readMethods before).2 = none := by
  simpa [readMethods] using congrArg Prod.snd (readMethods_append h [])

/-- What follows a method that cannot be read is not looked at. -/
theorem readMethods_append_error (h : ∀ m ∈ before, IsReadable m)
    (hentry : readMethod entry = .error fault) (after : List (String × String)) :
    readMethods (before ++ entry :: after) = ((readMethods before).1, some fault) := by
  have hlast : readMethods (entry :: after) = ([], some fault) := by
    simp only [readMethods, hentry]
  rw [readMethods_append h, hlast, List.append_nil]

/-- When not all methods are read, there is a first one that cannot be. -/
theorem exists_of_readMethods {methods : List (String × String)}
    (h : (readMethods methods).2 = some fault) :
    ∃ before entry after, methods = before ++ entry :: after ∧
      (∀ m ∈ before, IsReadable m) ∧ readMethod entry = .error fault := by
  induction methods with
  | nil => cases h
  | cons m methods ih =>
    cases hread : readMethod m with
    | error first =>
      rw [readMethods, hread] at h
      obtain rfl : first = fault := Option.some.inj h
      exact ⟨[], m, methods, rfl, List.forall_mem_nil _, hread⟩
    | ok read =>
      rw [readMethods, hread] at h
      obtain ⟨before, entry, after, rfl, hbefore, hentry⟩ := ih h
      exact ⟨m :: before, entry, after, rfl, List.forall_mem_cons.mpr ⟨⟨read, hread⟩, hbefore⟩,
        hentry⟩

/-- The signatures read are those of the methods that can be read. -/
theorem map_readMethods (h : ∀ m ∈ before, IsReadable m) :
    (readMethods before).1.map (·.2) =
      before.filterMap fun entry => (readMethod entry).toOption := by
  induction before with
  | nil => rfl
  | cons m before ih =>
    obtain ⟨⟨read, hread⟩, hbefore⟩ := List.forall_mem_cons.mp h
    have hfirst : (readMethod m).toOption = some read := by
      rw [hread]
      rfl
    rw [readMethods, hread, List.filterMap_cons, hfirst, ← ih hbefore]
    rfl

/-! ### Adding the declarations of a file -/

/-- The declarations together with those of a file whose methods can be read. -/
def extended (d : Declarations) (file : DeclarationFile) : Declarations :=
  { d.declareTypes file.types with declared := d.declared.storeAll file.readable }

private theorem declareTypes_eq (d : Declarations) (types : List (TypeName × Option TypeName)) :
    d.declareTypes types = { d with types := fun t => (latest types t).or (d.types t) } := by
  induction types using List.reverseRecOn with
  | nil => rfl
  | append_singleton types last ih =>
    have hlast : d.declareTypes (types ++ [last]) = { d.declareTypes types with
        types := fun t => if t = last.1 then some last.2 else (d.declareTypes types).types t } := by
      rw [declareTypes, declareTypes, List.foldl_append]
      rfl
    have htypes : (fun t => if t = last.1 then some last.2 else (latest types t).or (d.types t)) =
        fun t => (latest (types ++ [last]) t).or (d.types t) := by
      funext t
      rw [latest_concat]
      split_ifs <;> rfl
    rw [hlast, ih, ← htypes]

/-- A method has the signature that was added, or else the one it had. -/
theorem signature?_extended (d : Declarations) (file : DeclarationFile) (key : MethodRef) :
    (d.extended file).signature? key = (file.signature? key).or (d.signature? key) := by
  have hinferred : (d.extended file).inferred = d.inferred := by
    rw [extended, declareTypes_eq]
  rw [signature?, hinferred, signature?, ← Option.or_assoc]
  exact congrArg (Option.or · _) (d.declared.storeAll_apply file.readable key)

/-- A type that was added has the superclass given with it, or else that of the program. The
superclass it may have been given earlier does not count any more. -/
theorem hierarchy_extended (d : Declarations) (env : Environment) (file : DeclarationFile)
    (type : TypeName) : (d.extended file).hierarchy env type =
      match file.superclass? type with
      | some superclass => superclass.or (env.hierarchy type)
      | none => d.hierarchy env type := by
  have htypes : (d.extended file).types type = (file.superclass? type).or (d.types type) := by
    rw [extended, declareTypes_eq]
    rfl
  rw [hierarchy, Hierarchy.layered, htypes]
  cases file.superclass? type with
  | some superclass => rfl
  | none => rfl

/-! ### The part in front of the fault -/

/-- The part of a signature file in front of the fault that ends its load. In a text that is no
signature file, there is nothing in front of the fault. -/
inductive Front (text source : String) : DeclarationFile → Error → Prop
  | unreadable (hfile : DeclarationFile.parse? text = none) :
    Front text source ⟨[], []⟩ (.withContext ("Failed to parse signature file " ++ source))
  | cut {file : DeclarationFile} {before after : List (String × String)} {entry : String × String}
      {fault : SignatureFault} (hfile : DeclarationFile.parse? text = some file)
      (hmethods : file.methods = before ++ entry :: after)
      (hbefore : ∀ m ∈ before, IsReadable m)
      (hentry : readMethod entry = .error fault) :
    Front text source ⟨file.types, before⟩ (.signature fault (some source))

theorem Front.readable {front : DeclarationFile} (h : Front text source front e) :
    ∀ m ∈ front.methods, IsReadable m := by
  cases h with
  | unreadable => exact List.forall_mem_nil _
  | cut _ _ hbefore => exact hbefore

/-- A text that is no signature file is refused before anything is declared. -/
theorem loadText_of_parse?_eq_none (d : Declarations) (env : Environment) (source : String)
    (h : DeclarationFile.parse? text = none) : (d.loadText env text source).value =
      (d, .error (.withContext ("Failed to parse signature file " ++ source))) := by
  rw [loadText, h]
  rfl

/-- A file whose methods can be read is loaded as a whole. -/
theorem loadText_write (d : Declarations) (env : Environment) (source : String)
    (h : ∀ m ∈ file.methods, IsReadable m) :
    (d.loadText env file.write source).value = (d.extended file, .ok file.methods.length) := by
  rw [loadText_of_parse? d env source (DeclarationFile.parse?_write file),
    readMethods_of_readable h, map_readMethods h]
  rfl

/-- What is in front of the fault has been added when a load fails. -/
theorem Front.loadText {front : DeclarationFile} (h : Front text source front e)
    (d : Declarations) (env : Environment) :
    (d.loadText env text source).value = (d.extended front, .error e) := by
  cases h with
  | unreadable hfile => exact loadText_of_parse?_eq_none d env source hfile
  | cut hfile hmethods hbefore hentry =>
    rw [loadText_of_parse? d env source hfile, hmethods, readMethods_append_error hbefore hentry,
      map_readMethods hbefore]
    rfl

/-- A load fails only at a fault that has a part of the file in front of it. -/
theorem exists_front (h : (d.loadText env text source).value = (d', .error e)) :
    ∃ front, Front text source front e := by
  cases hfile : DeclarationFile.parse? text with
  | none =>
    rw [loadText_of_parse?_eq_none d env source hfile] at h
    obtain rfl := Except.error.inj (Prod.ext_iff.mp h).2
    exact ⟨_, .unreadable hfile⟩
  | some file =>
    rw [loadText_of_parse? d env source hfile] at h
    have hresult := (Prod.ext_iff.mp h).2
    cases hfault : (readMethods file.methods).2 with
    | none => rw [hfault] at hresult; cases hresult
    | some fault =>
      rw [hfault] at hresult
      obtain rfl := Except.error.inj hresult
      obtain ⟨before, entry, after, hmethods, hbefore, hentry⟩ := exists_of_readMethods hfault
      exact ⟨_, .cut hfile hmethods hbefore hentry⟩

/-- **A failed load is the successful load of the part in front of the fault**, but for the
answer. -/
theorem loadText_error_iff : (d.loadText env text source).value = (d', .error e) ↔
    ∃ front, Front text source front e ∧
      (d.loadText env front.write source).value = (d', .ok front.methods.length) := by
  constructor
  · intro h
    obtain ⟨front, hfront⟩ := exists_front h
    obtain rfl : d.extended front = d' := congrArg Prod.fst ((hfront.loadText d env).symm.trans h)
    exact ⟨front, hfront, loadText_write d env source hfront.readable⟩
  · rintro ⟨front, hfront, hload⟩
    rw [loadText_write d env source hfront.readable] at hload
    obtain rfl : d.extended front = d' := congrArg Prod.fst hload
    exact hfront.loadText d env

/-! ### What a failed load changes -/

/-- No question is answered differently: neither which signature a method has, nor what is wrong
with a call. -/
structure AnswersAlike (env : Environment) (d d' : Declarations) : Prop where
  signature? : ∀ key, d'.signature? key = d.signature? key
  check : ∀ c strict, (Checker.signatures d').check env c strict =
    (Checker.signatures d).check env c strict

/-- A call of a method with a known signature is checked against it. -/
theorem check_of_signature? {c : Call} {s : Signature} (h : d.signature? c.key = some s)
    (env : Environment) (strict : Bool) : (Checker.signatures d).check env c strict =
      (s.check c (d.hierarchy env)).map fun mismatch => mismatch.map .mismatch := by
  have hsignature : (Checker.signatures d).signature? env c.key = some s := h
  rw [Checker.check, hsignature]
  change (s.check c (d.hierarchy env) >>= fun found => pure (found.map TypeFailure.mismatch)) = _
  cases s.check c (d.hierarchy env) <;> rfl

/-- Checks differ by nothing but the signatures and the hierarchy. -/
theorem check_congr {c : Call} (hsignature : d'.signature? c.key = d.signature? c.key)
    (hcheck : ∀ s, d.signature? c.key = some s →
      s.check c (d'.hierarchy env) = s.check c (d.hierarchy env)) (strict : Bool) :
    (Checker.signatures d').check env c strict = (Checker.signatures d).check env c strict := by
  cases hknown : d.signature? c.key with
  | some s =>
    rw [check_of_signature? (hsignature.trans hknown), check_of_signature? hknown, hcheck s hknown]
  | none =>
    have hbefore : (Checker.signatures d).signature? env c.key = none := hknown
    have hafter : (Checker.signatures d').signature? env c.key = none := hsignature.trans hknown
    rw [Checker.check, Checker.check, hbefore, hafter]
    rfl

/-- So all answers are as before if no method has another signature and no check of a method with a
signature depends on what has changed in the hierarchy. -/
theorem answersAlike_iff : AnswersAlike env d d' ↔
    (∀ key, d'.signature? key = d.signature? key) ∧
      ∀ c s, d.signature? c.key = some s →
        s.check c (d'.hierarchy env) = s.check c (d.hierarchy env) := by
  constructor
  · refine fun h => ⟨h.signature?, fun c s hknown => ?_⟩
    have hcheck := h.check c false
    rw [check_of_signature? ((h.signature? _).trans hknown), check_of_signature? hknown] at hcheck
    have hinjective : Function.Injective (Except.map (ε := Fault)
        fun mismatch : Option Mismatch => mismatch.map TypeFailure.mismatch) := by
      rintro (_ | _ | _) (_ | _ | _) heq <;> cases heq <;> rfl
    exact hinjective hcheck
  · exact fun ⟨hsignature, hcheck⟩ =>
      ⟨hsignature, fun c strict => check_congr (hsignature _) (hcheck c) strict⟩

/-- **Failed loads are not undone.** When a load fails, a part of the file lies in front of the
fault, and the declarations are those after a successful load of this part: each method in it has
the signature given there, and each type in it the superclass given there. All answers are as they
were before exactly if the methods had these signatures already and no check of a method with a
signature depends on the superclasses; so it is when the text is no signature file, as then nothing
is in front of the fault. -/
theorem loadText_failed (h : (d.loadText env text source).value = (d', .error e)) :
    ∃ front, Front text source front e ∧
      (d.loadText env front.write source).value = (d', .ok front.methods.length) ∧
      (∀ key, d'.signature? key = (front.signature? key).or (d.signature? key)) ∧
      (∀ type, d'.hierarchy env type =
        match front.superclass? type with
        | some superclass => superclass.or (env.hierarchy type)
        | none => d.hierarchy env type) ∧
      (AnswersAlike env d d' ↔
        (∀ key s, front.signature? key = some s → d.signature? key = some s) ∧
          ∀ c s, d.signature? c.key = some s →
            s.check c (d'.hierarchy env) = s.check c (d.hierarchy env)) ∧
      (DeclarationFile.parse? text = none → d' = d) := by
  obtain ⟨front, hfront, hload⟩ := loadText_error_iff.mp h
  obtain rfl : d.extended front = d' :=
    congrArg Prod.fst ((hfront.loadText d env).symm.trans h)
  refine ⟨front, hfront, hload, d.signature?_extended front, d.hierarchy_extended env front, ?_,
    fun hfile => ?_⟩
  · rw [answersAlike_iff]
    refine and_congr_left' (forall_congr' fun key => ?_)
    rw [signature?_extended]
    cases front.signature? key with
    | none => simp
    | some s => simp [eq_comm]
  · rw [loadText_of_parse?_eq_none d env source hfile] at h
    exact (Prod.ext_iff.mp h).1.symm

end Declarations

/-! ### A refused file -/

/-- What a program without declared types shows of itself. -/
def bareProgram : Environment :=
  Catalog.empty.environment

/-- A file that declares the rate of a tax. -/
def ratesFile : String :=
  "[[methods]]\nmethod = \"Tax.rate\"\nsignature = \"(Numeric) -> Integer\"\n"

/-- A file that moves the integers in the hierarchy and declares two methods, the second of them
without its type. -/
def lateFile : String :=
  "[[types]]\nname = \"Integer\"\nsuperclass = \"Object\"\n\n" ++
    "[[methods]]\nmethod = \"Tax.late\"\nsignature = \"() -> Nil\"\n\n" ++
    "[[methods]]\nmethod = \"late\"\nsignature = \"() -> Nil\"\n"

/-- The declarations once the rate is known. -/
def rates : Declarations :=
  (({} : Declarations).loadText bareProgram ratesFile "rates.toml").value.1

/-- A call that fits the rate. -/
def rateOfOne : Call :=
  { target := .typeItself "Tax", method := "rate", arguments := [.int 1], result := some (.int 2) }

/-- The second file is refused, with the first of its methods in front of the fault. -/
theorem loadText_failed_of_lateFile :
    ∃ d e front, (rates.loadText bareProgram lateFile "late.toml").value = (d, .error e) ∧
      Declarations.Front lateFile "late.toml" front e ∧
      (rates.loadText bareProgram front.write "late.toml").value =
        (d, .ok front.methods.length) ∧
      ∀ key, d.signature? key = (front.signature? key).or (rates.signature? key) := by
  have hfailed : (rates.loadText bareProgram lateFile "late.toml").value.2.isOk = false := by
    decide +kernel
  rcases hload : (rates.loadText bareProgram lateFile "late.toml").value with ⟨d, e | count⟩
  · obtain ⟨front, hfront, hwrite, hsignature, -⟩ := Declarations.loadText_failed hload
    exact ⟨d, e, front, rfl, hfront, hwrite, hsignature⟩
  · rw [hload] at hfailed
    cases hfailed

/-- Although the file is refused, its first method has a signature from then on, and a call that was
in order is not any more. -/
theorem refused_file_is_used :
    let d := (rates.loadText bareProgram lateFile "late.toml").value.1
    (rates.loadText bareProgram lateFile "late.toml").value.2.isOk = false ∧
      (rates.signature? (.typeItself "Tax", "late")).isSome = false ∧
      (d.signature? (.typeItself "Tax", "late")).isSome = true ∧
      ((Checker.signatures rates).check bareProgram rateOfOne true).toOption.join.isSome = false ∧
      ((Checker.signatures d).check bareProgram rateOfOne true).toOption.join.isSome = true := by
  decide +kernel

end MockAudit
