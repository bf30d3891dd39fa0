import MockAudit.Checker.Loading
import MockAudit.Proofs.DeclarationFiles
import MockAudit.Proofs.InferredSignatures
import MockAudit.Proofs.PrintedSignatures
import MockAudit.Signature.Listing

/-!
# Inferred signatures survive a signature file

What inference finds out about real calls can be listed as a signature file. If the names in the
calls can be told apart from the marks of the file (`Call.IsWritable`), the listing is read back
without a loss: loading it makes known, for every method that was called, exactly the signature
that was inferred (`Declarations.loadText_render`). The listing also declares the types that occur
in the signatures. As it gives them the superclasses that the catalog knows, this declares nothing
new, and a checker with the loaded declarations checks every call as one does that has learned the
inferred signatures directly.

## Main definitions

* `Value.HasPathType`: the type that a value reveals has a name that can be written.
* `Call.IsWritable`: the names in a call can be written into a signature file.
* `Declarations.listed`: what a listing of signatures declares.

## Main results

* `Inference.isFlat_profile`: signatures inferred from such calls can be written and read.
* `Declarations.readMethods_listed`: listed methods are read with their signatures.
* `Declarations.loadText_of_parse?`: what the load of a signature file declares and answers.
* `Declarations.loadText_listed`: a listing is loaded as a whole.
* `Declarations.hierarchy_listed`: the listed superclasses change no comparison of types.
* `Declarations.loadText_render`: a loaded listing is as good as what it lists.
-/

namespace MockAudit

/-! ### Calls with names that can be written -/

/-- The type that a value reveals has a name that can be written. -/
def Value.HasPathType (v : Value) : Prop :=
  ∀ type ∈ v.sampledType?, type.IsPath

/-- Only objects reveal types that are not built in. -/
theorem Value.hasPathType {v : Value} (h : ∀ i type, v = .object i type → type.IsPath) :
    v.HasPathType := by
  rintro type htype
  cases v with
  | object i type' =>
    obtain rfl : type' = type := Option.some.inj htype
    exact h i type' rfl
  | double d => cases htype
  | _ =>
    obtain rfl := Option.some.inj htype
    exact TypeName.isPath_of_isBuiltin rfl

/-- The names in a call can be told apart from the marks of a signature file. -/
structure Call.IsWritable (c : Call) : Prop where
  target : c.target.type.IsPath
  method : c.method ≠ "" ∧ ∀ ch ∈ c.method.toList, ch ≠ '#' ∧ ch ≠ '.'
  flag : c.namedFlag = some true → c.arguments ≠ []
  arguments : ∀ v ∈ c.arguments, v.HasPathType
  named : ∀ e ∈ c.named, IsKeyword (Signature.keyName e.1) ∧ e.2.HasPathType
  result : c.resultOrNil.HasPathType

namespace Inference

variable {key : MethodRef} {calls : List Call}

private theorem isPath_of_mem_sortedNames {α : Type} {items : List α} {f : α → Option Value}
    (h : ∀ a ∈ items, ∀ v ∈ f a, v.HasPathType) :
    ∀ name ∈ sortedNames (items.filterMap fun a => (f a).bind Value.sampledType?),
      TypeName.IsPath name := by
  intro name hname
  obtain ⟨a, ha, hvalue⟩ := List.mem_filterMap.mp (mem_sortedNames.mp hname)
  obtain ⟨v, hv, htype⟩ := Option.bind_eq_some_iff.mp hvalue
  exact h a ha v hv name htype

private theorem isPath_of_mem_slotAt (h : ∀ c ∈ calls, c.IsWritable) (index : Nat) :
    ∀ name ∈ (slotAt (calls.map Call.positionalValues) index).types, TypeName.IsPath name := by
  refine isPath_of_mem_sortedNames fun row hrow v hv => ?_
  obtain ⟨c, hc, rfl⟩ := List.mem_map.mp hrow
  exact (h c hc).arguments v (Call.mem_arguments_of_mem_positionalValues (List.mem_of_getElem? hv))

private theorem isPath_of_mem_keywordTypes (h : ∀ c ∈ calls, c.IsWritable) :
    ∀ entry ∈ keywordTypes (calls.flatMap (·.named)),
      IsKeyword entry.1 ∧ ∀ name ∈ entry.2, TypeName.IsPath name := by
  have hentries : ∀ e ∈ calls.flatMap (·.named),
      IsKeyword (Signature.keyName e.1) ∧ e.2.HasPathType := by
    intro e he
    obtain ⟨c, hc, he⟩ := List.mem_flatMap.mp he
    exact (h c hc).named e he
  refine List.forall_mem_map.mpr fun keyword hkeyword => ⟨?_, ?_⟩
  · obtain ⟨e, he, rfl⟩ := List.mem_map.mp (mem_sortedNames.mp hkeyword)
    exact (hentries e he).1
  · refine isPath_of_mem_sortedNames (f := fun e : Value × Value => some e.2) fun e he v hv => ?_
    obtain rfl := Option.some.inj hv
    exact (hentries e (List.mem_of_mem_filter he)).2

private theorem isPath_of_mem_resultTypes (h : ∀ c ∈ calls, c.IsWritable) :
    ∀ name ∈ resultTypes calls, TypeName.IsPath name := by
  refine isPath_of_mem_sortedNames (f := fun c : Call => some c.resultOrNil) fun c hc v hv => ?_
  obtain rfl := Option.some.inj hv
  exact (h c (List.mem_of_mem_filter hc)).result

/-- A signature that was inferred from calls with writable names can be written and read. -/
theorem isFlat_profile (h : ∀ c ∈ calls, c.IsWritable) :
    (profile key calls).toSignature.IsFlat where
  positional := by
    refine List.forall_mem_map.mpr fun slot hslot => ?_
    obtain ⟨index, -, rfl⟩ := List.mem_map.mp hslot
    exact TypeExpr.isFlat_ofNames (isPath_of_mem_slotAt h index)
  rest := fun _ hrest => nomatch hrest
  named := by
    refine List.forall_mem_map.mpr fun entry hentry => ?_
    obtain ⟨hkeyword, htypes⟩ := isPath_of_mem_keywordTypes h entry hentry
    exact ⟨hkeyword, TypeExpr.isFlat_ofNames htypes⟩
  namedRest := fun _ hrest => nomatch hrest
  returns := by
    cases hmethod : key.2 == constructorName with
    | true =>
      have hreturns : (profile key calls).toSignature.returns = .self := by
        simp only [UsageProfile.toSignature, profile, hmethod, if_true]
      rw [hreturns]
      exact .self
    | false =>
      have hreturns : (profile key calls).toSignature.returns = .ofNames (resultTypes calls) := by
        simp only [UsageProfile.toSignature, profile, hmethod, Bool.false_eq_true, if_false]
      rw [hreturns]
      exact TypeExpr.isFlat_ofNames (isPath_of_mem_resultTypes h)

end Inference

/-! ### Loading a listing -/

namespace Declarations

/-- Listed methods are read with the signatures that were listed. -/
theorem readMethods_listed {profiles : List UsageProfile}
    (hkey : ∀ s ∈ profiles, MethodRef.parse? s.describe = some s.key)
    (hflat : ∀ s ∈ profiles, s.toSignature.IsFlat) :
    readMethods (profiles.map fun s => (s.describe, s.toSignature.text)) =
      (profiles.map fun s => (s.describe, s.key, s.toSignature), none) := by
  induction profiles with
  | nil => rfl
  | cons s profiles ih =>
    obtain ⟨hs, hkeys⟩ := List.forall_mem_cons.mp hkey
    obtain ⟨hs', hflats⟩ := List.forall_mem_cons.mp hflat
    have hread : readMethod (s.describe, s.toSignature.text) = .ok (s.key, s.toSignature) := by
      rw [readMethod, hs]
      simp only [Signature.parse_text hs']
    rw [List.map_cons, readMethods, hread]
    simp only [ih hkeys hflats, List.map_cons]

theorem foldl_declare (methods : List (String × MethodRef × Signature)) (d : Declarations) :
    methods.foldl (fun d (_, key, s) => d.declare key s) d =
      { d with declared := d.declared.storeAll (methods.map (·.2)) } := by
  induction methods generalizing d with
  | nil => rfl
  | cons entry methods ih => exact ih (d.declare entry.2.1 entry.2.2)

theorem declared_declareTypes (types : List (TypeName × Option TypeName)) (d : Declarations) :
    (d.declareTypes types).declared = d.declared := by
  induction types generalizing d with
  | nil => rfl
  | cons entry types ih => exact ih _

/-- The types of a signature file are declared, and its methods as far as they are read. -/
theorem loadText_of_parse? {text : String} {file : DeclarationFile} (d : Declarations)
    (env : Environment) (source : String) (h : DeclarationFile.parse? text = some file) :
    (d.loadText env text source).value =
      ({ d.declareTypes file.types with
          declared := d.declared.storeAll ((readMethods file.methods).1.map (·.2)) },
        match (readMethods file.methods).2 with
        | none => .ok file.methods.length
        | some fault => .error (.signature fault (some source))) := by
  rw [loadText, h]
  rcases hread : readMethods file.methods with ⟨read, _ | fault⟩ <;>
    simp only [hread, Logged.value_bind, Logged.value_pure, foldl_declare, declared_declareTypes]

/-- Declaring types leaves the signatures alone and makes each type known with its superclass. -/
theorem declareTypes_map (d : Declarations) (superclass? : Hierarchy) (names : List TypeName) :
    d.declareTypes (names.map fun t => (t, superclass? t)) =
      { d with types := fun t => if t ∈ names then some (superclass? t) else d.types t } := by
  induction names generalizing d with
  | nil => simp [declareTypes]
  | cons name names ih =>
    rw [List.map_cons, declareTypes, List.foldl_cons]
    refine (ih _).trans ?_
    congr 1
    funext t
    grind

/-- What a listing of signatures declares. -/
def listed (profiles : List UsageProfile) (catalog : Catalog) : Declarations where
  declared := SignatureTable.empty.storeAll (profiles.map fun s => (s.key, s.toSignature))
  types := fun t =>
    if t ∈ Inference.customTypes profiles then some ((catalog.find? t).bind (·.superclass))
    else none

/-- A listing of signatures that can be written and read is loaded as a whole. -/
theorem loadText_listed {profiles : List UsageProfile} (catalog : Catalog)
    (hkey : ∀ s ∈ profiles, MethodRef.parse? s.describe = some s.key)
    (hflat : ∀ s ∈ profiles, s.toSignature.IsFlat) (env : Environment) (source : String) :
    (({} : Declarations).loadText env (ListingFormat.toml.render profiles catalog) source).value =
      (listed profiles catalog, .ok profiles.length) := by
  set file := DeclarationFile.ofInferred profiles catalog
  have hparse : DeclarationFile.parse? (ListingFormat.toml.render profiles catalog) = some file :=
    DeclarationFile.parse?_write file
  have htypes : ({} : Declarations).declareTypes file.types =
      { types := (listed profiles catalog).types } := declareTypes_map {} _ _
  have hread : readMethods file.methods =
      (profiles.map fun s => (s.describe, s.key, s.toSignature), none) :=
    readMethods_listed hkey hflat
  have hlength : file.methods.length = profiles.length := List.length_map _
  rw [loadText_of_parse? _ env source hparse, htypes, hread, hlength, List.map_map]
  rfl

/-- The superclasses in a listing are those the catalog knows, so they change no comparison. -/
theorem hierarchy_listed (profiles : List UsageProfile) (catalog : Catalog) :
    (listed profiles catalog).hierarchy catalog.environment = catalog.hierarchy := by
  funext t
  have hknown : ((catalog.find? t).bind (·.superclass)).or (catalog.hierarchy t) =
      catalog.hierarchy t := by
    rw [Catalog.hierarchy, Hierarchy.layered, ← Option.or_assoc, Option.or_self]
  by_cases ht : t ∈ Inference.customTypes profiles
  · simpa [hierarchy, Hierarchy.layered, listed, Catalog.environment, ht] using hknown
  · simp [hierarchy, Hierarchy.layered, listed, Catalog.environment, ht]

/-- A checker with the declarations of a listing checks every call as one does that has learned
the listed signatures. -/
theorem check_listed (profiles : List UsageProfile) (catalog : Catalog) (c : Call)
    (strict : Bool) :
    (Checker.signatures (listed profiles catalog)).check catalog.environment c strict =
      ((Checker.fresh .signatures).learn profiles).check catalog.environment c strict := by
  set table := SignatureTable.empty.storeAll (profiles.map fun s => (s.key, s.toSignature))
  have hlearn : (Checker.fresh .signatures).learn profiles =
      .signatures { inferred := table } := by
    have hfilter : profiles.filter (fun s => (SignatureTable.empty s.key).isNone) = profiles :=
      List.filter_eq_self.mpr fun _ _ => rfl
    rw [Checker.fresh, Checker.learn, hfilter]
  have hsignature : (listed profiles catalog).signature? c.key =
      ({ inferred := table } : Declarations).signature? c.key := Option.or_none
  have hhierarchy : (listed profiles catalog).hierarchy catalog.environment =
      ({ inferred := table } : Declarations).hierarchy catalog.environment :=
    hierarchy_listed profiles catalog
  rw [hlearn]
  simp only [Checker.check, Checker.signature?, Checker.hierarchy, Checker.kind, hsignature,
    hhierarchy]

/-- A method with one profile in the listing has the signature that was listed for it. -/
theorem signature?_listed {profiles : List UsageProfile} (catalog : Catalog) {s : UsageProfile}
    (hs : s ∈ profiles) (hone : ∀ t ∈ profiles, t.key = s.key → t = s) :
    (listed profiles catalog).signature? s.key = some s.toSignature := by
  obtain ⟨t, ht, hkey, hfound⟩ := SignatureTable.empty.storeAll_profiles hs
  obtain rfl := hone t ht hkey
  have hdeclared : (listed profiles catalog).declared t.key = some t.toSignature := hfound
  rw [signature?, hdeclared, Option.some_or]

/-- **Inferred signatures survive a signature file.** Let the names in some real calls be
writable. Then inference succeeds with one profile for each method that was called, and loading
the listing of the profiles makes known as many methods as were called, each with exactly the
signature inferred for it. A checker with what was loaded checks every call as one does that has
learned the profiles directly. -/
theorem loadText_render {calls : List Call} (h : ∀ c ∈ calls, c.IsWritable) (catalog : Catalog)
    (source : String) :
    ∃ profiles d, Inference.infer calls = .ok profiles ∧
      profiles.map (·.key) = Inference.methods calls ∧
      (({} : Declarations).loadText catalog.environment
        (ListingFormat.toml.render profiles catalog) source).value =
          (d, .ok (Inference.methods calls).length) ∧
      (∀ s ∈ profiles, d.signature? s.key = some s.toSignature) ∧
      ∀ c strict, (Checker.signatures d).check catalog.environment c strict =
        ((Checker.fresh .signatures).learn profiles).check catalog.environment c strict := by
  have hinfer := Inference.infer_of_positional fun c hc => Call.positional_eq_of_flag (h c hc).flag
  set profiles := (Inference.methods calls).map fun key =>
    Inference.profile key (Inference.callsOf calls key)
  have hkeys : profiles.map (·.key) = Inference.methods calls := by
    rw [List.map_map]
    exact List.map_id _
  have hlength : profiles.length = (Inference.methods calls).length := List.length_map _
  have hreference : ∀ s ∈ profiles, MethodRef.parse? s.describe = some s.key := by
    refine List.forall_mem_map.mpr fun key hkey => ?_
    rw [Inference.methods, List.mem_eraseDups] at hkey
    obtain ⟨c, hc, rfl⟩ := List.mem_map.mp hkey
    obtain ⟨hmethod, hchars⟩ := (h c hc).method
    exact MethodRef.parse?_describe (h c hc).target.ne_empty hmethod hchars
  have hflat : ∀ s ∈ profiles, s.toSignature.IsFlat :=
    List.forall_mem_map.mpr fun key _ =>
      Inference.isFlat_profile fun c hc => h c (List.mem_of_mem_filter hc)
  have hone : ∀ s ∈ profiles, ∀ t ∈ profiles, t.key = s.key → t = s := by
    refine List.forall_mem_map.mpr fun key _ => List.forall_mem_map.mpr fun key' _ hkey => ?_
    obtain rfl : key' = key := hkey
    rfl
  refine ⟨profiles, listed profiles catalog, hinfer, hkeys, ?_,
    fun s hs => signature?_listed catalog hs (hone s hs), check_listed profiles catalog⟩
  rw [← hlength]
  exact loadText_listed catalog hreference hflat _ source

end Declarations

/-! ### A shop -/

/-- Calls of a constructor and of a method with an odd name, which give different arguments. -/
def purchases : List Call :=
  [{ target := .instances "Shop::Basket", method := "initialize", arguments := [] },
   { target := .instances "Shop::Basket", method := "add \"all\"\n",
     arguments := [.str "SKU", .int 2], result := some (.object 7 "Shop::Receipt") },
   { target := .instances "Shop::Basket", method := "add \"all\"\n",
     arguments := [.symbol "sku", .map [(.symbol "gift_wrap", .bool true)]],
     namedFlag := some true, raised := some "sold out" }]

/-- A catalog with a type that occurs in the purchases. -/
def shop : Catalog :=
  ⟨[("Shop::Receipt", { superclass := some "Paper" })]⟩

private theorem purchases_isWritable : ∀ c ∈ purchases, c.IsWritable := by
  have hbasket : TypeName.IsPath "Shop::Basket" := by
    refine ⟨["Shop", "Basket"], by decide, rfl, ?_⟩
    rintro part (_ | ⟨_, _ | ⟨_, ⟨⟩⟩⟩)
    · exact ⟨'S', _, rfl, rfl, List.all_eq_true.mp rfl⟩
    · exact ⟨'B', _, rfl, rfl, List.all_eq_true.mp rfl⟩
  have hreceipt : TypeName.IsPath "Shop::Receipt" := by
    refine ⟨["Shop", "Receipt"], by decide, rfl, ?_⟩
    rintro part (_ | ⟨_, _ | ⟨_, ⟨⟩⟩⟩)
    · exact ⟨'S', _, rfl, rfl, List.all_eq_true.mp rfl⟩
    · exact ⟨'R', _, rfl, rfl, List.all_eq_true.mp rfl⟩
  have hmethod {method : String}
      (h : method.toList.all (fun ch => ch != '#' && ch != '.') = true) :
      ∀ ch ∈ method.toList, ch ≠ '#' ∧ ch ≠ '.' :=
    fun ch hch => by simpa using List.all_eq_true.mp h ch hch
  have hkeyword : IsKeyword "gift_wrap" := ⟨'g', _, rfl, .inl rfl, List.all_eq_true.mp rfl⟩
  have hstr (text : String) : (Value.str text).HasPathType := Value.hasPathType nofun
  have hsymbol (name : String) : (Value.symbol name).HasPathType := Value.hasPathType nofun
  have hnil : Value.nil.HasPathType := Value.hasPathType nofun
  intro c hc
  obtain rfl | rfl | rfl : c = purchases[0] ∨ c = purchases[1] ∨ c = purchases[2] := by
    simpa [purchases] using hc
  · exact ⟨hbasket, ⟨by decide, hmethod rfl⟩, nofun, nofun, nofun, hnil⟩
  · refine ⟨hbasket, ⟨by decide, hmethod rfl⟩, nofun, ?_, nofun, Value.hasPathType ?_⟩
    · exact List.forall_mem_cons.mpr ⟨hstr _, List.forall_mem_singleton.mpr
        (Value.hasPathType nofun)⟩
    · rintro i type ⟨⟩
      exact hreceipt
  · refine ⟨hbasket, ⟨by decide, hmethod rfl⟩, fun _ => List.cons_ne_nil _ _, ?_, ?_, hnil⟩
    · exact List.forall_mem_cons.mpr ⟨hsymbol _, List.forall_mem_singleton.mpr
        (Value.hasPathType nofun)⟩
    · exact List.forall_mem_singleton.mpr ⟨hkeyword, Value.hasPathType nofun⟩

/-- What is inferred from the purchases survives a signature file. -/
theorem loadText_render_of_purchases :
    ∃ profiles d, Inference.infer purchases = .ok profiles ∧
      profiles.map (·.key) = Inference.methods purchases ∧
      (({} : Declarations).loadText shop.environment
        (ListingFormat.toml.render profiles shop) "shop.toml").value =
          (d, .ok (Inference.methods purchases).length) ∧
      (∀ s ∈ profiles, d.signature? s.key = some s.toSignature) ∧
      ∀ c strict, (Checker.signatures d).check shop.environment c strict =
        ((Checker.fresh .signatures).learn profiles).check shop.environment c strict :=
  Declarations.loadText_render purchases_isWritable shop "shop.toml"

end MockAudit
