import MockAudit.Proofs.NumberTexts
import MockAudit.Recording.File

/-!
# Recordings read back

A recording that was written is not always read. The writer has a form for every value and goes to
any depth, while the reader neither takes the null that stands for a floating-point number that is
not finite, nor goes below a fixed number of arrays and objects inside one another. These are the
only obstacles: a recording is read if and only if all its floating-point numbers are finite and
none of its values is nested too deeply. A single value that is refused makes the whole recording
unreadable.

## Main definitions

* `Snapshot.levels`: how many arrays and objects the data of a snapshot puts inside one another.
* `Snapshot.floats`: the floating-point numbers in a snapshot.
* `Snapshot.Fits`: what a snapshot needs to be read.
* `CallSnapshot.Fits`: what a recorded call needs to be read.

## Main results

* `Snapshot.isSome_ofJson?_toJson`: the data of a snapshot is read if and only if it fits.
* `Recording.isSome_parse?_text`: a recording is read if and only if its calls fit.
-/

namespace MockAudit

open Json

private theorem isSome_mapM_iff {α β : Type} {f : α → Option β} {as : List α} :
    (as.mapM f).isSome ↔ ∀ a ∈ as, (f a).isSome := by
  induction as with
  | nil => simp
  | cons a as ih =>
    rw [List.mapM_cons, List.forall_mem_cons, ← ih]
    cases f a <;> cases as.mapM f <;> simp

/-- A step whose outcome decides nothing for the steps after it. -/
theorem isSome_bind_iff {α β : Type} {a : Option α} {f : α → Option β} {p : Prop}
    (h : ∀ x, (f x).isSome ↔ p) : (a.bind f).isSome ↔ a.isSome ∧ p := by
  cases a with
  | none => simp
  | some x => simp [h x]

private theorem isSome_bind_some {α β : Type} {a : Option α} {f : α → β} :
    (a.bind fun x => some (f x)).isSome ↔ a.isSome := by
  cases a <;> rfl

namespace Binary64

/-- Whether a number is neither an infinity nor undefined. -/
def isFinite : Binary64 → Bool
  | finite .. => true
  | _ => false

end Binary64

/-! ### Snapshots -/

namespace Snapshot

mutual

/-- How many arrays and objects the data of a snapshot puts inside one another. -/
def levels : Snapshot → Nat
  | .nil => 0
  | .array items => levelsOfItems items + 2
  | .map entries => levelsOfEntries entries + 2
  | .object _ fields => levelsOfFields fields + 3
  | .double _ .plain => 2
  | .double _ (.instanceOf _) | .double _ (.staticOf _) => 3
  | .bool _ | .int _ | .float _ | .str _ | .symbol _ | .type _ => 1

/-- The levels of the items of an array. -/
def levelsOfItems : List Snapshot → Nat
  | [] => 0
  | s :: ss => max s.levels (levelsOfItems ss)

/-- The levels of the entries of a map. -/
def levelsOfEntries : List (Snapshot × Snapshot) → Nat
  | [] => 0
  | (k, v) :: rest => max (max k.levels v.levels + 1) (levelsOfEntries rest)

/-- The levels of the fields of an object. -/
def levelsOfFields : List (String × Snapshot) → Nat
  | [] => 0
  | (_, s) :: rest => max s.levels (levelsOfFields rest)

end

mutual

/-- The floating-point numbers in a snapshot. -/
def floats : Snapshot → List Binary64
  | .float x => [x]
  | .array items => floatsOfItems items
  | .map entries => floatsOfEntries entries
  | .object _ fields => floatsOfFields fields
  | .nil | .bool _ | .int _ | .str _ | .symbol _ | .type _ | .double .. => []

/-- The floating-point numbers in the items of an array. -/
def floatsOfItems : List Snapshot → List Binary64
  | [] => []
  | s :: ss => s.floats ++ floatsOfItems ss

/-- The floating-point numbers in the entries of a map. -/
def floatsOfEntries : List (Snapshot × Snapshot) → List Binary64
  | [] => []
  | (k, v) :: rest => k.floats ++ v.floats ++ floatsOfEntries rest

/-- The floating-point numbers in the fields of an object. -/
def floatsOfFields : List (String × Snapshot) → List Binary64
  | [] => []
  | (_, s) :: rest => s.floats ++ floatsOfFields rest

end

/-- What a snapshot needs to be read below the given number of levels. -/
@[mk_iff fits_iff]
structure Fits (depth : Nat) (s : Snapshot) : Prop where
  levels : s.levels ≤ depth
  finite : ∀ x ∈ s.floats, x.isFinite = true

/-- The floating-point numbers in a snapshot belong to the format. -/
def IsRepresentable (s : Snapshot) : Prop :=
  ∀ x ∈ s.floats, x.IsRepresentable

instance (s : Snapshot) : Decidable s.IsRepresentable :=
  inferInstanceAs (Decidable (∀ x ∈ s.floats, x.IsRepresentable))

instance (depth : Nat) (s : Snapshot) : Decidable (s.Fits depth) :=
  decidable_of_iff _ (fits_iff depth s).symm

/-- Induction over snapshots: what is shown of a collection or an object may use its parts. -/
@[elab_as_elim]
theorem induction {motive : Snapshot → Prop} (nil : motive nil) (bool : ∀ b, motive (bool b))
    (int : ∀ i, motive (int i)) (float : ∀ x, motive (float x)) (str : ∀ s, motive (str s))
    (symbol : ∀ name, motive (symbol name))
    (array : ∀ items, (∀ s ∈ items, motive s) → motive (array items))
    (map : ∀ entries, (∀ e ∈ entries, motive e.1 ∧ motive e.2) → motive (map entries))
    (type : ∀ name, motive (type name))
    (object : ∀ type fields, (∀ f ∈ fields, motive f.2) → motive (object type fields))
    (double : ∀ name kind, motive (double name kind)) : ∀ s, motive s
  | .nil => nil
  | .bool b => bool b
  | .int i => int i
  | .float x => float x
  | .str s => str s
  | .symbol name => symbol name
  | .array items => array items fun s _ =>
    induction nil bool int float str symbol array map type object double s
  | .map entries => map entries fun e he =>
    have hsize : sizeOf e.1 + sizeOf e.2 < sizeOf entries := by
      have hentry := List.sizeOf_lt_of_mem he
      rw [Prod.mk.sizeOf_spec] at hentry
      omega
    ⟨induction nil bool int float str symbol array map type object double e.1,
      induction nil bool int float str symbol array map type object double e.2⟩
  | .type name => type name
  | .object t fields => object t fields fun f hf =>
    have hsize : sizeOf f.2 < sizeOf fields := by
      have hfield := List.sizeOf_lt_of_mem hf
      rw [Prod.mk.sizeOf_spec] at hfield
      omega
    induction nil bool int float str symbol array map type object double f.2
  | .double name kind => double name kind

section

variable {depth : Nat} {items : List Snapshot} {entries : List (Snapshot × Snapshot)}
  {fields : List (String × Snapshot)} {t : TypeName} {P : Binary64 → Prop}

theorem levelsOfItems_le_iff : levelsOfItems items ≤ depth ↔ ∀ s ∈ items, s.levels ≤ depth := by
  induction items with
  | nil => simp [levelsOfItems]
  | cons s ss ih => rw [levelsOfItems, Nat.max_le, ih, List.forall_mem_cons]

theorem levelsOfEntries_le_iff : levelsOfEntries entries ≤ depth ↔
    ∀ e ∈ entries, e.1.levels < depth ∧ e.2.levels < depth := by
  induction entries with
  | nil => simp [levelsOfEntries]
  | cons e rest ih =>
    rw [levelsOfEntries, Nat.max_le, ih, List.forall_mem_cons, Nat.succ_le_iff, Nat.max_lt]

theorem levelsOfFields_le_iff : levelsOfFields fields ≤ depth ↔
    ∀ f ∈ fields, f.2.levels ≤ depth := by
  induction fields with
  | nil => simp [levelsOfFields]
  | cons f rest ih => rw [levelsOfFields, Nat.max_le, ih, List.forall_mem_cons]

theorem forall_floatsOfItems :
    (∀ x ∈ floatsOfItems items, P x) ↔ ∀ s ∈ items, ∀ x ∈ s.floats, P x := by
  induction items with
  | nil => simp [floatsOfItems]
  | cons s ss ih => rw [floatsOfItems, List.forall_mem_append, ih, List.forall_mem_cons]

theorem forall_floatsOfEntries : (∀ x ∈ floatsOfEntries entries, P x) ↔
    ∀ e ∈ entries, (∀ x ∈ e.1.floats, P x) ∧ ∀ x ∈ e.2.floats, P x := by
  induction entries with
  | nil => simp [floatsOfEntries]
  | cons e rest ih =>
    rw [floatsOfEntries, List.forall_mem_append, List.forall_mem_append, ih, List.forall_mem_cons]

theorem forall_floatsOfFields :
    (∀ x ∈ floatsOfFields fields, P x) ↔ ∀ f ∈ fields, ∀ x ∈ f.2.floats, P x := by
  induction fields with
  | nil => simp [floatsOfFields]
  | cons f rest ih => rw [floatsOfFields, List.forall_mem_append, ih, List.forall_mem_cons]

/-! #### What fits -/

theorem fits_array_iff : (array items).Fits (depth + 2) ↔ ∀ s ∈ items, s.Fits depth := by
  simp only [fits_iff, levels, floats, forall_floatsOfItems, Nat.add_le_add_iff_right,
    levelsOfItems_le_iff, forall_and]

theorem fits_map_iff : (map entries).Fits (depth + 3) ↔
    ∀ e ∈ entries, e.1.Fits depth ∧ e.2.Fits depth := by
  simp only [fits_iff, levels, floats, forall_floatsOfEntries, levelsOfEntries_le_iff,
    show levelsOfEntries entries + 2 ≤ depth + 3 ↔ levelsOfEntries entries ≤ depth + 1 by omega]
  grind

theorem fits_object_iff : (object t fields).Fits (depth + 3) ↔ ∀ f ∈ fields, f.2.Fits depth := by
  simp only [fits_iff, levels, floats, forall_floatsOfFields, Nat.add_le_add_iff_right,
    levelsOfFields_le_iff, forall_and]

end

/-! #### The data of a snapshot -/

theorem itemsToJson_eq_map (items : List Snapshot) : itemsToJson items = items.map toJson := by
  induction items with
  | nil => rfl
  | cons s ss ih => rw [itemsToJson, ih, List.map_cons]

theorem entriesToJson_eq_map (entries : List (Snapshot × Snapshot)) :
    entriesToJson entries = entries.map fun e => .array [toJson e.1, toJson e.2] := by
  induction entries with
  | nil => rfl
  | cons e rest ih => rw [entriesToJson, ih, List.map_cons]

theorem fieldsToJson_eq_map (fields : List (String × Snapshot)) :
    fieldsToJson fields = fields.map fun f => (f.1, toJson f.2) := by
  induction fields with
  | nil => rfl
  | cons f rest ih => rw [fieldsToJson, ih, List.map_cons]

private theorem isProper_tagged {tag : String} {content : Json} (h : content.IsProper) :
    (Json.object [(tag, content)]).IsProper :=
  .object fun _ hm => List.mem_singleton.mp hm ▸ h

/-- The data of a finite number holds a proper text that reads back. -/
theorem exists_toJson_float_eq {negative : Bool} {m : Nat} {e : ℤ}
    (h : (Binary64.finite negative m e).IsRepresentable) :
    ∃ n : NumberText, n.IsProper ∧ n.toBinary64?.isSome ∧
      (float (.finite negative m e)).toJson = .object [("Float", .number n.written)] := by
  obtain ⟨n, hn, heq, hread⟩ := Binary64.exists_dataText?_eq h
  refine ⟨n, hn, hread, ?_⟩
  rw [toJson, heq]
  dsimp only
  rw [String.toList_ofList]
  rfl

/-- The numbers in the data of a snapshot are proper ones. What is not finite is written as null,
which is no number. -/
theorem isProper_toJson {s : Snapshot} (h : s.IsRepresentable) : s.toJson.IsProper := by
  induction s using Snapshot.induction with
  | nil => exact .string _
  | bool b => exact isProper_tagged (.bool b)
  | int i =>
    obtain ⟨n, hn, heq, -⟩ := exists_ofInt_eq i
    refine isProper_tagged ?_
    rw [heq]
    exact .number hn
  | float x =>
    cases x with
    | nan => exact isProper_tagged .null
    | infinite => exact isProper_tagged .null
    | finite negative m e =>
      obtain ⟨n, hn, -, heq⟩ := exists_toJson_float_eq (h _ (List.mem_singleton.mpr rfl))
      rw [heq]
      exact isProper_tagged (.number hn)
  | str content => exact isProper_tagged (.string content)
  | symbol name => exact isProper_tagged (.string name)
  | array items ih =>
    refine isProper_tagged (.array ?_)
    rw [itemsToJson_eq_map, List.forall_mem_map]
    exact fun s hs => ih s hs (forall_floatsOfItems.mp h s hs)
  | map entries ih =>
    refine isProper_tagged (.array ?_)
    rw [entriesToJson_eq_map, List.forall_mem_map]
    intro e he
    obtain ⟨hkey, hvalue⟩ := forall_floatsOfEntries.mp h e he
    refine .array ?_
    simp only [List.forall_mem_cons]
    exact ⟨(ih e he).1 hkey, (ih e he).2 hvalue, nofun⟩
  | type name => exact isProper_tagged (.string name)
  | object t fields ih =>
    refine isProper_tagged (.object ?_)
    simp only [List.forall_mem_cons]
    refine ⟨.string t, .object ?_, nofun⟩
    rw [fieldsToJson_eq_map, List.forall_mem_map]
    exact fun f hf => ih f hf (forall_floatsOfFields.mp h f hf)
  | double name kind =>
    refine isProper_tagged (.object ?_)
    simp only [List.forall_mem_cons]
    refine ⟨?_, ?_, nofun⟩
    · cases name
      · exact .null
      · exact .string _
    · cases kind
      · exact .string _
      · exact isProper_tagged (.string _)
      · exact isProper_tagged (.string _)

/-- What has too many levels is neither read nor fits. -/
theorem isSome_iff_fits_of_lt {s : Snapshot} {depth : Nat} (hlevels : depth < s.levels)
    (hread : ofJson? depth s.toJson = none) :
    (ofJson? depth s.toJson).isSome ↔ s.Fits depth :=
  iff_of_false (by simp [hread]) fun hfits => absurd hfits.levels (not_le.mpr hlevels)

/-- A snapshot without parts takes one level. -/
theorem isSome_iff_fits_of_scalar {s : Snapshot} (hlevels : s.levels = 1)
    (hzero : ofJson? 0 s.toJson = none)
    (hread : ∀ depth, (ofJson? (depth + 1) s.toJson).isSome ↔ ∀ x ∈ s.floats, x.isFinite = true)
    (depth : Nat) : (ofJson? depth s.toJson).isSome ↔ s.Fits depth := by
  rw [fits_iff, hlevels]
  cases depth with
  | zero => simp [hzero]
  | succ depth => simp [hread]

/-- A snapshot without parts that is no floating-point number is read below one level. -/
theorem isSome_iff_fits_of_floats_eq_nil {s : Snapshot} (hlevels : s.levels = 1)
    (hfloats : s.floats = []) (hzero : ofJson? 0 s.toJson = none)
    (hread : ∀ depth, (ofJson? (depth + 1) s.toJson).isSome) (depth : Nat) :
    (ofJson? depth s.toJson).isSome ↔ s.Fits depth :=
  isSome_iff_fits_of_scalar hlevels hzero
    (fun depth => iff_of_true (hread depth) (hfloats ▸ List.forall_mem_nil _)) depth

/-- A floating-point number is read if it is finite. -/
theorem isSome_ofJson?_float {x : Binary64} (h : x.IsRepresentable) (depth : Nat) :
    (ofJson? (depth + 1) (float x).toJson).isSome ↔ x.isFinite = true := by
  cases x with
  | nan => exact iff_of_false Bool.false_ne_true Bool.false_ne_true
  | infinite negative => exact iff_of_false Bool.false_ne_true Bool.false_ne_true
  | finite negative m e =>
    obtain ⟨n, hn, hread, heq⟩ := exists_toJson_float_eq h
    have hscalar : ofJson? (depth + 1) (.object [("Float", .number n.written)]) =
        (NumberText.ofText n.written).toBinary64?.map .float := rfl
    refine iff_of_true ?_ rfl
    rw [heq, hscalar, NumberText.ofText_written hn, Option.isSome_map]
    exact hread

/-- The entries of a map are read one by one. -/
theorem isSome_ofJson?_map (entries : List (Snapshot × Snapshot)) (depth : Nat) :
    (ofJson? (depth + 3) (map entries).toJson).isSome ↔
      ∀ e ∈ entries, (ofJson? depth e.1.toJson).isSome ∧ (ofJson? depth e.2.toJson).isSome := by
  show (Option.map _ (List.mapM _ (entriesToJson entries))).isSome = true ↔ _
  rw [Option.isSome_map, isSome_mapM_iff, entriesToJson_eq_map, List.forall_mem_map]
  exact forall₂_congr fun e _ => isSome_bind_iff fun _ => isSome_bind_some

theorem structure?_typeAndFields (t : TypeName) (fields : List (String × Snapshot)) :
    structure? ["type", "fields"]
      (.object [("type", .string t), ("fields", .object (fieldsToJson fields))]) =
      some [some (.string t), some (.object (fieldsToJson fields))] := rfl

/-- The fields of an object are read one by one. -/
theorem isSome_ofJson?_object (t : TypeName) (fields : List (String × Snapshot)) (depth : Nat) :
    (ofJson? (depth + 3) (object t fields).toJson).isSome ↔
      ∀ f ∈ fields, (ofJson? depth f.2.toJson).isSome := by
  show (ofJson? (depth + 3) (.object [("Object",
    .object [("type", .string t), ("fields", .object (fieldsToJson fields))])])).isSome ↔ _
  rw [ofJson?, structure?_typeAndFields]
  simp only [Option.bind_eq_bind, Option.bind_some, isSome_bind_some, isSome_mapM_iff,
    fieldsToJson_eq_map, List.forall_mem_map, Option.pure_def]

/-- Two levels are not enough for an object, whose fields take one of their own. -/
theorem ofJson?_two_object (t : TypeName) (fields : List (String × Snapshot)) :
    ofJson? 2 (object t fields).toJson = none := by
  show ofJson? 2 (.object [("Object",
    .object [("type", .string t), ("fields", .object (fieldsToJson fields))])]) = none
  rw [ofJson?, structure?_typeAndFields]
  rfl

/-- A double is read below its levels. -/
theorem isSome_ofJson?_double (name : Option String) (kind : DoubleRole) (depth : Nat) :
    (ofJson? depth (double name kind).toJson).isSome ↔ (double name kind).levels ≤ depth := by
  have hstructure : structure? ["name", "kind"]
      (.object [("name", Json.ofOption .string name), ("kind", kindToJson kind)]) =
      some [some (Json.ofOption .string name), some (kindToJson kind)] := rfl
  have hname : Json.optional? Json.text? (some (Json.ofOption .string name)) = some name := by
    cases name <;> rfl
  match depth with
  | 0 => cases kind <;> exact iff_of_false Bool.false_ne_true (by simp [levels])
  | 1 => cases kind <;> exact iff_of_false Bool.false_ne_true (by simp [levels])
  | depth + 2 =>
    show (doubleOfJson? (depth + 1)
      (.object [("name", Json.ofOption .string name), ("kind", kindToJson kind)])).isSome ↔ _
    rw [doubleOfJson?, hstructure]
    simp only [Option.bind_eq_bind, Option.bind_some, hname, isSome_bind_some, Option.pure_def]
    cases kind with
    | plain => exact iff_of_true rfl (by simp [levels])
    | instanceOf t | staticOf t =>
      cases depth
      · exact iff_of_false Bool.false_ne_true (by simp [levels])
      · exact iff_of_true rfl (by simp [levels])

/-- **The data of a snapshot** is read if and only if the snapshot fits. -/
theorem isSome_ofJson?_toJson {s : Snapshot} (h : s.IsRepresentable) (depth : Nat) :
    (ofJson? depth s.toJson).isSome ↔ s.Fits depth := by
  induction s using Snapshot.induction generalizing depth with
  | nil => cases depth <;> simp [toJson, ofJson?, fits_iff, levels, floats]
  | bool b => exact isSome_iff_fits_of_floats_eq_nil rfl rfl rfl (fun _ => rfl) depth
  | int i =>
    obtain ⟨n, hn, heq, hread⟩ := exists_ofInt_eq i
    refine isSome_iff_fits_of_floats_eq_nil rfl rfl rfl (fun depth => ?_) depth
    have htext : ofJson? (depth + 1) (int i).toJson =
        scalarOfJson? "Int" (Json.ofInt i.toInt) := rfl
    rw [htext, heq, scalarOfJson?, NumberText.ofText_written hn, hread]
    rfl
  | float x =>
    refine isSome_iff_fits_of_scalar rfl rfl (fun depth => ?_) depth
    have hfloats : (∀ y ∈ (float x).floats, y.isFinite = true) ↔ x.isFinite = true :=
      List.forall_mem_singleton
    rw [isSome_ofJson?_float (h x (List.mem_singleton.mpr rfl)), hfloats]
  | str content => exact isSome_iff_fits_of_floats_eq_nil rfl rfl rfl (fun _ => rfl) depth
  | symbol name => exact isSome_iff_fits_of_floats_eq_nil rfl rfl rfl (fun _ => rfl) depth
  | array items ih =>
    -- The levels of the snapshot itself come off the depth; what is left is that of its parts.
    match depth with
    | 0 => exact isSome_iff_fits_of_lt (by simp [levels]) rfl
    | 1 => exact isSome_iff_fits_of_lt (by simp [levels]) rfl
    | depth + 2 =>
      have hread : ofJson? (depth + 2) (array items).toJson =
          ((itemsToJson items).mapM (ofJson? depth)).map .array := rfl
      rw [hread, Option.isSome_map, isSome_mapM_iff, itemsToJson_eq_map, List.forall_mem_map,
        fits_array_iff]
      exact forall₂_congr fun s hs => ih s hs (forall_floatsOfItems.mp h s hs) depth
  | map entries ih =>
    match depth with
    | 0 => exact isSome_iff_fits_of_lt (by simp [levels]) rfl
    | 1 => exact isSome_iff_fits_of_lt (by simp [levels]) rfl
    | 2 =>
      -- A map without entries takes two levels, and every entry is an array of its own.
      cases entries with
      | nil => exact iff_of_true rfl ⟨le_refl _, List.forall_mem_nil _⟩
      | cons e rest => exact isSome_iff_fits_of_lt (by simp [levels, levelsOfEntries]) rfl
    | depth + 3 =>
      rw [isSome_ofJson?_map, fits_map_iff]
      exact forall₂_congr fun e he =>
        have hparts := forall_floatsOfEntries.mp h e he
        and_congr ((ih e he).1 hparts.1 depth) ((ih e he).2 hparts.2 depth)
  | type name => exact isSome_iff_fits_of_floats_eq_nil rfl rfl rfl (fun _ => rfl) depth
  | object t fields ih =>
    match depth with
    | 0 => exact isSome_iff_fits_of_lt (by simp [levels]) rfl
    | 1 => exact isSome_iff_fits_of_lt (by simp [levels]) rfl
    | 2 => exact isSome_iff_fits_of_lt (by simp [levels]) (ofJson?_two_object t fields)
    | depth + 3 =>
      rw [isSome_ofJson?_object, fits_object_iff]
      exact forall₂_congr fun f hf => ih f hf (forall_floatsOfFields.mp h f hf) depth
  | double name kind =>
    rw [isSome_ofJson?_double, fits_iff]
    exact (and_iff_left (List.forall_mem_nil _)).symm

end Snapshot

/-! ### Recorded calls -/

namespace Json

/-- What the members of one name give. -/
def given? : List (String × Json) → Option (Option Json)
  | [] => some none
  | [(_, content)] => some (some content)
  | _ => none

theorem structure?_object (names : List String) (members : List (String × Json)) :
    structure? names (.object members) =
      names.mapM fun name => given? (members.filter (·.1 == name)) := rfl

theorem given?_singleton (name : String) (content : Json) :
    given? [(name, content)] = some (some content) := rfl

theorem given?_member {α : Type} (name : String) (write : α → Json) (content : Option α) :
    given? (member name write content) = some (content.map write) := by
  cases content <;> rfl

theorem filter_member {α : Type} (name name' : String) (write : α → Json) (content : Option α) :
    (member name write content).filter (·.1 == name') =
      if name = name' then member name write content else [] := by
  cases content <;> simp [member, List.filter_cons]

private theorem isProper_member {α : Type} {name : String} {write : α → Json} {content : Option α}
    (h : ∀ a ∈ content, (write a).IsProper) : ∀ m ∈ member name write content, m.2.IsProper := by
  cases content with
  | none => exact List.forall_mem_nil _
  | some a => exact List.forall_mem_singleton.mpr (h a rfl)

theorem optional?_text?_map (content : Option String) :
    optional? text? (content.map .string) = some content := by
  cases content <;> rfl

/-- What is written for what may be missing is read like the content. -/
theorem isSome_optional?_map {α β : Type} {read : Json → Option β} {write : α → Json}
    (hwrite : ∀ a, write a ≠ .null) (content : Option α) :
    (optional? read (content.map write)).isSome ↔ ∀ a ∈ content, (read (write a)).isSome := by
  cases content with
  | none => simp [optional?]
  | some a =>
    have hread : optional? read (some (write a)) = (read (write a)).map some := by
      rw [optional?]
      exact hwrite a
    simp [hread]

end Json

namespace CallSnapshot

/-- The snapshots in a recorded call. -/
def snapshots (r : CallSnapshot) : List Snapshot :=
  r.arguments ++ r.result.toList ++ r.receiver.toList

/-- What a recorded call needs to be read: the arguments stand one level below the result and the
receiver. -/
@[mk_iff fits_iff]
structure Fits (r : CallSnapshot) : Prop where
  arguments : ∀ s ∈ r.arguments, s.Fits (Snapshot.maxDepth - levels - 1)
  result : ∀ s ∈ r.result, s.Fits (Snapshot.maxDepth - levels)
  receiver : ∀ s ∈ r.receiver, s.Fits (Snapshot.maxDepth - levels)

instance (r : CallSnapshot) : Decidable r.Fits :=
  decidable_of_iff _ (fits_iff r).symm

/-- What the document of a call gives by field. -/
theorem structure?_toJson (r : CallSnapshot) :
    structure? memberNames r.toJson =
      some [some (.string r.method), some (.array (Snapshot.itemsToJson r.arguments)),
        r.namedFlag.map .bool, r.result.map Snapshot.toJson, r.receiver.map Snapshot.toJson,
        r.location.map .string, r.testCase.map .string, r.raised.map .string] := by
  rw [toJson, Json.structure?_object]
  simp [memberNames, List.filter_append, filter_member, given?_member, given?_singleton]

/-- **The data of a call** is read if and only if the call fits. -/
theorem isSome_ofJson?_toJson {r : CallSnapshot} (h : ∀ s ∈ r.snapshots, s.IsRepresentable) :
    (ofJson? r.toJson).isSome ↔ r.Fits := by
  have hnull (s : Snapshot) : s.toJson ≠ .null := by cases s <;> exact nofun
  have hmethod : text? (.string r.method) = some r.method := rfl
  have hbool (o : Option Bool) : optional? bool? (o.map .bool) = some o := by cases o <;> rfl
  have hlist (depth : Nat) :
      list? (Snapshot.ofJson? depth) (some (.array (Snapshot.itemsToJson r.arguments))) =
        (r.arguments.map Snapshot.toJson).mapM (Snapshot.ofJson? depth) := by
    rw [← Snapshot.itemsToJson_eq_map]
    rfl
  rw [ofJson?, structure?_toJson]
  simp only [Option.bind_eq_bind, Option.bind_some, hmethod, hbool, hlist,
    optional?_text?_map, Option.pure_def]
  rw [isSome_bind_iff fun arguments => isSome_bind_iff fun result => isSome_bind_some,
    isSome_mapM_iff, List.forall_mem_map, isSome_optional?_map hnull, isSome_optional?_map hnull,
    fits_iff]
  have harguments (s : Snapshot) (hs : s ∈ r.arguments) : s.IsRepresentable :=
    h s (by simp [snapshots, hs])
  have hresult (s : Snapshot) (hs : s ∈ r.result) : s.IsRepresentable :=
    h s (by simp [snapshots, Option.mem_toList.mpr hs])
  have hreceiver (s : Snapshot) (hs : s ∈ r.receiver) : s.IsRepresentable :=
    h s (by simp [snapshots, Option.mem_toList.mpr hs])
  exact and_congr
    (forall₂_congr fun s hs => Snapshot.isSome_ofJson?_toJson (harguments s hs) _)
    (and_congr (forall₂_congr fun s hs => Snapshot.isSome_ofJson?_toJson (hresult s hs) _)
      (forall₂_congr fun s hs => Snapshot.isSome_ofJson?_toJson (hreceiver s hs) _))

/-- The numbers in the data of a call are proper ones. -/
theorem isProper_toJson {r : CallSnapshot} (h : ∀ s ∈ r.snapshots, s.IsRepresentable) :
    r.toJson.IsProper := by
  have hsnapshot (s : Snapshot) (hs : s ∈ r.snapshots) : s.toJson.IsProper :=
    Snapshot.isProper_toJson (h s hs)
  have harguments : ∀ j ∈ Snapshot.itemsToJson r.arguments, j.IsProper := by
    rw [Snapshot.itemsToJson_eq_map, List.forall_mem_map]
    exact fun s hs => hsnapshot s (by simp [snapshots, hs])
  have hresult (s : Snapshot) (hs : s ∈ r.result) : s.toJson.IsProper :=
    hsnapshot s (by simp [snapshots, Option.mem_toList.mpr hs])
  have hreceiver (s : Snapshot) (hs : s ∈ r.receiver) : s.toJson.IsProper :=
    hsnapshot s (by simp [snapshots, Option.mem_toList.mpr hs])
  refine .object ?_
  simp only [List.forall_mem_append, List.forall_mem_cons]
  exact ⟨⟨⟨⟨⟨⟨⟨.string _, .array harguments, List.forall_mem_nil _⟩,
    isProper_member fun b _ => .bool b⟩, isProper_member hresult⟩, isProper_member hreceiver⟩,
    isProper_member fun s _ => .string s⟩, isProper_member fun s _ => .string s⟩,
    isProper_member fun s _ => .string s⟩

end CallSnapshot

/-! ### Recordings -/

namespace TypeSnapshot

theorem isProper_toJson (t : TypeSnapshot) : t.toJson.IsProper := by
  refine .object ?_
  rw [List.forall_mem_cons]
  exact ⟨.string _, isProper_member fun s _ => .string s⟩

/-- Recorded types are always read. -/
theorem isSome_ofJson?_toJson (t : TypeSnapshot) : (ofJson? t.toJson).isSome := by
  have hstructure : structure? ["name", "superclass"] t.toJson =
      some [some (.string t.name), t.superclass.map .string] := by
    rw [toJson, Json.structure?_object]
    simp [List.filter_cons, filter_member, given?_member, given?_singleton]
  have hname : text? (.string t.name) = some t.name := rfl
  rw [ofJson?, hstructure]
  simp [hname, optional?_text?_map]

end TypeSnapshot

namespace Recording

variable {r : Recording}

/-- The numbers in a recording are proper ones. -/
theorem isProper_toJson (h : ∀ c ∈ r.calls, ∀ s ∈ c.snapshots, s.IsRepresentable) :
    r.toJson.IsProper := by
  refine .object ?_
  simp only [List.forall_mem_cons]
  refine ⟨.array ?_, .array ?_, List.forall_mem_nil _⟩
  · rw [List.forall_mem_map]
    exact fun t _ => t.isProper_toJson
  · rw [List.forall_mem_map]
    exact fun c hc => CallSnapshot.isProper_toJson (h c hc)

/-- **A recording** that was written is read if and only if all its calls fit. -/
theorem isSome_parse?_text (h : ∀ c ∈ r.calls, ∀ s ∈ c.snapshots, s.IsRepresentable) :
    (parse? r.text).isSome ↔ ∀ c ∈ r.calls, c.Fits := by
  have hstructure : structure? ["types", "calls"] r.toJson =
      some [some (.array (r.types.map (·.toJson))), some (.array (r.calls.map (·.toJson)))] := rfl
  have hlist {α : Type} (read : Json → Option α) (items : List Json) :
      list? read (some (.array items)) = items.mapM read := rfl
  have htypes : ((r.types.map (·.toJson)).mapM TypeSnapshot.ofJson?).isSome := by
    rw [isSome_mapM_iff, List.forall_mem_map]
    exact fun t _ => t.isSome_ofJson?_toJson
  rw [parse?, text, parse?_prettyText (isProper_toJson h)]
  simp only [Option.bind_eq_bind, Option.bind_some]
  rw [ofJson?, hstructure]
  simp only [Option.bind_eq_bind, Option.bind_some, hlist, Option.pure_def]
  rw [isSome_bind_iff fun types => isSome_bind_some, and_iff_right htypes, isSome_mapM_iff,
    List.forall_mem_map]
  exact forall₂_congr fun c hc => CallSnapshot.isSome_ofJson?_toJson (h c hc)

/-- A reading of a gauge. -/
def reading (v : Value) : Call :=
  { target := .instances "Gauge", method := "read", arguments := [v], result := some (.int 1) }

/-- **A recording of calls** is read if and only if every floating-point number in their values is
finite and no value is nested too deeply. -/
theorem isSome_parse?_ofCalls (heap : Heap) {calls : List Call}
    (h : ∀ c ∈ calls, ∀ s ∈ (CallSnapshot.ofCall heap c).snapshots, s.IsRepresentable) :
    (parse? (ofCalls heap calls).text).isSome ↔
      ∀ c ∈ calls, (CallSnapshot.ofCall heap c).Fits := by
  rw [isSome_parse?_text (List.forall_mem_map.mpr h), ofCalls, List.forall_mem_map]

/-- A reading of 1.5 is read back. -/
theorem isSome_parse?_ofCalls_reading :
    let calls := [reading (.float (.finite false 3 (-1)))]
    (∀ c ∈ calls, ∀ s ∈ (CallSnapshot.ofCall .empty c).snapshots, s.IsRepresentable) ∧
      (parse? (ofCalls .empty calls).text).isSome :=
  ⟨by decide, (isSome_parse?_ofCalls .empty (by decide)).mpr (by decide)⟩

/-- An array in an array, and so on. -/
def nested : Nat → Value
  | 0 => .array []
  | n + 1 => .array [nested n]

private theorem levels_nested (heap : Heap) (n : Nat) :
    (Snapshot.ofValue heap (nested n)).levels = 2 * n + 2 := by
  induction n with
  | zero => rfl
  | succ n ih =>
    have hlevels : (Snapshot.ofValue heap (nested (n + 1))).levels =
        max (Snapshot.ofValue heap (nested n)).levels 0 + 2 := rfl
    rw [hlevels, ih]
    omega

/-- An undefined number is written but not read, and so is an array inside 61 others. -/
theorem unreadable_readings :
    (parse? (ofCalls .empty [reading (.float .nan)]).text).isSome = false ∧
      (parse? (ofCalls .empty [reading (nested 61)]).text).isSome = false := by
  constructor
  · rw [← Bool.not_eq_true, isSome_parse?_text (by decide)]
    decide
  · have hrepresentable : ∀ c ∈ (ofCalls .empty [reading (nested 61)]).calls, ∀ s ∈ c.snapshots,
        s.IsRepresentable := by decide +kernel
    rw [← Bool.not_eq_true, isSome_parse?_text hrepresentable]
    intro hfits
    have hlevels := ((hfits _ (List.mem_singleton.mpr rfl)).arguments _
      (List.mem_singleton.mpr rfl)).levels
    rw [levels_nested] at hlevels
    exact absurd hlevels (by decide)

end Recording

end MockAudit
