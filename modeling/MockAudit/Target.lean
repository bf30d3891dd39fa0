import MockAudit.Value.Basic

/-!
# Call targets and method references

A method belongs to a type on one of two sides: it is called on the instances of the type or on
the type itself. A method reference names both: `Type#method` for instances and `Type.method` for
the type.
-/

namespace MockAudit

/-- The side of a type on which a method is dispatched. -/
structure Target where
  type : TypeName
  /-- Whether the method is called on the type itself. -/
  onType : Bool
deriving DecidableEq

namespace Target

/-- The instances of a type. -/
@[match_pattern] def instances (type : TypeName) : Target := ⟨type, false⟩

/-- The type itself. -/
@[match_pattern] def typeItself (type : TypeName) : Target := ⟨type, true⟩

/-- The mark between type and method in a reference. -/
def separator (t : Target) : Char :=
  if t.onType then '.' else '#'

/-- The reference to a method of this target. -/
def describe (t : Target) (method : String) : String :=
  t.type ++ String.singleton t.separator ++ method

/-- The text of a target on its own. -/
def text (t : Target) : String :=
  if t.onType then t.type ++ " (static)" else t.type

/-- The target with a text. -/
def ofText (text : String) : Target :=
  match text.dropSuffix? " (static)" with
  | some type => typeItself type.toString
  | none => instances text

/-- The target on which a message to this value is dispatched. -/
def ofReceiver : Value → Target
  | .type name => typeItself name
  | v => instances v.typeName

end Target

/-- A method of a target. -/
abbrev MethodRef := Target × String

namespace MethodRef

/-- Whether a character may stand between type and method. -/
private def isSeparator (c : Char) : Bool :=
  c == '#' || c == '.'

/-- Reads a method reference: the last separator divides type and method, neither of which is
empty. -/
def parse? (reference : String) : Option MethodRef :=
  let reversed := reference.toList.reverse
  let method := (reversed.takeWhile (!isSeparator ·)).reverse
  match reversed.dropWhile (!isSeparator ·) with
  | [] => none
  | mark :: type =>
    if method.isEmpty || type.isEmpty then none
    else some (⟨String.ofList type.reverse, mark == '.'⟩, String.ofList method)

/-- A method reference is read as it was written, if the last separator in it is the one between
type and method. -/
theorem parse?_describe {t : Target} {method : String} (htype : t.type ≠ "")
    (hmethod : method ≠ "") (hchars : ∀ c ∈ method.toList, c ≠ '#' ∧ c ≠ '.') :
    parse? (t.describe method) = some (t, method) := by
  obtain ⟨type, onType⟩ := t
  have hmark : isSeparator (Target.separator ⟨type, onType⟩) = true ∧
      (Target.separator ⟨type, onType⟩ == '.') = onType := by
    cases onType <;> exact ⟨rfl, rfl⟩
  have hpass : ∀ c ∈ method.toList.reverse, (!isSeparator c) = true := by
    intro c hc
    obtain ⟨hhash, hdot⟩ := hchars c (List.mem_reverse.mp hc)
    simp [isSeparator, hhash, hdot]
  have hreversed : (Target.describe ⟨type, onType⟩ method).toList.reverse =
      method.toList.reverse ++ Target.separator ⟨type, onType⟩ :: type.toList.reverse := by
    simp [Target.describe]
  generalize Target.separator ⟨type, onType⟩ = mark at hmark hreversed
  have hstop : ¬(!isSeparator mark) = true := by simp [hmark.1]
  have htake : (method.toList.reverse ++ mark :: type.toList.reverse).takeWhile
      (!isSeparator ·) = method.toList.reverse := by
    rw [List.takeWhile_append_of_pos hpass, List.takeWhile_cons, if_neg hstop, List.append_nil]
  have hdrop : (method.toList.reverse ++ mark :: type.toList.reverse).dropWhile
      (!isSeparator ·) = mark :: type.toList.reverse := by
    rw [List.dropWhile_append_of_pos hpass, List.dropWhile_cons, if_neg hstop]
  have hempty : (method.toList.isEmpty || type.toList.reverse.isEmpty) = false := by
    simp only [List.isEmpty_reverse, Bool.or_eq_false_iff, List.isEmpty_eq_false_iff, ne_eq,
      String.toList_eq_nil_iff]
    exact ⟨hmethod, htype⟩
  rw [parse?, hreversed]
  simp only [htake, hdrop, List.reverse_reverse, hempty, Bool.false_eq_true, if_false,
    String.ofList_toList, hmark.2]

end MethodRef

/-- The constructor, which runs on a new instance. -/
def constructorName : String := "initialize"

/-- The allocator, which a type answers by creating an instance and running its constructor. -/
def allocatorName : String := "new"

/-- The method under which an allocator is watched and stubbed: the constructor it runs. -/
def MethodRef.normalize : MethodRef → MethodRef
  | (target, method) =>
    if target.onType ∧ method = allocatorName then (.instances target.type, constructorName)
    else (target, method)

end MockAudit
