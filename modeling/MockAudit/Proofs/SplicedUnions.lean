import MockAudit.Proofs.PrintedTypes

/-!
# Unions within unions

What a text means to the reader is given by its alternatives. Here the same is said of trees: a
union among the members of a union gives way to its own members (`TypeExpr.spliced`). For type
expressions that some text stands for, this is the flattened form
(`TypeExpr.IsWritten.flattened_eq_spliced`), so that printing a type expression and reading it again
splices its unions and does nothing else (`TypeExpr.parse_text_eq_spliced`).

Two things have to be seen about printing. Members of an inner union are joined by the same bars
as those of the outer one, so that splicing moves no character. And splicing leaves a union a union,
so that it has its parentheses below a mark as before; this would fail for a union with a single
member, which no text stands for.

## Main definitions

* `TypeExpr.spliced`: a type expression without unions among the members of its unions.

## Main results

* `TypeExpr.IsWritten.flattened_eq_spliced`: the text of an expression stands for the spliced one.
* `TypeExpr.IsWritten.text_spliced`: splicing moves no character.
* `TypeExpr.parse_text_eq_spliced`: what a printed type expression is read as.
-/

namespace MockAudit

namespace TypeExpr

mutual

/-- The type expression in which every union that is a member of a union is replaced by its
members, at every depth. -/
def spliced : TypeExpr → TypeExpr
  | .untyped => .untyped
  | .self => .self
  | .named name => .named name
  | .optional inner => .optional (spliced inner)
  | .union members => .union (splicedMembers members)

/-- The members of a union with those of the unions among them in their place. -/
def splicedMembers : List TypeExpr → List TypeExpr
  | [] => []
  | .union members :: ts => splicedMembers members ++ splicedMembers ts
  | t :: ts => spliced t :: splicedMembers ts

end

/-! ### Splicing and flattening -/

private theorem splicedMembers_cons (t : TypeExpr) (ts : List TypeExpr) :
    splicedMembers (t :: ts) = splicedMembers [t] ++ splicedMembers ts := by
  cases t <;> simp [splicedMembers]

/-- Each member has an alternative of its own. -/
theorem length_le_allAlternatives {ts : List TypeExpr} (h : ∀ t ∈ ts, IsWritten t) :
    ts.length ≤ (allAlternatives ts).length := by
  induction ts with
  | nil => exact Nat.le_refl _
  | cons t ts ih =>
    obtain ⟨ht, hts⟩ := List.forall_mem_cons.mp h
    have hpos : 0 < t.alternatives.length := List.length_pos_iff.mpr ht.spells_text.ne_nil
    have hrest := ih hts
    rw [allAlternatives, List.length_append, List.length_cons]
    omega

/-- So a union with several members has several alternatives, and is a union still. -/
theorem flattened_union {ts : List TypeExpr} (hlength : 2 ≤ ts.length)
    (h : ∀ t ∈ ts, IsWritten t) : (union ts).flattened = .union (allAlternatives ts) :=
  ofAlternatives_of_two_le (hlength.trans (length_le_allAlternatives h))

theorem splicedMembers_eq_allAlternatives {ts : List TypeExpr}
    (h : ∀ t ∈ ts, splicedMembers [t] = t.alternatives) :
    splicedMembers ts = allAlternatives ts := by
  induction ts with
  | nil => rfl
  | cons t ts ih =>
    obtain ⟨ht, hts⟩ := List.forall_mem_cons.mp h
    rw [splicedMembers_cons, allAlternatives, ht, ih hts]

/-- The text of a type expression stands for the spliced expression. -/
theorem IsWritten.flattened_eq_spliced {t : TypeExpr} (h : t.IsWritten) :
    t.flattened = t.spliced := by
  suffices hboth : t.flattened = t.spliced ∧ splicedMembers [t] = t.alternatives from hboth.1
  induction h with
  | untyped => exact ⟨rfl, rfl⟩
  | self => exact ⟨rfl, rfl⟩
  | named h => exact ⟨rfl, rfl⟩
  | @optional inner h ih =>
    have halternatives : (TypeExpr.optional inner).alternatives = [.optional inner.spliced] :=
      congrArg (fun t => [TypeExpr.optional t]) ih.1
    refine ⟨?_, halternatives.symm⟩
    rw [flattened, halternatives]
    rfl
  | @union ts hlength h ih =>
    have hmembers := splicedMembers_eq_allAlternatives fun t ht => (ih t ht).2
    refine ⟨?_, ?_⟩
    · rw [flattened_union hlength h, spliced, hmembers]
    · rw [alternatives, splicedMembers, splicedMembers, List.append_nil, hmembers]

/-! ### Splicing and printing -/

theorem text_ofAlternatives {ts : List TypeExpr} (hne : ts ≠ []) :
    (ofAlternatives ts).text = String.intercalate " | " (ts.map text) := by
  match ts, hne with
  | [t], _ => simp [ofAlternatives]
  | _ :: _ :: _, _ => simp only [ofAlternatives, text, texts_eq_map]

/-- The alternatives of several type expressions are printed as these expressions are. -/
theorem intercalate_allAlternatives {ts : List TypeExpr}
    (h : ∀ t ∈ ts, t.alternatives ≠ [] ∧
      String.intercalate " | " (t.alternatives.map text) = t.text) :
    String.intercalate " | " ((allAlternatives ts).map text) =
      String.intercalate " | " (ts.map text) := by
  induction ts with
  | nil => rfl
  | cons t ts ih =>
    obtain ⟨⟨hne, ht⟩, hts⟩ := List.forall_mem_cons.mp h
    rw [allAlternatives, List.map_append, List.map_cons]
    cases ts with
    | nil => simpa [allAlternatives] using ht
    | cons next ts =>
      have hnext : (allAlternatives (next :: ts)).map text ≠ [] := by
        simp [allAlternatives, (hts next (List.mem_cons_self ..)).1]
      rw [String.intercalate_append_of_ne_nil (by simpa using hne) hnext, ht, ih hts,
        String.intercalate_cons_of_ne_nil (by simp)]

/-- A mark is printed alike in front of two expressions that are printed alike, if both are unions
or none is. -/
theorem text_optional_flattened {t : TypeExpr} (h : t.IsWritten)
    (htext : t.flattened.text = t.text) : (optional t.flattened).text = (optional t).text := by
  cases h with
  | union hlength h =>
    rw [flattened_union hlength h] at htext ⊢
    simp only [text] at htext ⊢
    rw [htext]
  | optional h => exact congrArg ("?" ++ ·) htext
  | _ => rfl

/-- Splicing moves no character. -/
theorem IsWritten.text_spliced {t : TypeExpr} (h : t.IsWritten) : t.spliced.text = t.text := by
  rw [← h.flattened_eq_spliced, flattened, text_ofAlternatives h.spells_text.ne_nil]
  induction h with
  | untyped => exact String.intercalate_singleton
  | self => exact String.intercalate_singleton
  | named h => exact String.intercalate_singleton
  | optional h ih =>
    rw [alternatives, List.map_singleton, String.intercalate_singleton]
    exact text_optional_flattened h ((text_ofAlternatives h.spells_text.ne_nil).trans ih)
  | union hlength h ih =>
    have hmembers := intercalate_allAlternatives fun t ht =>
      ⟨(h t ht).spells_text.ne_nil, ih t ht⟩
    rw [alternatives, hmembers, text, texts_eq_map]

/-- **Printing and reading splices unions**, and nothing else is changed: a printed type expression
can be read, as an expression with the same text that accepts the same values. -/
theorem parse_text_eq_spliced {s : String} {t : TypeExpr} (h : parse s = .ok t) :
    parse t.text = .ok t.spliced ∧ t.spliced.text = t.text ∧
      ∀ v receiver H, t.spliced.accepts v receiver H = t.accepts v receiver H := by
  have hwritten : t.IsWritten := isWritten_of_ofChars h
  refine ⟨?_, hwritten.text_spliced, fun v receiver H => ?_⟩
  · rw [← hwritten.flattened_eq_spliced]
    exact hwritten.ofChars_text
  · rw [← hwritten.flattened_eq_spliced, accepts_flattened]

/-- A type expression with unions in unions, one of them below a mark. -/
def anything : TypeExpr :=
  .union [.named "Shape", .union [.optional (.union [.named "Size", .union [.named "Nil", .self]]),
    .untyped]]

theorem parse_text_anything :
    parse "Shape | (?(Size | (nil | self)) | untyped)" = .ok anything ∧
      parse anything.text = .ok anything.spliced ∧ anything.spliced.text = anything.text ∧
      ∀ v receiver H, anything.spliced.accepts v receiver H = anything.accepts v receiver H := by
  have hread : parse "Shape | (?(Size | (nil | self)) | untyped)" = .ok anything := by
    with_unfolding_all rfl
  exact ⟨hread, parse_text_eq_spliced hread⟩

/-- A union in a union gives way to its members, one below a mark is a union still. -/
example : (union [.union [.self, .untyped], .optional (.union [.named "Size", .self])]).spliced =
    .union [.self, .untyped, .optional (.union [.named "Size", .self])] := rfl

end TypeExpr

end MockAudit
