import MockAudit.Proofs.TypeGrammar

/-!
# Printed type expressions

A printed type expression is again a text of the grammar. It need not stand for the expression that
was printed: parentheses are printed only around a union below a mark, so that the members of a
union within a union are among the alternatives of the outer one when the text is read back. What
the text stands for is the *flattened* expression (`TypeExpr.IsWritten.ofChars_text`), which accepts
the same values (`TypeExpr.accepts_flattened`).

The last section is about the first term of a text, since this is where a type expression can be
mistaken for something else when it is a parameter of a method.

## Main definitions

* `TypeExpr.IsWritten`: the expressions that some text stands for.
* `TypeExpr.alternatives`, `TypeExpr.flattened`: what the text of an expression stands for.

## Main results

* `TypeExpr.isWritten_of_ofChars`: whatever is read can be written.
* `TypeExpr.IsWritten.spells_text`: a printed expression stands for its alternatives.
* `TypeExpr.SpellsAlternatives.of_mark`: a mark in front belongs to the first alternative.
* `TypeExpr.IsWritten.text_of_head`: how a printed expression begins.
-/

namespace MockAudit

/-! ### Type expressions as they are read -/

/-- Printed names are names, and none of the words with a meaning of their own. -/
def TypeName.IsWritten (name : TypeName) : Prop :=
  IsName name.toList ∧ name ∉ TypeExpr.reservedWords

namespace TypeExpr

/-- A type expression that some text stands for: its names are names, and its unions have several
members. -/
inductive IsWritten : TypeExpr → Prop
  | untyped : IsWritten .untyped
  | self : IsWritten .self
  | named {name : TypeName} (h : name.IsWritten) : IsWritten (.named name)
  | optional {t : TypeExpr} (h : IsWritten t) : IsWritten (.optional t)
  | union {ts : List TypeExpr} (hlength : 2 ≤ ts.length) (h : ∀ t ∈ ts, IsWritten t) :
    IsWritten (.union ts)

private theorem isWritten_ofAlternatives {ts : List TypeExpr} (hne : ts ≠ [])
    (h : ∀ t ∈ ts, IsWritten t) : IsWritten (ofAlternatives ts) := by
  match ts, hne, h with
  | [t], _, h => exact h t (List.mem_singleton_self t)
  | _ :: _ :: _, _, h => exact .union (by simp) h

theorem SpellsAlternatives.ne_nil {cs : List Char} {ts : List TypeExpr}
    (h : SpellsAlternatives cs ts) : ts ≠ [] := by
  cases h <;> exact List.cons_ne_nil _ _

mutual

theorem SpellsTerm.isWritten {cs : List Char} {t : TypeExpr} : SpellsTerm cs t → IsWritten t
  | .self => .self
  | .untyped => .untyped
  | .nil => .named ⟨.identifier ⟨'N', ['i', 'l'], rfl, rfl, List.all_eq_true.mp rfl⟩, by decide⟩
  | .name h hreserved => .named ⟨by rwa [String.toList_ofList], hreserved⟩
  | .optional h => .optional h.isWritten
  | .parentheses h => isWritten_ofAlternatives h.ne_nil h.isWritten

theorem SpellsAlternative.isWritten {cs : List Char} {t : TypeExpr} :
    SpellsAlternative cs t → IsWritten t
  | .padded _ h _ => h.isWritten

theorem SpellsAlternatives.isWritten {cs : List Char} {ts : List TypeExpr} :
    SpellsAlternatives cs ts → ∀ t ∈ ts, IsWritten t
  | .last h => List.forall_mem_singleton.mpr h.isWritten
  | .bar h h' => List.forall_mem_cons.mpr ⟨h.isWritten, h'.isWritten⟩

end

/-- Whatever is read can be written. -/
theorem isWritten_of_ofChars {cs : List Char} {t : TypeExpr} (h : ofChars cs = .ok t) :
    t.IsWritten := by
  obtain ⟨ts, hts, rfl⟩ := spells_of_ofChars h
  exact isWritten_ofAlternatives hts.ne_nil hts.isWritten

/-! ### Printed type expressions -/

mutual

/-- The alternatives that the text of a type expression has. Unions among the members of a union
have no parentheses of their own. -/
def alternatives : TypeExpr → List TypeExpr
  | .untyped => [.untyped]
  | .self => [.self]
  | .named name => [.named name]
  | .optional inner => [.optional (ofAlternatives (alternatives inner))]
  | .union members => allAlternatives members

/-- The alternatives of several type expressions. -/
def allAlternatives : List TypeExpr → List TypeExpr
  | [] => []
  | t :: ts => alternatives t ++ allAlternatives ts

end

/-- The type expression that the text of a type expression stands for. -/
def flattened (t : TypeExpr) : TypeExpr :=
  ofAlternatives t.alternatives

theorem accepts_ofAlternatives (v : Value) (receiver : TypeName) (h : Hierarchy)
    (ts : List TypeExpr) :
    (ofAlternatives ts).accepts v receiver h = ts.any (accepts v receiver h) := by
  match ts with
  | [] => rfl
  | [t] => simp [ofAlternatives]
  | _ :: _ :: _ => rw [ofAlternatives, accepts, anyAccepts_eq_any]; simp

section

variable (v : Value) (receiver : TypeName) (h : Hierarchy)

mutual

private theorem any_alternatives : (t : TypeExpr) →
    t.alternatives.any (accepts v receiver h) = t.accepts v receiver h
  | .untyped => by rw [alternatives, List.any_cons, List.any_nil, Bool.or_false]
  | .self => by rw [alternatives, List.any_cons, List.any_nil, Bool.or_false]
  | .named name => by rw [alternatives, List.any_cons, List.any_nil, Bool.or_false]
  | .optional inner => by
    rw [alternatives, List.any_cons, List.any_nil, Bool.or_false, accepts, accepts,
      accepts_ofAlternatives, any_alternatives inner]
  | .union members => by
    rw [alternatives, accepts, any_allAlternatives members]

theorem any_allAlternatives : (ts : List TypeExpr) →
    (allAlternatives ts).any (accepts v receiver h) = anyAccepts v receiver h ts
  | [] => rfl
  | t :: ts => by
    rw [allAlternatives, List.any_append, anyAccepts, any_alternatives t, any_allAlternatives ts]

end

/-- Flattening does not change what is accepted. -/
theorem accepts_flattened (t : TypeExpr) :
    t.flattened.accepts v receiver h = t.accepts v receiver h := by
  rw [flattened, accepts_ofAlternatives, any_alternatives]

end

/-! ### Alternatives side by side -/

theorem SpellsAlternative.pad {before cs after : List Char} {t : TypeExpr}
    (hbefore : ∀ c ∈ before, Text.isBlank c = true) (h : SpellsAlternative cs t)
    (hafter : ∀ c ∈ after, Text.isBlank c = true) :
    SpellsAlternative (before ++ (cs ++ after)) t := by
  obtain ⟨hbefore', hterm, hafter'⟩ := h
  rename_i before' cs after'
  have htext : before ++ (before' ++ (cs ++ after') ++ after) =
      (before ++ before') ++ (cs ++ (after' ++ after)) := by simp
  rw [htext]
  exact .padded (List.forall_mem_append.mpr ⟨hbefore, hbefore'⟩) hterm
    (List.forall_mem_append.mpr ⟨hafter', hafter⟩)

theorem forall_mem_space : ∀ c ∈ [' '], Text.isBlank c = true :=
  List.forall_mem_singleton.mpr rfl

private theorem SpellsAlternatives.space_cons {cs : List Char} {ts : List TypeExpr}
    (h : SpellsAlternatives cs ts) : SpellsAlternatives (' ' :: cs) ts := by
  have hpad {cs : List Char} {t : TypeExpr} (h : SpellsAlternative cs t) :
      SpellsAlternative (' ' :: cs) t := by
    simpa using h.pad forall_mem_space (List.forall_mem_nil _)
  cases h with
  | last h => exact .last (hpad h)
  | bar h h' => exact .bar (hpad h) h'

theorem SpellsAlternatives.append {as bs : List Char} {ts us : List TypeExpr} :
    SpellsAlternatives as ts → SpellsAlternatives bs us →
      SpellsAlternatives (as ++ (" | ".toList ++ bs)) (ts ++ us)
  | .last h, h' => by
    have hpad : SpellsAlternative (as ++ [' ']) _ := h.pad (List.forall_mem_nil _) forall_mem_space
    have htext : as ++ (" | ".toList ++ bs) = (as ++ [' ']) ++ '|' :: ' ' :: bs := by simp
    rw [htext]
    exact .bar hpad h'.space_cons
  | .bar h hrest, h' => by
    rw [List.append_assoc, List.cons_append]
    exact .bar h (hrest.append h')

/-- Texts joined by bars stand for the alternatives of all of them. -/
theorem SpellsAlternatives.intercalate {parts : List (List Char)} {tss : List (List TypeExpr)}
    (hne : parts ≠ []) (h : List.Forall₂ SpellsAlternatives parts tss) :
    SpellsAlternatives (List.intercalate " | ".toList parts) tss.flatten := by
  induction h with
  | nil => exact absurd rfl hne
  | cons hpart hparts ih =>
    cases hparts with
    | nil =>
      rw [List.intercalate_singleton, List.flatten_singleton]
      exact hpart
    | cons hnext hothers =>
      rw [List.intercalate_cons_cons, List.append_assoc, List.flatten_cons]
      exact hpart.append (ih (List.cons_ne_nil _ _))

/-! ### What printed type expressions stand for -/

theorem isIdentifier_of_mem_reservedWords {word : String} (h : word ∈ reservedWords) :
    IsIdentifier word.toList := by
  simp only [reservedWords, List.mem_cons, List.not_mem_nil, or_false] at h
  rcases h with rfl | rfl | rfl
  · exact ⟨'s', _, rfl, rfl, List.all_eq_true.mp rfl⟩
  · exact ⟨'u', _, rfl, rfl, List.all_eq_true.mp rfl⟩
  · exact ⟨'n', _, rfl, rfl, List.all_eq_true.mp rfl⟩

theorem allAlternatives_eq_flatten (ts : List TypeExpr) :
    allAlternatives ts = (ts.map alternatives).flatten := by
  induction ts with
  | nil => rfl
  | cons t ts ih => rw [allAlternatives, ih, List.map_cons, List.flatten_cons]

/-- Only a union below a mark is printed in parentheses, and only a union has several
alternatives. -/
theorem text_optional (t : TypeExpr) :
    (optional t).text.toList = '?' :: '(' :: (t.text.toList ++ [')']) ∨
      (optional t).text.toList = '?' :: t.text.toList ∧ t.alternatives = [t.flattened] := by
  cases t with
  | union members => exact .inl (by simp [text])
  | _ => exact .inr ⟨by simp [text], by simp [alternatives, flattened, ofAlternatives]⟩

/-- A printed type expression stands for its alternatives. -/
theorem IsWritten.spells_text {t : TypeExpr} (h : t.IsWritten) :
    SpellsAlternatives t.text.toList t.alternatives := by
  induction h with
  | untyped => exact .last SpellsTerm.untyped.unpadded
  | self => exact .last SpellsTerm.self.unpadded
  | @named name h =>
    have hname := SpellsTerm.name h.1 (by rw [String.ofList_toList]; exact h.2)
    rw [String.ofList_toList] at hname
    exact .last hname.unpadded
  | @optional inner h ih =>
    rw [alternatives]
    rcases text_optional inner with htext | ⟨htext, hsingle⟩
    · rw [htext]
      exact .last (SpellsTerm.optional (SpellsTerm.parentheses ih).unpadded).unpadded
    · rw [htext, hsingle]
      rw [hsingle] at ih
      generalize inner.text.toList = cs at ih
      cases ih with
      | last hinner => exact .last (SpellsTerm.optional hinner).unpadded
      | bar hinner hnone => exact absurd rfl hnone.ne_nil
  | @union ts hlength h ih =>
    rw [text, alternatives, texts_eq_map, String.toList_intercalate, allAlternatives_eq_flatten,
      List.map_map]
    refine .intercalate ?_ ?_
    · rw [ne_eq, List.map_eq_nil_iff]
      rintro rfl
      exact absurd hlength (by decide)
    · rw [List.forall₂_map_left_iff, List.forall₂_map_right_iff, List.forall₂_same]
      exact ih

/-- A printed type expression is read as its flattened form. -/
theorem IsWritten.ofChars_text {t : TypeExpr} (h : t.IsWritten) :
    ofChars t.text.toList = .ok t.flattened :=
  ofChars_of_mapM h.spells_text.mapM_ofChars

theorem IsWritten.isBalanced_text {t : TypeExpr} (h : t.IsWritten) : IsBalanced t.text.toList :=
  h.spells_text.isBalanced

/-- A character that may stand in the text of a type expression. -/
def IsTypeChar (c : Char) : Prop :=
  IsPathChar c ∨ c ∈ ['?', '(', ')', ' ', '|']

theorem IsTypeChar.ne {c d : Char} (h : IsTypeChar c) (hd : isNameChar d = false)
    (hother : d ∉ [':', '?', '(', ')', ' ', '|']) : c ≠ d := by
  rw [List.mem_cons, not_or] at hother
  rcases h with h | h
  · exact h.ne hd hother.1
  · rintro rfl
    exact hother.2 h

theorem IsWritten.isTypeChar {t : TypeExpr} (h : t.IsWritten) :
    ∀ c ∈ t.text.toList, IsTypeChar c := by
  induction h with
  | untyped => exact fun c hc => .inl (.inl (List.all_eq_true.mp (by decide) c hc))
  | self => exact fun c hc => .inl (.inl (List.all_eq_true.mp (by decide) c hc))
  | named h => exact fun c hc => .inl (h.1.isPathChar c hc)
  | @optional inner h ih =>
    have hmark {c : Char} (hc : c ∈ ['?', '(', ')', ' ', '|']) : IsTypeChar c := .inr hc
    rcases text_optional inner with htext | ⟨htext, -⟩
    · rw [htext]
      exact List.forall_mem_cons.mpr ⟨hmark (by decide), List.forall_mem_cons.mpr
        ⟨hmark (by decide), List.forall_mem_append.mpr ⟨ih, List.forall_mem_singleton.mpr
          (hmark (by decide))⟩⟩⟩
    · rw [htext]
      exact List.forall_mem_cons.mpr ⟨hmark (by decide), ih⟩
  | @union ts _ h ih =>
    rw [text, texts_eq_map, String.toList_intercalate]
    have hbar : ∀ c ∈ " | ".toList, c ∈ ['?', '(', ')', ' ', '|'] := by simp
    refine forall_mem_intercalate (fun c hc => .inr (hbar c hc)) ?_
    exact List.forall_mem_map.mpr (List.forall_mem_map.mpr ih)

theorem IsWritten.isTight {t : TypeExpr} (h : t.IsWritten) : Text.IsTight t.text.toList := by
  have hword {c : Char} {cs : List Char} (hchars : ∀ d ∈ c :: cs, isNameChar d = true) :
      Text.IsTight (c :: cs) :=
    isTight_of_isPathChar (List.cons_ne_nil _ _) fun d hd => .inl (hchars d hd)
  induction h with
  | untyped => exact hword (List.all_eq_true.mp rfl)
  | self => exact hword (List.all_eq_true.mp rfl)
  | @named name h =>
    refine isTight_of_isPathChar ?_ h.1.isPathChar
    intro hnil
    have hempty : name.toList = [] := hnil
    have hname := h.1.isTypeName
    rw [hempty] at hname
    cases hname
  | @optional inner h ih =>
    have hclose : Text.IsTight [')'] :=
      Text.isTight_of_forall (List.cons_ne_nil _ _) (List.forall_mem_singleton.mpr rfl)
    rcases text_optional inner with htext | ⟨htext, -⟩
    · rw [htext]
      exact Text.IsTight.cons_append (by decide) ('(' :: inner.text.toList) hclose
    · rw [htext]
      exact Text.IsTight.cons_append (by decide) [] ih
  | @union ts hlength h ih =>
    rw [text, texts_eq_map, String.toList_intercalate]
    refine Text.isTight_intercalate _ ?_ (List.forall_mem_map.mpr (List.forall_mem_map.mpr ih))
    rw [ne_eq, List.map_eq_nil_iff, List.map_eq_nil_iff]
    rintro rfl
    exact absurd hlength (by decide)

/-! ### How type expressions begin -/

/-- What follows a term: blanks, and then nothing or a bar. -/
def IsRemainder (cs : List Char) : Prop :=
  ∃ after ds, cs = after ++ ds ∧ (∀ c ∈ after, Text.isBlank c = true) ∧
    (ds = [] ∨ ∃ es, ds = '|' :: es)

theorem IsRemainder.dropWhile_isNameChar {cs : List Char} (h : IsRemainder cs) :
    cs.dropWhile isNameChar = cs := by
  obtain ⟨after, ds, rfl, hafter, hds⟩ := h
  cases after with
  | nil =>
    rcases hds with rfl | ⟨es, rfl⟩
    · rfl
    · exact List.dropWhile_cons_of_neg (by decide)
  | cons c after =>
    refine List.dropWhile_cons_of_neg fun hname => ?_
    exact absurd (hafter c (List.mem_cons_self ..))
      (Bool.eq_false_iff.mp (isBlank_of_isNameChar hname))

theorem IsRemainder.trimStart_ne {cs : List Char} (h : IsRemainder cs) (rest : List Char) :
    Text.trimStart cs ≠ ':' :: rest := by
  obtain ⟨after, ds, rfl, hafter, rfl | ⟨es, rfl⟩⟩ := h
  · rw [List.append_nil, Text.trimStart, List.dropWhile_eq_nil_iff.mpr hafter]
    exact (List.cons_ne_nil _ _).symm
  · rw [Text.trimStart, Text.dropWhile_isBlank hafter ⟨'|', es, rfl, by decide⟩]
    exact fun heq => absurd (List.cons.inj heq).1 (by decide)

/-- Alternatives begin with a term, perhaps behind blanks. -/
theorem SpellsAlternatives.exists_term {cs : List Char} {t : TypeExpr} {ts : List TypeExpr}
    (h : SpellsAlternatives cs (t :: ts)) : ∃ before term rest, cs = before ++ (term ++ rest) ∧
      (∀ c ∈ before, Text.isBlank c = true) ∧ SpellsTerm term t ∧ IsRemainder rest := by
  cases h with
  | last h =>
    obtain ⟨hbefore, hterm, hafter⟩ := h
    exact ⟨_, _, _, rfl, hbefore, hterm, _, [], (List.append_nil _).symm, hafter, .inl rfl⟩
  | bar h h' =>
    obtain ⟨hbefore, hterm, hafter⟩ := h
    exact ⟨_, _, _, by rw [List.append_assoc, List.append_assoc], hbefore, hterm, _, _, rfl, hafter,
      .inr ⟨_, rfl⟩⟩

theorem SpellsAlternative.of_mark {first cs rest : List Char} {t : TypeExpr}
    (h : SpellsAlternative first t) (htext : '?' :: cs = first ++ rest) :
    ∃ inner as, t = .optional inner ∧ first = '?' :: as ∧ SpellsAlternative as inner := by
  obtain ⟨hbefore, hterm, hafter⟩ := h
  rename_i before term after
  cases before with
  | cons c before =>
    rw [List.cons_append, List.cons_append] at htext
    have hblank := hbefore c (List.mem_cons_self ..)
    rw [← (List.cons.inj htext).1] at hblank
    exact absurd hblank (by decide)
  | nil =>
    rw [List.nil_append, List.append_assoc] at htext
    cases hterm with
    | @optional as inner has =>
      exact ⟨inner, as ++ after, rfl, rfl, by simpa using has.pad (List.forall_mem_nil _) hafter⟩
    | name hname =>
      obtain ⟨d, ds, rfl, hd⟩ := hname.exists_cons
      rw [List.cons_append] at htext
      rw [← (List.cons.inj htext).1] at hd
      exact absurd hd (by decide)
    | _ => exact absurd (List.cons.inj htext).1 (by decide)

/-- A mark in front belongs to the first alternative. -/
theorem SpellsAlternatives.of_mark {cs : List Char} {t : TypeExpr} {ts : List TypeExpr}
    (h : SpellsAlternatives ('?' :: cs) (t :: ts)) :
    ∃ inner, t = .optional inner ∧ SpellsAlternatives cs (inner :: ts) := by
  generalize htext : '?' :: cs = text at h
  cases h with
  | last h =>
    obtain ⟨inner, as, rfl, rfl, has⟩ := h.of_mark (htext.trans (List.append_nil _).symm)
    obtain rfl := (List.cons.inj htext).2
    exact ⟨inner, rfl, .last has⟩
  | bar h h' =>
    obtain ⟨inner, as, rfl, rfl, has⟩ := h.of_mark htext
    obtain rfl := (List.cons.inj htext).2
    exact ⟨inner, rfl, .bar has h'⟩

/-- A printed type expression begins as its first alternative does. -/
theorem IsWritten.text_of_head {t : TypeExpr} (h : t.IsWritten) :
    (∀ inner, t.alternatives.head? = some (.optional inner) →
        ∃ rest, t.text.toList = '?' :: rest) ∧
      ∀ name, t.alternatives.head? = some (.named name) →
        ∃ rest, t.text.toList = name.toList ++ rest := by
  induction h with
  | untyped => exact ⟨fun _ hhead => (nomatch hhead), fun _ hhead => (nomatch hhead)⟩
  | self => exact ⟨fun _ hhead => (nomatch hhead), fun _ hhead => (nomatch hhead)⟩
  | @named name h =>
    refine ⟨fun _ hhead => (nomatch hhead), fun name' hhead => ?_⟩
    obtain rfl : name = name' := TypeExpr.named.inj (Option.some.inj hhead)
    exact ⟨[], (List.append_nil _).symm⟩
  | @optional inner h ih =>
    refine ⟨fun _ _ => ?_, fun _ hhead => (nomatch hhead)⟩
    exact (text_optional inner).elim (fun htext => ⟨_, htext⟩) fun htext => ⟨_, htext.1⟩
  | @union ts hlength h ih =>
    match ts, hlength, h, ih with
    | first :: next :: others, _, h, ih =>
      obtain ⟨hmark, hname⟩ := ih first (List.mem_cons_self ..)
      have hne := (h first (List.mem_cons_self ..)).spells_text.ne_nil
      obtain ⟨a, as, halternatives⟩ := List.exists_cons_of_ne_nil hne
      have hhead : (TypeExpr.union (first :: next :: others)).alternatives.head? =
          first.alternatives.head? := by
        rw [alternatives, allAlternatives, halternatives]
        rfl
      obtain ⟨rest, htext⟩ : ∃ rest, (TypeExpr.union (first :: next :: others)).text.toList =
          first.text.toList ++ rest := by
        rw [text, texts, String.toList_intercalate, List.map_cons, texts, List.map_cons,
          List.intercalate_cons_cons, List.append_assoc]
        exact ⟨_, rfl⟩
      rw [hhead, htext]
      constructor
      · intro inner hinner
        obtain ⟨cs, hcs⟩ := hmark inner hinner
        exact ⟨cs ++ rest, by rw [hcs]; rfl⟩
      · intro name hfirst
        obtain ⟨cs, hcs⟩ := hname name hfirst
        exact ⟨cs ++ rest, by rw [hcs, List.append_assoc]⟩

end TypeExpr

end MockAudit
