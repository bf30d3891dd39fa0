import MockAudit.Call.Basic
import MockAudit.Proofs.SignatureTexts
import Mathlib.Data.List.Forall2
import Mathlib.Data.List.TakeWhile

/-!
# The grammar of type expressions

Type expressions are written by the grammar

* `Type ::= Alternative ('|' Alternative)*`
* `Alternative ::= blanks Term blanks`
* `Term ::= 'self' | 'untyped' | 'nil' | Name | '?' Alternative | '(' Type ')'`

where a name consists of identifiers joined by double colons and is none of the three words. The
reader accepts exactly the texts of this grammar, and it gives the tree of the derivation
(`TypeExpr.parse_eq_ok_iff`).

The reader never looks whether parentheses match. It splits at the bars at depth zero, even where
the depth was negative before, and takes off an opening parenthesis in front and a closing one at
the end that need not belong together. That nothing else is accepted follows by induction on the
reader, since each of its steps undoes one rule of the grammar. That everything is accepted follows
by induction on derivations, and here parentheses matter: a derived text is *balanced*, so that no
bar inside of parentheses is mistaken for one between alternatives.

## Main definitions

* `IsBalanced`: texts all of whose parentheses have a partner.
* `IsName`: identifiers joined by double colons.
* `TypeExpr.Spells`: the grammar, with the type expression that a text stands for.
* `partsOf`: the parts of a text between separators outside parentheses.

## Main results

* `TypeExpr.Spells.isBalanced`: no text with unbalanced parentheses is in the grammar.
* `TypeExpr.ofChars_divided`, `TypeExpr.ofChars_optional`, `TypeExpr.ofChars_parentheses`: how the
  reader goes on.
* `TypeExpr.parse_eq_ok_iff`: the reader accepts exactly the grammar.
-/

namespace MockAudit

/-- A step succeeds on a whole list if it succeeds on each member. -/
theorem mapM_eq_ok_iff {α β ε : Type} {f : α → Except ε β} {as : List α} {bs : List β} :
    as.mapM f = .ok bs ↔ List.Forall₂ (fun a b => f a = .ok b) as bs := by
  induction as generalizing bs with
  | nil =>
    rw [List.forall₂_nil_left_iff, List.mapM_nil]
    exact ⟨fun h => (Except.ok.inj h).symm, fun h => h ▸ rfl⟩
  | cons a as ih =>
    rw [List.mapM_cons, List.forall₂_cons_left_iff]
    constructor
    · intro h
      obtain ⟨b, ha, hrest⟩ := exists_of_bind_eq_ok h
      obtain ⟨bs, has, hbs⟩ := exists_of_bind_eq_ok hrest
      exact ⟨b, bs, ha, ih.mp has, (Except.ok.inj hbs).symm⟩
    · rintro ⟨b, bs, ha, has, rfl⟩
      rw [ha, ih.mpr has]
      rfl

/-! ### White space around texts -/

namespace Text

private theorem exists_trimEnd (cs : List Char) :
    ∃ after, cs = trimEnd cs ++ after ∧ ∀ c ∈ after, isBlank c = true := by
  refine ⟨(cs.reverse.takeWhile isBlank).reverse, ?_,
    fun c hc => List.mem_takeWhile_imp (List.mem_reverse.mp hc)⟩
  rw [trimEnd, ← List.reverse_append, List.takeWhile_append_dropWhile, List.reverse_reverse]

/-- A text is what trimming leaves of it, with blanks around. -/
theorem exists_trim (cs : List Char) : ∃ before after, cs = before ++ (trim cs ++ after) ∧
    (∀ c ∈ before, isBlank c = true) ∧ ∀ c ∈ after, isBlank c = true := by
  obtain ⟨after, hafter, hblank⟩ := exists_trimEnd (trimStart cs)
  refine ⟨cs.takeWhile isBlank, after, ?_, fun c hc => List.mem_takeWhile_imp hc, hblank⟩
  rw [trim, ← hafter, trimStart, List.takeWhile_append_dropWhile]

private theorem trimEnd_of_blanks {cs : List Char} (h : ∀ c ∈ cs, isBlank c = true) :
    trimEnd cs = [] := by
  rw [trimEnd, List.reverse_eq_nil_iff, List.dropWhile_eq_nil_iff]
  exact fun c hc => h c (List.mem_reverse.mp hc)

private theorem trim_of_blanks {cs : List Char} (h : ∀ c ∈ cs, isBlank c = true) :
    trim cs = [] := by
  rw [trim, trimStart, List.dropWhile_eq_nil_iff.mpr h, trimEnd_of_blanks (List.forall_mem_nil _)]

/-- Trimming takes away all blanks around a text. -/
theorem trim_append {before after : List Char} (hbefore : ∀ c ∈ before, isBlank c = true)
    (hafter : ∀ c ∈ after, isBlank c = true) (cs : List Char) :
    trim (before ++ (cs ++ after)) = trim cs := by
  obtain ⟨before', after', hcs, hbefore', hafter'⟩ := exists_trim cs
  have hall : before ++ (cs ++ after) =
      (before ++ before') ++ (trim cs ++ (after' ++ after)) := by
    conv_lhs => rw [hcs]
    simp only [List.append_assoc]
  have hfront := List.forall_mem_append.mpr ⟨hbefore, hbefore'⟩
  have hback := List.forall_mem_append.mpr ⟨hafter', hafter⟩
  rw [hall]
  rcases trim_eq_nil_or_isTight cs with hnil | htight
  · rw [hnil]
    exact trim_of_blanks (List.forall_mem_append.mpr ⟨hfront, hback⟩)
  · exact htight.trim_append hfront hback

theorem trim_cons_of_not_isBlank {c : Char} (hc : isBlank c = false) (cs : List Char) :
    trim (c :: cs) = c :: trimEnd cs := by
  have hstart : trimStart (c :: cs) = c :: cs := List.dropWhile_cons_of_neg (by simp [hc])
  have hend : trimEnd (c :: cs) = c :: trimEnd cs := by
    rw [trimEnd, List.reverse_cons, List.dropWhile_append]
    cases hback : cs.reverse.dropWhile isBlank <;> simp [hback, hc, trimEnd]
  rw [trim, hstart, hend]

private theorem trim_trimEnd (cs : List Char) : trim (trimEnd cs) = trim cs := by
  obtain ⟨after, hcs, hafter⟩ := exists_trimEnd cs
  conv_rhs => rw [hcs]
  exact (trim_append (List.forall_mem_nil _) hafter _).symm

/-- Blanks at the end do not matter to the characters in front. -/
theorem trimEnd_cons_congr {cs ds : List Char} (h : trimEnd cs = trimEnd ds) (c : Char) :
    trimEnd (c :: cs) = trimEnd (c :: ds) := by
  have hreverse : cs.reverse.dropWhile isBlank = ds.reverse.dropWhile isBlank :=
    List.reverse_inj.mp h
  simp only [trimEnd, List.reverse_cons, List.dropWhile_append, hreverse]

end Text

/-! ### Balanced parentheses -/

/-- A text in which every parenthesis has a partner. -/
inductive IsBalanced : List Char → Prop
  | nil : IsBalanced []
  | char {c : Char} {cs : List Char} (hopen : c ≠ '(') (hclose : c ≠ ')') (h : IsBalanced cs) :
    IsBalanced (c :: cs)
  | parentheses {cs ds : List Char} (h : IsBalanced cs) (h' : IsBalanced ds) :
    IsBalanced ('(' :: (cs ++ ')' :: ds))

namespace IsBalanced

variable {cs ds : List Char} {separator : Char}

theorem append (h : IsBalanced cs) (h' : IsBalanced ds) : IsBalanced (cs ++ ds) := by
  induction h with
  | nil => exact h'
  | char hopen hclose h ih => exact .char hopen hclose ih
  | @parentheses as bs h h₁ ih ih₁ =>
    rw [List.cons_append, List.append_assoc, List.cons_append]
    exact .parentheses h ih₁

theorem of_forall (h : ∀ c ∈ cs, c ≠ '(' ∧ c ≠ ')') : IsBalanced cs := by
  induction cs with
  | nil => exact .nil
  | cons c cs ih =>
    obtain ⟨⟨hopen, hclose⟩, hcs⟩ := List.forall_mem_cons.mp h
    exact .char hopen hclose (ih hcs)

private theorem of_blanks (h : ∀ c ∈ cs, Text.isBlank c = true) : IsBalanced cs := by
  refine of_forall fun c hc => ⟨?_, ?_⟩ <;>
  · rintro rfl
    exact absurd (h _ hc) (by decide)

/-- Splitting passes over a balanced text inside of parentheses, and anywhere if no separator occurs
in it. -/
theorem splitOutside_append (h : IsBalanced cs) (depth : Int)
    (hdepth : 0 < depth ∨ separator ∉ cs) (rest : List Char) :
    splitOutside separator depth (cs ++ rest) =
      (cs ++ (splitOutside separator depth rest).1, (splitOutside separator depth rest).2) := by
  induction h generalizing depth rest with
  | nil => rfl
  | @char c cs hopen hclose h ih =>
    have hsep : ¬ (c = separator ∧ depth = 0) := by
      rintro ⟨rfl, rfl⟩
      exact hdepth.elim (absurd · (by decide)) fun hmem => hmem (List.mem_cons_self ..)
    have hcs : 0 < depth ∨ separator ∉ cs := hdepth.imp_right (mt (List.mem_cons_of_mem c))
    rw [List.cons_append, splitOutside, if_neg hopen, if_neg hclose, if_neg hsep, ih _ hcs]
    rfl
  | @parentheses as bs h h' ih ih' =>
    have has : 0 < depth + 1 ∨ separator ∉ as :=
      hdepth.imp (by omega) fun hmem hsep => hmem (by simp [hsep])
    have hbs : 0 < depth ∨ separator ∉ bs := hdepth.imp_right fun hmem hsep => hmem (by simp [hsep])
    have htext : '(' :: (as ++ ')' :: bs) ++ rest = '(' :: (as ++ (')' :: (bs ++ rest))) := by simp
    rw [htext, splitOutside, if_pos rfl, ih _ has, splitOutside, if_neg (by decide), if_pos rfl,
      Int.add_sub_cancel, ih' _ hbs]
    simp

theorem isUndivided (h : IsBalanced cs) (hsep : separator ∉ cs) : IsUndivided separator cs :=
  fun rest => h.splitOutside_append 0 (.inr hsep) rest

/-- A balanced text in parentheses is not divided. -/
theorem isUndivided_parentheses (h : IsBalanced cs) :
    IsUndivided separator ('(' :: (cs ++ [')'])) := by
  intro rest
  have htext : '(' :: (cs ++ [')']) ++ rest = '(' :: (cs ++ (')' :: rest)) := by simp
  have hdepth : (0 : Int) + 1 - 1 = 0 := rfl
  rw [htext, splitOutside, if_pos rfl, h.splitOutside_append _ (.inl (by decide)), splitOutside,
    if_neg (by decide), if_pos rfl, hdepth]
  simp

end IsBalanced

/-! ### Parts -/

/-- The parts of a text between separators outside parentheses. -/
def partsOf (separator : Char) (cs : List Char) : List (List Char) :=
  (splitOutside separator 0 cs).1 :: (splitOutside separator 0 cs).2

section

variable {separator : Char}

/-- A character is a separator outside parentheses, or it goes to the front of the first part. -/
theorem splitOutside_cons (separator : Char) (depth : Int) (c : Char) :
    (c = separator ∧ depth = 0 ∧ ∀ cs, splitOutside separator depth (c :: cs) =
      ([], (splitOutside separator 0 cs).1 :: (splitOutside separator 0 cs).2)) ∨
    ∃ depth', ∀ cs, splitOutside separator depth (c :: cs) =
      (c :: (splitOutside separator depth' cs).1, (splitOutside separator depth' cs).2) := by
  by_cases hopen : c = '('
  · exact .inr ⟨depth + 1, fun cs => by rw [splitOutside, if_pos hopen]⟩
  by_cases hclose : c = ')'
  · exact .inr ⟨depth - 1, fun cs => by rw [splitOutside, if_neg hopen, if_pos hclose]⟩
  by_cases hsep : c = separator ∧ depth = 0
  · obtain ⟨rfl, rfl⟩ := hsep
    refine .inl ⟨rfl, rfl, fun cs => ?_⟩
    rw [splitOutside, if_neg hopen, if_neg hclose, if_pos ⟨rfl, rfl⟩]
  · refine .inr ⟨depth, fun cs => ?_⟩
    rw [splitOutside, if_neg hopen, if_neg hclose, if_neg hsep]

private theorem intercalate_cons_head (c : Char) (part : List Char) (parts : List (List Char)) :
    List.intercalate [separator] ((c :: part) :: parts) =
      c :: List.intercalate [separator] (part :: parts) := by
  cases parts <;> simp [List.intercalate_cons_cons]

/-- The parts with the separators between them make up the text. -/
theorem intercalate_partsOf (separator : Char) (cs : List Char) :
    List.intercalate [separator] (partsOf separator cs) = cs := by
  have hjoined (depth : Int) : List.intercalate [separator]
      ((splitOutside separator depth cs).1 :: (splitOutside separator depth cs).2) = cs := by
    induction cs generalizing depth with
    | nil => rfl
    | cons c cs ih =>
      rcases splitOutside_cons separator depth c with ⟨rfl, -, hsplit⟩ | ⟨depth', hsplit⟩
      · rw [hsplit, List.intercalate_cons_cons, ih]
        rfl
      · rw [hsplit, intercalate_cons_head, ih]
  exact hjoined 0

/-- A part is not divided any further. -/
theorem partsOf_of_mem {part cs : List Char} (h : part ∈ partsOf separator cs) :
    partsOf separator part = [part] := by
  have hparts (depth : Int) :
      splitOutside separator depth (splitOutside separator depth cs).1 =
          ((splitOutside separator depth cs).1, []) ∧
        ∀ part ∈ (splitOutside separator depth cs).2,
          splitOutside separator 0 part = (part, []) := by
    clear h
    induction cs generalizing depth with
    | nil => exact ⟨rfl, List.forall_mem_nil _⟩
    | cons c cs ih =>
      rcases splitOutside_cons separator depth c with ⟨-, -, hsplit⟩ | ⟨depth', hsplit⟩
      · rw [hsplit]
        exact ⟨rfl, List.forall_mem_cons.mpr (ih 0)⟩
      · rw [hsplit, hsplit, (ih depth').1]
        exact ⟨rfl, (ih depth').2⟩
  have hpart : splitOutside separator 0 part = (part, []) := by
    rcases List.mem_cons.mp h with rfl | hmem
    · exact (hparts 0).1
    · exact (hparts 0).2 part hmem
  rw [partsOf, hpart]

theorem IsUndivided.partsOf {cs : List Char} (h : IsUndivided separator cs) :
    partsOf separator cs = [cs] := by
  rw [MockAudit.partsOf, h.splitOutside]

/-- The parts of a text behind an undivided first part. -/
theorem IsUndivided.partsOf_append {cs : List Char} (h : IsUndivided separator cs)
    (hopen : separator ≠ '(') (hclose : separator ≠ ')') (ds : List Char) :
    MockAudit.partsOf separator (cs ++ separator :: ds) = cs :: MockAudit.partsOf separator ds := by
  have hbar : MockAudit.splitOutside separator 0 (separator :: ds) =
      ([], MockAudit.partsOf separator ds) := by
    rw [MockAudit.splitOutside, if_neg hopen, if_neg hclose, if_pos ⟨rfl, rfl⟩]
    rfl
  rw [MockAudit.partsOf, h, hbar, List.append_nil]

/-- Blanks at the end of a text are at the end of its last part. -/
theorem map_trimEnd_split_append (hseparator : Text.isBlank separator = false) {after : List Char}
    (hafter : ∀ c ∈ after, Text.isBlank c = true) (depth : Int) (cs : List Char) :
    ((splitOutside separator depth (cs ++ after)).1 ::
        (splitOutside separator depth (cs ++ after)).2).map Text.trimEnd =
      ((splitOutside separator depth cs).1 :: (splitOutside separator depth cs).2).map
        Text.trimEnd := by
  induction cs generalizing depth with
  | nil =>
    have hsep : separator ∉ after := fun hmem =>
      absurd (hafter _ hmem) (Bool.eq_false_iff.mp hseparator)
    have hsplit : splitOutside separator depth after = (after, []) := by
      simpa [splitOutside] using
        (IsBalanced.of_blanks hafter).splitOutside_append depth (.inr hsep) []
    rw [List.nil_append, hsplit, List.map_singleton, Text.trimEnd_of_blanks hafter]
    rfl
  | cons c cs ih =>
    rcases splitOutside_cons separator depth c with ⟨-, -, hsplit⟩ | ⟨depth', hsplit⟩
    · rw [List.cons_append, hsplit, hsplit, List.map_cons, ih, ← List.map_cons]
    · obtain ⟨hfirst, hothers⟩ := List.cons.inj (ih depth')
      rw [List.cons_append, hsplit, hsplit, List.map_cons, List.map_cons,
        Text.trimEnd_cons_congr hfirst, hothers]

/-- Trimming a text changes nothing but blanks at the ends of its parts. -/
theorem map_trim_partsOf_trim (hseparator : Text.isBlank separator = false) (cs : List Char) :
    (partsOf separator (Text.trim cs)).map Text.trim = (partsOf separator cs).map Text.trim := by
  obtain ⟨before, after, hcs, hbefore, hafter⟩ := Text.exists_trim cs
  have hfront : splitOutside separator 0 cs =
      (before ++ (splitOutside separator 0 (Text.trim cs ++ after)).1,
        (splitOutside separator 0 (Text.trim cs ++ after)).2) := by
    conv_lhs => rw [hcs]
    exact IsUndivided.of_blanks hseparator hbefore _
  have hfirst (part : List Char) : Text.trim (before ++ part) = Text.trim part := by
    simpa using Text.trim_append hbefore (List.forall_mem_nil _) part
  have hback := map_trimEnd_split_append hseparator hafter 0 (Text.trim cs)
  have htrim : Text.trim ∘ Text.trimEnd = Text.trim := funext Text.trim_trimEnd
  calc (partsOf separator (Text.trim cs)).map Text.trim
      = ((partsOf separator (Text.trim cs)).map Text.trimEnd).map Text.trim := by
        rw [List.map_map, htrim]
    _ = (partsOf separator (Text.trim cs ++ after)).map Text.trim := by
        rw [partsOf, ← hback, List.map_map, htrim, partsOf]
    _ = (partsOf separator cs).map Text.trim := by
        rw [partsOf, partsOf, hfront, List.map_cons, List.map_cons, hfirst]

/-- So it leaves their number alone. -/
theorem length_partsOf_trim (hseparator : Text.isBlank separator = false) (cs : List Char) :
    (partsOf separator (Text.trim cs)).length = (partsOf separator cs).length := by
  simpa using congrArg List.length (map_trim_partsOf_trim hseparator cs)

end

/-! ### Names -/

/-- A letter or underscore with letters, digits and underscores behind it. -/
def IsIdentifier (cs : List Char) : Prop :=
  ∃ c ds, cs = c :: ds ∧ isNameStart c = true ∧ ∀ d ∈ ds, isNameChar d = true

/-- Identifiers joined by double colons. -/
inductive IsName : List Char → Prop
  | identifier {cs : List Char} (h : IsIdentifier cs) : IsName cs
  | qualified {cs ds : List Char} (h : IsIdentifier cs) (h' : IsName ds) :
    IsName (cs ++ ':' :: ':' :: ds)

private theorem isNameChar_of_isNameStart {c : Char} (h : isNameStart c = true) :
    isNameChar c = true := by
  have hstart : ((c.isUpper || c.isLower) || c == '_') = true := h
  rw [Bool.or_eq_true, Bool.or_eq_true, beq_iff_eq] at hstart
  exact isNameChar_iff.mpr (hstart.imp_left .inl)

theorem IsIdentifier.isNameChar {cs : List Char} (h : IsIdentifier cs) :
    ∀ c ∈ cs, isNameChar c = true := by
  obtain ⟨c, ds, rfl, hc, hds⟩ := h
  exact List.forall_mem_cons.mpr ⟨isNameChar_of_isNameStart hc, hds⟩

theorem IsName.isPathChar {cs : List Char} (h : IsName cs) : ∀ c ∈ cs, IsPathChar c := by
  induction h with
  | identifier h => exact fun c hc => .inl (h.isNameChar c hc)
  | qualified h h' ih =>
    exact List.forall_mem_append.mpr ⟨fun c hc => .inl (h.isNameChar c hc),
      List.forall_mem_cons.mpr ⟨.inr rfl, List.forall_mem_cons.mpr ⟨.inr rfl, ih⟩⟩⟩

theorem IsName.exists_cons {cs : List Char} (h : IsName cs) :
    ∃ c ds, cs = c :: ds ∧ isNameStart c = true := by
  cases h with
  | identifier h =>
    obtain ⟨c, ds, rfl, hc, -⟩ := h
    exact ⟨c, ds, rfl, hc⟩
  | qualified h h' =>
    obtain ⟨c, ds, rfl, hc, -⟩ := h
    exact ⟨c, _, rfl, hc⟩

theorem IsName.isTypeName {cs : List Char} (h : IsName cs) : isTypeName cs = true := by
  induction h with
  | identifier h =>
    obtain ⟨c, ds, rfl, hc, hds⟩ := h
    have hcontinues := continuesTypeName_append hds []
    rw [List.append_nil] at hcontinues
    rw [MockAudit.isTypeName, hc, hcontinues]
    rfl
  | @qualified as bs h h' ih =>
    obtain ⟨c, ds, rfl, hc, hds⟩ := h
    rw [List.cons_append, MockAudit.isTypeName, hc, continuesTypeName_append hds]
    cases bs with
    | nil => cases ih
    | cons d bs => rwa [continuesTypeName]

/-- What continues a name makes up a name with the identifier begun in front of it. -/
theorem isName_of_continuesTypeName {cs : List Char} (h : continuesTypeName cs = true) {c : Char}
    {ds : List Char} (hc : isNameStart c = true) (hds : ∀ d ∈ ds, isNameChar d = true) :
    IsName (c :: (ds ++ cs)) := by
  fun_induction continuesTypeName cs generalizing c ds with
  | case1 => exact .identifier ⟨c, _, rfl, hc, by simpa using hds⟩
  | case2 d cs ih =>
    rw [Bool.and_eq_true] at h
    exact .qualified ⟨c, ds, rfl, hc, hds⟩ (ih h.2 h.1 (List.forall_mem_nil _))
  | case3 d cs _ ih =>
    rw [Bool.and_eq_true] at h
    have hname := ih h.2 hc (List.forall_mem_append.mpr ⟨hds, List.forall_mem_singleton.mpr h.1⟩)
    simpa using hname

/-- The reader takes the names for names. -/
theorem isTypeName_iff {cs : List Char} : isTypeName cs = true ↔ IsName cs := by
  refine ⟨fun h => ?_, IsName.isTypeName⟩
  cases cs with
  | nil => cases h
  | cons c cs =>
    rw [isTypeName, Bool.and_eq_true] at h
    exact isName_of_continuesTypeName h.2 h.1 (List.forall_mem_nil _)

namespace TypeExpr

/-! ### The grammar -/

/-- The words with a meaning of their own. -/
def reservedWords : List String :=
  ["self", "untyped", "nil"]

/-- The type expression that alternatives make up: a single one stands for itself. -/
def ofAlternatives : List TypeExpr → TypeExpr
  | [t] => t
  | ts => .union ts

mutual

/-- A text without blanks in front that is a word, a marked alternative, or anything in
parentheses. -/
inductive SpellsTerm : List Char → TypeExpr → Prop
  | self : SpellsTerm "self".toList .self
  | untyped : SpellsTerm "untyped".toList .untyped
  | nil : SpellsTerm "nil".toList (.named "Nil")
  | name {cs : List Char} (h : IsName cs)
    (hreserved : String.ofList cs ∉ reservedWords) :
    SpellsTerm cs (.named (String.ofList cs))
  | optional {cs : List Char} {t : TypeExpr} (h : SpellsAlternative cs t) :
    SpellsTerm ('?' :: cs) (.optional t)
  | parentheses {cs : List Char} {ts : List TypeExpr} (h : SpellsAlternatives cs ts) :
    SpellsTerm ('(' :: (cs ++ [')'])) (ofAlternatives ts)

/-- A term with blanks around it. -/
inductive SpellsAlternative : List Char → TypeExpr → Prop
  | padded {before cs after : List Char} {t : TypeExpr}
    (hbefore : ∀ c ∈ before, Text.isBlank c = true) (h : SpellsTerm cs t)
    (hafter : ∀ c ∈ after, Text.isBlank c = true) : SpellsAlternative (before ++ (cs ++ after)) t

/-- Alternatives with bars between them. -/
inductive SpellsAlternatives : List Char → List TypeExpr → Prop
  | last {cs : List Char} {t : TypeExpr} (h : SpellsAlternative cs t) : SpellsAlternatives cs [t]
  | bar {cs ds : List Char} {t : TypeExpr} {ts : List TypeExpr} (h : SpellsAlternative cs t)
    (h' : SpellsAlternatives ds ts) : SpellsAlternatives (cs ++ '|' :: ds) (t :: ts)

end

/-- A text derived by the grammar, with the type expression it stands for. -/
def Spells (cs : List Char) (t : TypeExpr) : Prop :=
  ∃ ts, SpellsAlternatives cs ts ∧ t = ofAlternatives ts

/-- Blanks may be left out. -/
theorem SpellsTerm.unpadded {cs : List Char} {t : TypeExpr} (h : SpellsTerm cs t) :
    SpellsAlternative cs t := by
  simpa using SpellsAlternative.padded (List.forall_mem_nil _) h (List.forall_mem_nil _)

theorem isBalanced_of_isPathChar {cs : List Char} (h : ∀ c ∈ cs, IsPathChar c) : IsBalanced cs :=
  .of_forall fun c hc =>
    ⟨(h c hc).ne (by decide) (by decide), (h c hc).ne (by decide) (by decide)⟩

mutual

theorem SpellsTerm.isBalanced {cs : List Char} {t : TypeExpr} : SpellsTerm cs t → IsBalanced cs
  | .self | .untyped | .nil => .of_forall (by simp)
  | .name h _ => isBalanced_of_isPathChar h.isPathChar
  | .optional h => .char (by decide) (by decide) h.isBalanced
  | .parentheses h => .parentheses h.isBalanced .nil

theorem SpellsAlternative.isBalanced {cs : List Char} {t : TypeExpr} :
    SpellsAlternative cs t → IsBalanced cs
  | .padded hbefore h hafter =>
    (IsBalanced.of_blanks hbefore).append (h.isBalanced.append (.of_blanks hafter))

theorem SpellsAlternatives.isBalanced {cs : List Char} {ts : List TypeExpr} :
    SpellsAlternatives cs ts → IsBalanced cs
  | .last h => h.isBalanced
  | .bar h h' => h.isBalanced.append (.char (by decide) (by decide) h'.isBalanced)

end

/-- No text with unbalanced parentheses is in the grammar. -/
theorem Spells.isBalanced {cs : List Char} {t : TypeExpr} (h : Spells cs t) : IsBalanced cs := by
  obtain ⟨ts, hts, -⟩ := h
  exact hts.isBalanced

private theorem isUndivided_marked {cs : List Char} (h : IsUndivided '|' cs) :
    IsUndivided '|' ('?' :: cs) :=
  @IsUndivided.append '|' ['?'] cs (.of_forall (by simp)) h

mutual

theorem SpellsTerm.isUndivided {cs : List Char} {t : TypeExpr} :
    SpellsTerm cs t → IsUndivided '|' cs
  | .self | .untyped | .nil => .of_forall (by simp)
  | .name h _ => isUndivided_of_isPathChar h.isPathChar
  | .optional h => isUndivided_marked h.isUndivided
  | .parentheses h => h.isBalanced.isUndivided_parentheses

/-- An alternative has no bars outside parentheses. -/
theorem SpellsAlternative.isUndivided {cs : List Char} {t : TypeExpr} :
    SpellsAlternative cs t → IsUndivided '|' cs
  | .padded hbefore h hafter =>
    (IsUndivided.of_blanks (by decide) hbefore).append
      (h.isUndivided.append (.of_blanks (by decide) hafter))

end

/-! ### Reading what is derived -/

theorem isBlank_bar : Text.isBlank '|' = false := by decide

private theorem mapM_ofChars_congr {parts parts' : List (List Char)}
    (h : parts.map Text.trim = parts'.map Text.trim) :
    parts.mapM ofChars = parts'.mapM ofChars := by
  have htrim : ofChars ∘ Text.trim = ofChars := funext ofChars_trim
  calc parts.mapM ofChars
      = (parts.map Text.trim).mapM ofChars := by rw [List.mapM_map, htrim]
    _ = parts'.mapM ofChars := by rw [h, List.mapM_map, htrim]

/-- A divided text is read part by part. -/
theorem ofChars_divided {cs : List Char} (h : 2 ≤ (partsOf '|' cs).length) :
    ofChars cs = (partsOf '|' cs).mapM ofChars >>= fun ts => .ok (.union ts) := by
  have hlength := length_partsOf_trim isBlank_bar cs
  rw [← mapM_ofChars_congr (map_trim_partsOf_trim isBlank_bar cs), ofChars_eq]
  rcases htrim : Text.trim cs with _ | ⟨c, cs'⟩
  · rw [htrim] at hlength
    exact absurd (h.trans (Nat.le_of_eq hlength.symm)) (by decide)
  · rcases hsplit : splitOutside '|' 0 (c :: cs') with ⟨part, _ | ⟨next, others⟩⟩
    · rw [htrim, partsOf, hsplit] at hlength
      exact absurd (h.trans (Nat.le_of_eq hlength.symm)) (by simp)
    · simp only [partsOf, hsplit, List.mapM_cons, bind_assoc, pure_bind]
      rfl

/-- A mark in front of an alternative makes it optional. -/
theorem ofChars_optional {cs : List Char} (h : IsUndivided '|' cs) :
    ofChars ('?' :: cs) = (ofChars cs).map .optional := by
  have hundivided := isUndivided_marked h
  have htrim : Text.trim ('?' :: cs) = '?' :: Text.trimEnd cs :=
    Text.trim_cons_of_not_isBlank (by decide) cs
  have hlength := length_partsOf_trim isBlank_bar ('?' :: cs)
  rw [hundivided.partsOf, htrim] at hlength
  have hothers : (splitOutside '|' 0 ('?' :: Text.trimEnd cs)).2 = [] :=
    List.length_eq_zero_iff.mp (Nat.succ.inj hlength)
  rw [ofChars_eq, htrim]
  rcases hsplit : splitOutside '|' 0 ('?' :: Text.trimEnd cs) with ⟨part, others⟩
  obtain rfl : others = [] := by rw [← hothers, hsplit]
  simp only [hsplit, if_true, ofChars_congr (Text.trim_trimEnd cs)]
  cases ofChars cs <;> rfl

/-- Parentheses around a balanced text do not matter. -/
theorem ofChars_parentheses {cs : List Char} (h : IsBalanced cs) :
    ofChars ('(' :: (cs ++ [')'])) = ofChars cs := by
  have htight : Text.IsTight ('(' :: (cs ++ [')'])) :=
    ⟨⟨'(', _, rfl, by decide⟩, ⟨'(' :: cs, ')', rfl, by decide⟩⟩
  have hstrip : stripParentheses ('(' :: (cs ++ [')'])) = some cs := by
    simp [stripParentheses]
  rw [ofChars_eq, htight.trim_eq]
  simp only [h.isUndivided_parentheses.splitOutside, hstrip]
  rfl

/-- Blanks around a text do not matter. -/
theorem ofChars_padded {before after : List Char}
    (hbefore : ∀ c ∈ before, Text.isBlank c = true) (hafter : ∀ c ∈ after, Text.isBlank c = true)
    (cs : List Char) : ofChars (before ++ (cs ++ after)) = ofChars cs :=
  ofChars_congr (Text.trim_append hbefore hafter cs)

/-- A name is read as the type it names. -/
theorem ofChars_name {cs : List Char} (h : IsName cs)
    (hreserved : String.ofList cs ∉ reservedWords) :
    ofChars cs = .ok (.named (String.ofList cs)) := by
  have htype := h.isTypeName
  have hchars := h.isPathChar
  rcases cs with _ | ⟨c, cs⟩
  · cases htype
  · have hne {d : Char} (hd : isNameChar d = false) (hcolon : d ≠ ':') : c ≠ d :=
      (hchars c (List.mem_cons_self ..)).ne hd hcolon
    rw [ofChars_word (isTight_of_isPathChar (List.cons_ne_nil _ _) hchars)
      (isUndivided_of_isPathChar hchars) (hne (by decide) (by decide))
      (hne (by decide) (by decide)), ofWord]
    have hword (word : String) (hmem : word ∈ reservedWords) : String.ofList (c :: cs) ≠ word :=
      fun heq => hreserved (heq ▸ hmem)
    rw [if_neg (hword _ (by decide)), if_neg (hword _ (by decide)), if_neg (hword _ (by decide)),
      if_pos htype]

theorem ofAlternatives_of_two_le {ts : List TypeExpr} (h : 2 ≤ ts.length) :
    ofAlternatives ts = .union ts := by
  match ts, h with
  | _ :: _ :: _, _ => rfl

theorem partsOf_eq_singleton {cs : List Char} (h : (partsOf '|' cs).length < 2) :
    partsOf '|' cs = [cs] := by
  have hjoined := intercalate_partsOf '|' cs
  rcases hparts : partsOf '|' cs with _ | ⟨part, _ | ⟨next, others⟩⟩
  · rw [partsOf] at hparts
    cases hparts
  · rw [hparts, List.intercalate_singleton] at hjoined
    rw [hjoined]
  · rw [hparts] at h
    exact absurd h (by simp)

/-- What the parts are read as makes up what the text is read as. -/
theorem ofChars_of_mapM {cs : List Char} {ts : List TypeExpr}
    (h : (partsOf '|' cs).mapM ofChars = .ok ts) : ofChars cs = .ok (ofAlternatives ts) := by
  have hlength : (partsOf '|' cs).length = ts.length := (mapM_eq_ok_iff.mp h).length_eq
  by_cases hdivided : 2 ≤ (partsOf '|' cs).length
  · rw [ofChars_divided hdivided, h, ofAlternatives_of_two_le (hlength ▸ hdivided)]
    rfl
  · rw [partsOf_eq_singleton (Nat.not_le.mp hdivided), mapM_eq_ok_iff] at h
    obtain ⟨t, ts, ht, hrest, rfl⟩ := List.forall₂_cons_left_iff.mp h
    obtain rfl := List.forall₂_nil_left_iff.mp hrest
    exact ht

mutual

theorem SpellsTerm.ofChars_eq_ok {cs : List Char} {t : TypeExpr} :
    SpellsTerm cs t → ofChars cs = .ok t
  | .self => ofChars_reserved (List.all_eq_true.mp rfl) (by decide) rfl
  | .untyped => ofChars_reserved (List.all_eq_true.mp rfl) (by decide) rfl
  | .nil => ofChars_reserved (List.all_eq_true.mp rfl) (by decide) rfl
  | .name h hreserved => ofChars_name h hreserved
  | .optional h => by
    rw [ofChars_optional h.isUndivided, h.ofChars_eq_ok]
    rfl
  | .parentheses h => by
    rw [ofChars_parentheses h.isBalanced]
    exact ofChars_of_mapM h.mapM_ofChars

theorem SpellsAlternative.ofChars_eq_ok {cs : List Char} {t : TypeExpr} :
    SpellsAlternative cs t → ofChars cs = .ok t
  | .padded hbefore h hafter => by
    rw [ofChars_padded hbefore hafter]
    exact h.ofChars_eq_ok

/-- Alternatives are split where the grammar joins them, and read one by one. -/
theorem SpellsAlternatives.mapM_ofChars {cs : List Char} {ts : List TypeExpr} :
    SpellsAlternatives cs ts → (partsOf '|' cs).mapM ofChars = .ok ts
  | .last h => by
    rw [h.isUndivided.partsOf, List.mapM_cons, h.ofChars_eq_ok]
    rfl
  | .bar h h' => by
    rw [h.isUndivided.partsOf_append (by decide) (by decide), List.mapM_cons, h.ofChars_eq_ok,
      h'.mapM_ofChars]
    rfl

end

/-- Every derived text is read, as the tree of its derivation. -/
theorem Spells.ofChars_eq_ok {cs : List Char} {t : TypeExpr} (h : Spells cs t) :
    ofChars cs = .ok t := by
  obtain ⟨ts, hts, rfl⟩ := h
  exact ofChars_of_mapM hts.mapM_ofChars

/-! ### Deriving what is read -/

private theorem SpellsTerm.alternative {cs : List Char} {t : TypeExpr}
    (h : SpellsTerm (Text.trim cs) t) : SpellsAlternative cs t := by
  obtain ⟨before, after, hcs, hbefore, hafter⟩ := Text.exists_trim cs
  rw [hcs]
  exact .padded hbefore h hafter

private theorem SpellsAlternative.spells {cs : List Char} {t : TypeExpr}
    (h : SpellsAlternative cs t) : Spells cs t :=
  ⟨[t], .last h, rfl⟩

/-- A text that is not divided is a single alternative. -/
theorem Spells.alternative {cs : List Char} {t : TypeExpr} (h : Spells cs t)
    (hcs : (partsOf '|' cs).length = 1) : SpellsAlternative cs t := by
  obtain ⟨ts, hts, rfl⟩ := h
  have hlength : (partsOf '|' cs).length = ts.length :=
    (mapM_eq_ok_iff.mp hts.mapM_ofChars).length_eq
  obtain ⟨t, rfl⟩ := List.length_eq_one_iff.mp (hlength.symm.trans hcs)
  cases hts with
  | last h => exact h
  | bar h h' => cases h'

/-- Alternatives with bars between them make up a type expression. -/
theorem SpellsAlternatives.of_forall₂ {parts : List (List Char)} {ts : List TypeExpr}
    (hne : parts ≠ []) (h : List.Forall₂ SpellsAlternative parts ts) :
    SpellsAlternatives (List.intercalate ['|'] parts) ts := by
  induction h with
  | nil => exact absurd rfl hne
  | @cons part t parts ts hpart hparts ih =>
    cases hparts with
    | nil =>
      rw [List.intercalate_singleton]
      exact .last hpart
    | cons hnext hothers =>
      rw [List.intercalate_cons_cons, List.append_assoc]
      exact .bar hpart (ih (List.cons_ne_nil _ _))

private theorem length_lt_of_mem_partsOf {part cs : List Char} (h : part ∈ partsOf '|' cs)
    (hdivided : 2 ≤ (partsOf '|' cs).length) : part.length < cs.length := by
  have hlength := length_splitOutside '|' 0 cs
  rcases hsplit : splitOutside '|' 0 cs with ⟨first, _ | ⟨next, others⟩⟩
  · rw [partsOf, hsplit] at hdivided
    exact absurd hdivided (by simp)
  · rw [partsOf, hsplit] at h
    rw [hsplit] at hlength
    rcases List.mem_cons.mp h with rfl | hmem
    · simp only [separatedLength] at hlength
      omega
    · have hshorter := length_lt_of_mem_parts hmem
      omega

/-- A word is read by one of the rules for terms. -/
theorem spellsTerm_of_ofWord {cs : List Char} {t : TypeExpr} (h : ofWord cs = .ok t) :
    SpellsTerm cs t := by
  have hchars {word : String} (hword : String.ofList cs = word) : cs = word.toList := by
    rw [← hword, String.toList_ofList]
  rw [ofWord] at h
  split at h
  · rename_i hself
    rw [hchars hself, ← Except.ok.inj h]
    exact .self
  split at h
  · rename_i huntyped
    rw [hchars huntyped, ← Except.ok.inj h]
    exact .untyped
  split at h
  · rename_i hnil
    rw [hchars hnil, ← Except.ok.inj h]
    exact .nil
  split at h
  · rename_i hself huntyped hnil hname
    rw [← Except.ok.inj h]
    refine .name (isTypeName_iff.mp hname) ?_
    simpa only [reservedWords, List.mem_cons, List.not_mem_nil, or_false, not_or] using
      ⟨hself, huntyped, hnil⟩
  · cases h

private theorem eq_of_stripParentheses {cs inner : List Char}
    (h : stripParentheses cs = some inner) : cs = '(' :: (inner ++ [')']) := by
  unfold stripParentheses at h
  split at h
  · split at h
    · rename_i rest hlast
      obtain rfl := Option.some.inj h
      rw [List.dropLast_append_getLast? _ hlast]
    · cases h
  · cases h

/-- What is read of a text that is not divided is read of a single term. -/
theorem spellsTerm_of_ofChars {cs : List Char} {t : TypeExpr}
    (ih : ∀ ds : List Char, ds.length < cs.length → ∀ u, ofChars ds = .ok u → Spells ds u)
    (hparts : (partsOf '|' cs).length = 1) (h : ofChars cs = .ok t) :
    SpellsTerm (Text.trim cs) t := by
  have hlength := length_partsOf_trim isBlank_bar cs
  have hshorter := Text.length_trim_le cs
  rw [ofChars_eq] at h
  rcases htrim : Text.trim cs with _ | ⟨c, rest⟩
  · rw [htrim] at h
    cases h
  rw [htrim] at h hlength hshorter
  rw [hparts] at hlength
  rcases hsplit : splitOutside '|' 0 (c :: rest) with ⟨part, others⟩
  rw [partsOf, hsplit] at hlength
  obtain rfl : others = [] := List.length_eq_zero_iff.mp (Nat.succ.inj hlength)
  simp only [hsplit] at h
  by_cases hmark : c = '?'
  · rw [if_pos hmark] at h
    obtain ⟨inner, hinner, ht⟩ := exists_of_bind_eq_ok h
    obtain rfl := Except.ok.inj ht
    have hspells := ih rest (Nat.lt_of_succ_le hshorter) inner hinner
    rw [hmark, splitOutside, if_neg (by decide), if_neg (by decide), if_neg (by decide)] at hsplit
    have hothers : (splitOutside '|' 0 rest).2 = [] := (Prod.ext_iff.mp hsplit).2
    rw [hmark]
    refine .optional (hspells.alternative ?_)
    rw [partsOf, hothers]
    rfl
  · rw [if_neg hmark] at h
    rcases hstrip : stripParentheses (c :: rest) with _ | inner
    · simp only [hstrip] at h
      exact spellsTerm_of_ofWord h
    · simp only [hstrip] at h
      have hinner := length_stripParentheses hstrip
      obtain ⟨ts, hts, rfl⟩ := ih inner (hinner.trans_le hshorter) t h
      rw [eq_of_stripParentheses hstrip]
      exact .parentheses hts

/-- Whatever is read can be derived. -/
theorem spells_of_ofChars {cs : List Char} {t : TypeExpr} (h : ofChars cs = .ok t) :
    Spells cs t := by
  induction hn : cs.length using Nat.strong_induction_on generalizing cs t with
  | _ n ih =>
  have hshorter : ∀ ds : List Char, ds.length < cs.length → ∀ u, ofChars ds = .ok u → Spells ds u :=
    fun ds hds u hu => ih ds.length (hn ▸ hds) hu rfl
  by_cases hdivided : 2 ≤ (partsOf '|' cs).length
  · rw [ofChars_divided hdivided] at h
    obtain ⟨ts, hts, ht⟩ := exists_of_bind_eq_ok h
    have hread := mapM_eq_ok_iff.mp hts
    have halternatives : List.Forall₂ SpellsAlternative (partsOf '|' cs) ts := by
      refine List.forall₂_iff_get.mpr ⟨hread.length_eq, fun i hi hi' => ?_⟩
      have hmem := List.get_mem (partsOf '|' cs) ⟨i, hi⟩
      have hspells := hshorter _ (length_lt_of_mem_partsOf hmem hdivided) _ (hread.get hi hi')
      exact hspells.alternative (by rw [partsOf_of_mem hmem]; rfl)
    refine ⟨ts, ?_, ?_⟩
    · rw [← intercalate_partsOf '|' cs]
      exact .of_forall₂ (List.cons_ne_nil _ _) halternatives
    · rw [ofAlternatives_of_two_le (hread.length_eq ▸ hdivided)]
      exact (Except.ok.inj ht).symm
  · have hparts : (partsOf '|' cs).length = 1 := by
      rw [partsOf_eq_singleton (Nat.not_le.mp hdivided)]
      rfl
    exact (spellsTerm_of_ofChars hshorter hparts h).alternative.spells

/-- **Exactly the texts of the grammar are read.** A text gives a type expression if and only if the
grammar derives it, and the type expression is the tree of the derivation. All parentheses of such a
text have a partner, and a mark in front goes with the first of several alternatives alone. -/
theorem parse_eq_ok_iff (s : String) (t : TypeExpr) :
    (parse s = .ok t ↔ Spells s.toList t) ∧ (parse s = .ok t → IsBalanced s.toList) ∧
      ∀ cs ds u us, SpellsAlternative cs u → SpellsAlternatives ds us →
        s.toList = '?' :: (cs ++ '|' :: ds) → parse s = .ok (.union (.optional u :: us)) := by
  have hiff : parse s = .ok t ↔ Spells s.toList t := ⟨spells_of_ofChars, Spells.ofChars_eq_ok⟩
  refine ⟨hiff, fun h => (hiff.mp h).isBalanced, fun cs ds u us hcs hds hs => ?_⟩
  have hspells : SpellsAlternatives s.toList (.optional u :: us) := by
    rw [hs]
    exact .bar (SpellsTerm.optional hcs).unpadded hds
  cases hds <;> exact Spells.ofChars_eq_ok ⟨_, hspells, rfl⟩

end TypeExpr

end MockAudit
