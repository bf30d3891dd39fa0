import MockAudit.Signature.Parser
import Mathlib.Data.List.Basic

/-!
# Texts of signatures

Type expressions and signatures are read by trimming blanks, splitting at separators outside
parentheses and taking off marks. Texts that are *tight* survive trimming, and texts that are
*undivided* survive splitting; both are closed under what printing does. Names have neither blanks
nor separators nor parentheses in them.

## Main definitions

* `Text.IsTight`: a text that trimming leaves alone.
* `IsUndivided`: a text that splitting leaves in one piece.
* `TypeName.IsPath`, `IsKeyword`: names of types and keywords as programs write them.

## Main results

* `splitOutside_intercalate`: joined parts are found again.
* `TypeExpr.ofChars_eq`: how a type expression is read.
-/

namespace MockAudit

/-! ### White space -/

namespace Text

/-- A text that neither begins nor ends with a blank. -/
structure IsTight (cs : List Char) : Prop where
  first : ∃ c rest, cs = c :: rest ∧ isBlank c = false
  last : ∃ front c, cs = front ++ [c] ∧ isBlank c = false

theorem isTight_of_forall {cs : List Char} (hne : cs ≠ []) (h : ∀ c ∈ cs, isBlank c = false) :
    IsTight cs := by
  constructor
  · obtain ⟨c, rest, rfl⟩ := List.exists_cons_of_ne_nil hne
    exact ⟨c, rest, rfl, h c (List.mem_cons_self ..)⟩
  · refine ⟨cs.dropLast, cs.getLast hne, (List.dropLast_append_getLast hne).symm, ?_⟩
    exact h _ (List.getLast_mem hne)

/-- What stands between two tight texts does not matter. -/
theorem IsTight.append {as bs : List Char} (ha : IsTight as) (between : List Char)
    (hb : IsTight bs) : IsTight (as ++ (between ++ bs)) := by
  obtain ⟨⟨c, rest, rfl, hc⟩, -⟩ := ha
  obtain ⟨-, front, d, rfl, hd⟩ := hb
  exact ⟨⟨c, rest ++ (between ++ (front ++ [d])), rfl, hc⟩,
    ⟨c :: rest ++ (between ++ front), d, by simp, hd⟩⟩

/-- So does what stands between a first character that is no blank and a tight text. -/
theorem IsTight.cons_append {c : Char} (hc : isBlank c = false) (between : List Char)
    {cs : List Char} (h : IsTight cs) : IsTight (c :: (between ++ cs)) := by
  obtain ⟨-, front, d, rfl, hd⟩ := h
  exact ⟨⟨c, _, rfl, hc⟩, ⟨c :: (between ++ front), d, by simp, hd⟩⟩

theorem isTight_intercalate (sep : List Char) {parts : List (List Char)} (hne : parts ≠ [])
    (h : ∀ part ∈ parts, IsTight part) : IsTight (List.intercalate sep parts) := by
  induction parts with
  | nil => exact absurd rfl hne
  | cons part parts ih =>
    obtain ⟨hpart, hparts⟩ := List.forall_mem_cons.mp h
    cases parts with
    | nil => rwa [List.intercalate_singleton]
    | cons next parts =>
      rw [List.intercalate_cons_of_ne_nil (List.cons_ne_nil _ _), List.append_assoc]
      exact hpart.append sep (ih (List.cons_ne_nil _ _) hparts)

theorem dropWhile_isBlank {before cs : List Char} (hbefore : ∀ c ∈ before, isBlank c = true)
    (hcs : ∃ c rest, cs = c :: rest ∧ isBlank c = false) :
    (before ++ cs).dropWhile isBlank = cs := by
  obtain ⟨c, rest, rfl, hc⟩ := hcs
  rw [List.dropWhile_append_of_pos hbefore, List.dropWhile_cons_of_neg (by simp [hc])]

/-- Trimming takes away the blanks around a tight text. -/
theorem IsTight.trim_append {cs : List Char} (h : IsTight cs) {before after : List Char}
    (hbefore : ∀ c ∈ before, isBlank c = true) (hafter : ∀ c ∈ after, isBlank c = true) :
    trim (before ++ (cs ++ after)) = cs := by
  obtain ⟨⟨c, rest, hcons, hc⟩, front, d, hconcat, hd⟩ := h
  have hstart : trimStart (before ++ (cs ++ after)) = cs ++ after :=
    dropWhile_isBlank hbefore ⟨c, rest ++ after, by rw [hcons]; rfl, hc⟩
  have hend : (after.reverse ++ cs.reverse).dropWhile isBlank = cs.reverse :=
    dropWhile_isBlank (fun c hc => hafter c (List.mem_reverse.mp hc))
      ⟨d, front.reverse, by rw [hconcat, List.reverse_concat], hd⟩
  rw [trim, hstart, trimEnd, List.reverse_append, hend, List.reverse_reverse]

theorem IsTight.trim_eq {cs : List Char} (h : IsTight cs) : trim cs = cs := by
  simpa using h.trim_append (List.forall_mem_nil _) (List.forall_mem_nil _)

theorem IsTight.trim_space {cs : List Char} (h : IsTight cs) : trim (' ' :: cs) = cs := by
  have hspace : ∀ c ∈ [' '], isBlank c = true := List.forall_mem_singleton.mpr rfl
  simpa using h.trim_append hspace (List.forall_mem_nil _)

private theorem dropWhile_isBlank_first {cs : List Char} (h : cs.dropWhile isBlank ≠ []) :
    ∃ c rest, cs.dropWhile isBlank = c :: rest ∧ isBlank c = false := by
  obtain ⟨c, rest, hcons⟩ := List.exists_cons_of_ne_nil h
  refine ⟨c, rest, hcons, ?_⟩
  have hhead := List.head_dropWhile_not isBlank h
  simpa only [hcons, List.head_cons] using hhead

/-- What is left after trimming is empty or tight. -/
theorem trim_eq_nil_or_isTight (cs : List Char) : trim cs = [] ∨ IsTight (trim cs) := by
  by_cases hne : trim cs = []
  · exact .inl hne
  have hprefix : trim cs <+: trimStart cs := by
    rw [← List.reverse_suffix, trim, trimEnd, List.reverse_reverse]
    exact List.dropWhile_suffix _
  refine .inr ⟨?_, ?_⟩
  · obtain ⟨tail, htail⟩ := hprefix
    obtain ⟨c, rest, hcons⟩ := List.exists_cons_of_ne_nil hne
    rw [hcons, List.cons_append] at htail
    obtain ⟨d, rest', hcons', hd⟩ := dropWhile_isBlank_first (htail ▸ List.cons_ne_nil _ _)
    have hstart : c :: (rest ++ tail) = d :: rest' := htail.trans hcons'
    exact ⟨c, rest, hcons, (List.cons.inj hstart).1 ▸ hd⟩
  · rw [trim, trimEnd, List.reverse_eq_nil_iff] at hne
    obtain ⟨d, rest, hcons, hd⟩ := dropWhile_isBlank_first hne
    exact ⟨rest.reverse, d, by rw [trim, trimEnd, hcons, List.reverse_cons], hd⟩

theorem trim_trim (cs : List Char) : trim (trim cs) = trim cs := by
  rcases trim_eq_nil_or_isTight cs with h | h
  · rw [h, trim_nil]
  · exact h.trim_eq

end Text

/-! ### Splitting -/

section

variable {separator : Char}

/-- A text in which no separator stands outside of parentheses, and all parentheses are closed. -/
def IsUndivided (separator : Char) (cs : List Char) : Prop :=
  ∀ rest, splitOutside separator 0 (cs ++ rest) =
    (cs ++ (splitOutside separator 0 rest).1, (splitOutside separator 0 rest).2)

theorem IsUndivided.nil : IsUndivided separator [] := fun _ => rfl

theorem IsUndivided.append {as bs : List Char} (ha : IsUndivided separator as)
    (hb : IsUndivided separator bs) : IsUndivided separator (as ++ bs) := by
  intro rest
  rw [List.append_assoc, ha, hb, List.append_assoc]

theorem IsUndivided.of_forall {cs : List Char}
    (h : ∀ c ∈ cs, c ≠ '(' ∧ c ≠ ')' ∧ c ≠ separator) : IsUndivided separator cs := by
  induction cs with
  | nil => exact .nil
  | cons c cs ih =>
    obtain ⟨⟨hopen, hclose, hsep⟩, hcs⟩ := List.forall_mem_cons.mp h
    intro rest
    rw [List.cons_append, splitOutside, if_neg hopen, if_neg hclose, if_neg fun h => hsep h.1,
      ih hcs rest]
    rfl

theorem IsUndivided.splitOutside {cs : List Char} (h : IsUndivided separator cs) :
    splitOutside separator 0 cs = (cs, []) := by
  simpa [MockAudit.splitOutside] using h []

theorem IsUndivided.of_blanks (hseparator : Text.isBlank separator = false) {cs : List Char}
    (h : ∀ c ∈ cs, Text.isBlank c = true) : IsUndivided separator cs := by
  have hne {c d : Char} (hc : Text.isBlank c = true) (hd : Text.isBlank d = false) : c ≠ d := by
    rintro rfl
    exact absurd hc (Bool.eq_false_iff.mp hd)
  exact .of_forall fun c hc =>
    ⟨hne (h c hc) (by decide), hne (h c hc) (by decide), hne (h c hc) hseparator⟩

/-- Undivided texts joined by a separator with blanks around it are found again. -/
theorem splitOutside_intercalate (hopen : separator ≠ '(') (hclose : separator ≠ ')')
    (hblank : Text.isBlank separator = false) (before after lead : List Char)
    (hbefore : ∀ c ∈ before, Text.isBlank c = true) (hafter : ∀ c ∈ after, Text.isBlank c = true)
    (hlead : ∀ c ∈ lead, Text.isBlank c = true)
    {parts : List (List Char)} (hne : parts ≠ [])
    (h : ∀ part ∈ parts, IsUndivided separator part ∧ Text.IsTight part) :
    ∃ part others, splitOutside separator 0
        (lead ++ List.intercalate (before ++ separator :: after) parts) = (part, others) ∧
      (part :: others).map Text.trim = parts := by
  induction parts generalizing lead with
  | nil => exact absurd rfl hne
  | cons first parts ih =>
    obtain ⟨⟨hundivided, htight⟩, hparts⟩ := List.forall_mem_cons.mp h
    cases parts with
    | nil =>
      refine ⟨lead ++ first, [], ?_, ?_⟩
      · rw [List.intercalate_singleton,
          ((IsUndivided.of_blanks hblank hlead).append hundivided).splitOutside]
      · have htrim := htight.trim_append hlead (List.forall_mem_nil _)
        rw [List.append_nil] at htrim
        rw [List.map_singleton, htrim]
    | cons next parts =>
      obtain ⟨part, others, hsplit, hmap⟩ := ih after hafter (List.cons_ne_nil _ _) hparts
      refine ⟨lead ++ (first ++ before), part :: others, ?_, ?_⟩
      · have htext : lead ++
              List.intercalate (before ++ separator :: after) (first :: next :: parts) =
            (lead ++ (first ++ before)) ++ separator ::
              (after ++ List.intercalate (before ++ separator :: after) (next :: parts)) := by
          rw [List.intercalate_cons_cons]
          simp
        have hfirst := (IsUndivided.of_blanks hblank hlead).append
          (hundivided.append (.of_blanks hblank hbefore))
        rw [htext, hfirst, splitOutside, if_neg hopen, if_neg hclose, if_pos ⟨rfl, rfl⟩,
          hsplit]
        simp
      · rw [List.map_cons, htight.trim_append hlead hbefore, hmap]

end

/-- What holds of the separator and of all parts holds of the joined text. -/
theorem forall_mem_intercalate {α : Type} {p : α → Prop} {sep : List α} {parts : List (List α)}
    (hsep : ∀ a ∈ sep, p a) (hparts : ∀ part ∈ parts, ∀ a ∈ part, p a) :
    ∀ a ∈ List.intercalate sep parts, p a := by
  induction parts with
  | nil => exact List.forall_mem_nil _
  | cons part parts ih =>
    obtain ⟨hpart, hparts⟩ := List.forall_mem_cons.mp hparts
    cases parts with
    | nil => rwa [List.intercalate_singleton]
    | cons next parts =>
      rw [List.intercalate_cons_cons]
      exact List.forall_mem_append.mpr ⟨List.forall_mem_append.mpr ⟨hpart, hsep⟩, ih hparts⟩

/-! ### Letters and digits -/

/-- Upper-case letters have their places before lower-case letters. -/
theorem toNat_of_isUpper {c : Char} (h : c.isUpper = true) : 65 ≤ c.toNat ∧ c.toNat ≤ 90 := by
  have hrange : 'A'.val ≤ c.val ∧ c.val ≤ 'Z'.val := of_decide_eq_true h
  exact ⟨UInt32.le_iff_toNat_le.mp hrange.1, UInt32.le_iff_toNat_le.mp hrange.2⟩

theorem toNat_of_isLower {c : Char} (h : c.isLower = true) : 97 ≤ c.toNat ∧ c.toNat ≤ 122 := by
  have hrange : (decide ('a'.val ≤ c.val) && decide (c.val ≤ 'z'.val)) = true := h
  rw [Bool.and_eq_true, decide_eq_true_iff, decide_eq_true_iff] at hrange
  exact ⟨UInt32.le_iff_toNat_le.mp hrange.1, UInt32.le_iff_toNat_le.mp hrange.2⟩

private theorem toNat_of_isDigit {c : Char} (h : c.isDigit = true) :
    48 ≤ c.toNat ∧ c.toNat ≤ 57 := by
  have hrange : (decide ('0'.val ≤ c.val) && decide (c.val ≤ '9'.val)) = true := h
  rw [Bool.and_eq_true, decide_eq_true_iff, decide_eq_true_iff] at hrange
  exact ⟨UInt32.le_iff_toNat_le.mp hrange.1, UInt32.le_iff_toNat_le.mp hrange.2⟩

/-! ### Names -/

/-- Identifiers that begin with an upper-case letter, joined by double colons. -/
def TypeName.IsPath (name : TypeName) : Prop :=
  ∃ parts : List String, parts ≠ [] ∧ name = String.intercalate "::" parts ∧
    ∀ part ∈ parts, ∃ c cs, part.toList = c :: cs ∧ c.isUpper = true ∧
      ∀ d ∈ cs, isNameChar d = true

/-- An identifier that begins with a lower-case letter or an underscore. -/
def IsKeyword (name : String) : Prop :=
  ∃ c cs, name.toList = c :: cs ∧ (c.isLower = true ∨ c = '_') ∧ ∀ d ∈ cs, isNameChar d = true

theorem isNameChar_iff {c : Char} : isNameChar c = true ↔
    ((c.isUpper = true ∨ c.isLower = true) ∨ c.isDigit = true) ∨ c = '_' := by
  change (((c.isUpper || c.isLower) || c.isDigit) || c == '_') = true ↔ _
  simp only [Bool.or_eq_true, beq_iff_eq]

theorem isNameStart_of_isUpper {c : Char} (h : c.isUpper = true) : isNameStart c = true := by
  change ((c.isUpper || c.isLower) || c == '_') = true
  rw [h, Bool.true_or, Bool.true_or]

private theorem isNameChar_of_isUpper {c : Char} (h : c.isUpper = true) : isNameChar c = true :=
  isNameChar_iff.mpr (.inl (.inl (.inl h)))

theorem IsKeyword.isNameChar {name : String} (h : IsKeyword name) :
    ∀ c ∈ name.toList, isNameChar c = true := by
  obtain ⟨c, cs, hcons, hc, hcs⟩ := h
  rw [hcons]
  exact List.forall_mem_cons.mpr
    ⟨isNameChar_iff.mpr (hc.imp (fun hlower => .inl (.inr hlower)) id), hcs⟩

/-- A character of a path. -/
def IsPathChar (c : Char) : Prop :=
  isNameChar c = true ∨ c = ':'

theorem IsPathChar.ne {c d : Char} (h : IsPathChar c) (hd : isNameChar d = false)
    (hcolon : d ≠ ':') : c ≠ d := by
  rintro rfl
  rcases h with h | h
  · exact absurd h (Bool.eq_false_iff.mp hd)
  · exact hcolon h

/-- Letters, digits and underscores lie between the digit 0 and the letter z. -/
theorem isBlank_of_isNameChar {c : Char} (h : isNameChar c = true) : Text.isBlank c = false := by
  have hrange : 48 ≤ c.toNat ∧ c.toNat ≤ 122 := by
    rcases isNameChar_iff.mp h with ((hupper | hlower) | hdigit) | rfl
    · have hplace := toNat_of_isUpper hupper
      omega
    · have hplace := toNat_of_isLower hlower
      omega
    · have hplace := toNat_of_isDigit hdigit
      omega
    · decide
  simp [Text.isBlank]
  omega

private theorem IsPathChar.not_isBlank {c : Char} (h : IsPathChar c) : Text.isBlank c = false := by
  rcases h with h | rfl
  · exact isBlank_of_isNameChar h
  · decide

theorem isTight_of_isPathChar {cs : List Char} (hne : cs ≠ []) (h : ∀ c ∈ cs, IsPathChar c) :
    Text.IsTight cs :=
  Text.isTight_of_forall hne fun c hc => (h c hc).not_isBlank

theorem isUndivided_of_isPathChar {cs : List Char} (h : ∀ c ∈ cs, IsPathChar c) :
    IsUndivided '|' cs :=
  .of_forall fun c hc => ⟨(h c hc).ne (by decide) (by decide), (h c hc).ne (by decide) (by decide),
    (h c hc).ne (by decide) (by decide)⟩

theorem continuesTypeName_append {cs : List Char} (h : ∀ c ∈ cs, isNameChar c = true)
    (rest : List Char) : continuesTypeName (cs ++ rest) = continuesTypeName rest := by
  induction cs with
  | nil => rfl
  | cons c cs ih =>
    obtain ⟨hc, hcs⟩ := List.forall_mem_cons.mp h
    rw [List.cons_append, continuesTypeName]
    · rw [hc, ih hcs, Bool.true_and]
    · rintro d ds rfl
      exact absurd hc (by decide)

/-- What is known of the characters of a path. -/
theorem TypeName.IsPath.chars {name : TypeName} (h : name.IsPath) :
    ∃ c cs, name.toList = c :: cs ∧ c.isUpper = true ∧ continuesTypeName cs = true ∧
      ∀ d ∈ cs, IsPathChar d := by
  obtain ⟨parts, hne, rfl, hparts⟩ := h
  rw [String.toList_intercalate]
  induction parts with
  | nil => exact absurd rfl hne
  | cons part parts ih =>
    obtain ⟨⟨c, cs, hpart, hc, hcs⟩, hparts⟩ := List.forall_mem_cons.mp hparts
    rw [List.map_cons, hpart]
    cases parts with
    | nil =>
      refine ⟨c, cs, List.intercalate_singleton, hc, ?_, fun d hd => .inl (hcs d hd)⟩
      simpa [continuesTypeName] using continuesTypeName_append hcs []
    | cons next parts =>
      obtain ⟨d, ds, hrest, hd, hcontinues, hds⟩ := ih (List.cons_ne_nil _ _) hparts
      refine ⟨c, cs ++ ':' :: ':' :: d :: ds, ?_, hc, ?_, ?_⟩
      · rw [List.map_cons, List.intercalate_cons_cons, ← List.map_cons, hrest]
        simp
      · rw [continuesTypeName_append hcs, continuesTypeName, isNameStart_of_isUpper hd, hcontinues,
          Bool.and_self]
      · simp only [List.mem_append, List.mem_cons]
        rintro e (he | rfl | rfl | rfl | he)
        · exact .inl (hcs e he)
        · exact .inr rfl
        · exact .inr rfl
        · exact .inl (isNameChar_of_isUpper hd)
        · exact hds e he

namespace TypeName.IsPath

variable {name : TypeName}

theorem ne_empty (h : name.IsPath) : name ≠ "" := by
  obtain ⟨c, cs, hcons, -⟩ := h.chars
  exact fun hempty => List.cons_ne_nil c cs (hcons.symm.trans (String.toList_eq_nil_iff.mpr hempty))

end TypeName.IsPath

/-- A single identifier that begins with an upper-case letter. -/
theorem TypeName.isPath_word {name : TypeName} {c : Char} {cs : List Char}
    (hname : name.toList = c :: cs) (hc : c.isUpper = true) (hcs : ∀ d ∈ cs, isNameChar d = true) :
    name.IsPath := by
  refine ⟨[name], List.cons_ne_nil _ _, ?_, ?_⟩
  · rw [← String.toList_inj, String.toList_intercalate]
    exact List.intercalate_singleton.symm
  · rintro part hpart
    rw [List.mem_singleton.mp hpart]
    exact ⟨c, cs, hname, hc, hcs⟩

/-- The types that need no declaration have names of this form. -/
theorem TypeName.isPath_of_isBuiltin {name : TypeName} (h : name.isBuiltin = true) :
    name.IsPath := by
  have hwords : ∀ name ∈ builtins, (name.toList.head?.any Char.isUpper &&
      name.toList.tail.all isNameChar) = true := by decide
  have hword := hwords name (List.contains_iff_mem.mp h)
  cases hname : name.toList with
  | nil => simp [hname] at hword
  | cons c cs =>
    rw [hname, Bool.and_eq_true, List.all_eq_true] at hword
    exact isPath_word hname hword.1 hword.2

/-! ### Type expressions -/

namespace TypeExpr

/-- A type expression is read by trimming, splitting at bars, and taking off a mark or
parentheses. -/
theorem ofChars_eq (input : List Char) : ofChars input =
    match Text.trim input with
    | [] => .error .emptyType
    | c :: cs =>
      match splitOutside '|' 0 (c :: cs) with
      | (part, next :: others) => do
        let first ← ofChars part
        let rest ← (next :: others).mapM ofChars
        return .union (first :: rest)
      | (_, []) =>
        if c = '?' then do
          let inner ← ofChars cs
          return .optional inner
        else match stripParentheses (c :: cs) with
          | some inner => ofChars inner
          | none => ofWord (c :: cs) := by
  rw [ofChars]
  split
  · rename_i htrim
    simp only [htrim]
  · rename_i c cs htrim
    simp only [htrim]
    split
    · rename_i part next others hsplit
      have hmapM : ((next :: others).attach.mapM fun p => ofChars p.1) =
          (next :: others).mapM ofChars := by
        rw [List.mapM_subtype fun _ _ => rfl, List.unattach_attach]
      simp only [hsplit, hmapM]
    · rename_i part hsplit
      simp only [hsplit]
      split
      · rfl
      · split <;>
        · rename_i hstrip
          simp only [hstrip]

/-- Only the text between blanks counts. -/
theorem ofChars_congr {as bs : List Char} (h : Text.trim as = Text.trim bs) :
    ofChars as = ofChars bs := by
  rw [ofChars_eq, ofChars_eq bs, h]

theorem ofChars_trim (cs : List Char) : ofChars (Text.trim cs) = ofChars cs :=
  ofChars_congr (Text.trim_trim cs)

/-- A single word is read as such. -/
theorem ofChars_word {c : Char} {cs : List Char} (htight : Text.IsTight (c :: cs))
    (hundivided : IsUndivided '|' (c :: cs)) (hmark : c ≠ '?') (hopen : c ≠ '(') :
    ofChars (c :: cs) = ofWord (c :: cs) := by
  have hstrip : stripParentheses (c :: cs) = none := by
    rw [stripParentheses]
    rintro rest ⟨⟩
    exact hopen rfl
  rw [ofChars_eq, htight.trim_eq]
  simp only [hundivided.splitOutside, if_neg hmark, hstrip]

/-- The words with a meaning of their own are read as they are written. -/
theorem ofChars_reserved {c : Char} {cs : List Char} (hchars : ∀ d ∈ c :: cs, isNameChar d = true)
    (hopen : c ≠ '?' ∧ c ≠ '(') {t : TypeExpr} (hword : ofWord (c :: cs) = .ok t) :
    ofChars (c :: cs) = .ok t := by
  have hpath (d : Char) (hd : d ∈ c :: cs) : IsPathChar d := .inl (hchars d hd)
  rw [ofChars_word (isTight_of_isPathChar (List.cons_ne_nil _ _) hpath)
    (isUndivided_of_isPathChar hpath) hopen.1 hopen.2, hword]

end TypeExpr

end MockAudit
