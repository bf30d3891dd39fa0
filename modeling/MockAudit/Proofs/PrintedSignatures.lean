import MockAudit.Proofs.PrintedTypes

/-!
# Printed signatures

A signature is printed parameter by parameter, and types without the parentheses that they may have
had. In front of a parameter this matters: there a mark makes the parameter optional, and a name
with a colon behind it is a keyword. So a type that begins with a mark, or with a name that begins
like a keyword and goes on with a double colon, can be mistaken when it is the type of a positional
parameter. If none of the positional parameters can (`OrderedParam.IsClear`), the printed signature
is read as the signature with its types flattened (`Signature.parse_text_of_isClear`).

If some can, the signature is rejected, or it is read with more optional parameters than it has
(`Signature.exists_of_foldlM_positionals`).

A signature is *flat* if its types are words or unions of named types, as inference finds them.
Nothing in it can be mistaken, and it is read exactly as it was printed (`Signature.parse_text`).

## Main definitions

* `TypeExpr.isMarked`, `TypeExpr.LooksNamed`, `OrderedParam.IsClear`: what can be mistaken.
* `Signature.IsWritten`: the signatures that some text stands for.
* `Signature.flattened`: the signature that is read back.
* `TypeExpr.IsFlat`, `Signature.IsFlat`: types without marks, and signatures of them.

## Main results

* `Signature.isWritten_of_parse`: whatever is read can be written.
* `Signature.parse_text_of_isClear`: clear signatures are read as they are printed.
* `Signature.parse_text`: flat signatures are read without any difference.
-/

namespace MockAudit

/-- A positional parameter with its type as it is read back. -/
def OrderedParam.flattened (p : OrderedParam) : OrderedParam :=
  ⟨p.type.flattened, p.isOptional⟩

/-- A keyword parameter with its type as it is read back. -/
def KeywordParam.flattened (p : KeywordParam) : KeywordParam :=
  ⟨p.name, p.type.flattened, p.isRequired⟩

/-! ### Positional parameters that can be told apart -/

/-- A name that begins like a keyword and has a colon further on. In front of a parameter it is
taken for a keyword with its type. -/
def LooksNamed (name : List Char) : Prop :=
  ∃ c cs, name = c :: cs ∧ (c.isLower || c == '_') = true ∧ ':' ∈ cs

theorem IsIdentifier.not_looksNamed {cs : List Char} (h : IsIdentifier cs) : ¬ LooksNamed cs := by
  rintro ⟨c, ds, rfl, -, hcolon⟩
  exact absurd (h.isNameChar ':' (List.mem_cons_of_mem c hcolon)) (by decide)

/-- Whether the text of a type expression begins with a mark, which in front of a parameter makes
the parameter optional. -/
def TypeExpr.isMarked (t : TypeExpr) : Bool :=
  match t.alternatives.head? with
  | some (.optional _) => true
  | _ => false

/-- Whether the text of a type expression begins with a name that looks like a keyword. -/
def TypeExpr.LooksNamed (t : TypeExpr) : Prop :=
  ∃ name, t.alternatives.head? = some (.named name) ∧ MockAudit.LooksNamed name.toList

/-- A positional parameter whose text cannot be mistaken for that of another parameter. -/
structure OrderedParam.IsClear (p : OrderedParam) : Prop where
  mark : p.type.isMarked = true → p.isOptional = true
  name : ¬ p.type.LooksNamed

namespace Signature

open TypeExpr

/-- A word is no keyword unless it looks like one. -/
theorem keywordParts?_word {word : List Char} (hname : IsName word) (hlooks : ¬ LooksNamed word)
    {cs : List Char} (hcs : IsRemainder cs) :
    keywordParts? (word ++ cs) = none ∧ keywordParts? ('?' :: (word ++ cs)) = none := by
  have hchars := hname.isPathChar
  obtain ⟨c, ds, rfl, -⟩ := hname.exists_cons
  have hmark : c ≠ '?' := (hchars c (List.mem_cons_self ..)).ne (by decide) (by decide)
  rw [List.cons_append]
  cases hlower : (c.isLower || c == '_') with
  | false => constructor <;> simp [keywordParts?, hlower, hmark]
  | true =>
    have hcolon : ':' ∉ ds := fun hmem => hlooks ⟨c, ds, rfl, hlower, hmem⟩
    have hword : ∀ d ∈ c :: ds, isNameChar d = true := by
      refine fun d hd => (hchars d hd).resolve_right ?_
      rintro rfl
      rcases List.mem_cons.mp hd with rfl | hmem
      · exact absurd hlower (by decide)
      · exact hcolon hmem
    have hdrop : (c :: (ds ++ cs)).dropWhile isNameChar = cs := by
      rw [← List.cons_append, List.dropWhile_append_of_pos hword, hcs.dropWhile_isNameChar]
    constructor
    · rw [keywordParts?]
      · simp only [hlower, hdrop, if_true]
        split
        · rename_i heq
          exact absurd heq (hcs.trimStart_ne _)
        · rfl
      · rintro _ ⟨⟩
        exact hmark rfl
    · simp only [keywordParts?, hlower, hdrop, if_true]
      split
      · rename_i heq
        exact absurd heq (hcs.trimStart_ne _)
      · rfl

/-- Behind an identifier and a colon, everything up to the end of the text is the type, unless it is
broken into lines. -/
theorem keywordParts?_identifier {name : String} (hname : IsKeyword name) (cs : List Char) :
    (keywordParts? (name.toList ++ ':' :: cs) =
        if (Text.trimStart cs).isEmpty || (Text.trimStart cs).contains '\n' then none
        else some (true, name.toList, Text.trimStart cs)) ∧
      keywordParts? ('?' :: (name.toList ++ ':' :: cs)) =
        if (Text.trimStart cs).isEmpty || (Text.trimStart cs).contains '\n' then none
        else some (false, name.toList, Text.trimStart cs) := by
  have hchars := hname.isNameChar
  obtain ⟨c, ds, hcons, hc, -⟩ := hname
  have hlower : (c.isLower || c == '_') = true := by simpa using hc
  rw [hcons] at hchars ⊢
  have hmark : c ≠ '?' := by
    rintro rfl
    exact absurd hlower (by decide)
  have htake : (c :: (ds ++ ':' :: cs)).takeWhile isNameChar = c :: ds := by
    rw [← List.cons_append, List.takeWhile_append_of_pos hchars,
      List.takeWhile_cons_of_neg (by decide), List.append_nil]
  have hdrop : (c :: (ds ++ ':' :: cs)).dropWhile isNameChar = ':' :: cs := by
    rw [← List.cons_append, List.dropWhile_append_of_pos hchars,
      List.dropWhile_cons_of_neg (by decide)]
  have hcolon : Text.trimStart (':' :: cs) = ':' :: cs := rfl
  rw [List.cons_append]
  constructor
  · rw [keywordParts?]
    · simp only [hlower, htake, hdrop, hcolon, if_true]
    · rintro _ ⟨⟩
      exact hmark rfl
  · simp only [keywordParts?, hlower, htake, hdrop, hcolon, if_true]

/-- The parts of a keyword parameter are found, with or without blanks behind the colon. -/
theorem keywordParts?_colon {name : String} (hname : IsKeyword name) {cs type : List Char}
    (htype : Text.trimStart cs = type) (hne : type ≠ []) (hline : '\n' ∉ type) :
    keywordParts? (name.toList ++ ':' :: cs) = some (true, name.toList, type) ∧
      keywordParts? ('?' :: (name.toList ++ ':' :: cs)) = some (false, name.toList, type) := by
  have hkeep : (type.isEmpty || type.contains '\n') = false := by
    rw [Bool.or_eq_false_iff, List.isEmpty_eq_false_iff, List.contains_eq_mem,
      decide_eq_false_iff_not]
    exact ⟨hne, hline⟩
  obtain ⟨hplain, hmarked⟩ := keywordParts?_identifier hname cs
  rw [htype, hkeep, if_neg Bool.false_ne_true] at hplain hmarked
  exact ⟨hplain, hmarked⟩

/-- A parameter without stars that has the form of a keyword parameter is one. -/
theorem addParam_of_keyword (s : Signature) {param name type : List Char} {isRequired : Bool}
    (hstar : ∀ rest, param ≠ '*' :: rest)
    (hparts : keywordParts? param = some (isRequired, name, type)) :
    addParam s param =
      ofChars type >>= fun t => .ok (s.addNamed (String.ofList name) t isRequired) := by
  unfold addParam
  split
  · exact absurd rfl (hstar _)
  · exact absurd rfl (hstar _)
  · simp only [hparts]
    rfl

/-- Otherwise a mark makes it an optional one. -/
theorem addParam_of_mark (s : Signature) {type : List Char}
    (hparts : keywordParts? ('?' :: type) = none) :
    addParam s ('?' :: type) = ofChars type >>= fun t => .ok (s.addPositional t true) := by
  rw [addParam]
  simp only [hparts]
  rfl

/-- And without a mark it has to be given. -/
theorem addParam_of_type (s : Signature) {type : List Char} (hstar : ∀ rest, type ≠ '*' :: rest)
    (hmark : ∀ rest, type ≠ '?' :: rest) (hparts : keywordParts? type = none) :
    addParam s type = ofChars type >>= fun t => .ok (s.addPositional t false) := by
  rw [addParam]
  · simp only [hparts]
    rfl
  · exact fun rest => hstar _
  · exact fun rest => hstar _
  · exact hmark

private theorem ofChars_colon (cs : List Char) (t : TypeExpr) : ofChars (':' :: cs) ≠ .ok t := by
  intro h
  obtain ⟨ts, hts, -⟩ := spells_of_ofChars h
  have hterm {ds : List Char} {t : TypeExpr} (h : SpellsTerm ds t) (rest after : List Char) :
      ds ++ rest ≠ ':' :: after := by
    cases h with
    | name hname =>
      obtain ⟨d, es, rfl, hd⟩ := hname.exists_cons
      rintro ⟨⟩
      exact absurd hd (by decide)
    | _ => exact fun heq => absurd (List.cons.inj heq).1 (by decide)
  have halternative {ds : List Char} {t : TypeExpr} (h : SpellsAlternative ds t)
      (rest after : List Char) : ds ++ rest ≠ ':' :: after := by
    obtain ⟨hbefore, hds, hafter⟩ := h
    rename_i before ds after'
    rw [List.append_assoc, List.append_assoc]
    cases before with
    | nil => exact hterm hds _ _
    | cons d before =>
      rintro ⟨⟩
      exact absurd (hbefore ':' (List.mem_cons_self ..)) (by decide)
  generalize htext : ':' :: cs = text at hts
  cases hts with
  | last h => exact halternative h [] cs (by rw [List.append_nil, htext])
  | bar h h' => exact halternative h _ cs htext.symm

/-- What looks like a keyword is read as one, with a type that begins with a colon. -/
theorem addParam_looksNamed {word : List Char} (hname : IsName word) (hlooks : LooksNamed word)
    {cs : List Char} (hcs : '\n' ∉ cs) (s s' : Signature) :
    addParam s (word ++ cs) ≠ .ok s' ∧ addParam s ('?' :: (word ++ cs)) ≠ .ok s' := by
  obtain ⟨c, ds, hcons, hlower, hcolon⟩ := hlooks
  cases hname with
  | identifier h => exact absurd ⟨c, ds, hcons, hlower, hcolon⟩ h.not_looksNamed
  | @qualified word rest h h' =>
    obtain ⟨d, es, rfl, -, hes⟩ := h
    obtain rfl : d = c := (List.cons.inj hcons).1
    have hkeyword : IsKeyword (String.ofList (d :: es)) :=
      ⟨d, es, String.toList_ofList, by simpa using hlower, hes⟩
    have hline : '\n' ∉ ':' :: (rest ++ cs) := by
      have hrest : '\n' ∉ rest := fun hmem =>
        (h'.isPathChar _ hmem).ne (by decide) (by decide) rfl
      simp [hrest, hcs]
    have hblank : Text.trimStart (':' :: (rest ++ cs)) = ':' :: (rest ++ cs) := rfl
    obtain ⟨hplain, hmarked⟩ := keywordParts?_colon hkeyword hblank (List.cons_ne_nil _ _) hline
    have htext : d :: es ++ ':' :: ':' :: rest ++ cs =
        (String.ofList (d :: es)).toList ++ ':' :: ':' :: (rest ++ cs) := by
      rw [String.toList_ofList]
      simp
    have hrejected {param name : List Char} {isRequired : Bool}
        (hstar : ∀ rest, param ≠ '*' :: rest)
        (hparts : keywordParts? param = some (isRequired, name, ':' :: (rest ++ cs))) :
        addParam s param ≠ .ok s' := by
      rw [addParam_of_keyword s hstar hparts]
      intro heq
      obtain ⟨t, ht, -⟩ := exists_of_bind_eq_ok heq
      exact ofChars_colon _ t ht
    rw [htext]
    refine ⟨hrejected (fun after heq => ?_) hplain,
      hrejected (fun after heq => absurd (List.cons.inj heq).1 (by decide)) hmarked⟩
    rw [String.toList_ofList] at heq
    rw [(List.cons.inj heq).1] at hlower
    exact absurd hlower (by decide)

/-- A text that is no keyword parameter, whether or not there is a mark in front of it. -/
def IsUnnamed (cs : List Char) : Prop :=
  keywordParts? ('?' :: cs) = none ∧ ((∀ rest, cs ≠ '?' :: rest) → keywordParts? cs = none)

theorem isUnnamed_cons {c : Char} (hlower : (c.isLower || c == '_') = false) (cs : List Char) :
    IsUnnamed (c :: cs) := by
  refine ⟨by simp [keywordParts?, hlower], fun hmark => ?_⟩
  rw [keywordParts?]
  · simp [hlower]
  · exact hmark

private theorem isUnnamed_word {word : List Char} (hname : IsName word) (hlooks : ¬ LooksNamed word)
    {cs : List Char} (hcs : IsRemainder cs) : IsUnnamed (word ++ cs) :=
  (keywordParts?_word hname hlooks hcs).symm.imp_right fun hparts _ => hparts

/-- A type expression is no keyword parameter unless its first alternative looks like one, and then
it cannot be read as a parameter at all. -/
theorem isUnnamed_or_looksNamed {cs : List Char} {t : TypeExpr} {ts : List TypeExpr}
    (h : SpellsAlternatives cs (t :: ts)) (hline : '\n' ∉ cs) :
    IsUnnamed cs ∨ (∃ name, t = .named name ∧ LooksNamed name.toList) ∧
      ∀ s s', addParam s cs ≠ .ok s' ∧ addParam s ('?' :: cs) ≠ .ok s' := by
  obtain ⟨before, term, rest, rfl, hbefore, hterm, hrest⟩ := h.exists_term
  cases before with
  | cons c before =>
    refine .inl (isUnnamed_cons (Bool.eq_false_iff.mpr fun hlower => ?_) _)
    rw [Bool.or_eq_true, beq_iff_eq] at hlower
    have hname : isNameChar c = true := isNameChar_iff.mpr (hlower.imp_left fun h => .inl (.inr h))
    exact absurd (hbefore c (List.mem_cons_self ..))
      (Bool.eq_false_iff.mp (isBlank_of_isNameChar hname))
  | nil =>
    rw [List.nil_append] at hline ⊢
    have hreserved {word : String} (hword : word ∈ reservedWords) :
        IsUnnamed (word.toList ++ rest) :=
      isUnnamed_word (.identifier (isIdentifier_of_mem_reservedWords hword))
        (isIdentifier_of_mem_reservedWords hword).not_looksNamed hrest
    cases hterm with
    | self => exact .inl (hreserved (by decide))
    | untyped => exact .inl (hreserved (by decide))
    | nil => exact .inl (hreserved (by decide))
    | name hname _ =>
      by_cases hlooks : LooksNamed term
      · exact .inr ⟨⟨_, rfl, by rwa [String.toList_ofList]⟩, addParam_looksNamed hname hlooks
          fun hmem => hline (List.mem_append_right _ hmem)⟩
      · exact .inl (isUnnamed_word hname hlooks hrest)
    | optional h => exact .inl (isUnnamed_cons (by decide) _)
    | parentheses h => exact .inl (isUnnamed_cons (by decide) _)

private theorem newline_notMem_text {t : TypeExpr} (h : t.IsWritten) : '\n' ∉ t.text.toList :=
  fun hmem => (h.isTypeChar _ hmem).ne (by decide) (by decide) rfl

private theorem text_ne_star {t : TypeExpr} (h : t.IsWritten) (rest : List Char) :
    t.text.toList ≠ '*' :: rest :=
  fun heq => (h.isTypeChar '*' (heq ▸ List.mem_cons_self ..)).ne (by decide) (by decide) rfl

private theorem isMarked_of_text {t : TypeExpr} (h : t.IsWritten) {rest : List Char}
    (htext : t.text.toList = '?' :: rest) : t.isMarked = true := by
  have hspells := h.spells_text
  obtain ⟨a, as, halternatives⟩ := List.exists_cons_of_ne_nil hspells.ne_nil
  rw [halternatives, htext] at hspells
  obtain ⟨inner, rfl, -⟩ := hspells.of_mark
  rw [isMarked, halternatives]
  rfl

private theorem text_of_isMarked {t : TypeExpr} (h : t.IsWritten) (hmarked : t.isMarked = true) :
    ∃ rest, t.text.toList = '?' :: rest := by
  unfold isMarked at hmarked
  split at hmarked
  · rename_i inner hhead
    exact h.text_of_head.1 inner hhead
  · cases hmarked

/-- A positional parameter that cannot be mistaken is read as it is printed. -/
theorem addParam_of_isClear (s : Signature) {p : OrderedParam} (h : p.type.IsWritten)
    (hclear : p.IsClear) :
    addParam s p.text.toList = .ok (s.addPositional p.type.flattened p.isOptional) := by
  obtain ⟨type, isOptional⟩ := p
  obtain ⟨hmark, hname⟩ := hclear
  have hspells := h.spells_text
  obtain ⟨a, as, halternatives⟩ := List.exists_cons_of_ne_nil hspells.ne_nil
  rw [halternatives] at hspells
  have hunnamed : IsUnnamed type.text.toList := by
    refine (isUnnamed_or_looksNamed hspells (newline_notMem_text h)).resolve_right ?_
    rintro ⟨⟨name, rfl, hlooks⟩, -⟩
    exact hname ⟨name, by rw [halternatives]; rfl, hlooks⟩
  have hread := h.ofChars_text
  cases isOptional with
  | true =>
    have htext : (OrderedParam.mk type true).text.toList = '?' :: type.text.toList := by
      rw [OrderedParam.text, if_pos rfl, String.toList_append]
      rfl
    rw [htext, addParam_of_mark s hunnamed.1, hread]
    rfl
  | false =>
    have htext : (OrderedParam.mk type false).text.toList = type.text.toList := by
      rw [OrderedParam.text, if_neg Bool.false_ne_true]
    have hunmarked (rest : List Char) : type.text.toList ≠ '?' :: rest := fun heq =>
      Bool.false_ne_true (hmark (isMarked_of_text h heq))
    rw [htext, addParam_of_type s (text_ne_star h) hunmarked (hunnamed.2 hunmarked), hread]
    rfl

/-- A positional parameter that can be read back at all is read as a positional one, and a mark in
front makes it optional. -/
theorem exists_of_addParam_text {s s' : Signature} {p : OrderedParam} (h : p.type.IsWritten)
    (heq : addParam s p.text.toList = .ok s') : ¬ p.type.LooksNamed ∧
      ∃ t, s' = s.addPositional t (p.isOptional || p.type.isMarked) := by
  obtain ⟨type, isOptional⟩ := p
  dsimp only at h ⊢
  have hline := newline_notMem_text h
  have htext : (OrderedParam.mk type isOptional).text.toList =
      if isOptional then '?' :: type.text.toList else type.text.toList := by
    cases isOptional <;> simp [OrderedParam.text]
  have hspells := h.spells_text
  obtain ⟨a, as, halternatives⟩ := List.exists_cons_of_ne_nil hspells.ne_nil
  rw [halternatives] at hspells
  have hname : ¬ type.LooksNamed := by
    rintro ⟨name, hhead, hlooks⟩
    obtain ⟨rest, hrest⟩ := h.text_of_head.2 name hhead
    rw [halternatives] at hhead
    obtain rfl := Option.some.inj hhead
    rw [hrest] at hline htext
    cases hspells.isWritten _ (List.mem_cons_self ..) with
    | named hwritten =>
      obtain ⟨hplain, hmarked⟩ := addParam_looksNamed hwritten.1 hlooks
        (fun hmem => hline (List.mem_append_right _ hmem)) s s'
      rw [htext] at heq
      cases isOptional with
      | true => exact hmarked heq
      | false => exact hplain heq
  have hunnamed {cs : List Char} {b : TypeExpr} (hcs : SpellsAlternatives cs (b :: as))
      (hline : '\n' ∉ cs)
      (hread : addParam s cs = .ok s' ∨ addParam s ('?' :: cs) = .ok s') : IsUnnamed cs :=
    (isUnnamed_or_looksNamed hcs hline).resolve_right fun hrejected =>
      hread.elim (hrejected.2 s s').1 (hrejected.2 s s').2
  rw [htext] at heq
  refine ⟨hname, ?_⟩
  cases isOptional with
  | true =>
    have hread : addParam s ('?' :: type.text.toList) = .ok s' := heq
    rw [addParam_of_mark s (hunnamed hspells hline (.inr hread)).1] at hread
    obtain ⟨t, -, ht⟩ := exists_of_bind_eq_ok hread
    exact ⟨t, (Except.ok.inj ht).symm⟩
  | false =>
    have hread : addParam s type.text.toList = .ok s' := heq
    cases hmarked : type.isMarked with
    | true =>
      obtain ⟨rest, hrest⟩ := text_of_isMarked h hmarked
      rw [hrest] at hspells hline hread
      obtain ⟨inner, -, hinner⟩ := hspells.of_mark
      have hrestline : '\n' ∉ rest := fun hmem => hline (List.mem_cons_of_mem _ hmem)
      rw [addParam_of_mark s (hunnamed hinner hrestline (.inr hread)).1] at hread
      obtain ⟨t, -, ht⟩ := exists_of_bind_eq_ok hread
      exact ⟨t, (Except.ok.inj ht).symm⟩
    | false =>
      have hunmarked (rest : List Char) : type.text.toList ≠ '?' :: rest := fun hrest =>
        absurd (isMarked_of_text h hrest) (Bool.eq_false_iff.mp hmarked)
      rw [addParam_of_type s (text_ne_star h) hunmarked
        ((hunnamed hspells hline (.inl hread)).2 hunmarked)] at hread
      obtain ⟨t, -, ht⟩ := exists_of_bind_eq_ok hread
      exact ⟨t, (Except.ok.inj ht).symm⟩

/-- A keyword parameter is read as it is printed. -/
theorem addParam_keyword (s : Signature) {p : KeywordParam} (hname : IsKeyword p.name)
    (h : p.type.IsWritten) :
    addParam s p.text.toList = .ok (s.addNamed p.name p.type.flattened p.isRequired) := by
  obtain ⟨name, type, isRequired⟩ := p
  dsimp only at hname h ⊢
  have hblank : Text.trimStart (' ' :: type.text.toList) = type.text.toList :=
    Text.dropWhile_isBlank TypeExpr.forall_mem_space h.isTight.first
  have hne : type.text.toList ≠ [] := by
    obtain ⟨c, cs, htext, -⟩ := h.isTight.first
    rw [htext]
    exact List.cons_ne_nil _ _
  obtain ⟨hplain, hmarked⟩ := keywordParts?_colon hname hblank hne (newline_notMem_text h)
  have hread := h.ofChars_text
  cases isRequired with
  | true =>
    have htext : (KeywordParam.mk name type true).text.toList =
        name.toList ++ ':' :: ' ' :: type.text.toList := by
      simp [KeywordParam.text]
    have hstar (rest : List Char) :
        name.toList ++ ':' :: ' ' :: type.text.toList ≠ '*' :: rest := by
      obtain ⟨c, cs, hcons, -⟩ := id hname
      rw [hcons, List.cons_append]
      intro heq
      have hchar := hname.isNameChar c (hcons ▸ List.mem_cons_self ..)
      rw [(List.cons.inj heq).1] at hchar
      exact absurd hchar (by decide)
    rw [htext, addParam_of_keyword s hstar hplain, hread, String.ofList_toList]
    rfl
  | false =>
    have htext : (KeywordParam.mk name type false).text.toList =
        '?' :: (name.toList ++ ':' :: ' ' :: type.text.toList) := by
      simp [KeywordParam.text]
    have hstar (rest : List Char) :
        '?' :: (name.toList ++ ':' :: ' ' :: type.text.toList) ≠ '*' :: rest :=
      fun heq => absurd (List.cons.inj heq).1 (by decide)
    rw [htext, addParam_of_keyword s hstar hmarked, hread, String.ofList_toList]
    rfl

/-- Rest parameters are read as they are printed. -/
theorem addParam_star (s : Signature) {t : TypeExpr} (h : t.IsWritten) :
    addParam s ("*" ++ t.text).toList = .ok { s with rest := some t.flattened } := by
  have htext : ("*" ++ t.text).toList = '*' :: t.text.toList := String.toList_append
  rw [htext, addParam, h.ofChars_text]
  · rfl
  · exact text_ne_star h

private theorem addParam_stars (s : Signature) {t : TypeExpr} (h : t.IsWritten) :
    addParam s ("**" ++ t.text).toList = .ok { s with namedRest := some t.flattened } := by
  have htext : ("**" ++ t.text).toList = '*' :: '*' :: t.text.toList := String.toList_append
  rw [htext, addParam, h.ofChars_text]
  rfl

/-! ### Printed signatures -/

/-- A signature as it is read: its types can be written, and its keywords are identifiers. -/
structure IsWritten (s : Signature) : Prop where
  positional : ∀ p ∈ s.positional, p.type.IsWritten
  rest : ∀ t ∈ s.rest, t.IsWritten
  named : ∀ p ∈ s.named, IsKeyword p.name ∧ p.type.IsWritten
  namedRest : ∀ t ∈ s.namedRest, t.IsWritten
  returns : s.returns.IsWritten

/-- A signature with its types as they are read back. -/
def flattened (s : Signature) : Signature :=
  { positional := s.positional.map (·.flattened)
    rest := s.rest.map (·.flattened)
    named := s.named.map (·.flattened)
    namedRest := s.namedRest.map (·.flattened)
    returns := s.returns.flattened }

private theorem isKeyword_of_keywordParts? {param name type : List Char} {isRequired : Bool}
    (h : keywordParts? param = some (isRequired, name, type)) :
    IsKeyword (String.ofList name) := by
  have hword {c : Char} {body : List Char} (hlower : (c.isLower || c == '_') = true) :
      IsKeyword (String.ofList ((c :: body).takeWhile isNameChar)) := by
    rw [Bool.or_eq_true, beq_iff_eq] at hlower
    have hname : isNameChar c = true := isNameChar_iff.mpr (hlower.imp_left fun h => .inl (.inr h))
    refine ⟨c, body.takeWhile isNameChar, ?_, hlower, fun d hd => List.mem_takeWhile_imp hd⟩
    rw [String.toList_ofList, List.takeWhile_cons_of_pos hname]
  simp only [keywordParts?] at h
  split at h
  · cases h
  rename_i c body hbody
  split at h
  · rename_i hlower
    split at h
    · split at h
      · cases h
      · obtain ⟨-, rfl, -⟩ := h
        rw [hbody]
        exact hword hlower
    · cases h
  · cases h

/-- Reading one more parameter keeps a signature writable. -/
theorem IsWritten.addParam {s s' : Signature} (h : s.IsWritten) {param : List Char}
    (heq : Signature.addParam s param = .ok s') : s'.IsWritten := by
  unfold Signature.addParam at heq
  split at heq
  · obtain ⟨t, ht, hs⟩ := exists_of_bind_eq_ok heq
    obtain rfl := Except.ok.inj hs
    exact { h with namedRest := fun u hu => Option.some.inj hu ▸ isWritten_of_ofChars ht }
  · obtain ⟨t, ht, hs⟩ := exists_of_bind_eq_ok heq
    obtain rfl := Except.ok.inj hs
    exact { h with rest := fun u hu => Option.some.inj hu ▸ isWritten_of_ofChars ht }
  · have hpositional {cs : List Char} {t : TypeExpr} (ht : ofChars cs = .ok t) (isOptional : Bool) :
        (s.addPositional t isOptional).IsWritten := by
      refine { h with positional := List.forall_mem_append.mpr ⟨h.positional, ?_⟩ }
      exact List.forall_mem_singleton.mpr (isWritten_of_ofChars ht)
    split at heq
    · rename_i hparts
      obtain ⟨t, ht, hs⟩ := exists_of_bind_eq_ok heq
      obtain rfl := Except.ok.inj hs
      refine { h with named := List.forall_mem_append.mpr ⟨h.named, ?_⟩ }
      exact List.forall_mem_singleton.mpr
        ⟨isKeyword_of_keywordParts? hparts, isWritten_of_ofChars ht⟩
    · split at heq
      · obtain ⟨t, ht, hs⟩ := exists_of_bind_eq_ok heq
        obtain rfl := Except.ok.inj hs
        exact hpositional ht true
      · obtain ⟨t, ht, hs⟩ := exists_of_bind_eq_ok heq
        obtain rfl := Except.ok.inj hs
        exact hpositional ht false

/-- Whatever is read can be written. -/
theorem isWritten_of_parse {text : String} {s : Signature} (h : parse text = .ok s) :
    s.IsWritten := by
  have hfold {params : List (List Char)} {s s' : Signature} (hs : s.IsWritten)
      (heq : params.foldlM addParam s = .ok s') : s'.IsWritten := by
    induction params generalizing s with
    | nil => exact Except.ok.inj heq ▸ hs
    | cons param params ih =>
      rw [List.foldlM_cons] at heq
      obtain ⟨s₁, hparam, hrest⟩ := exists_of_bind_eq_ok heq
      exact ih (hs.addParam hparam) hrest
  simp only [parse] at h
  split at h
  · split at h
    · cases h
    · split at h
      · obtain ⟨t, ht, hparams⟩ := exists_of_bind_eq_ok h
        refine hfold ⟨List.forall_mem_nil _, ?_, List.forall_mem_nil _, ?_, isWritten_of_ofChars ht⟩
          hparams
        · exact fun t ht => nomatch ht
        · exact fun t ht => nomatch ht
      · cases h
  · cases h

/-- The parameters of a signature as they are written. -/
def paramTexts (s : Signature) : List String :=
  s.positional.map (·.text) ++ (s.rest.map fun t => "*" ++ t.text).toList ++ s.named.map (·.text)
    ++ (s.namedRest.map fun t => "**" ++ t.text).toList

/-- A parameter as printed: no blanks around it, and nothing in it that ends or divides a list of
parameters. -/
structure IsParam (cs : List Char) : Prop where
  isTight : Text.IsTight cs
  isBalanced : IsBalanced cs
  comma : ',' ∉ cs

private theorem IsParam.marked {cs : List Char} (h : IsParam cs) {c : Char} (hc : c ∈ ['?', '*']) :
    IsParam (c :: cs) := by
  obtain ⟨hblank, hopen, hclose, hcomma⟩ :
      Text.isBlank c = false ∧ c ≠ '(' ∧ c ≠ ')' ∧ c ≠ ',' := by
    simp only [List.mem_cons, List.not_mem_nil, or_false] at hc
    rcases hc with rfl | rfl <;> decide
  refine ⟨h.isTight.cons_append hblank [], .char hopen hclose h.isBalanced, fun hmem => ?_⟩
  exact (List.mem_cons.mp hmem).elim (fun heq => hcomma heq.symm) h.comma

private theorem isParam_type {t : TypeExpr} (h : t.IsWritten) : IsParam t.text.toList :=
  ⟨h.isTight, h.isBalanced_text,
    fun hmem => (h.isTypeChar _ hmem).ne (by decide) (by decide) rfl⟩

private theorem isParam_keyword {name : String} (hname : IsKeyword name) {t : TypeExpr}
    (h : t.IsWritten) : IsParam (name.toList ++ ':' :: ' ' :: t.text.toList) := by
  have hchars : ∀ c ∈ name.toList, IsPathChar c := fun c hc => .inl (hname.isNameChar c hc)
  obtain ⟨c, cs, hcons, -⟩ := id hname
  have htype := isParam_type h
  refine ⟨(isTight_of_isPathChar (by rw [hcons]; exact List.cons_ne_nil _ _) hchars).append
    [':', ' '] h.isTight, ?_, ?_⟩
  · exact (isBalanced_of_isPathChar hchars).append
      (.char (by decide) (by decide) (.char (by decide) (by decide) htype.isBalanced))
  · intro hmem
    rcases List.mem_append.mp hmem with hmem | hmem
    · exact (hchars _ hmem).ne (by decide) (by decide) rfl
    · simp [htype.comma] at hmem

private theorem IsWritten.isParam {s : Signature} (h : s.IsWritten) :
    ∀ text ∈ s.paramTexts, IsParam text.toList := by
  have hmarked (c : Char) (hc : c ∈ ['?', '*']) {text : String} (htext : IsParam text.toList) :
      IsParam (String.singleton c ++ text).toList := by
    rw [String.toList_append, String.toList_singleton]
    exact htext.marked hc
  have hoption (mark : String) {rest : Option TypeExpr}
      (hrest : ∀ t ∈ rest, IsParam (mark ++ t.text).toList) :
      ∀ text ∈ (rest.map fun t => mark ++ t.text).toList, IsParam text.toList := by
    rintro text htext
    obtain ⟨t, ht, rfl⟩ := Option.map_eq_some_iff.mp (Option.mem_toList.mp htext)
    exact hrest t ht
  simp only [paramTexts, List.forall_mem_append, List.forall_mem_map]
  refine ⟨⟨⟨fun p hp => ?_, hoption "*" fun t ht => ?_⟩, fun p hp => ?_⟩,
    hoption "**" fun t ht => ?_⟩
  · have htext := isParam_type (h.positional p hp)
    rw [OrderedParam.text]
    split
    · exact hmarked '?' (by decide) htext
    · exact htext
  · exact hmarked '*' (by decide) (isParam_type (h.rest t ht))
  · obtain ⟨hname, htype⟩ := h.named p hp
    have htext : IsParam (p.name ++ ": " ++ p.type.text).toList := by
      simpa using isParam_keyword hname htype
    have hassoc (mark : String) : mark ++ p.name ++ ": " ++ p.type.text =
        mark ++ (p.name ++ ": " ++ p.type.text) := by
      rw [String.append_assoc, String.append_assoc, String.append_assoc]
    rw [KeywordParam.text, hassoc]
    split
    · rwa [String.empty_append]
    · exact hmarked '?' (by decide) htext
  · have hstars : "**" ++ t.text = "*" ++ ("*" ++ t.text) := by
      rw [← String.append_assoc]
      rfl
    rw [hstars]
    exact hmarked '*' (by decide) (hmarked '*' (by decide) (isParam_type (h.namedRest t ht)))

/-- An opening parenthesis is one more to be closed. -/
theorem splitAtClosing_opening (depth : Nat) (cs : List Char) :
    splitAtClosing depth ('(' :: cs) =
      (splitAtClosing (depth + 1) cs).map fun (l, r) => ('(' :: l, r) := by
  cases depth <;> rw [splitAtClosing, if_pos rfl]

/-- Characters other than parentheses are passed. -/
theorem splitAtClosing_char {c : Char} (hopen : c ≠ '(') (hclose : c ≠ ')') (depth : Nat)
    (cs : List Char) : splitAtClosing depth (c :: cs) =
      (splitAtClosing depth cs).map fun (l, r) => (c :: l, r) := by
  cases depth <;> rw [splitAtClosing, if_neg hopen, if_neg hclose]

/-- The search for a closing parenthesis passes over a balanced text. -/
theorem splitAtClosing_balanced {cs : List Char} (h : IsBalanced cs) (depth : Nat)
    (rest : List Char) : splitAtClosing depth (cs ++ rest) =
      (splitAtClosing depth rest).map fun (l, r) => (cs ++ l, r) := by
  induction h generalizing depth rest with
  | nil => simp
  | @char c cs hopen hclose h ih =>
    rw [List.cons_append, splitAtClosing_char hopen hclose, ih, Option.map_map]
    rfl
  | @parentheses as bs h h' ih ih' =>
    have htext : '(' :: (as ++ ')' :: bs) ++ rest = '(' :: (as ++ (')' :: (bs ++ rest))) := by simp
    rw [htext, splitAtClosing_opening, ih, splitAtClosing, if_neg (by decide), if_pos rfl, ih',
      Option.map_map, Option.map_map, Option.map_map]
    congr 1
    funext ⟨l, r⟩
    simp

theorem splitAtClosing_closed {cs : List Char} (h : IsBalanced cs) (rest : List Char) :
    splitAtClosing 0 (cs ++ ')' :: rest) = some (cs, rest) := by
  rw [splitAtClosing_balanced h, splitAtClosing, if_neg (by decide), if_pos rfl]
  simp

/-- The parameters are found as they were printed. -/
theorem writtenParams_intercalate {parts : List (List Char)} (h : ∀ part ∈ parts, IsParam part) :
    writtenParams (List.intercalate ", ".toList parts) = parts := by
  by_cases hne : parts = []
  · rw [hne]
    rfl
  · have htight := Text.isTight_intercalate ", ".toList hne fun part hpart => (h part hpart).isTight
    obtain ⟨part, others, hsplit, hmap⟩ := splitOutside_intercalate (by decide) (by decide)
      (by decide) [] [' '] [] (List.forall_mem_nil _) TypeExpr.forall_mem_space
      (List.forall_mem_nil _) hne fun part hpart =>
        ⟨(h part hpart).isBalanced.isUndivided (h part hpart).comma, (h part hpart).isTight⟩
    have hempty : (List.intercalate ", ".toList parts).isEmpty = false := by
      obtain ⟨c, cs, hcs, -⟩ := htight.first
      rw [hcs]
      rfl
    have hsplit' : splitOutside ',' 0 (List.intercalate ", ".toList parts) = (part, others) :=
      hsplit
    rw [writtenParams, htight.trim_eq, hempty]
    simp only [hsplit', Bool.false_eq_true, if_false, hmap]

private theorem isBalanced_intercalate {parts : List (List Char)}
    (h : ∀ part ∈ parts, IsBalanced part) : IsBalanced (List.intercalate ", ".toList parts) := by
  induction parts with
  | nil => exact .nil
  | cons part parts ih =>
    obtain ⟨hpart, hparts⟩ := List.forall_mem_cons.mp h
    cases parts with
    | nil => rwa [List.intercalate_singleton]
    | cons next parts =>
      rw [List.intercalate_cons_cons]
      exact (hpart.append (.of_forall (by simp))).append (ih hparts)

/-- A printed signature is read by reading its parameters one after the other. -/
theorem parse_text_eq {s : Signature} (h : s.IsWritten) : parse s.text =
    (s.paramTexts.map String.toList).foldlM addParam (returning s.returns.flattened) := by
  have hparts := List.forall_mem_map.mpr h.isParam
  have hparams := writtenParams_intercalate hparts
  have hbalanced := isBalanced_intercalate fun part hpart => (hparts part hpart).isBalanced
  have htext : s.text.toList = '(' :: (List.intercalate ", ".toList (s.paramTexts.map String.toList)
      ++ ')' :: ' ' :: '-' :: '>' :: ' ' :: s.returns.text.toList) := by
    simp [text, paramsText, paramTexts, String.toList_intercalate]
  generalize List.intercalate ", ".toList (s.paramTexts.map String.toList) = params
    at hparams hbalanced htext
  have hreturns := h.returns.isTight
  have harrow : Text.IsTight ('-' :: '>' :: ' ' :: s.returns.text.toList) :=
    hreturns.cons_append (by decide) ['>', ' ']
  have htight : Text.IsTight s.text.toList := by
    rw [htext]
    exact Text.IsTight.cons_append (by decide) _
      ((hreturns.cons_append (by decide) [' ', '-', '>', ' ']))
  have hclosing := splitAtClosing_closed hbalanced
    (' ' :: '-' :: '>' :: ' ' :: s.returns.text.toList)
  have hread : TypeExpr.ofChars (' ' :: s.returns.text.toList) = .ok s.returns.flattened := by
    rw [← TypeExpr.ofChars_trim, hreturns.trim_space, h.returns.ofChars_text]
  rw [parse, htight.trim_eq, htext]
  simp only [hclosing, harrow.trim_space, hread, hparams]
  rfl

/-! ### Reading the parameters of a printed signature -/

private theorem foldlM_positionals {ps : List OrderedParam}
    (h : ∀ p ∈ ps, p.type.IsWritten ∧ p.IsClear) (s : Signature) :
    ((ps.map (·.text)).map String.toList).foldlM addParam s =
      .ok { s with positional := s.positional ++ ps.map (·.flattened) } := by
  induction ps generalizing s with
  | nil =>
    rw [List.map_nil, List.map_nil, List.map_nil, List.append_nil]
    rfl
  | cons p ps ih =>
    obtain ⟨hp, hps⟩ := List.forall_mem_cons.mp h
    rw [List.map_cons, List.map_cons, List.foldlM_cons, addParam_of_isClear s hp.1 hp.2]
    refine (ih hps _).trans ?_
    rw [addPositional, List.append_assoc]
    rfl

/-- What positional parameters are read as, if they can be read. -/
theorem exists_of_foldlM_positionals {ps : List OrderedParam} (h : ∀ p ∈ ps, p.type.IsWritten)
    {s s' : Signature}
    (heq : ((ps.map (·.text)).map String.toList).foldlM addParam s = .ok s') :
    (∀ p ∈ ps, ¬ p.type.LooksNamed) ∧ ∃ qs, s' = { s with positional := s.positional ++ qs } ∧
      List.Forall₂ (fun p q => q.isOptional = (p.isOptional || p.type.isMarked)) ps qs := by
  induction ps generalizing s with
  | nil =>
    refine ⟨List.forall_mem_nil _, [], ?_, .nil⟩
    rw [List.append_nil]
    exact (Except.ok.inj heq).symm
  | cons p ps ih =>
    obtain ⟨hp, hps⟩ := List.forall_mem_cons.mp h
    rw [List.map_cons, List.map_cons, List.foldlM_cons] at heq
    obtain ⟨s₁, hfirst, hrest⟩ := exists_of_bind_eq_ok heq
    obtain ⟨hname, t, rfl⟩ := exists_of_addParam_text hp hfirst
    obtain ⟨hnames, qs, rfl, hqs⟩ := ih hps hrest
    refine ⟨List.forall_mem_cons.mpr ⟨hname, hnames⟩, ⟨t, p.isOptional || p.type.isMarked⟩ :: qs,
      ?_, .cons rfl hqs⟩
    rw [addPositional, List.append_assoc]
    rfl

private theorem foldlM_keywords {ps : List KeywordParam}
    (h : ∀ p ∈ ps, IsKeyword p.name ∧ p.type.IsWritten) (s : Signature) :
    ((ps.map (·.text)).map String.toList).foldlM addParam s =
      .ok { s with named := s.named ++ ps.map (·.flattened) } := by
  induction ps generalizing s with
  | nil =>
    rw [List.map_nil, List.map_nil, List.map_nil, List.append_nil]
    rfl
  | cons p ps ih =>
    obtain ⟨hp, hps⟩ := List.forall_mem_cons.mp h
    rw [List.map_cons, List.map_cons, List.foldlM_cons, addParam_keyword s hp.1 hp.2]
    refine (ih hps _).trans ?_
    rw [addNamed, List.append_assoc]
    rfl

/-- The texts of the parameters behind the positional ones. -/
def textsBehind (s : Signature) : List String :=
  (s.rest.map fun t => "*" ++ t.text).toList ++ s.named.map (·.text) ++
    (s.namedRest.map fun t => "**" ++ t.text).toList

/-- The parameters behind the positional ones are read as they are printed. -/
theorem foldlM_textsBehind {s : Signature} (h : s.IsWritten) (ps : List OrderedParam) :
    (s.textsBehind.map String.toList).foldlM addParam
        { returning s.returns.flattened with positional := ps } =
      .ok { s.flattened with positional := ps } := by
  have hrest (s₁ : Signature) (hs₁ : s₁.rest = none) :
      ((s.rest.map fun t => "*" ++ t.text).toList.map String.toList).foldlM addParam s₁ =
        .ok { s₁ with rest := s.rest.map (·.flattened) } := by
    cases hrest : s.rest with
    | none => exact congrArg Except.ok (by rw [Option.map_none, ← hs₁])
    | some t => exact (bind_pure _).trans (addParam_star _ (h.rest t hrest))
  have hnamedRest (s₁ : Signature) (hs₁ : s₁.namedRest = none) :
      ((s.namedRest.map fun t => "**" ++ t.text).toList.map String.toList).foldlM addParam s₁ =
        .ok { s₁ with namedRest := s.namedRest.map (·.flattened) } := by
    cases hrest : s.namedRest with
    | none => exact congrArg Except.ok (by rw [Option.map_none, ← hs₁])
    | some t => exact (bind_pure _).trans (addParam_stars _ (h.namedRest t hrest))
  rw [textsBehind, List.map_append, List.map_append, List.foldlM_append, List.foldlM_append,
    hrest _ rfl]
  refine (congrArg (· >>= _) (foldlM_keywords h.named _)).trans ?_
  exact hnamedRest _ rfl

/-- A printed signature is read by reading the positional parameters first. -/
theorem parse_text_eq_bind {s : Signature} (h : s.IsWritten) : parse s.text =
    ((s.positional.map (·.text)).map String.toList).foldlM addParam
        (returning s.returns.flattened) >>= fun s₁ =>
      (s.textsBehind.map String.toList).foldlM addParam s₁ := by
  have hparams : s.paramTexts = s.positional.map (·.text) ++ s.textsBehind := by
    simp [paramTexts, textsBehind]
  rw [parse_text_eq h, hparams, List.map_append, List.foldlM_append]

/-- A signature whose positional parameters cannot be mistaken is read as it is printed, up to
unions within unions. -/
theorem parse_text_of_isClear {s : Signature} (h : s.IsWritten)
    (hclear : ∀ p ∈ s.positional, p.IsClear) : parse s.text = .ok s.flattened := by
  rw [parse_text_eq_bind h, foldlM_positionals fun p hp => ⟨h.positional p hp, hclear p hp⟩]
  exact foldlM_textsBehind h _

end Signature

/-! ### Flat signatures -/

theorem TypeName.IsPath.isWritten {name : TypeName} (h : name.IsPath) : name.IsWritten := by
  obtain ⟨c, cs, hcons, hc, hcontinues, -⟩ := h.chars
  refine ⟨isTypeName_iff.mp ?_, fun hreserved => ?_⟩
  · rw [hcons, isTypeName, isNameStart_of_isUpper hc, hcontinues, Bool.and_self]
  · have hlower : ∀ word ∈ TypeExpr.reservedWords, word.toList.head?.any Char.isUpper = false := by
      decide
    have hword := hlower name hreserved
    rw [hcons] at hword
    exact absurd hc (Bool.eq_false_iff.mp hword)

private theorem TypeName.IsPath.not_looksNamed {name : TypeName} (h : name.IsPath) :
    ¬ LooksNamed name.toList := by
  rintro ⟨d, ds, htext, hlower, -⟩
  obtain ⟨c, cs, hcons, hc, -⟩ := h.chars
  obtain rfl := (List.cons.inj (hcons.symm.trans htext)).1
  rw [Bool.or_eq_true, beq_iff_eq] at hlower
  rcases hlower with hlower | rfl
  · have hplace := toNat_of_isUpper hc
    have hplace' := toNat_of_isLower hlower
    omega
  · exact absurd hc (by decide)

namespace TypeExpr

/-- A single word, or a union of named types. -/
inductive IsFlat : TypeExpr → Prop
  | untyped : IsFlat .untyped
  | self : IsFlat .self
  | named {name : TypeName} : name.IsPath → IsFlat (.named name)
  | union {names : List TypeName} : 2 ≤ names.length → (∀ name ∈ names, name.IsPath) →
      IsFlat (.union (names.map .named))

theorem isFlat_ofNames {names : List TypeName} (h : ∀ name ∈ names, name.IsPath) :
    IsFlat (ofNames names) := by
  match names, h with
  | [], _ => exact .untyped
  | [name], h => exact .named (h name (List.mem_singleton_self name))
  | _ :: _ :: _, h => exact .union (by simp) h

private theorem alternatives_union_named (names : List TypeName) :
    (union (names.map .named)).alternatives = names.map .named := by
  rw [alternatives, allAlternatives_eq_flatten, List.map_map]
  induction names with
  | nil => rfl
  | cons name names ih => rw [List.map_cons, List.flatten_cons, ih]; rfl

namespace IsFlat

theorem isWritten {t : TypeExpr} (h : t.IsFlat) : t.IsWritten := by
  cases h with
  | untyped => exact .untyped
  | self => exact .self
  | named hpath => exact .named hpath.isWritten
  | union hlength hpaths =>
    exact .union (by rwa [List.length_map]) (List.forall_mem_map.mpr fun name hname =>
      .named (hpaths name hname).isWritten)

/-- A flat type expression has no unions within unions. -/
theorem flattened_eq {t : TypeExpr} (h : t.IsFlat) : t.flattened = t := by
  cases h with
  | untyped => rfl
  | self => rfl
  | named hpath => rfl
  | union hlength hpaths =>
    rw [flattened, alternatives_union_named, ofAlternatives_of_two_le (by rwa [List.length_map])]

/-- Nor can it be mistaken for another parameter. -/
theorem isClear {t : TypeExpr} (h : t.IsFlat) (isOptional : Bool) :
    (OrderedParam.mk t isOptional).IsClear := by
  have hhead : t.alternatives.head? = some .untyped ∨ t.alternatives.head? = some .self ∨
      ∃ name : TypeName, name.IsPath ∧ t.alternatives.head? = some (.named name) := by
    cases h with
    | untyped => exact .inl rfl
    | self => exact .inr (.inl rfl)
    | named hpath => exact .inr (.inr ⟨_, hpath, rfl⟩)
    | @union names hlength hpaths =>
      match names, hlength, hpaths with
      | name :: _ :: _, _, hpaths =>
        rw [alternatives_union_named]
        exact .inr (.inr ⟨name, hpaths name (List.mem_cons_self ..), rfl⟩)
  refine ⟨fun hmarked => ?_, ?_⟩
  · rcases hhead with hhead | hhead | ⟨name, -, hhead⟩ <;> simp [isMarked, hhead] at hmarked
  · rintro ⟨name, hname, hlooks⟩
    rcases hhead with hhead | hhead | ⟨name', hpath, hhead⟩
    · cases hhead.symm.trans hname
    · cases hhead.symm.trans hname
    · obtain rfl := TypeExpr.named.inj (Option.some.inj (hhead.symm.trans hname))
      exact hpath.not_looksNamed hlooks

end IsFlat

end TypeExpr

namespace Signature

/-- A signature all of whose types are flat and whose keywords are identifiers. -/
structure IsFlat (s : Signature) : Prop where
  positional : ∀ p ∈ s.positional, p.type.IsFlat
  rest : ∀ t ∈ s.rest, t.IsFlat
  named : ∀ p ∈ s.named, IsKeyword p.name ∧ p.type.IsFlat
  namedRest : ∀ t ∈ s.namedRest, t.IsFlat
  returns : s.returns.IsFlat

/-- **Flat signatures are read as they are written.** -/
theorem parse_text {s : Signature} (h : s.IsFlat) : parse s.text = .ok s := by
  have hwritten : s.IsWritten :=
    { positional := fun p hp => (h.positional p hp).isWritten
      rest := fun t ht => (h.rest t ht).isWritten
      named := fun p hp => (h.named p hp).imp_right (·.isWritten)
      namedRest := fun t ht => (h.namedRest t ht).isWritten
      returns := h.returns.isWritten }
  have hflattened : s.flattened = s := by
    have hpositional : s.positional.map (·.flattened) = s.positional :=
      (List.map_congr_left fun p hp => by
        rw [OrderedParam.flattened, (h.positional p hp).flattened_eq]
        rfl).trans (List.map_id _)
    have hnamed : s.named.map (·.flattened) = s.named :=
      (List.map_congr_left fun p hp => by
        rw [KeywordParam.flattened, (h.named p hp).2.flattened_eq]
        rfl).trans (List.map_id _)
    have hoption {rest : Option TypeExpr} (hrest : ∀ t ∈ rest, t.IsFlat) :
        rest.map (·.flattened) = rest := by
      cases rest with
      | none => rfl
      | some t => exact congrArg some (hrest t rfl).flattened_eq
    rw [flattened, hpositional, hnamed, hoption h.rest, hoption h.namedRest, h.returns.flattened_eq]
  rw [parse_text_of_isClear hwritten fun p hp => (h.positional p hp).isClear p.isOptional,
    hflattened]

end Signature

end MockAudit
