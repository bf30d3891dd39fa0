import MockAudit.Proofs.PrintedSignatures

/-!
# Type expressions as parameters

A type expression in parentheses is a list of parameters with a single parameter in it: no comma
and no unmatched parenthesis can be part of what the grammar of type expressions derives. The
parameter is the type expression without the blanks around it, and a mark in front of it means that
it may be left out. Without a mark, what remains to be seen is that the parameter is not taken for a
keyword with its type. This happens to texts that begin with a keyword and a double colon, such as
the name `geo::Size`, and to no others (`TypeExpr.Spells.keywordParts?_eq_none`): the keyword is
divided from what is taken for its type at the first of the two colons, and the second one cannot
begin a type. A line break anywhere behind the keyword saves such a text, since a parameter with a
line break in it is no keyword parameter.

## Main definitions

* `BeginsLikeKeyword`: the texts that are taken for keywords with their types.

## Main results

* `TypeExpr.exists_ofChars_colon`: nothing that begins with a colon is a type expression.
* `Signature.parse_parenthesised`: type expressions in parentheses are single parameters.
* `Signature.parse_single_parameter_iff`: which type expressions can be written as a parameter.
-/

namespace MockAudit

/-- A text without line breaks that begins with a keyword and a double colon. -/
def BeginsLikeKeyword (cs : List Char) : Prop :=
  '\n' ∉ cs ∧ ∃ name rest, cs = String.toList name ++ ':' :: ':' :: rest ∧ IsKeyword name

namespace TypeExpr

/-! ### Characters of type expressions -/

mutual

theorem SpellsTerm.isTypeChar_or_isBlank {cs : List Char} {t : TypeExpr} :
    SpellsTerm cs t → ∀ c ∈ cs, IsTypeChar c ∨ Text.isBlank c = true
  | .self => fun c hc => .inl (.inl (.inl (List.all_eq_true.mp (by decide) c hc)))
  | .untyped => fun c hc => .inl (.inl (.inl (List.all_eq_true.mp (by decide) c hc)))
  | .nil => fun c hc => .inl (.inl (.inl (List.all_eq_true.mp (by decide) c hc)))
  | .name h _ => fun c hc => .inl (.inl (h.isPathChar c hc))
  | .optional h => List.forall_mem_cons.mpr ⟨.inl (.inr (by decide)), h.isTypeChar_or_isBlank⟩
  | .parentheses h => List.forall_mem_cons.mpr ⟨.inl (.inr (by decide)),
      List.forall_mem_append.mpr ⟨h.isTypeChar_or_isBlank,
        List.forall_mem_singleton.mpr (.inl (.inr (by decide)))⟩⟩

theorem SpellsAlternative.isTypeChar_or_isBlank {cs : List Char} {t : TypeExpr} :
    SpellsAlternative cs t → ∀ c ∈ cs, IsTypeChar c ∨ Text.isBlank c = true
  | .padded hbefore h hafter => List.forall_mem_append.mpr ⟨fun c hc => .inr (hbefore c hc),
      List.forall_mem_append.mpr ⟨h.isTypeChar_or_isBlank, fun c hc => .inr (hafter c hc)⟩⟩

/-- Besides blanks there are only names, marks, bars and parentheses in what is derived. -/
theorem SpellsAlternatives.isTypeChar_or_isBlank {cs : List Char} {ts : List TypeExpr} :
    SpellsAlternatives cs ts → ∀ c ∈ cs, IsTypeChar c ∨ Text.isBlank c = true
  | .last h => h.isTypeChar_or_isBlank
  | .bar h h' => List.forall_mem_append.mpr ⟨h.isTypeChar_or_isBlank,
      List.forall_mem_cons.mpr ⟨.inl (.inr (by decide)), h'.isTypeChar_or_isBlank⟩⟩

end

private theorem Spells.notMem {cs : List Char} {t : TypeExpr} (h : Spells cs t) {c : Char}
    (hc : c ∈ [',', '*']) : c ∉ cs := by
  obtain ⟨ts, hts, -⟩ := h
  have hfacts : isNameChar c = false ∧ c ∉ [':', '?', '(', ')', ' ', '|'] ∧
      Text.isBlank c = false := by
    simp only [List.mem_cons, List.not_mem_nil, or_false] at hc
    rcases hc with rfl | rfl <;> decide
  intro hmem
  rcases hts.isTypeChar_or_isBlank c hmem with htype | hblank
  · exact htype.ne hfacts.1 hfacts.2.1 rfl
  · exact absurd hblank (Bool.eq_false_iff.mp hfacts.2.2)

/-! ### Texts that begin with a colon -/

private theorem ofWord_colon (cs : List Char) :
    ofWord (':' :: cs) = .error (.invalidType (String.ofList (':' :: cs))) := by
  have hword (word : String) (hhead : word.toList.head? ≠ some ':') :
      String.ofList (':' :: cs) ≠ word := by
    rintro rfl
    exact hhead (by rw [String.toList_ofList]; rfl)
  have hname : isTypeName (':' :: cs) = false := rfl
  rw [ofWord, if_neg (hword _ (by decide)), if_neg (hword _ (by decide)),
    if_neg (hword _ (by decide)), hname]
  rfl

private theorem exists_ofChars_colon_undivided {cs : List Char}
    (h : (partsOf '|' (':' :: cs)).length = 1) :
    ∃ rest, ofChars (':' :: cs) = .error (.invalidType (String.ofList (':' :: rest))) := by
  have htrim : Text.trim (':' :: cs) = ':' :: Text.trimEnd cs :=
    Text.trim_cons_of_not_isBlank (by decide) cs
  have hlength := length_partsOf_trim isBlank_bar (':' :: cs)
  rw [h, htrim] at hlength
  have hothers : (splitOutside '|' 0 (':' :: Text.trimEnd cs)).2 = [] :=
    List.length_eq_zero_iff.mp (Nat.succ.inj hlength)
  refine ⟨Text.trimEnd cs, ?_⟩
  rw [ofChars_eq, htrim]
  rcases hsplit : splitOutside '|' 0 (':' :: Text.trimEnd cs) with ⟨part, others⟩
  obtain rfl : others = [] := by rw [← hothers, hsplit]
  have hstrip : stripParentheses (':' :: Text.trimEnd cs) = none := rfl
  simp only [hsplit, hstrip, ofWord_colon]
  rfl

/-- Nothing that begins with a colon is a type expression: the first of its alternatives is none. -/
theorem exists_ofChars_colon (cs : List Char) :
    ∃ rest, ofChars (':' :: cs) = .error (.invalidType (String.ofList (':' :: rest))) := by
  by_cases hdivided : 2 ≤ (partsOf '|' (':' :: cs)).length
  · obtain ⟨first, others, hparts⟩ : ∃ first others,
        partsOf '|' (':' :: cs) = (':' :: first) :: others := by
      rw [partsOf, splitOutside, if_neg (by decide), if_neg (by decide), if_neg (by decide)]
      exact ⟨_, _, rfl⟩
    have hfirst := partsOf_of_mem (hparts ▸ List.mem_cons_self ..)
    have hundivided : (partsOf '|' (':' :: first)).length = 1 := by
      rw [hfirst]
      rfl
    obtain ⟨rest, hrest⟩ := exists_ofChars_colon_undivided hundivided
    refine ⟨rest, ?_⟩
    rw [ofChars_divided hdivided, hparts, List.mapM_cons, hrest]
    rfl
  · have hparts := partsOf_eq_singleton (Nat.not_le.mp hdivided)
    exact exists_ofChars_colon_undivided (by rw [hparts]; rfl)

end TypeExpr

namespace Signature

open TypeExpr

/-! ### What is taken for a keyword -/

/-- A text that begins like a keyword is taken for one, and rejected for its type. -/
theorem exists_addParam_error (s : Signature) {cs : List Char} (h : BeginsLikeKeyword cs) :
    ∃ rest, addParam s cs = .error (.invalidType (String.ofList (':' :: rest))) := by
  obtain ⟨hline, name, rest, rfl, hname⟩ := h
  have hblank : Text.trimStart (':' :: rest) = ':' :: rest := rfl
  have hrest : '\n' ∉ ':' :: rest := fun hmem =>
    hline (List.mem_append_right _ (List.mem_cons_of_mem _ hmem))
  obtain ⟨hparts, -⟩ := keywordParts?_colon hname hblank (List.cons_ne_nil _ _) hrest
  have hstar (after : List Char) : name.toList ++ ':' :: ':' :: rest ≠ '*' :: after := by
    obtain ⟨c, cs, hcons, hc, -⟩ := hname
    rw [hcons]
    rintro ⟨⟩
    exact absurd hc (by decide)
  obtain ⟨after, hafter⟩ := exists_ofChars_colon rest
  exact ⟨after, by rw [addParam_of_keyword s hstar hparts, hafter]; rfl⟩

/-- A name that looks like a keyword, with what stands behind it, is no keyword parameter if there
is a line break in it. -/
theorem keywordParts?_newline {word : List Char} (hname : IsName word) (hlooks : LooksNamed word)
    {cs : List Char} (hcs : ¬ BeginsLikeKeyword (word ++ cs)) :
    keywordParts? (word ++ cs) = none := by
  obtain ⟨c, ds, hcons, hlower, hcolon⟩ := hlooks
  cases hname with
  | identifier h => exact absurd ⟨c, ds, hcons, hlower, hcolon⟩ h.not_looksNamed
  | @qualified first others h h' =>
    obtain ⟨d, es, rfl, -, hes⟩ := h
    obtain rfl : d = c := (List.cons.inj hcons).1
    have hkeyword : IsKeyword (String.ofList (d :: es)) :=
      ⟨d, es, String.toList_ofList, by simpa using hlower, hes⟩
    have htext : d :: es ++ ':' :: ':' :: others ++ cs =
        (String.ofList (d :: es)).toList ++ ':' :: ':' :: (others ++ cs) := by
      rw [String.toList_ofList]
      simp
    rw [htext] at hcs ⊢
    have hline : '\n' ∈ (String.ofList (d :: es)).toList ++ ':' :: ':' :: (others ++ cs) := by
      by_contra hline
      exact hcs ⟨hline, _, _, rfl, hkeyword⟩
    have hbehind : '\n' ∈ ':' :: (others ++ cs) := by
      rcases List.mem_append.mp hline with hmem | hmem
      · exact absurd (hkeyword.isNameChar _ hmem) (by decide)
      · exact (List.mem_cons.mp hmem).resolve_left (by decide)
    have hcontains : (Text.trimStart (':' :: (others ++ cs))).contains '\n' = true :=
      List.contains_iff_mem.mpr hbehind
    rw [(keywordParts?_identifier hkeyword _).1, hcontains, Bool.or_true, if_pos rfl]

/-- No other type expression is taken for a keyword, unless there is a mark in front of it. -/
theorem keywordParts?_eq_none {cs : List Char} {t : TypeExpr} (h : Spells cs t)
    (htight : Text.IsTight cs) (hmark : ∀ rest, cs ≠ '?' :: rest) (hcs : ¬ BeginsLikeKeyword cs) :
    keywordParts? cs = none := by
  obtain ⟨ts, hts, -⟩ := h
  obtain ⟨first, others, rfl⟩ := List.exists_cons_of_ne_nil hts.ne_nil
  obtain ⟨before, term, rest, rfl, hbefore, hterm, hrest⟩ := hts.exists_term
  obtain rfl : before = [] := by
    obtain ⟨c, cs, hcons, hc⟩ := htight.first
    refine List.eq_nil_iff_forall_not_mem.mpr fun d hd => ?_
    obtain ⟨e, before, rfl⟩ := List.exists_cons_of_ne_nil (List.ne_nil_of_mem hd)
    obtain rfl := (List.cons.inj hcons).1
    exact absurd (hbefore e (List.mem_cons_self ..)) (Bool.eq_false_iff.mp hc)
  rw [List.nil_append] at hmark hcs ⊢
  have hreserved {word : String} (hword : word ∈ reservedWords) :
      keywordParts? (word.toList ++ rest) = none :=
    (keywordParts?_word (.identifier (isIdentifier_of_mem_reservedWords hword))
      (isIdentifier_of_mem_reservedWords hword).not_looksNamed hrest).1
  cases hterm with
  | self => exact hreserved (by decide)
  | untyped => exact hreserved (by decide)
  | nil => exact hreserved (by decide)
  | name hname _ =>
    by_cases hlooks : LooksNamed term
    · exact keywordParts?_newline hname hlooks hcs
    · exact (keywordParts?_word hname hlooks hrest).1
  | optional h => exact absurd rfl (hmark _)
  | parentheses h => exact (isUnnamed_cons (by decide) _).2 hmark

/-- So it is read as the type of a parameter that has to be given. -/
theorem addParam_type (s : Signature) {cs : List Char} {t : TypeExpr} (h : Spells cs t)
    (htight : Text.IsTight cs) (hmark : ∀ rest, cs ≠ '?' :: rest) (hcs : ¬ BeginsLikeKeyword cs) :
    addParam s cs = .ok (s.addPositional t false) := by
  have hstar (rest : List Char) : cs ≠ '*' :: rest := by
    rintro rfl
    exact h.notMem (by decide) (List.mem_cons_self ..)
  rw [addParam_of_type s hstar hmark (keywordParts?_eq_none h htight hmark hcs), h.ofChars_eq_ok]
  rfl

/-! ### Single parameters -/

private theorem Spells.isTight_trim {cs : List Char} {t : TypeExpr} (h : TypeExpr.Spells cs t) :
    Text.IsTight (Text.trim cs) := by
  refine (Text.trim_eq_nil_or_isTight cs).resolve_left fun hnil => ?_
  have hread := h.ofChars_eq_ok
  rw [ofChars_eq, hnil] at hread
  cases hread

/-- A type expression in parentheses is a single parameter. -/
theorem parse_parenthesised {e : String} {t : TypeExpr} (h : Spells e.toList t) :
    parse ("(" ++ e ++ ") -> untyped") = addParam (returning .untyped) (Text.trim e.toList) := by
  have htext : ("(" ++ e ++ ") -> untyped").toList =
      '(' :: (e.toList ++ ')' :: " -> untyped".toList) := by simp
  have htight : Text.IsTight ('(' :: (e.toList ++ ')' :: " -> untyped".toList)) :=
    ⟨⟨'(', _, rfl, by decide⟩, ⟨'(' :: (e.toList ++ ") -> untype".toList), 'd', by simp, by decide⟩⟩
  have hclosing := splitAtClosing_closed h.isBalanced " -> untyped".toList
  have harrow : Text.trim " -> untyped".toList = "-> untyped".toList := by decide
  have hreturns : TypeExpr.ofChars " untyped".toList = .ok .untyped := by
    rw [← ofChars_trim]
    exact SpellsTerm.untyped.ofChars_eq_ok
  have hsplit : splitOutside ',' 0 e.toList = (e.toList, []) :=
    (h.isBalanced.isUndivided (h.notMem (by decide))).splitOutside
  have hparams : writtenParams e.toList = [Text.trim e.toList] := by
    obtain ⟨c, cs, hcons, -⟩ := (Spells.isTight_trim h).first
    rw [writtenParams, hcons, hsplit]
    simp only [List.isEmpty_cons, Bool.false_eq_true, if_false, List.map_cons, List.map_nil, hcons]
  rw [parse, htext, htight.trim_eq]
  simp only [hclosing, harrow]
  change (TypeExpr.ofChars " untyped".toList >>= fun returns =>
    (writtenParams e.toList).foldlM addParam (returning returns)) = _
  rw [hreturns, hparams]
  change (addParam (returning .untyped) (Text.trim e.toList) >>= fun s => pure s) = _
  rw [bind_pure]

/-- **Type expressions as parameters.** A type expression that does not begin with a mark, written
as the only parameter of a method, is read as the type of this parameter, unless it begins like a
keyword. If it does, what stands behind the first colon is rejected as a type. -/
theorem parse_single_parameter_iff {e : String} {t : TypeExpr} (h : TypeExpr.parse e = .ok t)
    (hmark : (Text.trim e.toList).head? ≠ some '?') :
    (parse ("(" ++ e ++ ") -> untyped") =
        .ok { positional := [⟨t, false⟩], rest := none, named := [], namedRest := none,
              returns := .untyped } ↔ ¬ BeginsLikeKeyword (Text.trim e.toList)) ∧
      (BeginsLikeKeyword (Text.trim e.toList) → ∃ rest, parse ("(" ++ e ++ ") -> untyped") =
        .error (.invalidType (String.ofList (':' :: rest)))) := by
  have hspells : TypeExpr.Spells e.toList t := spells_of_ofChars h
  have htrimmed : TypeExpr.Spells (Text.trim e.toList) t :=
    spells_of_ofChars ((ofChars_trim e.toList).trans h)
  have hunmarked (rest : List Char) : Text.trim e.toList ≠ '?' :: rest := fun heq =>
    hmark (by rw [heq]; rfl)
  rw [parse_parenthesised hspells]
  refine ⟨⟨fun hread hkeyword => ?_, fun hkeyword => ?_⟩, exists_addParam_error _⟩
  · obtain ⟨rest, herror⟩ := exists_addParam_error (returning .untyped) hkeyword
    cases hread.symm.trans herror
  · exact addParam_type _ htrimmed (Spells.isTight_trim hspells) hunmarked hkeyword

/-- A union that begins with a type in upper case, with blanks around it and a marked name further
on, is the type of a single parameter. -/
theorem parse_shape_parameter :
    TypeExpr.parse " Shape | (?geo::Size) " =
        .ok (.union [.named "Shape", .optional (.named "geo::Size")]) ∧
      parse ("(" ++ " Shape | (?geo::Size) " ++ ") -> untyped") =
        .ok { positional := [⟨.union [.named "Shape", .optional (.named "geo::Size")], false⟩],
              rest := none, named := [], namedRest := none, returns := .untyped } := by
  have hread : TypeExpr.parse " Shape | (?geo::Size) " =
      .ok (.union [.named "Shape", .optional (.named "geo::Size")]) := by with_unfolding_all rfl
  have htrim : Text.trim " Shape | (?geo::Size) ".toList = "Shape | (?geo::Size)".toList := by
    decide
  refine ⟨hread, (parse_single_parameter_iff hread (by rw [htrim]; decide)).1.mpr ?_⟩
  rw [htrim]
  rintro ⟨-, name, rest, htext, c, cs, hcons, hc, -⟩
  rw [hcons] at htext
  obtain rfl : 'S' = c := (List.cons.inj htext).1
  exact absurd hc (by decide)

/-- **Not every type expression can be written as a parameter.** A name of two identifiers the first
of which is in lower case is a type expression, but as a parameter it is rejected. -/
theorem qualified_name_not_parameter : ¬ ∀ e t, TypeExpr.parse e = .ok t →
    (Text.trim e.toList).head? ≠ some '?' → parse ("(" ++ e ++ ") -> untyped") =
      .ok { positional := [⟨t, false⟩], rest := none, named := [], namedRest := none,
            returns := .untyped } := by
  intro h
  have hparameter := h "geo::Size" (.named "geo::Size") (by with_unfolding_all rfl) (by decide)
  have hrejected : parse ("(" ++ "geo::Size" ++ ") -> untyped") =
      .error (.invalidType ":Size") := by with_unfolding_all rfl
  cases hparameter.symm.trans hrejected

end Signature

end MockAudit
