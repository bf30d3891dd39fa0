import MockAudit.Json.Number
import MockAudit.Json.Reader
import MockAudit.Json.Writer
import MockAudit.Proofs.DeclarationFiles
import Mathlib.Data.List.DropRight

/-!
# JSON documents read back

A document that was written is read as the same document, if its numbers are proper ones. The
reader follows the text from the front: every part of a document is read off any text that begins
with it, and what follows a part is what may follow a finished number. The bound on the steps of the
reader is no obstacle, since no part takes more steps than it has characters.

## Main definitions

* `Json.NumberText.IsProper`, `Json.NumberText.written`: the texts of numbers.
* `Json.IsProper`: documents whose numbers are proper.

## Main results

* `Json.NumberText.ofText_written`: the text of a number is taken apart as it was put together.
* `Json.parse?_prettyText`: documents are read as they were written.
-/

namespace MockAudit.Json

/-! ### Numbers -/

/-- What may follow a number that is finished. -/
def EndsNumber (rest : List Char) : Prop :=
  ∀ c, rest.head? = some c → c.isDigit = false ∧ c ≠ '.' ∧ c ≠ 'e' ∧ c ≠ 'E'

namespace NumberText

/-- The text of a fraction. -/
def fractionText (n : NumberText) : List Char :=
  if n.fraction = [] then [] else '.' :: n.fraction

/-- The text of an exponent, which always has a sign. -/
def exponentText (n : NumberText) : List Char :=
  match n.exponent with
  | none => []
  | some (down, digits) => 'e' :: (if down then '-' else '+') :: digits

/-- The text of a number. -/
def written (n : NumberText) : List Char :=
  (if n.negative then ['-'] else []) ++ (n.whole ++ (n.fractionText ++ n.exponentText))

/-- The parts of a number as the grammar wants them: digits, and no leading zeros. -/
structure IsProper (n : NumberText) : Prop where
  whole : ∀ c ∈ n.whole, c.isDigit = true
  someWhole : n.whole ≠ []
  leading : n.whole.head? = some '0' → n.whole = ['0']
  fraction : ∀ c ∈ n.fraction, c.isDigit = true
  exponent : ∀ down digits, n.exponent = some (down, digits) →
    digits ≠ [] ∧ ∀ c ∈ digits, c.isDigit = true

end NumberText

private theorem takeDigits_append {digits rest : List Char}
    (hdigits : ∀ c ∈ digits, c.isDigit = true)
    (hsome : digits ≠ []) (hrest : ∀ c, rest.head? = some c → c.isDigit = false) :
    takeDigits (digits ++ rest) = some (digits, rest) := by
  obtain ⟨htake, hdrop⟩ := Toml.takeWhile_append_stop hdigits hrest
  simp [takeDigits, htake, hdrop, hsome]

namespace NumberText

variable {n : NumberText} {rest : List Char}

/-- What follows the fraction of a number is neither a digit nor a point. -/
theorem head?_exponentText_append (n : NumberText) (hrest : EndsNumber rest) {c : Char}
    (hc : (n.exponentText ++ rest).head? = some c) : c.isDigit = false ∧ c ≠ '.' := by
  rw [exponentText] at hc
  split at hc
  · exact ⟨(hrest c hc).1, (hrest c hc).2.1⟩
  · obtain rfl := Option.some.inj hc
    decide

/-- What follows the whole part of a number is no digit. -/
theorem head?_fractionText_append (n : NumberText) (hrest : EndsNumber rest) {c : Char}
    (hc : (n.fractionText ++ (n.exponentText ++ rest)).head? = some c) : c.isDigit = false := by
  rw [fractionText] at hc
  split at hc
  · exact (n.head?_exponentText_append hrest hc).1
  · obtain rfl := Option.some.inj hc
    decide

private theorem takeExponent_exponentText (h : n.IsProper) (hrest : EndsNumber rest) :
    takeExponent (n.exponentText ++ rest) = some (n.exponentText, rest) := by
  rw [exponentText]
  split
  · cases rest with
    | nil => rfl
    | cons c rest =>
      obtain ⟨-, -, he, hE⟩ := hrest c rfl
      simp [takeExponent, he, hE]
  · rename_i down digits hexponent
    obtain ⟨hsome, hdigits⟩ := h.exponent down digits hexponent
    have htake := takeDigits_append hdigits hsome fun c hc => (hrest c hc).1
    cases down <;> simp [takeExponent, htake]

private theorem takeFraction_fractionText (h : n.IsProper) (hrest : EndsNumber rest) :
    takeFraction (n.fractionText ++ (n.exponentText ++ rest)) =
      some (n.fractionText, n.exponentText ++ rest) := by
  have hstop (c : Char) (hc : (n.exponentText ++ rest).head? = some c) :=
    n.head?_exponentText_append hrest hc
  generalize n.exponentText ++ rest = rest' at hstop
  rw [fractionText]
  split
  · cases rest' with
    | nil => rfl
    | cons c rest' =>
      have hpoint := (hstop c rfl).2
      simp [takeFraction, hpoint]
  · rename_i hsome
    have htake := takeDigits_append h.fraction hsome fun c hc => (hstop c hc).1
    simp [takeFraction, htake]

private theorem takeWhole_whole (h : n.IsProper)
    (hrest : ∀ c, rest.head? = some c → c.isDigit = false) :
    takeWhole (n.whole ++ rest) = some (n.whole, rest) := by
  by_cases hzero : n.whole = ['0']
  · rw [hzero]
    rfl
  · rw [takeWhole.eq_def]
    split
    · rename_i heq
      have hhead : n.whole.head? = some '0' := by
        rw [← List.head?_append_of_ne_nil _ h.someWhole, heq]
        rfl
      exact absurd (h.leading hhead) hzero
    · exact takeDigits_append h.whole h.someWhole hrest

/-- A digit is no sign. -/
theorem whole_ne_sign (h : n.IsProper) (rest cs : List Char) : n.whole ++ rest ≠ '-' :: cs := by
  obtain ⟨c, digits, heq⟩ := List.exists_cons_of_ne_nil h.someWhole
  rw [heq, List.cons_append, Ne, List.cons.injEq, not_and]
  rintro rfl
  exact absurd (h.whole '-' (by simp [heq])) (by decide)

/-- **The text of a number** is read to its end. -/
theorem takeNumber_written (h : n.IsProper) (hrest : EndsNumber rest) :
    takeNumber (n.written ++ rest) = some (n.written, rest) := by
  have hwhole := takeWhole_whole h fun c hc => n.head?_fractionText_append hrest hc
  have hfraction := takeFraction_fractionText h hrest
  have hexponent := takeExponent_exponentText h hrest
  have hsign := whole_ne_sign h (n.fractionText ++ (n.exponentText ++ rest))
  cases hnegative : n.negative with
  | true =>
    have htext : n.written ++ rest =
        '-' :: (n.whole ++ (n.fractionText ++ (n.exponentText ++ rest))) := by
      simp [written, hnegative]
    rw [htext, takeNumber]
    simp [written, hnegative, hwhole, hfraction, hexponent]
  | false =>
    have htext : n.written ++ rest =
        n.whole ++ (n.fractionText ++ (n.exponentText ++ rest)) := by
      simp [written, hnegative]
    rw [htext, takeNumber]
    · simp [written, hnegative, hwhole, hfraction, hexponent]
    · exact hsign

/-- What is left of a number after its sign is taken apart. -/
def ofBody (negative : Bool) (body : List Char) : NumberText :=
  let (fraction, rest) := match body.dropWhile Char.isDigit with
    | '.' :: tail => (tail.takeWhile Char.isDigit, tail.dropWhile Char.isDigit)
    | other => ([], other)
  { negative
    whole := body.takeWhile Char.isDigit
    fraction
    exponent := match rest with
      | [] => none
      | _ :: tail => some (Binary64.splitSign tail) }

private theorem ofText_of_ne {text : List Char} (h : ∀ cs, text ≠ '-' :: cs) :
    ofText text = ofBody false text := by
  rw [ofText]
  · rfl
  · exact h

/-- **The text of a number** is taken apart as it was put together. -/
theorem ofText_written (h : n.IsProper) : ofText n.written = n := by
  have hnil : EndsNumber [] := nofun
  have hrest (c : Char) (hc : (n.fractionText ++ n.exponentText).head? = some c) :
      c.isDigit = false := n.head?_fractionText_append hnil (by simpa using hc)
  have hrest' (c : Char) (hc : n.exponentText.head? = some c) : c.isDigit = false :=
    (n.head?_exponentText_append hnil (by simpa using hc)).1
  have hwhole := Toml.takeWhile_append_stop h.whole hrest
  have hfraction := Toml.takeWhile_append_stop h.fraction hrest'
  have hbody : ofText n.written =
      ofBody n.negative (n.whole ++ (n.fractionText ++ n.exponentText)) := by
    rw [written]
    cases n.negative with
    | true => rfl
    | false => exact ofText_of_ne (whole_ne_sign h _)
  have hexponent : (match n.exponentText with
      | [] => none
      | _ :: tail => some (Binary64.splitSign tail)) = n.exponent := by
    rw [exponentText]
    rcases n.exponent with _ | ⟨_ | _, digits⟩ <;> rfl
  have hfraction : (match n.fractionText ++ n.exponentText with
      | '.' :: tail => (tail.takeWhile Char.isDigit, tail.dropWhile Char.isDigit)
      | other => ([], other)) = (n.fraction, n.exponentText) := by
    rw [fractionText]
    split_ifs with hnone
    · rw [hnone]
      split
      · rename_i heq
        have hhead := n.head?_exponentText_append hnil (by simpa using congrArg List.head? heq)
        exact absurd rfl hhead.2
      · rfl
    · exact Prod.ext hfraction.1 hfraction.2
  rw [hbody, ofBody, hwhole.1, hwhole.2]
  simp only [hfraction, hexponent]

end NumberText

/-! ### Strings -/

private theorem hexValue?_hexDigit : ∀ n < 16, hexValue? (hexDigit n) = some n := by decide

/-- The code of a control character is read back. -/
theorem readChar_code {c : Char} (h : c.toNat < 0x20) (rest : List Char) :
    readChar ('\\' :: 'u' :: '0' :: '0' :: hexDigit (c.toNat / 16) :: hexDigit (c.toNat % 16)
      :: rest) = some (some c, rest) := by
  have hunit : hexUnit? '0' '0' (hexDigit (c.toNat / 16)) (hexDigit (c.toNat % 16)) =
      some c.toNat := by
    have hzero : hexValue? '0' = some 0 := by decide
    have hvalue : c.toNat / 16 * 16 + c.toNat % 16 = c.toNat := Nat.div_add_mod' _ _
    simp only [hexUnit?, hzero, hexValue?_hexDigit _ (show c.toNat / 16 < 16 by omega),
      hexValue?_hexDigit _ (show c.toNat % 16 < 16 by omega), Option.bind_eq_bind,
      Option.bind_some, Option.pure_def, Nat.zero_mul, Nat.zero_add, hvalue]
  rw [readChar, hunit]
  simp only [Option.bind_eq_bind, Option.bind_some]
  rw [if_neg (by omega), if_neg (by omega), Char.ofNat_toNat]

/-- **A character of a string** is read as it was written. -/
theorem readChar_escapeChar (c : Char) (rest : List Char) :
    readChar (escapeChar c ++ rest) = some (some c, rest) := by
  rw [escapeChar]
  split_ifs with hquote hback hb hf hn hr ht hcode
  · rw [hquote]
    rfl
  · rw [hback]
    rfl
  · rw [hb]
    rfl
  · rw [hf]
    rfl
  · rw [hn]
    rfl
  · rw [hr]
    rfl
  · rw [ht]
    rfl
  · exact readChar_code hcode rest
  · simp [readChar, hback, hcode]

private theorem escapeChar_ne_nil (c : Char) : escapeChar c ≠ [] := by
  rw [escapeChar]
  split_ifs <;> exact List.cons_ne_nil _ _

/-- A string is read up to the closing quote. -/
theorem readString_escaped (cs rest : List Char) {fuel : Nat}
    (hfuel : (cs.flatMap escapeChar).length < fuel) :
    readString fuel (cs.flatMap escapeChar ++ '"' :: rest) = some (cs, rest) := by
  induction cs generalizing fuel with
  | nil =>
    obtain ⟨fuel, rfl⟩ := Nat.exists_eq_succ_of_ne_zero (Nat.ne_of_gt hfuel)
    rfl
  | cons c cs ih =>
    obtain ⟨fuel, rfl⟩ := Nat.exists_eq_succ_of_ne_zero (Nat.ne_of_gt (Nat.zero_lt_of_lt hfuel))
    have hsome := List.length_pos_of_ne_nil (escapeChar_ne_nil c)
    rw [List.flatMap_cons, List.length_append] at hfuel
    rw [List.flatMap_cons, List.append_assoc, readString, readChar_escapeChar]
    simp only [Option.bind_eq_bind, Option.bind_some]
    rw [ih (by omega)]
    rfl

/-! ### Documents -/

/-- The numbers in a document are proper ones. -/
inductive IsProper : Json → Prop
  | null : IsProper .null
  | bool (b : Bool) : IsProper (.bool b)
  | number {n : NumberText} (h : n.IsProper) : IsProper (.number n.written)
  | string (content : String) : IsProper (.string content)
  | array {items : List Json} (h : ∀ j ∈ items, IsProper j) : IsProper (.array items)
  | object {members : List (String × Json)} (h : ∀ m ∈ members, IsProper m.2) :
    IsProper (.object members)

private theorem skip_cons {c : Char} (h : isSpace c = false) (cs : List Char) :
    skip (c :: cs) = c :: cs :=
  List.dropWhile_cons_of_neg (by simp [h])

private theorem skip_newline (depth : Nat) (cs : List Char) :
    skip (newline depth ++ cs) = skip cs := by
  rw [skip, newline, List.dropWhile_append_of_pos]
  · rfl
  · simp [isSpace]

private theorem skip_skip (cs : List Char) : skip (skip cs) = skip cs :=
  List.dropWhile_idempotent ..

private theorem readValue_skip (fuel : Nat) (cs : List Char) :
    readValue fuel (skip cs) = readValue fuel cs := by
  cases fuel with
  | zero => rfl
  | succ fuel => rw [readValue, readValue, skip_skip]

private theorem readItems_skip (fuel : Nat) (cs : List Char) :
    readItems fuel (skip cs) = readItems fuel cs := by
  cases fuel with
  | zero => rfl
  | succ fuel => rw [readItems, readItems, readValue_skip]

private theorem readMembers_skip (fuel : Nat) (cs : List Char) :
    readMembers fuel (skip cs) = readMembers fuel cs := by
  cases fuel with
  | zero => rfl
  | succ fuel => rw [readMembers, readMembers, skip_skip]

private theorem isSpace_of_isDigit {c : Char} (h : c.isDigit = true) : isSpace c = false := by
  rw [isSpace, Bool.or_eq_false_iff, Bool.or_eq_false_iff, Bool.or_eq_false_iff]
  simp only [beq_eq_false_iff_ne]
  refine ⟨⟨⟨?_, ?_⟩, ?_⟩, ?_⟩ <;>
  · rintro rfl
    exact absurd h (by decide)

/-- A proper document begins with a mark that neither is a blank nor closes an array. -/
theorem IsProper.exists_pretty_eq_cons {j : Json} (h : IsProper j) (depth : Nat) :
    ∃ c cs, pretty depth j = c :: cs ∧ isSpace c = false ∧ c ≠ ']' := by
  cases h with
  | null => exact ⟨_, _, rfl, rfl, by decide⟩
  | bool b => cases b <;> exact ⟨_, _, rfl, rfl, by decide⟩
  | @number n h =>
    have htext : pretty depth (.number n.written) = n.written := rfl
    rw [htext, NumberText.written]
    cases n.negative with
    | true => exact ⟨_, _, rfl, rfl, by decide⟩
    | false =>
      obtain ⟨c, digits, heq⟩ := List.exists_cons_of_ne_nil h.someWhole
      have hc : c.isDigit = true := h.whole c (by simp [heq])
      rw [heq]
      refine ⟨_, _, rfl, isSpace_of_isDigit hc, ?_⟩
      rintro rfl
      exact absurd hc (by decide)
  | string content => exact ⟨_, _, rfl, rfl, by decide⟩
  | @array items =>
    cases items <;> exact ⟨_, _, rfl, rfl, by decide⟩
  | @object members =>
    cases members <;> exact ⟨_, _, rfl, rfl, by decide⟩

/-- The document is read off every text that begins with it. -/
def Reads (depth : Nat) (j : Json) : Prop :=
  ∀ fuel rest, EndsNumber rest → (pretty depth j).length ≤ fuel →
    readValue fuel (pretty depth j ++ rest) = some (j, rest)

private theorem endsNumber_comma (rest : List Char) : EndsNumber (',' :: rest) := by
  rintro c hc
  obtain rfl := Option.some.inj hc
  decide

private theorem endsNumber_newline (depth : Nat) (rest : List Char) :
    EndsNumber (newline depth ++ rest) := by
  rintro c hc
  obtain rfl := Option.some.inj hc
  decide

private theorem prettyItems_cons (depth : Nat) (j : Json) {items : List Json} (hsome : items ≠ []) :
    prettyItems depth (j :: items) =
      newline depth ++ (pretty depth j ++ ',' :: prettyItems depth items) := by
  rw [prettyItems, List.append_assoc]
  exact hsome

/-- The items of an array are read up to the closing bracket. -/
theorem readItems_prettyItems {depth : Nat} {items : List Json}
    (hreads : ∀ j ∈ items, Reads depth j) (hsome : items ≠ []) (close : Nat) (rest : List Char)
    {fuel : Nat} (hfuel : (prettyItems depth items).length ≤ fuel) :
    readItems fuel (prettyItems depth items ++ (newline close ++ ']' :: rest)) =
      some (items, rest) := by
  induction items generalizing fuel with
  | nil => exact absurd rfl hsome
  | cons j items ih =>
    obtain ⟨hj, hitems⟩ := List.forall_mem_cons.mp hreads
    by_cases hlast : items = []
    · subst hlast
      rw [prettyItems, List.length_append, newline, List.length_cons] at hfuel
      obtain ⟨fuel, rfl⟩ : ∃ k, fuel = k + 1 := ⟨fuel - 1, by omega⟩
      rw [prettyItems, List.append_assoc, readItems, ← readValue_skip, skip_newline,
        readValue_skip, hj fuel _ (endsNumber_newline close _) (by omega)]
      simp only [Option.bind_eq_bind, Option.bind_some, skip_newline]
      rfl
    · rw [prettyItems_cons _ _ hlast, List.length_append, List.length_append, newline,
        List.length_cons, List.length_cons] at hfuel
      obtain ⟨fuel, rfl⟩ : ∃ k, fuel = k + 1 := ⟨fuel - 1, by omega⟩
      rw [prettyItems_cons _ _ hlast, List.append_assoc, List.append_assoc, readItems,
        ← readValue_skip, skip_newline, readValue_skip, List.cons_append,
        hj fuel _ (endsNumber_comma _) (by omega)]
      simp only [Option.bind_eq_bind, Option.bind_some,
        skip_cons (show isSpace ',' = false from rfl)]
      rw [ih hitems hlast (by omega)]
      rfl

private theorem prettyMembers_cons (depth : Nat) (name : String) (j : Json)
    {members : List (String × Json)} (hsome : members ≠ []) :
    prettyMembers depth ((name, j) :: members) =
      newline depth ++ (quoted name ++
        (':' :: ' ' :: (pretty depth j ++ ',' :: prettyMembers depth members))) := by
  rw [prettyMembers]
  · simp
  · exact hsome

private theorem quoted_append (name : String) (rest : List Char) :
    quoted name ++ rest = '"' :: (name.toList.flatMap escapeChar ++ '"' :: rest) := by
  simp [quoted]

private theorem readString_name (name : String) {fuel : Nat} (hfuel : (quoted name).length ≤ fuel)
    (rest : List Char) : readString fuel (name.toList.flatMap escapeChar ++ '"' :: rest) =
      some (name.toList, rest) := by
  refine readString_escaped _ _ ?_
  simp only [quoted, List.length_append, List.length_cons] at hfuel
  omega

/-- The blank before the value of a member is skipped. -/
theorem Reads.readValue_blank {depth : Nat} {j : Json} (hj : Reads depth j) {fuel : Nat}
    (hfuel : (pretty depth j).length ≤ fuel) {rest : List Char} (hrest : EndsNumber rest) :
    readValue fuel (' ' :: (pretty depth j ++ rest)) = some (j, rest) := by
  have hskip : skip (' ' :: (pretty depth j ++ rest)) = skip (pretty depth j ++ rest) := rfl
  rw [← readValue_skip, hskip, readValue_skip, hj fuel rest hrest hfuel]

section

variable {depth : Nat} {j : Json} (hj : Reads depth j) (name : String) {fuel : Nat}
  (hfuel : (quoted name).length + (pretty depth j).length ≤ fuel) {rest rest' : List Char}
  (hrest : EndsNumber rest)
include hj hfuel hrest

/-- A member is read if a comma follows, and so are those behind the comma. -/
theorem readMembers_of_comma (hnext : skip rest = ',' :: rest') :
    readMembers (fuel + 1)
      (newline depth ++ (quoted name ++ (':' :: ' ' :: (pretty depth j ++ rest)))) =
      (readMembers fuel rest').map fun r => ((name, j) :: r.1, r.2) := by
  rw [← readMembers_skip, skip_newline, readMembers_skip, readMembers, quoted_append,
    skip_cons (by decide)]
  simp only [readString_name name (show (quoted name).length ≤ fuel by omega),
    hj.readValue_blank (show (pretty depth j).length ≤ fuel by omega) hrest,
    skip_cons (show isSpace ':' = false from rfl), hnext, Option.bind_eq_bind, Option.bind_some,
    String.ofList_toList]
  cases readMembers fuel rest' <;> rfl

/-- A member is the last one if the object is closed behind it. -/
theorem readMembers_of_close (hnext : skip rest = '\x7d' :: rest') :
    readMembers (fuel + 1)
      (newline depth ++ (quoted name ++ (':' :: ' ' :: (pretty depth j ++ rest)))) =
      some ([(name, j)], rest') := by
  rw [← readMembers_skip, skip_newline, readMembers_skip, readMembers, quoted_append,
    skip_cons (by decide)]
  simp only [readString_name name (show (quoted name).length ≤ fuel by omega),
    hj.readValue_blank (show (pretty depth j).length ≤ fuel by omega) hrest,
    skip_cons (show isSpace ':' = false from rfl), hnext, Option.bind_eq_bind, Option.bind_some,
    String.ofList_toList]

end

/-- The members of an object are read up to the closing brace. -/
theorem readMembers_prettyMembers {depth : Nat} {members : List (String × Json)}
    (hreads : ∀ m ∈ members, Reads depth m.2) (hsome : members ≠ []) (close : Nat)
    (rest : List Char) {fuel : Nat} (hfuel : (prettyMembers depth members).length ≤ fuel) :
    readMembers fuel (prettyMembers depth members ++ (newline close ++ '\x7d' :: rest)) =
      some (members, rest) := by
  induction members generalizing fuel with
  | nil => exact absurd rfl hsome
  | cons m members ih =>
    obtain ⟨name, j⟩ := m
    obtain ⟨hj, hmembers⟩ := List.forall_mem_cons.mp hreads
    replace hj : Reads depth j := hj
    by_cases hlast : members = []
    · subst hlast
      have htext : prettyMembers depth [(name, j)] =
          newline depth ++ (quoted name ++ (':' :: ' ' :: pretty depth j)) := by
        simp [prettyMembers]
      rw [htext] at hfuel ⊢
      simp only [List.length_append, List.length_cons, newline] at hfuel
      obtain ⟨fuel, rfl⟩ : ∃ k, fuel = k + 1 := ⟨fuel - 1, by omega⟩
      simp only [List.append_assoc, List.cons_append]
      exact readMembers_of_close hj name (by omega) (endsNumber_newline close _) (skip_newline ..)
    · rw [prettyMembers_cons _ _ _ hlast] at hfuel ⊢
      simp only [List.length_append, List.length_cons, newline] at hfuel
      obtain ⟨fuel, rfl⟩ : ∃ k, fuel = k + 1 := ⟨fuel - 1, by omega⟩
      simp only [List.append_assoc, List.cons_append]
      rw [readMembers_of_comma hj name (by omega) (endsNumber_comma _) (skip_cons (by decide) _),
        ih hmembers hlast (by omega)]
      rfl

/-- An array that is not empty does not close at once. -/
theorem exists_skip_prettyItems (depth : Nat) {j : Json} (h : IsProper j) (items : List Json)
    (rest : List Char) :
    ∃ c cs, skip (prettyItems depth (j :: items) ++ rest) = c :: cs ∧ c ≠ ']' := by
  obtain ⟨c, cs, hpretty, hspace, hclose⟩ := h.exists_pretty_eq_cons depth
  by_cases hlast : items = []
  · subst hlast
    refine ⟨c, cs ++ rest, ?_, hclose⟩
    rw [prettyItems, List.append_assoc, skip_newline, hpretty, List.cons_append, skip_cons hspace]
  · refine ⟨c, cs ++ ',' :: prettyItems depth items ++ rest, ?_, hclose⟩
    rw [prettyItems_cons _ _ hlast, List.append_assoc, skip_newline, hpretty, List.cons_append,
      List.cons_append, skip_cons hspace]

private theorem reads_array {depth : Nat} {items : List Json} (hproper : ∀ j ∈ items, IsProper j)
    (hreads : ∀ j ∈ items, Reads (depth + 1) j) : Reads depth (.array items) := by
  intro fuel rest _ hfuel
  cases items with
  | nil =>
    obtain ⟨fuel, rfl⟩ : ∃ k, fuel = k + 1 := ⟨fuel - 1, by simp [pretty] at hfuel; omega⟩
    rfl
  | cons j items =>
    have htext : pretty depth (.array (j :: items)) =
        '[' :: (prettyItems (depth + 1) (j :: items) ++ (newline depth ++ [']'])) := by
      rw [pretty]
      · simp
      · exact nofun
    rw [htext] at hfuel ⊢
    simp only [List.length_append, List.length_cons] at hfuel
    obtain ⟨fuel, rfl⟩ : ∃ k, fuel = k + 1 := ⟨fuel - 1, by omega⟩
    obtain ⟨c, cs, hskip, hclose⟩ := exists_skip_prettyItems (depth + 1)
      (hproper j (List.mem_cons_self ..)) items (newline depth ++ ']' :: rest)
    have hitems := readItems_prettyItems hreads (List.cons_ne_nil _ _) depth rest
      (show (prettyItems (depth + 1) (j :: items)).length ≤ fuel by omega)
    rw [← readItems_skip, hskip] at hitems
    simp only [List.cons_append, List.append_assoc, List.nil_append]
    rw [readValue, skip_cons (by decide)]
    simp only [hskip]
    split
    · rename_i heq
      exact absurd (List.cons.inj heq).1 hclose
    · rw [hitems]
      rfl

/-- The members of an object begin with a quote. -/
theorem exists_skip_prettyMembers (depth : Nat) (m : String × Json) (members : List (String × Json))
    (rest : List Char) :
    ∃ cs, skip (prettyMembers depth (m :: members) ++ rest) = '"' :: cs := by
  obtain ⟨name, j⟩ := m
  by_cases hlast : members = []
  · subst hlast
    rw [prettyMembers, List.append_assoc, List.append_assoc, skip_newline]
    exact ⟨_, rfl⟩
  · rw [prettyMembers_cons _ _ _ hlast, List.append_assoc, skip_newline]
    exact ⟨_, rfl⟩

private theorem reads_object {depth : Nat} {members : List (String × Json)}
    (hreads : ∀ m ∈ members, Reads (depth + 1) m.2) : Reads depth (.object members) := by
  intro fuel rest _ hfuel
  cases members with
  | nil =>
    obtain ⟨fuel, rfl⟩ : ∃ k, fuel = k + 1 := ⟨fuel - 1, by simp [pretty] at hfuel; omega⟩
    rfl
  | cons m members =>
    have htext : pretty depth (.object (m :: members)) =
        '\x7b' :: (prettyMembers (depth + 1) (m :: members) ++ (newline depth ++ ['\x7d'])) := by
      rw [pretty]
      · simp
      · exact nofun
    rw [htext] at hfuel ⊢
    simp only [List.length_append, List.length_cons] at hfuel
    obtain ⟨fuel, rfl⟩ : ∃ k, fuel = k + 1 := ⟨fuel - 1, by omega⟩
    obtain ⟨cs, hskip⟩ := exists_skip_prettyMembers (depth + 1) m members
      (newline depth ++ '\x7d' :: rest)
    have hmembers := readMembers_prettyMembers hreads (List.cons_ne_nil _ _) depth rest
      (show (prettyMembers (depth + 1) (m :: members)).length ≤ fuel by omega)
    rw [← readMembers_skip, hskip] at hmembers
    simp only [List.cons_append, List.append_assoc, List.nil_append]
    rw [readValue, skip_cons (by decide)]
    simp only [hskip]
    split
    · rename_i heq
      exact absurd (List.cons.inj heq).1 (by decide)
    · rw [hmembers]
      rfl

/-- The text of a number begins with a digit or a sign. -/
theorem NumberText.exists_written_eq_cons {n : NumberText} (h : n.IsProper) :
    ∃ c cs, n.written = c :: cs ∧ (c.isDigit = true ∨ c = '-') := by
  rw [written]
  cases n.negative with
  | true => exact ⟨_, _, rfl, Or.inr rfl⟩
  | false =>
    obtain ⟨c, digits, heq⟩ := List.exists_cons_of_ne_nil h.someWhole
    rw [heq]
    exact ⟨c, _, rfl, Or.inl (h.whole c (by simp [heq]))⟩

/-- The first character of a number tells it from all other documents. -/
theorem readValue_of_number {c : Char} (hc : c.isDigit = true ∨ c = '-') (fuel : Nat)
    (cs : List Char) : readValue (fuel + 1) (c :: cs) =
      (takeNumber (c :: cs)).map fun (text, rest) => (.number text, rest) := by
  have hspace : isSpace c = false := by
    rcases hc with hc | rfl
    · exact isSpace_of_isDigit hc
    · rfl
  have hne (d : Char) (hd : d.isDigit = false ∧ d ≠ '-') : c ≠ d := by
    rintro rfl
    rcases hc with hc | hc
    · exact absurd hc (by simp [hd.1])
    · exact hd.2 hc
  rw [readValue, skip_cons hspace]
  split
  case h_7 => rfl
  all_goals
    rename_i heq
    exact absurd (List.cons.inj heq).1 (hne _ (by decide))

private theorem reads_number {n : NumberText} (h : n.IsProper) (depth : Nat) :
    Reads depth (.number n.written) := by
  intro fuel rest hrest hfuel
  have htext : pretty depth (.number n.written) = n.written := rfl
  obtain ⟨c, cs, hwritten, hc⟩ := NumberText.exists_written_eq_cons h
  rw [htext, hwritten, List.length_cons] at hfuel
  obtain ⟨fuel, rfl⟩ : ∃ k, fuel = k + 1 := ⟨fuel - 1, by omega⟩
  have htake := NumberText.takeNumber_written h hrest
  rw [htext]
  rw [hwritten] at htake ⊢
  rw [List.cons_append, readValue_of_number hc, ← List.cons_append, htake]
  rfl

private theorem reads_string (content : String) (depth : Nat) : Reads depth (.string content) := by
  intro fuel rest _ hfuel
  have htext : pretty depth (.string content) =
      '"' :: (content.toList.flatMap escapeChar ++ ['"']) := rfl
  rw [htext] at hfuel ⊢
  simp only [List.length_append, List.length_cons, List.length_nil] at hfuel
  obtain ⟨fuel, rfl⟩ : ∃ k, fuel = k + 1 := ⟨fuel - 1, by omega⟩
  have hread : readString fuel (content.toList.flatMap escapeChar ++ '"' :: rest) =
      some (content.toList, rest) := readString_escaped _ _ (by omega)
  rw [List.cons_append, List.append_assoc, List.singleton_append, readValue, skip_cons (by decide)]
  simp only [hread, Option.map_some, String.ofList_toList]

/-- **A proper document** is read off every text that begins with it. -/
theorem IsProper.reads {j : Json} (h : IsProper j) (depth : Nat) : Reads depth j := by
  induction h generalizing depth with
  | null =>
    intro fuel rest _ hfuel
    obtain ⟨fuel, rfl⟩ : ∃ k, fuel = k + 1 := ⟨fuel - 1, by simp [pretty, compact] at hfuel; omega⟩
    rfl
  | bool b =>
    intro fuel rest _ hfuel
    obtain ⟨fuel, rfl⟩ : ∃ k, fuel = k + 1 :=
      ⟨fuel - 1, by cases b <;> simp [pretty, compact] at hfuel <;> omega⟩
    cases b <;> rfl
  | number h => exact reads_number h depth
  | string content => exact reads_string content depth
  | array h ih => exact reads_array h fun j hj => ih j hj _
  | object h ih => exact reads_object fun m hm => ih m hm _

/-- **Documents are read as they were written**, if their numbers are proper ones. -/
theorem parse?_prettyText {j : Json} (h : IsProper j) : parse? j.prettyText = some j := by
  have hread := h.reads 0 (2 * (j.pretty 0).length + 2) [] nofun (by omega)
  rw [List.append_nil] at hread
  rw [parse?, prettyText, String.toList_ofList, hread]
  rfl

end MockAudit.Json
