import MockAudit.Toml.Reader
import MockAudit.Toml.Writer
import Mathlib.Tactic.SplitIfs

/-!
# Strings of TOML documents

A string is written in one of four forms, depending on the characters it contains, and read back by
four readers. Whatever the characters are, the reader of a form finds the text that was written
(`takeString_writeString`). In particular quotes at the end of a text are told apart from the
closing ones, and a text that begins with a line end keeps it.

## Main definitions

* `Escapes`: what stands for a character after a backslash.
* `Body`: what may stand between three quotes, and the text it stands for.

## Main results

* `takeBasic_escapeAll`: strings with escapes on one line are read back.
* `Body.takeMultiline`: a body is read up to the closing quotes.
* `takeString_writeString`: every string is read as it was written.
-/

namespace MockAudit.Toml

/-! ### Escapes -/

private theorem hexValue?_upperHexDigit : ∀ n < 16, Json.hexValue?
    (upperHexDigit n) = some n := by decide

/-- The code of a control character is read back. -/
theorem takeEscape_code {c : Char} (h : needsCode c = true) (rest : List Char) :
    takeEscape ('u' :: '0' :: '0' :: upperHexDigit (c.toNat / 16) :: upperHexDigit (c.toNat % 16)
      :: rest) = some (c, rest) := by
  have hsmall : c.toNat < 128 := by
    rw [needsCode, Bool.or_eq_true, Bool.and_eq_true, Bool.and_eq_true, decide_eq_true_iff,
      beq_iff_eq] at h
    omega
  have hzero : Json.hexValue? '0' = some 0 := by decide
  have hhigh := hexValue?_upperHexDigit (c.toNat / 16) (by omega)
  have hlow := hexValue?_upperHexDigit (c.toNat % 16) (by omega)
  have hvalue : 16 * (c.toNat / 16) + c.toNat % 16 = c.toNat := Nat.div_add_mod _ _
  have hscalar : scalarChar? c.toNat = some c := by
    rw [scalarChar?, if_pos (by omega), Char.ofNat_toNat]
  simp only [takeEscape, takeHex, hzero, hhigh, hlow, Option.bind_eq_bind, Option.bind_some,
    Nat.mul_zero, Nat.zero_add, hvalue, hscalar]
  rfl

/-- What stands for a character after a backslash. -/
structure Escapes (e : List Char) (c : Char) : Prop where
  read : ∀ rest, takeEscape (e ++ rest) = some (c, rest)
  /-- A blank after the backslash would join lines. -/
  unfolded : ∀ rest, takeMultiline.finishFold (e ++ rest) = none

theorem Escapes.code {c : Char} (h : needsCode c = true) :
    Escapes ['u', '0', '0', upperHexDigit (c.toNat / 16), upperHexDigit (c.toNat % 16)] c :=
  ⟨fun rest => takeEscape_code h rest, fun _ => rfl⟩

private theorem isPlain_of_not_needsCode {c : Char} (h : needsCode c = false) (hline : c ≠ '\n') :
    isPlain c = true := by
  simp only [needsCode, Bool.or_eq_false_iff, Bool.and_eq_false_iff, decide_eq_false_iff_not,
    bne_eq_false_iff_eq, beq_eq_false_iff_ne] at h
  simp only [isPlain, Bool.or_eq_true, beq_iff_eq, Bool.and_eq_true, decide_eq_true_iff, bne_iff_ne]
  obtain ⟨(h | h) | h, hdel⟩ := h
  · exact .inr ⟨by omega, hdel⟩
  · exact .inl h
  · exact absurd h hline

/-- A character is written as it is or by an escape. -/
theorem escape_cases (multiline : Bool) (quotes : Nat) (c : Char) :
    (escape multiline quotes c = [c] ∧ c ≠ '\\' ∧ (c = '"' → multiline = true ∧ quotes < 2) ∧
      (isPlain c = true ∨ multiline = true ∧ c = '\n')) ∨
    ∃ e, escape multiline quotes c = '\\' :: e ∧ Escapes e c := by
  rw [escape]
  split_ifs with hquote hraw hb ht hn hmulti hf hr hback hcode
  · rw [Bool.and_eq_true, decide_eq_true_iff] at hraw
    subst hquote
    exact .inl ⟨rfl, by decide, fun _ => hraw, .inl rfl⟩
  · exact .inr ⟨_, rfl, fun _ => by rw [hquote]; rfl, fun _ => rfl⟩
  · exact .inr ⟨_, rfl, fun _ => by rw [hb]; rfl, fun _ => rfl⟩
  · exact .inr ⟨_, rfl, fun _ => by rw [ht]; rfl, fun _ => rfl⟩
  · exact .inl ⟨by rw [hn], by rw [hn]; decide, fun h => absurd h hquote, .inr ⟨hmulti, hn⟩⟩
  · exact .inr ⟨_, rfl, fun _ => by rw [hn]; rfl, fun _ => rfl⟩
  · exact .inr ⟨_, rfl, fun _ => by rw [hf]; rfl, fun _ => rfl⟩
  · exact .inr ⟨_, rfl, fun _ => by rw [hr]; rfl, fun _ => rfl⟩
  · exact .inr ⟨_, rfl, fun _ => by rw [hback]; rfl, fun _ => rfl⟩
  · exact .inr ⟨_, rfl, .code hcode⟩
  · have hplain := isPlain_of_not_needsCode (Bool.eq_false_iff.mpr hcode) hn
    exact .inl ⟨rfl, hback, fun h => absurd h hquote, .inl hplain⟩

/-! ### Strings on one line -/

private theorem takeBasic_cons (fuel : Nat) {c : Char} (hplain : isPlain c = true)
    (hquote : c ≠ '"') (hback : c ≠ '\\') (rest : List Char) :
    takeBasic (fuel + 1) (c :: rest) =
      (takeBasic fuel rest).map fun (text, rest) => (c :: text, rest) := by
  simp [takeBasic, hplain]

private theorem takeBasic_escape (fuel : Nat) {e : List Char} {c : Char} (h : Escapes e c)
    (rest : List Char) :
    takeBasic (fuel + 1) ('\\' :: e ++ rest) =
      (takeBasic fuel rest).map fun (text, rest) => (c :: text, rest) := by
  rw [List.cons_append, takeBasic, h.read]
  cases hrest : takeBasic fuel rest <;>
  · simp only [Option.bind_eq_bind, Option.bind_some, hrest]
    rfl

/-- A text with escapes is read up to the closing double quote. -/
theorem takeBasic_escapeAll (quotes : Nat) (cs rest : List Char) {fuel : Nat}
    (hfuel : (escapeAll false quotes cs).length < fuel) :
    takeBasic fuel (escapeAll false quotes cs ++ '"' :: rest) = some (cs, rest) := by
  induction cs generalizing quotes fuel with
  | nil =>
    obtain ⟨fuel, rfl⟩ := Nat.exists_eq_succ_of_ne_zero (Nat.ne_of_gt hfuel)
    rfl
  | cons c cs ih =>
    obtain ⟨fuel, rfl⟩ := Nat.exists_eq_succ_of_ne_zero (Nat.ne_of_gt (Nat.zero_lt_of_lt hfuel))
    rw [escapeAll, List.length_append] at hfuel
    rw [escapeAll, List.append_assoc]
    rcases escape_cases false quotes c with ⟨hraw, hback, hquote, hplain⟩ | ⟨e, hescape, he⟩
    · rw [hraw, List.length_singleton] at hfuel
      rw [hraw, List.singleton_append, takeBasic_cons fuel (by simpa using hplain)
        (fun h => by simpa using hquote h) hback, ih _ (by omega)]
      rfl
    · rw [hescape, List.length_cons] at hfuel
      rw [hescape, takeBasic_escape fuel he, ih _ (by omega)]
      rfl

/-- Plain characters without a single quote are read up to the closing one. -/
theorem takeLiteral_append {cs : List Char} (h : ∀ c ∈ cs, isPlain c = true ∧ c ≠ '\'')
    (rest : List Char) : takeLiteral (cs ++ '\'' :: rest) = some (cs, rest) := by
  induction cs with
  | nil => rfl
  | cons c cs ih =>
    obtain ⟨⟨hplain, hquote⟩, hcs⟩ := List.forall_mem_cons.mp h
    have hstep : takeLiteral (c :: (cs ++ '\'' :: rest)) =
        (takeLiteral (cs ++ '\'' :: rest)).map fun (text, rest) => (c :: text, rest) := by
      simp [takeLiteral, hplain]
    rw [List.cons_append, hstep, ih hcs]
    rfl

/-! ### Strings on several lines -/

section

variable {quote : Char} {escapes : Bool}

/-- What may stand between three quotes, after a run of the given number of quotes, and the text it
stands for. No three quotes stand in a row. -/
inductive Body (quote : Char) (escapes : Bool) : Nat → List Char → List Char → Prop
  | nil {run : Nat} : Body quote escapes run [] []
  | quote {run : Nat} {written text : List Char} : run < 2 →
      Body quote escapes (run + 1) written text →
      Body quote escapes run (quote :: written) (quote :: text)
  | char {run : Nat} {c : Char} {written text : List Char} : c ≠ quote →
      (isPlain c = true ∨ c = '\n') → (escapes = true → c ≠ '\\') →
      Body quote escapes 0 written text → Body quote escapes run (c :: written) (c :: text)
  | escape {run : Nat} {e : List Char} {c : Char} {written text : List Char} : escapes = true →
      Escapes e c → Body quote escapes 0 written text →
      Body quote escapes run ('\\' :: e ++ written) (c :: text)

/-- A body begins with at most so many quotes, after which it ends or goes on with something
else. -/
theorem Body.quotes_first {run : Nat} {written text : List Char} (hback : quote ≠ '\\')
    (h : Body quote escapes run written text) (hrun : run ≤ 2) :
    (∃ k, run + k ≤ 2 ∧ written = List.replicate k quote ∧ text = List.replicate k quote) ∨
    ∃ k c rest, run + k ≤ 2 ∧ written = List.replicate k quote ++ c :: rest ∧ c ≠ quote := by
  induction h with
  | nil => exact .inl ⟨0, hrun, rfl, rfl⟩
  | quote hlt _ ih =>
    rcases ih hlt with ⟨k, hk, rfl, rfl⟩ | ⟨k, c, rest, hk, rfl, hc⟩
    · exact .inl ⟨k + 1, by omega, rfl, rfl⟩
    · exact .inr ⟨k + 1, c, rest, by omega, rfl, hc⟩
  | char hc => exact .inr ⟨0, _, _, hrun, rfl, hc⟩
  | escape => exact .inr ⟨0, '\\', _, hrun, rfl, hback.symm⟩

/-- Up to two quotes before the closing ones belong to the text. -/
theorem takeMultiline_close (fuel : Nat) {k : Nat} (hk : k ≤ 2) {rest : List Char}
    (hreturn : quote ≠ '\r') (hrest : rest.head? ≠ some quote) :
    takeMultiline quote escapes (fuel + 1) (List.replicate (k + 3) quote ++ rest) =
      some (List.replicate k quote, rest) := by
  have htake : (List.replicate (k + 3) quote ++ rest).takeWhile (· == quote) =
      List.replicate (k + 3) quote := by
    rw [List.takeWhile_append_of_pos (by simp)]
    cases rest with
    | nil => simp
    | cons c rest =>
      have hc : (c == quote) = false := by simpa using hrest
      simp [hc]
  have hcons : List.replicate (k + 3) quote ++ rest =
      quote :: (List.replicate (k + 2) quote ++ rest) := rfl
  rw [hcons] at htake ⊢
  rw [takeMultiline]
  · rw [htake, ← hcons, List.length_replicate, if_pos ⟨rfl, by omega⟩, if_pos (by omega),
      Nat.add_sub_cancel, List.drop_append_of_le_length (by simp)]
    simp
  · exact fun _ h _ => hreturn h

private theorem takeMultiline_cons (fuel : Nat) {c : Char} (hplain : isPlain c = true ∨ c = '\n')
    (hback : escapes = true → c ≠ '\\') {rest : List Char}
    (hopen : c = quote → ((c :: rest).takeWhile (· == quote)).length < 3) :
    takeMultiline quote escapes (fuel + 1) (c :: rest) =
      (takeMultiline quote escapes fuel rest).map fun (text, rest) => (c :: text, rest) := by
  have hreturn : c ≠ '\r' := by
    rintro rfl
    exact absurd hplain (by decide)
  rw [takeMultiline]
  · rw [if_neg fun h => absurd h.2 (Nat.not_le_of_lt (hopen h.1)), if_neg fun h => hback h.1 h.2,
      if_pos hplain]
  · exact fun _ h _ => hreturn h

private theorem takeMultiline_escape (fuel : Nat) {e : List Char} {c : Char} (h : Escapes e c)
    (hquote : quote ≠ '\\') (rest : List Char) :
    takeMultiline quote true (fuel + 1) ('\\' :: e ++ rest) =
      (takeMultiline quote true fuel rest).map fun (text, rest) => (c :: text, rest) := by
  rw [List.cons_append, takeMultiline]
  · rw [if_neg fun h => hquote h.1.symm, if_pos ⟨rfl, rfl⟩, h.unfolded, h.read]
    cases hrest : takeMultiline quote true fuel rest <;>
    · simp only [Option.bind_eq_bind, Option.bind_some, hrest]
      rfl
  · exact fun _ h _ => absurd h (by decide)

/-- A body is read up to the closing quotes. -/
theorem Body.takeMultiline {run : Nat} {written text : List Char}
    (h : Body quote escapes run written text) (hrun : run ≤ 2) (hplain : isPlain quote = true)
    (hback : quote ≠ '\\') {rest : List Char} (hrest : rest.head? ≠ some quote) {fuel : Nat}
    (hfuel : written.length < fuel) :
    Toml.takeMultiline quote escapes fuel (written ++ List.replicate 3 quote ++ rest) =
      some (text, rest) := by
  have hreturn : quote ≠ '\r' := by
    rintro rfl
    exact absurd hplain (by decide)
  induction h generalizing fuel with
  | nil =>
    obtain ⟨fuel, rfl⟩ := Nat.exists_eq_succ_of_ne_zero (Nat.ne_of_gt hfuel)
    exact takeMultiline_close fuel (Nat.zero_le 2) hreturn hrest
  | @quote run written text hlt hbody ih =>
    obtain ⟨fuel, rfl⟩ := Nat.exists_eq_succ_of_ne_zero (Nat.ne_of_gt (Nat.zero_lt_of_lt hfuel))
    -- The quotes that come first end the text or are followed by something else.
    rcases (Body.quote hlt hbody).quotes_first hback hrun with
      ⟨k, hk, hwritten, htext⟩ | ⟨k, c, tail, hk, hwritten, hc⟩
    · rw [hwritten, htext, List.replicate_append_replicate]
      exact takeMultiline_close fuel (by omega) hreturn hrest
    · rw [List.cons_append, List.cons_append,
        takeMultiline_cons fuel (.inl hplain) (fun _ => hback), ih hlt (by simpa using hfuel)]
      · rfl
      · intro _
        have hc : (c == quote) = false := beq_eq_false_iff_ne.mpr hc
        rw [← List.cons_append, ← List.cons_append, hwritten, List.append_assoc, List.append_assoc,
          List.takeWhile_append_of_pos (by simp), List.cons_append, List.takeWhile_cons, hc]
        simp
        omega
  | char hc hchar hescape _ ih =>
    obtain ⟨fuel, rfl⟩ := Nat.exists_eq_succ_of_ne_zero (Nat.ne_of_gt (Nat.zero_lt_of_lt hfuel))
    rw [List.cons_append, List.cons_append, takeMultiline_cons fuel hchar hescape
      (fun h => absurd h hc), ih (Nat.zero_le 2) (by simpa using hfuel)]
    rfl
  | @escape run e c written text hescapes he _ ih =>
    obtain ⟨fuel, rfl⟩ := Nat.exists_eq_succ_of_ne_zero (Nat.ne_of_gt (Nat.zero_lt_of_lt hfuel))
    subst hescapes
    have hlength : written.length < fuel := by
      rw [List.length_append, List.length_cons] at hfuel
      omega
    rw [List.append_assoc, List.append_assoc, takeMultiline_escape fuel he hback,
      ← List.append_assoc, ih (Nat.zero_le 2) hlength]
    rfl

/-- Where no line end was put after the opening quotes, none is skipped, since the text has none. -/
theorem Body.skipFirstLineEnd {written text : List Char} (h : Body quote escapes 0 written text)
    (hplain : isPlain quote = true) (hline : '\n' ∉ text) (rest : List Char) :
    Toml.skipFirstLineEnd (written ++ [quote, quote, quote] ++ rest) =
      written ++ [quote, quote, quote] ++ rest := by
  have hstart (c : Char) (cs : List Char) (hn : c ≠ '\n') (hr : c ≠ '\r') :
      Toml.skipFirstLineEnd (c :: cs) = c :: cs := by
    rw [Toml.skipFirstLineEnd]
    · rintro _ ⟨⟩
      exact hn rfl
    · rintro _ ⟨⟩
      exact hr rfl
  have hquote : quote ≠ '\n' ∧ quote ≠ '\r' := by
    constructor <;> rintro rfl <;> exact absurd hplain (by decide)
  cases h with
  | nil => exact hstart quote _ hquote.1 hquote.2
  | quote => exact hstart quote _ hquote.1 hquote.2
  | escape => exact hstart '\\' _ (by decide) (by decide)
  | @char run c _ _ _ hc =>
    have hn : c ≠ '\n' := by
      rintro rfl
      exact hline (List.mem_cons_self ..)
    refine hstart _ _ hn ?_
    rintro rfl
    exact absurd hc (by decide)

end

/-- A text with escapes is a body between double quotes. -/
theorem body_escapeAll {quotes : Nat} (hquotes : quotes ≤ 2) (cs : List Char) :
    Body '"' true quotes (escapeAll true quotes cs) cs := by
  induction cs generalizing quotes with
  | nil => exact .nil
  | cons c cs ih =>
    rw [escapeAll]
    by_cases hrun : c = '"' ∧ quotes < 2
    · obtain ⟨rfl, hlt⟩ := hrun
      have hraw : escape true quotes '"' = ['"'] := by
        rw [escape, if_pos rfl, if_pos (by simpa using hlt)]
      rw [hraw, if_pos (by simpa using hlt)]
      exact .quote hlt (ih hlt)
    · rw [if_neg (by simpa using hrun)]
      rcases escape_cases true quotes c with ⟨hraw, hback, hquote, hplain⟩ | ⟨e, hescape, he⟩
      · rw [hraw]
        exact .char (fun h => hrun ⟨h, (hquote h).2⟩) (hplain.imp_right And.right)
          (fun _ => hback) (ih (Nat.zero_le 2))
      · rw [hescape]
        exact .escape rfl he (ih (Nat.zero_le 2))

/-! ### Runs of quotes -/

/-- Counts a character for the present run of `c` and the longest one. -/
def countRun (c : Char) (counts : Nat × Nat) (d : Char) : Nat × Nat :=
  if d = c then (counts.1 + 1, max counts.2 (counts.1 + 1)) else (0, counts.2)

private theorem longestRun_eq (c : Char) (cs : List Char) :
    longestRun c cs = (cs.foldl (countRun c) (0, 0)).2 := rfl

private theorem le_foldl_countRun (c : Char) (cs : List Char) (counts : Nat × Nat) :
    counts.2 ≤ (cs.foldl (countRun c) counts).2 := by
  induction cs generalizing counts with
  | nil => exact Nat.le_refl _
  | cons d cs ih =>
    refine Nat.le_trans ?_ (ih _)
    rw [countRun]
    split_ifs
    · exact Nat.le_max_left _ _
    · exact Nat.le_refl _

/-- A character without any run does not occur. -/
theorem not_mem_of_longestRun {c : Char} {cs : List Char} (h : longestRun c cs = 0) : c ∉ cs := by
  intro hmem
  obtain ⟨before, after, rfl⟩ := List.append_of_mem hmem
  rw [longestRun_eq, List.foldl_append, List.foldl_cons] at h
  have hle := le_foldl_countRun c after (countRun c (before.foldl (countRun c) (0, 0)) c)
  rw [h, countRun, if_pos rfl] at hle
  exact absurd hle (by simp)

/-- A text without longer runs of quotes is a body as it is. -/
theorem body_of_foldl_countRun {quote : Char} {cs : List Char}
    (hchars : ∀ c ∈ cs, isPlain c = true ∨ c = '\n') {counts : Nat × Nat}
    (h : (cs.foldl (countRun quote) counts).2 ≤ 2) : Body quote false counts.1 cs cs := by
  induction cs generalizing counts with
  | nil => exact .nil
  | cons c cs ih =>
    obtain ⟨hc, hcs⟩ := List.forall_mem_cons.mp hchars
    rw [List.foldl_cons] at h
    have hbody := ih hcs h
    have hle := Nat.le_trans (le_foldl_countRun quote cs (countRun quote counts c)) h
    rw [countRun] at hbody hle
    split_ifs at hbody hle with hquote
    · subst hquote
      exact .quote (by omega) hbody
    · exact .char hquote hc (by simp) hbody

/-! ### Strings of all kinds -/

/-- What follows a string does not begin with a quote. -/
def Follows (rest : List Char) : Prop :=
  rest.head? ≠ some '"' ∧ rest.head? ≠ some '\''

private theorem takeString_basic (cs : List Char) {rest : List Char} (hrest : Follows rest) :
    takeString ('"' :: escapeAll false 0 cs ++ ['"'] ++ rest) = some (String.ofList cs, rest) := by
  have hread : takeBasic ((escapeAll false 0 cs ++ '"' :: rest).length + 1)
      (escapeAll false 0 cs ++ '"' :: rest) = some (cs, rest) :=
    takeBasic_escapeAll 0 cs rest (by rw [List.length_append]; omega)
  -- The opening quote is not followed by two more.
  have hsingle (tail : List Char) : escapeAll false 0 cs ++ '"' :: rest ≠ '"' :: '"' :: tail := by
    intro h
    cases cs with
    | nil => exact hrest.1 (by rw [(List.cons.inj h).2]; rfl)
    | cons c cs =>
      rw [escapeAll] at h
      rcases escape_cases false 0 c with ⟨hraw, -, hquote, -⟩ | ⟨e, hescape, -⟩
      · rw [hraw] at h
        exact absurd (hquote (List.cons.inj h).1).1 (by decide)
      · rw [hescape] at h
        exact absurd (List.cons.inj h).1 (by decide)
  have hshape : '"' :: escapeAll false 0 cs ++ ['"'] ++ rest =
      '"' :: (escapeAll false 0 cs ++ '"' :: rest) := by simp
  rw [hshape, takeString]
  · rw [hread]
    rfl
  · exact fun tail h => hsingle tail h

private theorem takeString_literal {cs : List Char} (h : ∀ c ∈ cs, isPlain c = true ∧ c ≠ '\'')
    {rest : List Char} (hrest : Follows rest) :
    takeString ('\'' :: cs ++ ['\''] ++ rest) = some (String.ofList cs, rest) := by
  have hsingle (tail : List Char) : cs ++ '\'' :: rest ≠ '\'' :: '\'' :: tail := by
    intro heq
    cases cs with
    | nil => exact hrest.2 (by rw [(List.cons.inj heq).2]; rfl)
    | cons c cs => exact (h c (List.mem_cons_self ..)).2 (List.cons.inj heq).1
  have hshape : '\'' :: cs ++ ['\''] ++ rest = '\'' :: (cs ++ '\'' :: rest) := by simp
  rw [hshape, takeString]
  · rw [takeLiteral_append h]
    rfl
  · exact fun tail heq => hsingle tail heq

/-- Between three quotes a line end comes first if there is any in the text. -/
theorem Body.takeMultiline_first {quote : Char} {escapes : Bool} {written text : List Char}
    (h : Body quote escapes 0 written text) (hplain : isPlain quote = true) (hback : quote ≠ '\\')
    {rest : List Char} (hrest : rest.head? ≠ some quote) {opened : List Char}
    (hopened : opened = (if text.contains '\n' then ['\n'] else []) ++ written ++
      [quote, quote, quote] ++ rest) :
    Toml.takeMultiline quote escapes (opened.length + 1) (Toml.skipFirstLineEnd opened) =
      some (text, rest) := by
  have hread {fuel : Nat} (hfuel : written.length < fuel) :
      Toml.takeMultiline quote escapes fuel (written ++ [quote, quote, quote] ++ rest) =
        some (text, rest) := h.takeMultiline (Nat.zero_le 2) hplain hback hrest hfuel
  by_cases hline : '\n' ∈ text
  · rw [if_pos (by simpa using hline)] at hopened
    subst hopened
    exact hread (by simp only [List.length_append]; omega)
  · rw [if_neg (by simpa using hline), List.nil_append] at hopened
    subst hopened
    rw [h.skipFirstLineEnd hplain hline]
    exact hread (by simp only [List.length_append]; omega)

private theorem takeString_triple_double {written text : List Char}
    (h : Body '"' true 0 written text) {rest : List Char} (hrest : Follows rest) :
    takeString (['"', '"', '"'] ++ (if text.contains '\n' then ['\n'] else []) ++ written
      ++ ['"', '"', '"'] ++ rest) = some (String.ofList text, rest) := by
  have hread := h.takeMultiline_first rfl (by decide) hrest.1 rfl
  simp only [List.append_assoc, List.cons_append, List.nil_append] at hread ⊢
  rw [takeString, hread]
  rfl

private theorem takeString_triple_single {written text : List Char}
    (h : Body '\'' false 0 written text) {rest : List Char} (hrest : Follows rest) :
    takeString (['\'', '\'', '\''] ++ (if text.contains '\n' then ['\n'] else []) ++ written
      ++ ['\'', '\'', '\''] ++ rest) = some (String.ofList text, rest) := by
  have hread := h.takeMultiline_first rfl (by decide) hrest.2 rfl
  simp only [List.append_assoc, List.cons_append, List.nil_append] at hread ⊢
  rw [takeString, hread]
  rfl

/-- **Strings are read as they were written**, whatever characters they contain. -/
theorem takeString_writeString (s : String) {rest : List Char} (hrest : Follows rest) :
    takeString (writeString s ++ rest) = some (s, rest) := by
  have hlist : String.ofList s.toList = s := String.ofList_toList
  have hbasic := takeString_basic s.toList hrest
  have htriple := takeString_triple_double (body_escapeAll (Nat.zero_le 2) s.toList) hrest
  rw [hlist] at hbasic htriple
  have hchars (hcoded : (!s.toList.any needsCode) = true) :
      ∀ c ∈ s.toList, isPlain c = true ∨ c = '\n' := by
    intro c hc
    have hcode := List.any_eq_false.mp (Bool.not_eq_true' _ ▸ hcoded) c hc
    by_cases hline : c = '\n'
    · exact .inr hline
    · exact .inl (isPlain_of_not_needsCode (Bool.eq_false_iff.mpr hcode) hline)
  rw [writeString]
  dsimp only
  split
  · exact hbasic
  split
  · rename_i hliteral
    rw [Bool.and_eq_true, Bool.and_eq_true, beq_iff_eq] at hliteral
    obtain ⟨⟨hcoded, hmarks⟩, hline⟩ := hliteral
    have hplain : ∀ c ∈ s.toList, isPlain c = true ∧ c ≠ '\'' := by
      intro c hc
      refine ⟨(hchars hcoded c hc).resolve_right ?_, ?_⟩
      · rintro rfl
        simp [hc] at hline
      · rintro rfl
        exact not_mem_of_longestRun hmarks hc
    rw [takeString_literal hplain hrest, hlist]
  split
  · exact htriple
  split
  · rename_i hsingle
    rw [Bool.and_eq_true, decide_eq_true_iff] at hsingle
    rw [takeString_triple_single (body_of_foldl_countRun (hchars hsingle.1) hsingle.2) hrest, hlist]
  split
  · rename_i hlines
    rw [if_pos hlines] at htriple
    exact htriple
  · exact hbasic

end MockAudit.Toml
