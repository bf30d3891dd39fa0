import MockAudit.Proofs.TomlStrings
import MockAudit.Signature.File
import Mathlib.Data.List.Nodup

/-!
# Signature files read back

A signature file is a sequence of lines: lists that are empty come first, then a header and some
assignments for each declaration. The reader takes one line at a time, so that it can be followed
from the last line backwards: if the rest of a text is read to a document with a property
(`Toml.Reads`), so is the text with one more line in front. What a declaration says are arbitrary
texts, and all of them are read as they were written (`DeclarationFile.parse?_write`).

## Main definitions

* `Toml.Reads`: a text is read to a document with a property.
* `Toml.Lists`: a document under construction has some tables listed under a key.
* `DeclarationFile.blocks`: the blocks of which a signature file consists.

## Main results

* `Toml.Reads.tables`: the lines of tables add them to a list.
* `DeclarationFile.parse?_write`: signature files are read as they were written.
-/

namespace MockAudit

namespace Toml

/-! ### Lines -/

theorem takeWhile_append_stop {p : Char → Bool} {cs rest : List Char} (hcs : ∀ c ∈ cs, p c = true)
    (hrest : ∀ c, rest.head? = some c → p c = false) :
    (cs ++ rest).takeWhile p = cs ∧ (cs ++ rest).dropWhile p = rest := by
  have hstop : rest.takeWhile p = [] ∧ rest.dropWhile p = rest := by
    cases rest with
    | nil => exact ⟨rfl, rfl⟩
    | cons c rest => simp [hrest c rfl]
  rw [List.takeWhile_append_of_pos hcs, List.dropWhile_append_of_pos hcs, hstop.1, hstop.2,
    List.append_nil]
  exact ⟨rfl, rfl⟩

private theorem skipBlanks_cons {c : Char} (hspace : c ≠ ' ') (htab : c ≠ '\t') (cs : List Char) :
    skipBlanks (c :: cs) = c :: cs := by
  rw [skipBlanks, List.dropWhile_cons_of_neg (by simp [hspace, htab])]

/-- A character with which the content of a line may begin. -/
def BeginsLine (c : Char) : Prop :=
  c ≠ ' ' ∧ c ≠ '\t' ∧ c ≠ '#' ∧ c ≠ '\n' ∧ c ≠ '\r'

private theorem skipLines_cons {c : Char} (h : BeginsLine c) (fuel : Nat) (cs : List Char) :
    skipLines fuel (c :: cs) = c :: cs := by
  obtain ⟨hspace, htab, hcomment, hline, hreturn⟩ := h
  have hblanks := skipBlanks_cons hspace htab cs
  have hfinish : finishLine (c :: cs) = none := by
    rw [finishLine, hblanks]
    split
    · rename_i heq
      exact absurd (List.cons.inj heq).1 hcomment
    · simp [takeLineEnd, hline, hreturn]
  cases fuel with
  | zero => rfl
  | succ fuel =>
    simp only [skipLines, hblanks, hfinish]

private theorem takeKey_bare (fuel : Nat) {name : List Char} (hname : name ≠ [])
    (hbare : ∀ c ∈ name, isBareKeyChar c = true) {rest : List Char}
    (hrest : ∀ c, rest.head? = some c → isBareKeyChar c = false)
    (hdot : (skipBlanks rest).head? ≠ some '.') :
    takeKey (fuel + 1) (name ++ rest) = some ([String.ofList name], skipBlanks rest) := by
  obtain ⟨c, cs, rfl⟩ := List.exists_cons_of_ne_nil hname
  have hc : isBareKeyChar c = true := hbare c (List.mem_cons_self ..)
  have hne {d : Char} (hd : isBareKeyChar d = false) : c ≠ d := by
    rintro rfl
    rw [hc] at hd
    exact Bool.noConfusion hd
  have hblanks : skipBlanks (c :: cs ++ rest) = c :: cs ++ rest :=
    skipBlanks_cons (hne (by decide)) (hne (by decide)) _
  have hpart : takeKeyPart (c :: cs ++ rest) = some (String.ofList (c :: cs), rest) := by
    obtain ⟨htake, hdrop⟩ := takeWhile_append_stop hbare hrest
    rw [takeKeyPart]
    · rw [htake, hdrop]
      rfl
    · rintro _ ⟨⟩
      exact hne (by decide) rfl
    · rintro _ ⟨⟩
      exact hne (by decide) rfl
  rw [takeKey, hblanks, hpart]
  simp only [Option.bind_eq_bind, Option.bind_some]
  split
  · rename_i h
    rw [h] at hdot
    exact absurd rfl hdot
  · rfl

private theorem writeString_eq_cons (s : String) :
    ∃ cs, writeString s = '"' :: cs ∨ writeString s = '\'' :: cs := by
  rw [writeString]
  dsimp only
  split
  · exact ⟨_, .inl rfl⟩
  split
  · exact ⟨_, .inr rfl⟩
  split
  · exact ⟨_, .inl rfl⟩
  split
  · exact ⟨_, .inr rfl⟩
  split
  · exact ⟨_, .inl rfl⟩
  · exact ⟨_, .inl rfl⟩

private theorem takeValue_writeString (fuel : Nat) (s : String) {rest : List Char}
    (hrest : Follows rest) :
    takeValue (fuel + 1) (writeString s ++ rest) = some (.string s, rest) := by
  have hread := takeString_writeString s hrest
  obtain ⟨cs, hcs | hcs⟩ := writeString_eq_cons s <;>
  · rw [hcs, List.cons_append] at hread ⊢
    rw [takeValue, hread]
    rfl

/-- A name of a key that needs no quotes. -/
def IsBare (name : String) : Prop :=
  name.toList ≠ [] ∧ ∀ c ∈ name.toList, isBareKeyChar c = true

private theorem IsBare.takeKey {name : String} (h : IsBare name) (fuel : Nat)
    {rest next : List Char} (hrest : ∀ c, rest.head? = some c → isBareKeyChar c = false)
    (hnext : skipBlanks rest = next) (hdot : next.head? ≠ some '.') :
    Toml.takeKey (fuel + 1) (name.toList ++ rest) = some ([name], next) := by
  subst hnext
  rw [takeKey_bare fuel h.1 h.2 hrest hdot, String.ofList_toList]

private theorem IsBare.beginsLine {name : String} (h : IsBare name) :
    ∃ c cs, name.toList = c :: cs ∧ BeginsLine c ∧ c ≠ '[' := by
  obtain ⟨hname, hbare⟩ := h
  obtain ⟨c, cs, hcs⟩ := List.exists_cons_of_ne_nil hname
  have hc : isBareKeyChar c = true := hbare c (hcs ▸ List.mem_cons_self ..)
  have hne {d : Char} (hd : isBareKeyChar d = false) : c ≠ d := by
    rintro rfl
    rw [hc] at hd
    exact Bool.noConfusion hd
  exact ⟨c, cs, hcs, ⟨hne (by decide), hne (by decide), hne (by decide), hne (by decide),
    hne (by decide)⟩, hne (by decide)⟩

private theorem follows_lineEnd (rest : List Char) : Follows ('\n' :: rest) :=
  ⟨by simp, by simp⟩

section

variable (fuel : Nat) (header : List String) (entries : Drafts) (rest : List Char)

/-- A line with a key and a value defines the key in the open table. -/
theorem readLines_entry {key : String} (hkey : IsBare key) {written : List Char} {value : Toml}
    (hvalue : takeValue (fuel + 1) (skipBlanks (' ' :: (written ++ '\n' :: rest))) =
      some (value, '\n' :: rest)) :
    readLines (fuel + 2) header entries (key.toList ++ " = ".toList ++ written ++ ['\n'] ++ rest) =
      (Draft.defineIn [key] value header entries).bind
        fun entries => readLines (fuel + 1) header entries rest := by
  obtain ⟨c, cs, hcs, hbegins, hbracket⟩ := hkey.beginsLine
  have htext : key.toList ++ " = ".toList ++ written ++ ['\n'] ++ rest =
      key.toList ++ ' ' :: '=' :: ' ' :: (written ++ '\n' :: rest) := by simp
  have htake : takeKey (fuel + 1) (key.toList ++ ' ' :: '=' :: ' ' :: (written ++ '\n' :: rest)) =
      some ([key], '=' :: ' ' :: (written ++ '\n' :: rest)) :=
    hkey.takeKey fuel (by rintro _ ⟨⟩; decide) rfl (by simp)
  have hfinish : finishLine ('\n' :: rest) = some rest := rfl
  rw [htext]
  rw [hcs, List.cons_append] at htake ⊢
  rw [readLines, skipLines_cons hbegins]
  split
  · rename_i h
    cases h
  · rename_i h
    exact absurd (List.cons.inj h).1 hbracket
  · rename_i h
    exact absurd (List.cons.inj h).1 hbracket
  · rw [htake]
    simp only [Option.bind_eq_bind, Option.bind_some, hvalue, hfinish]

/-- A line that gives a key a text defines it as this text. -/
theorem readLines_assignment {key : String} (hkey : IsBare key) (text : String) :
    readLines (fuel + 2) header entries (DeclarationFile.assignment key text ++ rest) =
      (Draft.defineIn [key] (.string text) header entries).bind
        fun entries => readLines (fuel + 1) header entries rest := by
  refine readLines_entry fuel header entries rest hkey ?_
  have hskip : skipBlanks (' ' :: (writeString text ++ '\n' :: rest)) =
      writeString text ++ '\n' :: rest := by
    obtain ⟨cs, hcs | hcs⟩ := writeString_eq_cons text <;>
    · rw [hcs]
      rfl
  rw [hskip]
  exact takeValue_writeString fuel text (follows_lineEnd rest)

/-- A line that gives a key an empty list defines it as such. -/
theorem readLines_emptyList {key : String} (hkey : IsBare key) :
    readLines (fuel + 3) header entries (key.toList ++ " = []\n".toList ++ rest) =
      (Draft.defineIn [key] (.array []) header entries).bind
        fun entries => readLines (fuel + 2) header entries rest := by
  have hskip : skipBlanks (' ' :: (['[', ']'] ++ '\n' :: rest)) = '[' :: ']' :: '\n' :: rest := rfl
  have hbegins : BeginsLine ']' := ⟨by decide, by decide, by decide, by decide, by decide⟩
  have hvalue : takeValue (fuel + 2) (skipBlanks (' ' :: (['[', ']'] ++ '\n' :: rest))) =
      some (.array [], '\n' :: rest) := by
    rw [hskip, takeValue, takeItems, skipLines_cons hbegins]
    rfl
  have htext : key.toList ++ " = []\n".toList ++ rest =
      key.toList ++ " = ".toList ++ ['[', ']'] ++ ['\n'] ++ rest := by simp
  rw [htext, readLines_entry (fuel + 1) header entries rest hkey hvalue]

/-- A header in double brackets opens a new table of the list under its key. -/
theorem readLines_header {key : String} (hkey : IsBare key) :
    readLines (fuel + 2) header entries ("[[".toList ++ key.toList ++ "]]\n".toList ++ rest) =
      (Draft.openTable true [key] entries).bind
        fun entries => readLines (fuel + 1) [key] entries rest := by
  have htake : takeKey (fuel + 1) (key.toList ++ ']' :: ']' :: '\n' :: rest) =
      some ([key], ']' :: ']' :: '\n' :: rest) :=
    hkey.takeKey fuel (by rintro _ ⟨⟩; decide) rfl (by simp)
  have htext : "[[".toList ++ key.toList ++ "]]\n".toList ++ rest =
      '[' :: '[' :: (key.toList ++ ']' :: ']' :: '\n' :: rest) := by simp
  have hbegins : BeginsLine '[' := ⟨by decide, by decide, by decide, by decide, by decide⟩
  have hfinish : finishLine ('\n' :: rest) = some rest := rfl
  rw [htext, readLines, skipLines_cons hbegins]
  simp only [htake, Option.bind_eq_bind, Option.bind_some, hfinish]

/-- An empty line changes nothing. -/
theorem readLines_blank :
    readLines fuel header entries ('\n' :: rest) = readLines fuel header entries rest := by
  have hskip : skipLines ('\n' :: rest).length ('\n' :: rest) = skipLines rest.length rest := rfl
  cases fuel with
  | zero => rfl
  | succ fuel => rw [readLines, readLines, hskip]

end

/-! ### Tables under construction -/

namespace Draft

/-- Storing answers for the stored key and leaves the others as they were. -/
theorem find?_store (key : String) (d : Draft) (entries : Drafts) (key' : String) :
    find? key' (store key d entries) = if key = key' then some d else find? key' entries := by
  induction entries with
  | nil => simp [store, find?]
  | cons e rest ih => grind [store, find?]

private theorem store_of_find?_none {key : String} {entries : Drafts} (h : find? key entries = none)
    (d : Draft) : store key d entries = entries ++ [(key, d)] := by
  induction entries with
  | nil => rfl
  | cons e rest ih => grind [store, find?]

private theorem lookup?_finishAll (key : String) (entries : Drafts) :
    lookup? key (finishAll entries) = (find? key entries).map finish := by
  induction entries with
  | nil => rfl
  | cons e rest ih => grind [finishAll, lookup?, find?]

/-- The draft of a table of texts. -/
def ofFields (fields : List (String × String)) : Drafts :=
  fields.map fun field => (field.1, .value (.string field.2))

private theorem find?_ofFields_none {key : String} {fields : List (String × String)}
    (h : key ∉ fields.map Prod.fst) : find? key (ofFields fields) = none := by
  induction fields with
  | nil => rfl
  | cons field fields ih =>
    rw [List.map_cons, List.mem_cons, not_or] at h
    rw [ofFields, List.map_cons, find?, if_neg (Ne.symm h.1)]
    exact ih h.2

private theorem finishAll_ofFields (fields : List (String × String)) :
    finishAll (ofFields fields) = fields.map fun field => (field.1, .string field.2) := by
  induction fields with
  | nil => rfl
  | cons field fields ih =>
    rw [ofFields, List.map_cons, finishAll, List.map_cons, ← ih]
    rfl

end Draft

private theorem lookup?_self (key : String) (v : Toml) (rest : List (String × Toml)) :
    lookup? key ((key, v) :: rest) = some v := if_pos rfl

private theorem lookup?_other {key key' : String} (h : key' ≠ key) (v : Toml)
    (rest : List (String × Toml)) : lookup? key ((key', v) :: rest) = lookup? key rest := if_neg h

/-- The table of some texts. -/
def ofFields (fields : List (String × String)) : Toml :=
  .table (fields.map fun field => (field.1, .string field.2))

/-- A document under construction has some tables listed under a key. -/
inductive Lists (entries : Drafts) (key : String) : List Toml → Prop
  | nothing : Draft.find? key entries = none → Lists entries key []
  | tables {finished : List Toml} {last : Drafts} :
      Draft.find? key entries = some (.tables finished last) →
      Lists entries key (finished ++ [.table (Draft.finishAll last)])

/-- A header opens a further table of the list under its key. -/
theorem Lists.openTable {entries : Drafts} {key : String} {items : List Toml}
    (h : Lists entries key items) :
    ∃ entries', Draft.openTable true [key] entries = some entries' ∧
      Draft.find? key entries' = some (.tables items (Draft.ofFields [])) ∧
      ∀ key', key' ≠ key → Draft.find? key' entries' = Draft.find? key' entries := by
  have hstore (d : Draft) : Draft.find? key (Draft.store key d entries) = some d ∧
      ∀ key', key' ≠ key → Draft.find? key' (Draft.store key d entries) =
        Draft.find? key' entries := by
    refine ⟨by rw [Draft.find?_store, if_pos rfl], fun key' hkey' => ?_⟩
    rw [Draft.find?_store, if_neg (Ne.symm hkey')]
  cases h with
  | nothing hfind =>
    exact ⟨Draft.store key (.tables [] []) entries, by simp only [Draft.openTable, hfind], hstore _⟩
  | @tables finished last hfind =>
    exact ⟨Draft.store key (.tables (finished ++ [.table (Draft.finishAll last)]) []) entries,
      by simp only [Draft.openTable, hfind], hstore _⟩

/-- A list that is not empty ends up with its tables. -/
theorem Lists.finish {entries : Drafts} {key : String} {items : List Toml}
    (h : Lists entries key items) (hitems : items ≠ []) :
    (Draft.find? key entries).map Draft.finish = some (.array items) := by
  cases h with
  | nothing => exact absurd rfl hitems
  | tables hfind =>
    rw [hfind, Option.map_some, Draft.finish]

/-! ### Documents -/

/-- A text is read, as a sequence of lines after the given header, to a document with a property. -/
def Reads (header : List String) (entries : Drafts) (cs : List Char) (P : Drafts → Prop) : Prop :=
  ∃ final, P final ∧ ∀ fuel, cs.length + 2 ≤ fuel → readLines fuel header entries cs = some final

/-- The lines of a table in a list. -/
def tableLines (key : String) (fields : List (String × String)) : List Char :=
  "[[".toList ++ key.toList ++ "]]\n".toList ++
    fields.flatMap fun field => DeclarationFile.assignment field.1 field.2

namespace Reads

variable {header : List String} {entries : Drafts} {cs : List Char} {P : Drafts → Prop}

theorem nil (h : P entries) : Reads header entries [] P := by
  refine ⟨entries, h, fun fuel hfuel => ?_⟩
  obtain ⟨fuel, rfl⟩ := Nat.exists_eq_add_of_le' (Nat.le_of_succ_le hfuel)
  rfl

/-- A line is read in one step. -/
theorem line {line : List Char} {header' : List String} {entries' : Drafts}
    (hlength : 2 ≤ line.length)
    (hstep : ∀ fuel, readLines (fuel + 3) header entries (line ++ cs) =
      readLines (fuel + 2) header' entries' cs)
    (h : Reads header' entries' cs P) : Reads header entries (line ++ cs) P := by
  obtain ⟨final, hfinal, hread⟩ := h
  refine ⟨final, hfinal, fun fuel hfuel => ?_⟩
  rw [List.length_append] at hfuel
  obtain ⟨fuel, rfl⟩ := Nat.exists_eq_add_of_le' (show 3 ≤ fuel by omega)
  rw [hstep, hread (fuel + 2) (by omega)]

theorem blank (h : Reads header entries cs P) : Reads header entries ('\n' :: cs) P := by
  obtain ⟨final, hfinal, hread⟩ := h
  refine ⟨final, hfinal, fun fuel hfuel => ?_⟩
  rw [readLines_blank, hread fuel (Nat.le_of_succ_le hfuel)]

theorem assignment {key text : String} (hkey : IsBare key) {entries' : Drafts}
    (hdefine : Draft.defineIn [key] (.string text) header entries = some entries')
    (h : Reads header entries' cs P) :
    Reads header entries (DeclarationFile.assignment key text ++ cs) P := by
  refine line (by simp [DeclarationFile.assignment]; omega) (fun fuel => ?_) h
  rw [readLines_assignment _ _ _ _ hkey, hdefine]
  rfl

theorem emptyList {key : String} (hkey : IsBare key) {entries' : Drafts}
    (hdefine : Draft.defineIn [key] (.array []) header entries = some entries')
    (h : Reads header entries' cs P) :
    Reads header entries (key.toList ++ " = []\n".toList ++ cs) P := by
  refine line (by simp) (fun fuel => ?_) h
  rw [readLines_emptyList _ _ _ _ hkey, hdefine]
  rfl

/-- The lines of a table define its fields. -/
theorem fields {key : String} {finished : List Toml} {before fields : List (String × String)}
    (hfind : Draft.find? key entries = some (.tables finished (Draft.ofFields before)))
    (hbare : ∀ field ∈ fields, IsBare field.1) (hnodup : ((before ++ fields).map Prod.fst).Nodup)
    (h : ∀ entries', Draft.find? key entries' =
        some (.tables finished (Draft.ofFields (before ++ fields))) →
      (∀ key', key' ≠ key → Draft.find? key' entries' = Draft.find? key' entries) →
      Reads [key] entries' cs P) :
    Reads [key] entries
      (fields.flatMap (fun field => DeclarationFile.assignment field.1 field.2) ++ cs) P := by
  induction fields generalizing before entries with
  | nil => exact h entries (by rwa [List.append_nil]) fun _ _ => rfl
  | cons field fields ih =>
    obtain ⟨hfield, hfields⟩ := List.forall_mem_cons.mp hbare
    have hnew : Draft.find? field.1 (Draft.ofFields before) = none := by
      refine Draft.find?_ofFields_none fun hmem => ?_
      rw [List.map_append, List.map_cons] at hnodup
      exact (List.nodup_append.mp hnodup).2.2 _ hmem _ (List.mem_cons_self ..) rfl
    have hstore : Draft.store field.1 (.value (.string field.2)) (Draft.ofFields before) =
        Draft.ofFields (before ++ [field]) := by
      rw [Draft.store_of_find?_none hnew, Draft.ofFields, Draft.ofFields, List.map_append]
      rfl
    have hassoc : before ++ field :: fields = before ++ [field] ++ fields := by simp
    have hdefine : Draft.defineIn [field.1] (.string field.2) [key] entries =
        some (Draft.store key (.tables finished (Draft.ofFields (before ++ [field]))) entries) := by
      rw [Draft.defineIn, hfind]
      simp only [Draft.defineIn, Draft.define, hnew, hstore, Option.bind_eq_bind, Option.bind_some]
      rfl
    rw [hassoc] at hnodup h
    rw [List.flatMap_cons, List.append_assoc]
    refine assignment hfield hdefine (ih ?_ hfields hnodup fun entries' hfind' hothers => ?_)
    · rw [Draft.find?_store, if_pos rfl]
    · refine h entries' hfind' fun key' hkey' => ?_
      rw [hothers key' hkey', Draft.find?_store, if_neg (Ne.symm hkey')]

section

variable {key : String} {items : List Toml}

/-- The lines of a table add it to the list under its key. -/
theorem table (hkey : IsBare key) (hlists : Lists entries key items)
    {fields : List (String × String)} (hbare : ∀ field ∈ fields, IsBare field.1)
    (hnodup : (fields.map Prod.fst).Nodup)
    (h : ∀ entries', Lists entries' key (items ++ [ofFields fields]) →
      (∀ key', key' ≠ key → Draft.find? key' entries' = Draft.find? key' entries) →
      Reads [key] entries' cs P) :
    Reads header entries (tableLines key fields ++ cs) P := by
  obtain ⟨opened, hopen, hfind, hothers⟩ := hlists.openTable
  have hfields : Reads [key] opened
      (fields.flatMap (fun field => DeclarationFile.assignment field.1 field.2) ++ cs) P := by
    refine Reads.fields hfind hbare hnodup fun entries' hfind' hothers' => ?_
    refine h entries' ?_ fun key' hkey' => (hothers' key' hkey').trans (hothers key' hkey')
    have hlists' := Lists.tables hfind'
    rwa [List.nil_append, Draft.finishAll_ofFields] at hlists'
  rw [tableLines, List.append_assoc]
  refine line (by simp) (fun fuel => ?_) hfields
  rw [readLines_header _ _ _ _ hkey, hopen]
  rfl

/-- The lines of several tables, each after an empty line, add them to the list under their key. -/
theorem tables (hkey : IsBare key) (hlists : Lists entries key items)
    {tables : List (List (String × String))}
    (hfields : ∀ fields ∈ tables, (∀ field ∈ fields, IsBare field.1) ∧ (fields.map Prod.fst).Nodup)
    (h : ∀ header' entries', Lists entries' key (items ++ tables.map ofFields) →
      (∀ key', key' ≠ key → Draft.find? key' entries' = Draft.find? key' entries) →
      Reads header' entries' cs P) :
    Reads header entries ((tables.map (tableLines key)).flatMap ('\n' :: ·) ++ cs) P := by
  induction tables generalizing header entries items with
  | nil => exact h header entries (by rwa [List.map_nil, List.append_nil]) fun _ _ => rfl
  | cons fields tables ih =>
    obtain ⟨hfields, htables⟩ := List.forall_mem_cons.mp hfields
    rw [List.map_cons, List.flatMap_cons, List.append_assoc, List.cons_append]
    refine blank (table hkey hlists hfields.1 hfields.2 fun entries' hlists' hothers => ?_)
    refine ih hlists' htables fun header'' entries'' hlists'' hothers' => ?_
    rw [List.append_assoc] at hlists''
    exact h header'' entries'' hlists''
      fun key' hkey' => (hothers' key' hkey').trans (hothers key' hkey')

/-- A list that is begun by nothing, or written as empty if it is, is read to its tables. -/
theorem listing (hkey : IsBare key) {tables : List (List (String × String))}
    (hfind : Draft.find? key entries = if tables.isEmpty then some (.value (.array [])) else none)
    (hfields : ∀ fields ∈ tables, (∀ field ∈ fields, IsBare field.1) ∧ (fields.map Prod.fst).Nodup)
    (h : ∀ header' entries',
      (Draft.find? key entries').map Draft.finish = some (.array (tables.map ofFields)) →
      (∀ key', key' ≠ key → Draft.find? key' entries' = Draft.find? key' entries) →
      Reads header' entries' cs P) :
    Reads header entries ((tables.map (tableLines key)).flatMap ('\n' :: ·) ++ cs) P := by
  cases tables with
  | nil => exact h header entries (by rw [hfind]; rfl) fun _ _ => rfl
  | cons fields tables =>
    refine Reads.tables hkey (.nothing hfind) hfields fun header' entries' hlists hothers => ?_
    exact h header' entries' (hlists.finish (List.cons_ne_nil _ _)) hothers

end

end Reads

/-- A document is read to its finished tables. -/
theorem parse?_of_reads {c : Char} {cs : List Char} (hmark : c.toNat ≠ 0xfeff) {P : Drafts → Prop}
    (h : Reads [] [] ('\n' :: c :: cs) P) :
    ∃ final, P final ∧ parse? (String.ofList (c :: cs)) = some (Draft.finishAll final) := by
  obtain ⟨final, hfinal, hread⟩ := h
  refine ⟨final, hfinal, ?_⟩
  have hlines := hread (2 * (c :: cs).length + 2) (by simp only [List.length_cons]; omega)
  rw [readLines_blank] at hlines
  rw [parse?, String.toList_ofList]
  simp only [hmark, if_false, hlines, Option.map_some]

end Toml

namespace DeclarationFile

/-! ### Signature files -/

/-- The fields of a declared type. -/
def typeFields (entry : TypeName × Option TypeName) : List (String × String) :=
  ("name", entry.1) :: (entry.2.map ("superclass", ·)).toList

/-- The fields of a declared method. -/
def methodFields (entry : String × String) : List (String × String) :=
  [("method", entry.1), ("signature", entry.2)]

private theorem typeLines_eq (entry : TypeName × Option TypeName) :
    typeLines entry = Toml.tableLines "types" (typeFields entry) := by
  unfold typeLines Toml.tableLines
  rw [List.append_assoc]
  obtain ⟨name, _ | superclass⟩ := entry
  · rfl
  · refine congrArg ("[[types]]\n".toList ++ ·) ?_
    rw [typeFields, Option.map_some, Option.toList_some, List.flatMap_cons, List.flatMap_singleton]

private theorem methodLines_eq (entry : String × String) :
    methodLines entry = Toml.tableLines "methods" (methodFields entry) := by
  unfold methodLines Toml.tableLines
  rw [List.append_assoc]
  refine congrArg ("[[methods]]\n".toList ++ ·) ?_
  rw [methodFields, List.flatMap_cons, List.flatMap_singleton]

private theorem typeOfToml?_ofFields (entry : TypeName × Option TypeName) :
    typeOfToml? (Toml.ofFields (typeFields entry)) = some entry := by
  obtain ⟨name, _ | superclass⟩ := entry
  · have htable : Toml.ofFields (typeFields (name, none)) = .table [("name", .string name)] := rfl
    rw [htable, typeOfToml?, Toml.lookup?_self, Toml.lookup?_other (by decide)]
    rfl
  · have htable : Toml.ofFields (typeFields (name, some superclass)) =
        .table [("name", .string name), ("superclass", .string superclass)] := rfl
    rw [htable, typeOfToml?, Toml.lookup?_self, Toml.lookup?_other (by decide), Toml.lookup?_self]
    rfl

private theorem methodOfToml?_ofFields (entry : String × String) :
    methodOfToml? (Toml.ofFields (methodFields entry)) = some entry := by
  have htable : Toml.ofFields (methodFields entry) =
      .table [("method", .string entry.1), ("signature", .string entry.2)] := rfl
  rw [htable, methodOfToml?, Toml.lookup?_self, Toml.lookup?_other (by decide), Toml.lookup?_self]
  rfl

/-- The keys of signature files need no quotes. -/
theorem isBare_of_mem : ∀ key ∈ ["types", "methods", "name", "superclass", "method", "signature"],
    Toml.IsBare key := by
  have hwords : ∀ key ∈ ["types", "methods", "name", "superclass", "method", "signature"],
      (!key.toList.isEmpty && key.toList.all Toml.isBareKeyChar) = true := by decide
  intro key hkey
  have hword := hwords key hkey
  rw [Bool.and_eq_true, List.all_eq_true] at hword
  exact ⟨by simpa using hword.1, hword.2⟩

private theorem typeFields_wellFormed (entry : TypeName × Option TypeName) :
    (∀ field ∈ typeFields entry, Toml.IsBare field.1) ∧
      ((typeFields entry).map Prod.fst).Nodup := by
  obtain ⟨name, _ | superclass⟩ := entry
  · exact ⟨fun field hfield => isBare_of_mem _ (by simp_all [typeFields]), by simp [typeFields]⟩
  · refine ⟨fun field hfield => isBare_of_mem _ ?_, by simp [typeFields]⟩
    obtain rfl | rfl : field = ("name", name) ∨ field = ("superclass", superclass) := by
      simpa [typeFields] using hfield
    · simp
    · simp

private theorem methodFields_wellFormed (entry : String × String) :
    (∀ field ∈ methodFields entry, Toml.IsBare field.1) ∧
      ((methodFields entry).map Prod.fst).Nodup := by
  refine ⟨fun field hfield => isBare_of_mem _ ?_, by simp [methodFields]⟩
  obtain rfl | rfl : field = ("method", entry.1) ∨ field = ("signature", entry.2) := by
    simpa [methodFields] using hfield
  · simp
  · simp

/-- The lines for the lists that are empty. -/
def emptyLines (types methods : Bool) : List Char :=
  (if types then "types = []\n".toList else []) ++ (if methods then "methods = []\n".toList else [])

/-- The lines for the empty lists as a block, if there are any. -/
def emptyBlock (types methods : Bool) : List (List Char) :=
  if (emptyLines types methods).isEmpty then [] else [emptyLines types methods]

/-- A list under a key is known to be empty or not yet begun. -/
def Begun (entries : Toml.Drafts) (key : String) (isEmpty : Bool) : Prop :=
  Toml.Draft.find? key entries = if isEmpty then some (.value (.array [])) else none

/-- The lines for the empty lists come first. -/
theorem reads_emptyBlock (types methods : Bool) {cs : List Char} {P : Toml.Drafts → Prop}
    (h : ∀ entries, Begun entries "types" types → Begun entries "methods" methods →
      Toml.Reads [] entries cs P) :
    Toml.Reads [] [] ((emptyBlock types methods).flatMap ('\n' :: ·) ++ cs) P := by
  have htypes : Toml.IsBare "types" := isBare_of_mem _ (by simp)
  have hmethods : Toml.IsBare "methods" := isBare_of_mem _ (by simp)
  cases types <;> cases methods
  · exact h [] rfl rfl
  · exact .blank (.emptyList hmethods rfl (h _ rfl rfl))
  · exact .blank (.emptyList htypes rfl (h _ rfl rfl))
  · exact .blank (.emptyList htypes rfl (.emptyList hmethods rfl (h _ rfl rfl)))

private theorem intercalate_cons (sep : Char) (block : List Char) (blocks : List (List Char)) :
    sep :: List.intercalate [sep] (block :: blocks) = (block :: blocks).flatMap (sep :: ·) := by
  induction blocks generalizing block with
  | nil => simp
  | cons next blocks ih =>
    rw [List.flatMap_cons, ← ih]
    simp [List.intercalate]

/-- The blocks of a signature file. -/
def blocks (file : DeclarationFile) : List (List Char) :=
  emptyBlock file.types.isEmpty file.methods.isEmpty ++
    ((file.types.map typeFields).map (Toml.tableLines "types") ++
      (file.methods.map methodFields).map (Toml.tableLines "methods"))

/-- The text of a signature file consists of its blocks with empty lines between them. -/
theorem toList_write (file : DeclarationFile) :
    file.write.toList = List.intercalate ['\n'] file.blocks := by
  have hlist : file.write.toList = List.intercalate ['\n']
      (emptyBlock file.types.isEmpty file.methods.isEmpty ++ file.types.map typeLines ++
        file.methods.map methodLines) := String.toList_ofList
  have htypes : file.types.map typeLines =
      (file.types.map typeFields).map (Toml.tableLines "types") := by
    rw [List.map_map]
    exact List.map_congr_left fun entry _ => typeLines_eq entry
  have hmethods : file.methods.map methodLines =
      (file.methods.map methodFields).map (Toml.tableLines "methods") := by
    rw [List.map_map]
    exact List.map_congr_left fun entry _ => methodLines_eq entry
  rw [hlist, blocks, List.append_assoc, htypes, hmethods]

/-- The first block does not begin with a byte order mark. -/
theorem exists_blocks_eq (file : DeclarationFile) :
    ∃ c block others, file.blocks = (c :: block) :: others ∧ c.toNat ≠ 0xfeff := by
  obtain ⟨types, methods⟩ := file
  cases types with
  | nil => cases methods <;> exact ⟨'t', _, _, rfl, by decide⟩
  | cons entry types => cases methods with
    | nil => exact ⟨'m', _, _, rfl, by decide⟩
    | cons => exact ⟨'[', _, _, rfl, by decide⟩

private theorem reads_blocks (file : DeclarationFile) :
    Toml.Reads [] [] (file.blocks.flatMap ('\n' :: ·)) fun final =>
      (Toml.Draft.find? "types" final).map Toml.Draft.finish =
        some (.array ((file.types.map typeFields).map Toml.ofFields)) ∧
      (Toml.Draft.find? "methods" final).map Toml.Draft.finish =
        some (.array ((file.methods.map methodFields).map Toml.ofFields)) := by
  have htypes : Toml.IsBare "types" := isBare_of_mem _ (by simp)
  have hmethods : Toml.IsBare "methods" := isBare_of_mem _ (by simp)
  rw [blocks, List.flatMap_append, List.flatMap_append]
  refine reads_emptyBlock _ _ fun entries hbegun hbegun' => ?_
  refine .listing htypes (by rwa [List.isEmpty_map]) ?_ fun _ entries' hread hothers => ?_
  · exact List.forall_mem_map.mpr fun entry _ => typeFields_wellFormed entry
  rw [← List.append_nil (List.flatMap _ _)]
  refine .listing hmethods ?_ ?_ fun _ entries'' hread' hothers' => .nil ⟨?_, hread'⟩
  · rw [List.isEmpty_map, hothers _ (by decide)]
    exact hbegun'
  · exact List.forall_mem_map.mpr fun entry _ => methodFields_wellFormed entry
  · rw [hothers' _ (by decide), hread]

/-- A list of tables is read item by item. -/
theorem listOfToml?_map {α : Type} {read : Toml → Option α} {write : α → Toml}
    (h : ∀ item, read (write item) = some item) (items : List α) :
    listOfToml? read (some (.array (items.map write))) = some items := by
  have hread : (items.map write).mapM read = some items := by
    induction items with
    | nil => rfl
    | cons item items ih =>
      rw [List.map_cons, List.mapM_cons, h, ih]
      rfl
  exact hread

/-- **Signature files are read as they were written**, whatever texts they contain. -/
theorem parse?_write (file : DeclarationFile) : parse? file.write = some file := by
  obtain ⟨c, block, others, hblocks, hmark⟩ := file.exists_blocks_eq
  have htext : file.write = String.ofList (c :: block ++ others.flatMap ('\n' :: ·)) := by
    have hfirst := intercalate_cons '\n' (c :: block) others
    rw [List.flatMap_cons, List.cons_append] at hfirst
    rw [← (List.cons.inj hfirst).2, ← hblocks, ← toList_write, String.ofList_toList]
  have hreads := file.reads_blocks
  rw [hblocks, List.flatMap_cons] at hreads
  obtain ⟨final, ⟨htypes, hmethods⟩, hparse⟩ := Toml.parse?_of_reads hmark hreads
  rw [← Toml.Draft.lookup?_finishAll, List.map_map] at htypes hmethods
  have hparse' : Toml.parse? file.write = some (Toml.Draft.finishAll final) := by
    rw [htext]
    exact hparse
  have hreadTypes := listOfToml?_map typeOfToml?_ofFields file.types
  have hreadMethods := listOfToml?_map methodOfToml?_ofFields file.methods
  rw [parse?, hparse']
  simp only [Option.bind_eq_bind, Option.bind_some, htypes, hmethods]
  rw [← Function.comp_def] at hreadTypes hreadMethods
  rw [hreadTypes, hreadMethods]
  rfl

end DeclarationFile
end MockAudit
