import Mathlib.Data.List.Basic
import MockAudit.Configuration.File

/-!
# The search for a configuration

A configuration is looked for in a directory and in up to nine directories around it. A file that
cannot be read is as good as none. A file that can be read but is not in order is warned of, yet it
does not end the search: although the warning announces the defaults, a file further out may decide
instead. So what is found is the configuration of the innermost file that is in order, and the
innermost file of all decides only if it is in order itself, or if no file further out makes a
difference (`Configuration.find_value`, `Configuration.passed_over_for_outer_file`).

The search walks along a list of places and logs as it goes. Its value is first brought into the
form of `List.findSome?` over the places, and then over the texts that are found there; what is left
is a case split on the first of these texts.

## Main definitions

* `Path.above?`: the directory some steps above a directory.
* `Configuration.valid?`: the configuration in a text, if the text is in order.
* `Configuration.textsAround`: the configuration files that can be read, innermost first.

## Main results

* `Path.ancestors_eq`: the directories around a directory, by their distance.
* `Configuration.findAt_value`: the search among several places.
* `Configuration.find_value`: which file decides, and when it is the innermost.
-/

namespace MockAudit

namespace Path

/-- The directory so many steps above a directory, if there are so many. -/
def above? (path : String) : Nat → Option String
  | 0 => some path
  | steps + 1 => (parent? path).bind (above? · steps)

/-- The directories around a directory are those some steps above it, nearest first. -/
theorem ancestors_eq (path : String) (count : Nat) :
    ancestors path count = (List.range count).filterMap (above? path) := by
  induction count generalizing path with
  | zero => rfl
  | succ count ih =>
    have hfirst : above? path 0 = some path := rfl
    rw [List.range_succ_eq_map, List.filterMap_cons_some hfirst, List.filterMap_map, ancestors]
    refine congrArg (path :: ·) ?_
    cases hparent : parent? path with
    | some parent =>
      have habove : above? path ∘ Nat.succ = above? parent := by
        funext steps
        rw [Function.comp_apply, above?, hparent, Option.bind_some]
      rw [habove]
      exact ih parent
    | none =>
      refine (List.filterMap_eq_nil_iff.mpr fun steps _ => ?_).symm
      rw [Function.comp_apply, above?, hparent, Option.bind_none]

end Path

namespace Configuration

/-- The configuration in a text, with the settings that others imply, if the text is in order. -/
def valid? (text : String) : Option Configuration :=
  (((Toml.parse? text).bind ofEntries?).map normalize).filter (·.filter?.isSome)

/-- A text is read as the configuration in it. -/
theorem parse_value (text : String) : (parse text).value.toOption = valid? text := by
  rw [parse, valid?]
  cases (Toml.parse? text).bind ofEntries? with
  | none => rfl
  | some c =>
    rw [Option.map_some]
    cases hfilter : c.normalize.filter? with
    | none =>
      rw [Option.filter_some_neg (by rw [hfilter]; rfl)]
      simp only [hfilter]
      rfl
    | some filter =>
      rw [Option.filter_some_pos (by rw [hfilter]; rfl)]
      simp only [hfilter, Option.isNone_some, Bool.false_eq_true, if_false]
      split_ifs <;> rfl

/-- A file is tried by reading what is in it. -/
theorem tryLoad_value (files : Files) (path : String) :
    (tryLoad files path).value = (files.read path).toOption.bind valid? := by
  rw [tryLoad]
  cases hread : files.read path with
  | error fault => cases fault <;> rfl
  | ok text =>
    have hparse : (Except.ok text : Except FileFault String).toOption.bind valid? =
        (parse text).value.toOption := (parse_value text).symm
    rw [hparse, Logged.value_bind]
    cases (parse text).value <;> rfl

/-- Places are tried one after the other up to the first with a file that is in order. -/
theorem findAt_value (files : Files) (paths : List String) :
    (findAt files paths).value =
      paths.findSome? fun path => (files.read path).toOption.bind valid? := by
  induction paths with
  | nil => rfl
  | cons path others ih =>
    rw [findAt, Logged.value_bind, tryLoad_value, List.findSome?_cons]
    cases (files.read path).toOption.bind valid? with
    | some c => rfl
    | none => exact ih

/-- The text of the configuration file so many steps above a directory, if it can be read. -/
def textAt? (files : Files) (start : String) (steps : Nat) : Option String :=
  (Path.above? start steps).bind fun directory =>
    (files.read (Path.join directory fileName)).toOption

/-- The texts of the configuration files that can be read, in a directory and in those around it as
far as they are searched, innermost first. -/
def textsAround (files : Files) (start : String) : List String :=
  (List.range maxDirectories).filterMap (textAt? files start)

/-- The places of the search hold these texts and no others. -/
theorem findSome?_candidates (files : Files) (start : String) :
    ((candidates start).findSome? fun path => (files.read path).toOption.bind valid?) =
      (textsAround files start).findSome? valid? := by
  have htext (steps : Nat) : (textAt? files start steps).bind valid? =
      (Path.above? start steps).bind fun directory =>
        (files.read (Path.join directory fileName)).toOption.bind valid? := by
    rw [textAt?, Option.bind_assoc]
  rw [candidates, Path.ancestors_eq, textsAround, ← List.head?_filterMap, ← List.head?_filterMap,
    List.filterMap_map, List.filterMap_filterMap, List.filterMap_filterMap]
  exact congrArg List.head? (List.filterMap_congr fun steps _ => (htext steps).symm)

/-- **The innermost file that is in order decides.** Among the configuration files in a directory
and in at most nine directories around it, files that cannot be read and files that are not in order
are passed over; without a file that is in order, the defaults hold. So it is the innermost file of
all that decides, by its configuration or, if it is not in order, by the defaults, exactly if it is
in order, or no file further out is, or the first of these gives the defaults. -/
theorem find_value (files : Files) (start : String) :
    (find files start).value = ((textsAround files start).findSome? valid?).getD {} ∧
      ((find files start).value = ((textsAround files start).head?.bind valid?).getD {} ↔
        ∀ text others c, textsAround files start = text :: others → valid? text = none →
          others.findSome? valid? = some c → c = {}) := by
  have hfind : (find files start).value = ((textsAround files start).findSome? valid?).getD {} := by
    rw [find, Logged.value_bind, findAt_value, findSome?_candidates]
    generalize (textsAround files start).findSome? valid? = found
    cases found <;> rfl
  refine ⟨hfind, ?_⟩
  rw [hfind]
  cases textsAround files start with
  | nil => exact iff_of_true rfl fun _ _ _ htexts => nomatch htexts
  | cons text others =>
    rw [List.findSome?_cons, List.head?_cons, Option.bind_some]
    cases hvalid : valid? text with
    | some c =>
      refine iff_of_true rfl fun text' others' c' htexts hnone => ?_
      obtain rfl : text = text' := (List.cons.inj htexts).1
      cases hvalid.symm.trans hnone
    | none =>
      constructor
      · intro hdefaults text' others' c htexts _ hfound
        rw [← (List.cons.inj htexts).2] at hfound
        rw [hfound] at hdefaults
        exact hdefaults
      · intro h
        cases hfound : others.findSome? valid? with
        | some c => exact h text others c rfl hvalid hfound
        | none => rfl

/-! ### A file in the way -/

/-- A configuration file that names a checker there is not, in front of one that is in order. -/
def misnamed : Files :=
  (FileTree.ofList [("app/.doublecheck.toml", "type_check = \"steep\"\n"),
    (".doublecheck.toml", "debug = true\n")]).view

/-- Of the inner file it is said that the defaults are used instead, but it is passed over: the
outer one decides, and not the defaults. -/
theorem passed_over_for_outer_file :
    textsAround misnamed "app" = ["type_check = \"steep\"\n", "debug = true\n"] ∧
      (valid? "type_check = \"steep\"\n").isSome = false ∧
      (∃ line, (find misnamed "app").lines.head? = some line ∧ ∀ words, line.textCiting words =
        "[DOUBLECHECK WARN] Failed to parse .doublecheck.toml: " ++ words ++ ". Using defaults.") ∧
      (find misnamed "app").value = { debug := true } ∧
      (find misnamed "app").value ≠ {} := by
  have hfound : (find misnamed "app").value = { debug := true } := by decide +kernel
  have hline : (find misnamed "app").lines.head? = some (refusalLine .unreadable) := by
    decide +kernel
  have htext : (refusalLine .unreadable).text =
      "[DOUBLECHECK WARN] Failed to parse .doublecheck.toml: " := by
    decide +kernel
  refine ⟨by decide +kernel, by decide +kernel, ⟨_, hline, fun words => ?_⟩, hfound, ?_⟩
  · rw [LogLine.textCiting, htext, refusalLine]
  · rw [hfound]
    decide

end Configuration

end MockAudit
