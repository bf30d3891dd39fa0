import MockAudit.Proofs.Verdicts

/-!
# Grouping in the order of first occurrence

Many lists are built member by member: each member joins the group of its key, and if there is none
yet, it opens one at the end. What comes out is the *grouping* of the members by their keys
(`groupsBy`): one group for each key, in the order in which the keys first occur, with its members
in their order.

## Main definitions

* `groupsBy`: the members of a list, collected by a key.
* `changeOrAdd`: the first member with a property changed, or a new one added.

## Main results

* `groupsBy_concat`: a further member joins the group of its key, or opens it.
* `find?_groupsBy`: how a group is found.
-/

namespace MockAudit

/-- Changes the first member with a property, or adds one at the end if there is none. -/
def changeOrAdd {γ : Type} (p : γ → Prop) [DecidablePred p] (change : γ → γ) (fresh : γ) :
    List γ → List γ
  | [] => [fresh]
  | g :: gs => if p g then change g :: gs else g :: changeOrAdd p change fresh gs

/-- The members of a list by their keys, in the order in which the keys first occur; `make` forms
the group of a key and its members. -/
def groupsBy {α κ γ : Type} [DecidableEq κ] (key : α → κ) (make : κ → List α → γ) (as : List α) :
    List γ :=
  (as.map key).eraseDups.map fun k => make k (as.filter (key · == k))

section

variable {α κ γ : Type}

section

variable {p : γ → Prop} [DecidablePred p] {change : γ → γ} {fresh : γ}

/-- Members without the property are passed over. -/
theorem changeOrAdd_append {gs : List γ} (h : ∀ g ∈ gs, ¬p g) (gs' : List γ) :
    changeOrAdd p change fresh (gs ++ gs') = gs ++ changeOrAdd p change fresh gs' := by
  induction gs with
  | nil => rfl
  | cons g gs ih =>
    obtain ⟨hg, hgs⟩ := List.forall_mem_cons.mp h
    rw [List.cons_append, changeOrAdd, if_neg hg, ih hgs, List.cons_append]

theorem changeOrAdd_of_forall_not {gs : List γ} (h : ∀ g ∈ gs, ¬p g) :
    changeOrAdd p change fresh gs = gs ++ [fresh] := by
  have happend : changeOrAdd p change fresh (gs ++ []) = gs ++ changeOrAdd p change fresh [] :=
    changeOrAdd_append h []
  rwa [List.append_nil] at happend

/-- Among groups with distinct keys, that of a key is changed. -/
theorem changeOrAdd_map {g : κ → γ} {k : κ} (hp : ∀ k', p (g k') ↔ k' = k) {ks : List κ}
    (hks : ks.Nodup) (hk : k ∈ ks) {g' : κ → γ} (hchange : g' k = change (g k))
    (hkeep : ∀ k' ≠ k, g' k' = g k') :
    changeOrAdd p change fresh (ks.map g) = ks.map g' := by
  induction ks with
  | nil => cases hk
  | cons first ks ih =>
    obtain ⟨hfirst, hks⟩ := List.nodup_cons.mp hks
    rw [List.map_cons, List.map_cons, changeOrAdd]
    by_cases hkey : first = k
    · have hrest : ∀ k' ∈ ks, g' k' = g k' := fun k' hk' => hkeep k' fun heq =>
        hfirst (by rwa [hkey, ← heq])
      rw [if_pos ((hp first).mpr hkey), hkey, hchange, List.map_congr_left hrest]
    · rw [if_neg (mt (hp first).mp hkey), hkeep first hkey,
        ih hks ((List.mem_cons.mp hk).resolve_left (Ne.symm hkey))]

/-- What the members contain grows by what the changed or the added one contains in addition. -/
theorem perm_flatMap_changeOrAdd (content : γ → List α) {a : α} {gs : List γ}
    (hchange : ∀ g ∈ gs, (content (change g)).Perm (content g ++ [a]))
    (hfresh : content fresh = [a]) :
    ((changeOrAdd p change fresh gs).flatMap content).Perm (gs.flatMap content ++ [a]) := by
  induction gs with
  | nil => simp [changeOrAdd, hfresh]
  | cons g gs ih =>
    obtain ⟨hg, hgs⟩ := List.forall_mem_cons.mp hchange
    rw [changeOrAdd]
    split_ifs
    · have hswap : ([a] ++ gs.flatMap content).Perm (gs.flatMap content ++ [a]) :=
        List.perm_append_comm
      have hlast := hswap.append_left (content g)
      rw [← List.append_assoc, ← List.append_assoc] at hlast
      rw [List.flatMap_cons, List.flatMap_cons]
      exact (hg.append_right _).trans hlast
    · rw [List.flatMap_cons, List.flatMap_cons, List.append_assoc]
      exact (ih hgs).append_left _

end

variable [DecidableEq κ]

/-- A further member is another key if it has not occurred before. -/
theorem eraseDups_concat (ks : List κ) (k : κ) :
    (ks ++ [k]).eraseDups = if k ∈ ks then ks.eraseDups else ks.eraseDups ++ [k] := by
  rw [List.eraseDups_append]
  split_ifs with hk
  · simp [List.removeAll, hk]
  · simp [List.removeAll, hk, List.eraseDups_cons]

private theorem filter_concat_of_ne (key : α → κ) (as : List α) {a : α} {k : κ} (h : k ≠ key a) :
    (as ++ [a]).filter (key · == k) = as.filter (key · == k) := by
  simp [List.filter_append, Ne.symm h]

private theorem filter_concat_self (key : α → κ) (as : List α) (a : α) :
    (as ++ [a]).filter (key · == key a) = as.filter (key · == key a) ++ [a] := by
  simp [List.filter_append]

/-- **A further member** joins the group of its key, or opens it. -/
theorem groupsBy_concat (key : α → κ) (make : κ → List α → γ) (as : List α) (a : α) {p : γ → Prop}
    [DecidablePred p] {change : γ → γ} (hp : ∀ k as, p (make k as) ↔ k = key a)
    (hchange : ∀ as, change (make (key a) as) = make (key a) (as ++ [a])) :
    groupsBy key make (as ++ [a]) =
      changeOrAdd p change (make (key a) [a]) (groupsBy key make as) := by
  rw [groupsBy, List.map_append, List.map_singleton, eraseDups_concat]
  have hother (k : κ) (hk : k ≠ key a) : make k ((as ++ [a]).filter (key · == k)) =
      make k (as.filter (key · == k)) := by
    rw [filter_concat_of_ne key as hk]
  split_ifs with hmem
  · refine (changeOrAdd_map (fun k => hp k _) ?_ (List.mem_eraseDups.mpr hmem) ?_ hother).symm
    · exact (firstOccurrences_eraseDups _).nodup
    · rw [filter_concat_self, hchange]
  · have hnew : as.filter (key · == key a) = [] := by
      rw [List.filter_eq_nil_iff]
      intro b hb hkey
      exact hmem (eq_of_beq hkey ▸ List.mem_map_of_mem hb)
    rw [groupsBy, changeOrAdd_of_forall_not, List.map_append, List.map_singleton,
      filter_concat_self, hnew, List.nil_append]
    · refine congrArg (· ++ _) (List.map_congr_left fun k hk => hother k ?_)
      rintro rfl
      exact hmem (List.mem_eraseDups.mp hk)
    · intro g hg hpg
      obtain ⟨k, hk, rfl⟩ := List.mem_map.mp hg
      rw [(hp k _).mp hpg] at hk
      exact hmem (List.mem_eraseDups.mp hk)

/-- The group of a key that occurs is found, and no other is. -/
theorem find?_groupsBy (key : α → κ) (make : κ → List α → γ) (name : γ → κ)
    (hname : ∀ k as, name (make k as) = k) (as : List α) (k : κ) :
    (groupsBy key make as).find? (name · == k) =
      if k ∈ as.map key then some (make k (as.filter (key · == k))) else none := by
  have hnamed : (name · == k) ∘ (fun k => make k (as.filter (key · == k))) = (· == k) := by
    funext k'
    simp [hname]
  rw [groupsBy, List.find?_map, hnamed]
  split_ifs with hmem
  · cases hfind : (as.map key).eraseDups.find? (· == k) with
    | none => simpa using List.find?_eq_none.mp hfind k (List.mem_eraseDups.mpr hmem)
    | some k' =>
      have hkey : (k' == k) = true := List.find?_some (p := (· == k)) hfind
      rw [Option.map_some, eq_of_beq hkey]
  · rw [Option.map_eq_none_iff, List.find?_eq_none]
    rintro k' hk' hkey
    exact hmem (eq_of_beq hkey ▸ List.mem_eraseDups.mp hk')

theorem map_groupsBy {δ : Type} (key : α → κ) (make : κ → List α → γ) (f : γ → δ) (as : List α) :
    (groupsBy key make as).map f = groupsBy key (fun k as => f (make k as)) as := by
  rw [groupsBy, List.map_map]
  rfl

theorem groupsBy_map {β : Type} (f : β → α) (key : α → κ) (make : κ → List α → γ) (bs : List β) :
    groupsBy key make (bs.map f) =
      groupsBy (fun b => key (f b)) (fun k bs => make k (bs.map f)) bs := by
  rw [groupsBy, List.map_map]
  simp only [List.filter_map]
  rfl

end

end MockAudit
