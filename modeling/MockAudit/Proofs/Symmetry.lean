import MockAudit.Proofs.ValueEquality
import Mathlib.Data.List.Perm.Subperm
import Mathlib.Data.List.Pairwise
import Mathlib.Order.MinMax

/-!
# Where equality of values is symmetric

The comparison of maps looks for each entry of the first map in the second, and trusts the sizes for
the other direction. So it goes wrong where two entries of the first map equal one and the same
entry of the second: then another entry of the second is overlooked. The two may be one entry
repeated, or the keys may be different integers that equal one floating-point number.

A value without two such entries in any of its maps is *unambiguous*. If it equals another value,
each entry of the one is paired with an entry of its own in the other, and since the sizes agree,
none is left over: so the other equals it as well. On the other hand, an ambiguous value equals a
value that does not equal it, unless it equals nothing at all. To find that value, the first of the
two entries is replaced by what both equal, and the second by one that is nested more deeply than
anything in the value: equality never goes from a deeper value to a shallower one.

## Main definitions

* `Value.IsUnambiguous`: no two entries of a map in the value equal a common entry.
* `Value.depth`: how deeply collections are nested in a value.

## Main results

* `exists_subperm_forall₂`: different members have different counterparts.
* `Value.beq_symm_of_isUnambiguous`: equality with an unambiguous value is symmetric.
* `Value.depth_le_of_beq`: a value is not nested more deeply than what it equals.
* `Value.beq_symm_iff`: for which values equality is symmetric.
-/

namespace MockAudit

/-! ### Pairing members with counterparts -/

section

variable {α β : Type} {R : α → β → Prop} {as : List α} {bs : List β}

/-- If each member of a list has a counterpart in another list, and no two have the same one, then
the members are related one by one to different places of the other list. -/
theorem exists_subperm_forall₂ (hcovered : ∀ a ∈ as, ∃ b ∈ bs, R a b)
    (hapart : as.Pairwise fun a a' => ∀ b ∈ bs, R a b → ¬R a' b) :
    ∃ bs', List.Forall₂ R as bs' ∧ bs'.Subperm bs := by
  induction as generalizing bs with
  | nil => exact ⟨[], .nil, List.nil_subperm⟩
  | cons a as ih =>
    obtain ⟨hhead, hrest⟩ := List.pairwise_cons.mp hapart
    obtain ⟨b, hb, hab⟩ := hcovered a (List.mem_cons_self ..)
    obtain ⟨front, back, rfl⟩ := List.append_of_mem hb
    have hsubset : front ++ back ⊆ front ++ b :: back :=
      List.append_subset.mpr ⟨List.subset_append_left .., fun b' hb' =>
        List.mem_append_right _ (List.mem_cons_of_mem _ hb')⟩
    -- `b` is taken, and the others find their counterparts in what is left
    have hleft : ∀ a' ∈ as, ∃ b' ∈ front ++ back, R a' b' := by
      intro a' ha'
      obtain ⟨b', hb', hab'⟩ := hcovered a' (List.mem_cons_of_mem _ ha')
      have hne : b' ≠ b := by
        rintro rfl
        exact hhead a' ha' b' hb hab hab'
      exact ⟨b', by simpa [hne] using hb', hab'⟩
    obtain ⟨bs', hpairs, hsub⟩ := ih hleft
      (hrest.imp fun h b' hb' => h b' (hsubset hb'))
    exact ⟨b :: bs', .cons hab hpairs,
      ((List.subperm_cons b).mpr hsub).trans List.perm_middle.symm.subperm⟩

/-- If, besides, the other list is not longer, then all of its members are counterparts. -/
theorem exists_mem_of_covered (hcovered : ∀ a ∈ as, ∃ b ∈ bs, R a b)
    (hapart : as.Pairwise fun a a' => ∀ b ∈ bs, R a b → ¬R a' b) (hlength : bs.length ≤ as.length)
    {b : β} (hb : b ∈ bs) : ∃ a ∈ as, R a b := by
  obtain ⟨bs', hpairs, hsub⟩ := exists_subperm_forall₂ hcovered hapart
  have hperm : bs'.Perm bs := hsub.perm_of_length_le (hpairs.length_eq ▸ hlength)
  have hflipped : List.Forall₂ (flip R) bs' as := List.Forall₂.flip hpairs
  exact exists_mem_of_forall₂ hflipped (hperm.mem_iff.mpr hb)

end

namespace Value

/-! ### Symmetry, from members to collections -/

/-- Scalars are compared in the same way in both directions. -/
theorem beq_symm_of_isScalar {a b : Value} (ha : a.isScalar = true) (h : a == b) : b == a := by
  cases a <;> cases b <;> simp_all [isScalar, beq_def, equal, Binary64.equal_comm]

/-- If equality is symmetric for the items of two arrays, it is so for the arrays. -/
theorem beq_symm_array {as bs : List Value} (hitems : ∀ a ∈ as, ∀ b ∈ bs, a == b → b == a)
    (h : array as == array bs) : array bs == array as := by
  obtain ⟨_, ⟨⟩, hequal⟩ := array_beq_iff.mp h
  refine array_beq_iff.mpr ⟨as, rfl, List.Forall₂.flip ?_⟩
  rw [List.forall₂_iff_get] at hequal ⊢
  exact ⟨hequal.1, fun i ha hb => hitems _ (List.get_mem ..) _ (List.get_mem ..) (hequal.2 i ha hb)⟩

/-- If equality is symmetric for the entries of two maps, and no two entries of the first equal the
same entry of the second, then it is symmetric for the maps. -/
theorem beq_symm_map {as bs : List (Value × Value)}
    (hentries : ∀ e ∈ as, ∀ f ∈ bs, Matches e f → Matches f e)
    (hapart : as.Pairwise fun e e' => ∀ f ∈ bs, Matches e f → ¬Matches e' f)
    (h : map as == map bs) : map bs == map as := by
  obtain ⟨_, ⟨⟩, hlength, hcovered⟩ := map_beq_iff.mp h
  refine map_beq_iff.mpr ⟨as, rfl, hlength.symm, fun f hf => ?_⟩
  obtain ⟨e, he, hef⟩ := exists_mem_of_covered hcovered hapart hlength.ge hf
  exact ⟨e, he, hentries e he f hf hef⟩

/-- In no map that occurs in the value do two entries equal a common entry. -/
def IsUnambiguous (v : Value) : Prop :=
  ∀ entries, (map entries).IsPartOf v →
    entries.Pairwise fun e e' => ∀ f, Matches e f → ¬Matches e' f

/-- What an unambiguous value equals, equals it. -/
theorem beq_symm_of_isUnambiguous {a b : Value} (ha : a.IsUnambiguous) (h : a == b) : b == a := by
  induction a using Value.induction generalizing b with
  | array as ih =>
    obtain ⟨bs, rfl, -⟩ := array_beq_iff.mp h
    refine beq_symm_array (fun a hmem b _ hab => ?_) h
    exact ih a hmem (fun entries hpart => ha entries (hpart.item hmem)) hab
  | map as ih =>
    obtain ⟨bs, rfl, -⟩ := map_beq_iff.mp h
    refine beq_symm_map (fun e he f _ hef => ⟨?_, ?_⟩)
      ((ha as .itself).imp fun h f _ => h f) h
    · exact (ih e he).1 (fun entries hpart => ha entries (hpart.key he)) hef.1
    · exact (ih e he).2 (fun entries hpart => ha entries (hpart.value he)) hef.2
  | _ => exact beq_symm_of_isScalar rfl h

/-! ### Depth -/

mutual

/-- How deeply collections are nested in a value. -/
def depth : Value → Nat
  | array items => depthOfItems items + 1
  | map entries => depthOfEntries entries + 1
  | _ => 0

/-- The greatest depth in a list of values. -/
def depthOfItems : List Value → Nat
  | [] => 0
  | v :: vs => max v.depth (depthOfItems vs)

/-- The greatest depth among the keys and values of a list of entries. -/
def depthOfEntries : List (Value × Value) → Nat
  | [] => 0
  | (k, v) :: rest => max (max k.depth v.depth) (depthOfEntries rest)

end

theorem depthOfItems_le_iff {items : List Value} {n : Nat} :
    depthOfItems items ≤ n ↔ ∀ v ∈ items, v.depth ≤ n := by
  induction items with
  | nil => simp [depthOfItems]
  | cons v vs ih => rw [depthOfItems, max_le_iff, ih, List.forall_mem_cons]

theorem depthOfEntries_le_iff {entries : List (Value × Value)} {n : Nat} :
    depthOfEntries entries ≤ n ↔ ∀ e ∈ entries, e.1.depth ≤ n ∧ e.2.depth ≤ n := by
  induction entries with
  | nil => simp [depthOfEntries]
  | cons e rest ih => rw [depthOfEntries, max_le_iff, max_le_iff, ih, List.forall_mem_cons]

private theorem depth_item_lt {items : List Value} {v : Value} (hv : v ∈ items) :
    v.depth < (array items).depth := by
  rw [depth]
  exact Nat.lt_succ_of_le (depthOfItems_le_iff.mp le_rfl v hv)

private theorem depth_entry_lt {entries : List (Value × Value)} {e : Value × Value}
    (he : e ∈ entries) : e.1.depth < (map entries).depth ∧ e.2.depth < (map entries).depth := by
  rw [depth]
  have h := depthOfEntries_le_iff.mp le_rfl e he
  exact ⟨Nat.lt_succ_of_le h.1, Nat.lt_succ_of_le h.2⟩

/-- What occurs in a value is not nested more deeply than the value. -/
theorem IsPartOf.depth_le {u v : Value} (h : u.IsPartOf v) : u.depth ≤ v.depth := by
  induction h with
  | itself => exact le_rfl
  | item _ hv ih => exact ih.trans (depth_item_lt hv).le
  | key _ he ih => exact ih.trans (depth_entry_lt he).1.le
  | value _ he ih => exact ih.trans (depth_entry_lt he).2.le

/-- A value is not nested more deeply than what it equals. -/
theorem depth_le_of_beq {a b : Value} (h : a == b) : a.depth ≤ b.depth := by
  induction a using Value.induction generalizing b with
  | array as ih =>
    obtain ⟨bs, rfl, hitems⟩ := array_beq_iff.mp h
    have hbound : ∀ a ∈ as, a.depth ≤ depthOfItems bs := by
      intro a ha
      obtain ⟨b, hb, hab⟩ := exists_mem_of_forall₂ hitems ha
      exact (ih a ha hab).trans (depthOfItems_le_iff.mp le_rfl b hb)
    rw [depth, depth]
    exact Nat.succ_le_succ (depthOfItems_le_iff.mpr hbound)
  | map as ih =>
    obtain ⟨bs, rfl, -, hcovered⟩ := map_beq_iff.mp h
    have hbound : ∀ e ∈ as, e.1.depth ≤ depthOfEntries bs ∧ e.2.depth ≤ depthOfEntries bs := by
      intro e he
      obtain ⟨f, hf, hef⟩ := hcovered e he
      have hdepth := depthOfEntries_le_iff.mp le_rfl f hf
      exact ⟨((ih e he).1 hef.1).trans hdepth.1, ((ih e he).2 hef.2).trans hdepth.2⟩
    rw [depth, depth]
    exact Nat.succ_le_succ (depthOfEntries_le_iff.mpr hbound)
  | _ => exact Nat.zero_le _

/-- There are values of every depth. -/
theorem exists_depth_eq (n : Nat) : ∃ v : Value, v.depth = n := by
  induction n with
  | zero => exact ⟨nil, rfl⟩
  | succ n ih =>
    obtain ⟨v, rfl⟩ := ih
    exact ⟨array [v], by rw [depth, depthOfItems, depthOfItems, Nat.max_zero]⟩

/-! ### One-sided equality -/

theorem matches_self {entries : List (Value × Value)} {e : Value × Value}
    (hnan : ¬(float .nan).IsPartOf (map entries)) (he : e ∈ entries) : Matches e e :=
  ⟨beq_self fun h => hnan (h.key he), beq_self fun h => hnan (h.value he)⟩

/-- An item of an array may be replaced by what it equals. -/
theorem array_beq_replace {front back : List Value} {v v' : Value}
    (hnan : ¬(float .nan).IsPartOf (array (front ++ v :: back))) (h : v == v') :
    array (front ++ v :: back) == array (front ++ v' :: back) := by
  have hself (x : Value) (hx : x ∈ front ++ v :: back) : x == x :=
    beq_self fun hpart => hnan (hpart.item hx)
  have hfront : List.Forall₂ (fun a b => a == b) front front :=
    List.forall₂_same.mpr fun x hx => hself x (List.mem_append_left _ hx)
  have hback : List.Forall₂ (fun a b => a == b) back back :=
    List.forall₂_same.mpr fun x hx => hself x (by simp [hx])
  exact array_beq_iff.mpr ⟨_, rfl, List.rel_append hfront (.cons h hback)⟩

/-- An entry of a map may be replaced by what it equals. -/
theorem map_beq_replace {front back : List (Value × Value)} {e f : Value × Value}
    (hnan : ¬(float .nan).IsPartOf (map (front ++ e :: back))) (h : Matches e f) :
    map (front ++ e :: back) == map (front ++ f :: back) := by
  refine map_beq_iff.mpr ⟨_, rfl, by simp, fun x hx => ?_⟩
  have hself : Matches x x := matches_self hnan hx
  rcases List.mem_append.mp hx with hx | hx
  · exact ⟨x, List.mem_append_left _ hx, hself⟩
  · rcases List.mem_cons.mp hx with rfl | hx
    · exact ⟨f, by simp, h⟩
    · exact ⟨x, by simp [hx], hself⟩

/-- A part of a value may be replaced by what it equals. -/
theorem IsPartOf.exists_beq {u u' v : Value} (hpart : u.IsPartOf v)
    (hnan : ¬(float .nan).IsPartOf v) (h : u == u') : ∃ v', v == v' ∧ u'.IsPartOf v' := by
  induction hpart with
  | itself => exact ⟨u', h, .itself⟩
  | item _ hv ih =>
    obtain ⟨v', hequal, hpart⟩ := ih fun hpart => hnan (hpart.item hv)
    obtain ⟨front, back, rfl⟩ := List.append_of_mem hv
    exact ⟨_, array_beq_replace hnan hequal, hpart.item (by simp)⟩
  | @key e _ _ he ih =>
    obtain ⟨k', hequal, hpart⟩ := ih fun hpart => hnan (hpart.key he)
    have hmatches : Matches e (k', e.2) := ⟨hequal, (matches_self hnan he).2⟩
    obtain ⟨front, back, rfl⟩ := List.append_of_mem he
    exact ⟨_, map_beq_replace hnan hmatches, IsPartOf.key (e := (k', e.2)) hpart (by simp)⟩
  | @value e _ _ he ih =>
    obtain ⟨v', hequal, hpart⟩ := ih fun hpart => hnan (hpart.value he)
    have hmatches : Matches e (e.1, v') := ⟨(matches_self hnan he).1, hequal⟩
    obtain ⟨front, back, rfl⟩ := List.append_of_mem he
    exact ⟨_, map_beq_replace hnan hmatches, IsPartOf.value (e := (e.1, v')) hpart (by simp)⟩

/-- If two entries of a map equal a common entry, the map equals maps of any depth. -/
theorem exists_beq_of_not_pairwise {entries : List (Value × Value)}
    (hnan : ¬(float .nan).IsPartOf (map entries))
    (hnot : ¬entries.Pairwise fun e e' => ∀ f, Matches e f → ¬Matches e' f) (n : Nat) :
    ∃ w, map entries == w ∧ n < w.depth := by
  simp only [List.pairwise_iff_forall_sublist, not_forall, not_not] at hnot
  obtain ⟨e, e', hsublist, f, hf, hf'⟩ := hnot
  obtain ⟨first, second, rfl, he, hsingle⟩ := List.cons_sublist_iff.mp hsublist
  obtain ⟨front, middle, rfl⟩ := List.append_of_mem he
  obtain ⟨middle', back, rfl⟩ := List.append_of_mem (List.singleton_sublist.mp hsingle)
  obtain ⟨deep, hdeep⟩ := exists_depth_eq n
  refine ⟨map ((front ++ f :: middle) ++ (middle' ++ (deep, nil) :: back)),
    map_beq_iff.mpr ⟨_, rfl, by simp, fun x hx => ?_⟩, ?_⟩
  · have hself : Matches x x := matches_self hnan hx
    -- both entries are found at the place of the first, and every other entry at its own
    by_cases hxe : x = e
    · exact ⟨f, by simp, hxe ▸ hf⟩
    by_cases hxe' : x = e'
    · exact ⟨f, by simp, hxe' ▸ hf'⟩
    · have hother : x ∈ front ∨ x ∈ middle ∨ x ∈ middle' ∨ x ∈ back := by
        simpa [hxe, hxe'] using hx
      exact ⟨x, by simp; tauto, hself⟩
  · rw [← hdeep]
    exact (depth_entry_lt (e := (deep, nil)) (by simp)).1

/-- An ambiguous value without undefined numbers equals a value that is nested more deeply. -/
theorem exists_beq_deeper {a : Value} (hnan : ¬(float .nan).IsPartOf a)
    (hambiguous : ¬a.IsUnambiguous) : ∃ b, a == b ∧ a.depth < b.depth := by
  rw [IsUnambiguous, not_forall] at hambiguous
  obtain ⟨entries, hambiguous⟩ := hambiguous
  obtain ⟨hpart, hnot⟩ := Classical.not_imp.mp hambiguous
  obtain ⟨w, hequal, hdepth⟩ :=
    exists_beq_of_not_pairwise (fun h => hnan (h.trans hpart)) hnot a.depth
  obtain ⟨b, hab, hw⟩ := hpart.exists_beq hnan hequal
  exact ⟨b, hab, hdepth.trans_le hw.depth_le⟩

/-- **Symmetry of equality.** All that a value equals also equals the value if and only if the value
is unambiguous, or holds an undefined number and therefore equals nothing. -/
theorem beq_symm_iff (a : Value) :
    (∀ b : Value, a == b → b == a) ↔ (float .nan).IsPartOf a ∨ a.IsUnambiguous := by
  constructor
  · intro hsymm
    by_contra hneither
    obtain ⟨hnan, hambiguous⟩ := not_or.mp hneither
    obtain ⟨b, hab, hdepth⟩ := exists_beq_deeper hnan hambiguous
    exact (depth_le_of_beq (hsymm b hab)).not_gt hdepth
  · rintro (hnan | hunambiguous) b hab
    · exact absurd hab (ne_of_nan_isPartOf hnan)
    · exact beq_symm_of_isUnambiguous hunambiguous hab

/-- A map with a repeated entry equals a map of the same size with another entry, and the latter
does not equal the former; and the same holds of two integers and a floating-point number near both.
-/
theorem one_sided_equality :
    let twice := map [(int 1, str "x"), (int 1, str "x")]
    let both := map [(int 1, str "x"), (int 2, str "y")]
    let neighbours := map [(int 9007199254740992, nil), (int 9007199254740993, nil)]
    let rounded := map [(float (.ofInt 9007199254740992), nil), (int 7, nil)]
    (twice == both) = true ∧ (both == twice) = false ∧
      (neighbours == rounded) = true ∧ (rounded == neighbours) = false := by
  decide

end Value

end MockAudit
