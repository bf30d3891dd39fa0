import MockAudit.Proofs.Symmetry

/-!
# Maps as finite functions

A value is *well keyed* if it holds no floating-point number, and no map that occurs in it has two
equal keys. On such values equality is an equivalence (`Value.beq_self`,
`Value.IsWellKeyed.beq_symm`, `Value.IsFloatFree.beq_trans`), and a map is determined by what is
found under its keys: two maps are equal if and only if every key finds equal values in both, or
nothing in either (`Value.map_beq_extensional`).

Keys are values themselves, so the laws are shown together, from the members of collections to the
collections. That two keys are different, and stay so when they are compared with a third one, needs
symmetry and transitivity for keys; and this in turn makes the comparison of maps symmetric. Where
floating-point numbers occur, two different integers may equal the same number, and none of this
holds.

## Main definitions

* `Value.IsFloatFree`: no floating-point number occurs in the value.
* `Value.IsWellKeyed`: besides, the keys of each map are different.
* `Value.Agree`: two lists of entries have equal values under all keys.

## Main results

* `Value.IsFloatFree.beq_trans`, `Value.IsWellKeyed.beq_symm`: equality is an equivalence.
* `Value.lookup?_eq_some`: every key of a map finds its own value.
* `Value.map_beq_iff_agree`: maps are equal if they agree.
* `Value.map_beq_extensional`: equality of maps is that of finite functions.
-/

namespace MockAudit

namespace Value

/-! ### Well-keyed values -/

/-- No floating-point number occurs in the value. -/
def IsFloatFree (v : Value) : Prop :=
  ∀ x, ¬(float x).IsPartOf v

/-- No floating-point number occurs in the value, and no map in it has two equal keys. -/
structure IsWellKeyed (v : Value) : Prop where
  isFloatFree : v.IsFloatFree
  distinctKeys : ∀ entries, (map entries).IsPartOf v →
    entries.Pairwise fun e e' => ¬e.1 == e'.1

theorem IsFloatFree.part {u v : Value} (h : v.IsFloatFree) (hpart : u.IsPartOf v) :
    u.IsFloatFree :=
  fun x hx => h x (hx.trans hpart)

theorem IsWellKeyed.part {u v : Value} (h : v.IsWellKeyed) (hpart : u.IsPartOf v) :
    u.IsWellKeyed :=
  ⟨h.isFloatFree.part hpart, fun entries hentries => h.distinctKeys entries (hentries.trans hpart)⟩

theorem IsWellKeyed.beq_self {v : Value} (h : v.IsWellKeyed) : v == v :=
  Value.beq_self (h.isFloatFree .nan)

/-! ### Transitivity -/

/-- Equal scalars are the same, or have the same identity, if they are no floating-point numbers. -/
theorem cases_of_isScalar {a b : Value} (hscalar : a.isScalar = true) (ha : a.IsFloatFree)
    (hb : b.IsFloatFree) (h : a == b) :
    a = b ∨ (∃ identity t t', a = object identity t ∧ b = object identity t') ∨
      ∃ d d' : TestDouble, a = double d ∧ b = double d' ∧ d.identity = d'.identity := by
  have hafloat : ∀ x, a ≠ float x := fun x hx => ha x (hx ▸ .itself)
  have hbfloat : ∀ x, b ≠ float x := fun x hx => hb x (hx ▸ .itself)
  clear ha hb
  cases a <;> cases b <;> simp_all [isScalar, beq_def, equal]

/-- Such scalars equal the same values. -/
theorem beq_congr_of_isScalar {a b : Value} (hscalar : a.isScalar = true) (ha : a.IsFloatFree)
    (hb : b.IsFloatFree) (h : a == b) (c : Value) : (a == c) = (b == c) := by
  rcases cases_of_isScalar hscalar ha hb h with
    rfl | ⟨identity, t, t', rfl, rfl⟩ | ⟨d, d', rfl, rfl, hd⟩
  · rfl
  · cases c <;> rfl
  · cases c <;> simp [beq_def, equal, hd]

/-- Equality is transitive from values without floating-point numbers on. -/
theorem IsFloatFree.beq_trans {a b c : Value} (ha : a.IsFloatFree) (hb : b.IsFloatFree)
    (hab : a == b) (hbc : b == c) : a == c := by
  induction a using Value.induction generalizing b c with
  | array as ih =>
    obtain ⟨bs, rfl, hitems⟩ := array_beq_iff.mp hab
    obtain ⟨cs, rfl, hitems'⟩ := array_beq_iff.mp hbc
    rw [List.forall₂_iff_get] at hitems hitems'
    refine array_beq_iff.mpr ⟨cs, rfl, List.forall₂_iff_get.mpr ⟨hitems.1.trans hitems'.1, ?_⟩⟩
    intro i hi hi'
    have hmid : i < bs.length := hitems.1 ▸ hi
    exact ih _ (List.get_mem ..) (ha.part (.item .itself (List.get_mem ..)))
      (hb.part (.item .itself (List.get_mem ..))) (hitems.2 i hi hmid) (hitems'.2 i hmid hi')
  | map as ih =>
    obtain ⟨bs, rfl, hlength, hcovered⟩ := map_beq_iff.mp hab
    obtain ⟨cs, rfl, hlength', hcovered'⟩ := map_beq_iff.mp hbc
    refine map_beq_iff.mpr ⟨cs, rfl, hlength.trans hlength', fun e he => ?_⟩
    obtain ⟨f, hf, hef⟩ := hcovered e he
    obtain ⟨g, hg, hfg⟩ := hcovered' f hf
    exact ⟨g, hg,
      (ih e he).1 (ha.part (.key .itself he)) (hb.part (.key .itself hf)) hef.1 hfg.1,
      (ih e he).2 (ha.part (.value .itself he)) (hb.part (.value .itself hf)) hef.2 hfg.2⟩
  | _ => rwa [beq_congr_of_isScalar rfl ha hb hab c]

/-! ### Symmetry -/

/-- Entries with different keys do not equal a common entry, if equality is symmetric for keys. -/
theorem pairwise_apart {as bs : List (Value × Value)} (ha : (map as).IsWellKeyed)
    (hb : (map bs).IsFloatFree) (hsymm : ∀ e ∈ as, ∀ f ∈ bs, e.1 == f.1 → f.1 == e.1) :
    as.Pairwise fun e e' => ∀ f ∈ bs, Matches e f → ¬Matches e' f := by
  refine (ha.distinctKeys as .itself).imp_of_mem ?_
  intro e e' he he' hdistinct f hf hef hef'
  exact hdistinct (IsFloatFree.beq_trans (ha.isFloatFree.part (.key .itself he))
    (hb.part (.key .itself hf)) hef.1 (hsymm e' he' f hf hef'.1))

/-- Equality of a well-keyed value with values without floating-point numbers is symmetric. -/
theorem IsWellKeyed.beq_symm {a b : Value} (ha : a.IsWellKeyed) (hb : b.IsFloatFree)
    (h : a == b) : b == a := by
  induction a using Value.induction generalizing b with
  | array as ih =>
    obtain ⟨bs, rfl, -⟩ := array_beq_iff.mp h
    refine beq_symm_array (fun a hmem b hmem' hab => ?_) h
    exact ih a hmem (ha.part (.item .itself hmem)) (hb.part (.item .itself hmem')) hab
  | map as ih =>
    obtain ⟨bs, rfl, -⟩ := map_beq_iff.mp h
    have hkeys : ∀ e ∈ as, ∀ f ∈ bs, e.1 == f.1 → f.1 == e.1 := fun e he f hf =>
      (ih e he).1 (ha.part (.key .itself he)) (hb.part (.key .itself hf))
    have hvalues : ∀ e ∈ as, ∀ f ∈ bs, e.2 == f.2 → f.2 == e.2 := fun e he f hf =>
      (ih e he).2 (ha.part (.value .itself he)) (hb.part (.value .itself hf))
    exact beq_symm_map (fun e he f hf hef => ⟨hkeys e he f hf hef.1, hvalues e he f hf hef.2⟩)
      (pairwise_apart ha hb hkeys) h
  | _ => exact beq_symm_of_isScalar rfl h

section

variable {k k' : Value} (hk : k.IsWellKeyed) (hk' : k'.IsWellKeyed)

include hk hk'

/-- Equal keys equal the same keys. -/
theorem IsWellKeyed.beq_congr_right {v : Value} (hv : v.IsWellKeyed) (h : k == k') :
    (v == k) = (v == k') :=
  Bool.eq_iff_iff.mpr
    ⟨fun hvk => hv.isFloatFree.beq_trans hk.isFloatFree hvk h,
      fun hvk' => hv.isFloatFree.beq_trans hk'.isFloatFree hvk' (hk.beq_symm hk'.isFloatFree h)⟩

/-- Keys that equal a third one are equal. -/
theorem IsWellKeyed.beq_of_beq {c : Value} (hc : c.IsWellKeyed) (h : k == c) (h' : k' == c) :
    k == k' :=
  hk.isFloatFree.beq_trans hc.isFloatFree h (hk'.beq_symm hc.isFloatFree h')

end

/-! ### Lookups -/

theorem lookup?_eq_none_iff {entries : List (Value × Value)} {k : Value} :
    lookup? k entries = none ↔ ∀ e ∈ entries, ¬e.1 == k := by
  induction entries with
  | nil => simp [lookup?]
  | cons e rest ih =>
    rw [lookup?, List.forall_mem_cons, ← ih]
    split <;> simp_all [beq_def]

private theorem exists_of_lookup?_eq_some {entries : List (Value × Value)} {k v : Value}
    (h : lookup? k entries = some v) : ∃ e ∈ entries, e.1 == k ∧ e.2 = v := by
  induction entries with
  | nil => cases h
  | cons e rest ih =>
    rw [lookup?] at h
    split at h
    · next hek => exact ⟨e, List.mem_cons_self .., hek, Option.some.inj h⟩
    · obtain ⟨e', he', hfound⟩ := ih h
      exact ⟨e', List.mem_cons_of_mem _ he', hfound⟩

/-- Every key of a well-keyed map finds the value of its entry. -/
theorem lookup?_eq_some {entries : List (Value × Value)} (h : (map entries).IsWellKeyed)
    {k : Value} (hk : k.IsWellKeyed) {e : Value × Value} (he : e ∈ entries) (hek : e.1 == k) :
    lookup? k entries = some e.2 := by
  have hkey : ∀ e' ∈ entries, e'.1 == k → e'.1 == e.1 := fun e' he' hek' =>
    (h.part (.key .itself he')).beq_of_beq (h.part (.key .itself he)) hk hek' hek
  have hdistinct := h.distinctKeys entries .itself
  clear h
  induction entries with
  | nil => cases he
  | cons first rest ih =>
    obtain ⟨hfirst, hrest⟩ := List.pairwise_cons.mp hdistinct
    rw [lookup?]
    rcases List.mem_cons.mp he with rfl | he
    · exact if_pos hek
    · have hne : ¬first.1.equal k = true := fun hfk =>
        hfirst e he (hkey first (List.mem_cons_self ..) hfk)
      rw [if_neg hne]
      exact ih he (fun e' he' => hkey e' (List.mem_cons_of_mem _ he')) hrest

/-- Equal keys find the same value in a well-keyed map. -/
theorem lookup?_congr_key {entries : List (Value × Value)} (h : (map entries).IsWellKeyed)
    {k k' : Value} (hk : k.IsWellKeyed) (hk' : k'.IsWellKeyed) (hkk' : k == k') :
    lookup? k entries = lookup? k' entries := by
  have hkeys : ∀ e ∈ entries, (e.1 == k) = (e.1 == k') := fun e he =>
    hk.beq_congr_right hk' (h.part (.key .itself he)) hkk'
  clear h
  induction entries with
  | nil => rfl
  | cons e rest ih =>
    obtain ⟨hfirst, hrest⟩ := List.forall_mem_cons.mp hkeys
    rw [lookup?, lookup?, ih hrest, ← beq_def, ← beq_def, hfirst]

/-! ### Agreement -/

/-- Under every well-keyed key there are equal values in both lists of entries, or none in both. -/
def Agree (as bs : List (Value × Value)) : Prop :=
  ∀ k : Value, k.IsWellKeyed → Option.Rel (fun v w => v == w) (lookup? k as) (lookup? k bs)

variable {as bs : List (Value × Value)}

section

variable (ha : (map as).IsWellKeyed) (hb : (map bs).IsWellKeyed)

include ha hb

theorem Agree.symm (h : Agree as bs) : Agree bs as := by
  intro k hk
  have hrel := h k hk
  generalize hv : lookup? k as = found, hw : lookup? k bs = found' at hrel ⊢
  cases hrel with
  | none => exact .none
  | some hvw =>
    obtain ⟨e, he, -, rfl⟩ := exists_of_lookup?_eq_some hv
    obtain ⟨f, hf, -, rfl⟩ := exists_of_lookup?_eq_some hw
    exact .some ((ha.part (.value .itself he)).beq_symm
      (hb.part (.value .itself hf)).isFloatFree hvw)

/-- If two lists of entries agree, each entry of the first equals one of the second. -/
theorem Agree.exists_matches (h : Agree as bs) : ∀ e ∈ as, ∃ f ∈ bs, Matches e f := by
  intro e he
  have hkey : e.1.IsWellKeyed := ha.part (.key .itself he)
  have hrel := h e.1 hkey
  rw [lookup?_eq_some ha hkey he hkey.beq_self] at hrel
  generalize hw : lookup? e.1 bs = found at hrel
  cases hrel with
  | some hvw =>
    obtain ⟨f, hf, hfe, rfl⟩ := exists_of_lookup?_eq_some hw
    exact ⟨f, hf, (hb.part (.key .itself hf)).beq_symm hkey.isFloatFree hfe, hvw⟩

private theorem Agree.length_le (h : Agree as bs) : as.length ≤ bs.length := by
  have hsymm : ∀ e ∈ as, ∀ f ∈ bs, e.1 == f.1 → f.1 == e.1 := fun e he f hf =>
    (ha.part (.key .itself he)).beq_symm (hb.part (.key .itself hf)).isFloatFree
  obtain ⟨bs', hpairs, hsub⟩ := exists_subperm_forall₂ (h.exists_matches ha hb)
    (pairwise_apart ha hb.isFloatFree hsymm)
  exact hpairs.length_eq ▸ hsub.length_le

/-- The entries of equal maps agree. -/
theorem agree_of_beq (h : map as == map bs) : Agree as bs := by
  intro k hk
  obtain ⟨_, ⟨⟩, -, hcovered⟩ := map_beq_iff.mp h
  obtain ⟨_, ⟨⟩, -, hcovered'⟩ := map_beq_iff.mp (ha.beq_symm hb.isFloatFree h)
  cases hv : lookup? k as with
  | some v =>
    obtain ⟨e, he, hek, rfl⟩ := exists_of_lookup?_eq_some hv
    obtain ⟨f, hf, hef⟩ := hcovered e he
    have hkey : f.1.IsWellKeyed := hb.part (.key .itself hf)
    have hkey' : e.1.IsWellKeyed := ha.part (.key .itself he)
    have hfe : f.1 == e.1 := hkey'.beq_symm hkey.isFloatFree hef.1
    rw [lookup?_eq_some hb hk hf (hkey.isFloatFree.beq_trans hkey'.isFloatFree hfe hek)]
    exact .some hef.2
  | none =>
    have hnone : lookup? k bs = none := by
      refine lookup?_eq_none_iff.mpr fun f hf hfk => ?_
      obtain ⟨e, he, hfe⟩ := hcovered' f hf
      have hkey : f.1.IsWellKeyed := hb.part (.key .itself hf)
      have hkey' : e.1.IsWellKeyed := ha.part (.key .itself he)
      have hef : e.1 == f.1 := hkey.beq_symm hkey'.isFloatFree hfe.1
      exact lookup?_eq_none_iff.mp hv e he
        (hkey'.isFloatFree.beq_trans hkey.isFloatFree hef hfk)
    rw [hnone]
    exact .none

/-- Well-keyed maps are equal if and only if their entries agree. -/
theorem map_beq_iff_agree : map as == map bs ↔ Agree as bs := by
  refine ⟨agree_of_beq ha hb, fun h => map_beq_iff.mpr ⟨bs, rfl, ?_, h.exists_matches ha hb⟩⟩
  exact Nat.le_antisymm (h.length_le ha hb) ((h.symm ha hb).length_le hb ha)

end

/-- **Equality of maps is that of finite functions.** Two well-keyed maps are equal if and only if
each well-keyed key finds equal values in both or nothing in either; equality of well-keyed values
is transitive; and equal keys find equal values. -/
theorem map_beq_extensional :
    (∀ as bs : List (Value × Value), (map as).IsWellKeyed → (map bs).IsWellKeyed →
      (map as == map bs ↔ ∀ k : Value, k.IsWellKeyed →
        Option.Rel (fun v w => v == w) ((map as).get? k) ((map bs).get? k))) ∧
    (∀ a b c : Value, a.IsWellKeyed → b.IsWellKeyed → c.IsWellKeyed →
      a == b → b == c → a == c) ∧
    ∀ m k k' : Value, m.IsWellKeyed → k.IsWellKeyed → k'.IsWellKeyed → k == k' →
      Option.Rel (fun v w => v == w) (m.get? k) (m.get? k') := by
  refine ⟨fun as bs ha hb => map_beq_iff_agree ha hb, fun a b c ha hb _ hab hbc =>
    ha.isFloatFree.beq_trans hb.isFloatFree hab hbc, fun m k k' hm hk hk' hkk' => ?_⟩
  cases m with
  | map entries =>
    show Option.Rel _ (lookup? k entries) (lookup? k' entries)
    rw [← lookup?_congr_key hm hk hk' hkk']
    cases hv : lookup? k entries with
    | none => exact .none
    | some v =>
      obtain ⟨e, he, -, rfl⟩ := exists_of_lookup?_eq_some hv
      exact .some (hm.part (.value .itself he)).beq_self
  | _ => exact .none

/-! ### Prices by place and date -/

theorem isWellKeyed_of_isScalar {v : Value} (hscalar : v.isScalar = true)
    (hfloat : ∀ x, v ≠ float x) : v.IsWellKeyed where
  isFloatFree x hx := hfloat x (hx.eq_of_isScalar hscalar).symm
  distinctKeys entries h := by
    rw [← h.eq_of_isScalar hscalar] at hscalar
    cases hscalar

private theorem isWellKeyed_array {items : List Value} (h : ∀ v ∈ items, v.IsWellKeyed) :
    (array items).IsWellKeyed where
  isFloatFree := by
    rintro x (_ | ⟨hpart, hv⟩)
    exact (h _ hv).isFloatFree x hpart
  distinctKeys entries hentries := by
    cases hentries with
    | item hpart hv => exact (h _ hv).distinctKeys entries hpart

private theorem isWellKeyed_map {entries : List (Value × Value)}
    (hdistinct : entries.Pairwise fun e e' => ¬e.1 == e'.1)
    (h : ∀ e ∈ entries, e.1.IsWellKeyed ∧ e.2.IsWellKeyed) : (map entries).IsWellKeyed where
  isFloatFree x hx := by
    cases hx with
    | key hpart he => exact (h _ he).1.isFloatFree x hpart
    | value hpart he => exact (h _ he).2.isFloatFree x hpart
  distinctKeys entries' hentries' := by
    cases hentries' with
    | itself => exact hdistinct
    | key hpart he => exact (h _ he).1.distinctKeys entries' hpart
    | value hpart he => exact (h _ he).2.distinctKeys entries' hpart

/-- A map with two entries is well keyed if its keys are different. -/
theorem isWellKeyed_pair {e e' : Value × Value} (hne : ¬e.1 == e'.1)
    (he : e.1.IsWellKeyed ∧ e.2.IsWellKeyed) (he' : e'.1.IsWellKeyed ∧ e'.2.IsWellKeyed) :
    (map [e, e']).IsWellKeyed :=
  isWellKeyed_map (List.pairwise_pair.mpr hne)
    (List.forall_mem_cons.mpr ⟨he, List.forall_mem_singleton.mpr he'⟩)

private theorem isWellKeyed_int (i : Int64) : (int i).IsWellKeyed :=
  isWellKeyed_of_isScalar rfl nofun

private theorem isWellKeyed_symbol (name : String) : (symbol name).IsWellKeyed :=
  isWellKeyed_of_isScalar rfl nofun

/-- A month, given by the names of its parts. -/
def may : Value := map [(symbol "year", int 2020), (symbol "month", int 5)]

/-- The same month with its parts in another order. -/
def mayReordered : Value := map [(symbol "month", int 5), (symbol "year", int 2020)]

/-- The prices of two months. -/
def prices : List (Value × Value) := [(may, array [int 30, int 31]), (symbol "next", may)]

/-- The same prices, in another order outside and inside. -/
def pricesReordered : List (Value × Value) :=
  [(symbol "next", mayReordered), (mayReordered, array [int 30, int 31])]

private theorem isWellKeyed_may : may.IsWellKeyed :=
  isWellKeyed_pair (by decide) ⟨isWellKeyed_symbol _, isWellKeyed_int _⟩
    ⟨isWellKeyed_symbol _, isWellKeyed_int _⟩

private theorem isWellKeyed_mayReordered : mayReordered.IsWellKeyed :=
  isWellKeyed_pair (by decide) ⟨isWellKeyed_symbol _, isWellKeyed_int _⟩
    ⟨isWellKeyed_symbol _, isWellKeyed_int _⟩

private theorem isWellKeyed_priceList : (array [int 30, int 31]).IsWellKeyed :=
  isWellKeyed_array (List.forall_mem_cons.mpr
    ⟨isWellKeyed_int _, List.forall_mem_singleton.mpr (isWellKeyed_int _)⟩)

private theorem isWellKeyed_prices : (map prices).IsWellKeyed :=
  isWellKeyed_pair (by decide) ⟨isWellKeyed_may, isWellKeyed_priceList⟩
    ⟨isWellKeyed_symbol _, isWellKeyed_may⟩

private theorem isWellKeyed_pricesReordered : (map pricesReordered).IsWellKeyed :=
  isWellKeyed_pair (by decide) ⟨isWellKeyed_symbol _, isWellKeyed_mayReordered⟩
    ⟨isWellKeyed_mayReordered, isWellKeyed_priceList⟩

/-- The prices are found under the same keys in either order, and under a month in either order. -/
theorem map_beq_extensional_prices :
    (map prices).IsWellKeyed ∧ (map pricesReordered).IsWellKeyed ∧ may.IsWellKeyed ∧
      mayReordered.IsWellKeyed ∧ map prices == map pricesReordered ∧ may == mayReordered ∧
      (∀ k : Value, k.IsWellKeyed → Option.Rel (fun v w => v == w)
        ((map prices).get? k) ((map pricesReordered).get? k)) ∧
      mayReordered == may ∧ may == may ∧
      Option.Rel (fun v w => v == w) ((map prices).get? may) ((map prices).get? mayReordered) := by
  obtain ⟨hextensional, htrans, hcongr⟩ := map_beq_extensional
  have hprices : map prices == map pricesReordered := by decide
  have hmay : may == mayReordered := by decide
  have hback : mayReordered == may := by decide
  exact ⟨isWellKeyed_prices, isWellKeyed_pricesReordered, isWellKeyed_may,
    isWellKeyed_mayReordered, hprices, hmay,
    (hextensional _ _ isWellKeyed_prices isWellKeyed_pricesReordered).mp hprices,
    hback, htrans _ _ _ isWellKeyed_may isWellKeyed_mayReordered isWellKeyed_may hmay hback,
    hcongr _ _ _ isWellKeyed_prices isWellKeyed_may isWellKeyed_mayReordered hmay⟩

end Value

end MockAudit
