import MockAudit.Proofs.RecordingRoundTrip

/-!
# Recordings without loss

Values without floating-point numbers that are not nested too deeply survive a recording: what is
read has the same types and the same calls, field by field, and its values have the same structure
as those that were recorded. Identities are not recorded, so objects and doubles are new ones.

A snapshot is the structure that two values share. `Snapshot.Describes` says that a snapshot writes
a value out in full, down to the fields of its objects. The way of a value through a recording has
three parts, and each of them keeps the snapshot: taking it (`Snapshot.Describes.ofValue_eq`),
writing and reading it (`Snapshot.IsPlain.ofJson?_toJson`), and creating a value from it
(`Snapshot.IsPlain.restore`).

Taking a snapshot visits no more objects inside one another than there are. This is enough for
values that can be written out at all: an object inside itself would have a snapshot that is a
proper part of itself, so the objects above any part of such a value are all different.

## Main definitions

* `Snapshot.Describes`: snapshots that write out a value of a heap.
* `Snapshot.IsWayDown`: the objects above a part of a value.
* `Value.SameStructure`: values with the same structure in two heaps.
* `Value.IsPlain`, `Snapshot.IsPlain`: no floating-point numbers, and a bound on the nesting.
* `Except.Rel`: the same error on both sides, or related results.
* `RecordedCall.Alike`, `Call.Alike`: recorded calls, and the calls they stand for, that agree field
  by field.
* `Recording.ofRecorded`, `Recording.readCalls`: what is written of recorded calls and what is read.

## Main results

* `Snapshot.IsPlain.ofJson?_toJson`: plain snapshots are read as they were written.
* `Recording.parse?_text`: recordings of plain snapshots are read as they were written.
* `Recording.ofRecorded_lossless`: recordings lose nothing.
-/

namespace MockAudit

open Json

/-! ### Lists and what may be missing -/

section

variable {α β γ : Type} {as as' : List α} {bs : List β} {cs : List γ}

/-- Items that are related in one way and therefore in another. -/
theorem forall₂_imp_of_mem {R S : α → β → Prop} (h : List.Forall₂ R as bs)
    (himp : ∀ a ∈ as, ∀ b, R a b → S a b) : List.Forall₂ S as bs := by
  induction h with
  | nil => exact .nil
  | cons hab _ ih =>
    obtain ⟨ha, has⟩ := List.forall_mem_cons.mp himp
    exact .cons (ha _ hab) (ih has)

private theorem forall₂_and {R S : α → β → Prop} (hR : List.Forall₂ R as bs)
    (hS : List.Forall₂ S as bs) : List.Forall₂ (fun a b => R a b ∧ S a b) as bs := by
  induction hR with
  | nil => exact .nil
  | cons hab _ ih =>
    obtain - | ⟨hab', hrest⟩ := hS
    exact .cons ⟨hab, hab'⟩ (ih hrest)

/-- Related items that a function maps back to their partners. -/
theorem map_eq_of_forall₂ {R : α → β → Prop} {f : β → α} (h : List.Forall₂ R as bs)
    (hf : ∀ a ∈ as, ∀ b, R a b → f b = a) : bs.map f = as := by
  induction h with
  | nil => rfl
  | cons hab _ ih =>
    obtain ⟨ha, has⟩ := List.forall_mem_cons.mp hf
    rw [List.map_cons, ha _ hab, ih has]

/-- Related items with one property in common. -/
theorem map_eq_map_of_forall₂ {f : α → γ} {g : β → γ}
    (h : List.Forall₂ (fun a b => f a = g b) as bs) : as.map f = bs.map g := by
  induction h with
  | nil => rfl
  | cons hab _ ih => rw [List.map_cons, List.map_cons, hab, ih]

/-- Lists with the same partners are the same if items with the same partner are. -/
theorem eq_of_forall₂ {R : α → β → Prop} (h : List.Forall₂ R as bs) (h' : List.Forall₂ R as' bs)
    (hR : ∀ a ∈ as, ∀ a' b, R a b → R a' b → a' = a) : as' = as := by
  induction h generalizing as' with
  | nil =>
    cases h'
    rfl
  | cons hab _ ih =>
    obtain - | ⟨hab', hrest⟩ := h'
    obtain ⟨ha, has⟩ := List.forall_mem_cons.mp hR
    rw [ha _ _ hab hab', ih hrest has]

/-- Partners for all items of a list make a list of partners. -/
theorem exists_forall₂ {R : α → β → Prop} {P : α → Prop} (h : ∀ b ∈ bs, ∃ a, R a b ∧ P a) :
    ∃ as, List.Forall₂ R as bs ∧ ∀ a ∈ as, P a := by
  induction bs with
  | nil => exact ⟨[], .nil, List.forall_mem_nil _⟩
  | cons b bs ih =>
    obtain ⟨⟨a, hab, ha⟩, hbs⟩ := List.forall_mem_cons.mp h
    obtain ⟨as, hasbs, has⟩ := ih hbs
    exact ⟨a :: as, .cons hab hasbs, List.forall_mem_cons.mpr ⟨ha, has⟩⟩

/-- Lists that are related through a list in between are related through its items. -/
theorem forall₂_comp {R : α → β → Prop} {S : β → γ → Prop} (h : List.Forall₂ R as bs)
    (h' : List.Forall₂ S bs cs) : List.Forall₂ (Relation.Comp R S) as cs := by
  induction h generalizing cs with
  | nil =>
    cases h'
    exact .nil
  | cons hab _ ih =>
    obtain - | ⟨hbc, hrest⟩ := h'
    exact .cons ⟨_, hab, hbc⟩ (ih hrest)

/-- Items that are all read as themselves. -/
theorem mapM_eq_self {f : α → Option α} (h : ∀ a ∈ as, f a = some a) : as.mapM f = some as := by
  induction as with
  | nil => rfl
  | cons a as ih =>
    obtain ⟨ha, has⟩ := List.forall_mem_cons.mp h
    rw [List.mapM_cons, ha, ih has]
    rfl

variable {a : Option α} {b : Option β} {c : Option γ}

private theorem rel_imp {R S : α → β → Prop} (h : Option.Rel R a b) (himp : ∀ a b, R a b → S a b) :
    Option.Rel S a b := by
  cases h with
  | some hab => exact .some (himp _ _ hab)
  | none => exact .none

private theorem rel_comp {R : α → β → Prop} {S : β → γ → Prop} (h : Option.Rel R a b)
    (h' : Option.Rel S b c) : Option.Rel (Relation.Comp R S) a c := by
  cases h with
  | some hab =>
    cases h' with
    | some hbc => exact .some ⟨_, hab, hbc⟩
  | none =>
    cases h'
    exact .none

private theorem rel_map_of_mem {R : α → β → Prop} {f : α → β} (h : ∀ x ∈ a, R x (f x)) :
    Option.Rel R a (a.map f) := by
  cases a with
  | none => exact .none
  | some x => exact .some (h x rfl)

end

/-- What is written for what may be missing is read as it was. -/
theorem optional?_map_eq_self {α : Type} {read : Json → Option α} {write : α → Json}
    {content : Option α} (hwrite : ∀ a, write a ≠ .null)
    (h : ∀ a ∈ content, read (write a) = some a) :
    optional? read (content.map write) = some content := by
  cases content with
  | none => rfl
  | some a =>
    have hread : optional? read (some (write a)) = (read (write a)).map some := by
      rw [optional?]
      exact hwrite a
    rw [Option.map_some, hread, h a rfl]
    rfl

/-! ### Results that may be errors -/

/-- The same error on both sides, or two results that are related. -/
inductive Except.Rel {ε α β : Type} (R : α → β → Prop) : Except ε α → Except ε β → Prop
  | error (e : ε) : Rel R (.error e) (.error e)
  | ok {a : α} {b : β} (h : R a b) : Rel R (.ok a) (.ok b)

namespace Except

variable {ε α β γ δ : Type} {R : α → β → Prop} {S : γ → δ → Prop}

theorem Rel.bind {x : Except ε α} {y : Except ε β} {k : α → Except ε γ} {l : β → Except ε δ}
    (h : Rel R x y) (hnext : ∀ a b, R a b → Rel S (k a) (l b)) : Rel S (x >>= k) (y >>= l) := by
  cases h with
  | error e => exact .error e
  | ok hab => exact hnext _ _ hab

/-- Readings of items that are related one by one stop at the same error, or their results are
related one by one. -/
theorem rel_mapM {f : α → Except ε γ} {g : β → Except ε δ} {as : List α} {bs : List β}
    (h : List.Forall₂ R as bs) (hread : ∀ a b, R a b → Rel S (f a) (g b)) :
    Rel (List.Forall₂ S) (as.mapM f) (bs.mapM g) := by
  induction h with
  | nil => exact .ok .nil
  | @cons a b as bs hab _ ih =>
    rw [List.mapM_cons, List.mapM_cons]
    exact (hread a b hab).bind fun c d hcd => ih.bind fun cs ds hrest => .ok (.cons hcd hrest)

theorem Rel.map_right {T : α → γ → Prop} {x : Except ε α} {y : Except ε β} {f : β → γ}
    (h : Rel R x y) (hf : ∀ a b, R a b → T a (f b)) : Rel T x (y.map f) := by
  cases h with
  | error e => exact .error e
  | ok hab => exact .ok (hf _ _ hab)

end Except

/-! ### Fields -/

namespace Fields

variable {α : Type} {fields rest : Fields α} {name : String} {a : α}

/-- A name behind all others is stored at the end. -/
theorem store_of_forall_lt (h : ∀ f ∈ fields, f.1 < name) :
    fields.store name a = fields ++ [(name, a)] := by
  induction fields with
  | nil => rfl
  | cons f fields ih =>
    obtain ⟨hf, hfields⟩ := List.forall_mem_cons.mp h
    have hne : f.1 ≠ name := fun heq => String.lt_irrefl name (heq ▸ hf)
    rw [store, if_neg hne, if_neg (String.lt_asymm hf), ih hfields, List.cons_append]

/-- Fields in ascending order are stored as they stand. -/
theorem ofList_eq_self (h : fields.Pairwise (·.1 < ·.1)) : ofList fields = fields := by
  have hfold (before rest : Fields α) (h : (before ++ rest).Pairwise (·.1 < ·.1)) :
      rest.foldl (fun fields f => store fields f.1 f.2) before = before ++ rest := by
    induction rest generalizing before with
    | nil => exact (List.append_nil before).symm
    | cons f rest ih =>
      have hbefore : ∀ g ∈ before, g.1 < f.1 := fun g hg =>
        (List.pairwise_append.mp h).2.2 g hg f (List.mem_cons_self ..)
      show rest.foldl _ (store before f.1 f.2) = _
      rw [store_of_forall_lt hbefore, ih _ (by simpa using h), List.append_assoc]
      rfl
  exact hfold [] fields h

/-- After storing a field, every field is that one or was there before. -/
theorem mem_store {f : String × α} (h : f ∈ fields.store name a) : f = (name, a) ∨ f ∈ fields := by
  induction fields with
  | nil => exact .inl (List.mem_singleton.mp h)
  | cons g fields ih =>
    rw [store] at h
    split_ifs at h <;> grind

/-- Storing a field keeps the order of names. -/
theorem pairwise_store (h : fields.Pairwise (·.1 < ·.1)) (name : String) (a : α) :
    (fields.store name a).Pairwise (·.1 < ·.1) := by
  induction fields with
  | nil => exact List.pairwise_singleton ..
  | cons g fields ih =>
    obtain ⟨hfirst, hrest⟩ := List.pairwise_cons.mp h
    rw [store]
    split_ifs with heq hlt
    · subst heq
      exact List.pairwise_cons.mpr ⟨hfirst, hrest⟩
    · refine List.pairwise_cons.mpr ⟨List.forall_mem_cons.mpr ⟨hlt, fun f hf => ?_⟩, h⟩
      exact String.lt_trans hlt (hfirst f hf)
    · refine List.pairwise_cons.mpr ⟨fun f hf => ?_, ih hrest⟩
      rcases mem_store hf with rfl | hf
      · exact Std.lt_of_le_of_ne (String.not_lt.mp hlt) heq
      · exact hfirst f hf

private theorem pairwise_ofList (entries : List (String × α)) :
    (ofList entries).Pairwise (·.1 < ·.1) :=
  List.foldlRecOn entries _ List.Pairwise.nil fun _ h entry _ => pairwise_store h entry.1 entry.2

end Fields

/-- The fields of all objects are in ascending order of names. -/
def Heap.IsOrdered (heap : Heap) : Prop :=
  ∀ id, (heap.fields id).Pairwise (·.1 < ·.1)

/-! Every heap that is filled by the operations on heaps is ordered. -/

namespace Heap.IsOrdered

variable {heap : Heap}

theorem empty : Heap.empty.IsOrdered :=
  fun _ => .nil

theorem newObject (h : heap.IsOrdered) (t : TypeName) (entries : List (String × Value)) :
    (heap.newObject t (Fields.ofList entries)).2.IsOrdered := by
  intro id
  rw [Heap.newObject]
  dsimp only
  split_ifs
  · exact Fields.pairwise_ofList entries
  · exact h id

theorem newDouble (h : heap.IsOrdered) (name : Option String) (kind : DoubleRole) :
    (heap.newDouble name kind).2.IsOrdered :=
  h

theorem setField (h : heap.IsOrdered) (v : Value) (name : String) (content : Value) :
    (heap.setField v name content).IsOrdered := by
  intro i
  cases v with
  | object id t =>
    rw [Heap.setField]
    dsimp only
    split_ifs
    · exact Fields.pairwise_store (h i) name content
    · exact h i
  | _ => exact h i

end Heap.IsOrdered

/-! ### Snapshots that describe values -/

/-- A snapshot that writes out a value of a heap in full: collections item by item, objects of the
heap with all their fields, and doubles with name and kind. -/
inductive Snapshot.Describes (heap : Heap) : Snapshot → Value → Prop
  | nil : Describes heap .nil .nil
  | bool (b : Bool) : Describes heap (.bool b) (.bool b)
  | int (i : Int64) : Describes heap (.int i) (.int i)
  | float (x : Binary64) : Describes heap (.float x) (.float x)
  | str (s : String) : Describes heap (.str s) (.str s)
  | symbol (name : String) : Describes heap (.symbol name) (.symbol name)
  | array {ss : List Snapshot} {vs : List Value} (items : List.Forall₂ (Describes heap) ss vs) :
    Describes heap (.array ss) (.array vs)
  | map {ss : List (Snapshot × Snapshot)} {vs : List (Value × Value)}
      (keys : List.Forall₂ (fun s v => Describes heap s.1 v.1) ss vs)
      (contents : List.Forall₂ (fun s v => Describes heap s.2 v.2) ss vs) :
    Describes heap (.map ss) (.map vs)
  | type (name : TypeName) : Describes heap (.type name) (.type name)
  | object {id : Nat} (t : TypeName) {fields : List (String × Snapshot)} (known : id < heap.next)
      (names : List.Forall₂ (fun s v => s.1 = v.1) fields (heap.fields id))
      (contents : List.Forall₂ (fun s v => Describes heap s.2 v.2) fields (heap.fields id)) :
    Describes heap (.object t fields) (.object id t)
  | double (d : TestDouble) : Describes heap (.double d.name d.kind) (.double d)

/-- Values of two heaps with the same structure: what writes out one of them also writes out the
other, so they differ in the identities of their objects and doubles at most. -/
def Value.SameStructure (heap heap' : Heap) (v v' : Value) : Prop :=
  ∃ s : Snapshot, s.Describes heap v ∧ s.Describes heap' v'

/-- A heap that has grown: the objects there were are as they were. -/
structure Heap.Extends (heap heap' : Heap) : Prop where
  next : heap.next ≤ heap'.next
  fields : ∀ id < heap.next, heap'.fields id = heap.fields id

namespace Heap.Extends

variable {heap₁ heap₂ heap₃ : Heap}

theorem refl (heap : Heap) : heap.Extends heap :=
  ⟨le_refl _, fun _ _ => rfl⟩

theorem trans (h : heap₁.Extends heap₂) (h' : heap₂.Extends heap₃) : heap₁.Extends heap₃ where
  next := le_trans h.next h'.next
  fields id hid := (h'.fields id (lt_of_lt_of_le hid h.next)).trans (h.fields id hid)

end Heap.Extends

namespace Heap

private theorem extends_newObject (heap : Heap) (t : TypeName) (fields : Fields Value) :
    heap.Extends (heap.newObject t fields).2 where
  next := Nat.le_succ _
  fields _ hid := if_neg (Nat.ne_of_lt hid)

private theorem extends_newDouble (heap : Heap) (name : Option String) (kind : DoubleRole) :
    heap.Extends (heap.newDouble name kind).2 :=
  ⟨Nat.le_succ _, fun _ _ => rfl⟩

/-- A new object has the fields it was created with. -/
theorem fields_newObject (heap : Heap) (t : TypeName) (fields : Fields Value) :
    (heap.newObject t fields).2.fields heap.next = fields :=
  if_pos rfl

end Heap

namespace Snapshot

variable {heap heap' : Heap}

section

variable {items : List Snapshot} {entries : List (Snapshot × Snapshot)}
  {fields : List (String × Snapshot)} {t : TypeName} {v : Value}

theorem describes_array_iff : (array items).Describes heap v ↔
    ∃ vs, v = .array vs ∧ List.Forall₂ (Describes heap) items vs := by
  constructor
  · rintro ⟨⟩
    exact ⟨_, rfl, ‹_›⟩
  · rintro ⟨vs, rfl, hitems⟩
    exact .array hitems

theorem describes_map_iff : (map entries).Describes heap v ↔
    ∃ vs, v = .map vs ∧ List.Forall₂
      (fun s v => Describes heap s.1 v.1 ∧ Describes heap s.2 v.2) entries vs := by
  constructor
  · intro h
    cases h with
    | map hkeys hcontents => exact ⟨_, rfl, forall₂_and hkeys hcontents⟩
  · rintro ⟨vs, rfl, hentries⟩
    exact .map (hentries.imp fun _ _ h => h.1) (hentries.imp fun _ _ h => h.2)

theorem describes_object_iff : (object t fields).Describes heap v ↔
    ∃ id, v = .object id t ∧ id < heap.next ∧ List.Forall₂
      (fun s v => s.1 = v.1 ∧ Describes heap s.2 v.2) fields (heap.fields id) := by
  constructor
  · intro h
    cases h with
    | object _ hknown hnames hcontents => exact ⟨_, rfl, hknown, forall₂_and hnames hcontents⟩
  · rintro ⟨id, rfl, hknown, hfields⟩
    exact .object t hknown (hfields.imp fun _ _ h => h.1) (hfields.imp fun _ _ h => h.2)

end

/-- Values stay described in a heap that grows. -/
theorem Describes.extends {s : Snapshot} {v : Value} (h : s.Describes heap v)
    (hheap : heap.Extends heap') : s.Describes heap' v := by
  induction s using Snapshot.induction generalizing v with
  | array items ih =>
    obtain ⟨vs, rfl, hitems⟩ := describes_array_iff.mp h
    exact .array (forall₂_imp_of_mem hitems fun s hs _ h => ih s hs h)
  | map entries ih =>
    obtain ⟨vs, rfl, hentries⟩ := describes_map_iff.mp h
    refine describes_map_iff.mpr ⟨vs, rfl, forall₂_imp_of_mem hentries fun e he _ h => ?_⟩
    exact ⟨(ih e he).1 h.1, (ih e he).2 h.2⟩
  | object t fields ih =>
    obtain ⟨id, rfl, hknown, hfields⟩ := describes_object_iff.mp h
    rw [← hheap.fields id hknown] at hfields
    refine describes_object_iff.mpr ⟨id, rfl, lt_of_lt_of_le hknown hheap.next, ?_⟩
    exact forall₂_imp_of_mem hfields fun f hf _ h => ⟨h.1, ih f hf h.2⟩
  | _ =>
    cases h
    constructor

/-- There is one way at most to write out a value. -/
theorem Describes.unique {s s' : Snapshot} {v : Value} (h : s.Describes heap v)
    (h' : s'.Describes heap v) : s' = s := by
  induction s using Snapshot.induction generalizing s' v with
  | array items ih =>
    obtain ⟨vs, rfl, hitems⟩ := describes_array_iff.mp h
    cases h' with
    | array hitems' =>
      exact congrArg Snapshot.array (eq_of_forall₂ hitems hitems' fun s hs _ _ h h' => ih s hs h h')
  | map entries ih =>
    obtain ⟨vs, rfl, hentries⟩ := describes_map_iff.mp h
    cases h' with
    | map hkeys' hcontents' =>
      refine congrArg Snapshot.map (eq_of_forall₂ hentries (forall₂_and hkeys' hcontents') ?_)
      exact fun e he _ _ h h' => Prod.ext ((ih e he).1 h.1 h'.1) ((ih e he).2 h.2 h'.2)
  | object t fields ih =>
    obtain ⟨id, rfl, -, hfields⟩ := describes_object_iff.mp h
    cases h' with
    | object _ _ hnames' hcontents' =>
      refine congrArg (Snapshot.object t) <|
        eq_of_forall₂ hfields (forall₂_and hnames' hcontents') ?_
      exact fun f hf _ _ h h' => Prod.ext (h'.1.trans h.1.symm) (ih f hf h.2 h'.2)
  | _ =>
    cases h
    cases h'
    rfl

/-- There is one way at most to write out the fields of an object, whatever its type is said to
be. -/
theorem Describes.fields_unique {id : Nat} {t t' : TypeName}
    {fields fields' : List (String × Snapshot)}
    (h : (Snapshot.object t fields).Describes heap (.object id t))
    (h' : (Snapshot.object t' fields').Describes heap (.object id t')) : fields' = fields := by
  cases h' with
  | object _ hknown hnames hcontents =>
    exact (Snapshot.object.inj (h.unique (.object t hknown hnames hcontents))).2

/-! ### Taking snapshots -/

private theorem ofItemsWith_eq_map (fields : Nat → List (String × Snapshot)) (vs : List Value) :
    ofItemsWith fields vs = vs.map (ofValueWith fields) := by
  induction vs with
  | nil => rfl
  | cons v vs ih => rw [ofItemsWith, ih, List.map_cons]

private theorem ofEntriesWith_eq_map (fields : Nat → List (String × Snapshot))
    (entries : List (Value × Value)) :
    ofEntriesWith fields entries =
      entries.map fun e => (ofValueWith fields e.1, ofValueWith fields e.2) := by
  induction entries with
  | nil => rfl
  | cons e rest ih => rw [ofEntriesWith, ih, List.map_cons]

/-- The objects that were visited on the way down to a value, when its snapshot has some size and
may go down some levels more. The objects are known to the heap and different from each other, and
what is written of their fields is greater than the value, so that none of them is visited again. -/
structure IsWayDown (heap : Heap) (above : List Nat) (depth size : Nat) : Prop where
  nodup : above.Nodup
  known : ∀ id ∈ above, id < heap.next
  greater : ∀ id ∈ above, ∀ t fields,
    (Snapshot.object t fields).Describes heap (.object id t) → size < sizeOf fields
  levels : heap.next ≤ depth + above.length

namespace IsWayDown

variable {above : List Nat} {depth size size' : Nat}

/-- The way to a value is a way to its parts. -/
theorem of_le (h : IsWayDown heap above depth size) (hle : size' ≤ size) :
    IsWayDown heap above depth size' :=
  ⟨h.nodup, h.known, fun id hid t fields hobject =>
    hle.trans_lt (h.greater id hid t fields hobject), h.levels⟩

/-- An object was not visited on the way to it, so that another level is left for what it holds. -/
theorem object {id : Nat} {t : TypeName} {fields : List (String × Snapshot)}
    (h : IsWayDown heap above depth (sizeOf (Snapshot.object t fields))) (hid : id < heap.next)
    (hobject : (Snapshot.object t fields).Describes heap (.object id t)) :
    ∃ d, depth = d + 1 ∧ ∀ size < sizeOf fields, IsWayDown heap (id :: above) d size := by
  have hnew : id ∉ above := fun hmem => by
    have hlt := h.greater id hmem t fields hobject
    rw [Snapshot.object.sizeOf_spec] at hlt
    omega
  have hnodup : (id :: above).Nodup := List.nodup_cons.mpr ⟨hnew, h.nodup⟩
  have hknown : ∀ i ∈ id :: above, i < heap.next := List.forall_mem_cons.mpr ⟨hid, h.known⟩
  have hsubset : id :: above ⊆ List.range heap.next := fun i hi => List.mem_range.mpr (hknown i hi)
  have hlength := (hnodup.subperm hsubset).length_le
  rw [List.length_range, List.length_cons] at hlength
  have hlevels := h.levels
  refine ⟨depth - 1, by omega, fun size hsize => ⟨hnodup, hknown, ?_, ?_⟩⟩
  · rintro i hi t' fields' hobject'
    rcases List.mem_cons.mp hi with rfl | hi
    · rwa [hobject.fields_unique hobject']
    · have hlt := h.greater i hi t' fields' hobject'
      rw [Snapshot.object.sizeOf_spec] at hlt
      omega
  · rw [List.length_cons]
    omega

end IsWayDown

/-- A value that can be written out is written out by visiting no object twice on the way down. -/
theorem Describes.ofValueWith_eq {s : Snapshot} {v : Value} (h : s.Describes heap v) {depth : Nat}
    {above : List Nat} (hway : IsWayDown heap above depth (sizeOf s)) :
    ofValueWith (ofFields heap depth) v = s := by
  induction s using Snapshot.induction generalizing v depth above with
  | array items ih =>
    obtain ⟨vs, rfl, hitems⟩ := describes_array_iff.mp h
    rw [Snapshot.array.sizeOf_spec] at hway
    rw [ofValueWith, ofItemsWith_eq_map]
    refine congrArg Snapshot.array (map_eq_of_forall₂ hitems fun s hs v hv => ?_)
    have hpart := List.sizeOf_lt_of_mem hs
    exact ih s hs hv (hway.of_le (by omega))
  | map entries ih =>
    obtain ⟨vs, rfl, hentries⟩ := describes_map_iff.mp h
    rw [Snapshot.map.sizeOf_spec] at hway
    rw [ofValueWith, ofEntriesWith_eq_map]
    refine congrArg Snapshot.map (map_eq_of_forall₂ hentries fun e he v hv => ?_)
    have hpart := List.sizeOf_lt_of_mem he
    rw [Prod.mk.sizeOf_spec] at hpart
    exact Prod.ext ((ih e he).1 hv.1 (hway.of_le (by omega)))
      ((ih e he).2 hv.2 (hway.of_le (by omega)))
  | object t fields ih =>
    obtain ⟨id, rfl, hid, hfields⟩ := describes_object_iff.mp h
    obtain ⟨d, rfl, hbelow⟩ := hway.object hid h
    rw [ofValueWith, ofFields]
    refine congrArg (Snapshot.object t) (map_eq_of_forall₂ hfields fun f hf v hv => ?_)
    have hpart := List.sizeOf_lt_of_mem hf
    rw [Prod.mk.sizeOf_spec] at hpart
    exact Prod.ext hv.1.symm (ih f hf hv.2 (hbelow _ (by omega)))
  | _ =>
    cases h
    rfl

/-- The snapshot of a value is the one that writes it out. -/
theorem Describes.ofValue_eq {s : Snapshot} {v : Value} (h : s.Describes heap v) :
    ofValue heap v = s :=
  h.ofValueWith_eq ⟨List.nodup_nil, List.forall_mem_nil _, List.forall_mem_nil _, le_refl _⟩

end Snapshot

/-! ### Plain values -/

/-- Values without floating-point numbers that put at most the given number of collections and
objects inside one another. -/
inductive Value.IsPlain (heap : Heap) : Nat → Value → Prop
  | nil {n : Nat} : IsPlain heap n .nil
  | bool {n : Nat} (b : Bool) : IsPlain heap n (.bool b)
  | int {n : Nat} (i : Int64) : IsPlain heap n (.int i)
  | str {n : Nat} (s : String) : IsPlain heap n (.str s)
  | symbol {n : Nat} (name : String) : IsPlain heap n (.symbol name)
  | array {n : Nat} {items : List Value} (h : ∀ v ∈ items, IsPlain heap n v) :
    IsPlain heap (n + 1) (.array items)
  | map {n : Nat} {entries : List (Value × Value)} (keys : ∀ e ∈ entries, IsPlain heap n e.1)
      (contents : ∀ e ∈ entries, IsPlain heap n e.2) : IsPlain heap (n + 1) (.map entries)
  | type {n : Nat} (name : TypeName) : IsPlain heap n (.type name)
  | object {n id : Nat} (t : TypeName) (known : id < heap.next)
      (contents : ∀ f ∈ heap.fields id, IsPlain heap n f.2) : IsPlain heap (n + 1) (.object id t)
  | double {n : Nat} (d : TestDouble) : IsPlain heap n (.double d)

/-- Snapshots without floating-point numbers that put at most the given number of collections and
objects inside one another. The fields of objects are in ascending order of names. -/
inductive Snapshot.IsPlain : Nat → Snapshot → Prop
  | nil {n : Nat} : IsPlain n .nil
  | bool {n : Nat} (b : Bool) : IsPlain n (.bool b)
  | int {n : Nat} (i : Int64) : IsPlain n (.int i)
  | str {n : Nat} (s : String) : IsPlain n (.str s)
  | symbol {n : Nat} (name : String) : IsPlain n (.symbol name)
  | array {n : Nat} {items : List Snapshot} (h : ∀ s ∈ items, IsPlain n s) :
    IsPlain (n + 1) (.array items)
  | map {n : Nat} {entries : List (Snapshot × Snapshot)} (keys : ∀ e ∈ entries, IsPlain n e.1)
      (contents : ∀ e ∈ entries, IsPlain n e.2) : IsPlain (n + 1) (.map entries)
  | type {n : Nat} (name : TypeName) : IsPlain n (.type name)
  | object {n : Nat} (t : TypeName) {fields : List (String × Snapshot)}
      (names : fields.Pairwise (·.1 < ·.1)) (contents : ∀ f ∈ fields, IsPlain n f.2) :
    IsPlain (n + 1) (.object t fields)
  | double {n : Nat} (name : Option String) (kind : DoubleRole) : IsPlain n (.double name kind)

/-- Plain values can be written out, and what is written is as plain. -/
theorem Value.IsPlain.exists_describes {heap : Heap} (hheap : heap.IsOrdered) {n : Nat} {v : Value}
    (h : v.IsPlain heap n) : ∃ s : Snapshot, s.Describes heap v ∧ s.IsPlain n := by
  induction h with
  | nil => exact ⟨_, .nil, .nil⟩
  | bool b => exact ⟨_, .bool b, .bool b⟩
  | int i => exact ⟨_, .int i, .int i⟩
  | str s => exact ⟨_, .str s, .str s⟩
  | symbol name => exact ⟨_, .symbol name, .symbol name⟩
  | array _ ih =>
    obtain ⟨ss, hitems, hplain⟩ := exists_forall₂ ih
    exact ⟨_, .array hitems, .array hplain⟩
  | @map n entries _ _ ihkeys ihcontents =>
    have hentry : ∀ e ∈ entries, ∃ s : Snapshot × Snapshot,
        (s.1.Describes heap e.1 ∧ s.2.Describes heap e.2) ∧ s.1.IsPlain n ∧ s.2.IsPlain n := by
      intro e he
      obtain ⟨key, hkey, hkeyPlain⟩ := ihkeys e he
      obtain ⟨content, hcontent, hcontentPlain⟩ := ihcontents e he
      exact ⟨(key, content), ⟨hkey, hcontent⟩, hkeyPlain, hcontentPlain⟩
    obtain ⟨ss, hentries, hplain⟩ := exists_forall₂ hentry
    exact ⟨_, Snapshot.describes_map_iff.mpr ⟨_, rfl, hentries⟩,
      .map (fun s hs => (hplain s hs).1) fun s hs => (hplain s hs).2⟩
  | type name => exact ⟨_, .type name, .type name⟩
  | @object n id t hknown _ ih =>
    have hfield : ∀ f ∈ heap.fields id, ∃ s : String × Snapshot,
        (s.1 = f.1 ∧ s.2.Describes heap f.2) ∧ s.2.IsPlain n := by
      intro f hf
      obtain ⟨content, hcontent, hplain⟩ := ih f hf
      exact ⟨(f.1, content), ⟨rfl, hcontent⟩, hplain⟩
    obtain ⟨ss, hfields, hplain⟩ := exists_forall₂ hfield
    have hnames : ss.map Prod.fst = (heap.fields id).map Prod.fst :=
      map_eq_map_of_forall₂ (hfields.imp fun _ _ h => h.1)
    refine ⟨_, Snapshot.describes_object_iff.mpr ⟨id, rfl, hknown, hfields⟩, .object t ?_ hplain⟩
    have hordered := hheap id
    rwa [← List.pairwise_map (R := (· < ·)) (f := Prod.fst), ← hnames, List.pairwise_map]
      at hordered
  | double d => exact ⟨_, .double d, .double d.name d.kind⟩

namespace Snapshot

/-! ### Writing and reading -/

/-- Without floating-point numbers all numbers belong to their format. -/
theorem IsPlain.isRepresentable {n : Nat} {s : Snapshot} (h : s.IsPlain n) :
    s.IsRepresentable := by
  induction h with
  | array _ ih => exact forall_floatsOfItems.mpr ih
  | map _ _ ihkeys ihcontents =>
    exact forall_floatsOfEntries.mpr fun e he => ⟨ihkeys e he, ihcontents e he⟩
  | object _ _ _ ih => exact forall_floatsOfFields.mpr ih
  | _ => exact List.forall_mem_nil _

/-- The items of an array are read one by one. -/
theorem ofJson?_toJson_array (items : List Snapshot) (depth : Nat) :
    ofJson? (depth + 2) (array items).toJson =
      Option.map array (items.mapM fun s => ofJson? depth s.toJson) := by
  show Option.map array (List.mapM _ (itemsToJson items)) = _
  rw [itemsToJson_eq_map, List.mapM_map]
  rfl

/-- The keys and contents of a map are read one by one. -/
theorem ofJson?_toJson_map (entries : List (Snapshot × Snapshot)) (depth : Nat) :
    ofJson? (depth + 3) (map entries).toJson = Option.map map (entries.mapM fun e => do
      return (← ofJson? depth e.1.toJson, ← ofJson? depth e.2.toJson)) := by
  show Option.map map (List.mapM _ (entriesToJson entries)) = _
  rw [entriesToJson_eq_map, List.mapM_map]
  rfl

/-- The fields of an object are read one by one and stored in order. -/
theorem ofJson?_toJson_object (t : TypeName) (fields : List (String × Snapshot)) (depth : Nat) :
    ofJson? (depth + 3) (object t fields).toJson =
      Option.map (fun fs => object t (Fields.ofList fs)) (fields.mapM fun f => do
        return (f.1, ← ofJson? depth f.2.toJson)) := by
  show ofJson? (depth + 3) (.object [("Object",
    .object [("type", .string t), ("fields", .object (fieldsToJson fields))])]) = _
  rw [ofJson?, structure?_typeAndFields, fieldsToJson_eq_map]
  simp only [Option.bind_eq_bind, Option.bind_some, List.mapM_map, Option.map_eq_bind]
  rfl

/-- **Plain snapshots** are read as they were written. Every collection and every object takes
three levels at most, and so does what is inside all of them. -/
theorem IsPlain.ofJson?_toJson {n : Nat} {s : Snapshot} (h : s.IsPlain n) {depth : Nat}
    (hdepth : 3 * n + 3 ≤ depth) : ofJson? depth s.toJson = some s := by
  induction h generalizing depth with
  | nil => cases depth <;> rfl
  | bool b | str content | symbol name | type name =>
    obtain ⟨depth, rfl⟩ := Nat.exists_eq_add_of_le' (show 1 ≤ depth by omega)
    rfl
  | int i =>
    obtain ⟨depth, rfl⟩ := Nat.exists_eq_add_of_le' (show 1 ≤ depth by omega)
    obtain ⟨n, hn, heq, hread⟩ := Json.exists_ofInt_eq i
    have htext : ofJson? (depth + 1) (Snapshot.int i).toJson =
        scalarOfJson? "Int" (Json.ofInt i.toInt) := rfl
    rw [htext, heq, scalarOfJson?, Json.NumberText.ofText_written hn, hread]
    rfl
  | @array n items _ ih =>
    obtain ⟨depth, rfl⟩ := Nat.exists_eq_add_of_le' (show 2 ≤ depth by omega)
    rw [ofJson?_toJson_array, mapM_eq_self fun s hs => ih s hs (by omega)]
    rfl
  | @map n entries _ _ ihkeys ihcontents =>
    obtain ⟨depth, rfl⟩ := Nat.exists_eq_add_of_le' (show 3 ≤ depth by omega)
    rw [ofJson?_toJson_map, mapM_eq_self fun e he => ?_]
    · rfl
    · rw [ihkeys e he (by omega), ihcontents e he (by omega)]
      rfl
  | @object n t fields hnames _ ih =>
    obtain ⟨depth, rfl⟩ := Nat.exists_eq_add_of_le' (show 3 ≤ depth by omega)
    rw [ofJson?_toJson_object, mapM_eq_self fun f hf => ?_, Option.map_some,
      Fields.ofList_eq_self hnames]
    rw [ih f hf (by omega)]
    rfl
  | double name kind =>
    obtain ⟨depth, rfl⟩ := Nat.exists_eq_add_of_le' (show 3 ≤ depth by omega)
    cases name <;> cases kind <;> rfl

/-! ### Restoring -/

/-- Restoring a snapshot creates a value that the snapshot writes out, and leaves what there was. -/
def IsRestored (s : Snapshot) : Prop :=
  ∀ heap : Heap, heap.Extends (s.restore heap).2 ∧
    s.Describes (s.restore heap).2 (s.restore heap).1

private theorem restoreItems_of_isRestored {items : List Snapshot} (h : ∀ s ∈ items, s.IsRestored)
    (heap : Heap) : heap.Extends (restoreItems items heap).2 ∧
      List.Forall₂ (Describes (restoreItems items heap).2) items (restoreItems items heap).1 := by
  induction items generalizing heap with
  | nil => exact ⟨.refl heap, .nil⟩
  | cons s ss ih =>
    obtain ⟨hs, hss⟩ := List.forall_mem_cons.mp h
    obtain ⟨hextends, hdescribes⟩ := hs heap
    obtain ⟨hextends', hrest⟩ := ih hss (s.restore heap).2
    exact ⟨hextends.trans hextends', .cons (hdescribes.extends hextends') hrest⟩

private theorem restoreEntries_of_isRestored {entries : List (Snapshot × Snapshot)}
    (hkeys : ∀ e ∈ entries, e.1.IsRestored) (hcontents : ∀ e ∈ entries, e.2.IsRestored)
    (heap : Heap) : heap.Extends (restoreEntries entries heap).2 ∧
      List.Forall₂ (fun s v => Describes (restoreEntries entries heap).2 s.1 v.1 ∧
        Describes (restoreEntries entries heap).2 s.2 v.2)
        entries (restoreEntries entries heap).1 := by
  induction entries generalizing heap with
  | nil => exact ⟨.refl heap, .nil⟩
  | cons e rest ih =>
    obtain ⟨hkey, hkeys⟩ := List.forall_mem_cons.mp hkeys
    obtain ⟨hcontent, hcontents⟩ := List.forall_mem_cons.mp hcontents
    obtain ⟨hextends₁, hdescribes₁⟩ := hkey heap
    obtain ⟨hextends₂, hdescribes₂⟩ := hcontent (e.1.restore heap).2
    obtain ⟨hextends₃, hrest⟩ := ih hkeys hcontents (e.2.restore (e.1.restore heap).2).2
    exact ⟨hextends₁.trans (hextends₂.trans hextends₃),
      .cons ⟨hdescribes₁.extends (hextends₂.trans hextends₃), hdescribes₂.extends hextends₃⟩ hrest⟩

private theorem restoreFields_of_isRestored {fields : List (String × Snapshot)}
    (h : ∀ f ∈ fields, f.2.IsRestored) (heap : Heap) :
    heap.Extends (restoreFields fields heap).2 ∧
      List.Forall₂ (fun s v => s.1 = v.1 ∧ Describes (restoreFields fields heap).2 s.2 v.2)
        fields (restoreFields fields heap).1 := by
  induction fields generalizing heap with
  | nil => exact ⟨.refl heap, .nil⟩
  | cons f rest ih =>
    obtain ⟨hf, hrest⟩ := List.forall_mem_cons.mp h
    obtain ⟨hextends, hdescribes⟩ := hf heap
    obtain ⟨hextends', hfields⟩ := ih hrest (f.2.restore heap).2
    exact ⟨hextends.trans hextends', .cons ⟨rfl, hdescribes.extends hextends'⟩ hfields⟩

/-- **Plain snapshots** are restored. -/
theorem IsPlain.isRestored {n : Nat} {s : Snapshot} (h : s.IsPlain n) : s.IsRestored := by
  induction h with
  | array _ ih =>
    intro heap
    obtain ⟨hextends, hitems⟩ := restoreItems_of_isRestored ih heap
    exact ⟨hextends, .array hitems⟩
  | map _ _ ihkeys ihcontents =>
    intro heap
    obtain ⟨hextends, hentries⟩ := restoreEntries_of_isRestored ihkeys ihcontents heap
    exact ⟨hextends, describes_map_iff.mpr ⟨_, rfl, hentries⟩⟩
  | @object n t fields hnames _ ih =>
    intro heap
    obtain ⟨hextends, hfields⟩ := restoreFields_of_isRestored ih heap
    have hordered : (restoreFields fields heap).1.Pairwise (·.1 < ·.1) := by
      have hmap := map_eq_map_of_forall₂ (hfields.imp fun _ _ h => h.1)
      rwa [← List.pairwise_map (R := (· < ·)) (f := Prod.fst), hmap, List.pairwise_map] at hnames
    have hrestore : (Snapshot.object t fields).restore heap =
        (restoreFields fields heap).2.newObject t
          (Fields.ofList (restoreFields fields heap).1) := rfl
    rw [hrestore, Fields.ofList_eq_self hordered]
    have hnew := (restoreFields fields heap).2.extends_newObject t (restoreFields fields heap).1
    refine ⟨hextends.trans hnew, describes_object_iff.mpr ⟨_, rfl, Nat.lt_succ_self _, ?_⟩⟩
    rw [Heap.fields_newObject]
    exact hfields.imp fun _ _ h => ⟨h.1, h.2.extends hnew⟩
  | double name kind =>
    exact fun heap => ⟨heap.extends_newDouble name kind, .double ⟨heap.next, name, kind⟩⟩
  | _ =>
    intro heap
    exact ⟨.refl heap, by constructor⟩

end Snapshot

/-! ### Recorded calls -/

namespace RecordedCall

variable {U V W : Type}

/-- The values of a recorded call. -/
def values (c : RecordedCall V) : List V :=
  c.arguments ++ c.result.toList ++ c.receiver.toList

/-- Recorded calls that agree field by field, with values that are related one by one: what is
missing in one of them is missing in the other. -/
structure Alike (R : V → W → Prop) (c : RecordedCall V) (d : RecordedCall W) : Prop where
  method : d.method = c.method
  arguments : List.Forall₂ R c.arguments d.arguments
  namedFlag : d.namedFlag = c.namedFlag
  result : Option.Rel R c.result d.result
  receiver : Option.Rel R c.receiver d.receiver
  location : d.location = c.location
  testCase : d.testCase = c.testCase
  raised : d.raised = c.raised

variable {c : RecordedCall V} {d : RecordedCall W}

private theorem forall_values_iff {P : V → Prop} : (∀ v ∈ c.values, P v) ↔
    (∀ v ∈ c.arguments, P v) ∧ (∀ v ∈ c.result, P v) ∧ ∀ v ∈ c.receiver, P v := by
  simp only [values, List.forall_mem_append, and_assoc, Option.mem_toList, Option.mem_def]

private theorem values_map (f : V → W) (c : RecordedCall V) :
    (c.map f).values = c.values.map f := by
  simp [values, map, Option.toList_map]

/-- Values are related to what becomes of them. -/
theorem alike_map {R : V → W → Prop} {f : V → W} (h : ∀ v ∈ c.values, R v (f v)) :
    c.Alike R (c.map f) := by
  obtain ⟨harguments, hresult, hreceiver⟩ := forall_values_iff.mp h
  exact ⟨rfl, List.forall₂_map_right_iff.mpr (List.forall₂_same.mpr harguments), rfl,
    rel_map_of_mem hresult, rel_map_of_mem hreceiver, rfl, rfl, rfl⟩

/-- Calls that agree with a call in between agree through its values. -/
theorem Alike.comp {R : V → W → Prop} {S : W → U → Prop} {e : RecordedCall U} (h : c.Alike R d)
    (h' : d.Alike S e) : c.Alike (Relation.Comp R S) e where
  method := h'.method.trans h.method
  arguments := forall₂_comp h.arguments h'.arguments
  namedFlag := h'.namedFlag.trans h.namedFlag
  result := rel_comp h.result h'.result
  receiver := rel_comp h.receiver h'.receiver
  location := h'.location.trans h.location
  testCase := h'.testCase.trans h.testCase
  raised := h'.raised.trans h.raised

theorem Alike.imp {R S : V → W → Prop} (h : c.Alike R d) (himp : ∀ v w, R v w → S v w) :
    c.Alike S d :=
  { h with
    arguments := h.arguments.imp himp
    result := rel_imp h.result himp
    receiver := rel_imp h.receiver himp }

end RecordedCall

/-- Calls that agree field by field, with values that are related one by one: what is missing in
one of them is missing in the other. -/
structure Call.Alike (R : Value → Value → Prop) (c d : Call) : Prop where
  target : d.target = c.target
  method : d.method = c.method
  arguments : List.Forall₂ R c.arguments d.arguments
  namedFlag : d.namedFlag = c.namedFlag
  shape : d.shape = c.shape
  result : Option.Rel R c.result d.result
  receiver : Option.Rel R c.receiver d.receiver
  testCase : d.testCase = c.testCase
  location : d.location = c.location
  raised : d.raised = c.raised
  failure : d.failure = c.failure

/-- Recorded calls that agree stand for calls that agree, if they stand for calls at all. -/
theorem RecordedCall.Alike.toCall {R : Value → Value → Prop} {c d : RecordedCall Value}
    (h : c.Alike R d) : Except.Rel (Call.Alike R) c.toCall d.toCall := by
  rw [RecordedCall.toCall, RecordedCall.toCall, h.method]
  split
  · exact .error _
  · exact .ok ⟨rfl, rfl, h.arguments, by rw [h.namedFlag], rfl, h.result, h.receiver, h.testCase,
      h.location, h.raised, rfl⟩

namespace CallSnapshot

variable {r : CallSnapshot} {rs : List CallSnapshot} {heap : Heap} {n : Nat}

/-- **Calls with plain values** are read as they were written. -/
theorem ofJson?_toJson (h : ∀ s ∈ r.values, s.IsPlain n)
    (hn : 3 * n + 3 ≤ Snapshot.maxDepth - levels - 1) : ofJson? r.toJson = some r := by
  obtain ⟨harguments, hresult, hreceiver⟩ := RecordedCall.forall_values_iff.mp h
  have hnull (s : Snapshot) : s.toJson ≠ .null := by cases s <;> exact nofun
  have hmethod : text? (.string r.method) = some r.method := rfl
  have hbool (o : Option Bool) : optional? bool? (o.map .bool) = some o := by cases o <;> rfl
  have hlist : list? (Snapshot.ofJson? (Snapshot.maxDepth - levels - 1))
      (some (.array (Snapshot.itemsToJson r.arguments))) = some r.arguments := by
    rw [Snapshot.itemsToJson_eq_map, list?, List.mapM_map]
    exact mapM_eq_self fun s hs => (harguments s hs).ofJson?_toJson hn
  have hoption {o : Option Snapshot} (ho : ∀ s ∈ o, s.IsPlain n) :
      optional? (Snapshot.ofJson? (Snapshot.maxDepth - levels)) (o.map Snapshot.toJson) = some o :=
    optional?_map_eq_self hnull fun s hs => (ho s hs).ofJson?_toJson (by omega)
  rw [ofJson?, structure?_toJson]
  simp only [Option.bind_eq_bind, Option.bind_some, hmethod, hbool, hlist, hoption hresult,
    hoption hreceiver, optional?_text?_map, Option.pure_def]

private theorem restoreOption_of_isRestored {o : Option Snapshot} (h : ∀ s ∈ o, s.IsRestored)
    (heap : Heap) : heap.Extends (restoreOption o heap).2 ∧
      Option.Rel (Snapshot.Describes (restoreOption o heap).2) o (restoreOption o heap).1 := by
  cases o with
  | none => exact ⟨.refl heap, .none⟩
  | some s =>
    obtain ⟨hextends, hdescribes⟩ := h s rfl heap
    exact ⟨hextends, .some hdescribes⟩

/-- The values of a call are created from left to right, each in the heap of those before it. -/
theorem restoreValues_alike (h : ∀ s ∈ r.values, s.IsRestored) (heap : Heap) :
    heap.Extends (r.restoreValues heap).2 ∧
      r.Alike (Snapshot.Describes (r.restoreValues heap).2) (r.restoreValues heap).1 := by
  obtain ⟨harguments, hresult, hreceiver⟩ := RecordedCall.forall_values_iff.mp h
  obtain ⟨hextends₁, hdescribes₁⟩ := Snapshot.restoreItems_of_isRestored harguments heap
  obtain ⟨hextends₂, hdescribes₂⟩ := restoreOption_of_isRestored hresult
    (Snapshot.restoreItems r.arguments heap).2
  obtain ⟨hextends₃, hdescribes₃⟩ := restoreOption_of_isRestored hreceiver
    (restoreOption r.result (Snapshot.restoreItems r.arguments heap).2).2
  exact ⟨hextends₁.trans (hextends₂.trans hextends₃), rfl,
    hdescribes₁.imp fun _ _ h => h.extends (hextends₂.trans hextends₃), rfl,
    rel_imp hdescribes₂ fun _ _ h => h.extends hextends₃, hdescribes₃, rfl, rfl, rfl⟩

/-- Creates the values of recorded calls in order. -/
def restoreAllValues : List CallSnapshot → Heap → List (RecordedCall Value) × Heap
  | [], heap => ([], heap)
  | r :: rs, heap =>
    let (c, heap) := r.restoreValues heap
    let (cs, heap) := restoreAllValues rs heap
    (c :: cs, heap)

/-- Calls are restored by creating their values and reading the references to their methods. -/
theorem restoreAll_eq_mapM (rs : List CallSnapshot) (heap : Heap) :
    restoreAll rs heap = ((restoreAllValues rs heap).1.mapM RecordedCall.toCall).map
      fun calls => (calls, (restoreAllValues rs heap).2) := by
  induction rs generalizing heap with
  | nil => rfl
  | cons r rs ih =>
    have hrestore : r.restore heap =
        (r.restoreValues heap).1.toCall.map fun c => (c, (r.restoreValues heap).2) := by
      show (do return (← (r.restoreValues heap).1.toCall, (r.restoreValues heap).2)) = _
      cases (r.restoreValues heap).1.toCall <;> rfl
    rw [restoreAll, hrestore, restoreAllValues, List.mapM_cons]
    cases (r.restoreValues heap).1.toCall with
    | error e => rfl
    | ok c =>
      show (restoreAll rs (r.restoreValues heap).2 >>= fun p => pure (c :: p.1, p.2)) = _
      rw [ih]
      cases (restoreAllValues rs (r.restoreValues heap).2).1.mapM RecordedCall.toCall <;> rfl

private theorem restoreAllValues_alike (h : ∀ r ∈ rs, ∀ s ∈ r.values, s.IsRestored) (heap : Heap) :
    heap.Extends (restoreAllValues rs heap).2 ∧
      List.Forall₂ (RecordedCall.Alike (Snapshot.Describes (restoreAllValues rs heap).2)) rs
        (restoreAllValues rs heap).1 := by
  induction rs generalizing heap with
  | nil => exact ⟨.refl heap, .nil⟩
  | cons r rs ih =>
    obtain ⟨hr, hrs⟩ := List.forall_mem_cons.mp h
    obtain ⟨hextends, halike⟩ := restoreValues_alike hr heap
    obtain ⟨hextends', hrest⟩ := ih hrs (r.restoreValues heap).2
    exact ⟨hextends.trans hextends', .cons (halike.imp fun _ _ h => h.extends hextends') hrest⟩

end CallSnapshot

/-! ### Recordings -/

/-- Recorded types are read as they were written. -/
theorem TypeSnapshot.ofJson?_toJson (t : TypeSnapshot) : ofJson? t.toJson = some t := by
  have hstructure : structure? ["name", "superclass"] t.toJson =
      some [some (.string t.name), t.superclass.map .string] := by
    rw [toJson, Json.structure?_object]
    simp [List.filter_cons, filter_member, given?_member, given?_singleton]
  have hname : text? (.string t.name) = some t.name := rfl
  rw [ofJson?, hstructure]
  simp [hname, optional?_text?_map]

namespace Recording

/-- **Recordings of plain values** are read as they were written. -/
theorem parse?_text {r : Recording} {n : Nat} (h : ∀ c ∈ r.calls, ∀ s ∈ c.values, s.IsPlain n)
    (hn : 3 * n + 3 ≤ Snapshot.maxDepth - CallSnapshot.levels - 1) : parse? r.text = some r := by
  have hstructure : structure? ["types", "calls"] r.toJson =
      some [some (.array (r.types.map (·.toJson))), some (.array (r.calls.map (·.toJson)))] := rfl
  have htypes : list? TypeSnapshot.ofJson? (some (.array (r.types.map (·.toJson)))) =
      some r.types := by
    rw [list?, List.mapM_map]
    exact mapM_eq_self fun t _ => t.ofJson?_toJson
  have hcalls : list? CallSnapshot.ofJson? (some (.array (r.calls.map (·.toJson)))) =
      some r.calls := by
    rw [list?, List.mapM_map]
    exact mapM_eq_self fun c hc => CallSnapshot.ofJson?_toJson (h c hc) hn
  rw [parse?, text, parse?_prettyText
    (isProper_toJson fun c hc s hs => (h c hc s hs).isRepresentable)]
  simp only [Option.bind_eq_bind, Option.bind_some]
  rw [ofJson?, hstructure]
  simp only [Option.bind_eq_bind, Option.bind_some, htypes, hcalls, Option.pure_def]

/-- What is written of recorded types and calls, with the values as they are now. -/
def ofRecorded (heap : Heap) (types : List TypeSnapshot) (calls : List (RecordedCall Value)) :
    Recording :=
  ⟨types, calls.map (·.map (Snapshot.ofValue heap))⟩

/-- The calls of a recording with their values created anew. -/
def readCalls (r : Recording) (heap : Heap) : List (RecordedCall Value) × Heap :=
  CallSnapshot.restoreAllValues r.calls heap

/-- **Recordings lose nothing.** If the values of the recorded calls hold no floating-point numbers
and are nested at most 30 deep, then the recording is read again, with the same types and the same
calls field by field, and with values of the same structure; what is missing in a call stays
missing. Reading leaves the objects that are there already as they are. Restoring the calls fails as
it does for the recorded calls themselves, or gives calls that agree with those they stand for. -/
theorem ofRecorded_lossless {heap : Heap} (hheap : heap.IsOrdered) (types : List TypeSnapshot)
    {calls : List (RecordedCall Value)}
    (hcalls : ∀ c ∈ calls, ∀ v ∈ c.values, v.IsPlain heap 30) :
    ∃ r, parse? (ofRecorded heap types calls).text = some r ∧ r.types = types ∧
      ∀ heap' : Heap, heap'.Extends (r.readCalls heap').2 ∧
        List.Forall₂ (RecordedCall.Alike (Value.SameStructure heap (r.readCalls heap').2))
          calls (r.readCalls heap').1 ∧
        Except.Rel (fun originals restored => restored.2 = (r.readCalls heap').2 ∧
            List.Forall₂ (Call.Alike (Value.SameStructure heap restored.2)) originals restored.1)
          (calls.mapM RecordedCall.toCall) (r.restoreCalls heap') := by
  have hvalue : ∀ c ∈ calls, ∀ v ∈ c.values, (Snapshot.ofValue heap v).Describes heap v ∧
      (Snapshot.ofValue heap v).IsPlain 30 := by
    intro c hc v hv
    obtain ⟨s, hdescribes, hplain⟩ := (hcalls c hc v hv).exists_describes hheap
    rw [hdescribes.ofValue_eq]
    exact ⟨hdescribes, hplain⟩
  have hplain : ∀ c ∈ (ofRecorded heap types calls).calls, ∀ s ∈ c.values, s.IsPlain 30 := by
    refine List.forall_mem_map.mpr fun c hc => ?_
    rw [RecordedCall.values_map, List.forall_mem_map]
    exact fun v hv => (hvalue c hc v hv).2
  refine ⟨_, parse?_text hplain (by decide), rfl, fun heap' => ?_⟩
  obtain ⟨hextends, hread⟩ := CallSnapshot.restoreAllValues_alike
    (fun c hc s hs => (hplain c hc s hs).isRestored) heap'
  have hwritten : List.Forall₂ (RecordedCall.Alike fun v s => Snapshot.Describes heap s v) calls
      (ofRecorded heap types calls).calls :=
    List.forall₂_map_right_iff.mpr (List.forall₂_same.mpr fun c hc =>
      RecordedCall.alike_map fun v hv => (hvalue c hc v hv).1)
  have halike : List.Forall₂ (RecordedCall.Alike (Value.SameStructure heap
      ((ofRecorded heap types calls).readCalls heap').2)) calls
      ((ofRecorded heap types calls).readCalls heap').1 :=
    (forall₂_comp hwritten hread).imp fun _ _ ⟨_, hc, hd⟩ => hc.comp hd
  refine ⟨hextends, halike, ?_⟩
  rw [restoreCalls, CallSnapshot.restoreAll_eq_mapM]
  exact (Except.rel_mapM halike fun _ _ h => h.toCall).map_right fun _ _ h => ⟨rfl, h⟩

/-- A gauge with two fields. -/
def gauges : Heap :=
  (Heap.empty.newObject "Gauge" (Fields.ofList [("unit", .str "mm"), ("level", .int 3)])).2

/-- One call returns nil, has nil as its receiver, and takes the gauge, a map that repeats a key,
and doubles of all kinds. The other never returned and has no receiver. -/
def reports : List (RecordedCall Value) :=
  [{ method := "Report#add"
     arguments := [.object 0 "Gauge",
       .map [(.symbol "note", .str "a \"full\"\nline"), (.symbol "note", .array [.bool true])],
       .double ⟨1, none, .plain⟩, .double ⟨2, some "gauge", .instanceOf "Gauge"⟩,
       .double ⟨3, some "gauges", .staticOf "Gauge"⟩, .type "Gauge"]
     namedFlag := some true
     result := some .nil
     receiver := some .nil
     testCase := some "adds a gauge" },
   { method := "Report.new" }]

/-- The reports are read as they were recorded, even where nothing is known of them. -/
theorem ofRecorded_lossless_reports :
    gauges.IsOrdered ∧ (∀ c ∈ reports, ∀ v ∈ c.values, v.IsPlain gauges 30) ∧
      (∃ originals, reports.mapM RecordedCall.toCall = .ok originals) ∧
      ∃ r, parse? (ofRecorded gauges [⟨"Gauge", none⟩] reports).text = some r ∧
        r.types = [⟨"Gauge", none⟩] ∧
        ∀ heap' : Heap, heap'.Extends (r.readCalls heap').2 ∧
          List.Forall₂ (RecordedCall.Alike (Value.SameStructure gauges (r.readCalls heap').2))
            reports (r.readCalls heap').1 ∧
          Except.Rel (fun originals restored => restored.2 = (r.readCalls heap').2 ∧
              List.Forall₂ (Call.Alike (Value.SameStructure gauges restored.2))
                originals restored.1)
            (reports.mapM RecordedCall.toCall) (r.restoreCalls heap') := by
  have hordered : gauges.IsOrdered := Heap.IsOrdered.empty.newObject _ _
  have hgauge : (Value.object 0 "Gauge").IsPlain gauges 30 := by
    have hfields : gauges.fields 0 = [("level", .int 3), ("unit", .str "mm")] := rfl
    refine .object _ (by decide) ?_
    rw [hfields]
    simp only [List.forall_mem_cons]
    exact ⟨.int 3, .str "mm", List.forall_mem_nil _⟩
  have hplain : ∀ c ∈ reports, ∀ v ∈ c.values, v.IsPlain gauges 30 := by
    have hmap : (Value.map [(.symbol "note", .str "a \"full\"\nline"),
        (.symbol "note", .array [.bool true])]).IsPlain gauges 30 := by
      refine .map ?_ ?_ <;> simp only [List.forall_mem_cons]
      · exact ⟨.symbol _, .symbol _, List.forall_mem_nil _⟩
      · exact ⟨.str _, .array (List.forall_mem_singleton.mpr (.bool true)), List.forall_mem_nil _⟩
    simp only [reports, List.forall_mem_cons, RecordedCall.forall_values_iff]
    exact ⟨⟨⟨hgauge, hmap, .double _, .double _, .double _, .type _, List.forall_mem_nil _⟩,
        fun _ h => Option.some.inj h ▸ .nil, fun _ h => Option.some.inj h ▸ .nil⟩,
      ⟨List.forall_mem_nil _, fun _ h => (by cases h), fun _ h => (by cases h)⟩,
      List.forall_mem_nil _⟩
  exact ⟨hordered, hplain, ⟨_, rfl⟩, ofRecorded_lossless hordered _ hplain⟩

end Recording

end MockAudit
