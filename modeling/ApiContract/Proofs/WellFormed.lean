import Mathlib.Data.List.Nodup
import ApiContract.Proofs.Compilation
import ApiContract.Proofs.Entries
import ApiContract.Proofs.Induction

/-!
# Well-formed values and schemas

Dictionaries are lists of entries, and nothing in the type keeps a key from being bound twice. In a
well-formed value every dictionary binds each key once, and in a well-formed schema every object declares
each key once and every default is a well-formed value that is not absent. What is read from a request
and what an application declares are of this kind.

`Value.Everywhere` and `Schema.Everywhere` say that a property holds of a tree and of all trees in it.
-/

namespace ApiContract

namespace Value

mutual
/-- A property holds of a value and of all values in it; the keys of dictionaries are left out. -/
def Everywhere (P : Value → Prop) : Value → Prop
  | .list xs => P (.list xs) ∧ EverywhereIn P xs
  | .tuple xs => P (.tuple xs) ∧ EverywhereIn P xs
  | .set xs => P (.set xs) ∧ EverywhereIn P xs
  | .dict entries => P (.dict entries) ∧ EverywhereAmong P entries
  | v => P v
termination_by structural v => v

def EverywhereIn (P : Value → Prop) : List Value → Prop
  | [] => True
  | x :: xs => x.Everywhere P ∧ EverywhereIn P xs
termination_by structural xs => xs

def EverywhereAmong (P : Value → Prop) : List (Value × Value) → Prop
  | [] => True
  | (_, v) :: rest => v.Everywhere P ∧ EverywhereAmong P rest
termination_by structural entries => entries
end

variable {P : Value → Prop}

theorem everywhereIn_iff {xs : List Value} : EverywhereIn P xs ↔ ∀ x ∈ xs, x.Everywhere P := by
  induction xs with
  | nil => simp [EverywhereIn]
  | cons x xs ih => simp [EverywhereIn, ih]

theorem everywhereAmong_iff {entries : List (Value × Value)} :
    EverywhereAmong P entries ↔ ∀ e ∈ entries, e.2.Everywhere P := by
  induction entries with
  | nil => simp [EverywhereAmong]
  | cons e entries ih =>
      obtain ⟨key, v⟩ := e
      simp only [EverywhereAmong, ih, List.forall_mem_cons]

@[simp] theorem everywhere_list {xs : List Value} :
    (Value.list xs).Everywhere P ↔ P (.list xs) ∧ ∀ x ∈ xs, x.Everywhere P := by
  rw [← everywhereIn_iff]
  exact Iff.rfl

@[simp] theorem everywhere_tuple {xs : List Value} :
    (Value.tuple xs).Everywhere P ↔ P (.tuple xs) ∧ ∀ x ∈ xs, x.Everywhere P := by
  rw [← everywhereIn_iff]
  exact Iff.rfl

@[simp] theorem everywhere_dict {entries : List (Value × Value)} :
    (Value.dict entries).Everywhere P ↔ P (.dict entries) ∧ ∀ e ∈ entries, e.2.Everywhere P := by
  rw [← everywhereAmong_iff]
  exact Iff.rfl

theorem Everywhere.here {v : Value} (h : v.Everywhere P) : P v := by
  cases v with
  | list xs => exact h.1
  | tuple xs => exact h.1
  | set xs => exact h.1
  | dict entries => exact h.1
  | _ => exact h

/-- The items of a list or tuple are values in it. -/
theorem Everywhere.items {v : Value} {xs : List Value} (h : v.Everywhere P) (hv : v.items? = some xs) :
    ∀ x ∈ xs, x.Everywhere P := by
  cases v with
  | list ys =>
      cases hv
      exact (everywhere_list.mp h).2
  | tuple ys =>
      cases hv
      exact (everywhere_tuple.mp h).2
  | _ => cases hv

/-- No key of the entries is equal to an earlier one. -/
def KeysDiffer (entries : List (Value × Value)) : Prop :=
  entries.Pairwise fun earlier later => later.1.same earlier.1 = false

/-- A dictionary binds each key once. -/
def BindsOnce : Value → Prop
  | .dict entries => KeysDiffer entries
  | _ => True

/-- Every dictionary in the value binds each key once. -/
def WellFormed (v : Value) : Prop := v.Everywhere BindsOnce

theorem wellFormed_list {xs : List Value} : (Value.list xs).WellFormed ↔ ∀ x ∈ xs, x.WellFormed := by
  rw [WellFormed, everywhere_list]
  exact and_iff_right trivial

theorem wellFormed_dict {entries : List (Value × Value)} :
    (Value.dict entries).WellFormed ↔ KeysDiffer entries ∧ ∀ e ∈ entries, e.2.WellFormed :=
  everywhere_dict

theorem WellFormed.items {v : Value} {xs : List Value} (h : v.WellFormed) (hv : v.items? = some xs) :
    ∀ x ∈ xs, x.WellFormed :=
  Everywhere.items h hv

/-- Where the keys differ, an entry with a text key is the one that is found under it. -/
theorem lookup?_of_mem {entries : List (Value × Value)} (h : KeysDiffer entries) {s : String}
    {v : Value} (hmem : (.str s, v) ∈ entries) : lookup? (.str s) entries = some v := by
  induction entries with
  | nil => cases hmem
  | cons e rest ih =>
      obtain ⟨hhead, htail⟩ := List.pairwise_cons.mp h
      rw [lookup?, List.find?_cons]
      rcases List.mem_cons.mp hmem with rfl | hmem
      · rw [same_str_left.mpr rfl]
        rfl
      · rw [hhead _ hmem]
        exact ih htail hmem

/-- Entries with the same keys in the same order have differing keys together. -/
theorem KeysDiffer.congr {entries entries' : List (Value × Value)}
    (h : KeysDiffer entries) (hkeys : entries'.map (·.1) = entries.map (·.1)) :
    KeysDiffer entries' := by
  have hmap : (entries.map (·.1)).Pairwise fun earlier later => later.same earlier = false :=
    List.pairwise_map.mpr h
  rw [← hkeys] at hmap
  exact List.pairwise_map.mp hmap

end Value

namespace Schema

mutual
/-- A property holds of a schema and of all schemas in it. -/
def Everywhere (P : Schema → Prop) : Schema → Prop
  | .array a f items => P (.array a f items) ∧ items.Everywhere P
  | .object a f ps => P (.object a f ps) ∧ EverywhereAmong P ps
  | .nullable a inner => P (.nullable a inner) ∧ inner.Everywhere P
  | .refined a r base => P (.refined a r base) ∧ base.Everywhere P
  | s => P s
termination_by structural s => s

def EverywhereAmong (P : Schema → Prop) : List (Value × Schema) → Prop
  | [] => True
  | (_, s) :: rest => s.Everywhere P ∧ EverywhereAmong P rest
termination_by structural ps => ps
end

variable {P : Schema → Prop}

theorem everywhereAmong_iff {ps : List (Value × Schema)} :
    EverywhereAmong P ps ↔ ∀ p ∈ ps, p.2.Everywhere P := by
  induction ps with
  | nil => simp [EverywhereAmong]
  | cons p ps ih =>
      obtain ⟨key, s⟩ := p
      simp only [EverywhereAmong, ih, List.forall_mem_cons]

theorem everywhere_object {a : Annotations} {f : ObjectFields} {ps : List (Value × Schema)} :
    (Schema.object a f ps).Everywhere P ↔ P (.object a f ps) ∧ ∀ p ∈ ps, p.2.Everywhere P := by
  rw [← everywhereAmong_iff]
  exact Iff.rfl

theorem Everywhere.here {s : Schema} (h : s.Everywhere P) : P s := by
  cases s with
  | array a f items => exact h.1
  | object a f ps => exact h.1
  | nullable a inner => exact h.1
  | refined a r base => exact h.1
  | _ => exact h

/-- An object declares each key once. -/
def DeclaresOnce : Schema → Prop
  | .object _ _ ps => ps.Pairwise fun earlier later => later.1.same earlier.1 = false
  | _ => True

/-- A default is a well-formed value, and not an absent one. -/
def DefaultWellFormed (s : Schema) : Prop :=
  ∀ d, s.default? = some d → d.isAbsent = false ∧ d.WellFormed

theorem DefaultWellFormed.of_none {s : Schema} (h : s.default? = none) : s.DefaultWellFormed := by
  intro d hd
  rw [h] at hd
  cases hd

/-- Every object in the schema declares each key once, and every default is a well-formed value. -/
structure WellFormed (s : Schema) : Prop where
  declaresOnce : s.Everywhere DeclaresOnce
  defaults : s.Everywhere DefaultWellFormed

/-! ### Names of well-formed schemas -/

/-- The keys of properties are pairwise different texts. -/
structure Names (ps : List (Value × Schema)) : Prop where
  texts : ∀ p ∈ ps, ∃ name, p.1 = .str name
  differ : (ps.map (·.1)).Nodup

/-- The keys that an object declares are pairwise different texts. -/
def NamesProperties : Schema → Prop
  | .object _ _ ps => Names ps
  | _ => True

/-- Every object in the schema declares pairwise different texts. -/
def Named (s : Schema) : Prop := s.Everywhere NamesProperties

theorem Named.names {a : Annotations} {f : ObjectFields} {ps : List (Value × Schema)}
    (h : (Schema.object a f ps).Named) : Names ps :=
  Everywhere.here h

theorem Named.property {a : Annotations} {f : ObjectFields} {ps : List (Value × Schema)}
    (h : (Schema.object a f ps).Named) {p : Value × Schema} (hp : p ∈ ps) : p.2.Named :=
  (everywhere_object.mp h).2 p hp

/-- The children of an object have different names. -/
theorem nodup_children {path : String} {ps : List (Value × Schema)} {children : List (String × Validator)}
    (hchildren : List.Forall₂ (PropertyCompiled path) ps children) (hnames : Names ps) :
    (children.map (·.1)).Nodup := by
  have hkeys : ps.map (·.1) = (children.map (·.1)).map Value.str := by
    rw [← List.forall₂_eq_eq_eq, List.map_map, List.forall₂_map_left_iff, List.forall₂_map_right_iff]
    exact hchildren.imp fun p c hpc => hpc.1
  exact List.Nodup.of_map _ (hkeys ▸ hnames.differ)

/-- A schema that compiles names its properties by texts; if it declares each key once, these are
pairwise different. -/
theorem named_of_compileAt {s : Schema} {path : String} {validator : Validator}
    (h : s.compileAt path = .ok validator) (hs : s.Everywhere DeclaresOnce) : s.Named := by
  induction s using Schema.induction generalizing path validator with
  | string a f => trivial
  | number a f => trivial
  | integer a f => trivial
  | boolean a => trivial
  | array a f items ih =>
      obtain ⟨rule, child, -, hchild, -⟩ := compileAt_array h
      exact ⟨trivial, ih hchild hs.2⟩
  | object a f ps ih =>
      obtain ⟨children, hchildren, -⟩ := compileAt_object h
      obtain ⟨honce, hrest⟩ := everywhere_object.mp hs
      have htexts := texts_of_compileAt h
      refine everywhere_object.mpr ⟨⟨htexts, ?_⟩, ?_⟩
      · refine List.pairwise_map.mpr (List.Pairwise.imp_of_mem ?_ honce)
        intro p q hp hq hdiffer heq
        obtain ⟨name, hname⟩ := htexts p hp
        rw [← heq, hname, Value.same_str_left.mpr rfl] at hdiffer
        cases hdiffer
      · intro p hp
        obtain ⟨c, -, -, hcompiled⟩ := exists_right_of_forall₂ hchildren hp
        exact ih p hp hcompiled (hrest p hp)
  | nullable a inner ih =>
      obtain ⟨child, hchild, -⟩ := compileAt_nullable h
      exact ⟨trivial, ih hchild hs.2⟩
  | refined a r base ih =>
      obtain ⟨p, message, child, -, -, hchild, -⟩ := compileAt_refined h
      exact ⟨trivial, ih hchild hs.2⟩
  | bare a => exact absurd h compileAt_bare_ne
  | foreign w => exact absurd h compileAt_foreign_ne

/-! ### The property of a key -/

/-- Names are texts, and a text is equal to itself alone. -/
theorem Names.key_eq {ps : List (Value × Schema)} (h : Names ps) {p : Value × Schema} (hp : p ∈ ps)
    {key : Value} (hsame : p.1.same key = true) : key = p.1 := by
  obtain ⟨name, hname⟩ := h.texts p hp
  rw [hname, Value.same_str_left] at hsame
  exact hsame.trans hname.symm

/-- What is found under a key is the schema of a property with this key. -/
theorem mem_of_property? {ps : List (Value × Schema)} (h : Names ps) {key : Value} {s : Schema}
    (hs : property? key ps = some s) : (key, s) ∈ ps := by
  obtain ⟨p, hp, rfl⟩ := Option.map_eq_some_iff.mp hs
  have hkey := List.find?_some hp
  have hmem := List.mem_of_find?_eq_some hp
  obtain ⟨name, hname⟩ := h.texts p hmem
  rw [hname, Value.same_str_right, ← hname] at hkey
  rw [hkey]
  exact hmem

theorem property?_eq_none_iff {ps : List (Value × Schema)} {key : Value} :
    property? key ps = none ↔ ∀ p ∈ ps, key.same p.1 = false := by
  simp [property?]

/-- Among differing names a property is the one that is found under its key. -/
theorem property?_of_mem {ps : List (Value × Schema)} (h : Names ps) {p : Value × Schema}
    (hp : p ∈ ps) : property? p.1 ps = some p.2 := by
  cases hfound : property? p.1 ps with
  | none =>
      obtain ⟨name, hname⟩ := h.texts p hp
      have hsame := property?_eq_none_iff.mp hfound p hp
      rw [hname, Value.same_str_left.mpr rfl] at hsame
      cases hsame
  | some s =>
      have hmem := mem_of_property? h hfound
      rw [List.inj_on_of_nodup_map h.differ hp hmem rfl]

end Schema

end ApiContract
