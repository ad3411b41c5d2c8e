import ApiContract.Normalization.Defaults
import ApiContract.Proofs.WellFormed

/-!
# Parts of values and nodes of schemas

`Value.parts` lists the values in a value and `Schema.nodes` the schemas in a schema, each with the tree
itself in front. A property holds everywhere in a tree exactly if it holds of everything listed
(`everywhere_iff_parts`, `everywhere_iff_nodes`). What a schema declares as a whole is collected from its
nodes: its defaults, the keys in them and the names of its properties. `Value.IsJson` tells the values
of JSON from all others.
-/

namespace ApiContract

namespace Value

mutual
/-- A value and all values in it; the keys of dictionaries are left out. -/
def parts : Value → List Value
  | .list xs => .list xs :: partsIn xs
  | .tuple xs => .tuple xs :: partsIn xs
  | .set xs => .set xs :: partsIn xs
  | .dict entries => .dict entries :: partsAmong entries
  | v => [v]
termination_by structural v => v

def partsIn : List Value → List Value
  | [] => []
  | x :: xs => x.parts ++ partsIn xs
termination_by structural xs => xs

def partsAmong : List (Value × Value) → List Value
  | [] => []
  | (_, v) :: rest => v.parts ++ partsAmong rest
termination_by structural entries => entries
end

theorem partsIn_eq (xs : List Value) : partsIn xs = xs.flatMap parts := by
  induction xs with
  | nil => rfl
  | cons x xs ih => rw [List.flatMap_cons, ← ih, partsIn]

theorem partsAmong_eq (entries : List (Value × Value)) :
    partsAmong entries = entries.flatMap fun e => e.2.parts := by
  induction entries with
  | nil => rfl
  | cons e entries ih =>
      obtain ⟨key, v⟩ := e
      rw [List.flatMap_cons, ← ih, partsAmong]

theorem parts_list (xs : List Value) : (Value.list xs).parts = .list xs :: xs.flatMap parts := by
  rw [← partsIn_eq]
  rfl

theorem parts_tuple (xs : List Value) : (Value.tuple xs).parts = .tuple xs :: xs.flatMap parts := by
  rw [← partsIn_eq]
  rfl

theorem parts_set (xs : List Value) : (Value.set xs).parts = .set xs :: xs.flatMap parts := by
  rw [← partsIn_eq]
  rfl

theorem parts_dict (entries : List (Value × Value)) :
    (Value.dict entries).parts = .dict entries :: entries.flatMap fun e => e.2.parts := by
  rw [← partsAmong_eq]
  rfl

theorem everywhere_set {P : Value → Prop} {xs : List Value} :
    (Value.set xs).Everywhere P ↔ P (.set xs) ∧ ∀ x ∈ xs, x.Everywhere P := by
  rw [← everywhereIn_iff]
  exact Iff.rfl

theorem everywhere_iff_parts {P : Value → Prop} {v : Value} :
    v.Everywhere P ↔ ∀ w ∈ v.parts, P w := by
  induction v using Value.induction with
  | list xs ih =>
      rw [everywhere_list, parts_list, List.forall_mem_cons]
      exact and_congr_right fun _ => forall_mem_flatMap_iff ih
  | tuple xs ih =>
      rw [everywhere_tuple, parts_tuple, List.forall_mem_cons]
      exact and_congr_right fun _ => forall_mem_flatMap_iff ih
  | set xs ih =>
      rw [everywhere_set, parts_set, List.forall_mem_cons]
      exact and_congr_right fun _ => forall_mem_flatMap_iff ih
  | dict entries ih =>
      rw [everywhere_dict, parts_dict, List.forall_mem_cons]
      exact and_congr_right fun _ => forall_mem_flatMap_iff fun e he => (ih e he).2
  | _ => simp [Everywhere, parts]

theorem Everywhere.imp {P Q : Value → Prop} {v : Value} (h : v.Everywhere P)
    (himp : ∀ w, P w → Q w) : v.Everywhere Q :=
  everywhere_iff_parts.mpr fun w hw => himp w (everywhere_iff_parts.mp h w hw)

theorem mem_parts_self (v : Value) : v ∈ v.parts := by
  cases v <;> exact List.mem_cons_self

/-- The keys of all dictionaries in a value. -/
def keys (v : Value) : List Value :=
  v.parts.flatMap fun
    | .dict entries => entries.map (·.1)
    | _ => []

/-- A value of a kind that JSON has; the keys of a dictionary are texts. -/
def JsonForm : Value → Prop
  | .null | .bool _ | .int _ | .float _ | .str _ | .list _ => True
  | .dict entries => ∀ e ∈ entries, ∃ name, e.1 = .str name
  | _ => False

/-- A value that JSON has. -/
def IsJson (v : Value) : Prop := v.Everywhere JsonForm

theorem IsJson.isAbsent {v : Value} (hv : v.IsJson) : v.isAbsent = false := by
  cases v with
  | absent => exact absurd hv id
  | _ => rfl

end Value

namespace Schema

mutual
/-- A schema and all schemas in it. -/
def nodes : Schema → List Schema
  | .array a f items => .array a f items :: items.nodes
  | .object a f ps => .object a f ps :: nodesAmong ps
  | .nullable a inner => .nullable a inner :: inner.nodes
  | .refined a r base => .refined a r base :: base.nodes
  | s => [s]
termination_by structural s => s

def nodesAmong : List (Value × Schema) → List Schema
  | [] => []
  | (_, s) :: rest => s.nodes ++ nodesAmong rest
termination_by structural ps => ps
end

theorem nodesAmong_eq (ps : List (Value × Schema)) : nodesAmong ps = ps.flatMap fun p => p.2.nodes := by
  induction ps with
  | nil => rfl
  | cons p ps ih =>
      obtain ⟨key, s⟩ := p
      rw [List.flatMap_cons, ← ih, nodesAmong]

theorem nodes_object (a : Annotations) (f : ObjectFields) (ps : List (Value × Schema)) :
    (Schema.object a f ps).nodes = .object a f ps :: ps.flatMap fun p => p.2.nodes := by
  rw [← nodesAmong_eq]
  rfl

theorem mem_nodes_self (s : Schema) : s ∈ s.nodes := by
  cases s <;> exact List.mem_cons_self

/-- The nodes of a property are nodes of the object. -/
theorem nodes_property_subset {a : Annotations} {f : ObjectFields} {ps : List (Value × Schema)}
    {p : Value × Schema} (hp : p ∈ ps) : p.2.nodes ⊆ (Schema.object a f ps).nodes := by
  rw [nodes_object]
  intro n hn
  exact List.mem_cons_of_mem _ (List.mem_flatMap.mpr ⟨p, hp, hn⟩)

theorem object?_eq_some {s : Schema} {f : ObjectFields} {ps : List (Value × Schema)}
    (h : s.object? = some (f, ps)) : ∃ a, s.unwrap = .object a f ps := by
  unfold object? at h
  split at h
  · rename_i a f' ps' hnode
    obtain ⟨rfl, rfl⟩ := Prod.mk.inj (Option.some.inj h)
    exact ⟨a, hnode⟩
  · cases h

theorem nodes_unwrap_subset (s : Schema) : s.unwrap.nodes ⊆ s.nodes := by
  induction s using Schema.induction with
  | refined a r base ih =>
      rw [unwrap_refined]
      exact List.Subset.trans ih (List.subset_cons_self _ _)
  | _ => exact List.Subset.refl _

theorem everywhere_iff_nodes {P : Schema → Prop} {s : Schema} :
    s.Everywhere P ↔ ∀ n ∈ s.nodes, P n := by
  induction s using Schema.induction with
  | array a f items ih => simp [Everywhere, nodes, ih]
  | object a f ps ih =>
      rw [everywhere_object, nodes_object, List.forall_mem_cons]
      exact and_congr_right fun _ => forall_mem_flatMap_iff ih
  | nullable a inner ih => simp [Everywhere, nodes, ih]
  | refined a r base ih => simp [Everywhere, nodes, ih]
  | _ => simp [Everywhere, nodes]

theorem Everywhere.imp {P Q : Schema → Prop} {s : Schema} (h : s.Everywhere P)
    (himp : ∀ n, P n → Q n) : s.Everywhere Q :=
  everywhere_iff_nodes.mpr fun n hn => himp n (everywhere_iff_nodes.mp h n hn)

/-- The defaults that the schema declares. -/
def defaults (s : Schema) : List Value := s.nodes.filterMap default?

/-- The keys of all dictionaries in the defaults. -/
def defaultKeys (s : Schema) : List Value := s.defaults.flatMap Value.keys

/-- The names of the properties that the objects in the schema declare. -/
def names (s : Schema) : List String :=
  s.nodes.flatMap fun
    | .object _ _ ps => textKeys (ps.map (·.1))
    | _ => []

theorem defaults_mono {s s' : Schema} (h : s.nodes ⊆ s'.nodes) : s.defaults ⊆ s'.defaults := by
  intro d hd
  obtain ⟨n, hn, hdefault⟩ := List.mem_filterMap.mp hd
  exact List.mem_filterMap.mpr ⟨n, h hn, hdefault⟩

theorem defaultKeys_mono {s s' : Schema} (h : s.nodes ⊆ s'.nodes) :
    s.defaultKeys ⊆ s'.defaultKeys := by
  intro key hkey
  obtain ⟨d, hd, hkey⟩ := List.mem_flatMap.mp hkey
  exact List.mem_flatMap.mpr ⟨d, defaults_mono h hd, hkey⟩

theorem names_mono {s s' : Schema} (h : s.nodes ⊆ s'.nodes) : s.names ⊆ s'.names := by
  intro name hname
  obtain ⟨n, hn, hname⟩ := List.mem_flatMap.mp hname
  exact List.mem_flatMap.mpr ⟨n, h hn, hname⟩

theorem mem_names {a : Annotations} {f : ObjectFields} {ps : List (Value × Schema)}
    {p : Value × Schema} (hp : p ∈ ps) {name : String} (hname : p.1 = .str name) :
    name ∈ (Schema.object a f ps).names := by
  refine List.mem_flatMap.mpr ⟨_, mem_nodes_self _, mem_textKeys.mpr ?_⟩
  rw [← hname]
  exact List.mem_map_of_mem hp

/-- The default in the place of an absent value is one that the schema declares. -/
theorem mem_defaults_of_declaredDefault {s : Schema} {d : Value} (h : s.declaredDefault = some d) :
    d ∈ s.defaults := by
  have hown {s : Schema} (h : s.default? = some d) : d ∈ s.defaults :=
    List.mem_filterMap.mpr ⟨s, mem_nodes_self s, h⟩
  induction s using Schema.induction with
  | nullable a inner ih =>
      rcases Option.or_eq_some_iff.mp h with h | ⟨-, h⟩
      · exact hown h
      · exact defaults_mono (List.subset_cons_self _ _) (ih h)
  | refined a r base ih =>
      rcases Option.or_eq_some_iff.mp h with h | ⟨-, h⟩
      · exact hown h
      · exact defaults_mono (List.subset_cons_self _ _) (ih h)
  | _ => exact hown h

end Schema

end ApiContract
