import ApiContract.Proofs.AlikeDocuments
import ApiContract.Proofs.SchemaEquality

/-!
# Values and schemas that are equal to themselves

What is not a number is equal to nothing, itself included. Where there is none, not even among the keys of a
dictionary, a value is equal to itself (`Value.same_self`), and so is a schema in whose values there is none
(`Schema.same_self`).
-/

namespace ApiContract

namespace Value

mutual
/-- Every number in the value is one, in keys of dictionaries too. -/
def NanFree : Value → Prop
  | .float x => x ≠ .nan
  | .list xs => NanFreeIn xs
  | .tuple xs => NanFreeIn xs
  | .set xs => NanFreeIn xs
  | .dict entries => NanFreeAmong entries
  | _ => True
termination_by structural v => v

def NanFreeIn : List Value → Prop
  | [] => True
  | x :: xs => x.NanFree ∧ NanFreeIn xs
termination_by structural xs => xs

def NanFreeAmong : List (Value × Value) → Prop
  | [] => True
  | (key, v) :: rest => key.NanFree ∧ v.NanFree ∧ NanFreeAmong rest
termination_by structural entries => entries
end

theorem nanFreeIn_iff {xs : List Value} : NanFreeIn xs ↔ ∀ x ∈ xs, x.NanFree := by
  induction xs with
  | nil => simp [NanFreeIn]
  | cons x xs ih => simp [NanFreeIn, ih]

theorem nanFreeAmong_iff {entries : List (Value × Value)} :
    NanFreeAmong entries ↔ ∀ e ∈ entries, e.1.NanFree ∧ e.2.NanFree := by
  induction entries with
  | nil => simp [NanFreeAmong]
  | cons e entries ih =>
      obtain ⟨key, v⟩ := e
      simp [NanFreeAmong, ih, and_assoc]

/-- A number is equal to itself. -/
theorem Number.same_self {a : Number} (h : a ≠ .float .nan) : a.same a = true := by
  rw [Number.same_iff]
  cases a with
  | int n => exact .inr ⟨n, 1, n, 1, rfl, rfl, rfl⟩
  | float x =>
      cases x with
      | nan => exact absurd rfl h
      | infinite negative => exact .inl ⟨negative, rfl, rfl⟩
      | finite negative m e => exact .inr ⟨_, _, _, _, rfl, rfl, rfl⟩

theorem same_self_of_number? {v : Value} {a : Number} (hv : v.number? = some a) (h : a ≠ .float .nan) :
    v.same v = true :=
  (same_of_number? hv).mpr ⟨a, hv, Number.same_self h⟩

/-- A value in which every number is one is equal to itself. -/
theorem same_self {v : Value} (h : v.NanFree) : v.same v = true := by
  induction v using Value.induction with
  | bool b => exact same_self_of_number? rfl (by simp)
  | int n => exact same_self_of_number? rfl (by simp)
  | float x => exact same_self_of_number? rfl fun heq => h (Number.float.inj heq)
  | list xs ih =>
      exact same_list.mpr ⟨xs, rfl, List.forall₂_same.mpr fun x hx => ih x hx (nanFreeIn_iff.mp h x hx)⟩
  | tuple xs ih =>
      exact same_tuple.mpr ⟨xs, rfl, List.forall₂_same.mpr fun x hx => ih x hx (nanFreeIn_iff.mp h x hx)⟩
  | set xs ih => exact same_set.mpr ⟨xs, rfl, rfl, fun x hx => ⟨x, hx, ih x hx (nanFreeIn_iff.mp h x hx)⟩⟩
  | dict entries ih =>
      refine same_dict.mpr ⟨entries, rfl, rfl, fun e he => ⟨e, he, ?_⟩⟩
      obtain ⟨hkey, hitem⟩ := nanFreeAmong_iff.mp h e he
      exact ⟨(ih e he).1 hkey, (ih e he).2 hitem⟩
  | dateTime t =>
      show sameTime t t = true
      rw [sameTime, beq_self_eq_true, beq_self_eq_true, Bool.and_self]
  | null => rfl
  | absent => rfl
  | str s => exact beq_self_eq_true s
  | bytes bs => exact beq_self_eq_true bs
  | date d => exact beq_self_eq_true d
  | uuid text => exact beq_self_eq_true text

end Value

/-! ### Fields -/

theorem sameValues_self {x : Option Value} (h : ∀ v ∈ x.toList, v.NanFree) : sameValues x x = true := by
  cases x with
  | none => rfl
  | some v => exact Value.same_self (h v List.mem_cons_self)

theorem sameLists_self {x : Option (List Value)} (h : ∀ v ∈ x.getD [], v.NanFree) : sameLists x x = true := by
  cases x with
  | none => rfl
  | some vs => exact Value.sameItems_iff.mpr (List.forall₂_same.mpr fun v hv => Value.same_self (h v hv))

namespace Schema

theorem annotations_same_self {a : Annotations} (h : ∀ v ∈ annotationData a, v.NanFree) : a.same a = true := by
  obtain ⟨hdefault, hexamples⟩ := List.forall_mem_append.mp h
  exact Annotations.same_iff.mpr ⟨rfl, sameValues_self hdefault, sameLists_self hexamples, rfl⟩

theorem stringFields_same_self {f : StringFields} (h : ∀ v ∈ stringData f, v.NanFree) : f.same f = true := by
  simp only [stringData, List.forall_mem_append] at h
  obtain ⟨⟨hmin, hmax⟩, henum⟩ := h
  exact StringFields.same_iff.mpr ⟨sameValues_self hmin, sameValues_self hmax, rfl, rfl, sameLists_self henum⟩

theorem numberFields_same_self {f : NumberFields} (h : ∀ v ∈ numberData f, v.NanFree) : f.same f = true := by
  simp only [numberData, List.forall_mem_append] at h
  obtain ⟨⟨⟨⟨⟨hmin, hmax⟩, habove⟩, hbelow⟩, hstep⟩, henum⟩ := h
  exact NumberFields.same_iff.mpr ⟨sameValues_self hmin, sameValues_self hmax, sameValues_self habove,
    sameValues_self hbelow, sameValues_self hstep, sameLists_self henum⟩

theorem arrayFields_same_self {f : ArrayFields} (h : ∀ v ∈ arrayData f, v.NanFree) : f.same f = true := by
  obtain ⟨hmin, hmax⟩ := List.forall_mem_append.mp h
  exact ArrayFields.same_iff.mpr ⟨sameValues_self hmin, sameValues_self hmax, rfl⟩

/-- What stands in the place of a predicate. -/
def conditionData : Condition → List Value
  | .predicate _ => []
  | .value v => [v]

theorem condition_same_self {condition : Condition} (h : ∀ v ∈ conditionData condition, v.NanFree) :
    condition.same condition = true := by
  cases condition with
  | predicate p => exact beq_self_eq_true p.identity
  | value v => exact Value.same_self (h v List.mem_cons_self)

/-! ### Schemas -/

/-- The values in a node that equality compares. -/
def comparedData : Schema → List Value
  | .object a f ps => annotationData a ++ f.required.getD [] ++ ps.map (·.1)
  | .refined a r _ => annotationData a ++ [r.message] ++ conditionData r.condition
  | .foreign v => [v]
  | s => s.shownData

/-- Every number in the values of the schema is one. -/
def NanFree (s : Schema) : Prop := ∀ t ∈ s.nodes, ∀ v ∈ t.comparedData, v.NanFree

theorem NanFree.mono {s t : Schema} (h : s.NanFree) (ht : t.nodes ⊆ s.nodes) : t.NanFree :=
  fun n hn => h n (ht hn)

/-- A schema in whose values every number is one is equal to itself. -/
theorem same_self {s : Schema} (h : s.NanFree) : s.same s = true := by
  induction s using Schema.induction with
  | string a f =>
      obtain ⟨ha, hf⟩ := List.forall_mem_append.mp (h _ (mem_nodes_self _))
      exact (Same.string (annotations_same_self ha) (stringFields_same_self hf)).same
  | number a f =>
      obtain ⟨ha, hf⟩ := List.forall_mem_append.mp (h _ (mem_nodes_self _))
      exact (Same.number (annotations_same_self ha) (numberFields_same_self hf)).same
  | integer a f =>
      obtain ⟨ha, hf⟩ := List.forall_mem_append.mp (h _ (mem_nodes_self _))
      exact (Same.integer (annotations_same_self ha) (numberFields_same_self hf)).same
  | boolean a => exact (Same.boolean (annotations_same_self (h _ (mem_nodes_self _)))).same
  | array a f items ih =>
      obtain ⟨ha, hf⟩ := List.forall_mem_append.mp (h _ (mem_nodes_self _))
      have hitems : items.NanFree := h.mono (List.subset_cons_self _ _)
      exact (Same.array (annotations_same_self ha) (arrayFields_same_self hf) (ih hitems)).same
  | object a f ps ih =>
      obtain ⟨hown, hkeys⟩ := List.forall_mem_append.mp (h _ (mem_nodes_self _))
      obtain ⟨ha, hrequired⟩ := List.forall_mem_append.mp hown
      have hf : f.same f = true := ObjectFields.same_iff.mpr ⟨sameLists_self hrequired, rfl⟩
      refine (Same.object (annotations_same_self ha) hf rfl fun p hp => ⟨p, hp, ?_, ?_⟩).same
      · exact Value.same_self (hkeys _ (List.mem_map_of_mem hp))
      · exact ih p hp (h.mono (nodes_property_subset hp))
  | nullable a inner ih =>
      have hinner : inner.NanFree := h.mono (List.subset_cons_self _ _)
      exact (Same.nullable (annotations_same_self (h _ (mem_nodes_self _))) (ih hinner)).same
  | refined a r base ih =>
      obtain ⟨hown, hcondition⟩ := List.forall_mem_append.mp (h _ (mem_nodes_self _))
      obtain ⟨ha, hmessage⟩ := List.forall_mem_append.mp hown
      have hr : r.same r = true := Refinement.same_iff.mpr
        ⟨condition_same_self hcondition, Value.same_self (hmessage _ List.mem_cons_self), rfl⟩
      have hbase : base.NanFree := h.mono (List.subset_cons_self _ _)
      exact (Same.refined (annotations_same_self ha) hr (ih hbase)).same
  | bare a => exact (Same.bare (annotations_same_self (h _ (mem_nodes_self _)))).same
  | foreign v => exact (Same.foreign (Value.same_self (h _ (mem_nodes_self _) v List.mem_cons_self))).same

end Schema

end ApiContract
