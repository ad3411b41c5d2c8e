import ApiContract.Proofs.ListLemmas
import ApiContract.Schema.Basic

/-!
# Entries and text keys

Declared keys are texts, and a text is equal to itself alone. So looking a declared key up among the
entries of a dictionary, or the key of an entry among the declared properties, is looking for one and
the same key.
-/

namespace ApiContract

namespace Value

@[simp] theorem same_str_left {s : String} {v : Value} : (Value.str s).same v = true ↔ v = .str s := by
  cases v with
  | str t =>
      rw [same, beq_iff_eq, Value.str.injEq]
      exact eq_comm
  | _ => simp [same]

@[simp] theorem same_str_right {v : Value} {s : String} : v.same (.str s) = true ↔ v = .str s := by
  cases v with
  | str t => simp [same]
  | _ => simp [same, number?]

theorem isIn_str_iff_mem {s : String} {vs : List Value} : (Value.str s).isIn vs = true ↔ .str s ∈ vs := by
  simp [isIn]

/-! ### Keys among entries -/

theorem hasKey_iff {key : Value} {entries : List (Value × Value)} :
    hasKey key entries = true ↔ ∃ e ∈ entries, key.same e.1 = true := by
  simp [hasKey]

theorem hasKey_str {s : String} {entries : List (Value × Value)} :
    hasKey (.str s) entries = true ↔ .str s ∈ entries.map (·.1) := by
  simp [hasKey]

theorem lookup?_isSome (key : Value) (entries : List (Value × Value)) :
    (lookup? key entries).isSome = hasKey key entries := by
  rw [lookup?, Option.isSome_map, List.isSome_find?, hasKey]

theorem lookup?_eq_none_iff {key : Value} {entries : List (Value × Value)} :
    lookup? key entries = none ↔ hasKey key entries = false := by
  rw [← Option.isNone_iff_eq_none, ← lookup?_isSome]
  cases lookup? key entries <;> simp

/-- What is found under a key is the value of an entry. -/
theorem exists_mem_of_lookup? {key : Value} {entries : List (Value × Value)} {v : Value}
    (h : lookup? key entries = some v) : ∃ e ∈ entries, e.2 = v := by
  obtain ⟨e, he, hv⟩ := Option.map_eq_some_iff.mp h
  exact ⟨e, List.mem_of_find?_eq_some he, hv⟩

/-- What is found under a text key is the value of an entry with this key. -/
theorem mem_of_lookup?_str {s : String} {entries : List (Value × Value)} {v : Value}
    (h : lookup? (.str s) entries = some v) : (.str s, v) ∈ entries := by
  obtain ⟨e, he, rfl⟩ := Option.map_eq_some_iff.mp h
  have hkey := List.find?_some he
  have hmem := List.mem_of_find?_eq_some he
  rw [same_str_left] at hkey
  rwa [← hkey]

end Value

namespace Schema

/-- Every required key is declared. -/
theorem requiredKeys_subset (f : ObjectFields) (ps : List (Value × Schema)) :
    requiredKeys f ps ⊆ ps.map (·.1) := by
  unfold requiredKeys
  split
  · exact List.Subset.refl _
  · exact List.filter_subset_self _

end Schema

end ApiContract
