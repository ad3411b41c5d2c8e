import ApiContract.Schema.Basic

/-!
# Induction on schemas and values

The properties of an object node are a list of pairs, so the recursor that comes with `Schema` speaks of
lists and pairs besides schemas. `Schema.induction` states the same induction with one hypothesis for all
properties of an object at once, and `Value.induction` with one for all entries of a dictionary.
-/

namespace ApiContract

/-- Structural induction on schemas: at an object node the claim holds for the schema of each
property. -/
@[elab_as_elim]
theorem Schema.induction {motive : Schema → Prop}
    (string : ∀ a f, motive (.string a f))
    (number : ∀ a f, motive (.number a f))
    (integer : ∀ a f, motive (.integer a f))
    (boolean : ∀ a, motive (.boolean a))
    (array : ∀ a f items, motive items → motive (.array a f items))
    (object : ∀ a f ps, (∀ p ∈ ps, motive p.2) → motive (.object a f ps))
    (nullable : ∀ a inner, motive inner → motive (.nullable a inner))
    (refined : ∀ a r base, motive base → motive (.refined a r base))
    (bare : ∀ a, motive (.bare a))
    (foreign : ∀ v, motive (.foreign v)) (s : Schema) : motive s := by
  refine Schema.rec (motive_1 := motive) (motive_2 := fun ps => ∀ p ∈ ps, motive p.2)
    (motive_3 := fun p => motive p.2)
    string number integer boolean array object nullable refined bare foreign ?_ ?_ ?_ s
  · intro p hp
    simp at hp
  · intro p ps hp hps q hq
    rcases List.mem_cons.mp hq with rfl | hq
    · exact hp
    · exact hps q hq
  · intro _ s hs
    exact hs

/-- Structural induction on values: the claim holds for the items of a list, tuple or set, and for keys
and items of the entries of a dictionary. -/
@[elab_as_elim]
theorem Value.induction {motive : Value → Prop}
    (null : motive .null)
    (bool : ∀ b, motive (.bool b))
    (int : ∀ n, motive (.int n))
    (float : ∀ x, motive (.float x))
    (str : ∀ s, motive (.str s))
    (bytes : ∀ bs, motive (.bytes bs))
    (list : ∀ xs, (∀ x ∈ xs, motive x) → motive (.list xs))
    (tuple : ∀ xs, (∀ x ∈ xs, motive x) → motive (.tuple xs))
    (dict : ∀ entries, (∀ e ∈ entries, motive e.1 ∧ motive e.2) → motive (.dict entries))
    (absent : motive .absent)
    (date : ∀ d, motive (.date d))
    (dateTime : ∀ t, motive (.dateTime t))
    (set : ∀ xs, (∀ x ∈ xs, motive x) → motive (.set xs))
    (uuid : ∀ text, motive (.uuid text)) (v : Value) : motive v := by
  refine Value.rec (motive_1 := motive) (motive_2 := fun xs => ∀ x ∈ xs, motive x)
    (motive_3 := fun entries => ∀ e ∈ entries, motive e.1 ∧ motive e.2)
    (motive_4 := fun e => motive e.1 ∧ motive e.2)
    null bool int float str bytes list tuple dict absent date dateTime set uuid ?_ ?_ ?_ ?_ ?_ v
  · intro x hx
    simp at hx
  · intro x xs hx hxs y hy
    rcases List.mem_cons.mp hy with rfl | hy
    · exact hx
    · exact hxs y hy
  · intro e he
    simp at he
  · intro e entries he hentries e' he'
    rcases List.mem_cons.mp he' with rfl | he'
    · exact he
    · exact hentries e' he'
  · intro key item hkey hitem
    exact ⟨hkey, hitem⟩

end ApiContract
