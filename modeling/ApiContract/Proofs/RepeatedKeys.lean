import Mathlib.Data.List.Induction
import ApiContract.Http.Request
import ApiContract.Proofs.Entries

/-!
# Folding repeated keys

Pairs of texts are folded into a dictionary. `foldPairs_textPairs` says what comes out: the keys in the
order in which they come first, each with its text or the list of its texts.
-/

namespace ApiContract.Http

/-- What becomes of the texts of a key. -/
def folded : List String → Value
  | [text] => .str text
  | texts => .list (texts.map .str)

/-- The texts of a key, in order. -/
def textsOf (key : String) (pairs : List (String × String)) : List String :=
  (pairs.filter (·.1 == key)).map (·.2)

theorem textsOf_concat (key : String) (pairs : List (String × String)) (p : String × String) :
    textsOf key (pairs ++ [p]) = if p.1 = key then textsOf key pairs ++ [p.2] else textsOf key pairs := by
  unfold textsOf
  rw [List.filter_append, List.map_append]
  split
  · rename_i h
    simp [h]
  · rename_i h
    simp [h]

theorem textsOf_ne_nil {key : String} {pairs : List (String × String)}
    (h : key ∈ pairs.map (·.1)) : textsOf key pairs ≠ [] := by
  obtain ⟨p, hp, rfl⟩ := List.mem_map.mp h
  intro hnil
  have hmem : p.2 ∈ textsOf p.1 pairs :=
    List.mem_map_of_mem (List.mem_filter.mpr ⟨hp, beq_self_eq_true p.1⟩)
  rw [hnil] at hmem
  cases hmem

theorem textsOf_of_new {key : String} {pairs : List (String × String)}
    (h : key ∉ pairs.map (·.1)) : textsOf key pairs = [] := by
  rw [textsOf, List.map_eq_nil_iff, List.filter_eq_nil_iff]
  intro p hp hkey
  exact h (List.mem_map.mpr ⟨p, hp, eq_of_beq hkey⟩)

/-- A further text joins those that were folded before. -/
theorem folded_concat {texts : List String} (h : texts ≠ []) (text : String) :
    folded (texts ++ [text]) =
      match folded texts with
      | .list xs => .list (xs ++ [.str text])
      | first => .list [first, .str text] := by
  rcases texts with _ | ⟨first, _ | ⟨second, rest⟩⟩
  · exact absurd rfl h
  · rfl
  · simp [folded]

/-! ### Dictionaries with text keys -/

variable {keys : List String} {item : String → Value}

theorem hasKey_map_str {key : String} :
    Value.hasKey (.str key) (keys.map fun k => (.str k, item k)) = true ↔ key ∈ keys := by
  rw [Value.hasKey_str, List.map_map, List.mem_map]
  constructor
  · rintro ⟨k, hk, h⟩
    rwa [← Value.str.inj h]
  · intro h
    exact ⟨key, h, rfl⟩

theorem lookup?_map_str {key : String} (h : key ∈ keys) :
    Value.lookup? (.str key) (keys.map fun k => (.str k, item k)) = some (item key) := by
  cases hfound : Value.lookup? (.str key) (keys.map fun k => (.str k, item k)) with
  | none =>
      rw [Value.lookup?_eq_none_iff, hasKey_map_str.mpr h] at hfound
      cases hfound
  | some v =>
      obtain ⟨k, -, hk⟩ := List.mem_map.mp (Value.mem_of_lookup?_str hfound)
      obtain ⟨hkey, rfl⟩ := Prod.mk.inj hk
      rw [Value.str.inj hkey]

theorem bind_map_str {key : String} (h : key ∈ keys) (v : Value) :
    Value.bind (keys.map fun k => (.str k, item k)) (.str key) v =
      keys.map fun k => (.str k, if key = k then v else item k) := by
  rw [Value.bind, if_pos (hasKey_map_str.mpr h), List.map_map]
  refine List.map_congr_left fun k _ => ?_
  have hsame : (Value.str key).same (.str k) = true ↔ key = k := by
    rw [Value.same_str_left, Value.str.injEq, eq_comm]
  simp only [Function.comp_apply, hsame]
  split <;> rfl

/-! ### Folding -/

theorem foldPairs_concat (pairs : List (Value × Value)) (p : Value × Value) :
    foldPairs (pairs ++ [p]) =
      match Value.lookup? p.1 (foldPairs pairs) with
      | none => foldPairs pairs ++ [p]
      | some (.list xs) => Value.bind (foldPairs pairs) p.1 (.list (xs ++ [p.2]))
      | some first => Value.bind (foldPairs pairs) p.1 (.list [first, p.2]) := by
  rw [foldPairs, List.foldl_append]
  rfl

/-- A further text of a key that is there goes to its other texts. -/
theorem bind_map_folded {pairs : List (String × String)} {p : String × String} (h : p.1 ∈ keys) :
    Value.bind (keys.map fun key => (.str key, folded (textsOf key pairs))) (.str p.1)
        (folded (textsOf p.1 pairs ++ [p.2])) =
      keys.map fun key => (.str key, folded (textsOf key (pairs ++ [p]))) := by
  rw [bind_map_str h]
  refine List.map_congr_left fun key _ => ?_
  rw [textsOf_concat]
  split
  · rename_i hkey
    rw [hkey]
  · rfl

/-- The texts of other keys stay as they are. -/
theorem map_folded_concat {pairs : List (String × String)} {p : String × String} (h : p.1 ∉ keys) :
    (keys.map fun key => (Value.str key, folded (textsOf key (pairs ++ [p])))) =
      keys.map fun key => (Value.str key, folded (textsOf key pairs)) := by
  refine List.map_congr_left fun key hmem => ?_
  have hne : p.1 ≠ key := by
    rintro rfl
    exact h hmem
  rw [textsOf_concat, if_neg hne]

/-- Folding gives every key once, in the order of first occurrences, with its text or the list of its
texts. -/
theorem foldPairs_textPairs (pairs : List (String × String)) :
    foldPairs (Request.textPairs pairs) =
      (pairs.map (·.1)).eraseDups.map fun key => (.str key, folded (textsOf key pairs)) := by
  -- from the end of the list, as each pair meets what the pairs before it have become
  induction pairs using List.reverseRecOn with
  | nil => rfl
  | append_singleton pairs p ih =>
      have hpairs : Request.textPairs (pairs ++ [p]) =
          Request.textPairs pairs ++ [(.str p.1, .str p.2)] := List.map_append
      rw [hpairs, foldPairs_concat, ih, List.map_append, List.map_singleton, eraseDups_concat]
      by_cases hkey : p.1 ∈ pairs.map (·.1)
      · have hmem := List.mem_eraseDups.mpr hkey
        have hfolded := folded_concat (textsOf_ne_nil hkey) p.2
        rw [if_pos hkey, lookup?_map_str hmem, ← bind_map_folded hmem, hfolded]
        cases folded (textsOf p.1 pairs) <;> rfl
      · have hmem : p.1 ∉ (pairs.map (·.1)).eraseDups := fun h => hkey (List.mem_eraseDups.mp h)
        have hnone : Value.lookup? (.str p.1) ((pairs.map (·.1)).eraseDups.map fun key =>
            (.str key, folded (textsOf key pairs))) = none := by
          rw [Value.lookup?_eq_none_iff, ← Bool.not_eq_true, hasKey_map_str]
          exact hmem
        rw [if_neg hkey, hnone, List.map_append, map_folded_concat hmem, List.map_singleton,
          textsOf_concat, if_pos rfl, textsOf_of_new hkey]
        rfl

end ApiContract.Http
