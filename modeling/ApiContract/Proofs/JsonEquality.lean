import ApiContract.Proofs.Parts

/-!
# Equality of JSON values

Two JSON values are equal (`Value.jsonEqual`) if they are of one type and hold the same: numbers by their
value, arrays item by item, objects member by member in any order. Unlike `Value.same` this keeps truth
values apart from numbers.

Equality of arrays and of objects is said by `jsonEqual_list_iff` and `jsonEqual_dict_iff`. The exact JSON
values are those whose numbers are integers with a decimal text; those without fractions may have integers
of any size.
-/

namespace ApiContract.Value

/-- The number that a JSON number is. -/
def jsonNumber? : Value → Option Number
  | .int n => some (.int n)
  | .float x => some (.float x)
  | _ => none

mutual
/-- Equality of JSON values. -/
def jsonEqual : Value → Value → Bool
  | .null, .null => true
  | .bool a, .bool b => a == b
  | .str a, .str b => a == b
  | .list xs, .list ys => itemsEqual xs ys
  | .dict es, .dict fs => es.length == fs.length && membersEqual es fs
  | .int a, v => (v.jsonNumber?.map (Number.same (.int a))).getD false
  | .float a, v => (v.jsonNumber?.map (Number.same (.float a))).getD false
  | _, _ => false
termination_by structural v => v

def itemsEqual : List Value → List Value → Bool
  | [], [] => true
  | x :: xs, y :: ys => x.jsonEqual y && itemsEqual xs ys
  | _, _ => false
termination_by structural xs => xs

/-- Every member of the first object has an equal member in the second. -/
def membersEqual : List (Value × Value) → List (Value × Value) → Bool
  | [], _ => true
  | (key, v) :: es, fs => fs.any (fun f => key.same f.1 && v.jsonEqual f.2) && membersEqual es fs
termination_by structural es => es
end

theorem itemsEqual_iff {xs ys : List Value} :
    itemsEqual xs ys = true ↔ List.Forall₂ (fun x y => x.jsonEqual y = true) xs ys := by
  induction xs generalizing ys with
  | nil => cases ys <;> simp [itemsEqual]
  | cons x xs ih => cases ys <;> simp [itemsEqual, ih]

theorem membersEqual_iff {es fs : List (Value × Value)} :
    membersEqual es fs = true ↔
      ∀ e ∈ es, ∃ f ∈ fs, e.1.same f.1 = true ∧ e.2.jsonEqual f.2 = true := by
  induction es with
  | nil => simp [membersEqual]
  | cons e es ih =>
      obtain ⟨key, v⟩ := e
      simp [membersEqual, ih]

theorem jsonEqual_list_iff {xs ys : List Value} :
    (Value.list xs).jsonEqual (.list ys) = true ↔ List.Forall₂ (fun x y => x.jsonEqual y = true) xs ys :=
  itemsEqual_iff

/-- Two objects are equal if they have as many members, and each of the first one is in the second. -/
theorem jsonEqual_dict_iff {es fs : List (Value × Value)}
    (hkeys : ∀ e ∈ es, ∃ name, e.1 = .str name) :
    (Value.dict es).jsonEqual (.dict fs) = true ↔
      es.length = fs.length ∧ ∀ e ∈ es, ∃ f ∈ fs, f.1 = e.1 ∧ e.2.jsonEqual f.2 = true := by
  have hsame : ∀ e ∈ es, ∀ f : Value × Value, e.1.same f.1 = true ↔ f.1 = e.1 := by
    intro e he f
    obtain ⟨name, hname⟩ := hkeys e he
    rw [hname, same_str_left]
  rw [jsonEqual, Bool.and_eq_true, beq_iff_eq, membersEqual_iff]
  refine and_congr_right fun _ => forall₂_congr fun e he => ?_
  simp only [hsame e he]

/-! ### Exact values -/

/-- A form of JSON whose numbers are integers with a decimal text, and whose objects have each key once. -/
def ExactForm : Value → Prop
  | .null | .bool _ | .str _ | .list _ => True
  | .int n => Numeral.withinLimit n = true
  | .dict entries => (∀ e ∈ entries, ∃ name, e.1 = .str name) ∧ KeysDiffer entries
  | _ => False

/-- A JSON value whose numbers are integers with a decimal text. -/
def IsExactJson (v : Value) : Prop := v.Everywhere ExactForm

/-- A form of JSON without fractions, whose objects have each key once. -/
def FloatFreeForm : Value → Prop
  | .null | .bool _ | .int _ | .str _ | .list _ => True
  | .dict entries => (∀ e ∈ entries, ∃ name, e.1 = .str name) ∧ KeysDiffer entries
  | _ => False

/-- A JSON value without fractions; its integers may be of any size. -/
def IsFloatFree (v : Value) : Prop := v.Everywhere FloatFreeForm

theorem IsExactJson.isFloatFree {v : Value} (hv : v.IsExactJson) : v.IsFloatFree := by
  refine hv.imp fun w hw => ?_
  cases w with
  | int n => trivial
  | _ => exact hw

theorem IsFloatFree.ne_float {v : Value} (hv : v.IsFloatFree) : ∀ x, v ≠ .float x := by
  rintro x rfl
  exact hv.here

theorem IsFloatFree.isJson {v : Value} (hv : v.IsFloatFree) : v.IsJson := by
  refine hv.imp fun w hw => ?_
  cases w with
  | dict entries => exact hw.1
  | float x => trivial
  | _ => exact hw

theorem IsFloatFree.wellFormed {v : Value} (hv : v.IsFloatFree) : v.WellFormed := by
  refine hv.imp fun w hw => ?_
  cases w with
  | dict entries => exact hw.2
  | _ => trivial

theorem isExactJson_list {xs : List Value} : (Value.list xs).IsExactJson ↔ ∀ x ∈ xs, x.IsExactJson := by
  rw [IsExactJson, everywhere_list]
  exact and_iff_right trivial

/-- Text keys of which none comes twice are pairwise different. -/
theorem KeysDiffer.nodup {entries : List (Value × Value)} (h : KeysDiffer entries)
    (hkeys : ∀ e ∈ entries, ∃ name, e.1 = .str name) : (entries.map (·.1)).Nodup := by
  rw [List.Nodup, List.pairwise_map]
  refine List.Pairwise.imp_of_mem ?_ h
  intro earlier later hearlier hlater hdiffer heq
  obtain ⟨name, hname⟩ := hkeys earlier hearlier
  rw [← heq, hname, same_str_left.mpr rfl] at hdiffer
  cases hdiffer

theorem IsExactJson.keys {entries : List (Value × Value)} (h : (Value.dict entries).IsExactJson) :
    (∀ e ∈ entries, ∃ name, e.1 = .str name) ∧ (entries.map (·.1)).Nodup := by
  obtain ⟨htexts, hdiffer⟩ := (everywhere_dict.mp h).1
  exact ⟨htexts, hdiffer.nodup htexts⟩

theorem IsExactJson.members {entries : List (Value × Value)} (h : (Value.dict entries).IsExactJson) :
    ∀ e ∈ entries, e.2.IsExactJson :=
  (everywhere_dict.mp h).2

end ApiContract.Value
