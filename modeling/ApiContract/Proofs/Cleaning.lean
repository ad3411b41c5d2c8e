import ApiContract.Normalization.Clean
import ApiContract.Proofs.Conversion

/-!
# Cleaning what has been accepted

Cleaning takes nothing from a value that satisfies the schema, once it has been converted
(`clean_of_satisfies`): a tuple satisfies an array as well, but cleaning makes a list of it.
-/

namespace ApiContract.Schema

theorem cleanProperty_eq (ps : List (Value × Schema)) (key item : Value) :
    cleanProperty ps key item = (property? key ps).map (·.clean item) := by
  induction ps with
  | nil => rfl
  | cons p ps ih =>
      obtain ⟨name, s⟩ := p
      show (if key.same name then some (s.clean item) else cleanProperty ps key item) = _
      rw [ih, property?, property?, List.find?_cons]
      dsimp only
      cases key.same name <;> rfl

/-- What cleaning leaves of an entry: the cleaned item of a declared key; another key only if the object
is open. -/
def cleanedEntry (f : ObjectFields) (ps : List (Value × Schema)) (e : Value × Value) :
    Option (Value × Value) :=
  match property? e.1 ps with
  | some s => some (e.1, s.clean e.2)
  | none => if f.additional then some e else none

theorem clean_dict (a : Annotations) (f : ObjectFields) (ps : List (Value × Schema))
    (entries : List (Value × Value)) :
    (Schema.object a f ps).clean (.dict entries) = .dict (entries.filterMap (cleanedEntry f ps)) := by
  refine congrArg Value.dict (List.filterMap_congr fun e _ => ?_)
  rw [cleanProperty_eq, cleanedEntry]
  cases property? e.1 ps <;> rfl

theorem clean_array (a : Annotations) (f : ArrayFields) (items : Schema) (v : Value) :
    (Schema.array a f items).clean v =
      match v.items? with
      | some xs => .list (xs.map items.clean)
      | none => v :=
  rfl

theorem clean_array_of_items {a : Annotations} {f : ArrayFields} {items : Schema} {v : Value}
    {xs : List Value} (h : v.items? = some xs) :
    (Schema.array a f items).clean v = .list (xs.map items.clean) := by
  rw [clean_array, h]

theorem clean_array_of_no_items {a : Annotations} {f : ArrayFields} {items : Schema} {v : Value}
    (h : v.items? = none) : (Schema.array a f items).clean v = v := by
  rw [clean_array, h]

@[simp] theorem clean_null (s : Schema) : s.clean .null = .null := by
  induction s using Schema.induction with
  | refined a r base ih => exact ih
  | _ => rfl

theorem clean_nullable (a : Annotations) (inner : Schema) (v : Value) :
    (Schema.nullable a inner).clean v = inner.clean v := by
  cases v with
  | null => exact (clean_null inner).symm
  | _ => rfl

@[simp] theorem clean_absent (s : Schema) : s.clean .absent = .absent := by
  induction s using Schema.induction with
  | nullable a inner ih => exact ih
  | refined a r base ih => exact ih
  | _ => rfl

/-- What cleaning leaves was there as it is, if it is no structure. -/
theorem eq_of_clean {s : Schema} {v w : Value} (h : s.clean v = w) (hitems : w.items? = none)
    (hdict : ∀ entries, w ≠ .dict entries) : v = w := by
  induction s using Schema.induction generalizing v with
  | array a f items ih =>
      cases hv : v.items? with
      | none => rwa [clean_array_of_no_items hv] at h
      | some xs =>
          rw [clean_array_of_items hv] at h
          rw [← h] at hitems
          cases hitems
  | object a f ps ih =>
      cases v with
      | dict entries => exact absurd h.symm (hdict _)
      | _ => exact h
  | nullable a inner ih =>
      rw [clean_nullable] at h
      exact ih h
  | refined a r base ih => exact ih h
  | _ => exact h

/-- Cleaning does not make a value absent. -/
theorem eq_absent_of_clean {s : Schema} {v : Value} (h : s.clean v = .absent) : v = .absent :=
  eq_of_clean h rfl (by simp)

/-- Every entry that is left has the key of an entry that was there, and either its item or what cleaning
leaves of it. -/
theorem of_cleanedEntry {f : ObjectFields} {ps : List (Value × Schema)} {e e' : Value × Value}
    (h : cleanedEntry f ps e = some e') :
    e'.1 = e.1 ∧ (e'.2 = e.2 ∨ ∃ p ∈ ps, e'.2 = p.2.clean e.2) := by
  unfold cleanedEntry at h
  split at h
  · rename_i s hs
    obtain rfl := Option.some.inj h
    obtain ⟨p, hp, rfl⟩ := exists_of_property? hs
    exact ⟨rfl, .inr ⟨p, hp, rfl⟩⟩
  · split at h
    · obtain rfl := Option.some.inj h
      exact ⟨rfl, .inl rfl⟩
    · cases h

/-- Of the entries of a closed object only those with declared keys are left. -/
theorem declared_of_cleanedEntry {f : ObjectFields} {ps : List (Value × Schema)} {e e' : Value × Value}
    (h : cleanedEntry f ps e = some e') (hclosed : f.additional = false) :
    ∃ p ∈ ps, e'.1.same p.1 = true := by
  rw [(of_cleanedEntry h).1]
  rw [cleanedEntry, hclosed] at h
  cases hfound : property? e.1 ps with
  | none =>
      rw [hfound] at h
      cases h
  | some s =>
      obtain ⟨p, hp, -⟩ := Option.map_eq_some_iff.mp hfound
      have hsame := List.find?_some hp
      exact ⟨p, List.mem_of_find?_eq_some hp, hsame⟩

/-- What is found under a declared key after cleaning is what was found there, cleaned. -/
theorem lookup?_cleanedEntries {f : ObjectFields} {ps : List (Value × Schema)} (hnames : Names ps)
    {p : Value × Schema} (hp : p ∈ ps) (entries : List (Value × Value)) :
    Value.lookup? p.1 (entries.filterMap (cleanedEntry f ps)) =
      (Value.lookup? p.1 entries).map p.2.clean := by
  have hcons (key v : Value) (rest : List (Value × Value)) : Value.lookup? p.1 ((key, v) :: rest) =
      if p.1.same key then some v else Value.lookup? p.1 rest := by
    rw [Value.lookup?, List.find?_cons]
    cases p.1.same key <;> rfl
  induction entries with
  | nil => rfl
  | cons e entries ih =>
      obtain ⟨key, v⟩ := e
      rw [hcons]
      cases hsame : p.1.same key with
      | true =>
          obtain rfl : key = p.1 := hnames.key_eq hp hsame
          have hentry : cleanedEntry f ps (p.1, v) = some (p.1, p.2.clean v) := by
            rw [cleanedEntry, property?_of_mem hnames hp]
          rw [List.filterMap_cons_some hentry, hcons, hsame]
          rfl
      | false =>
          rw [if_neg Bool.false_ne_true, ← ih]
          cases hentry : cleanedEntry f ps (key, v) with
          | none => rw [List.filterMap_cons_none hentry]
          | some e' =>
              obtain ⟨key', v'⟩ := e'
              obtain rfl : key' = key := (of_cleanedEntry hentry).1
              rw [List.filterMap_cons_some hentry, hcons, hsame, if_neg Bool.false_ne_true]

/-- The keys that cleaning leaves differ if the keys before it did. -/
theorem keysDiffer_cleanedEntries {f : ObjectFields} {ps : List (Value × Schema)}
    {entries : List (Value × Value)} (h : Value.KeysDiffer entries) :
    Value.KeysDiffer (entries.filterMap (cleanedEntry f ps)) := by
  refine List.pairwise_filterMap.mpr (h.imp ?_)
  intro e e' hne x hx x' hx'
  rw [(of_cleanedEntry hx).1, (of_cleanedEntry hx').1]
  exact hne

/-- Cleaning a well-formed value gives a well-formed value. -/
theorem wellFormed_clean {s : Schema} {v : Value} (hv : v.WellFormed) : (s.clean v).WellFormed := by
  induction s using Schema.induction generalizing v with
  | array a f items ih =>
      cases hitems : v.items? with
      | none => rwa [clean_array_of_no_items hitems]
      | some xs =>
          rw [clean_array_of_items hitems, Value.wellFormed_list]
          intro x hx
          obtain ⟨y, hy, rfl⟩ := List.mem_map.mp hx
          exact ih (hv.items hitems y hy)
  | object a f ps ih =>
      cases v with
      | dict entries =>
          obtain ⟨hdiffer, hvalues⟩ := Value.wellFormed_dict.mp hv
          rw [clean_dict, Value.wellFormed_dict]
          refine ⟨keysDiffer_cleanedEntries hdiffer, fun e' he' => ?_⟩
          obtain ⟨e, he, hentry⟩ := List.mem_filterMap.mp he'
          obtain ⟨-, hitem | ⟨p, hp, hitem⟩⟩ := of_cleanedEntry hentry
          · rw [hitem]
            exact hvalues e he
          · rw [hitem]
            exact ih p hp (hvalues e he)
      | _ => exact hv
  | nullable a inner ih =>
      rw [clean_nullable]
      exact ih hv
  | refined a r base ih => exact ih hv
  | _ => exact hv

/-- The item of a declared key satisfies the schema of the key. -/
theorem satisfies_item {ps : List (Value × Schema)} {entries : List (Value × Value)}
    (hnames : Names ps) (hdiffer : Value.KeysDiffer entries)
    (hsat : SatisfiesProperties ps entries) {e : Value × Value} (he : e ∈ entries) {s : Schema}
    (hs : property? e.1 ps = some s) : s.Satisfies e.2 := by
  have hmem := mem_of_property? hnames hs
  obtain ⟨name, hname⟩ := hnames.texts _ hmem
  obtain ⟨key, v⟩ := e
  obtain rfl : key = .str name := hname
  exact satisfiesProperties_iff.mp hsat _ hmem v (Value.lookup?_of_mem hdiffer he)

/-- A value that satisfies the schema and has been converted is left as it is. -/
theorem clean_of_satisfies {textual : Bool} {s : Schema} (h : s.Named) {v : Value}
    (hsat : s.Satisfies v) (hconvert : s.convert textual v = .ok v) (hv : v.WellFormed) :
    s.clean v = v := by
  induction s using Schema.induction generalizing v with
  | array a f items ih =>
      obtain ⟨xs, hxs, -, hitems⟩ := hsat
      obtain ⟨ys, rfl, hys⟩ := (convert_items_eq_ok hxs).mp hconvert
      obtain rfl := Option.some.inj hxs
      rw [clean_array_of_items rfl]
      have hfixed : ∀ x ∈ ys, items.clean x = id x := fun x hx =>
        ih h.2 (hitems x hx) (List.forall₂_same.mp hys x hx) (Value.wellFormed_list.mp hv x hx)
      rw [List.map_congr_left hfixed, List.map_id]
  | object a f ps ih =>
      obtain ⟨entries, rfl, -, hprops, hdeclared⟩ := hsat
      obtain ⟨hdiffer, hvalues⟩ := Value.wellFormed_dict.mp hv
      obtain ⟨converted, heq, hconverted⟩ := convert_dict_eq_ok.mp hconvert
      obtain rfl := Value.dict.inj heq
      rw [clean_dict]
      have hfixed : ∀ e ∈ entries, cleanedEntry f ps e = some e := by
        intro e he
        unfold cleanedEntry
        cases hs : property? e.1 ps with
        | some s =>
            have hitem := (List.forall₂_same.mp hconverted e he).2
            rw [convertProperty_eq, hs] at hitem
            have hmem := mem_of_property? h.names hs
            have hclean := ih _ hmem (h.property hmem) (satisfies_item h.names hdiffer hprops he hs) hitem
              (hvalues e he)
            exact congrArg some (Prod.ext rfl hclean)
        | none =>
            cases hopen : f.additional with
            | true => rfl
            | false =>
                -- a closed object has declared the key
                obtain ⟨p, hp, hsame⟩ := hdeclared hopen e he
                rw [property?_eq_none_iff.mp hs p hp] at hsame
                cases hsame
      rw [List.filterMap_congr hfixed, List.filterMap_some]
  | nullable a inner ih =>
      rw [clean_nullable]
      by_cases hnull : v = .null
      · rw [hnull, clean_null]
      · rw [convert_nullable hnull] at hconvert
        split_ifs at hconvert
        · -- a text that is read as null has not been converted
          exact absurd (Except.ok.inj hconvert).symm hnull
        · rcases hsat with hsat | hsat
          · exact absurd hsat hnull
          · exact ih h.2 hsat hconvert hv
  | refined a r base ih => exact ih h.2 hsat.1 hconvert hv
  | _ => rfl

end ApiContract.Schema
