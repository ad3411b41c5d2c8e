import ApiContract.Proofs.Inheritance

/-!
# Where undeclared keys can be

`s.UndeclaredKey v key` says that `key` stands in a dictionary within `v` which a closed object of `s`
governs, and that the object does not declare it. After cleaning there is no such key
(`not_undeclaredKey_clean`), filling brings in none but keys of declared defaults
(`undeclaredKey_of_applyDefaults`), and conversion makes no dictionary and so no new place for one
(`undeclaredKey_of_convert`). So the value that is checked has only undeclared keys that the schema itself
has brought in: `Pipeline.mem_defaultKeys_of_undeclaredKey`.
-/

namespace ApiContract

namespace Schema

/-- A key that a closed object does not declare stands in a dictionary that it governs. -/
inductive UndeclaredKey : Schema → Value → Value → Prop
  | here {a : Annotations} {f : ObjectFields} {ps : List (Value × Schema)}
      {entries : List (Value × Value)} {e : Value × Value} (closed : f.additional = false)
      (mem : e ∈ entries) (undeclared : property? e.1 ps = none) :
      UndeclaredKey (.object a f ps) (.dict entries) e.1
  | property {a : Annotations} {f : ObjectFields} {ps : List (Value × Schema)} {child : Schema}
      {entries : List (Value × Value)} {e : Value × Value} {key : Value} (mem : e ∈ entries)
      (declared : property? e.1 ps = some child) (inside : UndeclaredKey child e.2 key) :
      UndeclaredKey (.object a f ps) (.dict entries) key
  | item {a : Annotations} {f : ArrayFields} {items : Schema} {v : Value} {xs : List Value}
      {x key : Value} (here : v.items? = some xs) (mem : x ∈ xs) (inside : UndeclaredKey items x key) :
      UndeclaredKey (.array a f items) v key
  | nullable {a : Annotations} {inner : Schema} {v key : Value} (inside : UndeclaredKey inner v key) :
      UndeclaredKey (.nullable a inner) v key
  | refined {a : Annotations} {r : Refinement} {base : Schema} {v key : Value}
      (inside : UndeclaredKey base v key) : UndeclaredKey (.refined a r base) v key

/-- Only in a dictionary, or among items, can there be an undeclared key. -/
theorem UndeclaredKey.structured {s : Schema} {v key : Value} (h : s.UndeclaredKey v key) :
    (∃ entries, v = .dict entries) ∨ ∃ xs, v.items? = some xs := by
  induction h with
  | here closed mem undeclared => exact .inl ⟨_, rfl⟩
  | property mem declared inside ih => exact .inl ⟨_, rfl⟩
  | item here mem inside ih => exact .inr ⟨_, here⟩
  | nullable inside ih => exact ih
  | refined inside ih => exact ih

/-- An undeclared key is a key of a dictionary in the value. -/
theorem UndeclaredKey.mem_keys {s : Schema} {v key : Value} (h : s.UndeclaredKey v key) :
    key ∈ v.keys := by
  -- what is a key of a part is a key of the whole
  have hpart {v w key : Value} (hw : w.parts ⊆ v.parts) (h : key ∈ w.keys) : key ∈ v.keys := by
    obtain ⟨u, hu, hkey⟩ := List.mem_flatMap.mp h
    exact List.mem_flatMap.mpr ⟨u, hw hu, hkey⟩
  induction h with
  | here closed mem undeclared =>
      exact List.mem_flatMap.mpr ⟨_, Value.mem_parts_self _, List.mem_map_of_mem mem⟩
  | property mem declared inside ih =>
      refine hpart ?_ ih
      rw [Value.parts_dict]
      intro u hu
      exact List.mem_cons_of_mem _ (List.mem_flatMap.mpr ⟨_, mem, hu⟩)
  | item here mem inside ih =>
      refine hpart ?_ ih
      rename_i v xs x key
      intro u hu
      cases v with
      | list ys =>
          obtain rfl := Option.some.inj here
          rw [Value.parts_list]
          exact List.mem_cons_of_mem _ (List.mem_flatMap.mpr ⟨_, mem, hu⟩)
      | tuple ys =>
          obtain rfl := Option.some.inj here
          rw [Value.parts_tuple]
          exact List.mem_cons_of_mem _ (List.mem_flatMap.mpr ⟨_, mem, hu⟩)
      | _ => cases here
  | nullable inside ih => exact ih
  | refined inside ih => exact ih

/-! ### The stages -/

/-- Cleaning leaves no undeclared key where a closed object can see it. -/
theorem not_undeclaredKey_clean (s : Schema) (v key : Value) : ¬ s.UndeclaredKey (s.clean v) key := by
  intro h
  induction s using Schema.induction generalizing v with
  | array a f items ih =>
      cases hitems : v.items? with
      | none =>
          rw [clean_array_of_no_items hitems] at h
          cases h with
          | item here mem inside =>
              rw [hitems] at here
              cases here
      | some xs =>
          rw [clean_array_of_items hitems] at h
          cases h with
          | item here mem inside =>
              obtain rfl := Option.some.inj here
              obtain ⟨x, -, rfl⟩ := List.mem_map.mp mem
              exact ih x inside
  | object a f ps ih =>
      cases v with
      | dict entries =>
          rw [clean_dict] at h
          cases h with
          | here closed mem undeclared =>
              obtain ⟨e, -, hentry⟩ := List.mem_filterMap.mp mem
              have hkey := (of_cleanedEntry hentry).1
              rw [hkey] at undeclared
              simp [cleanedEntry, undeclared, closed] at hentry
          | property mem declared inside =>
              obtain ⟨e, -, hentry⟩ := List.mem_filterMap.mp mem
              have hkey := (of_cleanedEntry hentry).1
              rw [hkey] at declared
              simp only [cleanedEntry, declared, Option.some.injEq] at hentry
              obtain ⟨p, hp, rfl⟩ := exists_of_property? declared
              rw [← hentry] at inside
              exact ih p hp e.2 inside
      | _ => cases h
  | nullable a inner ih =>
      rw [clean_nullable] at h
      cases h with
      | nullable inside => exact ih v inside
  | refined a r base ih =>
      cases h with
      | refined inside => exact ih v inside
  | _ => cases h

theorem not_undeclaredKey_cleanHeaders {s : Schema} {v w : Value} (h : s.cleanHeaders v = .ok w)
    (key : Value) : ¬ s.UndeclaredKey w key := by
  induction s using Schema.induction generalizing v w with
  | object a f ps ih =>
      cases v with
      | dict entries =>
          obtain ⟨renamed, -, h⟩ := bind_eq_ok_iff.mp h
          obtain rfl := Except.ok.inj h
          exact not_undeclaredKey_clean _ _ _
      | _ =>
          obtain rfl := Except.ok.inj h
          intro hkey
          cases hkey
  | nullable a inner ih =>
      rw [cleanHeaders_nullable] at h
      intro hkey
      cases hkey with
      | nullable inside => exact ih h inside
  | refined a r base ih =>
      intro hkey
      cases hkey with
      | refined inside => exact ih h inside
  | _ =>
      obtain rfl := Except.ok.inj h
      exact not_undeclaredKey_clean _ _ _

/-- A key that a part of the schema brings in is brought in by the schema. -/
theorem mem_defaultKeys_of_default {s : Schema} {d key : Value} (hd : s.declaredDefault = some d)
    (hkey : key ∈ d.keys) : key ∈ s.defaultKeys :=
  List.mem_flatMap.mpr ⟨d, mem_defaults_of_declaredDefault hd, hkey⟩

theorem undeclaredKey_of_orDefault {s s' : Schema} {v key : Value}
    (h : s'.UndeclaredKey (s.orDefault v) key) : s'.UndeclaredKey v key ∨ key ∈ s.defaultKeys := by
  cases habsent : v.isAbsent with
  | false =>
      rw [orDefault_of_isAbsent_eq_false s habsent] at h
      exact .inl h
  | true =>
      rw [orDefault, habsent, if_pos rfl] at h
      cases hd : s.declaredDefault with
      | none =>
          rw [hd] at h
          rw [isAbsent_iff.mp habsent]
          exact .inl h
      | some d =>
          rw [hd] at h
          exact .inr (mem_defaultKeys_of_default hd h.mem_keys)

/-- If filling a part of a schema brings in only keys of its defaults, then so does taking its default
first. -/
theorem undeclaredKey_of_part {s child : Schema} {v key : Value} (hnodes : child.nodes ⊆ s.nodes)
    (hfill : ∀ {w : Value}, child.UndeclaredKey (child.fill w) key →
      child.UndeclaredKey w key ∨ key ∈ child.defaultKeys)
    (h : child.UndeclaredKey (child.applyDefaults v) key) :
    child.UndeclaredKey v key ∨ key ∈ s.defaultKeys := by
  rcases hfill h with hkey | hkey
  · rcases undeclaredKey_of_orDefault hkey with hkey | hkey
    · exact .inl hkey
    · exact .inr (defaultKeys_mono hnodes hkey)
  · exact .inr (defaultKeys_mono hnodes hkey)

/-- An undeclared key after filling was there before or comes with a declared default. -/
theorem undeclaredKey_of_fill {s : Schema} (hs : s.Named) {v key : Value}
    (h : s.UndeclaredKey (s.fill v) key) : s.UndeclaredKey v key ∨ key ∈ s.defaultKeys := by
  induction s using Schema.induction generalizing v with
  | array a f items ih =>
      cases hitems : v.items? with
      | none =>
          rw [fill_array_of_no_items hitems] at h
          exact .inl h
      | some xs =>
          rw [fill_array_of_items hitems] at h
          cases h with
          | item here mem inside =>
              obtain rfl := Option.some.inj here
              obtain ⟨x, hx, rfl⟩ := List.mem_map.mp mem
              have hnodes : items.nodes ⊆ (Schema.array a f items).nodes := List.subset_cons_self _ _
              rcases undeclaredKey_of_part hnodes (ih hs.2) inside with inside | hkey
              · exact .inl (.item hitems hx inside)
              · exact .inr hkey
  | object a f ps ih =>
      cases v with
      | dict entries =>
          have hentry {e' : Value × Value} (he' : e' ∈ fillProperties ps entries) :
              (∃ e ∈ entries, e' = (e.1, filledItem ps e)) ∨
                ∃ p ∈ ps, ∃ d, p.2.declaredDefault = some d ∧ e' = (p.1, p.2.fill d) := by
            rw [fillProperties_eq hs.names, List.mem_append] at he'
            rcases he' with he' | he'
            · obtain ⟨e, he, rfl⟩ := List.mem_map.mp he'
              exact .inl ⟨e, he, rfl⟩
            · obtain ⟨p, hp, d, -, hd, rfl⟩ := mem_missingEntries.mp he'
              exact .inr ⟨p, hp, d, hd, rfl⟩
          cases h with
          | here closed mem undeclared =>
              rcases hentry mem with ⟨e, he, rfl⟩ | ⟨p, hp, d, -, rfl⟩
              · exact .inl (.here (e := e) closed he undeclared)
              · -- what filling adds is declared
                rw [property?_of_mem hs.names hp] at undeclared
                cases undeclared
          | property mem declared inside =>
              rename_i child e'
              rcases hentry mem with ⟨e, he, rfl⟩ | ⟨p, hp, d, hd, rfl⟩
              · have hmem := mem_of_property? hs.names declared
                have hitem : filledItem ps e = child.applyDefaults e.2 := by
                  rw [filledItem, declared]
                rw [hitem] at inside
                rcases undeclaredKey_of_part (nodes_property_subset hmem) (ih _ hmem (hs.property hmem))
                  inside with inside | hkey
                · exact .inl (.property he declared inside)
                · exact .inr hkey
              · rw [property?_of_mem hs.names hp] at declared
                obtain rfl := Option.some.inj declared
                refine .inr (defaultKeys_mono (nodes_property_subset hp) ?_)
                rcases ih p hp (hs.property hp) inside with inside | hkey
                · exact mem_defaultKeys_of_default hd inside.mem_keys
                · exact hkey
      | _ => exact .inl h
  | nullable a inner ih =>
      by_cases hnull : v = .null
      · rw [hnull, fill_null] at h
        rw [hnull]
        exact .inl h
      · rw [fill_nullable hnull] at h
        cases h with
        | nullable inside =>
            have hnodes : inner.nodes ⊆ (Schema.nullable a inner).nodes := List.subset_cons_self _ _
            rcases undeclaredKey_of_part hnodes (ih hs.2) inside with inside | hkey
            · exact .inl (.nullable inside)
            · exact .inr hkey
  | refined a r base ih =>
      cases h with
      | refined inside =>
          rcases ih hs.2 inside with inside | hkey
          · exact .inl (.refined inside)
          · exact .inr (defaultKeys_mono (List.subset_cons_self _ base.nodes) hkey)
  | _ => exact .inl h

theorem undeclaredKey_of_applyDefaults {s : Schema} (hs : s.Named) {v key : Value}
    (h : s.UndeclaredKey (s.applyDefaults v) key) : s.UndeclaredKey v key ∨ key ∈ s.defaultKeys :=
  undeclaredKey_of_part (List.Subset.refl _) (undeclaredKey_of_fill hs) h

/-- Conversion makes arrays and single values, but no dictionary. -/
theorem undeclaredKey_of_convert {textual : Bool} {s : Schema} {v w key : Value}
    (h : s.convert textual v = .ok w) (hkey : s.UndeclaredKey w key) : s.UndeclaredKey v key := by
  induction s using Schema.induction generalizing v w with
  | array a f items ih =>
      cases hitems : v.items? with
      | some xs =>
          obtain ⟨ys, rfl, hys⟩ := (convert_items_eq_ok hitems).mp h
          cases hkey with
          | item here mem inside =>
              obtain rfl := Option.some.inj here
              obtain ⟨x, hx, hxy⟩ := exists_left_of_forall₂ hys mem
              exact .item hitems hx (ih hxy inside)
      | none =>
          cases halone : textual && standsAlone v with
          | true =>
              obtain ⟨y, rfl, hy⟩ := (convert_single_eq_ok hitems halone).mp h
              cases hkey with
              | item here mem inside =>
                  obtain rfl := Option.some.inj here
                  obtain rfl := List.mem_singleton.mp mem
                  -- a value that stands alone is neither a dictionary nor a row of items
                  rcases (ih hy inside).structured with ⟨entries, rfl⟩ | ⟨xs, hxs⟩
                  · rw [Bool.and_comm] at halone
                    cases halone
                  · rw [hitems] at hxs
                    cases hxs
          | false =>
              rw [convert_array_of_other hitems halone] at h
              rwa [Except.ok.inj h]
  | object a f ps ih =>
      cases v with
      | dict entries =>
          obtain ⟨converted, rfl, hconverted⟩ := convert_dict_eq_ok.mp h
          cases hkey with
          | here closed mem undeclared =>
              obtain ⟨e, he, hkey, -⟩ := exists_left_of_forall₂ hconverted mem
              rw [hkey] at undeclared ⊢
              exact .here closed he undeclared
          | property mem declared inside =>
              obtain ⟨e, he, hkey, hitem⟩ := exists_left_of_forall₂ hconverted mem
              rw [hkey] at declared
              rw [convertProperty_eq, declared] at hitem
              obtain ⟨p, hp, rfl⟩ := exists_of_property? declared
              exact .property he declared (ih p hp hitem inside)
      | _ =>
          obtain rfl := Except.ok.inj h
          exact hkey
  | nullable a inner ih =>
      by_cases hnull : v = .null
      · rw [hnull, convert_null] at h
        rw [hnull, Except.ok.inj h]
        exact hkey
      · rw [convert_nullable hnull] at h
        cases hkey with
        | nullable inside =>
            split_ifs at h
            · obtain rfl := Except.ok.inj h
              rcases inside.structured with ⟨entries, hdict⟩ | ⟨xs, hxs⟩
              · cases hdict
              · cases hxs
            · exact .nullable (ih h inside)
  | refined a r base ih =>
      cases hkey with
      | refined inside => exact .refined (ih h inside)
  | bare a => cases hkey
  | foreign u => cases hkey
  | _ => cases hkey

end Schema

namespace Pipeline

open Schema

/-- The value that is checked has an undeclared key only if a declared default has brought it in. -/
theorem mem_defaultKeys_of_undeclaredKey {s : Schema} (hs : s.Named) {t : Target}
    {raw cleaned converted key : Value} (hclean : s.cleanFor (some t) raw = .ok cleaned)
    (hconvert : s.convertFor (some t) (nullIfAbsent (s.applyDefaults cleaned)) = .ok converted)
    (hkey : s.UndeclaredKey converted key) : key ∈ s.defaultKeys := by
  have hfilled := undeclaredKey_of_convert hconvert hkey
  have hcleaned : ¬ s.UndeclaredKey cleaned key := by
    unfold cleanFor at hclean
    split_ifs at hclean
    · exact not_undeclaredKey_cleanHeaders hclean key
    · rw [← Except.ok.inj hclean]
      exact not_undeclaredKey_clean s raw key
  unfold nullIfAbsent at hfilled
  split_ifs at hfilled
  · rcases hfilled.structured with ⟨entries, hdict⟩ | ⟨xs, hxs⟩
    · cases hdict
    · cases hxs
  · rcases undeclaredKey_of_applyDefaults hs hfilled with h | h
    · exact absurd h hcleaned
    · exact h

end Pipeline

end ApiContract
