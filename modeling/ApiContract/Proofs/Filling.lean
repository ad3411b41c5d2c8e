import ApiContract.Normalization.Defaults
import ApiContract.Proofs.Satisfaction
import ApiContract.Proofs.WellFormed

/-!
# Filling twice

The properties of an object are filled one after the other. Their names differ, so this is the same as
filling every entry on its own and adding the missing defaults at the end (`fillProperties_eq`). Then
nothing is left to be filled: `applyDefaults_applyDefaults`.
-/

namespace ApiContract.Schema

/-! ### Single values -/

theorem orDefault_of_isAbsent_eq_false (s : Schema) {v : Value} (h : v.isAbsent = false) :
    s.orDefault v = v := by
  rw [orDefault, h]
  rfl

theorem isAbsent_iff {v : Value} : v.isAbsent = true ↔ v = .absent := by
  cases v <;> simp [Value.isAbsent]

theorem applyDefaults_of_isAbsent_eq_false (s : Schema) {v : Value} (h : v.isAbsent = false) :
    s.applyDefaults v = s.fill v := by
  rw [applyDefaults, orDefault_of_isAbsent_eq_false s h]

theorem applyDefaults_absent {s : Schema} {d : Value} (h : s.declaredDefault = some d) :
    s.applyDefaults .absent = s.fill d := by
  rw [applyDefaults, orDefault, h]
  rfl

theorem fill_nullable {a : Annotations} {inner : Schema} {v : Value} (h : v ≠ .null) :
    (Schema.nullable a inner).fill v = inner.applyDefaults v := by
  cases v with
  | null => exact absurd rfl h
  | _ => rfl

theorem fill_array (a : Annotations) (f : ArrayFields) (items : Schema) (v : Value) :
    (Schema.array a f items).fill v =
      match v.items? with
      | some xs => .list (xs.map items.applyDefaults)
      | none => v :=
  rfl

theorem fill_array_of_items {a : Annotations} {f : ArrayFields} {items : Schema} {v : Value}
    {xs : List Value} (h : v.items? = some xs) :
    (Schema.array a f items).fill v = .list (xs.map items.applyDefaults) := by
  rw [fill_array, h]

theorem fill_array_of_no_items {a : Annotations} {f : ArrayFields} {items : Schema} {v : Value}
    (h : v.items? = none) : (Schema.array a f items).fill v = v := by
  rw [fill_array, h]

theorem fill_object_of_no_dict {a : Annotations} {f : ObjectFields} {ps : List (Value × Schema)}
    {v : Value} (h : ∀ entries, v ≠ .dict entries) : (Schema.object a f ps).fill v = v := by
  cases v with
  | dict entries => exact absurd rfl (h entries)
  | _ => rfl

@[simp] theorem fill_null (s : Schema) : s.fill .null = .null := by
  induction s using Schema.induction with
  | refined a r base ih => exact ih
  | _ => rfl

/-- What is absent and has no default stays absent. -/
theorem fill_absent {s : Schema} (h : s.declaredDefault = none) : s.fill .absent = .absent := by
  induction s using Schema.induction with
  | nullable a inner ih =>
      have hinner := (Option.or_eq_none_iff.mp h).2
      rw [fill_nullable (v := .absent) (by simp), applyDefaults, orDefault, hinner]
      exact ih hinner
  | refined a r base ih =>
      exact ih (Option.or_eq_none_iff.mp h).2
  | _ => rfl

/-- Filling does not make a value absent. -/
theorem eq_absent_of_fill {s : Schema} {v : Value} (h : s.fill v = .absent) : v = .absent := by
  induction s using Schema.induction generalizing v with
  | array a f items ih =>
      cases hv : v.items? with
      | none => rwa [fill_array_of_no_items hv] at h
      | some xs =>
          rw [fill_array_of_items hv] at h
          cases h
  | object a f ps ih =>
      cases v with
      | dict entries => cases h
      | _ => exact h
  | nullable a inner ih =>
      by_cases hnull : v = .null
      · rw [hnull, fill_null] at h
        cases h
      · rw [fill_nullable hnull, applyDefaults] at h
        have habsent := ih h
        cases hv : v.isAbsent with
        | true => exact isAbsent_iff.mp hv
        | false => rwa [orDefault_of_isAbsent_eq_false inner hv] at habsent
  | refined a r base ih => exact ih h
  | _ => exact h

/-- What is neither absent nor a structure is left as it is. -/
theorem fill_of_scalar (s : Schema) {v : Value} (habsent : v.isAbsent = false)
    (hitems : v.items? = none) (hdict : ∀ entries, v ≠ .dict entries) : s.fill v = v := by
  induction s using Schema.induction with
  | array a f items ih => exact fill_array_of_no_items hitems
  | object a f ps ih => exact fill_object_of_no_dict hdict
  | nullable a inner ih =>
      by_cases hnull : v = .null
      · rw [hnull, fill_null]
      · rw [fill_nullable hnull, applyDefaults_of_isAbsent_eq_false inner habsent, ih]
  | refined a r base ih => exact ih
  | _ => rfl

/-! ### Values that satisfy a schema -/

theorem isAbsent_of_satisfies {s : Schema} {v : Value} (h : s.Satisfies v) : v.isAbsent = false := by
  rw [Bool.eq_false_iff]
  intro habsent
  rw [isAbsent_iff.mp habsent] at h
  exact not_satisfies_absent s h

theorem applyDefaults_of_satisfies {s : Schema} {v : Value} (h : s.Satisfies v) :
    s.applyDefaults v = s.fill v :=
  applyDefaults_of_isAbsent_eq_false s (isAbsent_of_satisfies h)

/-! ### The properties of an object -/

/-- The item of an entry, filled if its key is declared. -/
def filledItem (ps : List (Value × Schema)) (e : Value × Value) : Value :=
  match property? e.1 ps with
  | some s => s.applyDefaults e.2
  | none => e.2

/-- The entries that filling adds: the defaults of the properties that are not there. -/
def missingEntries (ps : List (Value × Schema)) (entries : List (Value × Value)) :
    List (Value × Value) :=
  ps.filterMap fun p =>
    if Value.hasKey p.1 entries then none else p.2.declaredDefault.map fun d => (p.1, p.2.fill d)

theorem hasKey_congr {entries entries' : List (Value × Value)}
    (h : entries'.map (·.1) = entries.map (·.1)) (key : Value) :
    Value.hasKey key entries' = Value.hasKey key entries := by
  have hany (es : List (Value × Value)) :
      Value.hasKey key es = (es.map (·.1)).any fun k => key.same k := by
    rw [Value.hasKey, List.any_map]
    rfl
  rw [hany, hany, h]

theorem missingEntries_congr (ps : List (Value × Schema)) {entries entries' : List (Value × Value)}
    (h : ∀ p ∈ ps, Value.hasKey p.1 entries' = Value.hasKey p.1 entries) :
    missingEntries ps entries' = missingEntries ps entries := by
  refine List.filterMap_congr fun p hp => ?_
  rw [h p hp]

theorem Names.tail {p : Value × Schema} {ps : List (Value × Schema)} (h : Names (p :: ps)) :
    Names ps :=
  ⟨fun q hq => h.texts q (List.mem_cons_of_mem _ hq), (List.nodup_cons.mp h.differ).2⟩

theorem Names.head_ne {p : Value × Schema} {ps : List (Value × Schema)} (h : Names (p :: ps)) :
    ∀ q ∈ ps, q.1 ≠ p.1 :=
  fun q hq heq => (List.nodup_cons.mp h.differ).1 (List.mem_map.mpr ⟨q, hq, heq⟩)

variable {name : String} {s : Schema} {ps : List (Value × Schema)}

theorem property?_cons_str (key : Value) :
    property? key ((.str name, s) :: ps) =
      if (Value.str name).same key then some s else property? key ps := by
  have hcomm : key.same (.str name) = (Value.str name).same key := by
    rw [Bool.eq_iff_iff, Value.same_str_left, Value.same_str_right]
  rw [property?, List.find?_cons, hcomm]
  cases (Value.str name).same key <;> rfl

theorem filledItem_of_same {e : Value × Value} (h : (Value.str name).same e.1 = true) :
    filledItem ((.str name, s) :: ps) e = s.applyDefaults e.2 := by
  rw [filledItem, property?_cons_str, h]
  rfl

theorem filledItem_of_not_same {e : Value × Value} (h : (Value.str name).same e.1 = false) :
    filledItem ((.str name, s) :: ps) e = filledItem ps e := by
  rw [filledItem, property?_cons_str, h]
  rfl

/-- An entry whose key is not declared is left as it is. -/
theorem filledItem_of_undeclared {e : Value × Value} (h : ∀ p ∈ ps, p.1 ≠ .str name)
    (he : e.1 = .str name) : filledItem ps e = e.2 := by
  have hnone : property? e.1 ps = none := by
    rw [property?_eq_none_iff]
    intro p hp
    rw [he, Bool.eq_false_iff]
    exact fun hsame => h p hp (Value.same_str_left.mp hsame)
  rw [filledItem, hnone]

/-- Filling one property among the entries and the others afterwards. -/
theorem filledItem_step (h : ∀ p ∈ ps, p.1 ≠ .str name) (e : Value × Value) :
    filledItem ps (if (Value.str name).same e.1 then (e.1, s.applyDefaults e.2) else e) =
      filledItem ((.str name, s) :: ps) e := by
  cases hsame : (Value.str name).same e.1 with
  | true =>
      rw [filledItem_of_same hsame]
      exact filledItem_of_undeclared h (Value.same_str_left.mp hsame)
  | false => rw [filledItem_of_not_same hsame, if_neg Bool.false_ne_true]

/-! ### One property after the other -/

/-- The entries after one property has been filled. -/
def filledAt (name : String) (s : Schema) (entries : List (Value × Value)) : List (Value × Value) :=
  entries.map fun e => if (Value.str name).same e.1 then (e.1, s.applyDefaults e.2) else e

theorem keys_filledAt (entries : List (Value × Value)) :
    (filledAt name s entries).map (·.1) = entries.map (·.1) := by
  rw [filledAt, List.map_map]
  refine List.map_congr_left fun e _ => ?_
  simp only [Function.comp_apply]
  split <;> rfl

theorem map_filledItem_filledAt (h : ∀ p ∈ ps, p.1 ≠ .str name) (entries : List (Value × Value)) :
    (filledAt name s entries).map (fun e => (e.1, filledItem ps e)) =
      entries.map fun e => (e.1, filledItem ((.str name, s) :: ps) e) := by
  rw [filledAt, List.map_map]
  refine List.map_congr_left fun e _ => Prod.ext ?_ (filledItem_step h e)
  simp only [Function.comp_apply]
  split <;> rfl

/-- A property that is not there changes no entry. -/
theorem map_filledItem_of_not_hasKey {entries : List (Value × Value)}
    (h : Value.hasKey (.str name) entries = false) :
    entries.map (fun e => (e.1, filledItem ((.str name, s) :: ps) e)) =
      entries.map fun e => (e.1, filledItem ps e) := by
  refine List.map_congr_left fun e he => ?_
  have hother : (Value.str name).same e.1 = false := by
    rw [Bool.eq_false_iff]
    intro hsame
    rw [Value.hasKey_iff.mpr ⟨e, he, hsame⟩] at h
    cases h
  rw [filledItem_of_not_same hother]

theorem hasKey_concat_of_ne {key : Value} (h : key ≠ .str name) (entries : List (Value × Value))
    (v : Value) : Value.hasKey key (entries ++ [(.str name, v)]) = Value.hasKey key entries := by
  have hsame : key.same (.str name) = false := by
    rw [Bool.eq_false_iff]
    intro hsame
    exact h (Value.same_str_right.mp hsame)
  simp [Value.hasKey, hsame]

/-- Filling the properties one after the other is filling every entry on its own and adding the missing
defaults, in the order of the properties. -/
theorem fillProperties_eq (h : Names ps) (entries : List (Value × Value)) :
    fillProperties ps entries =
      entries.map (fun e => (e.1, filledItem ps e)) ++ missingEntries ps entries := by
  induction ps generalizing entries with
  | nil =>
      have hid : entries.map (fun e => (e.1, filledItem [] e)) = entries := List.map_id entries
      rw [hid]
      exact (List.append_nil entries).symm
  | cons p ps ih =>
      obtain ⟨key, s⟩ := p
      obtain ⟨name, hname⟩ := h.texts (key, s) List.mem_cons_self
      obtain rfl : key = .str name := hname
      have hne : ∀ p ∈ ps, p.1 ≠ .str name := h.head_ne
      rw [fillProperties, ih h.tail, missingEntries.eq_def ((.str name, s) :: ps), List.filterMap_cons]
      cases hkey : Value.hasKey (.str name) entries with
      | true =>
          -- the entry of the property is filled, and no key comes or goes
          have hmissing : missingEntries ps (filledAt name s entries) = missingEntries ps entries :=
            missingEntries_congr ps fun p _ => hasKey_congr (keys_filledAt entries) p.1
          rw [if_pos rfl, ← map_filledItem_filledAt hne]
          exact congrArg (_ ++ ·) hmissing
      | false =>
          rw [if_neg Bool.false_ne_true, if_neg Bool.false_ne_true, map_filledItem_of_not_hasKey hkey]
          cases s.declaredDefault with
          | none => rfl
          | some d =>
              -- the default becomes the last entry, and filling the other properties does not touch it
              have hmissing : missingEntries ps (entries ++ [(.str name, s.fill d)]) =
                  missingEntries ps entries :=
                missingEntries_congr ps fun p hp => hasKey_concat_of_ne (hne p hp) entries _
              dsimp only [Option.map_some]
              rw [hmissing, List.map_append, List.append_assoc, List.map_cons,
                filledItem_of_undeclared hne rfl]
              rfl

theorem keys_fillProperties (h : Names ps) (entries : List (Value × Value)) :
    (fillProperties ps entries).map (·.1) =
      entries.map (·.1) ++ (missingEntries ps entries).map (·.1) := by
  rw [fillProperties_eq h, List.map_append, List.map_map]
  rfl

theorem of_missingEntry {entries : List (Value × Value)} {p : Value × Schema} {e : Value × Value}
    (h : (if Value.hasKey p.1 entries then none
      else p.2.declaredDefault.map fun d => (p.1, p.2.fill d)) = some e) :
    Value.hasKey p.1 entries = false ∧
      ∃ d, p.2.declaredDefault = some d ∧ e = (p.1, p.2.fill d) := by
  rw [Option.ite_none_left_eq_some, Option.map_eq_some_iff, Bool.not_eq_true] at h
  obtain ⟨hkey, d, hd, rfl⟩ := h
  exact ⟨hkey, d, hd, rfl⟩

theorem mem_missingEntries {entries : List (Value × Value)} {e : Value × Value} :
    e ∈ missingEntries ps entries ↔
      ∃ p ∈ ps, ∃ d, Value.hasKey p.1 entries = false ∧ p.2.declaredDefault = some d ∧
        e = (p.1, p.2.fill d) := by
  rw [missingEntries, List.mem_filterMap]
  constructor
  · rintro ⟨p, hp, he⟩
    obtain ⟨hkey, d, hd, rfl⟩ := of_missingEntry he
    exact ⟨p, hp, d, hkey, hd, rfl⟩
  · rintro ⟨p, hp, d, hkey, hd, rfl⟩
    refine ⟨p, hp, ?_⟩
    rw [hkey, hd]
    rfl

/-- After filling a declared key is there if it was there, or if it has a default. -/
theorem hasKey_fillProperties (h : Names ps) {p : Value × Schema} (hp : p ∈ ps)
    (entries : List (Value × Value)) :
    Value.hasKey p.1 (fillProperties ps entries) = (Value.hasKey p.1 entries || p.2.declaredDefault.isSome) := by
  obtain ⟨name, hname⟩ := h.texts p hp
  rw [Bool.eq_iff_iff, Bool.or_eq_true, hname, Value.hasKey_str, keys_fillProperties h, List.mem_append,
    ← Value.hasKey_str]
  cases hkey : Value.hasKey (.str name) entries with
  | true => exact iff_of_true (.inl rfl) (.inl rfl)
  | false =>
      refine or_congr_right ?_
      rw [List.mem_map, Option.isSome_iff_exists]
      constructor
      · rintro ⟨e, he, hsame⟩
        obtain ⟨q, hq, d, -, hd, rfl⟩ := mem_missingEntries.mp he
        obtain rfl : q = p := List.inj_on_of_nodup_map h.differ hq hp (hsame.trans hname.symm)
        exact ⟨d, hd⟩
      · rintro ⟨d, hd⟩
        exact ⟨_, mem_missingEntries.mpr ⟨p, hp, d, hname ▸ hkey, hd, rfl⟩, hname⟩

/-- Where the keys include those of filled entries, no default is missing. -/
theorem missingEntries_eq_nil (h : Names ps) {entries entries' : List (Value × Value)}
    (hkeys : entries'.map (·.1) = (fillProperties ps entries).map (·.1)) :
    missingEntries ps entries' = [] := by
  rw [List.eq_nil_iff_forall_not_mem]
  intro e he
  obtain ⟨p, hp, d, hkey, hd, -⟩ := mem_missingEntries.mp he
  obtain ⟨name, hname⟩ := h.texts p hp
  rw [hname, ← Bool.not_eq_true, Value.hasKey_str, hkeys, keys_fillProperties h, List.mem_append,
    not_or] at hkey
  refine hkey.2 (List.mem_map.mpr ⟨(p.1, p.2.fill d), ?_, hname⟩)
  refine mem_missingEntries.mpr ⟨p, hp, d, ?_, hd, rfl⟩
  rw [← Bool.not_eq_true, hname, Value.hasKey_str]
  exact hkey.1

/-- Where filling changes nothing, no item is to be filled. -/
theorem filledItem_of_fillProperties (h : Names ps) {entries : List (Value × Value)}
    (hfilled : fillProperties ps entries = entries) : ∀ e ∈ entries, filledItem ps e = e.2 := by
  have hmissing := missingEntries_eq_nil h (congrArg (List.map (·.1)) hfilled.symm)
  rw [fillProperties_eq h, hmissing, List.append_nil] at hfilled
  intro e he
  have hmap : entries.map (fun e => (e.1, filledItem ps e)) = entries.map id := by
    rw [hfilled, List.map_id]
  exact congrArg Prod.snd (List.map_inj_left.mp hmap e he)

/-! ### Filling what has been filled -/

theorem applyDefaults_applyDefaults_of_fill {s : Schema} (h : ∀ v, s.fill (s.fill v) = s.fill v)
    (v : Value) : s.applyDefaults (s.applyDefaults v) = s.applyDefaults v := by
  cases hv : (s.applyDefaults v).isAbsent with
  | false =>
      rw [applyDefaults_of_isAbsent_eq_false s hv]
      exact h _
  | true =>
      -- then the value was absent and has no default, or one that is absent itself
      have habsent := isAbsent_iff.mp hv
      have horDefault := eq_absent_of_fill habsent
      rw [habsent]
      have hdefault : s.orDefault .absent = .absent := by
        cases hvalue : v.isAbsent with
        | false =>
            rw [orDefault_of_isAbsent_eq_false s hvalue] at horDefault
            rw [← horDefault, orDefault_of_isAbsent_eq_false s hvalue, horDefault]
        | true => rwa [isAbsent_iff.mp hvalue] at horDefault
      rw [applyDefaults, horDefault] at habsent
      rw [applyDefaults, hdefault, habsent]

/-- The items of filled entries have been filled. -/
theorem filledItem_of_mem (h : Names ps)
    (hfilled : ∀ p ∈ ps, ∀ v, p.2.applyDefaults (p.2.applyDefaults v) = p.2.applyDefaults v)
    {entries : List (Value × Value)} {e : Value × Value} (he : e ∈ fillProperties ps entries) :
    filledItem ps e = e.2 := by
  rw [fillProperties_eq h, List.mem_append] at he
  rcases he with he | he
  · obtain ⟨e, -, rfl⟩ := List.mem_map.mp he
    unfold filledItem
    cases hs : property? e.1 ps with
    | none => rfl
    | some s => exact hfilled _ (mem_of_property? h hs) e.2
  · obtain ⟨p, hp, d, -, hd, rfl⟩ := mem_missingEntries.mp he
    rw [filledItem, property?_of_mem h hp, ← applyDefaults_absent hd]
    exact hfilled p hp .absent

/-- Filling leaves nothing to be filled. -/
theorem fill_fill {s : Schema} (h : s.Named) (v : Value) : s.fill (s.fill v) = s.fill v := by
  induction s using Schema.induction generalizing v with
  | array a f items ih =>
      cases hv : v.items? with
      | none => rw [fill_array_of_no_items hv, fill_array_of_no_items hv]
      | some xs =>
          rw [fill_array_of_items hv, fill_array_of_items rfl, List.map_map]
          refine congrArg _ (List.map_congr_left fun x _ => ?_)
          exact applyDefaults_applyDefaults_of_fill (ih h.2) x
  | object a f ps ih =>
      have hnames := h.names
      cases v with
      | dict entries =>
          show Value.dict (fillProperties ps (fillProperties ps entries)) =
            .dict (fillProperties ps entries)
          rw [fillProperties_eq hnames (fillProperties ps entries), missingEntries_eq_nil hnames rfl,
            List.append_nil]
          have hitems : ∀ e ∈ fillProperties ps entries, (e.1, filledItem ps e) = id e := fun e he =>
            Prod.ext rfl (filledItem_of_mem hnames (fun p hp =>
              applyDefaults_applyDefaults_of_fill (ih p hp (h.property hp))) he)
          rw [List.map_congr_left hitems, List.map_id]
      | _ => rfl
  | nullable a inner ih =>
      by_cases hv : v = .null
      · rw [hv, fill_null, fill_null]
      · rw [fill_nullable hv]
        by_cases hfilled : inner.applyDefaults v = .null
        · rw [hfilled, fill_null]
        · rw [fill_nullable hfilled]
          exact applyDefaults_applyDefaults_of_fill (ih h.2) v
  | refined a r base ih => exact ih h.2 v
  | _ => rfl

theorem applyDefaults_applyDefaults {s : Schema} (h : s.Named) (v : Value) :
    s.applyDefaults (s.applyDefaults v) = s.applyDefaults v :=
  applyDefaults_applyDefaults_of_fill (fill_fill h) v

/-! ### Well-formed values stay well formed -/

/-- A default that is declared at a node or behind it is well formed. -/
theorem wellFormed_declaredDefault {s : Schema} {d : Value} (h : s.Everywhere DefaultWellFormed)
    (hd : s.declaredDefault = some d) : d.isAbsent = false ∧ d.WellFormed := by
  induction s using Schema.induction with
  | nullable a inner ih =>
      rcases Option.or_eq_some_iff.mp hd with hd | ⟨-, hd⟩
      · exact h.1 d hd
      · exact ih h.2 hd
  | refined a r base ih =>
      rcases Option.or_eq_some_iff.mp hd with hd | ⟨-, hd⟩
      · exact h.1 d hd
      · exact ih h.2 hd
  | array a f items ih => exact h.1 d hd
  | object a f ps ih => exact h.1 d hd
  | _ => exact h d hd

theorem wellFormed_orDefault {s : Schema} (h : s.Everywhere DefaultWellFormed) {v : Value}
    (hv : v.WellFormed) : (s.orDefault v).WellFormed := by
  cases habsent : v.isAbsent with
  | false => rwa [orDefault_of_isAbsent_eq_false s habsent]
  | true =>
      rw [orDefault, habsent, if_pos rfl]
      cases hd : s.declaredDefault with
      | none => trivial
      | some d => exact (wellFormed_declaredDefault h hd).2

/-- The entries that are added have new keys. -/
theorem keysDiffer_fillProperties (h : Names ps) {entries : List (Value × Value)}
    (hdiffer : Value.KeysDiffer entries) : Value.KeysDiffer (fillProperties ps entries) := by
  rw [fillProperties_eq h]
  refine List.pairwise_append.mpr ⟨?_, ?_, ?_⟩
  · exact hdiffer.congr (by rw [List.map_map]; rfl)
  · -- two defaults come from two properties
    refine List.pairwise_filterMap.mpr ((List.pairwise_map.mp h.differ).imp_of_mem ?_)
    intro p q hp _ hne e he e' he'
    obtain ⟨-, d, -, rfl⟩ := of_missingEntry he
    obtain ⟨-, d', -, rfl⟩ := of_missingEntry he'
    obtain ⟨name, hname⟩ := h.texts p hp
    rw [Bool.eq_false_iff]
    intro hsame
    rw [hname, Value.same_str_right, ← hname] at hsame
    exact hne hsame.symm
  · -- a default is added where its key was not found
    intro e he e' he'
    obtain ⟨e, hmem, rfl⟩ := List.mem_map.mp he
    obtain ⟨p, -, d, hkey, -, rfl⟩ := mem_missingEntries.mp he'
    rw [Bool.eq_false_iff]
    intro hsame
    rw [Value.hasKey_iff.mpr ⟨e, hmem, hsame⟩] at hkey
    cases hkey

/-- Filling a well-formed value gives a well-formed value. -/
theorem wellFormed_fill {s : Schema} (h : s.Named) (hs : s.Everywhere DefaultWellFormed) {v : Value}
    (hv : v.WellFormed) : (s.fill v).WellFormed := by
  induction s using Schema.induction generalizing v with
  | array a f items ih =>
      cases hitems : v.items? with
      | none => rwa [fill_array_of_no_items hitems]
      | some xs =>
          rw [fill_array_of_items hitems, Value.wellFormed_list]
          intro x hx
          obtain ⟨y, hy, rfl⟩ := List.mem_map.mp hx
          exact ih h.2 hs.2 (wellFormed_orDefault hs.2 (hv.items hitems y hy))
  | object a f ps ih =>
      cases v with
      | dict entries =>
          obtain ⟨hdiffer, hvalues⟩ := Value.wellFormed_dict.mp hv
          refine Value.wellFormed_dict.mpr ⟨keysDiffer_fillProperties h.names hdiffer, ?_⟩
          intro e he
          rw [fillProperties_eq h.names, List.mem_append] at he
          rcases he with he | he
          · obtain ⟨e, hmem, rfl⟩ := List.mem_map.mp he
            unfold filledItem
            cases hp : property? e.1 ps with
            | none => exact hvalues e hmem
            | some s =>
                have hmem' := mem_of_property? h.names hp
                exact ih _ hmem' (h.property hmem') ((everywhere_object.mp hs).2 _ hmem')
                  (wellFormed_orDefault ((everywhere_object.mp hs).2 _ hmem') (hvalues e hmem))
          · obtain ⟨p, hp, d, -, hd, rfl⟩ := mem_missingEntries.mp he
            have hdefaults := (everywhere_object.mp hs).2 p hp
            exact ih p hp (h.property hp) hdefaults (wellFormed_declaredDefault hdefaults hd).2
      | _ => exact hv
  | nullable a inner ih =>
      by_cases hnull : v = .null
      · rw [hnull, fill_null]
        trivial
      · rw [fill_nullable hnull]
        exact ih h.2 hs.2 (wellFormed_orDefault hs.2 hv)
  | refined a r base ih => exact ih h.2 hs.2 hv
  | _ => exact hv

end ApiContract.Schema
