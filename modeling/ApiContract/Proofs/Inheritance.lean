import ApiContract.Proofs.Acceptance
import ApiContract.Proofs.HeaderNames
import ApiContract.Proofs.Parts

/-!
# What the stages before the check keep

A property of values is inherited (`Value.Inherited`) if no stage before the check can lose it: it holds of
null and of every list, it does not depend on the items of a dictionary and is not lost when keys go or
texts come as keys, and the conversions of single values keep it. Such a property holds everywhere in the
value that is checked if it holds everywhere in the input and in the declared defaults
(`everywhere_clean`, `everywhere_cleanHeaders`, `everywhere_applyDefaults`, `everywhere_convert`).
-/

namespace ApiContract

/-- A property that cleaning, filling and conversion hand on. -/
structure Value.Inherited (P : Value → Prop) : Prop where
  null : P .null
  list : ∀ xs, P (.list xs)
  dict : ∀ entries entries', P (.dict entries) →
    (∀ e' ∈ entries', (∃ e ∈ entries, e'.1 = e.1) ∨ ∃ name, e'.1 = .str name) → P (.dict entries')
  number : ∀ integral v w, P v → Convert.number integral v = .ok w → P w
  boolean : ∀ v, P v → P (Convert.boolean v)
  string : ∀ v w, P v → Convert.string v = .ok w → P w

namespace Value.Inherited

variable {P : Value → Prop} (hP : Inherited P)

include hP

theorem everywhere_list {xs : List Value} : (Value.list xs).Everywhere P ↔ ∀ x ∈ xs, x.Everywhere P := by
  rw [Value.everywhere_list]
  exact and_iff_right (hP.list xs)

/-- A conversion toward a number keeps the value or gives a number. -/
theorem everywhere_number {integral : Bool} {v w : Value} (h : Convert.number integral v = .ok w)
    (hv : v.Everywhere P) : w.Everywhere P := by
  have hkept := hP.number integral v w hv.here h
  rcases Convert.number_cases h with rfl | ⟨n, rfl⟩ | ⟨-, x, rfl⟩
  · exact hv
  · exact hkept
  · exact hkept

theorem everywhere_boolean {v : Value} (hv : v.Everywhere P) : (Convert.boolean v).Everywhere P := by
  have hkept := hP.boolean v hv.here
  rcases Convert.boolean_cases v with h | ⟨b, h⟩
  · rwa [h]
  · rw [h] at hkept ⊢
    exact hkept

theorem everywhere_string {v w : Value} (h : Convert.string v = .ok w) (hv : v.Everywhere P) :
    w.Everywhere P := by
  have hkept := hP.string v w hv.here h
  rcases Convert.string_cases h with rfl | ⟨text, rfl, -⟩
  · exact hv
  · exact hkept

end Value.Inherited

namespace Schema

variable {P : Value → Prop}

theorem everywhere_clean (hP : Value.Inherited P) {s : Schema} {v : Value} (hv : v.Everywhere P) :
    (s.clean v).Everywhere P := by
  induction s using Schema.induction generalizing v with
  | array a f items ih =>
      cases hitems : v.items? with
      | none => rwa [clean_array_of_no_items hitems]
      | some xs =>
          rw [clean_array_of_items hitems, hP.everywhere_list]
          intro x hx
          obtain ⟨y, hy, rfl⟩ := List.mem_map.mp hx
          exact ih (hv.items hitems y hy)
  | object a f ps ih =>
      cases v with
      | dict entries =>
          obtain ⟨hhere, hvalues⟩ := Value.everywhere_dict.mp hv
          rw [clean_dict, Value.everywhere_dict]
          constructor
          · refine hP.dict entries _ hhere fun e' he' => ?_
            obtain ⟨e, he, hentry⟩ := List.mem_filterMap.mp he'
            exact .inl ⟨e, he, (of_cleanedEntry hentry).1⟩
          · intro e' he'
            obtain ⟨e, he, hentry⟩ := List.mem_filterMap.mp he'
            obtain ⟨-, hitem | ⟨p, hp, hitem⟩⟩ := of_cleanedEntry hentry
            · rw [hitem]
              exact hvalues e he
            · rw [hitem]
              exact ih p hp (hvalues e he)
      | _ => exact hv
  | nullable a inner ih =>
      rw [clean_nullable]
      exact ih hv
  | refined a r base ih => exact ih hv
  | _ => exact hv

/-- A renamed header has its own key or a declared name. -/
theorem everywhere_renameHeaders (hP : Value.Inherited P) {ps : List (Value × Schema)}
    {entries renamed : List (Value × Value)} (h : renameHeaders ps entries = .ok renamed)
    (hv : (Value.dict entries).Everywhere P) : (Value.dict renamed).Everywhere P := by
  obtain ⟨names, hfolded, h⟩ := bind_eq_ok_iff.mp h
  obtain ⟨pairs, hpairs, h⟩ := bind_eq_ok_iff.mp h
  obtain rfl := Except.ok.inj h
  obtain ⟨hhere, hvalues⟩ := Value.everywhere_dict.mp hv
  have hbound : ∀ e' ∈ Value.ofEntries pairs,
      ((∃ e ∈ entries, e'.1 = e.1) ∨ ∃ name, e'.1 = .str name) ∧ e'.2.Everywhere P := by
    refine Value.forall_ofEntries (P := fun key => (∃ e ∈ entries, key = e.1) ∨ ∃ name, key = .str name)
      (Q := fun v => v.Everywhere P) fun e' he' => ?_
    obtain ⟨e, he, hstep⟩ := exists_left_of_forall₂ (mapM_eq_ok_iff.mp hpairs) he'
    obtain ⟨text, -, hstep⟩ := bind_eq_ok_iff.mp hstep
    obtain rfl := Except.ok.inj hstep
    refine ⟨?_, hvalues e he⟩
    cases hfound : names.lookup (Text.toLower text) with
    | none => exact .inl ⟨e, he, rfl⟩
    | some key =>
        obtain ⟨p, -, name, -, -, rfl⟩ := of_lookup_foldedNames hfolded hfound
        exact .inr ⟨name, rfl⟩
  exact Value.everywhere_dict.mpr
    ⟨hP.dict entries _ hhere fun e he => (hbound e he).1, fun e he => (hbound e he).2⟩

theorem everywhere_cleanHeaders (hP : Value.Inherited P) {s : Schema} {v w : Value}
    (h : s.cleanHeaders v = .ok w) (hv : v.Everywhere P) : w.Everywhere P := by
  induction s using Schema.induction generalizing v w with
  | object a f ps ih =>
      cases v with
      | dict entries =>
          obtain ⟨renamed, hrenamed, h⟩ := bind_eq_ok_iff.mp h
          obtain rfl := Except.ok.inj h
          exact everywhere_clean hP (everywhere_renameHeaders hP hrenamed hv)
      | _ =>
          obtain rfl := Except.ok.inj h
          exact hv
  | nullable a inner ih =>
      cases v with
      | null =>
          obtain rfl := Except.ok.inj h
          exact hv
      | _ => exact ih h hv
  | refined a r base ih => exact ih h hv
  | _ =>
      obtain rfl := Except.ok.inj h
      exact everywhere_clean hP hv

theorem everywhere_orDefault {s : Schema} (hdefaults : ∀ d ∈ s.defaults, d.Everywhere P) {v : Value}
    (hv : v.Everywhere P) : (s.orDefault v).Everywhere P := by
  cases habsent : v.isAbsent with
  | false => rwa [orDefault_of_isAbsent_eq_false s habsent]
  | true =>
      rw [orDefault, habsent, if_pos rfl]
      cases hd : s.declaredDefault with
      | none => rwa [isAbsent_iff.mp habsent] at hv
      | some d => exact hdefaults d (mem_defaults_of_declaredDefault hd)

theorem everywhere_fill (hP : Value.Inherited P) {s : Schema} (hs : s.Named)
    (hdefaults : ∀ d ∈ s.defaults, d.Everywhere P) {v : Value} (hv : v.Everywhere P) :
    (s.fill v).Everywhere P := by
  -- a part of a schema declares no default that the schema does not declare
  have hpart {s s' : Schema} (h : s.nodes ⊆ s'.nodes) (hd : ∀ d ∈ s'.defaults, d.Everywhere P) :
      ∀ d ∈ s.defaults, d.Everywhere P := fun d hmem => hd d (defaults_mono h hmem)
  induction s using Schema.induction generalizing v with
  | array a f items ih =>
      cases hitems : v.items? with
      | none => rwa [fill_array_of_no_items hitems]
      | some xs =>
          rw [fill_array_of_items hitems, hP.everywhere_list]
          intro x hx
          obtain ⟨y, hy, rfl⟩ := List.mem_map.mp hx
          have hitems' := hpart (List.subset_cons_self _ _) hdefaults
          exact ih hs.2 hitems' (everywhere_orDefault hitems' (hv.items hitems y hy))
  | object a f ps ih =>
      cases v with
      | dict entries =>
          obtain ⟨hhere, hvalues⟩ := Value.everywhere_dict.mp hv
          have hchild : ∀ p ∈ ps, ∀ d ∈ p.2.defaults, d.Everywhere P := fun p hp =>
            hpart (nodes_property_subset hp) hdefaults
          have hentry : ∀ e' ∈ fillProperties ps entries,
              ((∃ e ∈ entries, e'.1 = e.1) ∨ ∃ name, e'.1 = .str name) ∧ e'.2.Everywhere P := by
            intro e' he'
            rw [fillProperties_eq hs.names, List.mem_append] at he'
            rcases he' with he' | he'
            · obtain ⟨e, he, rfl⟩ := List.mem_map.mp he'
              refine ⟨.inl ⟨e, he, rfl⟩, ?_⟩
              unfold filledItem
              cases hp : property? e.1 ps with
              | none => exact hvalues e he
              | some child =>
                  have hmem := mem_of_property? hs.names hp
                  exact ih _ hmem (hs.property hmem) (hchild _ hmem)
                    (everywhere_orDefault (hchild _ hmem) (hvalues e he))
            · obtain ⟨p, hp, d, -, hd, rfl⟩ := mem_missingEntries.mp he'
              have hdefault := hchild p hp d (mem_defaults_of_declaredDefault hd)
              exact ⟨.inr (hs.names.texts p hp), ih p hp (hs.property hp) (hchild p hp) hdefault⟩
          exact Value.everywhere_dict.mpr
            ⟨hP.dict entries _ hhere fun e he => (hentry e he).1, fun e he => (hentry e he).2⟩
      | _ => exact hv
  | nullable a inner ih =>
      by_cases hnull : v = .null
      · rwa [hnull, fill_null, ← hnull]
      · rw [fill_nullable hnull]
        have hinner := hpart (List.subset_cons_self _ _) hdefaults
        exact ih hs.2 hinner (everywhere_orDefault hinner hv)
  | refined a r base ih => exact ih hs.2 (hpart (List.subset_cons_self _ _) hdefaults) hv
  | _ => exact hv

theorem everywhere_applyDefaults (hP : Value.Inherited P) {s : Schema} (hs : s.Named)
    (hdefaults : ∀ d ∈ s.defaults, d.Everywhere P) {v : Value} (hv : v.Everywhere P) :
    (s.applyDefaults v).Everywhere P :=
  everywhere_fill hP hs hdefaults (everywhere_orDefault hdefaults hv)

theorem everywhere_convert (hP : Value.Inherited P) {textual : Bool} {s : Schema} {v w : Value}
    (h : s.convert textual v = .ok w) (hv : v.Everywhere P) : w.Everywhere P := by
  induction s using Schema.induction generalizing v w with
  | string a f => exact hP.everywhere_string h hv
  | number a f => exact hP.everywhere_number h hv
  | integer a f => exact hP.everywhere_number h hv
  | boolean a =>
      obtain rfl := Except.ok.inj h
      exact hP.everywhere_boolean hv
  | array a f items ih =>
      cases hitems : v.items? with
      | some xs =>
          obtain ⟨ys, rfl, hys⟩ := (convert_items_eq_ok hitems).mp h
          rw [hP.everywhere_list]
          intro y hy
          obtain ⟨x, hx, hxy⟩ := exists_left_of_forall₂ hys hy
          exact ih hxy (hv.items hitems x hx)
      | none =>
          cases halone : textual && standsAlone v with
          | true =>
              obtain ⟨y, rfl, hy⟩ := (convert_single_eq_ok hitems halone).mp h
              rw [hP.everywhere_list]
              intro z hz
              obtain rfl := List.mem_singleton.mp hz
              exact ih hy hv
          | false =>
              rw [convert_array_of_other hitems halone] at h
              rwa [← Except.ok.inj h]
  | object a f ps ih =>
      cases v with
      | dict entries =>
          obtain ⟨converted, rfl, hconverted⟩ := convert_dict_eq_ok.mp h
          obtain ⟨hhere, hvalues⟩ := Value.everywhere_dict.mp hv
          refine Value.everywhere_dict.mpr ⟨hP.dict entries _ hhere fun e' he' => ?_, fun e' he' => ?_⟩
          · obtain ⟨e, he, hkey, -⟩ := exists_left_of_forall₂ hconverted he'
            exact .inl ⟨e, he, hkey⟩
          · obtain ⟨e, he, -, hitem⟩ := exists_left_of_forall₂ hconverted he'
            rw [convertProperty_eq] at hitem
            cases hs : property? e.1 ps with
            | none =>
                rw [hs] at hitem
                rw [← Except.ok.inj hitem]
                exact hvalues e he
            | some s =>
                rw [hs] at hitem
                obtain ⟨p, hp, rfl⟩ := exists_of_property? hs
                exact ih p hp hitem (hvalues e he)
      | _ =>
          obtain rfl := Except.ok.inj h
          exact hv
  | nullable a inner ih =>
      by_cases hnull : v = .null
      · rw [hnull, convert_null] at h
        rw [← Except.ok.inj h]
        exact hP.null
      · rw [convert_nullable hnull] at h
        split_ifs at h
        · rw [← Except.ok.inj h]
          exact hP.null
        · exact ih h hv
  | refined a r base ih => exact ih h hv
  | bare a =>
      obtain rfl := Except.ok.inj h
      exact hv
  | foreign u =>
      obtain rfl := Except.ok.inj h
      exact hv

end Schema

namespace Pipeline

open Schema

variable {P : Value → Prop}

theorem everywhere_cleanFor (hP : Value.Inherited P) {s : Schema} {t : Target} {v w : Value}
    (h : s.cleanFor (some t) v = .ok w) (hv : v.Everywhere P) : w.Everywhere P := by
  unfold cleanFor at h
  split_ifs at h
  · exact everywhere_cleanHeaders hP h hv
  · rw [← Except.ok.inj h]
    exact everywhere_clean hP hv

theorem cleanFor_absent (s : Schema) (t : Option Target) : s.cleanFor t .absent = .ok .absent := by
  unfold cleanFor
  split
  · exact cleanHeaders_absent s
  · rw [clean_absent]

/-- The value that conversion is given inherits from the input and the defaults. An absent input has
nothing to hand on. -/
theorem everywhere_filled (hP : Value.Inherited P) {s : Schema} (hs : s.Named)
    (hdefaults : ∀ d ∈ s.defaults, d.Everywhere P) {t : Target} {raw cleaned : Value}
    (hclean : s.cleanFor (some t) raw = .ok cleaned) (hraw : raw = .absent ∨ raw.Everywhere P) :
    (nullIfAbsent (s.applyDefaults cleaned)).Everywhere P := by
  unfold nullIfAbsent
  split
  · exact hP.null
  · rename_i hpresent
    rcases hraw with rfl | hraw
    · rw [cleanFor_absent] at hclean
      obtain rfl := Except.ok.inj hclean
      cases hd : s.declaredDefault with
      | none =>
          rw [applyDefaults, orDefault, hd] at hpresent
          exact absurd (congrArg Value.isAbsent (fill_absent hd)) hpresent
      | some d =>
          rw [applyDefaults_absent hd]
          exact everywhere_fill hP hs hdefaults (hdefaults d (mem_defaults_of_declaredDefault hd))
    · exact everywhere_applyDefaults hP hs hdefaults (everywhere_cleanFor hP hclean hraw)

/-- The value that is checked inherits from the input and the defaults. -/
theorem everywhere_converted (hP : Value.Inherited P) {s : Schema} (hs : s.Named)
    (hdefaults : ∀ d ∈ s.defaults, d.Everywhere P) {t : Target} {raw cleaned converted : Value}
    (hclean : s.cleanFor (some t) raw = .ok cleaned)
    (hconvert : s.convertFor (some t) (nullIfAbsent (s.applyDefaults cleaned)) = .ok converted)
    (hraw : raw = .absent ∨ raw.Everywhere P) : converted.Everywhere P :=
  everywhere_convert hP hconvert (everywhere_filled hP hs hdefaults hclean hraw)

end Pipeline

end ApiContract
