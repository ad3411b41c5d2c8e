import ApiContract.Proofs.Acceptance
import ApiContract.Proofs.Children
import ApiContract.Proofs.Cleaning
import ApiContract.Proofs.Filling

/-!
# Values that are valid already

The pipeline changes nothing about a value that its validator accepts as it comes, if the schema declares no
default (`Pipeline.apply_of_check`). Each stage before the check leaves such a value as it is: nothing is
filled in without a default (`Schema.fill_of_no_defaults`), nothing is coerced that already has the type of
its leaf (`Schema.convert_of_satisfies`), and no key is dropped that the check admits. Only a tuple does not
stay what it is, since an array leaves the pipeline as a list.
-/

namespace ApiContract

/-- There is no tuple in the value. -/
def Value.TupleFree (v : Value) : Prop := v.Everywhere fun w => ∀ xs, w ≠ .tuple xs

theorem Value.IsJson.tupleFree {v : Value} (h : v.IsJson) : v.TupleFree :=
  h.imp fun w hw xs hxs => by
    rw [hxs] at hw
    exact hw

/-- The items of a value without tuples are those of a list. -/
theorem Value.TupleFree.eq_list {v : Value} (h : v.TupleFree) {xs : List Value} (hv : v.items? = some xs) :
    v = .list xs := by
  cases v with
  | list ys => exact congrArg Value.list (Option.some.inj hv)
  | tuple ys => exact absurd rfl (h.here ys)
  | _ => cases hv

namespace Schema

variable {s : Schema}

/-! ### Schemas without defaults -/

theorem defaults_child_eq_nil (h : s.defaults = []) {t : Schema} (ht : t ∈ s.children) : t.defaults = [] :=
  List.subset_nil.mp (h ▸ defaults_mono (nodes_child_subset ht))

theorem declaredDefault_of_no_defaults (h : s.defaults = []) : s.declaredDefault = none := by
  rw [Option.eq_none_iff_forall_ne_some]
  intro d hd
  have hmem := mem_defaults_of_declaredDefault hd
  rw [h] at hmem
  cases hmem

/-- Without a default also what is absent is only filled. -/
theorem applyDefaults_of_no_defaults (h : s.defaults = []) (v : Value) : s.applyDefaults v = s.fill v := by
  cases habsent : v.isAbsent with
  | false => exact applyDefaults_of_isAbsent_eq_false s habsent
  | true =>
      rw [isAbsent_iff.mp habsent, applyDefaults, orDefault, declaredDefault_of_no_defaults h]
      rfl

/-- Nothing is filled in where no default is declared. -/
theorem fill_of_no_defaults (hnamed : s.Named) (hs : s.defaults = []) {v : Value} (hv : v.TupleFree) :
    s.fill v = v := by
  induction s using Schema.induction generalizing v with
  | array a f items ih =>
      cases hitems : v.items? with
      | none => exact fill_array_of_no_items hitems
      | some xs =>
          have hnone := defaults_child_eq_nil hs List.mem_cons_self
          have hfilled : ∀ x ∈ xs, items.applyDefaults x = id x := fun x hx =>
            (applyDefaults_of_no_defaults hnone x).trans (ih hnamed.2 hnone (hv.items hitems x hx))
          rw [fill_array_of_items hitems, List.map_congr_left hfilled, List.map_id, hv.eq_list hitems]
  | object a f ps ih =>
      have hnone : ∀ p ∈ ps, p.2.defaults = [] := fun p hp =>
        defaults_child_eq_nil hs (List.mem_map_of_mem hp)
      cases v with
      | dict entries =>
          have hitems := (Value.everywhere_dict.mp hv).2
          have hmissing : missingEntries ps entries = [] := by
            rw [List.eq_nil_iff_forall_not_mem]
            intro e he
            obtain ⟨p, hp, d, -, hd, -⟩ := mem_missingEntries.mp he
            rw [declaredDefault_of_no_defaults (hnone p hp)] at hd
            cases hd
          have hfilled : ∀ e ∈ entries, (e.1, filledItem ps e) = id e := by
            intro e he
            refine Prod.ext rfl ?_
            unfold filledItem
            cases hfound : property? e.1 ps with
            | none => rfl
            | some s =>
                have hmem := mem_of_property? hnamed.names hfound
                exact (applyDefaults_of_no_defaults (hnone _ hmem) e.2).trans
                  (ih _ hmem (hnamed.property hmem) (hnone _ hmem) (hitems e he))
          show Value.dict (fillProperties ps entries) = .dict entries
          rw [fillProperties_eq hnamed.names, hmissing, List.append_nil, List.map_congr_left hfilled,
            List.map_id]
      | _ => rfl
  | nullable a inner ih =>
      by_cases hnull : v = .null
      · rw [hnull, fill_null]
      · have hnone := defaults_child_eq_nil hs List.mem_cons_self
        rw [fill_nullable hnull, applyDefaults_of_no_defaults hnone]
        exact ih hnamed.2 hnone hv
  | refined a r base ih => exact ih hnamed.2 (defaults_child_eq_nil hs List.mem_cons_self) hv
  | _ => rfl

/-! ### Values of the right types -/

/-- A value that satisfies a schema is not coerced, unless it comes as text. -/
theorem convert_of_satisfies (hnamed : s.Named) {v : Value} (hsat : s.Satisfies v) (hv : v.WellFormed)
    (htuples : v.TupleFree) : s.convert false v = .ok v := by
  induction s using Schema.induction generalizing v with
  | string a f =>
      obtain ⟨text, rfl, -⟩ := hsat
      rfl
  | number a f =>
      obtain ⟨⟨n, rfl⟩ | ⟨x, rfl, -⟩, -⟩ := hsat
      · rfl
      · rfl
  | integer a f =>
      obtain ⟨⟨n, rfl⟩, -⟩ := hsat
      rfl
  | boolean a =>
      obtain ⟨b, rfl⟩ := hsat
      rfl
  | array a f items ih =>
      obtain ⟨xs, hxs, -, hitems⟩ := hsat
      refine (convert_items_eq_ok hxs).mpr ⟨xs, htuples.eq_list hxs, List.forall₂_same.mpr fun x hx => ?_⟩
      exact ih hnamed.2 (hitems x hx) (hv.items hxs x hx) (htuples.items hxs x hx)
  | object a f ps ih =>
      obtain ⟨entries, rfl, -, hproperties, -⟩ := hsat
      obtain ⟨hdiffer, hvalues⟩ := Value.wellFormed_dict.mp hv
      refine convert_dict_eq_ok.mpr ⟨entries, rfl, List.forall₂_same.mpr fun e he => ⟨rfl, ?_⟩⟩
      rw [convertProperty_eq]
      cases hfound : property? e.1 ps with
      | none => rfl
      | some s =>
          have hmem := mem_of_property? hnamed.names hfound
          exact ih _ hmem (hnamed.property hmem) (satisfies_item hnamed.names hdiffer hproperties he hfound)
            (hvalues e he) ((Value.everywhere_dict.mp htuples).2 e he)
  | nullable a inner ih =>
      by_cases hnull : v = .null
      · rw [hnull, convert_null]
      · rw [convert_nullable hnull]
        exact ih hnamed.2 (hsat.resolve_left hnull) hv htuples
  | refined a r base ih => exact ih hnamed.2 hsat.1 hv htuples
  | bare a => cases hsat
  | foreign w => cases hsat

end Schema

namespace Pipeline

open Schema

/-- **The pipeline accepts what is valid already, and leaves it as it is.** The keys of its dictionaries stay
in their order at every level. -/
theorem apply_of_check {s : Schema} {p : Pipeline} (hp : ofSchema s = .ok p) (honce : s.Everywhere DeclaresOnce)
    (hs : s.defaults = []) {v : Value} (hv : v.WellFormed) (htuples : v.TupleFree)
    (hcheck : p.validator.check v = .ok true) : p.apply .json v = .ok (.success v) := by
  obtain ⟨rfl, hcompile⟩ := ofSchema_eq_ok hp
  have hnamed := named_of_compileAt hcompile honce
  obtain ⟨hclean, herrors, -⟩ := check_iff_errors_iff_satisfies hcompile v
  have hsat := herrors.mp (hclean.mp hcheck)
  have hconvert : p.schema.convertFor (some .json) v = .ok v :=
    convert_of_satisfies hnamed hsat hv htuples
  have hfill : nullIfAbsent (p.schema.applyDefaults v) = v := by
    rw [applyDefaults_of_satisfies hsat, fill_of_no_defaults hnamed hs htuples, nullIfAbsent,
      isAbsent_of_satisfies hsat]
    rfl
  refine apply_eq_success_iff.mpr ⟨v, congrArg Except.ok (clean_of_satisfies hnamed hsat hconvert hv), ?_, ?_⟩
  · rw [hfill, hconvert]
  · exact (isClean_run_iff hcompile v "").mpr hsat

/-- A measurement with remarks, of which any may be added. -/
def measurement : Schema :=
  .object {} { additional := true } [
    (.str "ratio", .number {} { minimum := some (.int 0) }),
    (.str "flags", .array {} {} (.nullable {} (.nullable {} (.boolean {})))),
    (.str "label", .refined {} ⟨.predicate ⟨"filled", "filled", .null, fun v => .ok v.truthy⟩,
        .str "must not be empty", none⟩
      (.nullable {} (.string {} {})))]

/-- The validator of measurements. -/
def measurementValidator : Validator :=
  .object ⟨["ratio", "flags", "label"], true⟩ [
    ("ratio", .number ⟨false, some (.int 0), none, none, none, none, none⟩),
    ("flags", .array ⟨none, none, false⟩ (.nullable (.nullable .boolean))),
    ("label", .refined ⟨"filled", "filled", .null, fun v => .ok v.truthy⟩ "must not be empty"
      (.nullable (.string ⟨none, none, none, none, none⟩)))]

/-- A number without fraction, a text that reads like one, and what is not declared, in an order of its own. -/
def measured : Value :=
  .record [("label", .str "1"), ("note", .record [("zero", .int 0), ("none", .absent)]),
    ("flags", .list [.bool true, .null, .bool false]), ("ratio", .float (.finite false (Nat.pow 2 52) (-51)))]

/-- The number stays a floating-point number, the label a text, and the note as it is. -/
theorem apply_measured :
    measurement.compile = .ok measurementValidator ∧
      measurementValidator.check measured = .ok true ∧
      (⟨measurement, measurementValidator⟩ : Pipeline).apply .json measured = .ok (.success measured) := by
  have hcompile : measurement.compile = .ok measurementValidator := rfl
  have hp : ofSchema measurement = .ok ⟨measurement, measurementValidator⟩ := rfl
  have honce : measurement.Everywhere DeclaresOnce := by
    simp [measurement, Everywhere, EverywhereAmong, DeclaresOnce, Value.same]
  have hvalue : measured.WellFormed := by
    simp [measured, Value.record, Value.WellFormed, Value.Everywhere, Value.EverywhereIn,
      Value.EverywhereAmong, Value.BindsOnce, Value.KeysDiffer, Value.same]
  have htuples : measured.TupleFree := by
    simp [measured, Value.record, Value.TupleFree, Value.Everywhere, Value.EverywhereIn,
      Value.EverywhereAmong]
  have hcheck : measurementValidator.check measured = .ok true := by decide +kernel
  exact ⟨hcompile, hcheck, apply_of_check hp honce rfl hvalue htuples hcheck⟩

end Pipeline

end ApiContract
