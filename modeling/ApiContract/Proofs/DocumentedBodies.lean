import ApiContract.Proofs.Conformance
import ApiContract.Proofs.Inheritance

/-!
# Bodies that are valid against a document

A document speaks of a body as it comes, and a body is cleaned before it is checked. What a valid body is
asked for stays when undeclared keys go, with one exception: items of an array that differ in undeclared keys
alone become equal, and where items have to differ they are refused then. Apart from this every body that is
valid against the document of a plain schema is accepted (`Pipeline.apply_json_iff_of_valid`).
-/

namespace ApiContract

namespace Value

/-- Null, truth values, integers, texts, and dictionaries of text keys stay so before the check. -/
theorem inherited_jsonForm : Inherited JsonForm where
  null := trivial
  list _ := trivial
  dict entries entries' h hkeys := by
    intro e' he'
    rcases hkeys e' he' with ⟨e, he, heq⟩ | htext
    · rw [heq]
      exact h e he
    · exact htext
  number integral v w h hw := by
    rcases Convert.number_cases hw with rfl | ⟨n, rfl⟩ | ⟨-, x, rfl⟩
    · exact h
    · trivial
    · trivial
  boolean v h := by
    rcases Convert.boolean_cases v with hv | ⟨b, hv⟩
    · rwa [hv]
    · rw [hv]
      trivial
  string v w h hw := by
    rcases Convert.string_cases hw with rfl | ⟨s, rfl, -⟩
    · exact h
    · trivial

end Value

namespace Schema

/-! ### Arrays whose items have to differ -/

mutual
/-- A condition holds of what cleaning leaves of the items of every array that must have different items. -/
def UniqueArrays (P : List Value → Prop) : Schema → Value → Prop
  | .array _ f items, v => ∀ xs, v = .list xs →
      (f.uniqueItems = true → P (xs.map items.clean)) ∧ ∀ x ∈ xs, items.UniqueArrays P x
  | .object _ _ ps, v => ∀ entries, v = .dict entries → UniqueArraysAmong P ps entries
  | .nullable _ inner, v => inner.UniqueArrays P v
  | .refined _ _ base, v => base.UniqueArrays P v
  | _, _ => True
termination_by structural s => s

def UniqueArraysAmong (P : List Value → Prop) : List (Value × Schema) → List (Value × Value) → Prop
  | [], _ => True
  | (key, s) :: rest, entries =>
    (∀ v, Value.lookup? key entries = some v → s.UniqueArrays P v) ∧ UniqueArraysAmong P rest entries
termination_by structural ps => ps
end

variable {P : List Value → Prop}

theorem uniqueArraysAmong_iff {ps : List (Value × Schema)} {entries : List (Value × Value)} :
    UniqueArraysAmong P ps entries ↔
      ∀ p ∈ ps, ∀ v, Value.lookup? p.1 entries = some v → p.2.UniqueArrays P v := by
  induction ps with
  | nil => simp [UniqueArraysAmong]
  | cons p ps ih =>
      obtain ⟨key, s⟩ := p
      simp [UniqueArraysAmong, ih]

theorem uniqueArrays_list {a : Annotations} {f : ArrayFields} {items : Schema} {xs : List Value} :
    (Schema.array a f items).UniqueArrays P (.list xs) ↔
      (f.uniqueItems = true → P (xs.map items.clean)) ∧ ∀ x ∈ xs, items.UniqueArrays P x := by
  constructor
  · intro h
    exact h xs rfl
  · rintro h _ ⟨⟩
    exact h

theorem uniqueArrays_dict {a : Annotations} {f : ObjectFields} {ps : List (Value × Schema)}
    {entries : List (Value × Value)} :
    (Schema.object a f ps).UniqueArrays P (.dict entries) ↔
      ∀ p ∈ ps, ∀ v, Value.lookup? p.1 entries = some v → p.2.UniqueArrays P v := by
  rw [← uniqueArraysAmong_iff]
  constructor
  · intro h
    exact h entries rfl
  · rintro h _ ⟨⟩
    exact h

theorem uniqueArrays_null (s : Schema) : s.UniqueArrays P .null := by
  induction s using Schema.induction with
  | array a f items ih =>
      rintro xs ⟨⟩
  | object a f ps ih =>
      rintro entries ⟨⟩
  | nullable a inner ih => exact ih
  | refined a r base ih => exact ih
  | _ => trivial

/-! ### The stages before the check -/

theorem isJson_clean {s : Schema} {v : Value} (hv : v.IsJson) : (s.clean v).IsJson :=
  everywhere_clean Value.inherited_jsonForm hv

/-- A plain schema fills nothing in. -/
theorem fill_of_plain {s : Schema} (hnamed : s.Named) (hs : s.Everywhere Plain) {v : Value}
    (hv : v.IsJson) : s.fill v = v :=
  fill_of_no_defaults hnamed (defaults_of_plain hs) hv.tupleFree

/-- What stands under a declared key of a conforming body conforms. -/
theorem conforms_of_property? {ps : List (Value × Schema)} (hnames : Names ps)
    {entries : List (Value × Value)} (hdiffer : Value.KeysDiffer entries)
    (hconforms : ConformsProperties ps entries) {e : Value × Value} (he : e ∈ entries) {s : Schema}
    (hs : property? e.1 ps = some s) : s.Conforms e.2 := by
  have hmem := mem_of_property? hnames hs
  obtain ⟨name, hname⟩ := hnames.texts _ hmem
  obtain ⟨key, v⟩ := e
  obtain rfl : key = .str name := hname
  exact conformsProperties_iff.mp hconforms _ hmem v (Value.lookup?_of_mem hdiffer he)

/-- A conforming body has nothing to be converted once it is clean. -/
theorem convert_clean_of_conforms {s : Schema} (hnamed : s.Named) {v : Value} (hv : v.WellFormed)
    (h : s.Conforms v) : s.convert false (s.clean v) = .ok (s.clean v) := by
  induction s using Schema.induction generalizing v with
  | string a f =>
      obtain ⟨s, rfl, -⟩ := h
      rfl
  | number a f =>
      obtain ⟨⟨n, rfl⟩, -⟩ := h
      rfl
  | integer a f =>
      obtain ⟨⟨n, rfl⟩, -⟩ := h
      rfl
  | boolean a =>
      obtain ⟨b, rfl⟩ := h
      rfl
  | array a f items ih =>
      obtain ⟨xs, rfl, -, hitems⟩ := h
      rw [clean_array_of_items rfl]
      refine (convert_items_eq_ok rfl).mpr ⟨_, rfl, List.forall₂_same.mpr ?_⟩
      rw [List.forall_mem_map]
      exact fun x hx => ih hnamed.2 (Value.wellFormed_list.mp hv x hx) (hitems x hx)
  | object a f ps ih =>
      obtain ⟨entries, rfl, hconforms, -⟩ := h
      obtain ⟨hdiffer, hvalues⟩ := Value.wellFormed_dict.mp hv
      rw [clean_dict]
      refine convert_dict_eq_ok.mpr ⟨_, rfl, List.forall₂_same.mpr fun e' he' => ⟨rfl, ?_⟩⟩
      obtain ⟨e, he, hentry⟩ := List.mem_filterMap.mp he'
      rw [convertProperty_eq, (of_cleanedEntry hentry).1]
      cases hfound : property? e.1 ps with
      | none => rfl
      | some s =>
          -- the item of a declared key is a cleaned one
          rw [cleanedEntry, hfound] at hentry
          obtain rfl := Option.some.inj hentry
          have hmem := mem_of_property? hnamed.names hfound
          exact ih _ hmem (hnamed.property hmem) (hvalues e he)
            (conforms_of_property? hnamed.names hdiffer hconforms he hfound)
  | nullable a inner ih =>
      rw [clean_nullable]
      rcases h with rfl | h
      · rw [clean_null, convert_null]
      · by_cases hnull : inner.clean v = .null
        · rw [hnull, convert_null]
        · rw [convert_nullable hnull]
          exact ih hnamed.2 hv h
  | refined a r base ih => exact ih hnamed.2 hv h
  | bare a => exact absurd h id
  | foreign u => exact absurd h id

/-! ### The check -/

theorem satisfies_number_of_describes {f : NumberFields} {v : Value} (h : v.IsInteger ∧ f.Describes v) :
    v.IsInteger ∧ f.Admits v := by
  obtain ⟨⟨n, rfl⟩, hdescribes⟩ := h
  exact ⟨⟨n, rfl⟩, admits_of_describes hdescribes⟩

/-- As many items as before meet the bounds, and whether the items have to differ is left to see. -/
theorem admits_map_iff {f : ArrayFields} {xs : List Value} (h : f.Describes xs) {g : Value → Value}
    (hexact : f.uniqueItems = true → ∀ x ∈ xs.map g, x.IsExactJson) :
    f.Admits (xs.map g) ↔
      (f.uniqueItems = true → (xs.map g).Pairwise fun x y => x.jsonEqual y = false) := by
  constructor
  · intro hadmits hunique
    exact ((describes_items_iff_admits (hexact hunique)).mpr hadmits).uniqueItems hunique
  · intro hdiffer
    have hlength : (xs.map g).length = xs.length := List.length_map g
    refine ⟨?_, ?_, fun hunique => ?_⟩
    · rw [hlength]
      exact h.minItems
    · rw [hlength]
      exact h.maxItems
    · exact (Validator.nodup_uniqueKeys_iff (hexact hunique)).mpr (hdiffer hunique)

/-- What cleaning leaves of a conforming body satisfies the schema exactly if the items that have to differ
still do. -/
theorem satisfies_clean_iff {s : Schema} (hnamed : s.Named) (hs : s.Everywhere Plain) {v : Value}
    (h : s.Conforms v) (hexact : s.UniqueArrays (fun xs => ∀ x ∈ xs, x.IsExactJson) v) :
    s.Satisfies (s.clean v) ↔
      s.UniqueArrays (fun xs => xs.Pairwise fun x y => x.jsonEqual y = false) v := by
  induction s using Schema.induction generalizing v with
  | string a f => exact iff_of_true h trivial
  | number a f =>
      obtain ⟨hinteger, hadmits⟩ := satisfies_number_of_describes h
      exact iff_of_true ⟨.inl hinteger, hadmits⟩ trivial
  | integer a f => exact iff_of_true (satisfies_number_of_describes h) trivial
  | boolean a => exact iff_of_true h trivial
  | array a f items ih =>
      obtain ⟨xs, rfl, hdescribes, hitems⟩ := h
      obtain ⟨hexact, hrest⟩ := uniqueArrays_list.mp hexact
      rw [clean_array_of_items rfl, uniqueArrays_list, ← admits_map_iff hdescribes hexact]
      have hsat : (∀ x ∈ xs.map items.clean, items.Satisfies x) ↔
          ∀ x ∈ xs, items.UniqueArrays (fun xs => xs.Pairwise fun x y => x.jsonEqual y = false) x := by
        rw [List.forall_mem_map]
        exact forall₂_congr fun x hx => ih hnamed.2 hs.2 (hitems x hx) (hrest x hx)
      rw [← hsat]
      constructor
      · rintro ⟨_, ⟨⟩, hadmits, hall⟩
        exact ⟨hadmits, hall⟩
      · rintro ⟨hadmits, hall⟩
        exact ⟨_, rfl, hadmits, hall⟩
  | object a f ps ih =>
      obtain ⟨entries, rfl, hconforms, hrequired⟩ := h
      have hplain := (everywhere_object.mp hs).2
      rw [conformsProperties_iff] at hconforms
      rw [uniqueArrays_dict] at hexact ⊢
      rw [clean_dict]
      have hproperties : SatisfiesProperties ps (entries.filterMap (cleanedEntry f ps)) ↔
          ∀ p ∈ ps, ∀ w, Value.lookup? p.1 entries = some w →
            p.2.UniqueArrays (fun xs => xs.Pairwise fun x y => x.jsonEqual y = false) w := by
        rw [satisfiesProperties_iff]
        refine forall₂_congr fun p hp => ?_
        rw [lookup?_cleanedEntries hnamed.names hp]
        simp only [Option.map_eq_some_iff, forall_exists_index, and_imp, forall_apply_eq_imp_iff₂]
        exact forall₂_congr fun w hw =>
          ih p hp (hnamed.property hp) (hplain p hp) (hconforms p hp w hw) (hexact p hp w hw)
      have hkeys : ∀ key ∈ requiredKeys f ps,
          Value.hasKey key (entries.filterMap (cleanedEntry f ps)) = true := by
        intro key hkey
        obtain ⟨p, hp, rfl⟩ := List.mem_map.mp (requiredKeys_subset f ps hkey)
        rw [← Value.lookup?_isSome, lookup?_cleanedEntries hnamed.names hp, Option.isSome_map,
          Value.lookup?_isSome]
        exact hrequired _ hkey
      constructor
      · rintro ⟨_, ⟨⟩, -, hsat, -⟩
        exact hproperties.mp hsat
      · intro hunique
        refine ⟨_, rfl, hkeys, hproperties.mpr hunique, fun hclosed e' he' => ?_⟩
        obtain ⟨e, -, hentry⟩ := List.mem_filterMap.mp he'
        exact declared_of_cleanedEntry hentry hclosed
  | nullable a inner ih =>
      rw [clean_nullable]
      by_cases hnull : v = .null
      · rw [hnull, clean_null]
        exact iff_of_true (.inl rfl) (uniqueArrays_null inner)
      · have hclean : inner.clean v ≠ .null := fun hclean => hnull (eq_of_clean hclean rfl (by simp))
        exact (or_iff_right hclean).trans (ih hnamed.2 hs.2 (h.resolve_left hnull) hexact)
  | refined a r base ih => exact absurd rfl (hs.here.unrefined a r base)
  | bare a => exact absurd h id
  | foreign u => exact absurd h id

end Schema

namespace Pipeline

open Schema

/-- **A valid body is accepted.** A body without fractions that is valid against the document of a plain schema
is accepted, as cleaning leaves it, exactly if no two items of an array with different items become equal by
cleaning. What is left of such items has to consist of integers with a decimal text. -/
theorem apply_json_iff_of_valid {s : Schema} {p : Pipeline} (hp : ofSchema s = .ok p)
    (honce : s.Everywhere DeclaresOnce) (hs : s.Everywhere Plain) {doc : Doc} (hdoc : s.inlined = .ok doc)
    {v : Value} (hv : v.IsFloatFree) (hvalid : JsonSchema.valid doc.toValue v = true)
    (hexact : s.UniqueArrays (fun xs => ∀ x ∈ xs, x.IsExactJson) v) (data : Value) :
    p.apply .json v = .ok (.success data) ↔
      data = s.clean v ∧ s.UniqueArrays (fun xs => xs.Pairwise fun x y => x.jsonEqual y = false) v := by
  obtain ⟨rfl, hcompile⟩ := ofSchema_eq_ok hp
  have hnamed := named_of_compileAt hcompile honce
  have hconforms := (saidBy_of_inlined hcompile hs hdoc v hv).mp hvalid
  -- nothing is filled in, and nothing is converted
  have hclean : (p.schema.clean v).IsJson := isJson_clean hv.isJson
  have hfill : nullIfAbsent (p.schema.applyDefaults (p.schema.clean v)) = p.schema.clean v := by
    rw [applyDefaults_of_isAbsent_eq_false _ hclean.isAbsent, fill_of_plain hnamed hs hclean, nullIfAbsent,
      hclean.isAbsent]
    rfl
  have hconvert : p.schema.convertFor (some .json) (p.schema.clean v) = .ok (p.schema.clean v) :=
    convert_clean_of_conforms hnamed hv.wellFormed hconforms
  have hsat : (p.validator.trace (p.schema.clean v)).isClean = true ↔ _ :=
    (isClean_run_iff hcompile _ "").trans (satisfies_clean_iff hnamed hs hconforms hexact)
  rw [apply_eq_success_iff, ← hsat]
  constructor
  · rintro ⟨cleaned, hcleaned, hconverted, htrace⟩
    obtain rfl : p.schema.clean v = cleaned := Except.ok.inj hcleaned
    rw [hfill, hconvert] at hconverted
    obtain rfl := Except.ok.inj hconverted
    exact ⟨rfl, htrace⟩
  · rintro ⟨rfl, htrace⟩
    exact ⟨_, rfl, by rw [hfill, hconvert], htrace⟩

/-- Different points, each with a mark or none. -/
def outline : Schema :=
  .array {} { uniqueItems := true, maxItems := some (.int 3) }
    (.object {} { required := some [.str "x"] }
      [(.str "x", .integer {} { minimum := some (.int 0) }), (.str "marked", .boolean {})])

theorem plain_outline : outline.Everywhere Plain := by
  refine ⟨?_, everywhere_object.mpr ⟨?_, List.forall_mem_cons.mpr ⟨?_, List.forall_mem_singleton.mpr ?_⟩⟩⟩
  · exact ⟨by simp, rfl, by simp⟩
  · exact ⟨by simp, rfl, by simp⟩
  · refine ⟨by simp, rfl, ?_⟩
    rintro a f (⟨⟨⟩⟩ | ⟨⟨⟩⟩)
    exact ⟨by simp [Value.IsInteger], by simp, by simp, by simp, by simp⟩
  · exact ⟨by simp, rfl, by simp⟩

theorem declaresOnce_outline : outline.Everywhere DeclaresOnce :=
  ⟨trivial, everywhere_object.mpr ⟨by simp [DeclaresOnce, Value.same], by simp [Everywhere, DeclaresOnce]⟩⟩

/-- Two points of an outline, with a note that the outline does not declare. -/
def notedPoints : Value :=
  .list [.record [("x", .int 1), ("note", .str "first")], .record [("x", .int 2)]]

/-- Two points that differ are accepted without the note. -/
theorem apply_outline :
    ∃ p doc, ofSchema outline = .ok p ∧ outline.Everywhere DeclaresOnce ∧ outline.Everywhere Plain ∧
      outline.inlined = .ok doc ∧ notedPoints.IsFloatFree ∧ JsonSchema.valid doc.toValue notedPoints = true ∧
      outline.UniqueArrays (fun xs => ∀ x ∈ xs, x.IsExactJson) notedPoints ∧
      p.apply .json notedPoints =
        .ok (.success (.list [.record [("x", .int 1)], .record [("x", .int 2)]])) := by
  have hfree : notedPoints.IsFloatFree := by
    simp [notedPoints, Value.IsFloatFree, Value.record, Value.FloatFreeForm, Value.Everywhere,
      Value.EverywhereAmong, Value.KeysDiffer, Value.same]
  have hdecimal : ∀ n : Nat, n < 3 → (Value.record [("x", .int n)]).IsExactJson := by
    intro n hn
    refine Value.everywhere_dict.mpr ⟨⟨by simp, by simp [Value.KeysDiffer]⟩, ?_⟩
    simp only [List.map_cons, List.map_nil, List.forall_mem_singleton]
    exact Numeral.withinLimit_of_lt (by omega)
  have hexact : outline.UniqueArrays (fun xs => ∀ x ∈ xs, x.IsExactJson) notedPoints := by
    refine uniqueArrays_list.mpr ⟨fun _ => ?_, ?_⟩
    · refine List.forall_mem_cons.mpr ⟨hdecimal 1 (by decide), List.forall_mem_singleton.mpr ?_⟩
      exact hdecimal 2 (by decide)
    · simp [UniqueArrays, UniqueArraysAmong]
  obtain ⟨p, doc, hp, hdoc, hvalid⟩ : ∃ p doc, ofSchema outline = .ok p ∧ outline.inlined = .ok doc ∧
      JsonSchema.valid doc.toValue notedPoints = true := ⟨_, _, rfl, rfl, by decide +kernel⟩
  refine ⟨p, doc, hp, declaresOnce_outline, plain_outline, hdoc, hfree, hvalid, hexact, ?_⟩
  refine (apply_json_iff_of_valid hp declaresOnce_outline plain_outline hdoc hfree hvalid hexact _).mpr
    ⟨rfl, uniqueArrays_list.mpr ⟨fun _ => ?_, ?_⟩⟩
  · exact List.pairwise_pair.mpr (by decide +kernel)
  · simp [UniqueArrays, UniqueArraysAmong]

/-- Different marks. -/
def marks : Schema := .array {} { uniqueItems := true } (.object {} {} [(.str "marked", .boolean {})])

theorem plain_marks : marks.Everywhere Plain := by
  refine ⟨?_, everywhere_object.mpr ⟨?_, List.forall_mem_singleton.mpr ?_⟩⟩
  · exact ⟨by simp, rfl, by simp⟩
  · exact ⟨by simp, rfl, by simp⟩
  · exact ⟨by simp, rfl, by simp⟩

/-- Two marks that differ in what is not declared. -/
def twins : Value :=
  .list [.record [("marked", .bool true), ("note", .str "first")], .record [("marked", .bool true)]]

/-- A valid body is refused where items that differ become equal by cleaning. -/
theorem not_apply_of_valid :
    ¬ ∀ (s : Schema) (p : Pipeline) (doc : Doc) (v : Value), ofSchema s = .ok p →
      s.Everywhere DeclaresOnce → s.Everywhere Plain → s.inlined = .ok doc → v.IsFloatFree →
      JsonSchema.valid doc.toValue v = true → ∃ data, p.apply .json v = .ok (.success data) := by
  intro hall
  have hfree : twins.IsFloatFree := by
    simp [twins, Value.IsFloatFree, Value.record, Value.FloatFreeForm, Value.Everywhere,
      Value.EverywhereAmong, Value.KeysDiffer, Value.same]
  obtain ⟨data, hdata⟩ := hall marks _ _ twins rfl ⟨trivial, List.pairwise_singleton _ _, trivial, trivial⟩
    plain_marks rfl hfree (by decide +kernel)
  have hrefused : Pipeline.apply ⟨marks, .array ⟨none, none, true⟩
      (.object ⟨["marked"], false⟩ [("marked", .boolean)])⟩ .json twins =
      .ok (.failure [⟨"", "Array must contain unique items"⟩]) := rfl
  have hsame := hrefused.symm.trans hdata
  cases hsame

end Pipeline

end ApiContract
