import ApiContract.Proofs.Cleaning
import ApiContract.Proofs.Conformance

/-!
# Validity against the document of a schema

The document of a schema that is not refined and has no default says all that the schema asks for, save that
it admits undeclared keys everywhere. So for an exact value without undeclared keys, being valid against the
document and being accepted by the validator are the same (`check_iff_valid`).
-/

namespace ApiContract

namespace Schema

open JsonSchema

/-! ### Cleaned values -/

theorem clean_item_of_clean {a : Annotations} {f : ArrayFields} {items : Schema} {xs : List Value}
    (h : (Schema.array a f items).clean (.list xs) = .list xs) : ∀ x ∈ xs, items.clean x = x := by
  have hmap : xs.map items.clean = xs.map id := by
    rw [List.map_id]
    exact Value.list.inj h
  exact List.map_inj_left.mp hmap

theorem cleanedEntry_of_clean {a : Annotations} {f : ObjectFields} {ps : List (Value × Schema)}
    {entries : List (Value × Value)} (h : (Schema.object a f ps).clean (.dict entries) = .dict entries) :
    ∀ e ∈ entries, cleanedEntry f ps e = some e := by
  rw [clean_dict] at h
  exact eq_some_of_filterMap_eq_self (Value.dict.inj h)

/-- In a cleaned dictionary the value of a declared key is cleaned. -/
theorem clean_property_of_clean {a : Annotations} {f : ObjectFields} {ps : List (Value × Schema)}
    {entries : List (Value × Value)} (h : (Schema.object a f ps).clean (.dict entries) = .dict entries)
    (hnames : Names ps) {p : Value × Schema} (hp : p ∈ ps) {v : Value}
    (hv : Value.lookup? p.1 entries = some v) : p.2.clean v = v := by
  obtain ⟨name, hname⟩ := hnames.texts p hp
  have hentry := cleanedEntry_of_clean h (p.1, v) (by
    rw [hname] at hv ⊢
    exact Value.mem_of_lookup?_str hv)
  rw [cleanedEntry, property?_of_mem hnames hp] at hentry
  exact (Prod.mk.inj (Option.some.inj hentry)).2

/-- A cleaned dictionary of a closed object has declared keys alone. -/
theorem declared_of_clean {a : Annotations} {f : ObjectFields} {ps : List (Value × Schema)}
    {entries : List (Value × Value)} (h : (Schema.object a f ps).clean (.dict entries) = .dict entries)
    (hclosed : f.additional = false) : ∀ e ∈ entries, ∃ p ∈ ps, e.1.same p.1 = true := by
  intro e he
  exact declared_of_cleanedEntry (cleanedEntry_of_clean h e he) hclosed

/-! ### Schemas whose documents say all -/

/-- A node of which the document says all that it asks for: it is not refined, declares no default, its
examples are JSON, and the numbers that it compares with are integers. -/
structure Expressible (s : Schema) : Prop where
  unrefined : ∀ a r base, s ≠ .refined a r base
  default : s.default? = none
  examples : ∀ a, s.annotations? = some a → ∀ vs, a.examples = some vs →
    Json.isSerializable (.list vs) = true
  numbers : ∀ a f, s = .number a f ∨ s = .integer a f → f.IsExact

theorem Expressible.plain {s : Schema} (h : s.Expressible) : s.Plain :=
  ⟨h.unrefined, h.default, fun a f hf => (h.numbers a f hf).hasExactBounds⟩

/-- An exact value that is clean is valid against a document exactly if it satisfies the schema. -/
def DocumentedBy (s : Schema) (doc : Doc) : Prop :=
  ∀ v : Value, v.IsExactJson → s.clean v = v → (valid doc.toValue v = true ↔ s.Satisfies v)

/-- Among exact values every number is an integer. -/
theorem isFiniteNumber_iff_of_isExactJson {v : Value} (hv : v.IsExactJson) :
    v.IsFiniteNumber ↔ v.IsInteger := by
  constructor
  · rintro (hinteger | ⟨x, rfl, -⟩)
    · exact hinteger
    · exact absurd hv.here id
  · exact .inl

theorem conforms_number_iff {f : NumberFields} (hf : f.IsExact) (v : Value) :
    v.IsInteger ∧ f.Describes v ↔ v.IsInteger ∧ f.Admits v := by
  refine and_congr_right ?_
  rintro ⟨n, rfl⟩
  exact describes_iff_admits hf

/-- An exact value that is clean conforms to a schema whose documents say all exactly if it satisfies the
schema. -/
theorem conforms_iff_satisfies {s : Schema} (hnamed : s.Named) (hs : s.Everywhere Expressible) {v : Value}
    (hv : v.IsExactJson) (hclean : s.clean v = v) : s.Conforms v ↔ s.Satisfies v := by
  induction s using Schema.induction generalizing v with
  | string a f => exact Iff.rfl
  | number a f =>
      -- the document says "number", and an exact number is an integer
      exact (conforms_number_iff (hs.here.numbers a f (.inl rfl)) v).trans
        (and_congr_left fun _ => (isFiniteNumber_iff_of_isExactJson hv).symm)
  | integer a f => exact conforms_number_iff (hs.here.numbers a f (.inr rfl)) v
  | boolean a => exact Iff.rfl
  | array a f items ih =>
      rw [Conforms, Satisfies]
      cases v with
      | list xs =>
          have hxs := Value.isExactJson_list.mp hv
          have hitems : (∀ x ∈ xs, items.Conforms x) ↔ ∀ x ∈ xs, items.Satisfies x :=
            forall₂_congr fun x hx => ih hnamed.2 hs.2 (hxs x hx) (clean_item_of_clean hclean x hx)
          constructor
          · rintro ⟨_, ⟨⟩, hdescribes, hconforms⟩
            exact ⟨xs, rfl, (describes_items_iff_admits hxs).mp hdescribes, hitems.mp hconforms⟩
          · rintro ⟨_, ⟨⟩, hadmits, hsat⟩
            exact ⟨xs, rfl, (describes_items_iff_admits hxs).mpr hadmits, hitems.mpr hsat⟩
      | tuple xs => exact absurd hv.here id
      | _ => simp [Value.items?]
  | object a f ps ih =>
      rw [Conforms, Satisfies]
      cases v with
      | dict entries =>
          have hproperties : ConformsProperties ps entries ↔ SatisfiesProperties ps entries := by
            rw [conformsProperties_iff, satisfiesProperties_iff]
            refine forall₂_congr fun p hp => forall₂_congr fun w hw => ?_
            -- the item of a declared key is exact and clean itself
            obtain ⟨name, hname⟩ := hnamed.names.texts p hp
            have hmem : (.str name, w) ∈ entries := Value.mem_of_lookup?_str (hname ▸ hw)
            exact ih p hp (hnamed.property hp) ((everywhere_object.mp hs).2 p hp) (hv.members _ hmem)
              (clean_property_of_clean hclean hnamed.names hp hw)
          constructor
          · rintro ⟨_, ⟨⟩, hconforms, hrequired⟩
            exact ⟨entries, rfl, hrequired, hproperties.mp hconforms, declared_of_clean hclean⟩
          · rintro ⟨_, ⟨⟩, hrequired, hsat, -⟩
            exact ⟨entries, rfl, hproperties.mpr hsat, hrequired⟩
      | _ => simp
  | nullable a inner ih =>
      rw [clean_nullable] at hclean
      exact or_congr_right (ih hnamed.2 hs.2 hv hclean)
  | refined a r base ih => exact absurd rfl (hs.here.unrefined a r base)
  | bare a => exact Iff.rfl
  | foreign u => exact Iff.rfl

theorem exists_document {s : Schema} {path : String} {validator : Validator}
    (h : s.compileAt path = .ok validator) (hnamed : s.Named) (hs : s.Everywhere Expressible) :
    ∃ doc, Builds (s.inlineDoc false) doc ∧ s.DocumentedBy doc := by
  obtain ⟨doc, hbuilds, hsaid⟩ :=
    exists_said h (hs.imp fun n hn => hn.plain) (hs.imp fun n hn => hn.examples)
  refine ⟨doc, hbuilds, fun v hv hclean => ?_⟩
  rw [hsaid v hv.isFloatFree, conforms_iff_satisfies hnamed hs hv hclean]

/-- **The document and the validator agree.** The document of an expressible schema can be built, and a
clean exact value is valid against it exactly if the validator accepts the value. -/
theorem check_iff_valid {s : Schema} {validator : Validator} (h : s.compile = .ok validator)
    (honce : s.Everywhere DeclaresOnce) (hs : s.Everywhere Expressible) :
    ∃ doc, s.inlined = .ok doc ∧ ∀ v : Value, v.IsExactJson → s.clean v = v →
      (validator.check v = .ok true ↔ valid doc.toValue v = true) := by
  obtain ⟨doc, hbuilds, hdocumented⟩ := exists_document h (named_of_compileAt h honce) hs
  refine ⟨doc, congrArg Prod.fst (hbuilds {}), fun v hv hclean => ?_⟩
  rw [hdocumented v hv hclean, ← isClean_run_iff h v ""]
  exact Trace.take_one_isEmpty_iff _

/-- Different tags, and an even quantity or none. -/
def stock : Schema :=
  .object {} {} [
    (.str "tags", .array {} { uniqueItems := true } (.string {} { maxLength := some (.int 4) })),
    (.str "quantity", .nullable { examples := some [.null] }
      (.integer {} { minimum := some (.int 0), multipleOf := some (.int 2) }))]

theorem expressible_stock : stock.Everywhere Expressible := by
  refine everywhere_object.mpr ⟨?_, List.forall_mem_cons.mpr ⟨⟨?_, ?_⟩, List.forall_mem_singleton.mpr ⟨?_, ?_⟩⟩⟩
  · exact ⟨by simp, rfl, by simp [annotations?], by simp⟩
  · exact ⟨by simp, rfl, by simp [annotations?], by simp⟩
  · exact ⟨by simp, rfl, by simp [annotations?], by simp⟩
  · refine ⟨by simp, rfl, ?_, by simp⟩
    rintro a ⟨⟩ vs ⟨⟩
    decide +kernel
  · refine ⟨by simp, rfl, by simp [annotations?], ?_⟩
    rintro a f (⟨⟨⟩⟩ | ⟨⟨⟩⟩)
    exact ⟨by simp [Value.IsInteger], by simp, by simp, by simp, by simp [Value.IsInteger], by simp⟩

/-- The validator of a stock. -/
def stockValidator : Validator :=
  .object ⟨["tags", "quantity"], false⟩ [
    ("tags", .array ⟨none, none, true⟩ (.string ⟨none, some 4, none, none, none⟩)),
    ("quantity", .nullable (.number ⟨true, some (.int 0), none, none, none, some (.int 2), none⟩))]

/-- Two tags and an even quantity are accepted, so they are valid against the document. -/
theorem valid_stock :
    stock.compile = .ok stockValidator ∧ stock.Everywhere DeclaresOnce ∧ stock.Everywhere Expressible ∧
      (Value.record [("tags", .list [.str "a", .str "b"]), ("quantity", .int 4)]).IsExactJson ∧
      stock.clean (.record [("tags", .list [.str "a", .str "b"]), ("quantity", .int 4)]) =
        .record [("tags", .list [.str "a", .str "b"]), ("quantity", .int 4)] ∧
      ∃ doc, stock.inlined = .ok doc ∧
        valid doc.toValue (.record [("tags", .list [.str "a", .str "b"]), ("quantity", .int 4)]) = true := by
  have honce : stock.Everywhere DeclaresOnce :=
    everywhere_object.mpr ⟨by simp [DeclaresOnce, Value.same], by simp [Everywhere, DeclaresOnce]⟩
  have hexact : (Value.record [("tags", .list [.str "a", .str "b"]), ("quantity", .int 4)]).IsExactJson := by
    refine Value.everywhere_dict.mpr ⟨⟨by simp, by simp [Value.KeysDiffer, Value.same]⟩, ?_⟩
    simp only [List.map_cons, List.map_nil, List.forall_mem_cons, Value.Everywhere, Value.EverywhereIn]
    exact ⟨⟨trivial, trivial, trivial, trivial⟩, Numeral.withinLimit_of_lt (by decide),
      List.forall_mem_nil _⟩
  have hclean : stock.clean (.record [("tags", .list [.str "a", .str "b"]), ("quantity", .int 4)]) =
      .record [("tags", .list [.str "a", .str "b"]), ("quantity", .int 4)] := rfl
  have hcheck : stockValidator.check (.record [("tags", .list [.str "a", .str "b"]), ("quantity", .int 4)]) =
      .ok true := by
    decide +kernel
  obtain ⟨doc, hdoc, hiff⟩ := check_iff_valid rfl honce expressible_stock
  exact ⟨rfl, honce, expressible_stock, hexact, hclean, doc, hdoc, (hiff _ hexact hclean).mp hcheck⟩

end Schema

end ApiContract
