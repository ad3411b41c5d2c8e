import ApiContract.Proofs.Builds
import ApiContract.Proofs.Conversion
import ApiContract.Proofs.NodeDocuments
import ApiContract.Proofs.Parts
import ApiContract.Proofs.ValidValues

/-!
# What the document of a schema asks of a body

A client knows the document of a schema and not the schema. `Schema.Conforms` says by recursion on a schema
what its document asks of a body, undeclared keys being admitted everywhere. For a plain schema, one without
refinements and defaults, the document asks for this and for nothing else (`exists_document`).
-/

namespace ApiContract.Schema

open JsonSchema

/-- A node whose document speaks of all its constraints: it is not refined, declares no default, and its
bounds are integers. -/
structure Plain (s : Schema) : Prop where
  unrefined : ∀ a r base, s ≠ .refined a r base
  default : s.default? = none
  numbers : ∀ a f, s = .number a f ∨ s = .integer a f → f.HasExactBounds

/-- The examples of a node are JSON. -/
def ExamplesSerializable (s : Schema) : Prop :=
  ∀ a, s.annotations? = some a → ∀ vs, a.examples = some vs → Json.isSerializable (.list vs) = true

mutual
/-- What the document of a plain schema asks of a body without fractions. -/
def Conforms : Schema → Value → Prop
  | .string _ f, v => ∃ s, v = .str s ∧ f.Admits s
  | .number _ f, v => v.IsInteger ∧ f.Describes v
  | .integer _ f, v => v.IsInteger ∧ f.Describes v
  | .boolean _, v => ∃ b, v = .bool b
  | .array _ f items, v => ∃ xs, v = .list xs ∧ f.Describes xs ∧ ∀ x ∈ xs, items.Conforms x
  | .object _ f ps, v => ∃ entries, v = .dict entries ∧ ConformsProperties ps entries ∧
      ∀ key ∈ requiredKeys f ps, Value.hasKey key entries = true
  | .nullable _ inner, v => v = .null ∨ inner.Conforms v
  | .refined _ _ base, v => base.Conforms v
  | .bare _, _ => False
  | .foreign _, _ => False
termination_by structural s => s

/-- Each declared key that is present has a value as its document asks for. -/
def ConformsProperties : List (Value × Schema) → List (Value × Value) → Prop
  | [], _ => True
  | (key, s) :: rest, entries =>
    (∀ v, Value.lookup? key entries = some v → s.Conforms v) ∧ ConformsProperties rest entries
termination_by structural ps => ps
end

theorem conformsProperties_iff {ps : List (Value × Schema)} {entries : List (Value × Value)} :
    ConformsProperties ps entries ↔
      ∀ p ∈ ps, ∀ v, Value.lookup? p.1 entries = some v → p.2.Conforms v := by
  induction ps with
  | nil => simp [ConformsProperties]
  | cons p ps ih =>
      obtain ⟨key, s⟩ := p
      simp [ConformsProperties, ih]

/-! ### Schemas without defaults -/

theorem defaults_of_plain {s : Schema} (h : s.Everywhere Plain) : s.defaults = [] :=
  List.filterMap_eq_nil_iff.mpr fun n hn => (everywhere_iff_nodes.mp h n hn).default

theorem declaredDefault_eq_none {s : Schema} (h : s.Everywhere Plain) : s.declaredDefault = none :=
  declaredDefault_of_no_defaults (defaults_of_plain h)

/-- Without defaults every required key is documented as required. -/
theorem documentedRequired_eq {f : ObjectFields} {ps : List (Value × Schema)}
    (h : ∀ p ∈ ps, p.2.Everywhere Plain) : documentedRequired f ps = requiredKeys f ps := by
  rw [documentedRequired, List.filter_eq_self]
  intro key _
  cases hfound : property? key ps with
  | none => rfl
  | some s =>
      obtain ⟨p, hp, rfl⟩ := exists_of_property? hfound
      rw [Option.any_some, hasDefault_eq, declaredDefault_eq_none (h p hp)]
      rfl

theorem Plain.exists_annotate {s : Schema} (h : s.Plain) (hexamples : s.ExamplesSerializable)
    {a : Annotations} (ha : s.annotations? = some a) (doc : Doc) :
    ∃ annotated, annotate a doc = .ok annotated ∧
      ∀ {v : Value} {keywords : List String} {P : Prop}, (∀ declared, doc.Means declared v keywords P) →
        "description" ∉ keywords → "examples" ∉ "description" :: keywords →
          (valid annotated.toValue v = true ↔ P) := by
  have hdefault := h.default
  rw [default?, ha] at hdefault
  exact Schema.exists_annotate hdefault (hexamples a ha) doc

/-! ### Building the document -/

theorem exists_propertyDocs {ps : List (Value × Schema)} {R : Schema → Doc → Prop}
    (h : ∀ p ∈ ps, ∃ doc, Builds (p.2.inlineDoc false) doc ∧ R p.2 doc) :
    ∃ docs, Builds (propertyDocs false ps) docs ∧
      List.Forall₂ (fun p d => d.1 = p.1 ∧ R p.2 d.2) ps docs := by
  induction ps with
  | nil => exact ⟨[], builds_pure _, .nil⟩
  | cons p ps ih =>
      obtain ⟨⟨doc, hdoc, hR⟩, hrest⟩ := List.forall_mem_cons.mp h
      obtain ⟨docs, hdocs, hall⟩ := ih hrest
      obtain ⟨key, s⟩ := p
      exact ⟨(key, doc) :: docs, hdoc.bind (hdocs.bind (builds_pure _)), .cons ⟨rfl, hR⟩ hall⟩

/-- A document says what a body without fractions has to be like. -/
def SaidBy (s : Schema) (doc : Doc) : Prop :=
  ∀ v : Value, v.IsFloatFree → (valid doc.toValue v = true ↔ s.Conforms v)

theorem said_array {a : Annotations} {f : ArrayFields} {items : Schema} {doc : Doc}
    (hdoc : items.SaidBy doc) {v : Value} (hv : v.IsFloatFree) :
    (∃ xs, v = .list xs ∧ f.Describes xs ∧ ∀ x ∈ xs, valid doc.toValue x = true) ↔
      (Schema.array a f items).Conforms v := by
  rw [Conforms]
  refine exists_congr fun xs => and_congr_right fun hxs => and_congr_right fun _ => ?_
  exact forall₂_congr fun x hx => hdoc x (Value.Everywhere.items (hxs ▸ hv) rfl x hx)

theorem said_object {a : Annotations} {f : ObjectFields} {ps : List (Value × Schema)}
    {docs : List (Value × Doc)} (htexts : ∀ p ∈ ps, ∃ name, p.1 = .str name)
    (hdocs : List.Forall₂ (fun p d => d.1 = p.1 ∧ p.2.SaidBy d.2) ps docs) {v : Value}
    (hv : v.IsFloatFree) :
    (∃ entries, v = .dict entries ∧
      (∀ d ∈ docs, ∀ w, Value.lookup? d.1 entries = some w → valid d.2.toValue w = true) ∧
        ∀ key ∈ requiredKeys f ps, Value.hasKey key entries = true) ↔
      (Schema.object a f ps).Conforms v := by
  rw [Conforms]
  refine exists_congr fun entries => and_congr_right fun hentries => and_congr_left fun _ => ?_
  rw [conformsProperties_iff]
  -- what is found under a declared key is a value of the body
  have hiff {p : Value × Schema} (hp : p ∈ ps) {d : Value × Doc} (hdoc : p.2.SaidBy d.2) {w : Value}
      (hw : Value.lookup? p.1 entries = some w) : valid d.2.toValue w = true ↔ p.2.Conforms w := by
    obtain ⟨name, hname⟩ := htexts p hp
    rw [hentries] at hv
    exact hdoc w ((Value.everywhere_dict.mp hv).2 _ (Value.mem_of_lookup?_str (hname ▸ hw)))
  constructor
  · intro hvalid p hp w hw
    obtain ⟨d, hd, hkey, hdoc⟩ := exists_right_of_forall₂ hdocs hp
    exact (hiff hp hdoc hw).mp (hvalid d hd w (hkey ▸ hw))
  · intro hconforms d hd w hw
    obtain ⟨p, hp, hkey, hdoc⟩ := exists_left_of_forall₂ hdocs hd
    rw [hkey] at hw
    exact (hiff hp hdoc hw).mpr (hconforms p hp w hw)

/-- The document of a plain schema with proper examples can be built, and it asks for what conforms. -/
theorem exists_said {s : Schema} {path : String} {validator : Validator}
    (h : s.compileAt path = .ok validator) (hs : s.Everywhere Plain)
    (hexamples : s.Everywhere ExamplesSerializable) :
    ∃ doc, Builds (s.inlineDoc false) doc ∧ s.SaidBy doc := by
  -- the document of a node is made of those of its parts; annotations add nothing that is asked for
  induction s using Schema.induction generalizing path validator with
  | string a f =>
      obtain ⟨rule, hrule, -⟩ := compileAt_string h
      obtain ⟨doc, hdoc, hvalid⟩ := hs.here.exists_annotate hexamples.here rfl (stringDoc f)
      refine ⟨doc, builds_lift hdoc, fun v hv => ?_⟩
      exact hvalid (fun declared => means_stringDoc hrule declared v) (by decide) (by decide)
  | number a f =>
      have hexact := hs.here.numbers a f (.inl rfl)
      have hstep := isGreater_zero_of_compileAt h (.inl rfl)
      obtain ⟨doc, hdoc, hvalid⟩ := hs.here.exists_annotate hexamples.here rfl (numberDoc "number" f)
      refine ⟨doc, builds_lift hdoc, fun v hv => ?_⟩
      exact hvalid (fun declared => means_numberDoc hexact hstep (.inl rfl) declared hv.ne_float)
        (by decide) (by decide)
  | integer a f =>
      have hexact := hs.here.numbers a f (.inr rfl)
      have hstep := isGreater_zero_of_compileAt h (.inr rfl)
      obtain ⟨doc, hdoc, hvalid⟩ := hs.here.exists_annotate hexamples.here rfl (numberDoc "integer" f)
      refine ⟨doc, builds_lift hdoc, fun v hv => ?_⟩
      exact hvalid (fun declared => means_numberDoc hexact hstep (.inr rfl) declared hv.ne_float)
        (by decide) (by decide)
  | boolean a =>
      obtain ⟨doc, hdoc, hvalid⟩ := hs.here.exists_annotate hexamples.here rfl (typeDoc "boolean")
      refine ⟨doc, builds_lift hdoc, fun v hv => ?_⟩
      exact hvalid (fun declared => means_booleanDoc declared v) (by decide) (by decide)
  | array a f items ih =>
      obtain ⟨rule, child, -, hchild, -⟩ := compileAt_array h
      obtain ⟨itemDoc, hitemDoc, hitem⟩ := ih hchild hs.2 hexamples.2
      obtain ⟨doc, hdoc, hvalid⟩ := hs.here.exists_annotate hexamples.here rfl (arrayDoc f itemDoc)
      refine ⟨doc, hitemDoc.bind (builds_lift hdoc), fun v hv => ?_⟩
      rw [hvalid (fun declared => means_arrayDoc f itemDoc declared v) (by decide) (by decide)]
      exact said_array hitem hv
  | object a f ps ih =>
      obtain ⟨children, hchildren, -⟩ := compileAt_object h
      have hproperties := (everywhere_object.mp hs).2
      have hchild : ∀ p ∈ ps, ∃ doc, Builds (p.2.inlineDoc false) doc ∧ p.2.SaidBy doc := by
        intro p hp
        obtain ⟨c, -, -, hcompiled⟩ := exists_right_of_forall₂ hchildren hp
        exact ih p hp hcompiled (hproperties p hp) ((everywhere_object.mp hexamples).2 p hp)
      have htexts := texts_of_compileAt h
      obtain ⟨docs, hdocs, hall⟩ := exists_propertyDocs hchild
      obtain ⟨doc, hdoc, hvalid⟩ := hs.here.exists_annotate hexamples.here rfl (objectDoc f ps docs)
      refine ⟨doc, hdocs.bind (builds_lift hdoc), fun v hv => ?_⟩
      rw [hvalid (fun declared => means_objectDoc f ps docs declared v) (by decide) (by decide),
        documentedRequired_eq hproperties]
      exact said_object htexts hall hv
  | nullable a inner ih =>
      obtain ⟨child, hchild, -⟩ := compileAt_nullable h
      obtain ⟨innerDoc, hinnerDoc, hinner⟩ := ih hchild hs.2 hexamples.2
      obtain ⟨doc, hdoc, hvalid⟩ := hs.here.exists_annotate hexamples.here rfl
        (.record [("anyOf", .array [innerDoc, typeDoc "null"])])
      refine ⟨doc, hinnerDoc.bind (builds_lift hdoc), fun v hv => ?_⟩
      rw [hvalid (fun declared => means_nullableDoc innerDoc declared v) (by decide) (by decide)]
      exact or_congr_right (hinner v hv)
  | refined a r base ih => exact absurd rfl (hs.here.unrefined a r base)
  | bare a => exact absurd h compileAt_bare_ne
  | foreign u => exact absurd h compileAt_foreign_ne

/-! ### Documents that can be built -/

theorem exists_build_of_propertyDocs {ps : List (Value × Schema)} {c c' : Collector}
    {docs : List (Value × Doc)} (h : (propertyDocs false ps).run c = (.ok docs, c')) :
    ∀ p ∈ ps, ∃ c₁ c₂ doc, (p.2.inlineDoc false).run c₁ = (.ok doc, c₂) := by
  induction ps generalizing c c' docs with
  | nil => simp
  | cons p ps ih =>
      obtain ⟨key, s⟩ := p
      obtain ⟨doc, c₁, hdoc, h⟩ := build_bind_eq_ok h
      obtain ⟨rest, c₂, hrest, -⟩ := build_bind_eq_ok h
      exact List.forall_mem_cons.mpr ⟨⟨c, c₁, doc, hdoc⟩, ih hrest⟩

/-- A document can be built only where all examples are JSON. -/
theorem examples_of_build {s : Schema} {c c' : Collector} {doc : Doc}
    (h : (s.inlineDoc false).run c = (.ok doc, c')) : s.Everywhere ExamplesSerializable := by
  -- every node is annotated, and a failure of any part is one of the whole
  have hhere {s : Schema} {a : Annotations} (ha : s.annotations? = some a) {inner annotated : Doc}
      {c c' : Collector}
      (h : ((annotate a inner : Except Fault Doc) : Build Doc).run c = (.ok annotated, c')) :
      s.ExamplesSerializable := by
    intro a' ha' vs hvs
    obtain rfl := Option.some.inj (ha.symm.trans ha')
    exact (annotate_eq_ok.mp (build_lift_eq_ok h).1).1.examples vs hvs
  induction s using Schema.induction generalizing c c' doc with
  | string a f => exact hhere rfl h
  | number a f => exact hhere rfl h
  | integer a f => exact hhere rfl h
  | boolean a => exact hhere rfl h
  | array a f items ih =>
      obtain ⟨itemDoc, c₁, hitem, h⟩ := build_bind_eq_ok h
      exact ⟨hhere rfl h, ih hitem⟩
  | object a f ps ih =>
      obtain ⟨docs, c₁, hdocs, h⟩ := build_bind_eq_ok h
      refine everywhere_object.mpr ⟨hhere rfl h, fun p hp => ?_⟩
      obtain ⟨c₂, c₃, propertyDoc, hproperty⟩ := exists_build_of_propertyDocs hdocs p hp
      exact ih p hp hproperty
  | nullable a inner ih =>
      obtain ⟨innerDoc, c₁, hinner, h⟩ := build_bind_eq_ok h
      exact ⟨hhere rfl h, ih hinner⟩
  | refined a r base ih =>
      obtain ⟨baseDoc, c₁, hbase, h⟩ := build_bind_eq_ok h
      exact ⟨hhere rfl h, ih hbase⟩
  | bare a =>
      obtain ⟨h, -⟩ := Prod.mk.inj h
      cases h
  | foreign u =>
      obtain ⟨h, -⟩ := Prod.mk.inj h
      cases h

/-- The document of a plain schema, where it can be built, asks for what conforms. -/
theorem saidBy_of_inlined {s : Schema} {validator : Validator} (h : s.compile = .ok validator)
    (hs : s.Everywhere Plain) {doc : Doc} (hdoc : s.inlined = .ok doc) : s.SaidBy doc := by
  have hbuild : (s.inlineDoc false).run {} = (.ok doc, ((s.inlineDoc false).run {}).2) :=
    Prod.ext hdoc rfl
  obtain ⟨doc', hbuilds, hsaid⟩ := exists_said h hs (examples_of_build hbuild)
  have hsame := hbuild.symm.trans (hbuilds {})
  rw [Except.ok.inj (Prod.mk.inj hsame).1]
  exact hsaid

end ApiContract.Schema
