import ApiContract.Proofs.Conformance
import ApiContract.Proofs.DefinitionMembers
import ApiContract.Proofs.RelaxedRequirements
import ApiContract.Proofs.SerializableValues

/-!
# Documents loaded as definitions

The document of a schema is a definition, and the schema that it defines is the first one with its requirements
relaxed (`Schema.exists_loadsFrom`). So a pipeline made from a document that is loaded gives the same results as
one made from the schema that the document was made from (`Schema.apply_loaded`).
-/

namespace ApiContract.Schema

open Definition

/-- A node whose document says all about it: it is of a kind that a definition has, it is not shared under a
name, its numbers are numbers, it does not enumerate nothing, and its default and examples are JSON. -/
structure Loadable (s : Schema) : Prop where
  not_nullable : ∀ a inner, s ≠ .nullable a inner
  not_refined : ∀ a r base, s ≠ .refined a r base
  unnamed : s.name? = none
  serializable : ∀ a, s.annotations? = some a → a.Serializable
  texts : ∀ a f, s = .string a f → f.enum ≠ some []
  numbers : ∀ a f, s = .number a f ∨ s = .integer a f → f.AreNumbers ∧ f.enum ≠ some []

/-- A document is a definition, and the schema that it defines is the given one with its requirements relaxed. -/
structure LoadsFrom (s : Schema) (doc : Doc) : Prop where
  grammatical : Grammatical doc.toValue
  build : ∀ path, build path doc.toValue = .ok s.relaxed

variable {s : Schema} {a : Annotations}

theorem Loadable.nameless (h : s.Loadable) (ha : s.annotations? = some a) : a.name = none := by
  have hname := h.unnamed
  rw [name?, ha] at hname
  exact hname

/-- The document with the members of a node loads as the node, if the fields that a schema of its type gets from
a definition with these members are the fields of the node. -/
theorem loadsFrom_ofMembers (hs : s.Loadable) (ha : s.annotations? = some a) {ms : List (String × Option Doc)}
    (hms : Apart ms) {kind : String} (htype : ms.lookup "type" = some (some (.text kind)))
    (hfits : ∀ m ∈ ms, Fits m) (node : Annotations → Schema)
    (hbuild : ∀ path, text? (entriesOf (ms ++ annotationMembers a)) "type" = some kind →
      Definition.build path (.dict (entriesOf (ms ++ annotationMembers a))) =
        .ok (wrap (entriesOf (ms ++ annotationMembers a)) node))
    (hnode : node a = s.relaxed) : s.LoadsFrom (Doc.ofMembers (ms ++ annotationMembers a)) := by
  refine ⟨grammatical_ofMembers hms htype hfits, fun path => ?_⟩
  have hkind : text? (entriesOf (ms ++ annotationMembers a)) "type" = some kind := by
    rw [text?, get?_entriesOf hms.nodup, List.lookup_append, htype]
    rfl
  rw [Doc.toValue_ofMembers, ← hnode, ← wrap_entriesOf hms (hs.nameless ha) (hs.serializable a ha) node]
  exact hbuild path hkind

theorem loadsFrom_string {f : StringFields} {rule : StringRule} (h : StringCompiled f rule)
    (hs : (Schema.string a f).Loadable) : (Schema.string a f).LoadsFrom (annotated a (stringDoc f)) := by
  refine loadsFrom_ofMembers hs rfl (apart_stringMembers f) rfl (fits_stringMembers h (hs.texts a f rfl))
    (fun a' => .string a' (stringFields (entriesOf (stringMembers f ++ annotationMembers a))))
    (fun path htype => ?_) ?_
  · rw [build_dict, htype]
    rfl
  · rw [stringFields_entriesOf h]
    rfl

theorem loadsFrom_number {f : NumberFields} {path : String} {validator : Validator}
    (h : (Schema.number a f).compileAt path = .ok validator) (hs : (Schema.number a f).Loadable) :
    (Schema.number a f).LoadsFrom (annotated a (numberDoc "number" f)) := by
  obtain ⟨hnumbers, henum⟩ := hs.numbers a f (.inl rfl)
  have hfits := fits_numberMembers (by decide : "number" ∈ kinds) hnumbers
    (isGreater_zero_of_compileAt h (.inl rfl)) henum
  refine loadsFrom_ofMembers hs rfl (apart_numberMembers "number" f) rfl hfits
    (fun a' => .number a' (numberFields (entriesOf (numberMembers "number" f ++ annotationMembers a))))
    (fun path htype => ?_) ?_
  · rw [build_dict, htype]
    rfl
  · rw [numberFields_entriesOf "number" hnumbers]
    rfl

theorem loadsFrom_integer {f : NumberFields} {path : String} {validator : Validator}
    (h : (Schema.integer a f).compileAt path = .ok validator) (hs : (Schema.integer a f).Loadable) :
    (Schema.integer a f).LoadsFrom (annotated a (numberDoc "integer" f)) := by
  obtain ⟨hnumbers, henum⟩ := hs.numbers a f (.inr rfl)
  have hfits := fits_numberMembers (by decide : "integer" ∈ kinds) hnumbers
    (isGreater_zero_of_compileAt h (.inr rfl)) henum
  refine loadsFrom_ofMembers hs rfl (apart_numberMembers "integer" f) rfl hfits
    (fun a' => .integer a' (numberFields (entriesOf (numberMembers "integer" f ++ annotationMembers a))))
    (fun path htype => ?_) ?_
  · rw [build_dict, htype]
    rfl
  · rw [numberFields_entriesOf "integer" hnumbers]
    rfl

theorem loadsFrom_boolean (hs : (Schema.boolean a).Loadable) :
    (Schema.boolean a).LoadsFrom (annotated a (typeDoc "boolean")) := by
  have hapart : Apart [("type", some (.text "boolean"))] := by
    show List.Nodup ["type", "description", "default", "examples", "name", "nullable"]
    decide
  have hfits : ∀ m ∈ [("type", some (Doc.text "boolean"))], Fits m := by
    rw [List.forall_mem_singleton]
    exact fits_type (by decide)
  refine loadsFrom_ofMembers hs rfl hapart rfl hfits (fun a' => .boolean a') (fun path htype => ?_) rfl
  rw [build_dict, htype]
  rfl

theorem arrayDoc_eq (f : ArrayFields) (items : Doc) :
    annotated a (arrayDoc f items) = Doc.ofMembers (arrayMembers f items ++ annotationMembers a) := by
  have hdoc : arrayDoc f items = Doc.ofMembers (arrayMembers f items) := by
    show _ = Doc.setSome _ "uniqueItems" (if f.uniqueItems then some (.data (.bool true)) else none)
    rw [Doc.setSome_ite]
    rfl
  rw [hdoc]
  rfl

theorem loadsFrom_array {f : ArrayFields} {rule : ArrayRule} {items : Schema} {doc : Doc}
    (h : ArrayCompiled f rule) (hdoc : items.LoadsFrom doc) (hs : (Schema.array a f items).Loadable) :
    (Schema.array a f items).LoadsFrom (annotated a (arrayDoc f doc)) := by
  have hapart := apart_arrayMembers f doc
  have hitems (path : String) : buildItems path (entriesOf (arrayMembers f doc ++ annotationMembers a)) =
      .ok (some items.relaxed) := by
    rw [buildItems_eq, get?_entriesOf hapart.nodup]
    obtain ⟨below, hbelow⟩ := exists_step_str path "items"
    show (do return some (← Definition.build (← step path (.str "items")) doc.toValue)) = _
    rw [hbelow]
    show (do return some (← Definition.build below doc.toValue)) = _
    rw [hdoc.build]
    rfl
  rw [arrayDoc_eq]
  refine loadsFrom_ofMembers hs rfl hapart rfl (fits_arrayMembers h hdoc.grammatical)
    (fun a' => .array a' (arrayFields (entriesOf (arrayMembers f doc ++ annotationMembers a))) items.relaxed)
    (fun path htype => ?_) ?_
  · rw [build_dict, htype, hitems]
    rfl
  · rw [arrayFields_entriesOf h]
    rfl

theorem objectDoc_eq (f : ObjectFields) (ps : List (Value × Schema)) (docs : List (Value × Doc)) :
    annotated a (objectDoc f ps docs) =
      Doc.ofMembers (objectMembers (documentedRequired f ps) f.additional docs ++ annotationMembers a) := by
  have hdoc : objectDoc f ps docs =
      Doc.ofMembers (objectMembers (documentedRequired f ps) f.additional docs) := by
    show _ = Doc.setSome (Doc.setSome _ "required" (if (documentedRequired f ps).isEmpty then none else
      some (.data (.list (documentedRequired f ps))))) "additionalProperties"
      (if f.additional then some (.data (.bool true)) else none)
    rw [Doc.setSome_ite, objectDoc]
    cases (documentedRequired f ps).isEmpty <;> rfl
  rw [hdoc]
  rfl

theorem buildMembers_eq_ok {path : String} {ps : List (Value × Schema)} {docs : List (Value × Doc)}
    (htexts : ∀ p ∈ ps, ∃ name, p.1 = .str name)
    (h : List.Forall₂ (fun p d => d.1 = p.1 ∧ p.2.LoadsFrom d.2) ps docs) :
    buildMembers path (Doc.object docs).toValue = .ok (relaxedProperties ps) := by
  show buildChildren path (Doc.membersToValues docs) = _
  rw [buildChildren_eq_ok, Doc.membersToValues_eq, relaxedProperties_eq_map, List.forall₂_map_left_iff,
    List.forall₂_map_right_iff]
  refine (forall₂_imp_of_mem h fun p hp d hd => ?_).flip
  obtain ⟨hkey, hloads⟩ := hd
  obtain ⟨name, hname⟩ := htexts p hp
  obtain ⟨below, hbelow⟩ := exists_step_str path name
  refine ⟨hkey.symm, below, ?_, hloads.build _⟩
  rw [hkey, hname]
  exact hbelow

theorem loadsFrom_object {f : ObjectFields} {ps : List (Value × Schema)} {docs : List (Value × Doc)}
    (htexts : ∀ p ∈ ps, ∃ name, p.1 = .str name)
    (hdocs : List.Forall₂ (fun p d => d.1 = p.1 ∧ p.2.LoadsFrom d.2) ps docs)
    (hs : (Schema.object a f ps).Loadable) :
    (Schema.object a f ps).LoadsFrom (annotated a (objectDoc f ps docs)) := by
  have hapart := apart_objectMembers (documentedRequired f ps) f.additional docs
  have hrequired : ∀ key ∈ documentedRequired f ps, ∃ s, key = .str s := by
    intro key hkey
    obtain ⟨p, hp, rfl⟩ := List.mem_map.mp (requiredKeys_subset f ps (List.mem_of_mem_filter hkey))
    exact htexts p hp
  have hgrammatical : ∀ d ∈ docs, Grammatical d.2.toValue := by
    intro d hd
    obtain ⟨p, -, -, hloads⟩ := exists_left_of_forall₂ hdocs hd
    exact hloads.grammatical
  have hproperties (path : String) : buildProperties path (entriesOf (objectMembers (documentedRequired f ps)
      f.additional docs ++ annotationMembers a)) = .ok (relaxedProperties ps) := by
    rw [buildProperties_eq, get?_entriesOf hapart.nodup]
    exact buildMembers_eq_ok htexts hdocs
  rw [objectDoc_eq]
  refine loadsFrom_ofMembers hs rfl hapart rfl (fits_objectMembers hrequired f.additional hgrammatical)
    (fun a' => .object a' (objectFields (entriesOf (objectMembers (documentedRequired f ps) f.additional docs ++
      annotationMembers a))) (relaxedProperties ps)) (fun path htype => ?_) ?_
  · rw [build_dict, htype, hproperties]
    rfl
  · rw [objectFields_entriesOf]
    rfl

/-- The document of a schema can be built, and it is a definition of the relaxed schema. -/
theorem exists_loadsFrom {path : String} {validator : Validator} (h : s.compileAt path = .ok validator)
    (hs : s.Everywhere Loadable) : ∃ doc, Builds (s.inlineDoc false) doc ∧ s.LoadsFrom doc := by
  have hannotate {s : Schema} (hs : s.Loadable) {a : Annotations} (ha : s.annotations? = some a) (doc : Doc) :
      annotate a doc = .ok (annotated a doc) :=
    annotate_eq_ok.mpr ⟨hs.serializable a ha, rfl⟩
  induction s using Schema.induction generalizing path validator with
  | string a f =>
      obtain ⟨rule, hrule, -⟩ := compileAt_string h
      exact ⟨_, builds_lift (hannotate hs.here rfl _), loadsFrom_string hrule hs.here⟩
  | number a f => exact ⟨_, builds_lift (hannotate hs.here rfl _), loadsFrom_number h hs.here⟩
  | integer a f => exact ⟨_, builds_lift (hannotate hs.here rfl _), loadsFrom_integer h hs.here⟩
  | boolean a => exact ⟨_, builds_lift (hannotate hs.here rfl _), loadsFrom_boolean hs.here⟩
  | array a f items ih =>
      obtain ⟨rule, child, hrule, hchild, -⟩ := compileAt_array h
      obtain ⟨doc, hdoc, hloads⟩ := ih hchild hs.2
      exact ⟨_, hdoc.bind (builds_lift (hannotate hs.here rfl _)), loadsFrom_array hrule hloads hs.here⟩
  | object a f ps ih =>
      obtain ⟨children, hchildren, -⟩ := compileAt_object h
      have hchild : ∀ p ∈ ps, ∃ doc, Builds (p.2.inlineDoc false) doc ∧ p.2.LoadsFrom doc := by
        intro p hp
        obtain ⟨c, -, -, hcompiled⟩ := exists_right_of_forall₂ hchildren hp
        exact ih p hp hcompiled ((everywhere_object.mp hs).2 p hp)
      have htexts := texts_of_compileAt h
      obtain ⟨docs, hdocs, hall⟩ := exists_propertyDocs hchild
      exact ⟨_, hdocs.bind (builds_lift (hannotate hs.here rfl _)), loadsFrom_object htexts hall hs.here⟩
  | nullable a inner ih => exact absurd rfl (hs.here.not_nullable a inner)
  | refined a r base ih => exact absurd rfl (hs.here.not_refined a r base)
  | bare a => exact absurd h compileAt_bare_ne
  | foreign u => exact absurd h compileAt_foreign_ne

/-- **Loading a document undoes its making**: the document of a schema is a definition of the schema with its
requirements relaxed, and a pipeline of the one schema gives the results of a pipeline of the other. -/
theorem apply_loaded {s : Schema} {validator : Validator} (h : s.compile = .ok validator)
    (honce : s.Everywhere DeclaresOnce) (hs : s.Everywhere Loadable) :
    ∃ doc, s.inlined = .ok doc ∧ ofDefinition doc.toValue = .ok s.relaxed ∧
      ∃ validator', s.relaxed.compile = .ok validator' ∧ ∀ (target : Target) (raw : Value),
        (Pipeline.mk s.relaxed validator').apply target raw = (Pipeline.mk s validator).apply target raw := by
  have hnamed := named_of_compileAt h honce
  obtain ⟨doc, hdoc, hloads⟩ := exists_loadsFrom h hs
  obtain ⟨validator', hcompile, hrelaxes⟩ := exists_compileAt_relaxed h hnamed
  refine ⟨doc, ?_, ofDefinition_eq_ok.mpr ⟨hloads.grammatical, hloads.build ""⟩, validator', hcompile,
    fun target raw => Pipeline.apply_relaxed hnamed hrelaxes target raw⟩
  exact congrArg Prod.fst (hdoc {})

/-- A page of what has the given tags; there are five on a page unless another number is asked for. -/
def page : Schema :=
  .object {} {} [
    (.str "tags", .array {} { uniqueItems := true } (.string {} { maxLength := some (.int 16) })),
    (.str "limit", .integer { default := some (.int 5) } { minimum := some (.int 1) })]

/-- The validator of a page. -/
def pageValidator : Validator :=
  .object ⟨["tags", "limit"], false⟩ [
    ("tags", .array ⟨none, none, true⟩ (.string ⟨none, some 16, none, none, none⟩)),
    ("limit", .number ⟨true, some (.int 1), none, none, none, none, none⟩)]

theorem loadable_page : page.Everywhere Loadable := by
  have hannotations : Annotations.Serializable {} := ⟨by simp, by simp⟩
  refine everywhere_object.mpr ⟨?_, List.forall_mem_cons.mpr ⟨⟨?_, ?_⟩, List.forall_mem_singleton.mpr ?_⟩⟩
  · exact ⟨by simp, by simp, rfl, by simpa [annotations?] using hannotations, by simp, by simp⟩
  · exact ⟨by simp, by simp, rfl, by simpa [annotations?] using hannotations, by simp, by simp⟩
  · refine ⟨by simp, by simp, rfl, by simpa [annotations?] using hannotations, ?_, by simp⟩
    rintro a f ⟨⟩
    simp
  · refine ⟨by simp, by simp, rfl, ?_, by simp, ?_⟩
    · rintro a ⟨⟩
      refine ⟨?_, by simp⟩
      rintro v ⟨⟩
      exact Json.isSerializable_iff.mpr (Numeral.withinLimit_of_lt (n := 5) (by decide))
    · rintro a f (⟨⟨⟩⟩ | ⟨⟨⟩⟩)
      exact ⟨⟨by simp [Value.isNumber], by simp, by simp, by simp, by simp⟩, by simp⟩

/-- The loaded page requires tags alone. -/
theorem apply_loaded_page :
    page.compile = .ok pageValidator ∧ page.Everywhere DeclaresOnce ∧ page.Everywhere Loadable ∧
      ∃ doc, page.inlined = .ok doc ∧ ofDefinition doc.toValue = .ok page.relaxed ∧
        ∃ validator', page.relaxed.compile = .ok validator' ∧ ∀ (target : Target) (raw : Value),
          (Pipeline.mk page.relaxed validator').apply target raw =
            (Pipeline.mk page pageValidator).apply target raw := by
  have hcompile : page.compile = .ok pageValidator := rfl
  have honce : page.Everywhere DeclaresOnce :=
    everywhere_object.mpr ⟨by simp [DeclaresOnce, Value.same], by simp [Everywhere, DeclaresOnce]⟩
  exact ⟨hcompile, honce, loadable_page, apply_loaded hcompile honce loadable_page⟩

end ApiContract.Schema
