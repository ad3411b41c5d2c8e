import ApiContract.Proofs.DocumentedValidity
import ApiContract.Proofs.StandardReading

/-!
# What loaded definitions enforce

The validator of a schema that is built from a definition accepts what is valid under the reading of the definition
as JSON Schema (`check_iff_valid_standard`), if the definition enumerates nothing but texts and numbers. Beside any
other type an enumeration is accepted with the definition, and then it is forgotten (`forgets_enum`).
-/

namespace ApiContract.Definition

open JsonSchema Schema

variable {entries : List (Value × Value)} {v : Value}

/-! ### Definitions whose enumerations are kept -/

/-- The definition states one of the types. -/
def States (kinds : List String) (entries : List (Value × Value)) : Prop :=
  ∃ kind ∈ kinds, get? entries "type" = some (.str kind)

theorem states_iff {kind : String} (hkind : get? entries "type" = some (.str kind)) {kinds : List String} :
    States kinds entries ↔ kind ∈ kinds := by
  constructor
  · rintro ⟨other, hmem, hother⟩
    obtain rfl := Value.str.inj (Option.some.inj (hkind.symm.trans hother))
    exact hmem
  · exact fun hmem => ⟨kind, hmem, hkind⟩

/-- A definition all of which is enforced: the bounds of numbers are integers, no truth values are enumerated as
numbers, and nothing but texts and numbers is enumerated. -/
structure Enforced (entries : List (Value × Value)) : Prop where
  bounds : States ["number", "integer"] entries →
    ∀ key ∈ numberKeywords, ∀ w, get? entries key = some w → w.IsInteger
  members : States ["number", "integer"] entries →
    ∀ vs, get? entries "enum" = some (.list vs) → ∀ w ∈ vs, ∀ b, w ≠ .bool b
  enumerates : States ["boolean", "array", "object"] entries → get? entries "enum" = none

theorem Enforced.hasExactBounds (h : Enforced entries) (hgrammar : Grammatical (.dict entries))
    (hnumeric : States ["number", "integer"] entries) : (numberFields entries).HasExactBounds where
  minimum b hb := h.bounds hnumeric "minimum" (by decide) b ((hgrammar.set?_eq rfl).symm.trans hb)
  maximum b hb := h.bounds hnumeric "maximum" (by decide) b ((hgrammar.set?_eq rfl).symm.trans hb)
  exclusiveMinimum b hb :=
    h.bounds hnumeric "exclusiveMinimum" (by decide) b ((hgrammar.set?_eq rfl).symm.trans hb)
  exclusiveMaximum b hb :=
    h.bounds hnumeric "exclusiveMaximum" (by decide) b ((hgrammar.set?_eq rfl).symm.trans hb)
  multipleOf b hb := h.bounds hnumeric "multipleOf" (by decide) b ((hgrammar.set?_eq rfl).symm.trans hb)

/-- The keyword is bound to the values that are read for it. -/
theorem Grammatical.get?_enum (h : Grammatical (.dict entries)) :
    get? entries "enum" = (items? entries "enum").map .list :=
  h.get?_eq_items rfl

theorem Grammatical.get?_required (h : Grammatical (.dict entries)) :
    get? entries "required" = (items? entries "required").map .list :=
  h.get?_eq_items rfl

theorem Enforced.no_enum (h : Enforced entries) {kind : String} (hkind : get? entries "type" = some (.str kind))
    (hmem : kind ∈ ["boolean", "array", "object"]) : get? entries "enum" = none :=
  h.enumerates ((states_iff hkind).mpr hmem)

theorem Enforced.members_numberFields (h : Enforced entries) (hgrammar : Grammatical (.dict entries))
    (hnumeric : States ["number", "integer"] entries) :
    ∀ vs, (numberFields entries).enum = some vs → ∀ w ∈ vs, ∀ b, w ≠ .bool b := by
  intro vs hvs
  have hvs : items? entries "enum" = some vs := hvs
  refine h.members hnumeric vs ?_
  rw [hgrammar.get?_enum, hvs]
  rfl

/-! ### Texts -/

theorem valid_string_iff (h : Grammatical (.dict entries)) (hdiffer : Value.KeysDiffer entries)
    (hkind : get? entries "type" = some (.str "string")) {rule : StringRule}
    (hf : StringCompiled (stringFields entries) rule) :
    valid (described entries) v = true ↔ ∃ s, v = .str s ∧ (stringFields entries).Admits s := by
  -- what the definition binds is what the fields of the node are
  have hmin : get? entries "minLength" = (stringFields entries).minLength := (h.set?_eq rfl).symm
  have hmax : get? entries "maxLength" = (stringFields entries).maxLength := (h.set?_eq rfl).symm
  have hpattern : get? entries "pattern" = (stringFields entries).pattern.map .str := h.get?_eq_text rfl
  have hformat : get? entries "format" = (stringFields entries).format.map .str := h.get?_eq_text rfl
  have henum : get? entries "enum" = (stringFields entries).enum.map .list := h.get?_enum
  have hforms (s : String) : (∀ name, (stringFields entries).format = some name →
      Says entries "format" (.str name) (.str s)) ↔
        ∀ name, (stringFields entries).format = some name →
          ∃ form : Format, form.name = name ∧ form.accepts s = true := by
    rw [← Validator.forall_format_iff hf, hf.format]
    cases rule.format with
    | none => simp
    | some form =>
        simp only [Option.map_some, Option.some.injEq, forall_eq']
        exact holds_format_iff
  rw [valid_described_iff h.texts hdiffer]
  constructor
  · rintro ⟨hkeywords, -⟩
    have htype := hasType_of_stated hkind hkeywords
    cases v with
    | str s =>
        refine ⟨s, rfl, {
          minLength := fun w hw => holds_minLength_iff.mp (hkeywords "minLength" w (hmin.trans hw))
          maxLength := fun w hw => holds_maxLength_iff.mp (hkeywords "maxLength" w (hmax.trans hw))
          pattern := fun source hsource => holds_pattern_iff.mp (hkeywords "pattern" (.str source) ?_)
          format := (hforms s).mp fun name hname => hkeywords "format" (.str name) ?_
          enum := fun vs hvs => isIn_str_iff.mpr (says_enum_iff.mp (hkeywords "enum" (.list vs) ?_)) }⟩
        · rw [hpattern, hsource]
          rfl
        · rw [hformat, hname]
          rfl
        · rw [henum, hvs]
          rfl
    | _ => cases htype
  · rintro ⟨s, rfl, hadmits⟩
    refine ⟨forall_says_of_own h hkind rfl (fun w hget => ?_) fun key hkey w hget => ?_,
      fun _ members hmembers => by cases hmembers⟩
    · rw [henum] at hget
      obtain ⟨vs, hvs, rfl⟩ := Option.map_eq_some_iff.mp hget
      exact says_enum_iff.mpr (isIn_str_iff.mp (hadmits.enum vs hvs))
    · simp only [keywordsFor, textKeywords, List.mem_cons, List.not_mem_nil, or_false] at hkey
      rcases hkey with rfl | rfl | rfl | rfl
      · exact holds_minLength_iff.mpr (hadmits.minLength w (hmin.symm.trans hget))
      · exact holds_maxLength_iff.mpr (hadmits.maxLength w (hmax.symm.trans hget))
      · rw [hpattern] at hget
        obtain ⟨source, hsource, rfl⟩ := Option.map_eq_some_iff.mp hget
        exact holds_pattern_iff.mpr (hadmits.pattern source hsource)
      · rw [hformat] at hget
        obtain ⟨name, hname, rfl⟩ := Option.map_eq_some_iff.mp hget
        exact (hforms s).mpr hadmits.format name hname

/-! ### Numbers -/

/-- Among values that are no truth values an integer is equal to those that it is equal to as JSON. -/
theorem isIn_int_iff_of_ne_bool {n : Int} {vs : List Value} (hvs : ∀ w ∈ vs, ∀ b, w ≠ .bool b) :
    (Value.int n).isIn vs = true ↔ ∃ w ∈ vs, (Value.int n).jsonEqual w = true := by
  refine ⟨fun h => ?_, isIn_of_jsonEqual⟩
  obtain ⟨w, hw, hsame⟩ := List.any_eq_true.mp h
  refine ⟨w, hw, ?_⟩
  cases w with
  | int m => exact hsame
  | float x => exact hsame
  | bool b => exact absurd rfl (hvs _ hw b)
  | _ => cases hsame

theorem valid_number_iff (h : Grammatical (.dict entries)) (hdiffer : Value.KeysDiffer entries) {kind : String}
    (hkind : get? entries "type" = some (.str kind)) (hnumeric : kind ∈ ["number", "integer"])
    (henforced : Enforced entries)
    (hstep : ∀ step, (numberFields entries).multipleOf = some step → step.isGreater (.int 0) = .ok true)
    (hv : ∀ x, v ≠ .float x) :
    valid (described entries) v = true ↔ v.IsInteger ∧ (numberFields entries).Admits v := by
  have hstates : States ["number", "integer"] entries := (states_iff hkind).mpr hnumeric
  have hexact := henforced.hasExactBounds h hstates
  have hmembers := henforced.members_numberFields h hstates
  have hkinds : kind = "number" ∨ kind = "integer" := by simpa using hnumeric
  have hmin : get? entries "minimum" = (numberFields entries).minimum := (h.set?_eq rfl).symm
  have hmax : get? entries "maximum" = (numberFields entries).maximum := (h.set?_eq rfl).symm
  have hexmin : get? entries "exclusiveMinimum" = (numberFields entries).exclusiveMinimum := (h.set?_eq rfl).symm
  have hexmax : get? entries "exclusiveMaximum" = (numberFields entries).exclusiveMaximum := (h.set?_eq rfl).symm
  have hmultiple : get? entries "multipleOf" = (numberFields entries).multipleOf := (h.set?_eq rfl).symm
  have henum : get? entries "enum" = (numberFields entries).enum.map .list := h.get?_enum
  rw [valid_described_iff h.texts hdiffer]
  constructor
  · rintro ⟨hkeywords, -⟩
    have htype := hasType_of_stated hkind hkeywords
    cases v with
    | int n =>
        refine ⟨⟨n, rfl⟩, {
          minimum := (forall_integer_iff hexact.minimum fun k _ => holds_minimum_iff).mp fun b hb =>
            hkeywords "minimum" b (hmin.trans hb)
          maximum := (forall_integer_iff hexact.maximum fun k _ => holds_maximum_iff).mp fun b hb =>
            hkeywords "maximum" b (hmax.trans hb)
          exclusiveMinimum := (forall_integer_iff hexact.exclusiveMinimum fun k _ =>
            holds_exclusiveMinimum_iff).mp fun b hb => hkeywords "exclusiveMinimum" b (hexmin.trans hb)
          exclusiveMaximum := (forall_integer_iff hexact.exclusiveMaximum fun k _ =>
            holds_exclusiveMaximum_iff).mp fun b hb => hkeywords "exclusiveMaximum" b (hexmax.trans hb)
          multipleOf := (forall_integer_iff hexact.multipleOf fun k hk =>
            holds_multipleOf_iff (hstep _ hk)).mp fun b hb => hkeywords "multipleOf" b (hmultiple.trans hb)
          enum := fun vs hvs => isIn_of_jsonEqual (says_enum_iff.mp (hkeywords "enum" (.list vs) ?_)) }⟩
        rw [henum, hvs]
        rfl
    | float x => exact absurd rfl (hv x)
    | _ => rcases hkinds with rfl | rfl <;> cases htype
  · rintro ⟨⟨n, rfl⟩, hadmits⟩
    have htype : hasType kind (.int n) = true := by
      rcases hkinds with rfl | rfl <;> rfl
    refine ⟨forall_says_of_own h hkind htype (fun w hget => ?_) fun key hkey w hget => ?_,
      fun _ members hmembers => by cases hmembers⟩
    · rw [henum] at hget
      obtain ⟨vs, hvs, rfl⟩ := Option.map_eq_some_iff.mp hget
      exact says_enum_iff.mpr ((isIn_int_iff_of_ne_bool (hmembers vs hvs)).mp (hadmits.enum vs hvs))
    · simp only [keywordsFor, numberKeywords, List.mem_cons, List.not_mem_nil, or_false] at hkey
      rcases hkey with rfl | rfl | rfl | rfl | rfl
      · obtain ⟨k, rfl⟩ := hexact.minimum w (hmin.symm.trans hget)
        exact holds_minimum_iff.mpr (hadmits.minimum _ (hmin.symm.trans hget))
      · obtain ⟨k, rfl⟩ := hexact.maximum w (hmax.symm.trans hget)
        exact holds_maximum_iff.mpr (hadmits.maximum _ (hmax.symm.trans hget))
      · obtain ⟨k, rfl⟩ := hexact.exclusiveMinimum w (hexmin.symm.trans hget)
        exact holds_exclusiveMinimum_iff.mpr (hadmits.exclusiveMinimum _ (hexmin.symm.trans hget))
      · obtain ⟨k, rfl⟩ := hexact.exclusiveMaximum w (hexmax.symm.trans hget)
        exact holds_exclusiveMaximum_iff.mpr (hadmits.exclusiveMaximum _ (hexmax.symm.trans hget))
      · have hstated := hmultiple.symm.trans hget
        obtain ⟨k, rfl⟩ := hexact.multipleOf w hstated
        exact (holds_multipleOf_iff (hstep _ hstated)).mpr (hadmits.multipleOf _ hstated)

/-- A number that is no float is an integer. -/
theorem isFiniteNumber_iff_of_ne_float (hv : ∀ x, v ≠ .float x) : v.IsFiniteNumber ↔ v.IsInteger := by
  constructor
  · rintro (hinteger | ⟨x, rfl, -⟩)
    · exact hinteger
    · exact absurd rfl (hv x)
  · exact .inl

/-! ### Truth values -/

theorem valid_boolean_iff (h : Grammatical (.dict entries)) (hdiffer : Value.KeysDiffer entries)
    (hkind : get? entries "type" = some (.str "boolean")) (henforced : Enforced entries) :
    valid (described entries) v = true ↔ ∃ b, v = .bool b := by
  rw [valid_described_iff h.texts hdiffer]
  constructor
  · rintro ⟨hkeywords, -⟩
    have htype := hasType_of_stated hkind hkeywords
    cases v with
    | bool b => exact ⟨b, rfl⟩
    | _ => cases htype
  · rintro ⟨b, rfl⟩
    refine ⟨forall_says_of_own h hkind rfl (fun w hget => ?_) fun key hkey => ?_,
      fun _ members hmembers => by cases hmembers⟩
    · rw [henforced.no_enum hkind (by decide)] at hget
      cases hget
    · cases hkey

/-! ### Arrays -/

theorem exists_get?_of_flag {key : String} (h : flag entries key = true) : ∃ w, get? entries key = some w := by
  rw [flag] at h
  cases hget : get? entries key with
  | none =>
      rw [hget] at h
      cases h
  | some w => exact ⟨w, rfl⟩

theorem says_uniqueItems_iff {unique : Bool} {xs : List Value} :
    Says entries "uniqueItems" (.bool unique) (.list xs) ↔
      (unique = true → xs.Pairwise fun x y => x.jsonEqual y = false) := by
  show (!unique || allDiffer xs) = true ↔ _
  rw [← allDiffer_iff]
  cases unique <;> simp

theorem valid_array_iff (h : Grammatical (.dict entries)) (hdiffer : Value.KeysDiffer entries)
    (hkind : get? entries "type" = some (.str "array")) (henforced : Enforced entries) {d : Value}
    (hitems : get? entries "items" = some d) :
    valid (described entries) v = true ↔
      ∃ xs, v = .list xs ∧ (arrayFields entries).Describes xs ∧ ∀ x ∈ xs, valid (standard d) x = true := by
  have hmin : get? entries "minItems" = (arrayFields entries).minItems := (h.set?_eq rfl).symm
  have hmax : get? entries "maxItems" = (arrayFields entries).maxItems := (h.set?_eq rfl).symm
  rw [valid_described_iff h.texts hdiffer]
  constructor
  · rintro ⟨hkeywords, -⟩
    have htype := hasType_of_stated hkind hkeywords
    cases v with
    | list xs =>
        refine ⟨xs, rfl, {
          minItems := fun w hw => holds_minItems_iff.mp (hkeywords "minItems" w (hmin.trans hw))
          maxItems := fun w hw => holds_maxItems_iff.mp (hkeywords "maxItems" w (hmax.trans hw))
          uniqueItems := fun hunique => ?_ }, holds_items_iff.mp (hkeywords "items" d hitems)⟩
        obtain ⟨w, hw⟩ := exists_get?_of_flag hunique
        have hheld := hkeywords "uniqueItems" w hw
        rw [h.eq_flag_of_get? rfl hw] at hheld
        exact says_uniqueItems_iff.mp hheld hunique
    | _ => cases htype
  · rintro ⟨xs, rfl, hdescribes, hvalid⟩
    refine ⟨forall_says_of_own h hkind rfl (fun w hget => ?_) fun key hkey w hget => ?_,
      fun _ members hmembers => by cases hmembers⟩
    · rw [henforced.no_enum hkind (by decide)] at hget
      cases hget
    · simp only [keywordsFor, arrayKeywords, List.mem_cons, List.not_mem_nil, or_false] at hkey
      rcases hkey with rfl | rfl | rfl | rfl
      · obtain rfl := Option.some.inj (hitems.symm.trans hget)
        exact holds_items_iff.mpr hvalid
      · exact holds_minItems_iff.mpr (hdescribes.minItems w (hmin.symm.trans hget))
      · exact holds_maxItems_iff.mpr (hdescribes.maxItems w (hmax.symm.trans hget))
      · rw [h.eq_flag_of_get? rfl hget]
        exact says_uniqueItems_iff.mpr hdescribes.uniqueItems

/-! ### Objects -/

/-- The definitions of the properties. -/
def declaredProperties (entries : List (Value × Value)) : List (Value × Value) :=
  match get? entries "properties" with
  | some (.dict ps) => ps
  | _ => []

theorem propertyNames_eq (entries : List (Value × Value)) :
    propertyNames entries = (declaredProperties entries).map (·.1) := by
  have hlookup : Value.lookup? (.str "properties") entries = get? entries "properties" := rfl
  unfold propertyNames declaredProperties
  rw [hlookup]
  cases get? entries "properties" with
  | none => rfl
  | some w => cases w <;> rfl

theorem buildProperties_eq_children (path : String) (entries : List (Value × Value)) :
    buildProperties path entries = buildChildren path (declaredProperties entries) := by
  rw [buildProperties_eq]
  unfold declaredProperties
  cases get? entries "properties" with
  | none => rfl
  | some w => cases w <;> rfl

theorem says_properties_iff {ps members : List (Value × Value)} :
    Says entries "properties" (.dict ps) (.dict members) ↔
      ∀ p ∈ ps, ∀ w, Value.lookup? p.1 members = some w → valid (standard p.2) w = true := by
  show validProperties (.dict (standardChildren ps)) (.dict members) = true ↔ _
  rw [validProperties_dict, standardChildren_eq_map, List.all_eq_true, List.forall_mem_map]
  simp only [Option.all_eq_true]

theorem says_additionalProperties_iff {additional : Bool} {members : List (Value × Value)} :
    Says entries "additionalProperties" (.bool additional) (.dict members) ↔
      (additional = false → OnlyDeclared entries (.dict members)) := by
  cases additional with
  | true => exact iff_of_true holds_additionalProperties (by simp)
  | false => exact holds_closing_iff.trans (by simp [OnlyDeclared])

theorem valid_object_iff (h : Grammatical (.dict entries)) (hdiffer : Value.KeysDiffer entries)
    (hkind : get? entries "type" = some (.str "object")) (henforced : Enforced entries) :
    valid (described entries) v = true ↔
      ∃ members, v = .dict members ∧
        (∀ p ∈ declaredProperties entries, ∀ w, Value.lookup? p.1 members = some w →
          valid (standard p.2) w = true) ∧
        (∀ key ∈ (items? entries "required").getD [], Value.hasKey key members = true) ∧
        (flag entries "additionalProperties" = false → OnlyDeclared entries (.dict members)) := by
  have hrequired := h.get?_required
  have hproperties (w : Value) (hw : get? entries "properties" = some w) :
      w = .dict (declaredProperties entries) := by
    obtain ⟨ps, rfl, -⟩ := h.properties hw
    rw [declaredProperties, hw]
  rw [valid_described_iff h.texts hdiffer]
  constructor
  · rintro ⟨hkeywords, hclosed⟩
    have htype := hasType_of_stated hkind hkeywords
    cases v with
    | dict members =>
        refine ⟨members, rfl, ?_, ?_, fun hflag => ?_⟩
        · cases hw : get? entries "properties" with
          | none =>
              rw [declaredProperties, hw]
              exact List.forall_mem_nil _
          | some w =>
              have hheld := hkeywords "properties" w hw
              rw [hproperties w hw] at hheld
              exact says_properties_iff.mp hheld
        · cases hkeys : items? entries "required" with
          | none => exact List.forall_mem_nil _
          | some keys =>
              rw [hkeys] at hrequired
              exact holds_required_iff.mp (hkeywords "required" _ hrequired)
        · cases hw : get? entries "additionalProperties" with
          | none => exact hclosed hw
          | some w =>
              have hheld := hkeywords "additionalProperties" w hw
              rw [h.eq_flag_of_get? rfl hw] at hheld
              exact says_additionalProperties_iff.mp hheld hflag
    | _ => cases htype
  · rintro ⟨members, rfl, hvalid, hkeys, hclosed⟩
    refine ⟨forall_says_of_own h hkind rfl (fun w hget => ?_) fun key hkey w hget => ?_, fun hnone => hclosed ?_⟩
    · rw [henforced.no_enum hkind (by decide)] at hget
      cases hget
    · simp only [keywordsFor, objectKeywords, List.mem_cons, List.not_mem_nil, or_false] at hkey
      rcases hkey with rfl | rfl | rfl
      · rw [hproperties w hget]
        exact says_properties_iff.mpr hvalid
      · rw [hrequired] at hget
        obtain ⟨keys, hsome, rfl⟩ := Option.map_eq_some_iff.mp hget
        rw [hsome] at hkeys
        exact holds_required_iff.mpr hkeys
      · rw [h.eq_flag_of_get? rfl hget]
        exact says_additionalProperties_iff.mpr hclosed
    · rw [flag, hnone]
      rfl

/-! ### Definitions and their schemas -/

/-- A property holds of the entries of a definition, and of those of every definition in it that a schema is
built from. -/
inductive Throughout (P : List (Value × Value) → Prop) : Value → Prop
  | mk {entries : List (Value × Value)} (here : P entries)
      (items : get? entries "type" = some (.str "array") → ∀ d, get? entries "items" = some d → Throughout P d)
      (properties : get? entries "type" = some (.str "object") →
        ∀ p ∈ declaredProperties entries, Throughout P p.2) : Throughout P (.dict entries)

section Throughout

variable {P Q : List (Value × Value) → Prop} {D : Value}

theorem throughout_iff :
    Throughout P (.dict entries) ↔ P entries ∧
      (get? entries "type" = some (.str "array") → ∀ d, get? entries "items" = some d → Throughout P d) ∧
      (get? entries "type" = some (.str "object") → ∀ p ∈ declaredProperties entries, Throughout P p.2) := by
  constructor
  · intro h
    cases h with
    | mk here items properties => exact ⟨here, items, properties⟩
  · rintro ⟨here, items, properties⟩
    exact .mk here items properties

theorem Throughout.here (h : Throughout P (.dict entries)) : P entries := (throughout_iff.mp h).1

/-- A definition states one type. -/
theorem get?_type_ne {kind other : String} (hkind : get? entries "type" = some (.str kind)) (hother : kind ≠ other) :
    get? entries "type" ≠ some (.str other) := by
  intro h
  exact hother (Value.str.inj (Option.some.inj (hkind.symm.trans h)))

/-- There is nothing below a definition that is neither of an array nor of an object. -/
theorem throughout_leaf_iff {kind : String} (hkind : get? entries "type" = some (.str kind))
    (harray : kind ≠ "array") (hobject : kind ≠ "object") : Throughout P (.dict entries) ↔ P entries := by
  rw [throughout_iff]
  exact and_iff_left ⟨fun h => absurd h (get?_type_ne hkind harray), fun h => absurd h (get?_type_ne hkind hobject)⟩

theorem throughout_array_iff (hkind : get? entries "type" = some (.str "array")) {d : Value}
    (hitems : get? entries "items" = some d) : Throughout P (.dict entries) ↔ P entries ∧ Throughout P d := by
  rw [throughout_iff]
  refine and_congr_right fun _ => ⟨fun h => h.1 hkind d hitems, fun h => ⟨fun _ d' hd' => ?_, fun hobject => ?_⟩⟩
  · obtain rfl := Option.some.inj (hitems.symm.trans hd')
    exact h
  · exact absurd hobject (get?_type_ne hkind (by decide))

theorem throughout_object_iff (hkind : get? entries "type" = some (.str "object")) :
    Throughout P (.dict entries) ↔ P entries ∧ ∀ p ∈ declaredProperties entries, Throughout P p.2 := by
  rw [throughout_iff]
  refine and_congr_right fun _ => ⟨fun h => h.2 hkind, fun h => ⟨fun harray => ?_, fun _ => h⟩⟩
  exact absurd harray (get?_type_ne hkind (by decide))

theorem Throughout.imp (h : Throughout P D) (himp : ∀ entries, P entries → Q entries) : Throughout Q D := by
  induction h with
  | mk here items properties ihItems ihProperties => exact .mk (himp _ here) ihItems ihProperties

theorem throughout_and_iff :
    Throughout (fun entries => P entries ∧ Q entries) D ↔ Throughout P D ∧ Throughout Q D := by
  constructor
  · intro h
    exact ⟨h.imp fun _ h => h.1, h.imp fun _ h => h.2⟩
  · rintro ⟨hP, hQ⟩
    induction hP with
    | mk here items properties ihItems ihProperties =>
        obtain ⟨here', items', properties'⟩ := throughout_iff.mp hQ
        exact .mk ⟨here, here'⟩ (fun hkind d hd => ihItems hkind d hd (items' hkind d hd))
          fun hkind p hp => ihProperties hkind p hp (properties' hkind p hp)

end Throughout

/-- The items of a value that a definition asks to be unique can be compared: their integers can be written. -/
inductive Comparable : Value → Value → Prop
  | mk {entries : List (Value × Value)} {v : Value}
      (here : get? entries "type" = some (.str "array") → flag entries "uniqueItems" = true → v.IsExactJson)
      (items : get? entries "type" = some (.str "array") → ∀ d, get? entries "items" = some d →
        ∀ xs, v = .list xs → ∀ x ∈ xs, Comparable d x)
      (properties : get? entries "type" = some (.str "object") → ∀ p ∈ declaredProperties entries,
        ∀ members, v = .dict members → ∀ w, Value.lookup? p.1 members = some w → Comparable p.2 w) :
      Comparable (.dict entries) v

/-- The definitions of the properties stand in the entries of the definition. -/
theorem exists_mem_of_declared {e : Value × Value} (he : e ∈ declaredProperties entries) :
    ∃ ps, (.str "properties", .dict ps) ∈ entries ∧ e ∈ ps := by
  unfold declaredProperties at he
  split at he
  · rename_i ps hget
    exact ⟨ps, Value.mem_of_lookup?_str hget, he⟩
  · cases he

/-- A value whose integers can all be written can be compared. -/
theorem comparable_of_isExactJson {D : Value} (h : Grammatical D) (hv : v.IsExactJson) : Comparable D v := by
  induction h generalizing v with
  | mk typed keywords rules items mapped properties ihItems ihProperties =>
      refine .mk (fun _ _ => hv) (fun _ d hd xs hxs x hx => ?_) fun _ p hp members hmembers w hw => ?_
      · subst hxs
        exact ihItems _ (Value.mem_of_lookup?_str hd) rfl (Value.isExactJson_list.mp hv x hx)
      · subst hmembers
        obtain ⟨ps, hmem, hin⟩ := exists_mem_of_declared hp
        obtain ⟨e, he, rfl⟩ := Value.exists_mem_of_lookup? hw
        exact ihProperties _ hmem rfl ps rfl p hin (hv.members e he)

/-- Where the rest of a definition is read as the node that is built from it, so is the whole. -/
theorem valid_standard_of_node {node : Annotations → Schema} {path : String} {validator : Validator}
    (hcompile : (wrap entries node).compileAt path = .ok validator)
    (hnode : ∀ a child, (node a).compileAt path = .ok child →
      (valid (described entries) v = true ↔ (node a).Satisfies v)) :
    valid (standard (.dict entries)) v = true ↔ (wrap entries node).Satisfies v := by
  rw [valid_standard_iff]
  unfold wrap at hcompile ⊢
  cases hnullable : flag entries "nullable" with
  | true =>
      rw [hnullable] at hcompile
      obtain ⟨child, hchild, -⟩ := compileAt_nullable hcompile
      rw [hnode _ child hchild]
      show _ ↔ (v = .null ∨ _)
      simp
  | false =>
      rw [hnullable] at hcompile
      rw [hnode _ validator hcompile]
      simp

/-- What is asked of the items together is read as it is checked, if the items can be compared. -/
theorem describes_iff_admits_of_comparable {xs : List Value} (hkind : get? entries "type" = some (.str "array"))
    (h : Comparable (.dict entries) (.list xs)) :
    (arrayFields entries).Describes xs ↔ (arrayFields entries).Admits xs := by
  cases h with
  | mk here items properties =>
      cases hunique : (arrayFields entries).uniqueItems with
      | true => exact describes_items_iff_admits (Value.isExactJson_list.mp (here hkind hunique))
      | false =>
          constructor
          · exact fun h => ⟨h.minItems, h.maxItems, by simp [hunique]⟩
          · exact fun h => ⟨h.minItems, h.maxItems, by simp [hunique]⟩

/-- Where every key that is listed is declared, the required keys are the listed ones. -/
theorem forall_requiredKeys_iff {f : ObjectFields} {ps : List (Value × Schema)} {keys : List Value}
    (hkeys : f.required = some keys) (htexts : ∀ key ∈ keys, ∃ s, key = .str s)
    (hdeclared : ∀ key ∈ keys, ∃ p ∈ ps, key.same p.1 = true) {Q : Value → Prop} :
    (∀ key ∈ requiredKeys f ps, Q key) ↔ ∀ key ∈ keys, Q key := by
  have hmem (key : Value) : key ∈ requiredKeys f ps ↔ key ∈ keys := by
    rw [requiredKeys, hkeys]
    show key ∈ (ps.map (·.1)).filter (·.isIn keys) ↔ _
    rw [List.mem_filter, Value.isIn, List.any_eq_true]
    constructor
    · rintro ⟨-, other, hother, hsame⟩
      obtain ⟨s, rfl⟩ := htexts other hother
      rw [Value.same_str_right] at hsame
      exact hsame ▸ hother
    · intro hkey
      obtain ⟨s, rfl⟩ := htexts key hkey
      obtain ⟨p, hp, hsame⟩ := hdeclared _ hkey
      rw [Value.same_str_left] at hsame
      exact ⟨List.mem_map.mpr ⟨p, hp, hsame⟩, _, hkey, Value.same_str_left.mpr rfl⟩
  exact forall_congr' fun key => by rw [hmem]

theorem onlyDeclared_iff {ps : List (Value × Schema)} {members : List (Value × Value)}
    (hnames : (declaredProperties entries).map (·.1) = ps.map (·.1)) :
    OnlyDeclared entries (.dict members) ↔ ∀ e ∈ members, ∃ p ∈ ps, e.1.same p.1 = true := by
  have hdeclared : OnlyDeclared entries (.dict members) ↔
      ∀ e ∈ members, ∃ name ∈ propertyNames entries, e.1.same name = true := by
    simp [OnlyDeclared]
  rw [hdeclared, propertyNames_eq, hnames]
  refine forall₂_congr fun e _ => ?_
  simp

/-- A definition is read as a schema: of the comparable instances without fractions those are valid that satisfy
the schema. -/
def ReadAs (D : Value) (s : Schema) : Prop :=
  ∀ v : Value, v.IsFloatFree → Comparable D v → (valid (standard D) v = true ↔ s.Satisfies v)

/-- The items of an array are read as they are built. -/
theorem satisfies_array_iff {a : Annotations} {items : Schema} {d : Value}
    (hkind : get? entries "type" = some (.str "array")) (hitems : get? entries "items" = some d)
    (hread : ReadAs d items) (hv : v.IsFloatFree) (hcomparable : Comparable (.dict entries) v) :
    (∃ xs, v = .list xs ∧ (arrayFields entries).Describes xs ∧ ∀ x ∈ xs, valid (standard d) x = true) ↔
      (Schema.array a (arrayFields entries) items).Satisfies v := by
  rw [Satisfies]
  cases v with
  | list xs =>
      have hcomparableItem : ∀ x ∈ xs, Comparable d x := by
        cases hcomparable with
        | mk here items properties => exact items hkind d hitems xs rfl
      have hvalid : (∀ x ∈ xs, valid (standard d) x = true) ↔ ∀ x ∈ xs, items.Satisfies x :=
        forall₂_congr fun x hx => hread x (Value.Everywhere.items hv rfl x hx) (hcomparableItem x hx)
      constructor
      · rintro ⟨_, ⟨⟩, hdescribes, hall⟩
        exact ⟨xs, rfl, (describes_iff_admits_of_comparable hkind hcomparable).mp hdescribes, hvalid.mp hall⟩
      · rintro ⟨_, ⟨⟩, hadmits, hall⟩
        exact ⟨xs, rfl, (describes_iff_admits_of_comparable hkind hcomparable).mpr hadmits, hvalid.mpr hall⟩
  | tuple xs => exact absurd hv.here id
  | _ => simp [Value.items?]

/-- The properties of an object are read as they are built. -/
theorem satisfies_object_iff {a : Annotations} {ps : List (Value × Schema)} {path : String} {validator : Validator}
    (h : Grammatical (.dict entries)) (hkind : get? entries "type" = some (.str "object"))
    (hcompile : (Schema.object a (objectFields entries) ps).compileAt path = .ok validator)
    (hread : List.Forall₂ (fun e p => p.1 = e.1 ∧ ReadAs e.2 p.2) (declaredProperties entries) ps)
    (hv : v.IsFloatFree) (hcomparable : Comparable (.dict entries) v) :
    (∃ members, v = .dict members ∧
        (∀ p ∈ declaredProperties entries, ∀ w, Value.lookup? p.1 members = some w →
          valid (standard p.2) w = true) ∧
        (∀ key ∈ (items? entries "required").getD [], Value.hasKey key members = true) ∧
        (flag entries "additionalProperties" = false → OnlyDeclared entries (.dict members))) ↔
      (Schema.object a (objectFields entries) ps).Satisfies v := by
  rw [Satisfies]
  have hnames : (declaredProperties entries).map (·.1) = ps.map (·.1) := by
    rw [← List.forall₂_eq_eq_eq, List.forall₂_map_left_iff, List.forall₂_map_right_iff]
    exact hread.imp fun e p hp => hp.1.symm
  have htexts := texts_of_compileAt hcompile
  have hlisted : ∀ key ∈ (items? entries "required").getD [], ∃ s, key = .str s := by
    cases hkeys : items? entries "required" with
    | none => exact List.forall_mem_nil _
    | some keys =>
        have hget : get? entries "required" = some (.list keys) := by
          rw [h.get?_required, hkeys]
          rfl
        exact (h.allows rfl hget).limits .textItems List.mem_cons_self keys rfl
  refine exists_congr fun members => and_congr_right fun hmembers => ?_
  subst hmembers
  have hrequired := forall_requiredKeys_iff (Q := fun key => Value.hasKey key members = true)
    (f := objectFields entries) rfl hlisted (declared_of_compileAt hcompile _ rfl)
  have hitem {e : Value × Value} (he : e ∈ declaredProperties entries) {p : Value × Schema} (hp : p ∈ ps)
      (hkey : p.1 = e.1) (hread : ReadAs e.2 p.2) {w : Value} (hw : Value.lookup? e.1 members = some w) :
      valid (standard e.2) w = true ↔ p.2.Satisfies w := by
    obtain ⟨name, hname⟩ := htexts p hp
    have hmem : (.str name, w) ∈ members := by
      rw [← hkey, hname] at hw
      exact Value.mem_of_lookup?_str hw
    refine hread w ((Value.everywhere_dict.mp hv).2 _ hmem) ?_
    cases hcomparable with
    | mk here items properties => exact properties hkind e he members rfl w hw
  have hproperties : (∀ e ∈ declaredProperties entries, ∀ w, Value.lookup? e.1 members = some w →
      valid (standard e.2) w = true) ↔ SatisfiesProperties ps members := by
    rw [satisfiesProperties_iff]
    constructor
    · intro hvalid p hp w hw
      obtain ⟨e, he, hkey, hread⟩ := exists_left_of_forall₂ hread hp
      rw [hkey] at hw
      exact (hitem he hp hkey hread hw).mp (hvalid e he w hw)
    · intro hsat e he w hw
      obtain ⟨p, hp, hkey, hread⟩ := exists_right_of_forall₂ hread he
      exact (hitem he hp hkey hread hw).mpr (hsat p hp w (hkey ▸ hw))
  rw [hproperties, hrequired, onlyDeclared_iff hnames]
  show _ ↔ _ ∧ _ ∧ (flag entries "additionalProperties" = false → _)
  exact and_left_comm

/-! ### From definitions to schemas -/

theorem text?_eq_of_get? {key text : String} (h : get? entries key = some (.str text)) :
    text? entries key = some text := by
  rw [text?, h]

/-- The schema of an array is built from the definition of its items. -/
theorem build_array_eq_ok (hkind : get? entries "type" = some (.str "array")) {path : String} {s : Schema}
    (h : build path (.dict entries) = .ok s) :
    ∃ d items inner, get? entries "items" = some d ∧ build inner d = .ok items ∧
      s = wrap entries fun a => .array a (arrayFields entries) items := by
  rw [build_dict, text?_eq_of_get? hkind] at h
  obtain ⟨items?, hitems, h⟩ := bind_eq_ok_iff.mp h
  rw [buildItems_eq] at hitems
  cases hd : get? entries "items" with
  | none =>
      rw [hd] at hitems
      cases hitems
      cases h
  | some d =>
      rw [hd] at hitems
      obtain ⟨inner, -, hitems⟩ := bind_eq_ok_iff.mp hitems
      obtain ⟨items, hbuilt, hitems⟩ := bind_eq_ok_iff.mp hitems
      cases hitems
      exact ⟨d, items, inner, rfl, hbuilt, (Except.ok.inj h).symm⟩

/-- The schema of an object is built from the definitions of its properties. -/
theorem build_object_eq_ok (hkind : get? entries "type" = some (.str "object")) {path : String} {s : Schema}
    (h : build path (.dict entries) = .ok s) :
    ∃ ps, List.Forall₂ (fun e p => p.1 = e.1 ∧ ∃ inner, build inner e.2 = .ok p.2) (declaredProperties entries) ps ∧
      s = wrap entries fun a => .object a (objectFields entries) ps := by
  rw [build_dict, text?_eq_of_get? hkind] at h
  obtain ⟨ps, hps, h⟩ := bind_eq_ok_iff.mp h
  rw [buildProperties_eq_children, buildChildren_eq_ok] at hps
  refine ⟨ps, hps.imp ?_, (Except.ok.inj h).symm⟩
  rintro e p ⟨hkey, inner, -, hbuilt⟩
  exact ⟨hkey, inner, hbuilt⟩

/-- Induction on what is built from a definition: a node of the type that it states, over what is built from the
definition of its items or of its properties. -/
@[elab_as_elim]
theorem build_induction {motive : Value → Schema → Prop}
    (string : ∀ entries, Grammatical (.dict entries) → get? entries "type" = some (.str "string") →
      motive (.dict entries) (wrap entries fun a => .string a (stringFields entries)))
    (number : ∀ entries, Grammatical (.dict entries) → get? entries "type" = some (.str "number") →
      motive (.dict entries) (wrap entries fun a => .number a (numberFields entries)))
    (integer : ∀ entries, Grammatical (.dict entries) → get? entries "type" = some (.str "integer") →
      motive (.dict entries) (wrap entries fun a => .integer a (numberFields entries)))
    (boolean : ∀ entries, Grammatical (.dict entries) → get? entries "type" = some (.str "boolean") →
      motive (.dict entries) (wrap entries fun a => .boolean a))
    (array : ∀ entries d items, Grammatical (.dict entries) → get? entries "type" = some (.str "array") →
      get? entries "items" = some d → motive d items →
      motive (.dict entries) (wrap entries fun a => .array a (arrayFields entries) items))
    (object : ∀ entries ps, Grammatical (.dict entries) → get? entries "type" = some (.str "object") →
      List.Forall₂ (fun e p => p.1 = e.1 ∧ motive e.2 p.2) (declaredProperties entries) ps →
      motive (.dict entries) (wrap entries fun a => .object a (objectFields entries) ps))
    {D : Value} {path : String} {s : Schema} (h : Grammatical D) (hbuild : build path D = .ok s) : motive D s := by
  induction D using valueInduction generalizing path s with
  | dict entries ih ihMembers =>
      obtain ⟨kind, hmem, hkind⟩ := h.exists_kind
      have hbuilt := hbuild
      rw [build_dict, text?_eq_of_get? hkind] at hbuilt
      simp only [kinds, List.mem_cons, List.not_mem_nil, or_false] at hmem
      rcases hmem with rfl | rfl | rfl | rfl | rfl | rfl
      · obtain rfl := Except.ok.inj hbuilt
        exact string entries h hkind
      · obtain rfl := Except.ok.inj hbuilt
        exact number entries h hkind
      · obtain rfl := Except.ok.inj hbuilt
        exact integer entries h hkind
      · obtain rfl := Except.ok.inj hbuilt
        exact boolean entries h hkind
      · obtain ⟨d, items, inner, hd, hitems, rfl⟩ := build_array_eq_ok hkind hbuild
        exact array entries d items h hkind hd (ih _ (Value.mem_of_lookup?_str hd) (h.items hd) hitems)
      · obtain ⟨ps, hps, rfl⟩ := build_object_eq_ok hkind hbuild
        refine object entries ps h hkind (forall₂_imp_of_mem_mem hps ?_)
        rintro e he p - ⟨hkey, inner, hchild⟩
        refine ⟨hkey, ?_⟩
        unfold declaredProperties at he
        split at he
        · rename_i members hmembers
          obtain ⟨_, hqs, hgrammar⟩ := h.properties hmembers
          obtain rfl := Value.dict.inj hqs
          exact ihMembers _ (Value.mem_of_lookup?_str hmembers) members rfl e he (hgrammar e he) hchild
        · cases he
  | other v hv =>
      cases h
      exact absurd rfl (hv _)

/-- What a definition says that is enforced is read as the schema that is built from it. -/
theorem readAs_of_build {D : Value} (h : Grammatical D) (hwf : D.WellFormed) (henforced : Throughout Enforced D)
    {path at' : String} {s : Schema} {validator : Validator} (hbuild : build path D = .ok s)
    (hcompile : s.compileAt at' = .ok validator) : ReadAs D s := by
  have hread : D.WellFormed → Throughout Enforced D → ∀ at' validator, s.compileAt at' = .ok validator →
      ReadAs D s := by
    refine build_induction (motive := fun D s => D.WellFormed → Throughout Enforced D → ∀ at' validator,
      s.compileAt at' = .ok validator → ReadAs D s) ?string ?number ?integer ?boolean ?array ?object h hbuild
    case string =>
      intro entries h hkind hwf henforced at' validator hcompile v hv hcomparable
      refine valid_standard_of_node hcompile fun a child hchild => ?_
      obtain ⟨rule, hrule, -⟩ := compileAt_string hchild
      exact valid_string_iff h (Value.wellFormed_dict.mp hwf).1 hkind hrule
    case number =>
      intro entries h hkind hwf henforced at' validator hcompile v hv hcomparable
      refine valid_standard_of_node hcompile fun a child hchild => ?_
      exact (valid_number_iff h (Value.wellFormed_dict.mp hwf).1 hkind (by decide) henforced.here
        (isGreater_zero_of_compileAt hchild (.inl rfl)) hv.ne_float).trans
        (and_congr_left fun _ => (isFiniteNumber_iff_of_ne_float hv.ne_float).symm)
    case integer =>
      intro entries h hkind hwf henforced at' validator hcompile v hv hcomparable
      refine valid_standard_of_node hcompile fun a child hchild => ?_
      exact valid_number_iff h (Value.wellFormed_dict.mp hwf).1 hkind (by decide) henforced.here
        (isGreater_zero_of_compileAt hchild (.inr rfl)) hv.ne_float
    case boolean =>
      intro entries h hkind hwf henforced at' validator hcompile v hv hcomparable
      refine valid_standard_of_node hcompile fun a child hchild => ?_
      exact valid_boolean_iff h (Value.wellFormed_dict.mp hwf).1 hkind henforced.here
    case array =>
      intro entries d items h hkind hd ih hwf henforced at' validator hcompile v hv hcomparable
      obtain ⟨hdiffer, hvalues⟩ := Value.wellFormed_dict.mp hwf
      obtain ⟨here, hbelow⟩ := (throughout_array_iff hkind hd).mp henforced
      refine valid_standard_of_node hcompile fun a child hchild => ?_
      obtain ⟨-, item, -, hitem, -⟩ := compileAt_array hchild
      have hread : ReadAs d items :=
        ih (hvalues _ (Value.mem_of_lookup?_str hd)) hbelow _ item hitem
      exact (valid_array_iff h hdiffer hkind here hd).trans
        (satisfies_array_iff hkind hd hread hv hcomparable)
    case object =>
      intro entries ps h hkind hps hwf henforced at' validator hcompile v hv hcomparable
      obtain ⟨hdiffer, hvalues⟩ := Value.wellFormed_dict.mp hwf
      obtain ⟨here, hproperties⟩ := (throughout_object_iff hkind).mp henforced
      refine valid_standard_of_node hcompile fun a child hchild => ?_
      obtain ⟨children, hchildren, -⟩ := compileAt_object hchild
      have hread : List.Forall₂ (fun e p => p.1 = e.1 ∧ ReadAs e.2 p.2) (declaredProperties entries) ps := by
        refine forall₂_imp_of_mem_mem hps ?_
        rintro e he p hp ⟨hkey, ih⟩
        obtain ⟨members, hmem, hin⟩ := exists_mem_of_declared he
        obtain ⟨c, -, -, hc⟩ := exists_right_of_forall₂ hchildren hp
        have hmembers := (Value.wellFormed_dict.mp (hvalues _ hmem)).2
        exact ⟨hkey, ih (hmembers e hin) (hproperties e he) _ c.2 hc⟩
      exact (valid_object_iff h hdiffer hkind here).trans
        (satisfies_object_iff h hkind hchild hread hv hcomparable)
  exact hread hwf henforced at' validator hcompile

/-- The validator of the schema that a definition describes accepts what is valid under the reading of the
definition. -/
theorem check_iff_valid_standard {D : Value} (hwf : D.WellFormed) {s : Schema} (hload : ofDefinition D = .ok s)
    {validator : Validator} (hcompile : s.compile = .ok validator) (henforced : Throughout Enforced D) {v : Value}
    (hv : v.IsFloatFree) (hcomparable : Comparable D v) :
    validator.check v = .ok true ↔ valid (standard D) v = true := by
  obtain ⟨hgrammar, hbuild⟩ := ofDefinition_eq_ok.mp hload
  rw [readAs_of_build hgrammar hwf henforced hbuild hcompile v hv hcomparable,
    ← isClean_run_iff hcompile v ""]
  exact Trace.take_one_isEmpty_iff _

/-! ### Instances -/

/-- The definition of seats: an array without repetitions, or null. -/
def seatEntries : List (Value × Value) := [
  (.str "type", .str "array"), (.str "nullable", .bool true), (.str "uniqueItems", .bool true),
  (.str "items", .record [("type", .str "integer"), ("minimum", .int 1)])]

/-- A booking says which seats are taken, and nothing else. -/
def booking : Value :=
  .record [("type", .str "object"), ("properties", .record [("seats", .dict seatEntries)]),
    ("required", .list [.str "seats"])]

theorem enforced_booking : Throughout Enforced booking := by
  have hseat : Throughout Enforced (.record [("type", .str "integer"), ("minimum", .int 1)]) := by
    refine (throughout_leaf_iff rfl (by decide) (by decide)).mpr
      ⟨fun _ key hkey w hw => ?_, fun _ vs hvs => ?_, fun _ => rfl⟩
    · simp only [numberKeywords, List.mem_cons, List.not_mem_nil, or_false] at hkey
      rcases hkey with rfl | rfl | rfl | rfl | rfl
      · exact ⟨1, (Option.some.inj hw).symm⟩
      all_goals cases hw
    · cases hvs
  have hseats : Throughout Enforced (.dict seatEntries) := by
    refine (throughout_array_iff rfl rfl).mpr ⟨⟨fun hnumeric => ?_, fun hnumeric => ?_, fun _ => rfl⟩, hseat⟩
    · exact absurd ((states_iff rfl).mp hnumeric) (by decide)
    · exact absurd ((states_iff rfl).mp hnumeric) (by decide)
  refine (throughout_object_iff rfl).mpr ⟨⟨fun hnumeric => ?_, fun hnumeric => ?_, fun _ => rfl⟩, ?_⟩
  · exact absurd ((states_iff rfl).mp hnumeric) (by decide)
  · exact absurd ((states_iff rfl).mp hnumeric) (by decide)
  · exact List.forall_mem_singleton.mpr hseats

/-- Two seats are a valid booking, so the validator accepts them. -/
theorem check_iff_valid_booking :
    ∃ s validator, booking.WellFormed ∧ ofDefinition booking = .ok s ∧ s.compile = .ok validator ∧
      Throughout Enforced booking ∧ (Value.record [("seats", .list [.int 1, .int 2])]).IsFloatFree ∧
      Comparable booking (.record [("seats", .list [.int 1, .int 2])]) ∧
      valid (standard booking) (.record [("seats", .list [.int 1, .int 2])]) = true ∧
      validator.check (.record [("seats", .list [.int 1, .int 2])]) = .ok true := by
  have hwf : booking.WellFormed := by
    simp [booking, seatEntries, Value.record, Value.WellFormed, Value.KeysDiffer, Value.BindsOnce, Value.same,
      Value.Everywhere, Value.EverywhereAmong, Value.EverywhereIn]
  have hexact : (Value.record [("seats", .list [.int 1, .int 2])]).IsExactJson := by
    refine Value.everywhere_dict.mpr ⟨⟨by simp, by simp [Value.KeysDiffer]⟩, ?_⟩
    simp only [List.map_cons, List.map_nil, List.forall_mem_cons, Value.Everywhere, Value.EverywhereIn]
    exact ⟨⟨trivial, Numeral.withinLimit_of_lt (by decide), Numeral.withinLimit_of_lt (by decide), trivial⟩,
      List.forall_mem_nil _⟩
  have hloads : ∃ s validator, ofDefinition booking = .ok s ∧ s.compile = .ok validator := ⟨_, _, rfl, rfl⟩
  obtain ⟨s, validator, hload, hcompile⟩ := hloads
  have hcomparable := comparable_of_isExactJson (ofDefinition_eq_ok.mp hload).1 hexact
  have hvalid : valid (standard booking) (.record [("seats", .list [.int 1, .int 2])]) = true := by
    rfl
  exact ⟨s, validator, hwf, hload, hcompile, enforced_booking, hexact.isFloatFree, hcomparable, hvalid,
    (check_iff_valid_standard hwf hload hcompile enforced_booking hexact.isFloatFree hcomparable).mpr hvalid⟩

/-- A truth value of which only one is enumerated. -/
def agreement : Value := .record [("type", .str "boolean"), ("enum", .list [.bool true])]

/-- The enumeration of a truth value is accepted with the definition, and forgotten. -/
theorem forgets_enum :
    ∃ s validator, agreement.WellFormed ∧ ofDefinition agreement = .ok s ∧ s.compile = .ok validator ∧
      (Value.bool false).IsFloatFree ∧ validator.check (.bool false) = .ok true ∧
      valid (standard agreement) (.bool false) = false := by
  have hwf : agreement.WellFormed := by
    simp [agreement, Value.record, Value.WellFormed, Value.KeysDiffer, Value.BindsOnce, Value.same,
      Value.Everywhere, Value.EverywhereIn]
  exact ⟨_, _, hwf, rfl, rfl, trivial, rfl, rfl⟩

/-- Different integers. -/
def distinct : Value :=
  .record [("type", .str "array"), ("items", .record [("type", .str "integer")]), ("uniqueItems", .bool true)]

/-- An integer without decimal text stops the check of whether the items are different. -/
theorem check_distinct_of_not_withinLimit {n : Int} (hn : Numeral.withinLimit n = false) :
    ∃ s validator, ofDefinition distinct = .ok s ∧ s.compile = .ok validator ∧
      validator.check (.list [.int n]) = .error .digitLimit ∧
      valid (standard distinct) (.list [.int n]) = true := by
  have hkey : Validator.uniqueKey (.int n) = .error .digitLimit := by
    show (do return (← intText n) : Except Fault String) = _
    rw [intText_of_not_withinLimit hn]
  have hduplicate : Validator.hasDuplicate [.int n] = .error .digitLimit := by
    rw [Validator.hasDuplicate, List.mapM_cons, hkey]
    rfl
  have hitems : Validator.checkItems ⟨none, none, true⟩ [.int n] "" = .failed .digitLimit := by
    rw [Validator.checkItems, hduplicate]
    rfl
  refine ⟨_, .array ⟨none, none, true⟩ (.number ⟨true, none, none, none, none, none, none⟩), rfl, rfl, ?_, rfl⟩
  show ((Validator.checkItems ⟨none, none, true⟩ [.int n] "" ++ _ : Trace).take 1).toExcept.map _ = _
  rw [hitems]
  rfl

end ApiContract.Definition
