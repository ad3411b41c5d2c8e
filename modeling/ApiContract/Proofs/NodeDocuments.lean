import ApiContract.Proofs.Compilation
import ApiContract.Proofs.DocumentMeaning
import ApiContract.Proofs.Satisfaction
import ApiContract.Proofs.UniqueText

/-!
# What the documents of nodes ask for

The document of a node asks for the type of the node and for the constraints that it declares on texts
(`means_stringDoc`), numbers, arrays and objects. What it asks of numbers and arrays is said with the equality
of JSON (`NumberFields.Describes`, `ArrayFields.Describes`); for exact instances that is what the node itself
asks for (`describes_iff_admits`, `describes_items_iff_admits`).
-/

namespace ApiContract

namespace JsonSchema

theorem count_any_iff {w : Value} {p : Nat → Bool} :
    (count? w).any p = true ↔ ∃ n : Nat, w = .int n ∧ p n = true := by
  cases w with
  | int k =>
      cases k with
      | ofNat n =>
          constructor
          · intro h
            exact ⟨n, rfl, h⟩
          · rintro ⟨m, hm, hp⟩
            obtain rfl := Int.ofNat.inj (Value.int.inj hm)
            exact hp
      | negSucc n =>
          refine iff_of_false Bool.false_ne_true ?_
          rintro ⟨m, hm, -⟩
          cases hm
  | _ => simp [count?]

end JsonSchema

/-- Every value that a number is compared with is an integer of its own right. -/
structure NumberFields.IsExact (f : NumberFields) : Prop where
  minimum : ∀ b, f.minimum = some b → b.IsInteger
  maximum : ∀ b, f.maximum = some b → b.IsInteger
  exclusiveMinimum : ∀ b, f.exclusiveMinimum = some b → b.IsInteger
  exclusiveMaximum : ∀ b, f.exclusiveMaximum = some b → b.IsInteger
  multipleOf : ∀ step, f.multipleOf = some step → step.IsInteger
  enum : ∀ vs, f.enum = some vs → ∀ w ∈ vs, w.IsInteger

/-- The bounds of a number and its step are integers of their own right. -/
structure NumberFields.HasExactBounds (f : NumberFields) : Prop where
  minimum : ∀ b, f.minimum = some b → b.IsInteger
  maximum : ∀ b, f.maximum = some b → b.IsInteger
  exclusiveMinimum : ∀ b, f.exclusiveMinimum = some b → b.IsInteger
  exclusiveMaximum : ∀ b, f.exclusiveMaximum = some b → b.IsInteger
  multipleOf : ∀ step, f.multipleOf = some step → step.IsInteger

theorem NumberFields.IsExact.hasExactBounds {f : NumberFields} (h : f.IsExact) : f.HasExactBounds :=
  ⟨h.minimum, h.maximum, h.exclusiveMinimum, h.exclusiveMaximum, h.multipleOf⟩

/-- What the document of a number node asks of an integer: bounds and step as the node does, and an
enumerated value that is equal as JSON. -/
structure NumberFields.Describes (f : NumberFields) (v : Value) : Prop where
  bounds : ({ f with enum := none } : NumberFields).Admits v
  enum : ∀ vs, f.enum = some vs → ∃ w ∈ vs, v.jsonEqual w = true

/-- What the document of an array node asks of the items together: their number, and that no two of them
are equal as JSON. -/
structure ArrayFields.Describes (f : ArrayFields) (xs : List Value) : Prop where
  minItems : ∀ v, f.minItems = some v → ∃ n : Nat, v = .int n ∧ n ≤ xs.length
  maxItems : ∀ v, f.maxItems = some v → ∃ n : Nat, v = .int n ∧ xs.length ≤ n
  uniqueItems : f.uniqueItems = true → xs.Pairwise fun x y => x.jsonEqual y = false

namespace Schema

open JsonSchema Doc Validator

theorem forall_dataOf {o : Option Value} {Q : Doc → Prop} :
    (∀ d, dataOf o = some d → Q d) ↔ ∀ w, o = some w → Q (.data w) := by
  cases o <;> simp [dataOf]

theorem forall_enumOf {o : Option (List Value)} {Q : Doc → Prop} :
    (∀ d, enumOf o = some d → Q d) ↔ ∀ vs, o = some vs → Q (.data (.list vs)) := by
  cases o <;> simp [enumOf]

theorem forall_textOf {o : Option String} {Q : Doc → Prop} :
    (∀ d, o.map Doc.text = some d → Q d) ↔ ∀ s, o = some s → Q (.text s) := by
  cases o <;> simp

theorem means_typeDoc (declared : List Value) (v : Value) (name : String) :
    (typeDoc name).Means declared v ["type"] (hasType name v = true) :=
  (means_record declared v "type" (.text name)).congr (by
    show ([name].any (hasType · v)) = true ↔ _
    simp)

/-! ### Texts -/

section Texts

variable {declared : List Value} {s : String}

theorem holds_minLength_iff {w : Value} : holds declared (.str "minLength") w (.str s) = true ↔
    ∃ n : Nat, w = .int n ∧ n ≤ s.length := by
  show (count? w).any (· ≤ s.length) = true ↔ _
  simp only [count_any_iff, decide_eq_true_eq]

theorem holds_maxLength_iff {w : Value} : holds declared (.str "maxLength") w (.str s) = true ↔
    ∃ n : Nat, w = .int n ∧ s.length ≤ n := by
  show (count? w).any (s.length ≤ ·) = true ↔ _
  simp only [count_any_iff, decide_eq_true_eq]

theorem holds_pattern_iff {source : String} :
    holds declared (.str "pattern") (.str source) (.str s) = true ↔
      ∃ regex, Regex.parse source = .ok regex ∧ regex.search s = true := by
  show isFound source s = true ↔ _
  rw [isFound]
  cases Regex.parse source with
  | ok regex => simp
  | error fault => simp

theorem holds_format_iff {form : Format} :
    holds declared (.str "format") (.str form.name) (.str s) = true ↔ form.accepts s = true := by
  show (Format.ofName? form.name).all (·.accepts s) = true ↔ _
  rw [Format.ofName?_name, Option.all_some]

theorem holds_enum_iff {vs : List Value} {v : Value} :
    holds declared (.str "enum") (.list vs) v = true ↔ ∃ w ∈ vs, v.jsonEqual w = true :=
  List.any_eq_true

theorem isIn_str_iff {vs : List Value} :
    (Value.str s).isIn vs = true ↔ ∃ w ∈ vs, (Value.str s).jsonEqual w = true := by
  rw [Value.isIn, List.any_eq_true]
  refine exists_congr fun w => and_congr_right fun _ => ?_
  cases w with
  | str t => exact Iff.rfl
  | _ => exact Iff.rfl

end Texts

/-- The document of a text node asks for a text that the node admits. -/
theorem means_stringDoc {f : StringFields} {rule : StringRule} (hf : StringCompiled f rule)
    (declared : List Value) (v : Value) :
    (stringDoc f).Means declared v ["enum", "format", "pattern", "maxLength", "minLength", "type"]
      (∃ s, v = .str s ∧ f.Admits s) := by
  have h := (means_typeDoc declared v "string")
    |>.setSome "minLength" (by decide) (dataOf f.minLength)
    |>.setSome "maxLength" (by decide) (dataOf f.maxLength)
    |>.setSome "pattern" (by decide) (f.pattern.map .text)
    |>.setSome "format" (by decide) (f.format.map .text)
    |>.setSome "enum" (by decide) (enumOf f.enum)
  refine h.congr ?_
  simp only [forall_dataOf, forall_enumOf, forall_textOf]
  cases v with
  | str s =>
      have hformat : (∀ name, f.format = some name →
          holds declared (.str "format") (Doc.text name).toValue (.str s) = true) ↔
            ∀ name, f.format = some name → ∃ form : Format, form.name = name ∧ form.accepts s = true := by
        -- a format that compiles is one that documents know
        rw [← forall_format_iff hf, hf.format]
        cases rule.format with
        | none => simp
        | some form => simp [Doc.text, toValue, holds_format_iff]
      constructor
      · rintro ⟨⟨⟨⟨⟨-, hmin⟩, hmax⟩, hpattern⟩, hform⟩, henum⟩
        exact ⟨s, rfl, {
          minLength := fun w hw => holds_minLength_iff.mp (hmin w hw)
          maxLength := fun w hw => holds_maxLength_iff.mp (hmax w hw)
          pattern := fun source hsource => holds_pattern_iff.mp (hpattern source hsource)
          format := hformat.mp hform
          enum := fun vs hvs => isIn_str_iff.mpr (holds_enum_iff.mp (henum vs hvs)) }⟩
      · rintro ⟨_, ⟨⟩, hadmits⟩
        exact ⟨⟨⟨⟨⟨rfl, fun w hw => holds_minLength_iff.mpr (hadmits.minLength w hw)⟩,
          fun w hw => holds_maxLength_iff.mpr (hadmits.maxLength w hw)⟩,
          fun source hsource => holds_pattern_iff.mpr (hadmits.pattern source hsource)⟩,
          hformat.mpr hadmits.format⟩,
          fun vs hvs => holds_enum_iff.mpr (isIn_str_iff.mp (hadmits.enum vs hvs))⟩
  | _ => simp [hasType]

/-! ### Numbers -/

section Numbers

variable {declared : List Value} {n k : Int}

theorem holds_minimum_iff : holds declared (.str "minimum") (.int k) (.int n) = true ↔
    (Value.int n).isLess (.int k) = .ok false := by
  have hholds : holds declared (.str "minimum") (.int k) (.int n) =
      (some (compare n k) == some .gt || some (compare n k) == some .eq) := rfl
  have hless : (Value.int n).isLess (.int k) = .ok (some (compare n k) == some .lt) := rfl
  rw [hholds, hless]
  cases compare n k <;> simp

theorem holds_maximum_iff : holds declared (.str "maximum") (.int k) (.int n) = true ↔
    (Value.int n).isGreater (.int k) = .ok false := by
  have hholds : holds declared (.str "maximum") (.int k) (.int n) =
      (some (compare n k) == some .lt || some (compare n k) == some .eq) := rfl
  have hgreater : (Value.int n).isGreater (.int k) = .ok (some (compare n k) == some .gt) := rfl
  rw [hholds, hgreater]
  cases compare n k <;> simp

theorem holds_exclusiveMinimum_iff : holds declared (.str "exclusiveMinimum") (.int k) (.int n) = true ↔
    (Value.int n).isAtMost (.int k) = .ok false := by
  have hholds : holds declared (.str "exclusiveMinimum") (.int k) (.int n) =
      (some (compare n k) == some .gt) := rfl
  have hmost : (Value.int n).isAtMost (.int k) =
      .ok (some (compare n k) == some .lt || some (compare n k) == some .eq) := rfl
  rw [hholds, hmost]
  cases compare n k <;> simp

theorem holds_exclusiveMaximum_iff : holds declared (.str "exclusiveMaximum") (.int k) (.int n) = true ↔
    (Value.int n).isAtLeast (.int k) = .ok false := by
  have hholds : holds declared (.str "exclusiveMaximum") (.int k) (.int n) =
      (some (compare n k) == some .lt) := rfl
  have hleast : (Value.int n).isAtLeast (.int k) =
      .ok (some (compare n k) == some .gt || some (compare n k) == some .eq) := rfl
  rw [hholds, hleast]
  cases compare n k <;> simp

/-- Among integers a multiple is what the step divides. -/
theorem holds_multipleOf_iff (hk : (Value.int k).isGreater (.int 0) = .ok true) :
    holds declared (.str "multipleOf") (.int k) (.int n) = true ↔
      Validator.isMultiple (.int n) (.int k) = .ok true := by
  have hpositive : 0 < k := by
    have hgreater : (Value.int k).isGreater (.int 0) = .ok (some (compare k 0) == some .gt) := rfl
    rw [hgreater] at hk
    exact Int.compare_eq_gt.mp (by simpa using hk)
  have hholds : holds declared (.str "multipleOf") (.int k) (.int n) =
      (k != 0 && (n * 1) % (1 * k) == 0) := rfl
  have hmultiple : Validator.isMultiple (.int n) (.int k) = .ok (n % k == 0) := rfl
  -- a step is positive, so the keyword's own test for zero is met
  have hne : k ≠ 0 := by omega
  rw [hholds, hmultiple]
  simp [hne]

theorem isIn_int_iff {vs : List Value} (hvs : ∀ w ∈ vs, w.IsInteger) :
    (Value.int n).isIn vs = true ↔ ∃ w ∈ vs, (Value.int n).jsonEqual w = true := by
  rw [Value.isIn, List.any_eq_true]
  refine exists_congr fun w => and_congr_right fun hw => ?_
  obtain ⟨m, rfl⟩ := hvs w hw
  exact Iff.rfl

/-- What is equal to an integer as JSON is equal to it as a value; a truth value is only the latter. -/
theorem isIn_of_jsonEqual {vs : List Value} (h : ∃ w ∈ vs, (Value.int n).jsonEqual w = true) :
    (Value.int n).isIn vs = true := by
  obtain ⟨w, hw, hequal⟩ := h
  refine List.any_eq_true.mpr ⟨w, hw, ?_⟩
  cases w with
  | int m => exact hequal
  | float x => exact hequal
  | _ => cases hequal

/-- Two ways to speak of a declared integer are the same if they are for every integer. -/
theorem forall_integer_iff {o : Option Value} (ho : ∀ b, o = some b → b.IsInteger) {P Q : Value → Prop}
    (h : ∀ k, o = some (.int k) → (P (.int k) ↔ Q (.int k))) :
    (∀ b, o = some b → P b) ↔ ∀ b, o = some b → Q b := by
  refine forall₂_congr fun b hb => ?_
  obtain ⟨k, rfl⟩ := ho b hb
  exact h k hb

end Numbers

/-- An integer that the document describes is admitted by the node. -/
theorem admits_of_describes {f : NumberFields} {n : Int} (h : f.Describes (.int n)) :
    f.Admits (.int n) where
  minimum := h.bounds.minimum
  maximum := h.bounds.maximum
  exclusiveMinimum := h.bounds.exclusiveMinimum
  exclusiveMaximum := h.bounds.exclusiveMaximum
  multipleOf := h.bounds.multipleOf
  enum vs hvs := isIn_of_jsonEqual (h.enum vs hvs)

/-- Where the enumerated values are integers as well, it describes no others. -/
theorem describes_iff_admits {f : NumberFields} (hf : f.IsExact) {n : Int} :
    f.Describes (.int n) ↔ f.Admits (.int n) := by
  refine ⟨admits_of_describes, fun h => ⟨?_, fun vs hvs => (isIn_int_iff (hf.enum vs hvs)).mp (h.enum vs hvs)⟩⟩
  exact ⟨h.minimum, h.maximum, h.exclusiveMinimum, h.exclusiveMaximum, h.multipleOf, by simp⟩

/-- The document of a number or integer node asks of an instance without a fraction for an integer that it
describes. -/
theorem means_numberDoc {f : NumberFields} (hf : f.HasExactBounds)
    (hstep : ∀ step, f.multipleOf = some step → step.isGreater (.int 0) = .ok true) {name : String}
    (hname : name = "number" ∨ name = "integer") (declared : List Value) {v : Value}
    (hv : ∀ x, v ≠ .float x) :
    (numberDoc name f).Means declared v
      ["enum", "multipleOf", "exclusiveMaximum", "exclusiveMinimum", "maximum", "minimum", "type"]
      (v.IsInteger ∧ f.Describes v) := by
  have h := (means_typeDoc declared v name)
    |>.setSome "minimum" (by decide) (dataOf f.minimum)
    |>.setSome "maximum" (by decide) (dataOf f.maximum)
    |>.setSome "exclusiveMinimum" (by decide) (dataOf f.exclusiveMinimum)
    |>.setSome "exclusiveMaximum" (by decide) (dataOf f.exclusiveMaximum)
    |>.setSome "multipleOf" (by decide) (dataOf f.multipleOf)
    |>.setSome "enum" (by decide) (enumOf f.enum)
  refine h.congr ?_
  simp only [forall_dataOf, forall_enumOf]
  cases v with
  | int n =>
      -- keyword by keyword, for every bound of the node is an integer
      have hmin : (∀ b, f.minimum = some b →
          holds declared (.str "minimum") (Doc.data b).toValue (.int n) = true) ↔
            ∀ b, f.minimum = some b → (Value.int n).isLess b = .ok false :=
        forall_integer_iff hf.minimum fun k _ => holds_minimum_iff
      have hmax : (∀ b, f.maximum = some b →
          holds declared (.str "maximum") (Doc.data b).toValue (.int n) = true) ↔
            ∀ b, f.maximum = some b → (Value.int n).isGreater b = .ok false :=
        forall_integer_iff hf.maximum fun k _ => holds_maximum_iff
      have hexmin : (∀ b, f.exclusiveMinimum = some b →
          holds declared (.str "exclusiveMinimum") (Doc.data b).toValue (.int n) = true) ↔
            ∀ b, f.exclusiveMinimum = some b → (Value.int n).isAtMost b = .ok false :=
        forall_integer_iff hf.exclusiveMinimum fun k _ => holds_exclusiveMinimum_iff
      have hexmax : (∀ b, f.exclusiveMaximum = some b →
          holds declared (.str "exclusiveMaximum") (Doc.data b).toValue (.int n) = true) ↔
            ∀ b, f.exclusiveMaximum = some b → (Value.int n).isAtLeast b = .ok false :=
        forall_integer_iff hf.exclusiveMaximum fun k _ => holds_exclusiveMaximum_iff
      have hmultiple : (∀ step, f.multipleOf = some step →
          holds declared (.str "multipleOf") (Doc.data step).toValue (.int n) = true) ↔
            ∀ step, f.multipleOf = some step → Validator.isMultiple (.int n) step = .ok true :=
        forall_integer_iff hf.multipleOf fun k hk => holds_multipleOf_iff (hstep _ hk)
      have henum : (∀ vs, f.enum = some vs →
          holds declared (.str "enum") (Doc.data (.list vs)).toValue (.int n) = true) ↔
            ∀ vs, f.enum = some vs → ∃ w ∈ vs, (Value.int n).jsonEqual w = true :=
        forall₂_congr fun vs _ => holds_enum_iff
      have htype : hasType name (.int n) = true := by
        rcases hname with rfl | rfl
        · rfl
        · rfl
      rw [hmin, hmax, hexmin, hexmax, hmultiple, henum]
      constructor
      · rintro ⟨⟨⟨⟨⟨⟨-, h1⟩, h2⟩, h3⟩, h4⟩, h5⟩, h6⟩
        exact ⟨⟨n, rfl⟩, ⟨h1, h2, h3, h4, h5, by simp⟩, h6⟩
      · rintro ⟨-, ⟨h1, h2, h3, h4, h5, -⟩, h6⟩
        exact ⟨⟨⟨⟨⟨⟨htype, h1⟩, h2⟩, h3⟩, h4⟩, h5⟩, h6⟩
  | float x => exact absurd rfl (hv x)
  | _ =>
      rcases hname with rfl | rfl <;> simp [hasType, Value.IsInteger]

/-! ### Arrays -/

section Arrays

variable {declared : List Value} {xs : List Value}

theorem holds_minItems_iff {w : Value} : holds declared (.str "minItems") w (.list xs) = true ↔
    ∃ n : Nat, w = .int n ∧ n ≤ xs.length := by
  show (count? w).any (· ≤ xs.length) = true ↔ _
  simp only [count_any_iff, decide_eq_true_eq]

theorem holds_maxItems_iff {w : Value} : holds declared (.str "maxItems") w (.list xs) = true ↔
    ∃ n : Nat, w = .int n ∧ xs.length ≤ n := by
  show (count? w).any (xs.length ≤ ·) = true ↔ _
  simp only [count_any_iff, decide_eq_true_eq]

theorem holds_uniqueItems_iff : holds declared (.str "uniqueItems") (.bool true) (.list xs) = true ↔
    xs.Pairwise fun x y => x.jsonEqual y = false :=
  allDiffer_iff

/-- Among exact items the comparison of keys finds out which are equal as JSON. -/
theorem describes_items_iff_admits {f : ArrayFields} (hxs : ∀ x ∈ xs, x.IsExactJson) :
    f.Describes xs ↔ f.Admits xs := by
  constructor
  · intro h
    exact ⟨h.minItems, h.maxItems, fun hunique => (nodup_uniqueKeys_iff hxs).mpr (h.uniqueItems hunique)⟩
  · intro h
    exact ⟨h.minItems, h.maxItems, fun hunique => (nodup_uniqueKeys_iff hxs).mp (h.uniqueItems hunique)⟩

theorem holds_items_iff {d : Value} :
    holds declared (.str "items") d (.list xs) = true ↔ ∀ x ∈ xs, valid d x = true :=
  List.all_eq_true

end Arrays

/-- The document of an array node asks for an array that it describes, whose items are valid. -/
theorem means_arrayDoc (f : ArrayFields) (items : Doc) (declared : List Value) (v : Value) :
    (arrayDoc f items).Means declared v ["uniqueItems", "maxItems", "minItems", "items", "type"]
      (∃ xs, v = .list xs ∧ f.Describes xs ∧ ∀ x ∈ xs, valid items.toValue x = true) := by
  have h := (means_typeDoc declared v "array")
    |>.set "items" (by decide) items
    |>.setSome "minItems" (by decide) (dataOf f.minItems)
    |>.setSome "maxItems" (by decide) (dataOf f.maxItems)
    |>.setIf "uniqueItems" (by decide) f.uniqueItems (.data (.bool true))
  refine h.congr ?_
  simp only [forall_dataOf]
  cases v with
  | list xs =>
      have hunique : holds declared (.str "uniqueItems") (Doc.data (.bool true)).toValue (.list xs) = true ↔
          xs.Pairwise fun x y => x.jsonEqual y = false :=
        holds_uniqueItems_iff
      rw [hunique]
      constructor
      · rintro ⟨⟨⟨⟨-, hitems⟩, hmin⟩, hmax⟩, hdiffer⟩
        exact ⟨xs, rfl, {
          minItems := fun w hw => holds_minItems_iff.mp (hmin w hw)
          maxItems := fun w hw => holds_maxItems_iff.mp (hmax w hw)
          uniqueItems := hdiffer }, holds_items_iff.mp hitems⟩
      · rintro ⟨_, ⟨⟩, hdescribes, hitems⟩
        exact ⟨⟨⟨⟨rfl, holds_items_iff.mpr hitems⟩,
          fun w hw => holds_minItems_iff.mpr (hdescribes.minItems w hw)⟩,
          fun w hw => holds_maxItems_iff.mpr (hdescribes.maxItems w hw)⟩, hdescribes.uniqueItems⟩
  | _ => simp [hasType]

/-! ### Objects -/

section Objects

variable {declared : List Value} {entries : List (Value × Value)}

theorem holds_properties_iff {docs : List (Value × Doc)} :
    holds declared (.str "properties") (Doc.object docs).toValue (.dict entries) = true ↔
      ∀ d ∈ docs, ∀ w, Value.lookup? d.1 entries = some w → valid d.2.toValue w = true := by
  show validProperties (.dict (membersToValues docs)) (.dict entries) = true ↔ _
  rw [validProperties_dict, membersToValues_eq, List.all_eq_true, List.forall_mem_map]
  simp only [Option.all_eq_true]

theorem holds_required_iff {keys : List Value} :
    holds declared (.str "required") (.list keys) (.dict entries) = true ↔
      ∀ key ∈ keys, Value.hasKey key entries = true :=
  List.all_eq_true

theorem holds_additionalProperties : holds declared (.str "additionalProperties") (.bool true)
    (.dict entries) = true :=
  List.all_eq_true.mpr fun _ _ => Bool.or_true _

end Objects

/-- The document of an object node asks for an object with the required keys, whose declared properties are
valid. Additional properties are admitted in any case. -/
theorem means_objectDoc (f : ObjectFields) (ps : List (Value × Schema)) (docs : List (Value × Doc))
    (declared : List Value) (v : Value) :
    (objectDoc f ps docs).Means declared v ["additionalProperties", "required", "properties", "type"]
      (∃ entries, v = .dict entries ∧
        (∀ d ∈ docs, ∀ w, Value.lookup? d.1 entries = some w → valid d.2.toValue w = true) ∧
        ∀ key ∈ documentedRequired f ps, Value.hasKey key entries = true) := by
  have h := (means_typeDoc declared v "object")
    |>.set "properties" (by decide) (.object docs)
    |>.setUnless "required" (by decide) (documentedRequired f ps).isEmpty
      (.data (.list (documentedRequired f ps)))
    |>.setIf "additionalProperties" (by decide) f.additional (.data (.bool true))
  refine h.congr ?_
  cases v with
  | dict entries =>
      have hrequired : (((documentedRequired f ps).isEmpty = false →
          holds declared (.str "required") (Doc.data (.list (documentedRequired f ps))).toValue
            (.dict entries) = true) ↔
          ∀ key ∈ documentedRequired f ps, Value.hasKey key entries = true) := by
        rw [Doc.toValue, holds_required_iff]
        -- without required keys the keyword is left out, and asks for nothing
        cases documentedRequired f ps <;> simp
      rw [hrequired, holds_properties_iff]
      constructor
      · rintro ⟨⟨⟨-, hproperties⟩, hkeys⟩, -⟩
        exact ⟨entries, rfl, hproperties, hkeys⟩
      · rintro ⟨_, ⟨⟩, hproperties, hkeys⟩
        exact ⟨⟨⟨rfl, hproperties⟩, hkeys⟩, fun _ => holds_additionalProperties⟩
  | _ => simp [hasType]

/-! ### Null -/

/-- The document of a nullable node asks for null or what the document inside asks for. -/
theorem means_nullableDoc (inner : Doc) (declared : List Value) (v : Value) :
    (Doc.record [("anyOf", .array [inner, typeDoc "null"])]).Means declared v ["anyOf"]
      (v = .null ∨ valid inner.toValue v = true) := by
  have hnull : valid (typeDoc "null").toValue v = true ↔ v = .null := by
    rw [(means_typeDoc _ v "null").valid_iff]
    cases v <;> simp [hasType]
  refine (means_record declared v "anyOf" _).congr ?_
  show validAny (.list [inner.toValue, (typeDoc "null").toValue]) v = true ↔ _
  rw [validAny_list, List.any_eq_true]
  simp only [List.mem_cons, List.not_mem_nil, or_false, exists_eq_or_imp, exists_eq_left, hnull]
  exact or_comm

/-- The document of a truth value node asks for a truth value. -/
theorem means_booleanDoc (declared : List Value) (v : Value) :
    (typeDoc "boolean").Means declared v ["type"] (∃ b, v = .bool b) := by
  refine (means_typeDoc declared v "boolean").congr ?_
  cases v <;> simp [hasType]

end Schema

end ApiContract
