import ApiContract.Proofs.ListLemmas
import ApiContract.Validation.Compile

/-!
# What compilation finds out

If a schema compiles, its declared fields have the form that its rule says: counts are naturals, the
format is known, the pattern is a regular expression, property names are texts. Each lemma reads this off
one step of the compilation, so that later proofs never unfold it.
-/

namespace ApiContract.Schema

/-! ### Fields -/

/-- A count that compiles is the natural that it declares. -/
theorem compileCount_eq_ok {v : Option Value} {label path : String} {r : Option Nat}
    (h : compileCount v label path = .ok r) : v = r.map fun n => .int n := by
  unfold compileCount at h
  split at h
  · cases h
    rfl
  · cases h
    rfl
  · -- anything else that is declared as a count ends in a fault
    obtain ⟨_, _, h⟩ := bind_eq_ok_iff.mp h
    cases h

/-- A format that compiles has the declared name. -/
theorem compileFormat_eq_ok {name : Option String} {path : String} {r : Option Format}
    (h : compileFormat name path = .ok r) : name = r.map Format.name := by
  unfold compileFormat at h
  split at h
  · cases h
    rfl
  · split at h
    · rename_i n f hf
      cases h
      have hname := List.find?_some hf
      simp only [beq_iff_eq] at hname
      simp [hname]
    · cases h

/-- A pattern that compiles has the declared source, and its expression is what the source says. -/
theorem compilePattern_eq_ok {source : Option String} {path : String} {r : Option CompiledPattern}
    (h : compilePattern source path = .ok r) :
    source = r.map CompiledPattern.source ∧ ∀ p ∈ r, Regex.parse p.source = .ok p.regex := by
  unfold compilePattern at h
  split at h
  · cases h
    simp
  · split at h
    · rename_i s regex hs
      cases h
      simpa using hs
    all_goals cases h

/-- The fields of a text node as its rule has them. -/
structure StringCompiled (f : StringFields) (rule : StringRule) : Prop where
  minLength : f.minLength = rule.minLength.map fun n => .int n
  maxLength : f.maxLength = rule.maxLength.map fun n => .int n
  format : f.format = rule.format.map Format.name
  pattern : f.pattern = rule.pattern.map CompiledPattern.source
  regex : ∀ p ∈ rule.pattern, Regex.parse p.source = .ok p.regex
  enum : f.enum = rule.enum

theorem compileString_eq_ok {f : StringFields} {path : String} {rule : StringRule}
    (h : compileString f path = .ok rule) : StringCompiled f rule := by
  unfold compileString at h
  obtain ⟨minLength, hmin, h⟩ := bind_eq_ok_iff.mp h
  obtain ⟨maxLength, hmax, h⟩ := bind_eq_ok_iff.mp h
  obtain ⟨_, _, h⟩ := bind_eq_ok_iff.mp h
  obtain ⟨format, hformat, h⟩ := bind_eq_ok_iff.mp h
  obtain ⟨pattern, hpattern, h⟩ := bind_eq_ok_iff.mp h
  cases h
  obtain ⟨hsource, hregex⟩ := compilePattern_eq_ok hpattern
  exact ⟨compileCount_eq_ok hmin, compileCount_eq_ok hmax, compileFormat_eq_ok hformat, hsource, hregex,
    rfl⟩

/-- The rule of a number node has its fields as they are declared. -/
theorem compileNumber_eq_ok {integral : Bool} {f : NumberFields} {path : String} {rule : NumberRule}
    (h : compileNumber integral f path = .ok rule) :
    rule = ⟨integral, f.minimum, f.maximum, f.exclusiveMinimum, f.exclusiveMaximum, f.multipleOf,
      f.enum⟩ := by
  unfold compileNumber at h
  obtain ⟨_, _, h⟩ := bind_eq_ok_iff.mp h
  obtain ⟨_, _, h⟩ := bind_eq_ok_iff.mp h
  cases h
  rfl

/-- A step that compiles is above zero. -/
theorem checkStep_eq_ok {step : Option Value} {path : String} (h : checkStep step path = .ok ()) :
    ∀ v, step = some v → v.isGreater (.int 0) = .ok true := by
  rintro v rfl
  rw [checkStep] at h
  split at h
  · obtain ⟨positive, hpositive, h⟩ := bind_eq_ok_iff.mp h
    cases positive with
    | true => exact hpositive
    | false =>
        obtain ⟨_, _, h⟩ := bind_eq_ok_iff.mp h
        cases h
  · obtain ⟨_, hpositive, h⟩ := bind_eq_ok_iff.mp h
    cases hpositive
    obtain ⟨_, _, h⟩ := bind_eq_ok_iff.mp h
    cases h

theorem isGreater_zero_of_compileNumber {integral : Bool} {f : NumberFields} {path : String}
    {rule : NumberRule} (h : compileNumber integral f path = .ok rule) :
    ∀ step, f.multipleOf = some step → step.isGreater (.int 0) = .ok true := by
  unfold compileNumber at h
  obtain ⟨_, _, h⟩ := bind_eq_ok_iff.mp h
  obtain ⟨_, hstep, _⟩ := bind_eq_ok_iff.mp h
  exact checkStep_eq_ok hstep

/-- The fields of an array node as its rule has them. -/
structure ArrayCompiled (f : ArrayFields) (rule : ArrayRule) : Prop where
  minItems : f.minItems = rule.minItems.map fun n => .int n
  maxItems : f.maxItems = rule.maxItems.map fun n => .int n
  uniqueItems : f.uniqueItems = rule.uniqueItems

theorem compileArray_eq_ok {f : ArrayFields} {path : String} {rule : ArrayRule}
    (h : compileArray f path = .ok rule) : ArrayCompiled f rule := by
  unfold compileArray at h
  obtain ⟨minItems, hmin, h⟩ := bind_eq_ok_iff.mp h
  obtain ⟨maxItems, hmax, h⟩ := bind_eq_ok_iff.mp h
  obtain ⟨_, _, h⟩ := bind_eq_ok_iff.mp h
  cases h
  exact ⟨compileCount_eq_ok hmin, compileCount_eq_ok hmax, rfl⟩

/-- Where the names of properties are found right, each is a text. -/
theorem checkNames_eq_ok {ps : List (Value × Schema)} {path : String}
    (h : checkNames ps path = .ok ()) : ∀ p ∈ ps, ∃ s, p.1 = .str s := by
  unfold checkNames at h
  split at h
  · rename_i hfind
    intro p hp
    have htext := List.find?_eq_none.mp hfind p hp
    obtain ⟨k, s⟩ := p
    cases k with
    | str name => exact ⟨name, rfl⟩
    | _ => simp at htext
  · obtain ⟨_, _, h⟩ := bind_eq_ok_iff.mp h
    cases h

/-- Where the required keys are found right, each is declared. -/
theorem checkRequired_eq_ok {f : ObjectFields} {ps : List (Value × Schema)} {path : String}
    (h : checkRequired f ps path = .ok ()) :
    ∀ keys, f.required = some keys → ∀ key ∈ keys, ∃ p ∈ ps, key.same p.1 = true := by
  rintro keys hkeys key hkey
  unfold checkRequired at h
  rw [hkeys] at h
  dsimp only at h
  split at h
  · obtain ⟨_, _, h⟩ := bind_eq_ok_iff.mp h
    cases h
  · rename_i hunknown
    rw [Bool.not_eq_true, Bool.not_eq_false', List.isEmpty_iff, List.filter_eq_nil_iff] at hunknown
    exact List.any_eq_true.mp (by simpa using hunknown key hkey)

theorem mem_textKeys {keys : List Value} {s : String} : s ∈ textKeys keys ↔ .str s ∈ keys := by
  simp only [textKeys, List.mem_filterMap]
  constructor
  · rintro ⟨v, hv, h⟩
    split at h <;> cases h
    exact hv
  · intro h
    exact ⟨_, h, rfl⟩

/-! ### Nodes -/

theorem compileAt_string {a : Annotations} {f : StringFields} {path : String} {v : Validator}
    (h : (Schema.string a f).compileAt path = .ok v) :
    ∃ rule, StringCompiled f rule ∧ v = .string rule := by
  obtain ⟨rule, hrule, h⟩ := bind_eq_ok_iff.mp h
  cases h
  exact ⟨rule, compileString_eq_ok hrule, rfl⟩

theorem compileAt_number {a : Annotations} {f : NumberFields} {path : String} {v : Validator}
    (h : (Schema.number a f).compileAt path = .ok v) :
    v = .number ⟨false, f.minimum, f.maximum, f.exclusiveMinimum, f.exclusiveMaximum, f.multipleOf,
      f.enum⟩ := by
  obtain ⟨rule, hrule, h⟩ := bind_eq_ok_iff.mp h
  cases h
  rw [compileNumber_eq_ok hrule]

theorem compileAt_integer {a : Annotations} {f : NumberFields} {path : String} {v : Validator}
    (h : (Schema.integer a f).compileAt path = .ok v) :
    v = .number ⟨true, f.minimum, f.maximum, f.exclusiveMinimum, f.exclusiveMaximum, f.multipleOf,
      f.enum⟩ := by
  obtain ⟨rule, hrule, h⟩ := bind_eq_ok_iff.mp h
  cases h
  rw [compileNumber_eq_ok hrule]

/-- The step of a number or integer node that compiles is above zero. -/
theorem isGreater_zero_of_compileAt {s : Schema} {a : Annotations} {f : NumberFields} {path : String}
    {v : Validator} (h : s.compileAt path = .ok v) (hs : s = .number a f ∨ s = .integer a f) :
    ∀ step, f.multipleOf = some step → step.isGreater (.int 0) = .ok true := by
  rcases hs with rfl | rfl
  · obtain ⟨rule, hrule, -⟩ := bind_eq_ok_iff.mp h
    exact isGreater_zero_of_compileNumber hrule
  · obtain ⟨rule, hrule, -⟩ := bind_eq_ok_iff.mp h
    exact isGreater_zero_of_compileNumber hrule

theorem compileAt_boolean {a : Annotations} {path : String} {v : Validator}
    (h : (Schema.boolean a).compileAt path = .ok v) : v = .boolean := by
  cases h
  rfl

theorem compileAt_array {a : Annotations} {f : ArrayFields} {items : Schema} {path : String}
    {v : Validator} (h : (Schema.array a f items).compileAt path = .ok v) :
    ∃ rule child, ArrayCompiled f rule ∧ items.compileAt (joinPath path "items") = .ok child ∧
      v = .array rule child := by
  obtain ⟨rule, hrule, h⟩ := bind_eq_ok_iff.mp h
  obtain ⟨child, hchild, h⟩ := bind_eq_ok_iff.mp h
  cases h
  exact ⟨rule, child, compileArray_eq_ok hrule, hchild, rfl⟩

/-- A property and what it compiles to under a path. -/
def PropertyCompiled (path : String) (p : Value × Schema) (c : String × Validator) : Prop :=
  p.1 = .str c.1 ∧ p.2.compileAt (joinPath path c.1) = .ok c.2

theorem compileProperties_eq_ok {path : String} {ps : List (Value × Schema)}
    {children : List (String × Validator)} (hnames : ∀ p ∈ ps, ∃ s, p.1 = .str s)
    (h : compileProperties path ps = .ok children) :
    List.Forall₂ (PropertyCompiled path) ps children := by
  induction ps generalizing children with
  | nil =>
      rw [compileProperties] at h
      cases h
      exact .nil
  | cons p ps ih =>
      obtain ⟨key, s⟩ := p
      obtain ⟨name, rfl⟩ := hnames (key, s) List.mem_cons_self
      rw [compileProperties] at h
      obtain ⟨v, hv, h⟩ := bind_eq_ok_iff.mp h
      obtain ⟨rest, hrest, h⟩ := bind_eq_ok_iff.mp h
      cases h
      exact .cons ⟨rfl, hv⟩ (ih (fun p hp => hnames p (List.mem_cons_of_mem _ hp)) hrest)

theorem compileAt_object {a : Annotations} {f : ObjectFields} {ps : List (Value × Schema)}
    {path : String} {v : Validator} (h : (Schema.object a f ps).compileAt path = .ok v) :
    ∃ children, List.Forall₂ (PropertyCompiled path) ps children ∧
      v = .object ⟨textKeys (requiredKeys f ps), f.additional⟩ children := by
  obtain ⟨_, hnames, h⟩ := bind_eq_ok_iff.mp h
  obtain ⟨_, _, h⟩ := bind_eq_ok_iff.mp h
  obtain ⟨children, hchildren, h⟩ := bind_eq_ok_iff.mp h
  cases h
  exact ⟨children, compileProperties_eq_ok (checkNames_eq_ok hnames) hchildren, rfl⟩

/-- The names of the properties of an object that compiles are texts. -/
theorem texts_of_compileAt {a : Annotations} {f : ObjectFields} {ps : List (Value × Schema)} {path : String}
    {v : Validator} (h : (Schema.object a f ps).compileAt path = .ok v) : ∀ p ∈ ps, ∃ s, p.1 = .str s := by
  obtain ⟨_, hnames, _⟩ := bind_eq_ok_iff.mp h
  exact checkNames_eq_ok hnames

/-- The required keys of an object that compiles are declared. -/
theorem declared_of_compileAt {a : Annotations} {f : ObjectFields} {ps : List (Value × Schema)} {path : String}
    {v : Validator} (h : (Schema.object a f ps).compileAt path = .ok v) :
    ∀ keys, f.required = some keys → ∀ key ∈ keys, ∃ p ∈ ps, key.same p.1 = true := by
  obtain ⟨_, _, h⟩ := bind_eq_ok_iff.mp h
  obtain ⟨_, hrequired, _⟩ := bind_eq_ok_iff.mp h
  exact checkRequired_eq_ok hrequired

theorem compileAt_nullable {a : Annotations} {inner : Schema} {path : String} {v : Validator}
    (h : (Schema.nullable a inner).compileAt path = .ok v) :
    ∃ child, inner.compileAt path = .ok child ∧ v = .nullable child := by
  obtain ⟨child, hchild, h⟩ := bind_eq_ok_iff.mp h
  cases h
  exact ⟨child, hchild, rfl⟩

theorem compileAt_refined {a : Annotations} {r : Refinement} {base : Schema} {path : String}
    {v : Validator} (h : (Schema.refined a r base).compileAt path = .ok v) :
    ∃ p message child, r.condition = .predicate p ∧ r.message = .str message ∧
      base.compileAt path = .ok child ∧ v = .refined p message child := by
  unfold compileAt at h
  dsimp only at h
  -- the checks in the order in which they are made, each of them a fault where it fails
  split_ifs at h
  · cases h
  · split at h
    · cases h
    · rename_i p hp
      split at h
      · rename_i m hm
        split_ifs at h
        · cases h
        · obtain ⟨child, hchild, h⟩ := bind_eq_ok_iff.mp h
          cases h
          exact ⟨p, m, child, hp, hm, hchild, rfl⟩
      · cases h

theorem compileAt_bare_ne {a : Annotations} {path : String} {v : Validator} :
    (Schema.bare a).compileAt path ≠ .ok v := by
  intro h
  cases h

theorem compileAt_foreign_ne {w : Value} {path : String} {v : Validator} :
    (Schema.foreign w).compileAt path ≠ .ok v := by
  intro h
  cases h

end ApiContract.Schema
