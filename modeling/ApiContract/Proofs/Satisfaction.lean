import ApiContract.Proofs.Compilation
import ApiContract.Proofs.Entries
import ApiContract.Proofs.Induction
import ApiContract.Proofs.Trace

/-!
# What it means to satisfy a schema

`Schema.Satisfies` says by recursion on a schema which values it describes, without records, paths or the
order in which things are looked at. The validator of a schema accepts exactly these values:

    isClean_run_iff : (validator.run v path).isClean ↔ s.Satisfies v

so that listing all violations, asking whether there is one, and satisfying the schema come to the same
(`check_iff_errors_iff_satisfies`).
-/

namespace ApiContract

/-! ### Constraints -/

/-- A text meets every declared length, pattern, format and enumeration. -/
structure StringFields.Admits (f : StringFields) (s : String) : Prop where
  minLength : ∀ v, f.minLength = some v → ∃ n : Nat, v = .int n ∧ n ≤ s.length
  maxLength : ∀ v, f.maxLength = some v → ∃ n : Nat, v = .int n ∧ s.length ≤ n
  pattern : ∀ source, f.pattern = some source →
    ∃ regex, Regex.parse source = .ok regex ∧ regex.search s = true
  format : ∀ name, f.format = some name → ∃ form : Format, form.name = name ∧ form.accepts s = true
  enum : ∀ vs, f.enum = some vs → (Value.str s).isIn vs = true

/-- A number meets every declared bound, step and enumeration. A bound is met by a number that is
comparable with it and does not lie beyond it. -/
structure NumberFields.Admits (f : NumberFields) (v : Value) : Prop where
  minimum : ∀ b, f.minimum = some b → v.isLess b = .ok false
  maximum : ∀ b, f.maximum = some b → v.isGreater b = .ok false
  exclusiveMinimum : ∀ b, f.exclusiveMinimum = some b → v.isAtMost b = .ok false
  exclusiveMaximum : ∀ b, f.exclusiveMaximum = some b → v.isAtLeast b = .ok false
  multipleOf : ∀ step, f.multipleOf = some step → Validator.isMultiple v step = .ok true
  enum : ∀ vs, f.enum = some vs → v.isIn vs = true

/-- The items of an array meet its bounds, and if they have to be unique their keys are pairwise
different. -/
structure ArrayFields.Admits (f : ArrayFields) (xs : List Value) : Prop where
  minItems : ∀ v, f.minItems = some v → ∃ n : Nat, v = .int n ∧ n ≤ xs.length
  maxItems : ∀ v, f.maxItems = some v → ∃ n : Nat, v = .int n ∧ xs.length ≤ n
  uniqueItems : f.uniqueItems = true → ∃ keys, xs.mapM Validator.uniqueKey = .ok keys ∧ keys.Nodup

/-- The condition is a predicate that holds for a value. -/
def Condition.Holds : Condition → Value → Prop
  | .predicate p, v => p.holds v = .ok true
  | .value _, _ => False

/-- A value is an integer of its own right. -/
def Value.IsInteger (v : Value) : Prop := ∃ n, v = .int n

/-- A value is an integer of its own right or a finite floating-point number. -/
def Value.IsFiniteNumber (v : Value) : Prop := v.IsInteger ∨ ∃ x : Binary64, v = .float x ∧ x.isFinite = true

namespace Schema

mutual
/-- A value is as a schema describes it. -/
def Satisfies : Schema → Value → Prop
  | .string _ f, v => ∃ s, v = .str s ∧ f.Admits s
  | .number _ f, v => v.IsFiniteNumber ∧ f.Admits v
  | .integer _ f, v => v.IsInteger ∧ f.Admits v
  | .boolean _, v => ∃ b, v = .bool b
  | .array _ f items, v => ∃ xs, v.items? = some xs ∧ f.Admits xs ∧ ∀ x ∈ xs, items.Satisfies x
  | .object _ f ps, v => ∃ entries, v = .dict entries ∧
      (∀ key ∈ requiredKeys f ps, Value.hasKey key entries = true) ∧
      SatisfiesProperties ps entries ∧
      (f.additional = false → ∀ e ∈ entries, ∃ p ∈ ps, e.1.same p.1 = true)
  | .nullable _ inner, v => v = .null ∨ inner.Satisfies v
  | .refined _ r base, v => base.Satisfies v ∧ r.condition.Holds v
  | .bare _, _ => False
  | .foreign _, _ => False
termination_by structural s => s

/-- Each declared key that is present has a value as its schema describes it. -/
def SatisfiesProperties : List (Value × Schema) → List (Value × Value) → Prop
  | [], _ => True
  | (key, s) :: rest, entries =>
    (∀ v, Value.lookup? key entries = some v → s.Satisfies v) ∧ SatisfiesProperties rest entries
termination_by structural ps => ps
end

theorem satisfiesProperties_iff {ps : List (Value × Schema)} {entries : List (Value × Value)} :
    SatisfiesProperties ps entries ↔
      ∀ p ∈ ps, ∀ v, Value.lookup? p.1 entries = some v → p.2.Satisfies v := by
  induction ps with
  | nil => simp [SatisfiesProperties]
  | cons p ps ih =>
      obtain ⟨key, s⟩ := p
      simp [SatisfiesProperties, ih]

/-- No schema describes what is absent. -/
theorem not_satisfies_absent (s : Schema) : ¬ s.Satisfies .absent := by
  intro h
  induction s using Schema.induction with
  | string a f =>
      obtain ⟨s, ⟨⟩, -⟩ := h
  | number a f =>
      obtain ⟨⟨n, ⟨⟩⟩ | ⟨x, ⟨⟩, -⟩, -⟩ := h
  | integer a f =>
      obtain ⟨⟨n, ⟨⟩⟩, -⟩ := h
  | boolean a =>
      obtain ⟨b, ⟨⟩⟩ := h
  | array a f items ih =>
      obtain ⟨xs, ⟨⟩, -⟩ := h
  | object a f ps ih =>
      obtain ⟨entries, ⟨⟩, -⟩ := h
  | nullable a inner ih =>
      rcases h with ⟨⟨⟩⟩ | h
      exact ih h
  | refined a r base ih => exact ih h.1
  | bare a => cases h
  | foreign v => cases h

end Schema

/-! ### Clean traces of leaves -/

theorem Format.name_injective : Function.Injective Format.name := by
  intro f g h
  have hf := ofName?_name f
  rw [h, ofName?_name] at hf
  exact (Option.some.inj hf).symm

namespace Validator

open Trace Schema

theorem isClean_optional {α : Type} {rule : Option α} {trace : α → Trace} :
    (optional rule trace).isClean = true ↔ ∀ a, rule = some a → (trace a).isClean = true := by
  cases rule with
  | none => simp [optional]
  | some a => simp [optional]

/-- Speaking of the compiled count is speaking of the declared one. -/
theorem forall_count_iff {v : Option Value} {r : Option Nat} (h : v = r.map fun n => .int n)
    (P : Nat → Prop) :
    (∀ n, r = some n → P n) ↔ ∀ w, v = some w → ∃ n : Nat, w = .int n ∧ P n := by
  subst h
  cases r with
  | none => simp
  | some n =>
      simp only [Option.some.injEq, Option.map_some, forall_eq']
      constructor
      · intro hn
        exact ⟨n, rfl, hn⟩
      · rintro ⟨m, hm, hP⟩
        cases hm
        exact hP

theorem forall_pattern_iff {f : StringFields} {rule : StringRule} (h : StringCompiled f rule)
    (s : String) :
    (∀ p, rule.pattern = some p → p.regex.search s = true) ↔
      ∀ source, f.pattern = some source →
        ∃ regex, Regex.parse source = .ok regex ∧ regex.search s = true := by
  have hregex := h.regex
  rw [h.pattern]
  cases hp : rule.pattern with
  | none => simp
  | some p => simp [hregex p hp]

theorem forall_format_iff {f : StringFields} {rule : StringRule} (h : StringCompiled f rule)
    (s : String) :
    (∀ form, rule.format = some form → form.accepts s = true) ↔
      ∀ name, f.format = some name → ∃ form : Format, form.name = name ∧ form.accepts s = true := by
  rw [h.format]
  cases rule.format with
  | none => simp
  | some form =>
      simp only [Option.some.injEq, Option.map_some, forall_eq']
      constructor
      · intro hform
        exact ⟨form, rfl, hform⟩
      · rintro ⟨other, hname, hother⟩
        rwa [← Format.name_injective hname]

theorem isClean_checkString {f : StringFields} {rule : StringRule} (h : StringCompiled f rule)
    (s path : String) : (checkString rule s path).isClean = true ↔ f.Admits s := by
  have hmin := forall_count_iff h.minLength (· ≤ s.length)
  have hmax := forall_count_iff h.maxLength (s.length ≤ ·)
  simp only [checkString, isClean_concat, List.forall_mem_cons, List.not_mem_nil, false_imp_iff,
    implies_true, and_true, isClean_optional, isClean_reportIf, Bool.not_not, Bool.not_eq_true',
    decide_eq_false_iff_not, Nat.not_lt]
  rw [hmin, hmax, forall_pattern_iff h, forall_format_iff h, ← h.enum]
  constructor
  · rintro ⟨h1, h2, h3, h4, h5⟩
    exact ⟨h1, h2, h3, h4, h5⟩
  · rintro ⟨h1, h2, h3, h4, h5⟩
    exact ⟨h1, h2, h3, h4, h5⟩

theorem isClean_checkNumber (integral : Bool) (f : NumberFields) (v : Value) (path : String) :
    (checkNumber ⟨integral, f.minimum, f.maximum, f.exclusiveMinimum, f.exclusiveMaximum,
      f.multipleOf, f.enum⟩ v path).isClean = true ↔ f.Admits v := by
  have hstep : ∀ step, (isMultiple v step).map (!·) = .ok false ↔ isMultiple v step = .ok true := by
    intro step
    rw [map_eq_ok_iff]
    simp
  simp only [checkNumber, isClean_concat, List.forall_mem_cons, List.not_mem_nil, false_imp_iff,
    implies_true, and_true, isClean_optional, isClean_reportIf, isClean_reportWhen, hstep,
    Bool.not_not]
  constructor
  · rintro ⟨h1, h2, h3, h4, h5, h6⟩
    exact ⟨h1, h2, h3, h4, h5, h6⟩
  · rintro ⟨h1, h2, h3, h4, h5, h6⟩
    exact ⟨h1, h2, h3, h4, h5, h6⟩

/-- Items have no duplicate exactly if their keys can be formed and are pairwise different. -/
theorem hasDuplicate_eq_false_iff (xs : List Value) :
    hasDuplicate xs = .ok false ↔ ∃ keys, xs.mapM uniqueKey = .ok keys ∧ keys.Nodup := by
  rw [hasDuplicate, bind_eq_ok_iff]
  refine exists_congr fun keys => and_congr_right fun _ => ?_
  rw [← length_eraseDups_eq_iff]
  simp [pure, Except.pure]

theorem isClean_checkItems {f : ArrayFields} {rule : ArrayRule} (h : ArrayCompiled f rule)
    (xs : List Value) (path : String) : (checkItems rule xs path).isClean = true ↔ f.Admits xs := by
  have hmin := forall_count_iff h.minItems (· ≤ xs.length)
  have hmax := forall_count_iff h.maxItems (xs.length ≤ ·)
  have hunique : (if rule.uniqueItems then reportWhen (hasDuplicate xs) path .itemsNotUnique
      else empty).isClean = true ↔
        (f.uniqueItems = true → ∃ keys, xs.mapM uniqueKey = .ok keys ∧ keys.Nodup) := by
    rw [h.uniqueItems]
    split
    · rename_i hu
      rw [isClean_reportWhen, hasDuplicate_eq_false_iff]
      simp [hu]
    · rename_i hu
      simp [hu]
  simp only [checkItems, isClean_concat, List.forall_mem_cons, List.not_mem_nil, false_imp_iff,
    implies_true, and_true, isClean_optional, isClean_reportIf, Bool.not_eq_true',
    decide_eq_false_iff_not, Nat.not_lt, hunique]
  rw [hmin, hmax]
  constructor
  · rintro ⟨h1, h2, h3⟩
    exact ⟨h1, h2, h3⟩
  · rintro ⟨h1, h2, h3⟩
    exact ⟨h1, h2, h3⟩

theorem isClean_checkPredicate (p : Predicate) (message : String) (v : Value) (path : String) :
    (checkPredicate p message v path).isClean = true ↔ p.holds v = .ok true := by
  unfold checkPredicate
  split
  · rename_i h
    simp [h, isClean, records]
  · rename_i h
    simp [h]
  · rename_i f h
    simp [h, isClean]

/-! ### Clean traces of objects -/

theorem isClean_runProperties {rule : ObjectRule} {children : List (String × Validator)}
    {entries : List (Value × Value)} {path : String} :
    (runProperties rule children entries path).isClean = true ↔
      ∀ c ∈ children,
        (∀ v, Value.lookup? (.str c.1) entries = some v →
          (c.2.run v (joinPath path c.1)).isClean = true) ∧
        (c.1 ∈ rule.required → Value.hasKey (.str c.1) entries = true) := by
  induction children with
  | nil => simp [runProperties]
  | cons c children ih =>
      obtain ⟨name, child⟩ := c
      rw [runProperties, isClean_append, Bool.and_eq_true, ih, List.forall_mem_cons]
      refine and_congr_left fun _ => ?_
      -- a property is looked into if it is there, and missed if it is required and is not
      cases h : Value.lookup? (.str name) entries with
      | none =>
          have hkey := Value.lookup?_eq_none_iff.mp h
          simp [hkey]
      | some v =>
          have hkey : Value.hasKey (.str name) entries = true := by
            rw [← Value.lookup?_isSome, h, Option.isSome_some]
          simp [hkey]

theorem isClean_checkUndeclared {names : List String} {entries : List (Value × Value)}
    {path : String} :
    (checkUndeclared names entries path).isClean = true ↔
      ∀ e ∈ entries, ∃ name ∈ names, e.1 = .str name := by
  rw [checkUndeclared, isClean_concat, List.forall_mem_map]
  refine forall₂_congr fun e _ => ?_
  obtain ⟨key, v⟩ := e
  constructor
  · intro h
    cases key with
    | str s =>
        dsimp only at h
        split at h
        · rename_i hdeclared
          exact ⟨s, by simpa using hdeclared, rfl⟩
        · split at h <;> simp at h
    | _ =>
        -- a key that is no text is declared nowhere
        simp only [Bool.false_eq_true, if_false] at h
        split at h <;> simp at h
  · rintro ⟨name, hname, rfl⟩
    simp [hname]

/-! ### Numbers -/

theorem isNumeric_true_iff {v : Value} : isNumeric true v = true ↔ v.IsInteger := by
  cases v <;> simp [isNumeric, Value.IsInteger]

theorem isNumeric_false_iff {v : Value} : isNumeric false v = true ↔ v.IsFiniteNumber := by
  cases v <;> simp [isNumeric, Value.IsFiniteNumber, Value.IsInteger]

end Validator

/-! ### The validator of a schema -/

namespace Schema

open Validator

/-- No entry is reported as undeclared exactly if the object is open or declares every key. -/
theorem isClean_undeclared_iff {additional : Bool} {ps : List (Value × Schema)} {path : String}
    {children : List (String × Validator)} (hc : List.Forall₂ (PropertyCompiled path) ps children)
    (entries : List (Value × Value)) (at' : String) :
    (if additional then Trace.empty
      else checkUndeclared (children.map (·.1)) entries at').isClean = true ↔
      (additional = false → ∀ e ∈ entries, ∃ p ∈ ps, e.1.same p.1 = true) := by
  cases additional with
  | true => simp
  | false =>
      simp only [Bool.false_eq_true, if_false, isClean_checkUndeclared, true_imp_iff]
      refine forall₂_congr fun e _ => ?_
      constructor
      · rintro ⟨name, hname, he⟩
        obtain ⟨c, hmem, rfl⟩ := List.mem_map.mp hname
        obtain ⟨p, hp, hkey, -⟩ := exists_left_of_forall₂ hc hmem
        exact ⟨p, hp, by rw [hkey, Value.same_str_right, he]⟩
      · rintro ⟨p, hp, hsame⟩
        obtain ⟨c, hmem, hkey, -⟩ := exists_right_of_forall₂ hc hp
        rw [hkey, Value.same_str_right] at hsame
        exact ⟨c.1, List.mem_map_of_mem hmem, hsame⟩

/-- Nothing is reported for the declared properties exactly if the required ones are there and those
that are there satisfy their schemas. -/
theorem isClean_properties_iff {f : ObjectFields} {ps : List (Value × Schema)} {path : String}
    {children : List (String × Validator)} (hc : List.Forall₂ (PropertyCompiled path) ps children)
    (ih : ∀ p ∈ ps, ∀ {path : String} {validator : Validator}, p.2.compileAt path = .ok validator →
      ∀ (v : Value) (at' : String), (validator.run v at').isClean = true ↔ p.2.Satisfies v)
    (entries : List (Value × Value)) (at' : String) :
    (runProperties ⟨textKeys (requiredKeys f ps), f.additional⟩ children entries at').isClean = true ↔
      (∀ key ∈ requiredKeys f ps, Value.hasKey key entries = true) ∧
        SatisfiesProperties ps entries := by
  rw [isClean_runProperties, satisfiesProperties_iff]
  constructor
  · intro h
    constructor
    · intro key hkey
      obtain ⟨p, hp, rfl⟩ := List.mem_map.mp (requiredKeys_subset f ps hkey)
      obtain ⟨c, hmem, hname, -⟩ := exists_right_of_forall₂ hc hp
      rw [hname] at hkey ⊢
      exact (h c hmem).2 (mem_textKeys.mpr hkey)
    · intro p hp v hv
      obtain ⟨c, hmem, hname, hcompiled⟩ := exists_right_of_forall₂ hc hp
      rw [hname] at hv
      exact (ih p hp hcompiled v _).mp ((h c hmem).1 v hv)
  · rintro ⟨hrequired, hsat⟩ c hmem
    obtain ⟨p, hp, hname, hcompiled⟩ := exists_left_of_forall₂ hc hmem
    constructor
    · intro v hv
      rw [← hname] at hv
      exact (ih p hp hcompiled v _).mpr (hsat p hp v hv)
    · intro hreq
      exact hrequired _ (mem_textKeys.mp hreq)

/-- The validator of a schema gives a clean trace for the values that satisfy the schema, and for no
others. -/
theorem isClean_run_iff {s : Schema} {path : String} {validator : Validator}
    (h : s.compileAt path = .ok validator) (v : Value) (at' : String) :
    (validator.run v at').isClean = true ↔ s.Satisfies v := by
  -- an item or property is validated at a path of its own, so the claim is carried for all paths
  induction s using Schema.induction generalizing path validator v at' with
  | string a f =>
      obtain ⟨rule, hrule, rfl⟩ := compileAt_string h
      rw [Satisfies]
      cases v with
      | str s => simp [run, isClean_checkString hrule]
      | _ => simp [run]
  | number a f =>
      obtain rfl := compileAt_number h
      rw [Satisfies, run, ← isNumeric_false_iff, ← isClean_checkNumber false f v at']
      split
      · rename_i hv
        simp [hv]
      · rename_i hv
        simp [hv]
  | integer a f =>
      obtain rfl := compileAt_integer h
      rw [Satisfies, run, ← isNumeric_true_iff, ← isClean_checkNumber true f v at']
      split
      · rename_i hv
        simp [hv]
      · rename_i hv
        simp [hv]
  | boolean a =>
      obtain rfl := compileAt_boolean h
      rw [Satisfies]
      cases v <;> simp [run]
  | array a f items ih =>
      obtain ⟨rule, child, hrule, hchild, rfl⟩ := compileAt_array h
      rw [Satisfies, run]
      cases hv : v.items? with
      | none => simp
      | some xs =>
          simp only [Option.some.injEq, exists_eq_left', Trace.isClean_append, Bool.and_eq_true,
            isClean_checkItems hrule]
          refine and_congr_right fun _ => ?_
          rw [Trace.isClean_concat]
          -- the traces of the items stand in the order of the items
          constructor
          · intro hclean x hx
            obtain ⟨i, hi, rfl⟩ := List.mem_iff_getElem.mp hx
            exact (ih hchild _ _).mp (hclean _ (List.mem_mapIdx.mpr ⟨i, hi, rfl⟩))
          · intro hall t ht
            obtain ⟨i, hi, rfl⟩ := List.mem_mapIdx.mp ht
            exact (ih hchild _ _).mpr (hall _ (List.getElem_mem hi))
  | object a f ps ih =>
      obtain ⟨children, hchildren, rfl⟩ := compileAt_object h
      rw [Satisfies]
      cases v with
      | dict entries =>
          simp only [run, Value.dict.injEq, exists_eq_left', Trace.isClean_append, Bool.and_eq_true,
            isClean_properties_iff hchildren ih, isClean_undeclared_iff hchildren, and_assoc]
      | _ => simp [run]
  | nullable a inner ih =>
      obtain ⟨child, hchild, rfl⟩ := compileAt_nullable h
      rw [Satisfies, ← ih hchild v at']
      cases v <;> simp [run]
  | refined a r base ih =>
      obtain ⟨p, message, child, hp, -, hchild, rfl⟩ := compileAt_refined h
      rw [Satisfies, run, ← ih hchild v at', hp]
      -- the condition is asked only where the base has found nothing
      split
      · rename_i ht
        simp [ht, isClean_checkPredicate, Condition.Holds]
      · rename_i ht
        simp [ht]
  | bare a => exact absurd h compileAt_bare_ne
  | foreign w => exact absurd h compileAt_foreign_ne

/-- Asking whether a value has no violation, listing none and satisfying the schema are the same. Where
all violations can be listed, the question has an answer, and it is whether there are none. -/
theorem check_iff_errors_iff_satisfies {s : Schema} {validator : Validator}
    (h : s.compile = .ok validator) (v : Value) :
    (validator.check v = .ok true ↔ validator.errors v = .ok []) ∧
      (validator.errors v = .ok [] ↔ s.Satisfies v) ∧
      ∀ records, validator.errors v = .ok records → validator.check v = .ok records.isEmpty := by
  have hsat := isClean_run_iff h v ""
  have herrors := Trace.toExcept_eq_nil_iff (validator.trace v)
  refine ⟨?_, herrors.trans hsat, fun records => Trace.take_one_of_toExcept⟩
  exact (Trace.take_one_isEmpty_iff _).trans herrors.symm

/-- Tags, which must be there and different, and how many there are. -/
def tagged : Schema :=
  .object {} {} [
    (.str "tags", .refined {} ⟨.predicate ⟨"some", "some", .null, fun v => .ok v.truthy⟩,
        .str "must not be empty", none⟩
      (.array {} { uniqueItems := true } (.nullable {} (.string {} { maxLength := some (.int 4) })))),
    (.str "count", .integer {} { minimum := some (.int 0) })]

/-- The validator of tags. -/
def taggedValidator : Validator :=
  .object ⟨["tags", "count"], false⟩ [
    ("tags", .refined ⟨"some", "some", .null, fun v => .ok v.truthy⟩ "must not be empty"
      (.array ⟨none, none, true⟩ (.nullable (.string ⟨none, some 4, none, none, none⟩)))),
    ("count", .number ⟨true, some (.int 0), none, none, none, none, none⟩)]

/-- A text that reads `null` and null itself are different tags. -/
theorem satisfies_tagged :
    tagged.compile = .ok taggedValidator ∧
      taggedValidator.check (.record [("count", .int 2), ("tags", .list [.str "null", .null])]) =
        .ok true ∧
      tagged.Satisfies (.record [("count", .int 2), ("tags", .list [.str "null", .null])]) := by
  have hcompile : tagged.compile = .ok taggedValidator := rfl
  obtain ⟨hcheck, hsat, -⟩ := check_iff_errors_iff_satisfies hcompile
    (.record [("count", .int 2), ("tags", .list [.str "null", .null])])
  have htrue : taggedValidator.check
      (.record [("count", .int 2), ("tags", .list [.str "null", .null])]) = .ok true := by
    decide +kernel
  exact ⟨hcompile, htrue, hsat.mp (hcheck.mp htrue)⟩

end Schema

end ApiContract
