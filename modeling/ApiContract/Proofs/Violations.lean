import ApiContract.Proofs.Parts
import ApiContract.Proofs.Satisfaction
import ApiContract.Proofs.Trace

/-!
# Violations that a schema declares

What a node can report is known from its fields (`Schema.ownViolations`), and a property of traces that is
kept by joining them (`Trace.Closed`) holds of every check of the node if it holds of these reports, and of
the faults that a comparison or a predicate may end in: `Trace.Closed.checkString` and its siblings, one
for each kind of check.
-/

namespace ApiContract

/-! ### Properties of joined traces -/

namespace Trace

/-- A property of traces that is kept by joining them. -/
structure Closed (T : Trace → Prop) : Prop where
  empty : T .empty
  append : ∀ {t t' : Trace}, T t → T t' → T (t ++ t')

namespace Closed

variable {T : Trace → Prop} (hT : Closed T)

include hT

theorem concat {ts : List Trace} (h : ∀ t ∈ ts, T t) : T (Trace.concat ts) := by
  induction ts with
  | nil => exact hT.empty
  | cons t ts ih =>
      exact hT.append (h t List.mem_cons_self) (ih fun t ht => h t (List.mem_cons_of_mem _ ht))

theorem reportIf {holds : Bool} {path : String} {violation : Violation}
    (h : T (report path violation)) : T (Trace.reportIf holds path violation) := by
  unfold Trace.reportIf
  split
  · exact h
  · exact hT.empty

theorem reportWhen {holds : Except Fault Bool} {path : String} {violation : Violation}
    (h : T (report path violation)) (hfault : ∀ fault, holds = .error fault → T (failed fault)) :
    T (Trace.reportWhen holds path violation) := by
  cases holds with
  | error fault => exact hfault fault rfl
  | ok b => exact hT.reportIf h

theorem optional {α : Type} {rule : Option α} {trace : α → Trace}
    (h : ∀ a, rule = some a → T (trace a)) : T (Validator.optional rule trace) := by
  cases rule with
  | none => exact hT.empty
  | some a => exact h a rfl

end Closed

end Trace

/-! ### The violations that a schema declares -/

/-- The natural number that is declared as a count. -/
def countsOf : Option Value → List Nat
  | some (.int (.ofNat n)) => [n]
  | _ => []

def StringFields.violations (f : StringFields) : List Violation :=
  (countsOf f.minLength).map .tooShort ++ (countsOf f.maxLength).map .tooLong ++
    f.pattern.toList.map .patternMismatch ++ (f.format.bind Format.ofName?).toList.map .formatMismatch ++
    f.enum.toList.map .notEnumerated

def NumberFields.violations (f : NumberFields) : List Violation :=
  f.minimum.toList.map .belowMinimum ++ f.maximum.toList.map .aboveMaximum ++
    f.exclusiveMinimum.toList.map .notAbove ++ f.exclusiveMaximum.toList.map .notBelow ++
    f.multipleOf.toList.map .notMultiple ++ f.enum.toList.map .notEnumerated

/-- The values that a number is compared with. -/
def NumberFields.bounds (f : NumberFields) : List Value :=
  f.minimum.toList ++ f.maximum.toList ++ f.exclusiveMinimum.toList ++ f.exclusiveMaximum.toList

def ArrayFields.violations (f : ArrayFields) : List Violation :=
  (countsOf f.minItems).map .tooFewItems ++ (countsOf f.maxItems).map .tooManyItems ++ [.itemsNotUnique]

namespace Schema

/-- The violations that a node can report of a value whose type has one of the given names. -/
def ownViolations (given : List String) : Schema → List Violation
  | .string _ f => given.map (.wrongType "string") ++ f.violations
  | .number _ f => given.map (.wrongType "number") ++ f.violations
  | .integer _ f => given.map (.wrongType "integer") ++ f.violations
  | .boolean _ => given.map (.wrongType "boolean")
  | .array _ f _ => given.map (.wrongType "array") ++ f.violations
  | .object .. => given.map (.wrongType "object") ++ [.missingProperty]
  | .refined _ r _ =>
    match r.message with
    | .str m => [.refinement m]
    | _ => []
  | _ => []

def violations (given : List String) (s : Schema) : List Violation :=
  s.nodes.flatMap (ownViolations given)

theorem violations_mono {given : List String} {s s' : Schema} (h : s.nodes ⊆ s'.nodes) :
    s.violations given ⊆ s'.violations given := by
  intro violation hv
  obtain ⟨n, hn, hv⟩ := List.mem_flatMap.mp hv
  exact List.mem_flatMap.mpr ⟨n, h hn, hv⟩

theorem mem_violations_of_own {given : List String} {s : Schema} {violation : Violation}
    (h : violation ∈ s.ownViolations given) : violation ∈ s.violations given :=
  List.mem_flatMap.mpr ⟨s, mem_nodes_self s, h⟩

end Schema

/-! ### Checks -/

namespace Validator

theorem mem_countsOf {v : Option Value} {r : Option Nat} (h : v = r.map fun n => .int n) {n : Nat}
    (hn : r = some n) : n ∈ countsOf v := by
  subst h hn
  exact List.mem_singleton_self n

/-- A comparison fails only where the order does. -/
theorem eq_error_of_comparison {α β : Type} {x : Except Fault α} {g : α → β} {fault : Fault}
    (h : (do return g (← x)) = Except.error fault) : x = .error fault := by
  cases x with
  | error e =>
      cases h
      rfl
  | ok a => cases h

end Validator

namespace Trace.Closed

open Schema Validator

variable {T : Trace → Prop} (hT : Closed T) {path : String}

include hT

theorem checkString {f : StringFields} {rule : StringRule} (h : StringCompiled f rule)
    (hreport : ∀ violation ∈ f.violations, T (report path violation)) (s : String) :
    T (Validator.checkString rule s path) := by
  refine hT.concat ?_
  simp only [List.forall_mem_cons, List.not_mem_nil, false_imp_iff, implies_true, and_true]
  refine ⟨hT.optional fun n hn => hT.reportIf (hreport _ ?_),
    hT.optional fun n hn => hT.reportIf (hreport _ ?_),
    hT.optional fun p hp => hT.reportIf (hreport _ ?_),
    hT.optional fun form hform => hT.reportIf (hreport _ ?_),
    hT.optional fun vs hvs => hT.reportIf (hreport _ ?_)⟩
  · simp [StringFields.violations, mem_countsOf h.minLength hn]
  · simp [StringFields.violations, mem_countsOf h.maxLength hn]
  · simp [StringFields.violations, h.pattern, hp]
  · simp [StringFields.violations, h.format, hform, Format.ofName?_name]
  · simp [StringFields.violations, h.enum, hvs]

theorem checkNumber (integral : Bool) {f : NumberFields} {v : Value}
    (hreport : ∀ violation ∈ f.violations, T (report path violation))
    (horder : ∀ bound ∈ f.bounds, ∀ fault, v.order bound = .error fault → T (failed fault))
    (hstep : ∀ step, f.multipleOf = some step → ∀ fault, isMultiple v step = .error fault →
      T (failed fault)) :
    T (Validator.checkNumber ⟨integral, f.minimum, f.maximum, f.exclusiveMinimum, f.exclusiveMaximum,
      f.multipleOf, f.enum⟩ v path) := by
  refine hT.concat ?_
  simp only [List.forall_mem_cons, List.not_mem_nil, false_imp_iff, implies_true, and_true]
  refine ⟨hT.optional fun b hb => hT.reportWhen (hreport _ ?_) fun fault hfault =>
      horder b ?_ fault (eq_error_of_comparison hfault),
    hT.optional fun b hb => hT.reportWhen (hreport _ ?_) fun fault hfault =>
      horder b ?_ fault (eq_error_of_comparison hfault),
    hT.optional fun b hb => hT.reportWhen (hreport _ ?_) fun fault hfault =>
      horder b ?_ fault (eq_error_of_comparison hfault),
    hT.optional fun b hb => hT.reportWhen (hreport _ ?_) fun fault hfault =>
      horder b ?_ fault (eq_error_of_comparison hfault),
    hT.optional fun step hs => hT.reportWhen (hreport _ ?_) fun fault hfault =>
      hstep step hs fault ?_,
    hT.optional fun vs hvs => hT.reportIf (hreport _ ?_)⟩
  · simp [NumberFields.violations, hb]
  · simp [NumberFields.bounds, hb]
  · simp [NumberFields.violations, hb]
  · simp [NumberFields.bounds, hb]
  · simp [NumberFields.violations, hb]
  · simp [NumberFields.bounds, hb]
  · simp [NumberFields.violations, hb]
  · simp [NumberFields.bounds, hb]
  · simp [NumberFields.violations, hs]
  · cases hmultiple : isMultiple v step with
    | error e =>
        rw [hmultiple] at hfault
        exact hfault
    | ok b =>
        rw [hmultiple] at hfault
        cases hfault
  · simp [NumberFields.violations, hvs]

theorem checkItems {f : ArrayFields} {rule : ArrayRule} (h : ArrayCompiled f rule)
    (hreport : ∀ violation ∈ f.violations, T (report path violation)) {xs : List Value}
    (hkeys : ∀ fault, hasDuplicate xs = .error fault → T (failed fault)) :
    T (Validator.checkItems rule xs path) := by
  refine hT.concat ?_
  simp only [List.forall_mem_cons, List.not_mem_nil, false_imp_iff, implies_true, and_true]
  refine ⟨hT.optional fun n hn => hT.reportIf (hreport _ ?_),
    hT.optional fun n hn => hT.reportIf (hreport _ ?_), ?_⟩
  · simp [ArrayFields.violations, mem_countsOf h.minItems hn]
  · simp [ArrayFields.violations, mem_countsOf h.maxItems hn]
  · split
    · exact hT.reportWhen (hreport _ (by simp [ArrayFields.violations])) hkeys
    · exact hT.empty

theorem checkPredicate {p : Predicate} {message : String} {v : Value}
    (hcall : T ⟨[.call p v], none⟩) (hreport : T (report path (.refinement message)))
    (hfault : ∀ fault, p.holds v = .error fault → T ⟨[.call p v], some fault⟩) :
    T (Validator.checkPredicate p message v path) := by
  unfold Validator.checkPredicate
  split
  · exact hcall
  · exact hT.append hcall hreport
  · rename_i fault h
    exact hfault fault h

theorem checkUndeclared {names : List String} {entries : List (Value × Value)}
    (h : ∀ e ∈ entries, (∀ name ∈ names, e.1 ≠ .str name) →
      (∀ step, e.1.plain = .ok step → T (report (joinPath path step) .unexpectedProperty)) ∧
        ∀ fault, e.1.plain = .error fault → T (failed fault)) :
    T (Validator.checkUndeclared names entries path) := by
  refine hT.concat ?_
  rw [List.forall_mem_map]
  rintro ⟨key, item⟩ he
  cases key with
  | str name =>
      dsimp only
      split
      · exact hT.empty
      · rename_i hundeclared
        refine (h _ he fun other hother hname => hundeclared ?_).1 name rfl
        rw [Value.str.inj hname]
        exact List.contains_iff_mem.mpr hother
  | _ =>
      -- a key that is no text is declared nowhere
      simp only [Bool.false_eq_true, if_false]
      split
      · rename_i step hstep
        exact (h _ he (by simp)).1 step hstep
      · rename_i fault hfault
        exact (h _ he (by simp)).2 fault hfault

theorem runProperties {rule : ObjectRule} {children : List (String × Validator)}
    {entries : List (Value × Value)}
    (h : ∀ c ∈ children, (Value.lookup? (.str c.1) entries = none → c.1 ∈ rule.required →
        T (report (joinPath path c.1) .missingProperty)) ∧
      ∀ v, Value.lookup? (.str c.1) entries = some v → T (c.2.run v (joinPath path c.1))) :
    T (Validator.runProperties rule children entries path) := by
  induction children with
  | nil => exact hT.empty
  | cons c children ih =>
      obtain ⟨name, child⟩ := c
      obtain ⟨⟨hmissing, hthere⟩, hrest⟩ := List.forall_mem_cons.mp h
      rw [Validator.runProperties]
      refine hT.append ?_ (ih hrest)
      cases hfound : Value.lookup? (.str name) entries with
      | some v => exact hthere v hfound
      | none =>
          dsimp only
          cases hrequired : rule.required.contains name with
          | true => exact hT.reportIf (hmissing hfound (List.contains_iff_mem.mp hrequired))
          | false => exact hT.empty

end Trace.Closed

end ApiContract
