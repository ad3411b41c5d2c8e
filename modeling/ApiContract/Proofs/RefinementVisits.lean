import ApiContract.Proofs.Enumeration
import ApiContract.Proofs.Violations

/-!
# When the predicates of refinements are called

Checking a value comes to each refined node that stands over a part of the value (`Schema.visits`). Such a
visit calls the predicate once, on that part, if the base reports nothing about it, and does nothing otherwise
(`Visit.Adds`). The events of an enumeration are what the visits add, in their order, and in between them the
records that are reported without refinements (`Interleaved`):

    separated_run : Separated (s.visits v path) (validator.unrefined.run v path) (validator.run v path)

so no call is made but by a visit, and no visit is left out.
-/

namespace ApiContract

/-- A refined node that checking comes to: what it adds to its base, and the value that stands there. -/
structure Visit where
  refinement : Refinement
  base : Schema
  value : Value
  path : String

/-- What a visit adds to an enumeration. -/
inductive Visit.Adds (o : Visit) : List Event → Prop
  /-- The base reports something, and the predicate is not called. -/
  | skipped {base : Validator} {r : ErrorRecord} {rs : List ErrorRecord}
      (compiled : o.base.compile = .ok base) (reported : base.errors o.value = .ok (r :: rs)) : Adds o []
  /-- The base reports nothing, and the predicate holds. -/
  | accepted {base : Validator} {p : Predicate} (compiled : o.base.compile = .ok base)
      (reported : base.errors o.value = .ok []) (condition : o.refinement.condition = .predicate p)
      (holds : p.holds o.value = .ok true) : Adds o [.call p o.value]
  /-- The base reports nothing, and the predicate does not hold. -/
  | rejected {base : Validator} {p : Predicate} {message : String} (compiled : o.base.compile = .ok base)
      (reported : base.errors o.value = .ok []) (condition : o.refinement.condition = .predicate p)
      (holds : p.holds o.value = .ok false) (words : o.refinement.message = .str message) :
      Adds o [.call p o.value, .record ⟨o.path, message⟩]

/-- Events that are what some visits add, one after the other, with some records in between. -/
inductive Interleaved : List Visit → List ErrorRecord → List Event → Prop
  | nil : Interleaved [] [] []
  | record {os : List Visit} {rs : List ErrorRecord} {es : List Event} (r : ErrorRecord)
      (rest : Interleaved os rs es) : Interleaved os (r :: rs) (.record r :: es)
  | visit {o : Visit} {os : List Visit} {rs : List ErrorRecord} {new es : List Event}
      (adds : o.Adds new) (rest : Interleaved os rs es) : Interleaved (o :: os) rs (new ++ es)

namespace Schema

mutual
/-- The refined nodes that checking a value comes to, in the order of their predicates. Parts that no schema
describes are not looked at, and neither is what a nullable node stands over if it is null. -/
def visits : Schema → Value → String → List Visit
  | .array _ _ items, v, path =>
    (v.items?.getD []).zipIdx.flatMap fun e => items.visits e.1 (joinPath path (toString e.2))
  | .object _ _ ps, v, path =>
    match v with
    | .dict entries => visitsAmong ps entries path
    | _ => []
  | .nullable _ inner, v, path =>
    match v with
    | .null => []
    | v => inner.visits v path
  | .refined _ r base, v, path => base.visits v path ++ [⟨r, base, v, path⟩]
  | _, _, _ => []
termination_by structural s => s

def visitsAmong : List (Value × Schema) → List (Value × Value) → String → List Visit
  | [], _, _ => []
  | (key, s) :: rest, entries, path =>
    (match key with
      | .str name =>
        match Value.lookup? key entries with
        | some v => s.visits v (joinPath path name)
        | none => []
      | _ => []) ++ visitsAmong rest entries path
termination_by structural ps => ps
end

end Schema

namespace Validator

mutual
/-- The validator with the base in the place of every refinement. -/
def unrefined : Validator → Validator
  | .array rule items => .array rule items.unrefined
  | .object rule properties => .object rule (unrefinedAmong properties)
  | .nullable inner => .nullable inner.unrefined
  | .refined _ _ base => base.unrefined
  | v => v
termination_by structural v => v

def unrefinedAmong : List (String × Validator) → List (String × Validator)
  | [] => []
  | (name, child) :: rest => (name, child.unrefined) :: unrefinedAmong rest
termination_by structural ps => ps
end

theorem keys_unrefinedAmong (properties : List (String × Validator)) :
    (unrefinedAmong properties).map (·.1) = properties.map (·.1) := by
  induction properties with
  | nil => rfl
  | cons c properties ih => exact congrArg (c.1 :: ·) ih

end Validator

/-! ### Interleaving -/

namespace Interleaved

variable {os os' : List Visit} {rs rs' : List ErrorRecord} {es es' : List Event}

theorem append (h : Interleaved os rs es) (h' : Interleaved os' rs' es') :
    Interleaved (os ++ os') (rs ++ rs') (es ++ es') := by
  induction h with
  | nil => exact h'
  | record r _ ih => exact .record r ih
  | visit adds _ ih =>
      rw [List.append_assoc]
      exact .visit adds ih

/-- Where nothing is called, no visit adds anything. -/
theorem of_calls_eq_nil (h : Trace.calls ⟨es, none⟩ = []) : Interleaved [] (Trace.recordsOf es) es := by
  induction es with
  | nil => exact .nil
  | cons e es ih =>
      cases e with
      | call p v => cases h
      | record r => exact .record r (ih h)

theorem one {o : Visit} (h : o.Adds es) : Interleaved [o] [] es := by
  simpa using Interleaved.visit h .nil

end Interleaved

/-- A trace is made of what some visits add and of the records of a plain trace. -/
structure Separated (os : List Visit) (plain t : Trace) : Prop where
  fault : plain.fault = none
  events : Interleaved os plain.records t.events

namespace Separated

variable {os os' : List Visit} {plain plain' t t' : Trace}

theorem append (ht : t.fault = none) (h : Separated os plain t) (h' : Separated os' plain' t') :
    Separated (os ++ os') (plain ++ plain') (t ++ t') where
  fault := (Trace.fault_append_eq_none_iff plain plain').mpr ⟨h.fault, h'.fault⟩
  events := by
    rw [Trace.records_append h.fault, Trace.append_of_no_fault ht]
    exact h.events.append h'.events

theorem own (ht : t.fault = none) (hcalls : t.calls = []) : Separated [] t t :=
  ⟨ht, .of_calls_eq_nil hcalls⟩

theorem concat_map {α : Type} {xs : List α} {visits : α → List Visit} {plain trace : α → Trace}
    (ht : (Trace.concat (xs.map trace)).fault = none)
    (h : ∀ x ∈ xs, (trace x).fault = none → Separated (visits x) (plain x) (trace x)) :
    Separated (xs.flatMap visits) (.concat (xs.map plain)) (.concat (xs.map trace)) := by
  induction xs with
  | nil => exact .own rfl rfl
  | cons x xs ih =>
      obtain ⟨hx, hxs⟩ := List.forall_mem_cons.mp h
      obtain ⟨hhead, htail⟩ := (Trace.fault_append_eq_none_iff _ _).mp ht
      exact .append hhead (hx hhead) (ih htail hxs)

end Separated

/-! ### Checks that call nothing -/

namespace Trace

theorem calls_append {t : Trace} (h : t.fault = none) (t' : Trace) : (t ++ t').calls = t.calls ++ t'.calls := by
  rw [append_of_no_fault h]
  exact List.filterMap_append

theorem closed_calls : Closed fun t => t.calls = [] where
  empty := rfl
  append {t t'} h h' := by
    cases hfault : t.fault with
    | some f => rwa [append_of_fault hfault]
    | none =>
        rw [calls_append hfault, List.append_eq_nil_iff]
        exact ⟨h, h'⟩

theorem calls_failed (f : Fault) : (failed f).calls = [] := rfl

theorem calls_report (path : String) (v : Violation) : (report path v).calls = [] := by
  unfold report
  cases v.message with
  | ok message => rfl
  | error f => rfl

theorem calls_wrongType (path expected given : String) :
    (report path (.wrongType expected given)).calls = [] :=
  calls_report path _

theorem calls_run_string {f : StringFields} {rule : StringRule} (h : Schema.StringCompiled f rule) (v : Value)
    (path : String) : ((Validator.string rule).run v path).calls = [] := by
  cases v with
  | str text => exact closed_calls.checkString h (fun _ _ => calls_report path _) text
  | _ => exact calls_wrongType path _ _

theorem calls_run_number (integral : Bool) (f : NumberFields) (v : Value) (path : String) :
    ((Validator.number ⟨integral, f.minimum, f.maximum, f.exclusiveMinimum, f.exclusiveMaximum,
      f.multipleOf, f.enum⟩).run v path).calls = [] := by
  rw [Validator.run]
  split
  · exact closed_calls.checkNumber integral (fun _ _ => calls_report path _)
      (fun _ _ fault _ => calls_failed fault) fun _ _ fault _ => calls_failed fault
  · exact calls_wrongType path _ _

theorem calls_run_boolean (v : Value) (path : String) : (Validator.boolean.run v path).calls = [] := by
  cases v with
  | bool b => rfl
  | _ => exact calls_wrongType path _ _

theorem calls_checkItems {f : ArrayFields} {rule : ArrayRule} (h : Schema.ArrayCompiled f rule) (xs : List Value)
    (path : String) : (Validator.checkItems rule xs path).calls = [] :=
  closed_calls.checkItems h (fun _ _ => calls_report path _) fun fault _ => calls_failed fault

theorem calls_undeclared (additional : Bool) (names : List String) (entries : List (Value × Value))
    (path : String) :
    (if additional then Trace.empty else Validator.checkUndeclared names entries path).calls = [] := by
  split
  · rfl
  · exact closed_calls.checkUndeclared fun _ _ _ =>
      ⟨fun _ _ => calls_report _ _, fun fault _ => calls_failed fault⟩

end Trace

namespace Schema

open Trace Validator

variable {s : Schema} {origin : String} {validator : Validator}

/-- The base of a refinement reports something at its path exactly if it does by itself. -/
theorem errors_of_run (h : s.compileAt origin = .ok validator) {v : Value} {path : String}
    (ht : (validator.run v path).fault = none) :
    s.compile = .ok validator ∧ ∃ rs, validator.errors v = .ok rs ∧
      (rs = [] ↔ (validator.run v path).isClean = true) := by
  have hsame : SameUpTo (fun _ _ => True) (validator.run v path) (validator.trace v) := by
    have hstep (_ : String) : True := trivial
    exact sameUpTo_run h (fun _ _ step _ _ => hstep step) (fun i => hstep (toString i))
      (fun name _ => hstep name) (fun _ _ step _ => hstep step) trivial
  refine ⟨compileAt_of_compileAt h "", _, toExcept_eq_ok_iff.mpr ⟨hsame.fault ▸ ht, rfl⟩, ?_⟩
  rw [hsame.isClean, isClean_iff, ← hsame.fault, and_iff_right ht]

/-! ### Runs -/

theorem separated_runProperties {ps : List (Value × Schema)} {children : List (String × Validator)}
    (hc : List.Forall₂ (PropertyCompiled origin) ps children)
    (ih : ∀ p ∈ ps, ∀ {origin : String} {validator : Validator}, p.2.compileAt origin = .ok validator →
      ∀ {v : Value} {path : String}, (validator.run v path).fault = none →
        Separated (p.2.visits v path) (validator.unrefined.run v path) (validator.run v path))
    {rule : ObjectRule} {entries : List (Value × Value)} {path : String}
    (ht : (runProperties rule children entries path).fault = none) :
    Separated (visitsAmong ps entries path) (runProperties rule (unrefinedAmong children) entries path)
      (runProperties rule children entries path) := by
  induction hc with
  | nil => exact .own rfl rfl
  | @cons p c ps children hpc _ ihRest =>
      obtain ⟨key, s⟩ := p
      obtain ⟨name, child⟩ := c
      obtain ⟨hkey, hchild⟩ := hpc
      obtain rfl : key = .str name := hkey
      obtain ⟨ihs, ihps⟩ := List.forall_mem_cons.mp ih
      rw [runProperties] at ht
      obtain ⟨hhead, htail⟩ := (fault_append_eq_none_iff _ _).mp ht
      rw [unrefinedAmong, runProperties, runProperties, visitsAmong]
      refine .append hhead ?_ (ihRest ihps htail)
      cases hfound : Value.lookup? (.str name) entries with
      | some v =>
          rw [hfound] at hhead
          exact ihs hchild hhead
      | none =>
          rw [hfound] at hhead
          exact .own hhead (closed_calls.reportIf (calls_report _ _))

/-- **A run is made of what the visits add and of what is reported without refinements.** -/
theorem separated_run (h : s.compileAt origin = .ok validator) {v : Value} {path : String}
    (ht : (validator.run v path).fault = none) :
    Separated (s.visits v path) (validator.unrefined.run v path) (validator.run v path) := by
  induction s using Schema.induction generalizing origin validator v path with
  | string a f =>
      obtain ⟨rule, hrule, rfl⟩ := compileAt_string h
      exact .own ht (calls_run_string hrule v path)
  | number a f =>
      obtain rfl := compileAt_number h
      exact .own ht (calls_run_number false f v path)
  | integer a f =>
      obtain rfl := compileAt_integer h
      exact .own ht (calls_run_number true f v path)
  | boolean a =>
      obtain rfl := compileAt_boolean h
      exact .own ht (calls_run_boolean v path)
  | array a f items ih =>
      obtain ⟨rule, child, hrule, hchild, rfl⟩ := compileAt_array h
      rw [run] at ht
      rw [unrefined, run, run, visits]
      cases hitems : v.items? with
      | none =>
          rw [hitems] at ht
          exact .own ht (calls_wrongType path _ _)
      | some xs =>
          rw [hitems] at ht
          dsimp only at ht ⊢
          simp only [List.mapIdx_eq_zipIdx_map] at ht ⊢
          obtain ⟨hown, hitems⟩ := (fault_append_eq_none_iff _ _).mp ht
          exact .append hown (.own hown (calls_checkItems hrule xs path))
            (.concat_map hitems fun e _ he => ih hchild he)
  | object a f ps ih =>
      obtain ⟨children, hchildren, rfl⟩ := compileAt_object h
      cases v with
      | dict entries =>
          rw [run] at ht
          rw [unrefined, run, run, visits, keys_unrefinedAmong]
          obtain ⟨hproperties, hundeclared⟩ := (fault_append_eq_none_iff _ _).mp ht
          rw [← List.append_nil (visitsAmong ps entries path)]
          exact .append hproperties (separated_runProperties hchildren ih hproperties)
            (.own hundeclared (calls_undeclared _ _ _ _))
      | _ => exact .own ht (calls_wrongType path _ _)
  | nullable a inner ih =>
      obtain ⟨child, hchild, rfl⟩ := compileAt_nullable h
      cases v with
      | null => exact .own rfl rfl
      | _ => exact ih hchild ht
  | refined a r base ih =>
      obtain ⟨p, message, child, hp, hmessage, hchild, rfl⟩ := compileAt_refined h
      rw [run] at ht
      rw [unrefined, visits, run]
      -- the base decides whether the visit behind it calls the predicate
      split at ht
      · rename_i hclean
        obtain ⟨hbase, hpredicate⟩ := (fault_append_eq_none_iff _ _).mp ht
        obtain ⟨hcompile, rs, herrors, hrs⟩ := errors_of_run hchild hbase
        obtain rfl := hrs.mpr hclean
        rw [if_pos hclean, append_of_no_fault hbase]
        refine ⟨(ih hchild hbase).fault, ?_⟩
        rw [← List.append_nil (child.unrefined.run v path).records]
        refine (ih hchild hbase).events.append (.one ?_)
        unfold checkPredicate at hpredicate ⊢
        cases hholds : p.holds v with
        | error fault => simp [hholds] at hpredicate
        | ok accepted =>
            cases accepted with
            | true => exact .accepted hcompile herrors hp hholds
            | false => exact .rejected hcompile herrors hp hholds hmessage
      · rename_i hclean
        obtain ⟨hcompile, rs, herrors, hrs⟩ := errors_of_run hchild ht
        rw [if_neg hclean]
        refine ⟨(ih hchild ht).fault, ?_⟩
        rw [← List.append_nil (child.unrefined.run v path).records,
          ← List.append_nil (child.run v path).events]
        refine (ih hchild ht).events.append (.one ?_)
        cases rs with
        | nil => exact absurd (hrs.mp rfl) hclean
        | cons r rs => exact .skipped hcompile herrors
  | bare a => exact absurd h compileAt_bare_ne
  | foreign w => exact absurd h compileAt_foreign_ne

end Schema

end ApiContract
