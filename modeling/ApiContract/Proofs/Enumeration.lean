import ApiContract.Proofs.Children
import ApiContract.Proofs.Origins
import ApiContract.Proofs.Trace
import Mathlib.Data.List.Forall2

/-!
# Enumerations at different paths

The path at which a value is checked decides where its records are placed, and nothing else: a run at
another path makes the same calls, ends in the same fault and has the same messages in the same order
(`Schema.sameUpTo_run`). How the two places of a record are related is a parameter `R`, which has to be kept
by every step that a path can be extended by.

A run is a row of traces, so two runs are related as soon as their traces are, one by one, for every relation
that is kept by joining (`Trace.Joinable`).
-/

namespace ApiContract

/-! ### Sequences of traces -/

namespace Trace

theorem fault_concat_eq_none_iff {ts : List Trace} :
    (concat ts).fault = none ↔ ∀ t ∈ ts, t.fault = none := by
  induction ts with
  | nil => exact iff_of_true rfl (List.forall_mem_nil _)
  | cons t ts ih =>
      rw [List.forall_mem_cons, ← ih]
      exact fault_append_eq_none_iff t (concat ts)

/-- Traces without fault have their records one after the other. -/
theorem records_concat {ts : List Trace} (h : ∀ t ∈ ts, t.fault = none) :
    (concat ts).records = ts.flatMap records := by
  induction ts with
  | nil => rfl
  | cons t ts ih =>
      obtain ⟨ht, hts⟩ := List.forall_mem_cons.mp h
      rw [List.flatMap_cons, ← ih hts]
      exact records_append ht (concat ts)

theorem toExcept_eq_ok_iff {t : Trace} {rs : List ErrorRecord} :
    t.toExcept = .ok rs ↔ t.fault = none ∧ t.records = rs := by
  cases h : t.fault <;> simp [toExcept, h]

/-- What is added to a clean trace does not hide a fault of it. -/
theorem fault_of_append_if_clean {a b : Trace} (h : (if a.isClean then a ++ b else a).fault = none) :
    a.fault = none := by
  split at h
  · exact ((fault_append_eq_none_iff a b).mp h).1
  · exact h

/-- A relation between traces that is kept by joining them. -/
structure Joinable (R : Trace → Trace → Prop) : Prop where
  empty : R .empty .empty
  append : ∀ {t t' u u' : Trace}, R t t' → R u u' → R (t ++ u) (t' ++ u')

namespace Joinable

variable {R : Trace → Trace → Prop} (hR : Joinable R)

include hR

theorem concat {ts ts' : List Trace} (h : List.Forall₂ R ts ts') : R (Trace.concat ts) (Trace.concat ts') := by
  induction h with
  | nil => exact hR.empty
  | cons ht _ ih => exact hR.append ht ih

/-- A row of traces, made of the same things in two ways. -/
theorem concat_map {α : Type} {xs : List α} {f g : α → Trace} (h : ∀ x ∈ xs, R (f x) (g x)) :
    R (Trace.concat (xs.map f)) (Trace.concat (xs.map g)) :=
  hR.concat <| List.forall₂_map_left_iff.mpr <| List.forall₂_map_right_iff.mpr <| List.forall₂_same.mpr h

end Joinable

end Trace

/-- What an object reports of one of its properties. -/
def Validator.propertyTrace (rule : ObjectRule) (entries : List (Value × Value)) (path : String)
    (c : String × Validator) : Trace :=
  match Value.lookup? (.str c.1) entries with
  | some v => c.2.run v (joinPath path c.1)
  | none => .reportIf (rule.required.contains c.1) (joinPath path c.1) .missingProperty

/-- The properties are looked at one after the other. -/
theorem Validator.runProperties_eq (rule : ObjectRule) (children : List (String × Validator))
    (entries : List (Value × Value)) (path : String) :
    runProperties rule children entries path =
      .concat (children.map (propertyTrace rule entries path)) := by
  induction children with
  | nil => rfl
  | cons c children ih =>
      show propertyTrace rule entries path c ++ runProperties rule children entries path = _
      rw [ih]
      rfl

/-! ### Events and traces that differ in places -/

/-- The same call, or records with the same message at related places. -/
inductive Event.SameUpTo (R : String → String → Prop) : Event → Event → Prop
  | call (p : Predicate) (v : Value) : SameUpTo R (.call p v) (.call p v)
  | record {path path' : String} (message : String) (h : R path path') :
      SameUpTo R (.record ⟨path, message⟩) (.record ⟨path', message⟩)

namespace Trace

/-- The same events up to the places of the records, and the same fault. -/
structure SameUpTo (R : String → String → Prop) (t t' : Trace) : Prop where
  events : List.Forall₂ (Event.SameUpTo R) t.events t'.events
  fault : t.fault = t'.fault

variable {R : String → String → Prop}

theorem forall₂_recordsOf {es es' : List Event} (h : List.Forall₂ (Event.SameUpTo R) es es') :
    List.Forall₂ (fun r r' : ErrorRecord => R r.path r'.path ∧ r.message = r'.message)
      (recordsOf es) (recordsOf es') := by
  induction h with
  | nil => exact .nil
  | cons he _ ih =>
      cases he with
      | call p v => exact ih
      | record message hplace => exact .cons ⟨hplace, rfl⟩ ih

namespace SameUpTo

theorem empty : SameUpTo R .empty .empty := ⟨.nil, rfl⟩

theorem failed (f : Fault) : SameUpTo R (.failed f) (.failed f) := ⟨.nil, rfl⟩

theorem calls (p : Predicate) (v : Value) (fault : Option Fault) :
    SameUpTo R ⟨[.call p v], fault⟩ ⟨[.call p v], fault⟩ :=
  ⟨.cons (.call p v) .nil, rfl⟩

theorem append {t₁ t₁' t₂ t₂' : Trace} (h₁ : SameUpTo R t₁ t₁') (h₂ : SameUpTo R t₂ t₂') :
    SameUpTo R (t₁ ++ t₂) (t₁' ++ t₂') := by
  cases hfault : t₁.fault with
  | some f => rwa [append_of_fault hfault, append_of_fault (h₁.fault ▸ hfault)]
  | none =>
      rw [append_of_no_fault hfault, append_of_no_fault (h₁.fault ▸ hfault)]
      exact ⟨List.rel_append h₁.events h₂.events, h₂.fault⟩

theorem joinable : Joinable (SameUpTo R) := ⟨empty, append⟩

theorem ite {c : Prop} [Decidable c] {t₁ t₁' t₂ t₂' : Trace} (h₁ : SameUpTo R t₁ t₁')
    (h₂ : SameUpTo R t₂ t₂') : SameUpTo R (if c then t₁ else t₂) (if c then t₁' else t₂') := by
  split
  · exact h₁
  · exact h₂

variable {path path' : String} (hpath : R path path')

include hpath

theorem report (v : Violation) : SameUpTo R (.report path v) (.report path' v) := by
  unfold Trace.report
  cases v.message with
  | ok message => exact ⟨.cons (.record message hpath) .nil, rfl⟩
  | error f => exact failed f

theorem wrongType (expected given : String) :
    SameUpTo R (.report path (.wrongType expected given)) (.report path' (.wrongType expected given)) :=
  report hpath _

theorem reportIf (holds : Bool) (v : Violation) :
    SameUpTo R (.reportIf holds path v) (.reportIf holds path' v) := by
  cases holds with
  | true => exact report hpath v
  | false => exact empty

theorem reportWhen (holds : Except Fault Bool) (v : Violation) :
    SameUpTo R (.reportWhen holds path v) (.reportWhen holds path' v) := by
  cases holds with
  | ok b => exact reportIf hpath b v
  | error f => exact failed f

omit hpath in
theorem optional {α : Type} {rule : Option α} {f g : α → Trace} (h : ∀ a, SameUpTo R (f a) (g a)) :
    SameUpTo R (Validator.optional rule f) (Validator.optional rule g) := by
  cases rule with
  | none => exact empty
  | some a => exact h a

/-! ### Checks -/

theorem checkString (rule : StringRule) (s : String) :
    SameUpTo R (Validator.checkString rule s path) (Validator.checkString rule s path') :=
  joinable.concat <| .cons (optional fun _ => reportIf hpath _ _) <| .cons (optional fun _ => reportIf hpath _ _) <|
    .cons (optional fun _ => reportIf hpath _ _) <| .cons (optional fun _ => reportIf hpath _ _) <|
    .cons (optional fun _ => reportIf hpath _ _) .nil

theorem checkNumber (rule : NumberRule) (v : Value) :
    SameUpTo R (Validator.checkNumber rule v path) (Validator.checkNumber rule v path') :=
  joinable.concat <| .cons (optional fun _ => reportWhen hpath _ _) <|
    .cons (optional fun _ => reportWhen hpath _ _) <| .cons (optional fun _ => reportWhen hpath _ _) <|
    .cons (optional fun _ => reportWhen hpath _ _) <| .cons (optional fun _ => reportWhen hpath _ _) <|
    .cons (optional fun _ => reportIf hpath _ _) .nil

theorem checkItems (rule : ArrayRule) (xs : List Value) :
    SameUpTo R (Validator.checkItems rule xs path) (Validator.checkItems rule xs path') :=
  joinable.concat <| .cons (optional fun _ => reportIf hpath _ _) <|
    .cons (optional fun _ => reportIf hpath _ _) <| .cons (ite (reportWhen hpath _ _) empty) .nil

theorem checkPredicate (p : Predicate) (message : String) (v : Value) :
    SameUpTo R (Validator.checkPredicate p message v path) (Validator.checkPredicate p message v path') := by
  unfold Validator.checkPredicate
  split
  · exact calls p v none
  · exact append (calls p v none) (report hpath _)
  · exact calls p v _

omit hpath in
theorem checkUndeclared {names : List String} {entries : List (Value × Value)}
    (h : ∀ e ∈ entries, ∀ step, e.1.plain = .ok step → R (joinPath path step) (joinPath path' step)) :
    SameUpTo R (Validator.checkUndeclared names entries path)
      (Validator.checkUndeclared names entries path') := by
  refine joinable.concat_map fun e he => ite empty ?_
  cases hstep : e.1.plain with
  | ok step => exact report (h e he step hstep) _
  | error f => exact failed f

omit hpath in
theorem isClean {t t' : Trace} (h : SameUpTo R t t') : t.isClean = t'.isClean := by
  have hempty : t.records = [] ↔ t'.records = [] := by
    rw [← List.length_eq_zero_iff, ← List.length_eq_zero_iff, records, records,
      (forall₂_recordsOf h.events).length_eq]
  rw [Bool.eq_iff_iff, isClean_iff, isClean_iff, h.fault, hempty]

omit hpath in
/-- Where the place of a record is known from the other one, so is the record. -/
theorem records_eq_map {t t' : Trace} {f : String → String} (h : SameUpTo (fun path path' => path' = f path) t t') :
    t'.records = t.records.map fun r => ⟨f r.path, r.message⟩ := by
  have hrecords := forall₂_recordsOf h.events
  unfold records
  generalize recordsOf t.events = rs, recordsOf t'.events = rs' at hrecords ⊢
  induction hrecords with
  | nil => rfl
  | @cons r r' rs rs' hr _ ih =>
      obtain ⟨hplace, hmessage⟩ := hr
      rw [List.map_cons, ← ih, ← hplace, hmessage]

end SameUpTo

end Trace

/-! ### Runs -/

namespace Value

theorem keys_subset_of_parts {v w : Value} (h : w.parts ⊆ v.parts) : w.keys ⊆ v.keys := by
  intro key hkey
  obtain ⟨part, hpart, hkey⟩ := List.mem_flatMap.mp hkey
  exact List.mem_flatMap.mpr ⟨part, h hpart, hkey⟩

/-- The keys in an item are keys in the list or tuple. -/
theorem keys_item_subset {v x : Value} {xs : List Value} (hv : v.items? = some xs) (hx : x ∈ xs) :
    x.keys ⊆ v.keys := by
  refine keys_subset_of_parts fun w hw => ?_
  have hmem : w ∈ xs.flatMap parts := List.mem_flatMap.mpr ⟨x, hx, hw⟩
  cases v with
  | list ys =>
      cases hv
      rw [parts_list]
      exact List.mem_cons_of_mem _ hmem
  | tuple ys =>
      cases hv
      rw [parts_tuple]
      exact List.mem_cons_of_mem _ hmem
  | _ => cases hv

theorem keys_entry_subset {entries : List (Value × Value)} {e : Value × Value} (he : e ∈ entries) :
    e.2.keys ⊆ (Value.dict entries).keys := by
  refine keys_subset_of_parts fun w hw => ?_
  rw [parts_dict]
  exact List.mem_cons_of_mem _ (List.mem_flatMap.mpr ⟨e, he, hw⟩)

theorem key_mem_keys {entries : List (Value × Value)} {e : Value × Value} (he : e ∈ entries) :
    e.1 ∈ (Value.dict entries).keys :=
  List.mem_flatMap.mpr ⟨_, mem_parts_self _, List.mem_map_of_mem he⟩

end Value

namespace Schema

open Trace Validator

variable {R : String → String → Prop} {path path' : String}

theorem sameUpTo_propertyTrace {rule : ObjectRule} {entries : List (Value × Value)} {c : String × Validator}
    (hplace : R (joinPath path c.1) (joinPath path' c.1))
    (hrun : ∀ v, Value.lookup? (.str c.1) entries = some v →
      SameUpTo R (c.2.run v (joinPath path c.1)) (c.2.run v (joinPath path' c.1))) :
    SameUpTo R (propertyTrace rule entries path c) (propertyTrace rule entries path' c) := by
  unfold propertyTrace
  cases hfound : Value.lookup? (.str c.1) entries with
  | some v => exact hrun v hfound
  | none => exact .reportIf hplace _ _

/-- **A run at a related path has the same calls and messages, at related places.** The steps are the
indices, the declared names and the keys of the value. -/
theorem sameUpTo_run {s : Schema} {origin : String} {validator : Validator}
    (h : s.compileAt origin = .ok validator) {Step : String → Prop}
    (hR : ∀ path path' step, Step step → R path path' → R (joinPath path step) (joinPath path' step))
    (hindices : ∀ i : Nat, Step (toString i)) (hnames : ∀ name ∈ s.names, Step name) {v : Value}
    (hkeys : ∀ key ∈ v.keys, ∀ step, key.plain = .ok step → Step step) (hpath : R path path') :
    SameUpTo R (validator.run v path) (validator.run v path') := by
  induction s using Schema.induction generalizing origin validator v path path' with
  | string a f =>
      obtain ⟨rule, -, rfl⟩ := compileAt_string h
      cases v with
      | str text => exact .checkString hpath rule text
      | _ => exact .wrongType hpath _ _
  | number a f =>
      obtain rfl := compileAt_number h
      rw [run, run]
      exact .ite (.checkNumber hpath _ v) (.wrongType hpath _ _)
  | integer a f =>
      obtain rfl := compileAt_integer h
      rw [run, run]
      exact .ite (.checkNumber hpath _ v) (.wrongType hpath _ _)
  | boolean a =>
      obtain rfl := compileAt_boolean h
      cases v with
      | bool b => exact .empty
      | _ => exact .wrongType hpath _ _
  | array a f items ih =>
      obtain ⟨rule, child, -, hchild, rfl⟩ := compileAt_array h
      have hitemNames : ∀ name ∈ items.names, Step name := fun name hname =>
        hnames name (names_mono (nodes_child_subset List.mem_cons_self) hname)
      rw [run, run]
      cases hitems : v.items? with
      | none => exact .wrongType hpath _ _
      | some xs =>
          dsimp only
          rw [List.mapIdx_eq_zipIdx_map, List.mapIdx_eq_zipIdx_map]
          refine .append (.checkItems hpath rule xs) (SameUpTo.joinable.concat_map fun e he => ?_)
          have hx : e.1 ∈ xs := List.fst_mem_of_mem_zipIdx he
          exact ih hchild hitemNames (fun key hkey => hkeys key (Value.keys_item_subset hitems hx hkey))
            (hR _ _ _ (hindices e.2) hpath)
  | object a f ps ih =>
      obtain ⟨children, hchildren, rfl⟩ := compileAt_object h
      cases v with
      | dict entries =>
          rw [run, run, runProperties_eq, runProperties_eq]
          refine .append (SameUpTo.joinable.concat_map fun c hc => ?_) ?_
          · obtain ⟨p, hp, hname, hcompiled⟩ := exists_left_of_forall₂ hchildren hc
            have hplace := hR _ _ _ (hnames c.1 (mem_names hp hname)) hpath
            refine sameUpTo_propertyTrace hplace fun w hw =>
              ih p hp hcompiled (fun name hmem => ?_) (fun key hkey => ?_) hplace
            · exact hnames name (names_mono (nodes_property_subset hp) hmem)
            · exact hkeys key (Value.keys_entry_subset (Value.mem_of_lookup?_str hw) hkey)
          · exact .ite .empty <| .checkUndeclared fun e he step hstep =>
              hR _ _ _ (hkeys e.1 (Value.key_mem_keys he) step hstep) hpath
      | _ => exact .wrongType hpath _ _
  | nullable a inner ih =>
      obtain ⟨child, hchild, rfl⟩ := compileAt_nullable h
      have hinner := ih hchild (fun name hname =>
        hnames name (names_mono (nodes_child_subset List.mem_cons_self) hname)) hkeys hpath
      cases v with
      | null => exact .empty
      | _ => exact hinner
  | refined a r base ih =>
      obtain ⟨p, message, child, -, -, hchild, rfl⟩ := compileAt_refined h
      have hbase := ih hchild (fun name hname =>
        hnames name (names_mono (nodes_child_subset List.mem_cons_self) hname)) hkeys hpath
      rw [run, run, ← hbase.isClean]
      exact .ite (hbase.append (.checkPredicate hpath p message v)) hbase
  | bare a => exact absurd h compileAt_bare_ne
  | foreign w => exact absurd h compileAt_foreign_ne

end Schema

end ApiContract
