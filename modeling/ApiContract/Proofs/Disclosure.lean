import ApiContract.Proofs.UndeclaredKeys
import ApiContract.Proofs.Violations

/-!
# What a failure discloses

The records of a failure are made of the words of the schema. Each is the message of a violation that the
schema itself declares (`Schema.violations`), and its path consists of declared names, of indices and of
keys of declared defaults (`Schema.IsPath`): `Pipeline.disclosed_of_apply`. Of the input only the names of
the types of its values can be found in a message.

The checks of a node report violations of this node alone. So by induction on the schema a run reports what
the nodes declare, and besides undeclared keys, which after cleaning come from defaults
(`reports_run`).
-/

namespace ApiContract

/-! ### Traces and their violations -/

namespace Trace

/-- Every record of the trace has the words of a violation for which `Q` holds at the path. -/
def Reports (Q : String → Violation → Prop) (t : Trace) : Prop :=
  ∀ r ∈ t.records, ∃ violation : Violation, violation.message = .ok r.message ∧ Q r.path violation

variable {Q : String → Violation → Prop}

theorem reports_of_records_eq_nil {t : Trace} (h : t.records = []) : t.Reports Q := by
  intro r hr
  rw [h] at hr
  cases hr

theorem closed_reports (Q : String → Violation → Prop) : Closed (Reports Q) where
  empty := reports_of_records_eq_nil rfl
  append {t t'} h h' := by
    cases hfault : t.fault with
    | some f => rwa [append_of_fault hfault]
    | none =>
        rw [append_of_no_fault hfault]
        intro r hr
        rw [records, recordsOf_append, List.mem_append] at hr
        rcases hr with hr | hr
        · exact h r hr
        · exact h' r hr

theorem reports_failed (fault : Fault) : (failed fault).Reports Q := reports_of_records_eq_nil rfl

theorem reports_report {path : String} {violation : Violation} (h : Q path violation) :
    (report path violation).Reports Q := by
  unfold report
  cases hm : violation.message with
  | error f => exact reports_failed f
  | ok m =>
      intro r hr
      obtain rfl := List.mem_singleton.mp hr
      exact ⟨violation, hm, h⟩

theorem Reports.imp {Q' : String → Violation → Prop} {t : Trace} (h : t.Reports Q)
    (himp : ∀ path violation, Q path violation → Q' path violation) : t.Reports Q' := by
  intro r hr
  obtain ⟨violation, hm, hQ⟩ := h r hr
  exact ⟨violation, hm, himp _ _ hQ⟩

end Trace

namespace Schema

/-- The names of the types that JSON has. -/
def jsonTypeNames : List String :=
  ["null", "boolean", "integer", "number", "string", "array", "object"]

/-- The type names of JSON and those of the declared defaults. -/
def typeNames (s : Schema) : List String :=
  jsonTypeNames ++ s.defaults.flatMap fun d => d.parts.map Value.describe

/-- All messages that a failure can hold. -/
def messages (s : Schema) : List String :=
  (s.violations s.typeNames ++ if s.defaults.isEmpty then [] else [Violation.unexpectedProperty]).filterMap
    fun violation => violation.message.toOption

/-- A step of a path: a declared name, an index or one of some keys. -/
inductive PathStep (s : Schema) (keys : Value → Prop) : String → Prop
  | name {name : String} (declared : name ∈ s.names) : PathStep s keys name
  | index (i : Nat) : PathStep s keys (toString i)
  | key {key : Value} {step : String} (mem : keys key) (text : key.plain = .ok step) :
      PathStep s keys step

/-- A path of declared names, indices and keys of declared defaults. -/
def IsPath (s : Schema) (path : String) : Prop :=
  ∃ steps : List String,
    (∀ step ∈ steps, s.PathStep (· ∈ s.defaultKeys) step) ∧ path = steps.foldl joinPath ""

/-! ### What a run reports -/

/-- A violation at a place below `path` that the schema declares, or that is about an undeclared key. -/
structure Explains (s : Schema) (given : List String) (v : Value) (path place : String)
    (violation : Violation) : Prop where
  steps : ∃ steps : List String,
    (∀ step ∈ steps, s.PathStep (s.UndeclaredKey v) step) ∧ place = steps.foldl joinPath path
  known : violation ∈ s.violations given ∨
    violation = .unexpectedProperty ∧ ∃ key, s.UndeclaredKey v key

variable {s child : Schema} {given : List String} {v w : Value} {path place step : String}
  {violation : Violation}

theorem Explains.own (h : violation ∈ s.ownViolations given) : s.Explains given v path path violation :=
  ⟨⟨[], by simp, rfl⟩, .inl (mem_violations_of_own h)⟩

/-- What explains a record of a part explains it for the whole. -/
theorem Explains.mono (h : child.Explains given w path place violation) (hnodes : child.nodes ⊆ s.nodes)
    (hkeys : ∀ key, child.UndeclaredKey w key → s.UndeclaredKey v key) :
    s.Explains given v path place violation := by
  obtain ⟨⟨steps, hsteps, hplace⟩, hknown⟩ := h
  refine ⟨⟨steps, fun step hstep => ?_, hplace⟩, ?_⟩
  · cases hsteps step hstep with
    | name declared => exact .name (names_mono hnodes declared)
    | index i => exact .index i
    | key mem text => exact .key (hkeys _ mem) text
  · rcases hknown with hknown | ⟨hknown, key, hkey⟩
    · exact .inl (violations_mono hnodes hknown)
    · exact .inr ⟨hknown, key, hkeys key hkey⟩

theorem Explains.below (h : s.Explains given v (joinPath path step) place violation)
    (hstep : s.PathStep (s.UndeclaredKey v) step) : s.Explains given v path place violation := by
  obtain ⟨⟨steps, hsteps, hplace⟩, hknown⟩ := h
  exact ⟨⟨step :: steps, List.forall_mem_cons.mpr ⟨hstep, hsteps⟩, hplace⟩, hknown⟩

end Schema

namespace Schema

open Trace Validator

variable {given : List String}

theorem explains_wrongType {s : Schema} {expected : String} {v : Value} {path : String}
    (hv : v.describe ∈ given)
    (hown : given.map (Violation.wrongType expected) ⊆ s.ownViolations given) :
    s.Explains given v path path (.wrongType expected v.describe) :=
  .own (hown (List.mem_map_of_mem hv))

/-- The violations that a node declares besides wrong types are explained where it is checked. -/
theorem reports_own {s : Schema} {v : Value} {path : String} {violations : List Violation}
    (hown : violations ⊆ s.ownViolations given) :
    ∀ violation ∈ violations, (report path violation).Reports (s.Explains given v path) :=
  fun _ hmem => reports_report (.own (hown hmem))

/-- A run reports violations that the schema declares, and undeclared keys, at places that declared names,
indices and undeclared keys lead to. -/
theorem reports_run {s : Schema} {origin : String} {validator : Validator}
    (h : s.compileAt origin = .ok validator) (hs : s.Named) {v : Value}
    (hv : v.Everywhere fun w => w.describe ∈ given) (path : String) :
    (validator.run v path).Reports (s.Explains given v path) := by
  induction s using Schema.induction generalizing origin validator v path with
  | string a f =>
      obtain ⟨rule, hrule, rfl⟩ := compileAt_string h
      cases v with
      | str text =>
          exact (closed_reports _).checkString hrule (reports_own (List.subset_append_right _ _)) text
      | _ => exact reports_report (explains_wrongType hv.here (List.subset_append_left _ _))
  | number a f =>
      obtain rfl := compileAt_number h
      rw [run]
      split
      · exact (closed_reports _).checkNumber false (reports_own (List.subset_append_right _ _))
          (fun _ _ fault _ => reports_failed fault) (fun _ _ fault _ => reports_failed fault)
      · exact reports_report (explains_wrongType hv.here (List.subset_append_left _ _))
  | integer a f =>
      obtain rfl := compileAt_integer h
      rw [run]
      split
      · exact (closed_reports _).checkNumber true (reports_own (List.subset_append_right _ _))
          (fun _ _ fault _ => reports_failed fault) (fun _ _ fault _ => reports_failed fault)
      · exact reports_report (explains_wrongType hv.here (List.subset_append_left _ _))
  | boolean a =>
      obtain rfl := compileAt_boolean h
      cases v with
      | bool b => exact (closed_reports _).empty
      | _ => exact reports_report (explains_wrongType hv.here (List.Subset.refl _))
  | array a f items ih =>
      obtain ⟨rule, child, hrule, hchild, rfl⟩ := compileAt_array h
      rw [run]
      cases hitems : v.items? with
      | none => exact reports_report (explains_wrongType hv.here (List.subset_append_left _ _))
      | some xs =>
          refine (closed_reports _).append ((closed_reports _).checkItems hrule
            (reports_own (List.subset_append_right _ _)) fun fault _ => reports_failed fault) ?_
          refine (closed_reports _).concat fun t ht => ?_
          obtain ⟨i, hi, rfl⟩ := List.mem_mapIdx.mp ht
          have hx := List.getElem_mem hi
          refine (ih hchild hs.2 (hv.items hitems _ hx) _).imp fun place violation hexplains => ?_
          exact (hexplains.mono (List.subset_cons_self _ _) fun key => .item hitems hx).below (.index i)
  | object a f ps ih =>
      obtain ⟨children, hchildren, rfl⟩ := compileAt_object h
      cases v with
      | dict entries =>
          rw [run]
          refine (closed_reports _).append ((closed_reports _).runProperties fun c hc => ?_) ?_
          · obtain ⟨p, hp, hname, hcompiled⟩ := exists_left_of_forall₂ hchildren hc
            have hstep : (Schema.object a f ps).PathStep
                ((Schema.object a f ps).UndeclaredKey (.dict entries)) c.1 := .name (mem_names hp hname)
            constructor
            · have hown : Violation.missingProperty ∈ (Schema.object a f ps).ownViolations given :=
                List.mem_append_right _ (List.mem_singleton_self _)
              exact fun _ _ => reports_report ((Explains.own hown).below hstep)
            · intro w hw
              have hmem := Value.mem_of_lookup?_str hw
              have hdeclared : property? (.str c.1) ps = some p.2 := by
                rw [← hname]
                exact property?_of_mem hs.names hp
              refine (ih p hp hcompiled (hs.property hp) ((Value.everywhere_dict.mp hv).2 _ hmem) _).imp
                fun place violation hexplains => ?_
              exact (hexplains.mono (nodes_property_subset hp) fun key => .property hmem hdeclared).below hstep
          · cases hclosed : f.additional with
            | true => exact (closed_reports _).empty
            | false =>
                refine (closed_reports _).checkUndeclared fun e he hundeclared =>
                  ⟨fun step hstep => ?_, fun fault _ => reports_failed fault⟩
                -- the validator knows the declared names alone, and these are all the keys of `ps`
                have hnone : property? e.1 ps = none := by
                  rw [property?_eq_none_iff]
                  intro p hp
                  obtain ⟨c, hc, hname, -⟩ := exists_right_of_forall₂ hchildren hp
                  rw [hname, Bool.eq_false_iff]
                  intro hsame
                  exact hundeclared c.1 (List.mem_map_of_mem hc) (Value.same_str_right.mp hsame)
                have hkey : (Schema.object a f ps).UndeclaredKey (.dict entries) e.1 :=
                  .here hclosed he hnone
                exact reports_report
                  ⟨⟨[step], by simpa using .key hkey hstep, rfl⟩, .inr ⟨rfl, e.1, hkey⟩⟩
      | _ => exact reports_report (explains_wrongType hv.here (List.subset_append_left _ _))
  | nullable a inner ih =>
      obtain ⟨child, hchild, rfl⟩ := compileAt_nullable h
      cases v with
      | null => exact (closed_reports _).empty
      | _ =>
          exact (ih hchild hs.2 hv path).imp fun place violation hexplains =>
            hexplains.mono (List.subset_cons_self _ _) fun key => .nullable
  | refined a r base ih =>
      obtain ⟨p, message, child, -, hmessage, hchild, rfl⟩ := compileAt_refined h
      -- the predicate is asked for only where the base is clean, so its record stands alone
      have hbase := (ih hchild hs.2 hv path).imp fun place violation hexplains =>
        hexplains.mono (s := .refined a r base) (v := v) (List.subset_cons_self _ _) fun key => .refined
      have hown : Violation.refinement message ∈ (Schema.refined a r base).ownViolations given := by
        simp [ownViolations, hmessage]
      rw [run]
      split
      · refine (closed_reports _).append hbase ((closed_reports _).checkPredicate
          (reports_of_records_eq_nil rfl) (reports_report (.own hown))
          fun fault _ => reports_of_records_eq_nil rfl)
      · exact hbase
  | bare a => exact absurd h compileAt_bare_ne
  | foreign u => exact absurd h compileAt_foreign_ne

end Schema

/-! ### The words of a key -/

theorem append_ne_of_head? {start rest text : String} (hstart : start.toList ≠ [])
    (h : start.toList.head? ≠ text.toList.head?) : start ++ rest ≠ text := by
  rintro rfl
  rw [String.toList_append, List.head?_append_of_ne_nil _ hstart] at h
  exact h rfl

/-- What is said of keys begins with one of two letters, and nothing else but the words of a refinement
does. -/
theorem Violation.of_message {violation : Violation} {text : String} (h : violation.message = .ok text)
    (hinitial : text.toList.head? = some 'U' ∨ text.toList.head? = some 'M') :
    violation = .unexpectedProperty ∨ violation = .missingProperty ∨ violation = .refinement text := by
  have hother {start rest : String} (hstart : start.toList ≠ [])
      (hU : start.toList.head? ≠ some 'U') (hM : start.toList.head? ≠ some 'M') : start ++ rest ≠ text := by
    refine append_ne_of_head? hstart ?_
    rcases hinitial with hinitial | hinitial
    · rwa [hinitial]
    · rwa [hinitial]
  cases violation with
  | unexpectedProperty => exact .inl rfl
  | missingProperty => exact .inr (.inl rfl)
  | refinement m => exact .inr (.inr (congrArg Violation.refinement (Except.ok.inj h)))
  | wrongType _ _ =>
      have h := Except.ok.inj h
      rw [String.append_assoc, String.append_assoc] at h
      exact absurd h (hother (by decide) (by decide) (by decide))
  | patternMismatch _ | formatMismatch _ =>
      have h := Except.ok.inj h
      rw [String.append_assoc] at h
      exact absurd h (hother (by decide) (by decide) (by decide))
  | itemsNotUnique =>
      rw [← Except.ok.inj h] at hinitial
      exact absurd hinitial (by decide)
  | tooShort _ | tooLong _ | tooFewItems _ | tooManyItems _ =>
      obtain ⟨text, -, h⟩ := bind_eq_ok_iff.mp h
      have h := Except.ok.inj h
      rw [String.append_assoc] at h
      exact absurd h (hother (by decide) (by decide) (by decide))
  | _ =>
      obtain ⟨text, -, h⟩ := bind_eq_ok_iff.mp h
      exact absurd (Except.ok.inj h) (hother (by decide) (by decide) (by decide))

namespace Schema

variable {given : List String}

/-- Of keys a node speaks only if it is an object that misses one, or a refinement that uses the words. -/
theorem of_ownViolations {n : Schema} {violation : Violation} (h : violation ∈ n.ownViolations given)
    {text : String} (hm : violation.message = .ok text)
    (hinitial : text.toList.head? = some 'U' ∨ text.toList.head? = some 'M') :
    (violation = .missingProperty ∧ ∃ a f ps, n = .object a f ps) ∨
      ∃ a r base, n = .refined a r base ∧ r.message = .str text := by
  rcases Violation.of_message hm hinitial with rfl | rfl | rfl
  · cases n with
    | refined a r base =>
        rw [ownViolations] at h
        split at h <;> simp at h
    | _ => simp [ownViolations, StringFields.violations, NumberFields.violations,
        ArrayFields.violations] at h
  · cases n with
    | object a f ps => exact .inl ⟨rfl, a, f, ps, rfl⟩
    | refined a r base =>
        rw [ownViolations] at h
        split at h <;> simp at h
    | _ => simp [ownViolations, StringFields.violations, NumberFields.violations,
        ArrayFields.violations] at h
  · cases n with
    | refined a r base =>
        rw [ownViolations] at h
        split at h
        · rename_i m hmessage
          simp only [List.mem_singleton, Violation.refinement.injEq] at h
          exact .inr ⟨a, r, base, rfl, by rw [hmessage, h]⟩
        · cases h
    | _ => simp [ownViolations, StringFields.violations, NumberFields.violations,
        ArrayFields.violations] at h

/-- The violations that a schema declares do not speak of undeclared keys, unless a refinement uses the
words. -/
theorem exists_refined_of_message {s : Schema} {violation : Violation} (h : violation ∈ s.violations given)
    (hm : violation.message = Violation.unexpectedProperty.message) :
    ∃ a r base, .refined a r base ∈ s.nodes ∧ r.message = .str "Unexpected property" := by
  obtain ⟨n, hn, hown⟩ := List.mem_flatMap.mp h
  rcases of_ownViolations hown hm (.inl (by decide)) with ⟨rfl, -⟩ | ⟨a, r, base, rfl, hmessage⟩
  · exact absurd (Except.ok.inj hm) (by decide)
  · exact ⟨a, r, base, hn, hmessage⟩

/-! ### Type names -/

/-- The conversions make values of the types of JSON. -/
theorem inherited_describe (h : jsonTypeNames ⊆ given) :
    Value.Inherited fun v => v.describe ∈ given where
  null := h (by decide)
  list _ := h (by decide : "array" ∈ jsonTypeNames)
  dict _ _ _ _ := h (by decide : "object" ∈ jsonTypeNames)
  number integral v w hv hw := by
    rcases Convert.number_cases hw with rfl | ⟨n, rfl⟩ | ⟨-, x, rfl⟩
    · exact hv
    · exact h (by decide : "integer" ∈ jsonTypeNames)
    · exact h (by decide : "number" ∈ jsonTypeNames)
  boolean v hv := by
    rcases Convert.boolean_cases v with hw | ⟨b, hw⟩
    · rwa [hw]
    · rw [hw]
      exact h (by decide : "boolean" ∈ jsonTypeNames)
  string v w hv hw := by
    rcases Convert.string_cases hw with rfl | ⟨text, rfl, -⟩
    · exact hv
    · exact h (by decide : "string" ∈ jsonTypeNames)

theorem everywhere_describe_of_isJson (h : jsonTypeNames ⊆ given) {v : Value} (hv : v.IsJson) :
    v.Everywhere fun w => w.describe ∈ given := by
  rw [Value.everywhere_iff_parts]
  intro w hw
  have hform := Value.everywhere_iff_parts.mp hv w hw
  apply h
  cases w with
  | bytes _ | tuple _ | absent | date _ | dateTime _ | set _ | uuid _ => cases hform
  | _ => simp [Value.describe, jsonTypeNames]

theorem everywhere_describe_default {s : Schema} {d : Value} (hd : d ∈ s.defaults) :
    d.Everywhere fun w => w.describe ∈ s.typeNames := by
  rw [Value.everywhere_iff_parts]
  intro w hw
  exact List.mem_append_right _ (List.mem_flatMap.mpr ⟨d, hd, List.mem_map_of_mem hw⟩)

end Schema

namespace Pipeline

open Schema

/-- Without defaults the value that is checked has no undeclared key. -/
theorem not_undeclaredKey_of_run {p : Pipeline} (hnamed : p.schema.Named) (hnone : p.schema.defaults = [])
    {t : Target} {raw : Value} {r : Run} (h : p.run t raw = .ok r) (key : Value) :
    ¬ p.schema.UndeclaredKey r.converted key := by
  intro hkey
  obtain ⟨cleaned, hclean, h⟩ := bind_eq_ok_iff.mp h
  obtain ⟨converted, hconvert, h⟩ := bind_eq_ok_iff.mp h
  obtain rfl := Except.ok.inj h
  obtain ⟨d, hd, -⟩ := List.mem_flatMap.mp (mem_defaultKeys_of_undeclaredKey hnamed hclean hconvert hkey)
  rw [hnone] at hd
  cases hd

/-- **A failure discloses nothing of the input.** Its messages are among those that the schema declares,
and its paths consist of declared names, indices and keys of declared defaults. Without defaults no undeclared
key is left to be reported, and it is a refinement whose author has chosen the words if they are found. -/
theorem disclosed_of_apply {s : Schema} {p : Pipeline} {t : Target} {raw : Value}
    {records : List ErrorRecord} (hp : ofSchema s = .ok p) (hs : s.Everywhere DeclaresOnce)
    (hraw : raw = .absent ∨ raw.IsJson) (h : p.apply t raw = .ok (.failure records)) :
    (∀ r ∈ records, r.message ∈ s.messages ∧ s.IsPath r.path ∧
      (s.defaults = [] → r.message = "Unexpected property" →
        ∃ a refinement base, .refined a refinement base ∈ s.nodes ∧
          refinement.message = .str "Unexpected property")) ∧
      (s.defaults = [] → ∀ run, p.run t raw = .ok run → ∀ key, ¬ s.UndeclaredKey run.converted key) := by
  obtain ⟨rfl, hcompile⟩ := ofSchema_eq_ok hp
  have hnamed := named_of_compileAt hcompile hs
  obtain ⟨cleaned, converted, hclean, hconvert, htrace, -⟩ := apply_eq_failure_iff.mp h
  -- the checked value has types that are known, and undeclared keys only from defaults
  have hjson : jsonTypeNames ⊆ p.schema.typeNames := List.subset_append_left _ _
  have htypes := everywhere_converted (inherited_describe hjson) hnamed
    (fun d hd => everywhere_describe_default hd) hclean hconvert
    (hraw.imp_right (everywhere_describe_of_isJson hjson))
  have hkeys : ∀ key, p.schema.UndeclaredKey converted key → key ∈ p.schema.defaultKeys := fun key =>
    mem_defaultKeys_of_undeclaredKey hnamed hclean hconvert
  refine ⟨fun r hr => ?_, fun hnone run hrun => not_undeclaredKey_of_run hnamed hnone hrun⟩
  have hrecord : r ∈ (p.validator.trace converted).records := by
    unfold Trace.toExcept at htrace
    split at htrace
    · cases htrace
    · rwa [Except.ok.inj htrace]
  obtain ⟨violation, hmessage, ⟨steps, hsteps, hplace⟩, hknown⟩ :=
    reports_run hcompile hnamed htypes "" r hrecord
  refine ⟨?_, ⟨steps, fun step hstep => ?_, hplace⟩, fun hnone hwords => ?_⟩
  · refine List.mem_filterMap.mpr ⟨violation, List.mem_append.mpr ?_, by rw [hmessage]; rfl⟩
    rcases hknown with hknown | ⟨rfl, key, hkey⟩
    · exact .inl hknown
    · refine .inr ?_
      obtain ⟨d, hd, -⟩ := List.mem_flatMap.mp (hkeys key hkey)
      rw [if_neg (by simpa using List.ne_nil_of_mem hd)]
      exact List.mem_singleton_self _
  · cases hsteps step hstep with
    | name declared => exact .name declared
    | index i => exact .index i
    | key mem text => exact .key (hkeys _ mem) text
  · rcases hknown with hknown | ⟨-, key, hkey⟩
    · refine exists_refined_of_message hknown ?_
      rw [hmessage, hwords]
      rfl
    · obtain ⟨d, hd, -⟩ := List.mem_flatMap.mp (hkeys key hkey)
      rw [hnone] at hd
      cases hd

/-- A parcel whose default label has a key that is not declared. -/
def parcel : Schema :=
  .object {} {} [
    (.str "weight", .integer {} { minimum := some (.int 1) }),
    (.str "tags", .array {} {} (.string {} {})),
    (.str "label", .object { default := some (.record [("colour", .str "red")]) } {} [])]

/-- A text that no value satisfies, with the words of an undeclared key. -/
def misnamed : Schema :=
  .refined {} ⟨.predicate ⟨"never", "never", .null, fun _ => .ok false⟩, .str "Unexpected property", none⟩
    (.string {} {})

/-- A parcel with a note that is refused in these words, and without defaults. -/
def notedParcel : Schema :=
  .object {} {} [(.str "weight", .integer {} {}), (.str "note", misnamed)]

/-- A parcel with a secret in the place of its weight, and another one under a key of its own. -/
def secretParcel : Value :=
  .record [("weight", .str "secret"), ("tags", .list [.null]), ("note", .str "secret"), ("secret", .null)]

/-- The input is named by its types alone. The key that is named is one of the schema; where the schema has no default
the words are those of a refinement, and the key of the input is gone. -/
theorem disclosed_parcels :
    secretParcel.IsJson ∧
      (∃ p records, ofSchema parcel = .ok p ∧ p.apply .json secretParcel = .ok (.failure records) ∧
        records = [⟨"weight", "Expected integer, got string"⟩, ⟨"tags.0", "Expected string, got null"⟩,
          ⟨"label.colour", "Unexpected property"⟩] ∧
        ∀ r ∈ records, r.message ∈ parcel.messages ∧ parcel.IsPath r.path) ∧
      ∃ p run, ofSchema notedParcel = .ok p ∧ notedParcel.defaults = [] ∧ p.run .json secretParcel = .ok run ∧
        run.trace.records = [⟨"weight", "Expected integer, got string"⟩, ⟨"note", "Unexpected property"⟩] ∧
        (∃ a refinement base, .refined a refinement base ∈ notedParcel.nodes ∧
          refinement.message = .str "Unexpected property") ∧
        ∀ key, ¬ notedParcel.UndeclaredKey run.converted key := by
  have hjson : secretParcel.IsJson := by
    simp [secretParcel, Value.record, Value.IsJson, Value.Everywhere, Value.EverywhereIn,
      Value.JsonForm]
  have honce : parcel.Everywhere DeclaresOnce := by
    simp [parcel, Everywhere, EverywhereAmong, DeclaresOnce, Value.same]
  have honceNoted : notedParcel.Everywhere DeclaresOnce := by
    simp [notedParcel, misnamed, Everywhere, EverywhereAmong, DeclaresOnce, Value.same]
  obtain ⟨p, hp, happly⟩ : ∃ p, ofSchema parcel = .ok p ∧
      p.apply .json secretParcel = .ok (.failure [⟨"weight", "Expected integer, got string"⟩,
        ⟨"tags.0", "Expected string, got null"⟩, ⟨"label.colour", "Unexpected property"⟩]) :=
    ⟨_, rfl, rfl⟩
  obtain ⟨q, run, hq, hrun, happly', hrecords⟩ : ∃ q run, ofSchema notedParcel = .ok q ∧
      q.run .json secretParcel = .ok run ∧
      q.apply .json secretParcel = .ok (.failure [⟨"weight", "Expected integer, got string"⟩,
        ⟨"note", "Unexpected property"⟩]) ∧
      run.trace.records = [⟨"weight", "Expected integer, got string"⟩, ⟨"note", "Unexpected property"⟩] :=
    ⟨_, _, rfl, rfl, rfl, rfl⟩
  obtain ⟨hrecorded, -⟩ := disclosed_of_apply hp honce (.inr hjson) happly
  obtain ⟨hnoted, hgone⟩ := disclosed_of_apply hq honceNoted (.inr hjson) happly'
  obtain ⟨-, -, hrefined⟩ := hnoted ⟨"note", "Unexpected property"⟩ (by simp)
  exact ⟨hjson, ⟨p, _, hp, happly, rfl, fun r hr => ⟨(hrecorded r hr).1, (hrecorded r hr).2.1⟩⟩,
    q, run, hq, rfl, hrun, hrecords, hrefined rfl rfl, hgone rfl run hrun⟩

/-- A refinement may use the words of an undeclared key where no default is declared. -/
theorem unexpected_misnamed :
    misnamed.defaults = [] ∧ (Value.str "x").IsJson ∧
      ∃ p, ofSchema misnamed = .ok p ∧
        p.apply .json (.str "x") = .ok (.failure [⟨"", "Unexpected property"⟩]) :=
  ⟨rfl, trivial, _, rfl, rfl⟩

end Pipeline

end ApiContract
