import ApiContract.Proofs.Disclosure
import ApiContract.Proofs.TextForm

/-!
# When a property is reported as missing

An object misses a declared property that is required, is not there, and has no default
(`Pipeline.missing_mem_errors_iff`). The record of a missing property has the name of the property as its
path, and no other part of the object reports there: what is reported below a property has a longer path
(`Schema.reports_run_path`). Only a refinement around the property itself can use the same words at the same
place (`Schema.UsesWords`), where a default has been filled in.
-/

namespace ApiContract

/-! ### Paths -/

theorem joinPath_of_ne {path : String} (h : path ≠ "") (step : String) :
    joinPath path step = path ++ "." ++ step :=
  if_neg (by simpa using h)

/-- Each step behind a path that is not empty adds a point and its text. -/
theorem toList_foldl_joinPath {path : String} (h : path ≠ "") (steps : List String) :
    (steps.foldl joinPath path).toList = path.toList ++ steps.flatMap fun step => '.' :: step.toList := by
  induction steps generalizing path with
  | nil => exact (List.append_nil _).symm
  | cons step steps ih =>
      have hne : path ++ "." ++ step ≠ "" := by simp [h]
      rw [List.foldl_cons, joinPath_of_ne h, ih hne]
      simp

/-- A place below a path is another one. -/
theorem foldl_joinPath_ne {path : String} (h : path ≠ "") (step : String) (steps : List String) :
    steps.foldl joinPath (joinPath path step) ≠ path := by
  intro heq
  have hlength := congrArg (fun s => s.toList.length) heq
  rw [← List.foldl_cons] at hlength
  simp only [toList_foldl_joinPath h, List.length_append, List.flatMap_cons, List.length_cons] at hlength
  omega

/-- A place without a point that steps lead to from a name is the name itself. -/
theorem eq_of_foldl_joinPath {name place : String} (hname : name ≠ "") (hplace : '.' ∉ place.toList)
    {steps : List String} (h : place = steps.foldl joinPath name) : place = name := by
  cases steps with
  | nil => exact h
  | cons step steps =>
      rw [h, toList_foldl_joinPath hname] at hplace
      exact absurd (by simp) hplace

namespace Schema

open Trace Validator

/-- A refinement around a node, or around the node behind its nullable wrappers, has these words. -/
def UsesWords (text : String) : Schema → Prop
  | .refined _ r base => r.message = .str text ∨ base.UsesWords text
  | .nullable _ inner => inner.UsesWords text
  | _ => False

/-! ### Where a run reports -/

variable {s : Schema} {validator : Validator} {origin path : String}

/-- A run reports at its path and below it. -/
theorem reports_run_place (h : s.compileAt origin = .ok validator) (hs : s.Named) (v : Value)
    (path : String) :
    (validator.run v path).Reports fun place _ => ∃ steps : List String, place = steps.foldl joinPath path := by
  have hv : v.Everywhere fun w => w.describe ∈ v.parts.map Value.describe :=
    Value.everywhere_iff_parts.mpr fun w hw => List.mem_map_of_mem hw
  refine (reports_run h hs hv path).imp fun place violation hexplains => ?_
  obtain ⟨steps, -, hplace⟩ := hexplains.steps
  exact ⟨steps, hplace⟩

/-- Below a path nothing is reported at the path. -/
theorem reports_below (h : s.compileAt origin = .ok validator) (hs : s.Named) (v : Value)
    {path : String} (hpath : path ≠ "") (step : String) {Q : Violation → Prop} :
    (validator.run v (joinPath path step)).Reports fun place violation => place = path → Q violation := by
  refine (reports_run_place h hs v _).imp fun place violation hplace heq => ?_
  obtain ⟨steps, hplace⟩ := hplace
  exact absurd (hplace.symm.trans heq) (foldl_joinPath_ne hpath step steps)

/-- The words of a missing property. -/
def missingText : String := "Missing required property"

/-- The violations that a node declares speak of no missing property, unless the node is an object or a
refinement. -/
theorem reports_own_words {n : Schema} (hobject : ∀ a f ps, n ≠ .object a f ps)
    (hrefined : ∀ a r base, n ≠ .refined a r base) {violations : List Violation}
    (hown : violations ⊆ n.ownViolations []) (path : String) :
    ∀ violation ∈ violations, (report path violation).Reports fun place violation =>
      place = path → violation.message ≠ .ok missingText := by
  refine fun violation hmem => reports_report fun _ hm => ?_
  rcases of_ownViolations (hown hmem) hm (.inr (by decide)) with ⟨-, a, f, ps, hn⟩ | ⟨a, r, base, hn, -⟩
  · exact hobject a f ps hn
  · exact hrefined a r base hn

theorem reports_wrongType_words (expected given path : String) :
    (report path (.wrongType expected given)).Reports fun place violation =>
      place = path → violation.message ≠ .ok missingText := by
  refine reports_report fun _ hm => ?_
  rcases Violation.of_message hm (.inr (by decide)) with hv | hv | hv
  · cases hv
  · cases hv
  · cases hv

/-- At its own path a run speaks of no missing property, unless a refinement there uses the words. -/
theorem reports_run_path (h : s.compileAt origin = .ok validator) (hs : s.Named)
    (hwords : ¬ s.UsesWords missingText) (v : Value) (hpath : path ≠ "") :
    (validator.run v path).Reports fun place violation =>
      place = path → violation.message ≠ .ok missingText := by
  -- by induction through refinements and nullable wrappers; what is reported of parts lies below the path
  induction s using Schema.induction generalizing origin validator with
  | string a f =>
      obtain ⟨rule, hrule, rfl⟩ := compileAt_string h
      cases v with
      | str text =>
          exact (closed_reports _).checkString hrule
            (reports_own_words (n := .string a f) (by simp) (by simp) (List.Subset.refl _) path) text
      | _ => exact reports_wrongType_words _ _ path
  | number a f =>
      obtain rfl := compileAt_number h
      rw [run]
      split
      · exact (closed_reports _).checkNumber false
          (reports_own_words (n := .number a f) (by simp) (by simp) (List.Subset.refl _) path)
          (fun _ _ fault _ => reports_failed fault) (fun _ _ fault _ => reports_failed fault)
      · exact reports_wrongType_words _ _ path
  | integer a f =>
      obtain rfl := compileAt_integer h
      rw [run]
      split
      · exact (closed_reports _).checkNumber true
          (reports_own_words (n := .integer a f) (by simp) (by simp) (List.Subset.refl _) path)
          (fun _ _ fault _ => reports_failed fault) (fun _ _ fault _ => reports_failed fault)
      · exact reports_wrongType_words _ _ path
  | boolean a =>
      obtain rfl := compileAt_boolean h
      cases v with
      | bool b => exact (closed_reports _).empty
      | _ => exact reports_wrongType_words _ _ path
  | array a f items ih =>
      obtain ⟨rule, child, hrule, hchild, rfl⟩ := compileAt_array h
      rw [run]
      cases v.items? with
      | none => exact reports_wrongType_words _ _ path
      | some xs =>
          refine (closed_reports _).append ((closed_reports _).checkItems hrule
            (reports_own_words (n := .array a f items) (by simp) (by simp) (List.Subset.refl _) path)
            fun fault _ => reports_failed fault) ((closed_reports _).concat fun t ht => ?_)
          obtain ⟨i, hi, rfl⟩ := List.mem_mapIdx.mp ht
          exact reports_below hchild hs.2 _ hpath _
  | object a f ps ih =>
      obtain ⟨children, hchildren, rfl⟩ := compileAt_object h
      cases v with
      | dict entries =>
          have hbelow (step : String) (violation : Violation) :
              (report (joinPath path step) violation).Reports fun place violation =>
                place = path → violation.message ≠ .ok missingText :=
            reports_report fun heq => absurd heq (foldl_joinPath_ne hpath step [])
          rw [run]
          refine (closed_reports _).append ((closed_reports _).runProperties fun c hc => ?_) ?_
          · obtain ⟨p, hp, -, hcompiled⟩ := exists_left_of_forall₂ hchildren hc
            exact ⟨fun _ _ => hbelow _ _, fun w _ => reports_below hcompiled (hs.property hp) w hpath _⟩
          · split
            · exact (closed_reports _).empty
            · exact (closed_reports _).checkUndeclared fun e _ _ =>
                ⟨fun step _ => hbelow _ _, fun fault _ => reports_failed fault⟩
      | _ => exact reports_wrongType_words _ _ path
  | nullable a inner ih =>
      obtain ⟨child, hchild, rfl⟩ := compileAt_nullable h
      have hinner := ih hchild hs.2 hwords
      cases v with
      | null => exact (closed_reports _).empty
      | _ => exact hinner
  | refined a r base ih =>
      obtain ⟨p, message, child, -, hmessage, hchild, rfl⟩ := compileAt_refined h
      obtain ⟨hown, hbase⟩ := not_or.mp hwords
      rw [run]
      split
      · refine (closed_reports _).append (ih hchild hs.2 hbase) ((closed_reports _).checkPredicate
          (reports_of_records_eq_nil rfl) (reports_report fun _ hm => hown ?_)
          fun fault _ => reports_of_records_eq_nil rfl)
        rw [hmessage, Except.ok.inj hm]
      · exact ih hchild hs.2 hbase
  | bare a => exact absurd h compileAt_bare_ne
  | foreign u => exact absurd h compileAt_foreign_ne

/-! ### The object at the root -/

/-- A required property that is not there is reported. -/
theorem mem_records_runProperties {rule : ObjectRule} {children : List (String × Validator)}
    {entries : List (Value × Value)} (hfault : (runProperties rule children entries path).fault = none)
    {c : String × Validator} (hc : c ∈ children) (hrequired : c.1 ∈ rule.required)
    (hmissing : Value.lookup? (.str c.1) entries = none) :
    ⟨joinPath path c.1, missingText⟩ ∈ (runProperties rule children entries path).records := by
  induction children with
  | nil => cases hc
  | cons d children ih =>
      obtain ⟨name, child⟩ := d
      rw [runProperties] at hfault ⊢
      obtain ⟨hfirst, hrest⟩ := (fault_append_eq_none_iff _ _).mp hfault
      rw [records_append hfirst, List.mem_append]
      rcases List.mem_cons.mp hc with rfl | hc
      · left
        rw [hmissing]
        dsimp only
        rw [List.contains_iff_mem.mpr hrequired]
        exact List.mem_singleton_self _
      · exact .inr (ih hrest hc)

/-- What is there under a name does not say that a property is missing, unless a refinement of the property
with this name uses the words. -/
theorem reports_run_name (h : s.compileAt origin = .ok validator) (hs : s.Named) {name k : String}
    (hname : name ≠ "") (hpoint : '.' ∉ k.toList) (hwords : name = k → ¬ s.UsesWords missingText) (v : Value) :
    (validator.run v name).Reports fun place violation => place = k → violation.message ≠ .ok missingText := by
  by_cases hsame : name = k
  · subst hsame
    exact reports_run_path h hs (hwords rfl) v hname
  · -- what is reported under another name is reported at it or below it
    refine (reports_run_place h hs v name).imp fun place violation hplace heq => ?_
    obtain ⟨steps, hplace⟩ := hplace
    rw [heq] at hplace
    exact absurd (eq_of_foldl_joinPath hname hpoint hplace).symm hsame

section Object

variable {a : Annotations} {f : ObjectFields} {ps : List (Value × Schema)} {p : Value × Schema} {k : String}
  {entries : List (Value × Value)}

/-- An object speaks of a declared property as missing only if it is required and not there, unless a refinement
around the property uses the words. -/
theorem reports_missing (h : (Schema.object a f ps).compileAt origin = .ok validator)
    (hs : (Schema.object a f ps).Named) (hnames : ∀ q ∈ ps, q.1 ≠ .str "") (hp : p ∈ ps) (hk : p.1 = .str k)
    (hpoint : '.' ∉ k.toList)
    (hwords : Value.hasKey (.str k) entries = true → ¬ p.2.UsesWords missingText) :
    (validator.run (.dict entries) "").Reports fun place violation =>
      place = k → violation.message = .ok missingText →
        .str k ∈ requiredKeys f ps ∧ Value.hasKey (.str k) entries = false := by
  obtain ⟨children, hchildren, rfl⟩ := compileAt_object h
  rw [run]
  refine (closed_reports _).append ((closed_reports _).runProperties fun c hc => ⟨?missing, ?given⟩) ?undeclared
  case missing =>
    intro hmissing hrequired
    refine reports_report fun hplace _ => ?_
    obtain rfl : c.1 = k := hplace
    exact ⟨mem_textKeys.mp hrequired, Value.lookup?_eq_none_iff.mp hmissing⟩
  case given =>
    intro w hw
    obtain ⟨q, hq, hname, hcompiled⟩ := exists_left_of_forall₂ hchildren hc
    have hne : c.1 ≠ "" := fun hempty => hnames q hq (hname.trans (congrArg Value.str hempty))
    refine (reports_run_name hcompiled (hs.property hq) hne hpoint (fun hsame => ?_) w).imp
      fun place violation hsilent hplace hm => absurd hm (hsilent hplace)
    obtain rfl : p = q := by
      refine List.inj_on_of_nodup_map hs.names.differ hp hq ?_
      rw [hk, hname, hsame]
    refine hwords ?_
    rw [← Value.lookup?_isSome, ← hsame, hw]
    rfl
  case undeclared =>
    split
    · exact (closed_reports _).empty
    · refine (closed_reports _).checkUndeclared fun e _ _ => ⟨fun step _ => ?_, fun fault _ => ?_⟩
      · exact reports_report fun _ hm => absurd (Except.ok.inj hm) (by decide)
      · exact reports_failed fault

/-- An object reports a declared property as missing exactly if it is required and not there, unless a
refinement around the property uses the words. -/
theorem missing_mem_records_iff (h : (Schema.object a f ps).compileAt origin = .ok validator)
    (hs : (Schema.object a f ps).Named) (hnames : ∀ q ∈ ps, q.1 ≠ .str "") (hp : p ∈ ps) (hk : p.1 = .str k)
    (hpoint : '.' ∉ k.toList)
    (hwords : Value.hasKey (.str k) entries = true → ¬ p.2.UsesWords missingText)
    (hfault : (validator.run (.dict entries) "").fault = none) :
    ⟨k, missingText⟩ ∈ (validator.run (.dict entries) "").records ↔
      .str k ∈ requiredKeys f ps ∧ Value.hasKey (.str k) entries = false := by
  constructor
  · intro hmem
    obtain ⟨violation, hm, himp⟩ := reports_missing h hs hnames hp hk hpoint hwords _ hmem
    exact himp rfl hm
  · rintro ⟨hrequired, hmissing⟩
    obtain ⟨children, hchildren, rfl⟩ := compileAt_object h
    rw [run] at hfault ⊢
    obtain ⟨c, hc, hname, -⟩ := exists_right_of_forall₂ hchildren hp
    obtain rfl : k = c.1 := Value.str.inj (hk.symm.trans hname)
    obtain ⟨hproperties, -⟩ := (fault_append_eq_none_iff _ _).mp hfault
    rw [records_append hproperties, List.mem_append]
    exact .inl (mem_records_runProperties hproperties hc (mem_textKeys.mpr hrequired)
      (Value.lookup?_eq_none_iff.mpr hmissing))

end Object

/-- Refinements report at the path of their node alone. -/
theorem exists_unwrap (h : s.compileAt origin = .ok validator) (v : Value) (path : String) :
    ∃ inner, s.unwrap.compileAt origin = .ok inner ∧
      ((validator.run v path).fault = none → (inner.run v path).fault = none) ∧
      ∀ r : ErrorRecord, r.path ≠ path →
        (r ∈ (validator.run v path).records ↔ r ∈ (inner.run v path).records) := by
  induction s using Schema.induction generalizing validator with
  | refined a r base ih =>
      obtain ⟨p, message, child, -, -, hchild, rfl⟩ := compileAt_refined h
      obtain ⟨inner, hinner, hfault, hrecords⟩ := ih hchild
      refine ⟨inner, hinner, fun hnone => hfault ?_, fun record hplace => ?_⟩
      · rw [run] at hnone
        split at hnone
        · exact ((fault_append_eq_none_iff _ _).mp hnone).1
        · exact hnone
      · rw [← hrecords record hplace, run]
        split
        · rename_i hclean
          obtain ⟨hnone, hnil⟩ := (isClean_iff _).mp hclean
          rw [records_append hnone, hnil, List.nil_append]
          refine iff_of_false ?_ List.not_mem_nil
          have hplaced : (checkPredicate p message v path).Reports fun place _ => place = path :=
            (closed_reports _).checkPredicate (reports_of_records_eq_nil rfl) (reports_report rfl)
              fun fault _ => reports_of_records_eq_nil rfl
          intro hmem
          obtain ⟨violation, -, heq⟩ := hplaced record hmem
          exact hplace heq
        · exact Iff.rfl
  | _ => exact ⟨validator, h, id, fun _ _ => Iff.rfl⟩

/-! ### The stages before the check -/

theorem cleanHeaders_unwrap (s : Schema) (v : Value) : s.unwrap.cleanHeaders v = s.cleanHeaders v := by
  induction s using Schema.induction with
  | refined a r base ih => exact ih
  | _ => rfl

/-- No key of a mapping is matched with a name. The names of headers are matched without regard to case. -/
def Unmatched (t : Target) (k : String) (entries : List (Value × Value)) : Prop :=
  ∀ e ∈ entries, e.1 ≠ .str k ∧
    (t = .header → ∀ text, e.1.plain = .ok text → Text.toLower text ≠ Text.toLower k)

theorem hasKey_eq_false {k : String} {entries : List (Value × Value)} (h : ∀ e ∈ entries, e.1 ≠ .str k) :
    Value.hasKey (.str k) entries = false := by
  rw [← Bool.not_eq_true, Value.hasKey_str]
  intro hmem
  obtain ⟨e, he, hkey⟩ := List.mem_map.mp hmem
  exact h e he hkey

/-- No header is renamed to a name that it does not match. -/
theorem hasKey_renameHeaders {ps : List (Value × Schema)} {k : String}
    {entries renamed : List (Value × Value)} (h : renameHeaders ps entries = .ok renamed)
    (hunmatched : Unmatched .header k entries) : Value.hasKey (.str k) renamed = false := by
  obtain ⟨names, hfolded, h⟩ := bind_eq_ok_iff.mp h
  obtain ⟨pairs, hpairs, h⟩ := bind_eq_ok_iff.mp h
  obtain rfl := Except.ok.inj h
  refine hasKey_eq_false fun e he => (Value.forall_ofEntries (P := fun key => key ≠ .str k)
    (Q := fun _ => True) (fun e' he' => ⟨?_, trivial⟩) e he).1
  obtain ⟨e, he, hstep⟩ := exists_left_of_forall₂ (mapM_eq_ok_iff.mp hpairs) he'
  obtain ⟨text, htext, hstep⟩ := bind_eq_ok_iff.mp hstep
  obtain rfl := Except.ok.inj hstep
  obtain ⟨hkey, hfold⟩ := hunmatched e he
  cases hfound : names.lookup (Text.toLower text) with
  | none => exact hkey
  | some key =>
      obtain ⟨q, -, name, -, hsame, rfl⟩ := of_lookup_foldedNames hfolded hfound
      intro hname
      rw [Value.str.inj hname] at hsame
      exact hfold rfl text htext hsame

section Stages

variable {a : Annotations} {f : ObjectFields} {ps : List (Value × Schema)} {t : Target} {k : String}
  {entries : List (Value × Value)} {p : Value × Schema} {cleaned converted : Value}

/-- A key that is not there is not there after cleaning. -/
theorem exists_cleaned (hnames : Names ps) (hnode : s.unwrap = .object a f ps) (hp : p ∈ ps)
    (hk : p.1 = .str k) (hunmatched : Unmatched t k entries)
    (h : s.cleanFor (some t) (.dict entries) = .ok cleaned) :
    ∃ es, cleaned = .dict es ∧ Value.hasKey (.str k) es = false := by
  have hcleaned {es : List (Value × Value)} (hes : Value.hasKey (.str k) es = false) :
      Value.hasKey (.str k) (es.filterMap (cleanedEntry f ps)) = false := by
    rw [← hk, ← Value.lookup?_eq_none_iff] at hes ⊢
    rw [lookup?_cleanedEntries hnames hp, hes]
    rfl
  unfold cleanFor at h
  split_ifs at h with ht
  · obtain rfl : t = .header := by simpa using ht
    rw [← cleanHeaders_unwrap, hnode] at h
    obtain ⟨renamed, hrenamed, h⟩ := bind_eq_ok_iff.mp h
    obtain rfl := Except.ok.inj h
    exact ⟨_, clean_dict a f ps renamed, hcleaned (hasKey_renameHeaders hrenamed hunmatched)⟩
  · rw [← clean_unwrap, hnode, clean_dict] at h
    exact ⟨_, (Except.ok.inj h).symm, hcleaned (hasKey_eq_false fun e he => (hunmatched e he).1)⟩

/-- In the value that is checked a property that was not there is there exactly if it has a default. -/
theorem exists_converted (hnames : Names ps) (hnode : s.unwrap = .object a f ps) (hp : p ∈ ps)
    (hk : p.1 = .str k) (hunmatched : Unmatched t k entries)
    (hclean : s.cleanFor (some t) (.dict entries) = .ok cleaned)
    (hconvert : s.convertFor (some t) (Pipeline.nullIfAbsent (s.applyDefaults cleaned)) = .ok converted) :
    ∃ es, converted = .dict es ∧ Value.hasKey (.str k) es = p.2.declaredDefault.isSome := by
  obtain ⟨es, rfl, hes⟩ := exists_cleaned hnames hnode hp hk hunmatched hclean
  have hfilled : s.applyDefaults (.dict es) = .dict (fillProperties ps es) := by
    rw [applyDefaults_of_isAbsent_eq_false s rfl, ← fill_unwrap, hnode]
    rfl
  rw [hfilled, convertFor, ← convert_unwrap, hnode] at hconvert
  obtain ⟨es', rfl, hconverted⟩ := convert_dict_eq_ok.mp hconvert
  refine ⟨es', rfl, (hasKey_congr hconverted.keys _).trans ?_⟩
  rw [← hk, hasKey_fillProperties hnames hp, hk, hes, Bool.false_or]

end Stages

end Schema

namespace Pipeline

open Schema

/-- Where no key matches the name of a property, the property is reported as missing exactly if it is required
and has no default. -/
theorem missing_mem_errors_iff {s : Schema} {validator : Validator} (h : s.compile = .ok validator)
    (honce : s.Everywhere DeclaresOnce) {f : ObjectFields} {ps : List (Value × Schema)}
    (hobject : s.object? = some (f, ps)) (hnames : ∀ q ∈ ps, q.1 ≠ .str "") {p : Value × Schema} (hp : p ∈ ps)
    {k : String} (hk : p.1 = .str k) (hpoint : '.' ∉ k.toList)
    (hwords : p.2.declaredDefault = none ∨ ¬ p.2.UsesWords missingText) {t : Target}
    {entries : List (Value × Value)} (hunmatched : Unmatched t k entries) {outcome : Outcome}
    (happly : apply ⟨s, validator⟩ t (.dict entries) = .ok outcome) :
    ⟨k, missingText⟩ ∈ outcome.errors ↔ .str k ∈ requiredKeys f ps ∧ p.2.declaredDefault = none := by
  obtain ⟨a, hnode⟩ := object?_eq_some hobject
  have hnamed := named_of_compileAt h honce
  have hinner : (Schema.object a f ps).Named := hnode ▸ hnamed.unwrap
  obtain ⟨cleaned, converted, hclean, hconvert, htrace⟩ := errors_of_apply happly
  obtain ⟨es, rfl, hkey⟩ := exists_converted hinner.names hnode hp hk hunmatched hclean hconvert
  have hfault : (validator.trace (.dict es)).fault = none ∧
      (validator.trace (.dict es)).records = outcome.errors := by
    unfold Trace.toExcept at htrace
    split at htrace
    · cases htrace
    · rename_i hnone
      exact ⟨hnone, Except.ok.inj htrace⟩
  -- refinements of the object report at the root, and the name is not empty
  have hplace : k ≠ "" := fun hempty => hnames p hp (hk.trans (congrArg Value.str hempty))
  obtain ⟨inner, hcompiled, hnone, hrecords⟩ := exists_unwrap h (.dict es) ""
  rw [hnode] at hcompiled
  have hmissing : Value.hasKey (.str k) es = false ↔ p.2.declaredDefault = none := by
    rw [hkey]
    cases p.2.declaredDefault <;> simp
  have hsilent : Value.hasKey (.str k) es = true → ¬ p.2.UsesWords missingText := by
    intro hthere
    refine hwords.resolve_left fun hnodefault => ?_
    rw [← hmissing, hthere] at hnodefault
    cases hnodefault
  rw [← hfault.2, ← hmissing]
  exact (hrecords ⟨k, missingText⟩ hplace).trans
    (missing_mem_records_iff hcompiled hinner hnames hp hk hpoint hsilent (hnone hfault.1))

end Pipeline

end ApiContract
