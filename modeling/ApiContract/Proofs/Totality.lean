import ApiContract.Proofs.CanonicalText
import ApiContract.Proofs.Inheritance
import ApiContract.Proofs.Violations

/-!
# Validation gives a result

What is wrong with an input is reported as data. Faults come from single steps alone: an integer that has no
decimal text, a step that a number cannot be divided by, a predicate that raises. Where the schema and the
input hold none of these (`Schema.Answers`, `Value.IsPrintable`), each stage gives a value, the check ends
without a fault (`Schema.fault_run`), and so the pipeline returns: `Pipeline.returns_of_isPrintable`.
-/

namespace ApiContract

/-! ### Values -/

namespace Value

/-- Conversion toward a number reads and makes no number that has no text. -/
theorem printableForm_number {integral : Bool} {v w : Value} (hv : v.PrintableForm)
    (h : Convert.number integral v = .ok w) : w.PrintableForm := by
  cases v with
  | str s =>
      rcases Convert.numberOfText_cases h with rfl | ⟨-, n, hn, rfl⟩ | ⟨-, x, hx, rfl⟩
      · trivial
      · exact Numeral.withinLimit_of_readInt? hn
      · have hdouble := Binary64.isDouble_toFloat hx
        rcases Convert.admitted_cases integral s x with hkept | ⟨n, hn, hint⟩ | ⟨-, -, hfloat⟩
        · rw [hkept]
          trivial
        · rw [hint]
          exact Binary64.withinLimit_of_toInt? hdouble hn
        · rw [hfloat]
          exact hdouble
  | float x =>
      rcases Convert.number_float integral x with hkept | ⟨n, hn, hint⟩
      · rw [Except.ok.inj (h.symm.trans hkept)]
        exact hv
      · rw [Except.ok.inj (h.symm.trans hint)]
        exact Binary64.withinLimit_of_toInt? hv hn
  | _ =>
      obtain rfl := Except.ok.inj h
      exact hv

theorem inherited_printableForm : Inherited PrintableForm where
  null := trivial
  list _ := trivial
  dict entries entries' hkeys hsame e' he' := by
    rcases hsame e' he' with ⟨e, he, hkey⟩ | hname
    · rw [hkey]
      exact hkeys e he
    · exact hname
  number integral v w hv h := printableForm_number hv h
  boolean v hv := by
    rcases Convert.boolean_cases v with h | ⟨b, h⟩
    · rwa [h]
    · rw [h]
      trivial
  string v w hv h := by
    rcases Convert.string_cases h with rfl | ⟨text, rfl, -⟩
    · exact hv
    · trivial

theorem exists_plain_int {n : Int} (h : Numeral.withinLimit n = true) :
    ∃ text, (Value.int n).plain = .ok text := by
  rw [plain, display]
  · exact intText_eq_ok_iff.mpr h
  all_goals rintro _ ⟨⟩

/-- Two numbers have an order, or none because one of them is not a number. -/
theorem order_of_numbers {a b : Value} {x y : Number} (ha : a.number? = some x) (hb : b.number? = some y) :
    a.order b = .ok (x.compare? y) := by
  cases a with
  | bool _ | int _ | float _ =>
      obtain rfl := Option.some.inj ha
      cases b with
      | bool _ | int _ | float _ =>
          obtain rfl := Option.some.inj hb
          rfl
      | _ => cases hb
  | _ => cases ha

end Value

/-! ### Steps -/

/-- A step that every number which a node looks at can be divided by. -/
def Value.Divides (integral : Bool) : Value → Prop
  | .int n => integral = true ∨ ∃ x, Binary64.ofInt? n = some x
  | .float x => x.isFinite = true
  | _ => False

namespace Validator

theorem number?_of_isNumeric {integral : Bool} {v : Value} (h : isNumeric integral v = true) :
    ∃ n, v.number? = some n := by
  cases v with
  | int n => exact ⟨_, rfl⟩
  | float x => exact ⟨_, rfl⟩
  | _ => cases h

theorem exists_isMultiple {integral : Bool} {v step : Value} (hv : isNumeric integral v = true)
    (hstep : step.Divides integral) : ∃ b, isMultiple v step = .ok b := by
  cases step with
  | int k =>
      cases v with
      | int n => exact ⟨_, rfl⟩
      | float x =>
          rcases hstep with rfl | ⟨y, hy⟩
          · cases hv
          · show ∃ b, Value.Number.isMultiple (.float x) (.int k) = .ok b
            rw [Value.Number.isMultiple, Value.Number.toFloat, hy]
            exact ⟨_, rfl⟩
      | _ => cases hv
  | float x =>
      cases v with
      | int n =>
          cases x with
          | finite s m e =>
              show ∃ b, Value.Number.isMultiple (.int n) (.float (.finite s m e)) = .ok b
              unfold Value.Number.isMultiple
              dsimp only
              split_ifs with hexact
              · exact ⟨_, rfl⟩
              · -- an integer that is not compared exactly has a nearest double
                obtain ⟨y, hy⟩ := Binary64.exists_ofInt? (Nat.not_le.mp hexact)
                rw [Value.Number.toFloat, hy]
                exact ⟨_, rfl⟩
          | _ => cases hstep
      | float y => exact ⟨_, rfl⟩
      | _ => cases hv
  | _ => cases hstep

end Validator

/-! ### Schemas -/

/-- The fields of a number node can be compared with and divided by. -/
structure NumberFields.Usable (integral : Bool) (f : NumberFields) : Prop where
  bounds : ∀ b ∈ f.bounds, ∃ n, b.number? = some n
  step : ∀ step, f.multipleOf = some step → step.Divides integral

namespace Schema

open Trace Validator

/-- A node whose checks never end in a fault: what it reports has words, what it compares a number with is
a number, and its predicate returns. -/
structure Answers (s : Schema) : Prop where
  words : ∀ violation ∈ s.ownViolations [], ∃ text, violation.message = .ok text
  number : ∀ a f, s = .number a f → f.Usable false
  integer : ∀ a f, s = .integer a f → f.Usable true
  predicate : ∀ a r base p, s = .refined a r base → r.condition = .predicate p →
    ∀ v, ∃ b, p.holds v = .ok b

theorem closed_faultless : Closed fun t => t.fault = none where
  empty := rfl
  append {t t'} h h' := by
    rw [append_of_no_fault h]
    exact h'

theorem fault_report {path : String} {violation : Violation}
    (h : ∃ text, violation.message = .ok text) : (report path violation).fault = none := by
  obtain ⟨text, h⟩ := h
  rw [report, h]

/-- Items with canonical texts can be compared. -/
theorem exists_hasDuplicate {xs : List Value} (h : ∀ x ∈ xs, x.IsPrintable) :
    ∃ b, hasDuplicate xs = .ok b := by
  obtain ⟨keys, hkeys⟩ := exists_mapM_eq_ok fun x hx => Json.exists_writeAt (h x hx) 0
  exact ⟨_, bind_eq_ok_iff.mpr ⟨keys, hkeys, rfl⟩⟩

/-- The check of a number ends without a fault. -/
theorem fault_checkNumber {integral : Bool} {f : NumberFields} (hf : f.Usable integral) {v : Value}
    (hv : isNumeric integral v = true) {path : String}
    (hwords : ∀ violation ∈ f.violations, ∃ text, violation.message = .ok text) :
    (checkNumber ⟨integral, f.minimum, f.maximum, f.exclusiveMinimum, f.exclusiveMaximum, f.multipleOf,
      f.enum⟩ v path).fault = none := by
  refine closed_faultless.checkNumber integral (fun violation hmem => fault_report (hwords _ hmem)) ?_ ?_
  · intro b hb fault hfault
    obtain ⟨x, hx⟩ := number?_of_isNumeric hv
    obtain ⟨y, hy⟩ := hf.bounds b hb
    rw [Value.order_of_numbers hx hy] at hfault
    cases hfault
  · intro step hstep fault hfault
    obtain ⟨b, hb⟩ := exists_isMultiple hv (hf.step step hstep)
    rw [hb] at hfault
    cases hfault

/-- A run on a value whose numbers have texts ends without a fault. -/
theorem fault_run {s : Schema} {origin : String} {validator : Validator}
    (h : s.compileAt origin = .ok validator) (hs : s.Everywhere Answers) {v : Value}
    (hv : v.IsPrintable) (path : String) : (validator.run v path).fault = none := by
  induction s using Schema.induction generalizing origin validator v path with
  | string a f =>
      obtain ⟨rule, hrule, rfl⟩ := compileAt_string h
      cases v with
      | str text =>
          exact closed_faultless.checkString hrule (fun _ hmem => fault_report (hs.words _ hmem)) text
      | _ => exact fault_report ⟨_, rfl⟩
  | number a f =>
      obtain rfl := compileAt_number h
      rw [run]
      split
      · rename_i hnumeric
        exact fault_checkNumber (hs.number a f rfl) hnumeric hs.words
      · exact fault_report ⟨_, rfl⟩
  | integer a f =>
      obtain rfl := compileAt_integer h
      rw [run]
      split
      · rename_i hnumeric
        exact fault_checkNumber (hs.integer a f rfl) hnumeric hs.words
      · exact fault_report ⟨_, rfl⟩
  | boolean a =>
      obtain rfl := compileAt_boolean h
      cases v with
      | bool b => rfl
      | _ => exact fault_report ⟨_, rfl⟩
  | array a f items ih =>
      obtain ⟨rule, child, hrule, hchild, rfl⟩ := compileAt_array h
      rw [run]
      cases hitems : v.items? with
      | none => exact fault_report ⟨_, rfl⟩
      | some xs =>
          have hxs := hv.items hitems
          refine closed_faultless.append (closed_faultless.checkItems hrule
            (fun _ hmem => fault_report (hs.1.words _ hmem)) fun fault hfault => ?_)
            (closed_faultless.concat fun t ht => ?_)
          · -- the items have canonical texts to be compared by
            obtain ⟨b, hb⟩ := exists_hasDuplicate hxs
            rw [hb] at hfault
            cases hfault
          · obtain ⟨i, hi, rfl⟩ := List.mem_mapIdx.mp ht
            exact ih hchild hs.2 (hxs _ (List.getElem_mem hi)) _
  | object a f ps ih =>
      obtain ⟨children, hchildren, rfl⟩ := compileAt_object h
      obtain ⟨hown, hproperties⟩ := everywhere_object.mp hs
      cases v with
      | dict entries =>
          obtain ⟨hkeys, hvalues⟩ := Value.everywhere_dict.mp hv
          rw [run]
          refine closed_faultless.append (closed_faultless.runProperties fun c hc => ?_) ?_
          · obtain ⟨p, hp, -, hcompiled⟩ := exists_left_of_forall₂ hchildren hc
            refine ⟨fun _ _ => fault_report ⟨_, rfl⟩, fun w hw => ?_⟩
            exact ih p hp hcompiled (hproperties p hp) (hvalues _ (Value.mem_of_lookup?_str hw)) _
          · split
            · rfl
            · refine closed_faultless.checkUndeclared fun e he _ =>
                ⟨fun step _ => fault_report ⟨_, rfl⟩, fun fault hfault => ?_⟩
              -- a key is a text, so it can be put into a path
              obtain ⟨name, hname⟩ := hkeys e he
              rw [hname] at hfault
              cases hfault
      | _ => exact fault_report ⟨_, rfl⟩
  | nullable a inner ih =>
      obtain ⟨child, hchild, rfl⟩ := compileAt_nullable h
      cases v with
      | null => rfl
      | _ => exact ih hchild hs.2 hv path
  | refined a r base ih =>
      obtain ⟨p, message, child, hp, -, hchild, rfl⟩ := compileAt_refined h
      have hbase := ih hchild hs.2 hv path
      rw [run]
      split
      · refine closed_faultless.append hbase (closed_faultless.checkPredicate rfl
          (fault_report ⟨_, rfl⟩) fun fault hfault => ?_)
        obtain ⟨b, hb⟩ := hs.1.predicate a r base p rfl hp v
        rw [hb] at hfault
        cases hfault
      · exact hbase
  | bare a => exact absurd h compileAt_bare_ne
  | foreign u => exact absurd h compileAt_foreign_ne

/-! ### The stages before the check -/

theorem exists_cleanHeaders {s : Schema} (hs : s.Named) {v : Value} (hv : v.IsPrintable) :
    ∃ w, s.cleanHeaders v = .ok w := by
  induction s using Schema.induction with
  | object a f ps ih =>
      cases v with
      | dict entries =>
          obtain ⟨names, hnames⟩ := exists_foldedNames hs.names
          have hkeys := (Value.everywhere_dict.mp hv).1
          have hrenamed : ∃ renamed, renameHeaders ps entries = .ok renamed := by
            have hmember : ∀ e ∈ entries, ∃ member, (do
                let folded := Text.toLower (← e.1.plain)
                return ((names.lookup folded).getD e.1, e.2)) = Except.ok member := by
              intro e he
              obtain ⟨name, hname⟩ := hkeys e he
              exact ⟨_, bind_eq_ok_iff.mpr ⟨name, by rw [hname]; rfl, rfl⟩⟩
            obtain ⟨pairs, hpairs⟩ := exists_mapM_eq_ok hmember
            exact ⟨_, bind_eq_ok_iff.mpr ⟨names, hnames, bind_eq_ok_iff.mpr ⟨pairs, hpairs, rfl⟩⟩⟩
          obtain ⟨renamed, hrenamed⟩ := hrenamed
          exact ⟨_, bind_eq_ok_iff.mpr ⟨renamed, hrenamed, rfl⟩⟩
      | _ => exact ⟨_, rfl⟩
  | nullable a inner ih =>
      rw [cleanHeaders_nullable]
      exact ih hs.2
  | refined a r base ih => exact ih hs.2
  | _ => exact ⟨_, rfl⟩

theorem exists_cleanFor {s : Schema} (hs : s.Named) (t : Option Target) {v : Value}
    (hv : v.IsPrintable) : ∃ w, s.cleanFor t v = .ok w := by
  unfold cleanFor
  split
  · exact exists_cleanHeaders hs hv
  · exact ⟨_, rfl⟩

theorem exists_convert (textual : Bool) {s : Schema} {v : Value} (hv : v.IsPrintable) :
    ∃ w, s.convert textual v = .ok w := by
  induction s using Schema.induction generalizing v with
  | string a f =>
      cases v with
      | int n =>
          obtain ⟨text, htext⟩ := intText_eq_ok_iff.mpr hv
          exact ⟨_, bind_eq_ok_iff.mpr ⟨text, htext, rfl⟩⟩
      | _ => exact ⟨_, rfl⟩
  | number a f => exact Convert.exists_number false v
  | integer a f => exact Convert.exists_number true v
  | array a f items ih =>
      cases hitems : v.items? with
      | some xs =>
          obtain ⟨ys, hys⟩ := exists_mapM_eq_ok fun x hx => ih (hv.items hitems x hx)
          exact ⟨_, (convert_items_eq_ok hitems).mpr ⟨ys, rfl, mapM_eq_ok_iff.mp hys⟩⟩
      | none =>
          cases halone : textual && standsAlone v with
          | true =>
              obtain ⟨y, hy⟩ := ih hv
              exact ⟨_, (convert_single_eq_ok hitems halone).mpr ⟨y, rfl, hy⟩⟩
          | false => exact ⟨v, convert_array_of_other hitems halone⟩
  | object a f ps ih =>
      cases v with
      | dict entries =>
          have hvalues := (Value.everywhere_dict.mp hv).2
          have hitem : ∀ e ∈ entries, ∃ item, convertProperty textual ps e.1 e.2 = .ok item := by
            intro e he
            rw [convertProperty_eq]
            cases hfound : property? e.1 ps with
            | none => exact ⟨_, rfl⟩
            | some child =>
                obtain ⟨p, hp, rfl⟩ := exists_of_property? hfound
                exact ih p hp (hvalues e he)
          obtain ⟨converted, hconverted⟩ := exists_convert_dict a f hitem
          exact ⟨_, hconverted⟩
      | _ => exact ⟨_, rfl⟩
  | nullable a inner ih =>
      by_cases hnull : v = .null
      · rw [hnull]
        exact ⟨_, rfl⟩
      · rw [convert_nullable hnull]
        split
        · exact ⟨_, rfl⟩
        · exact ih hv
  | refined a r base ih => exact ih hv
  | _ => exact ⟨_, rfl⟩

end Schema

namespace Pipeline

open Schema

theorem apply_of_convertFor_error {p : Pipeline} {t : Target} {raw cleaned : Value} {fault : Fault}
    (hclean : p.schema.cleanFor (some t) raw = .ok cleaned)
    (h : p.schema.convertFor (some t) (nullIfAbsent (p.schema.applyDefaults cleaned)) = .error fault) :
    p.apply t raw = .error fault := by
  have hrun : p.run t raw = .error fault := by
    unfold run
    rw [hclean]
    show (p.schema.convertFor (some t) (nullIfAbsent (p.schema.applyDefaults cleaned)) >>= _) = _
    rw [h]
    rfl
  unfold apply
  rw [hrun]
  rfl

/-- A schema that never makes the pipeline fail: its nodes answer, and its defaults have printable
numbers. -/
structure Robust (s : Schema) : Prop where
  declaresOnce : s.Everywhere DeclaresOnce
  answers : s.Everywhere Answers
  defaults : ∀ d ∈ s.defaults, d.IsPrintable

/-- For printable input the stages before the check succeed, and the check ends without a fault. -/
theorem exists_trace {s : Schema} {validator : Validator} (h : s.compile = .ok validator) (hs : Robust s)
    (t : Target) {raw : Value} (hraw : raw.IsPrintable) :
    ∃ cleaned converted, s.cleanFor (some t) raw = .ok cleaned ∧
      s.convertFor (some t) (nullIfAbsent (s.applyDefaults cleaned)) = .ok converted ∧
      (validator.trace converted).fault = none := by
  have hnamed := named_of_compileAt h hs.declaresOnce
  obtain ⟨cleaned, hclean⟩ := exists_cleanFor hnamed (some t) hraw
  have hfilled := everywhere_filled Value.inherited_printableForm hnamed hs.defaults hclean (.inr hraw)
  obtain ⟨converted, hconvert⟩ := exists_convert ((some t).any Target.isTextual) (s := s) hfilled
  have hconverted := everywhere_convert Value.inherited_printableForm hconvert hfilled
  exact ⟨cleaned, converted, hclean, hconvert, fault_run h hs.answers hconverted ""⟩

/-- **Validation gives a result.** Where no number is too long for a text and no predicate raises, the
pipeline ends with data or with a list of violations. -/
theorem returns_of_isPrintable {s : Schema} {p : Pipeline} {t : Target} {raw : Value}
    (hp : ofSchema s = .ok p) (hs : Robust s) (hraw : raw.IsPrintable) :
    ∃ outcome, p.apply t raw = .ok outcome := by
  obtain ⟨rfl, hcompile⟩ := ofSchema_eq_ok hp
  obtain ⟨cleaned, converted, hclean, hconvert, hfault⟩ := exists_trace hcompile hs t hraw
  exact exists_apply hclean hconvert hfault

/-- An even count and different tags. -/
def batch : Schema :=
  .object {} {} [
    (.str "count", .integer {} { minimum := some (.int 2), multipleOf := some (.int 2) }),
    (.str "tags", .array {} { uniqueItems := true } (.string { default := some (.str "new") } {}))]

theorem robust_batch : Robust batch where
  declaresOnce :=
    everywhere_object.mpr ⟨by simp [DeclaresOnce, Value.same], by simp [Everywhere, DeclaresOnce]⟩
  answers := by
    obtain ⟨two, htwo⟩ := Value.exists_plain_int (n := 2) (Numeral.withinLimit_of_lt (by decide))
    refine everywhere_object.mpr ⟨?_, List.forall_mem_cons.mpr ⟨?_, List.forall_mem_singleton.mpr ⟨?_, ?_⟩⟩⟩
    · exact ⟨by simp [ownViolations, Violation.message], by simp, by simp, by simp⟩
    · refine ⟨?_, by simp, ?_, by simp⟩
      · intro violation hviolation
        -- the least count and the step are both shown as 2
        rcases List.mem_cons.mp hviolation with rfl | hviolation
        · exact ⟨_, bind_eq_ok_iff.mpr ⟨two, htwo, rfl⟩⟩
        · obtain rfl := List.mem_singleton.mp hviolation
          exact ⟨_, bind_eq_ok_iff.mpr ⟨two, htwo, rfl⟩⟩
      · rintro a f ⟨⟩
        exact ⟨by simp [NumberFields.bounds, Value.number?], by simp [Value.Divides]⟩
    · exact ⟨by simp [ownViolations, ArrayFields.violations, countsOf, Violation.message], by simp, by simp,
        by simp⟩
    · exact ⟨by simp [ownViolations, StringFields.violations, countsOf], by simp, by simp, by simp⟩
  defaults := by
    intro d hd
    obtain rfl : d = .str "new" := by
      simpa [batch, defaults, nodes, nodesAmong, default?, annotations?, eq_comm] using hd
    trivial

/-- A count that is no number and tags that become equal are reported as data. -/
theorem returns_batch :
    ∃ p, ofSchema batch = .ok p ∧ Robust batch ∧
      (Value.record [("count", .str "x"), ("tags", .list [.str "1", .str "1"])]).IsPrintable ∧
      ∃ outcome, p.apply .json (.record [("count", .str "x"), ("tags", .list [.str "1", .str "1"])]) =
        .ok outcome := by
  have hraw : (Value.record [("count", .str "x"), ("tags", .list [.str "1", .str "1"])]).IsPrintable := by
    simp [Value.IsPrintable, Value.record, Value.PrintableForm, Value.Everywhere, Value.EverywhereIn]
  exact ⟨_, rfl, robust_batch, hraw, returns_of_isPrintable rfl robust_batch hraw⟩

/-- An integer without decimal text stops the pipeline where its text is asked for. -/
theorem faults_of_apply :
    ∃ p, ofSchema (.string {} {}) = .ok p ∧
      p.apply .json (.int (Nat.pow 10 Numeral.digitLimit : Nat)) = .error .digitLimit := by
  have hlong : ∀ n : Int, Numeral.withinLimit n = false →
      ∃ p, ofSchema (.string {} {}) = .ok p ∧ p.apply .json (.int n) = .error .digitLimit := by
    intro n hn
    have hconvert : Convert.string (.int n) = .error .digitLimit := by
      rw [Convert.string, intText_of_not_withinLimit hn]
      rfl
    exact ⟨_, rfl, apply_of_convertFor_error rfl hconvert⟩
  exact hlong _ Numeral.not_withinLimit_pow

end Pipeline

end ApiContract
