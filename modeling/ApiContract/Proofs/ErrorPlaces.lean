import ApiContract.Proofs.Enumeration
import ApiContract.Proofs.IntegerText
import ApiContract.Proofs.MissingProperties

/-!
# Errors of a part

What is reported at a place of a value and below it is what the schema of the place reports of the part that
stands there, whatever fails elsewhere (`Schema.errors_of_reaches`). A step from a value to one of its parts
is taken by `Schema.Leads`, and the records of such a part can be told from those beside it and above it as
long as no step of a path is empty or has a point (`eq_of_within`, `not_within_joinPath`). So one step picks
the records of one part out (`Schema.records_of_leads`), and a location any number of steps below does so by
induction.
-/

namespace ApiContract

/-! ### Places -/

/-- A text that can be told apart as a step of a path. -/
structure IsStep (step : String) : Prop where
  nonempty : step ≠ ""
  pointless : '.' ∉ step.toList

instance (step : String) : Decidable (IsStep step) :=
  decidable_of_iff (step ≠ "" ∧ '.' ∉ step.toList) ⟨fun h => ⟨h.1, h.2⟩, fun h => ⟨h.1, h.2⟩⟩

/-- A path is that of a place, or leads further from there. -/
def Within (place path : String) : Prop := path = place ∨ (place ++ ".").toList <+: path.toList

instance (place path : String) : Decidable (Within place path) := inferInstanceAs (Decidable (_ ∨ _))

/-- What stands in front of a step that is added to a path. -/
def lead (path : String) : List Char := if path = "" then [] else path.toList ++ ['.']

theorem toList_joinPath (path step : String) : (joinPath path step).toList = lead path ++ step.toList := by
  by_cases h : path = ""
  · simp [h, joinPath, lead]
  · simp [joinPath_of_ne h, lead, h]

theorem IsStep.joinPath_ne {step : String} (h : IsStep step) (path : String) : joinPath path step ≠ "" := by
  intro heq
  have hlist := toList_joinPath path step
  rw [heq] at hlist
  exact h.nonempty (String.toList_eq_nil_iff.mp (List.append_eq_nil_iff.mp hlist.symm).2)

/-- Behind a place a path goes on with a point, if it goes on. -/
theorem within_iff {place path : String} :
    Within place path ↔ ∃ rest, path.toList = place.toList ++ rest ∧ ∀ c ∈ rest.head?, c = '.' := by
  constructor
  · rintro (rfl | ⟨rest, hrest⟩)
    · exact ⟨[], by simp⟩
    · exact ⟨'.' :: rest, by simp [← hrest]⟩
  · rintro ⟨rest, hpath, hhead⟩
    cases rest with
    | nil =>
        left
        rw [← String.toList_inj, hpath, List.append_nil]
    | cons c rest =>
        obtain rfl := hhead c rfl
        right
        exact ⟨rest, by simp [hpath]⟩

theorem Within.trans {place path path' : String} (h : Within place path) (h' : Within path path') :
    Within place path' := by
  obtain ⟨rest, hpath, hhead⟩ := within_iff.mp h
  obtain ⟨rest', hpath', hhead'⟩ := within_iff.mp h'
  refine within_iff.mpr ⟨rest ++ rest', by rw [hpath', hpath, List.append_assoc], ?_⟩
  cases rest with
  | nil => exact hhead'
  | cons c rest => exact hhead

/-- Steps from a place stay within it. -/
theorem within_foldl {place : String} (h : place ≠ "") (steps : List String) :
    Within place (steps.foldl joinPath place) := by
  refine within_iff.mpr ⟨_, toList_foldl_joinPath h steps, ?_⟩
  cases steps <;> simp

/-- No path is within a place that a step leads to from it. -/
theorem not_within_joinPath {path step : String} (h : IsStep step) : ¬ Within (joinPath path step) path := by
  intro hwithin
  obtain ⟨rest, hpath, -⟩ := within_iff.mp hwithin
  have hlength := congrArg List.length hpath
  have hstep : 0 < step.toList.length :=
    List.length_pos_iff.mpr fun hnil => h.nonempty (String.toList_eq_nil_iff.mp hnil)
  have hlead : path.toList.length ≤ (lead path).length := by
    unfold lead
    split <;> simp_all
  rw [toList_joinPath, List.length_append, List.length_append] at hlength
  omega

/-- The step can be read off what follows the place. -/
theorem takeWhile_step {step : String} (h : IsStep step) {rest : List Char} (hrest : ∀ c ∈ rest.head?, c = '.') :
    (step.toList ++ rest).takeWhile (· != '.') = step.toList := by
  have hall : ∀ c ∈ step.toList, (c != '.') = true := by
    intro c hc
    simp only [bne_iff_ne, ne_eq]
    rintro rfl
    exact h.pointless hc
  rw [List.takeWhile_append_of_pos hall]
  cases rest with
  | nil => simp
  | cons c rest => simp [hrest c rfl]

/-- What different steps lead to from a path has no path in common. -/
theorem eq_of_within {path place step step' : String} (h : IsStep step) (h' : IsStep step')
    (hwithin : Within (joinPath path step) place) (hwithin' : Within (joinPath path step') place) :
    step = step' := by
  obtain ⟨rest, hplace, hhead⟩ := within_iff.mp hwithin
  obtain ⟨rest', hplace', hhead'⟩ := within_iff.mp hwithin'
  have heq : step.toList ++ rest = step'.toList ++ rest' := by
    rw [hplace, toList_joinPath, toList_joinPath, List.append_assoc, List.append_assoc] at hplace'
    exact List.append_cancel_left hplace'
  rw [← String.toList_inj, ← takeWhile_step h hhead, heq, takeWhile_step h' hhead']

theorem toList_index (i : Nat) : (toString i).toList = Numeral.digits i := String.toList_ofList

theorem isStep_index (i : Nat) : IsStep (toString i) where
  nonempty h := by
    have hdigits := toList_index i
    rw [h] at hdigits
    exact Numeral.digits_ne_nil i hdigits.symm
  pointless h := by
    rw [toList_index] at h
    obtain ⟨d, hd, hpoint⟩ := Numeral.exists_digitChar_of_mem h
    have hall : ∀ d ∈ List.range 10, '.' ≠ Nat.digitChar d := by decide
    exact hall d (List.mem_range.mpr hd) hpoint

theorem index_inj {i j : Nat} (h : toString i = toString j) : i = j := by
  have hdigits := congrArg (fun s => Numeral.ofDigits? s.toList) h
  simpa only [toList_index, Numeral.ofDigits?_digits, Option.some.injEq] using hdigits

/-! ### Records at a place -/

namespace Trace

/-- The records at a place and below it. -/
def recordsWithin (place : String) (t : Trace) : List ErrorRecord :=
  t.records.filter fun r => Within place r.path

variable {place : String}

theorem recordsWithin_append {a : Trace} (h : a.fault = none) (b : Trace) :
    (a ++ b).recordsWithin place = a.recordsWithin place ++ b.recordsWithin place := by
  rw [recordsWithin, records_append h, List.filter_append]
  rfl

theorem recordsWithin_eq_nil {t : Trace} (h : t.Reports fun path _ => ¬ Within place path) :
    t.recordsWithin place = [] := by
  refine List.filter_eq_nil_iff.mpr fun r hr => ?_
  obtain ⟨_, _, hpath⟩ := h r hr
  simpa using hpath

theorem recordsWithin_eq_records {t : Trace} (h : t.Reports fun path _ => Within place path) :
    t.recordsWithin place = t.records := by
  refine List.filter_eq_self.mpr fun r hr => ?_
  obtain ⟨_, _, hpath⟩ := h r hr
  simpa using hpath

/-- Among traces of which only one has records at the place, this one counts. -/
theorem recordsWithin_concat {ts : List Trace} (hfault : (concat ts).fault = none) {i : Nat} {t : Trace}
    (ht : ts[i]? = some t)
    (hothers : ∀ j u, ts[j]? = some u → j ≠ i → u.Reports fun path _ => ¬ Within place path) :
    (concat ts).recordsWithin place = t.recordsWithin place := by
  induction ts generalizing i with
  | nil => cases ht
  | cons u ts ih =>
      obtain ⟨hu, hts⟩ := (fault_append_eq_none_iff u (concat ts)).mp hfault
      show (u ++ concat ts).recordsWithin place = _
      rw [recordsWithin_append hu]
      cases i with
      | zero =>
          obtain rfl := Option.some.inj ht
          have hrest : (concat ts).Reports fun path _ => ¬ Within place path := by
            refine (closed_reports _).concat fun u hu => ?_
            obtain ⟨j, hj⟩ := List.getElem?_of_mem hu
            exact hothers (j + 1) u hj (Nat.succ_ne_zero j)
          rw [recordsWithin_eq_nil hrest, List.append_nil]
      | succ i =>
          rw [recordsWithin_eq_nil (hothers 0 u rfl (Nat.succ_ne_zero i).symm), List.nil_append]
          exact ih hts ht fun j w hj hne => hothers (j + 1) w hj fun heq => hne (Nat.succ.inj heq)

end Trace

namespace Schema

open Trace Validator

/-! ### Locations -/

/-- One step from a value with its schema to a part of it with the schema of the part. -/
inductive Leads : Schema → Value → String → Schema → Value → Prop
  | item {a : Annotations} {f : ArrayFields} {items : Schema} {v x : Value} {xs : List Value} {i : Nat}
      (hitems : v.items? = some xs) (hx : xs[i]? = some x) :
      Leads (.array a f items) v (toString i) items x
  | property {a : Annotations} {f : ObjectFields} {ps : List (Value × Schema)} {s : Schema} {v : Value}
      {entries : List (Value × Value)} {name : String} (hp : (.str name, s) ∈ ps)
      (hv : Value.lookup? (.str name) entries = some v) :
      Leads (.object a f ps) (.dict entries) name s v
  | nullable {a : Annotations} {inner s : Schema} {v w : Value} {step : String} (hnull : v ≠ .null)
      (rest : Leads inner v step s w) : Leads (.nullable a inner) v step s w
  | refined {a : Annotations} {r : Refinement} {base s : Schema} {v w : Value} {step : String}
      (rest : Leads base v step s w) : Leads (.refined a r base) v step s w

/-- One step or more to a part of a value. -/
inductive Reaches : Schema → Value → List String → Schema → Value → Prop
  | one {s n : Schema} {v w : Value} {step : String} (h : Leads s v step n w) : Reaches s v [step] n w
  | more {s n m : Schema} {v w u : Value} {step : String} {steps : List String} (h : Leads s v step n w)
      (rest : Reaches n w steps m u) : Reaches s v (step :: steps) m u

/-- Every name and every key can be told apart as a step. -/
structure Separable (s : Schema) (v : Value) : Prop where
  names : ∀ name ∈ s.names, IsStep name
  keys : ∀ key ∈ v.keys, ∃ name, key = .str name ∧ IsStep name

variable {s n : Schema} {v w : Value} {step : String}

theorem Separable.child (h : s.Separable v) {t : Schema} (ht : t ∈ s.children) : t.Separable v :=
  ⟨fun name hname => h.names name (names_mono (nodes_child_subset ht) hname), h.keys⟩

theorem Separable.of_leads (h : s.Separable v) (hl : Leads s v step n w) : n.Separable w := by
  induction hl with
  | item hitems hx =>
      refine ⟨(h.child List.mem_cons_self).names, fun key hkey => ?_⟩
      exact h.keys key (Value.keys_item_subset hitems (List.mem_of_getElem? hx) hkey)
  | property hp hv =>
      refine ⟨(h.child (List.mem_map_of_mem hp)).names, fun key hkey => ?_⟩
      exact h.keys key (Value.keys_entry_subset (Value.mem_of_lookup?_str hv) hkey)
  | nullable _ _ ih => exact ih (h.child List.mem_cons_self)
  | refined _ ih => exact ih (h.child List.mem_cons_self)

theorem Separable.of_reaches (h : s.Separable v) {steps : List String} (hr : Reaches s v steps n w) :
    n.Separable w := by
  induction hr with
  | one hl => exact h.of_leads hl
  | more hl _ ih => exact ih (h.of_leads hl)

theorem Named.of_leads (h : s.Named) (hl : Leads s v step n w) : n.Named := by
  induction hl with
  | item _ _ => exact h.2
  | property hp _ => exact h.property hp
  | nullable _ _ ih => exact ih h.2
  | refined _ ih => exact ih h.2

/-! ### Runs -/

variable {origin : String} {validator : Validator} {path : String}

/-- Of a part nothing is reported beside it. -/
theorem reports_beside (h : n.compileAt origin = .ok validator) (hn : n.Named) (w : Value) {step' : String}
    (hstep : IsStep step) (hstep' : IsStep step') (hne : step' ≠ step) :
    (validator.run w (joinPath path step')).Reports fun place _ => ¬ Within (joinPath path step) place := by
  refine (reports_run_place h hn w _).imp fun place _ hplace hwithin => ?_
  obtain ⟨steps, rfl⟩ := hplace
  exact hne (eq_of_within hstep' hstep (within_foldl (hstep'.joinPath_ne path) steps) hwithin)

/-- All that is reported of a part is reported at its place or below. -/
theorem reports_within (h : n.compileAt origin = .ok validator) (hn : n.Named) (w : Value) (hpath : path ≠ "") :
    (validator.run w path).Reports fun place _ => Within path place := by
  refine (reports_run_place h hn w path).imp fun place _ hplace => ?_
  obtain ⟨steps, rfl⟩ := hplace
  exact within_foldl hpath steps

/-- Of other properties nothing is reported at the place of one. -/
theorem reports_propertyTrace {c : String × Validator} (h : n.compileAt origin = .ok c.2) (hn : n.Named)
    (hstep : IsStep step) (hc : IsStep c.1) (hne : c.1 ≠ step) (rule : ObjectRule)
    (entries : List (Value × Value)) :
    (propertyTrace rule entries path c).Reports fun place _ => ¬ Within (joinPath path step) place := by
  unfold propertyTrace
  cases Value.lookup? (.str c.1) entries with
  | some w => exact reports_beside h hn w hstep hc hne
  | none =>
      exact (closed_reports _).reportIf <| reports_report fun hwithin =>
        hne (eq_of_within hc hstep (.inl rfl) hwithin)

/-- Of undeclared keys nothing is reported at the place of a declared one. -/
theorem reports_checkUndeclared {names : List String} {entries : List (Value × Value)} (hstep : IsStep step)
    (hdeclared : step ∈ names) (hkeys : ∀ e ∈ entries, ∃ name, e.1 = .str name ∧ IsStep name) :
    (checkUndeclared names entries path).Reports fun place _ => ¬ Within (joinPath path step) place := by
  refine (closed_reports _).checkUndeclared fun e he hundeclared => ⟨fun step' hplain => ?_, fun fault _ =>
    reports_failed fault⟩
  obtain ⟨name, hname, hstep'⟩ := hkeys e he
  rw [hname] at hplain
  obtain rfl : name = step' := Except.ok.inj hplain
  refine reports_report fun hwithin => hundeclared step hdeclared ?_
  rw [hname, eq_of_within hstep' hstep (.inl rfl) hwithin]

/-- An index picks out what is reported of one item. -/
theorem records_of_item {f : ArrayFields} {rule : ArrayRule} {items : Schema} {child : Validator}
    (hrule : ArrayCompiled f rule) (hchild : items.compileAt origin = .ok child) (hn : items.Named)
    {xs : List Value} (hitems : v.items? = some xs) {i : Nat} {x : Value} (hx : xs[i]? = some x)
    (hfault : ((Validator.array rule child).run v path).fault = none) :
    (child.run x (joinPath path (toString i))).fault = none ∧
      ((Validator.array rule child).run v path).recordsWithin (joinPath path (toString i)) =
        (child.run x (joinPath path (toString i))).records := by
  rw [run, hitems] at hfault ⊢
  dsimp only at hfault ⊢
  obtain ⟨hown, hparts⟩ := (fault_append_eq_none_iff _ _).mp hfault
  have hhere : (xs.mapIdx fun i item => child.run item (joinPath path (toString i)))[i]? =
      some (child.run x (joinPath path (toString i))) := by
    rw [List.getElem?_mapIdx, hx]
    rfl
  refine ⟨fault_concat_eq_none_iff.mp hparts _ (List.mem_of_getElem? hhere), ?_⟩
  have hnone : (checkItems rule xs path).Reports fun place _ => ¬ Within (joinPath path (toString i)) place :=
    (closed_reports _).checkItems hrule
      (fun _ _ => reports_report (not_within_joinPath (isStep_index i))) fun fault _ => reports_failed fault
  rw [recordsWithin_append hown, recordsWithin_eq_nil hnone, List.nil_append, recordsWithin_concat hparts hhere,
    recordsWithin_eq_records (reports_within hchild hn x ((isStep_index i).joinPath_ne path))]
  intro j u hu hne
  rw [List.getElem?_mapIdx] at hu
  obtain ⟨y, -, rfl⟩ := Option.map_eq_some_iff.mp hu
  exact reports_beside hchild hn y (isStep_index i) (isStep_index j) fun heq => hne (index_inj heq)

/-- A name picks out what is reported of one property. -/
theorem records_of_property {ps : List (Value × Schema)} {children : List (String × Validator)}
    (hchildren : List.Forall₂ (PropertyCompiled origin) ps children) (hs : ∀ p ∈ ps, p.2.Named) (hnames : Names ps)
    (hsteps : ∀ c ∈ children, IsStep c.1) {rule : ObjectRule} {entries : List (Value × Value)}
    (hkeys : ∀ e ∈ entries, ∃ name, e.1 = .str name ∧ IsStep name) {c : String × Validator} (hc : c ∈ children)
    (hw : Value.lookup? (.str c.1) entries = some w)
    (hfault : ((Validator.object rule children).run (.dict entries) path).fault = none) :
    (c.2.run w (joinPath path c.1)).fault = none ∧
      ((Validator.object rule children).run (.dict entries) path).recordsWithin (joinPath path c.1) =
        (c.2.run w (joinPath path c.1)).records := by
  obtain ⟨p, hp, -, hchild⟩ := exists_left_of_forall₂ hchildren hc
  have hstep : IsStep c.1 := hsteps c hc
  have hdiffer : (children.map (·.1)).Nodup := nodup_children hchildren hnames
  rw [run, runProperties_eq] at hfault ⊢
  obtain ⟨hproperties, -⟩ := (fault_append_eq_none_iff _ _).mp hfault
  obtain ⟨i, hi⟩ := List.getElem?_of_mem hc
  have hhere : (children.map (propertyTrace rule entries path))[i]? = some (c.2.run w (joinPath path c.1)) := by
    rw [List.getElem?_map, hi]
    simp [propertyTrace, hw]
  refine ⟨fault_concat_eq_none_iff.mp hproperties _ (List.mem_of_getElem? hhere), ?_⟩
  have hundeclared : (if rule.additional then Trace.empty
      else checkUndeclared (children.map (·.1)) entries path).Reports
        fun place _ => ¬ Within (joinPath path c.1) place := by
    split
    · exact (closed_reports _).empty
    · exact reports_checkUndeclared hstep (List.mem_map_of_mem hc) hkeys
  rw [recordsWithin_append hproperties, recordsWithin_eq_nil hundeclared, List.append_nil,
    recordsWithin_concat hproperties hhere,
    recordsWithin_eq_records (reports_within hchild (hs p hp) w (hstep.joinPath_ne path))]
  intro j u hu hne
  rw [List.getElem?_map] at hu
  obtain ⟨d, hj, rfl⟩ := Option.map_eq_some_iff.mp hu
  have hd : d ∈ children := List.mem_of_getElem? hj
  obtain ⟨q, hq, -, hcompiled⟩ := exists_left_of_forall₂ hchildren hd
  refine reports_propertyTrace hcompiled (hs q hq) hstep (hsteps d hd) (fun heq => hne ?_) rule entries
  -- a name stands at one place among the children
  have hlength : j < (children.map (·.1)).length := by
    rw [List.length_map]
    exact (List.getElem?_eq_some_iff.mp hj).1
  refine (List.getElem?_inj hlength hdiffer).mp ?_
  rw [List.getElem?_map, List.getElem?_map, hi, hj]
  exact congrArg some heq

/-- What a predicate says is said of the whole, and not of a part. -/
theorem records_of_base {p : Predicate} {message : String} {child : Validator} (hstep : IsStep step)
    (hfault : (child.run v path).fault = none) :
    ((Validator.refined p message child).run v path).recordsWithin (joinPath path step) =
      (child.run v path).recordsWithin (joinPath path step) := by
  have hown : (checkPredicate p message v path).Reports fun place _ => ¬ Within (joinPath path step) place :=
    (closed_reports _).checkPredicate (reports_of_records_eq_nil rfl)
      (reports_report (not_within_joinPath hstep)) fun _ _ => reports_of_records_eq_nil rfl
  rw [run]
  split
  · rw [recordsWithin_append hfault, recordsWithin_eq_nil hown, List.append_nil]
  · rfl

/-- **One step picks out what is reported of one part.** -/
theorem records_of_leads (h : s.compileAt origin = .ok validator) (hs : s.Named) (hsv : s.Separable v)
    (hl : Leads s v step n w) (hfault : (validator.run v path).fault = none) :
    IsStep step ∧ ∃ child, n.compile = .ok child ∧ (child.run w (joinPath path step)).fault = none ∧
      (validator.run v path).recordsWithin (joinPath path step) = (child.run w (joinPath path step)).records := by
  induction hl generalizing origin validator with
  | @item a f items v x xs i hitems hx =>
      obtain ⟨rule, child, hrule, hchild, rfl⟩ := compileAt_array h
      exact ⟨isStep_index i, child, compileAt_of_compileAt hchild "",
        records_of_item hrule hchild hs.2 hitems hx hfault⟩
  | @property a f ps n w entries name hp hv =>
      obtain ⟨children, hchildren, rfl⟩ := compileAt_object h
      obtain ⟨⟨name', child⟩, hc, hname, hchild⟩ := exists_right_of_forall₂ hchildren hp
      obtain rfl : name = name' := Value.str.inj hname
      have hsteps : ∀ c ∈ children, IsStep c.1 := by
        intro c hc
        obtain ⟨p, hp, hkey, -⟩ := exists_left_of_forall₂ hchildren hc
        exact hsv.names c.1 (mem_names hp hkey)
      refine ⟨hsteps _ hc, child, compileAt_of_compileAt hchild "", ?_⟩
      exact records_of_property hchildren (fun p hp => hs.property hp) hs.names hsteps
        (fun e he => hsv.keys e.1 (Value.key_mem_keys he)) hc hv hfault
  | @nullable a inner s v w step hnull rest ih =>
      obtain ⟨child, hchild, rfl⟩ := compileAt_nullable h
      have hinner : (Validator.nullable child).run v path = child.run v path := by
        cases v with
        | null => exact absurd rfl hnull
        | _ => rfl
      rw [hinner] at hfault ⊢
      exact ih hchild hs.2 (hsv.child List.mem_cons_self) hfault
  | @refined a r base n v w step rest ih =>
      obtain ⟨p, message, child, -, -, hchild, rfl⟩ := compileAt_refined h
      have hbase : (child.run v path).fault = none := fault_of_append_if_clean hfault
      obtain ⟨hstep, part, hpart, hquiet, hrecords⟩ := ih hchild hs.2 (hsv.child List.mem_cons_self) hbase
      exact ⟨hstep, part, hpart, hquiet, (records_of_base hstep hbase).trans hrecords⟩

/-- Steps pick out what is reported of the part that they reach. -/
theorem records_of_reaches (h : s.compileAt origin = .ok validator) (hs : s.Named) (hsv : s.Separable v)
    {steps : List String} (hr : Reaches s v steps n w) (hfault : (validator.run v path).fault = none) :
    steps.foldl joinPath path ≠ "" ∧ ∃ child, n.compile = .ok child ∧
      (child.run w (steps.foldl joinPath path)).fault = none ∧
      (validator.run v path).recordsWithin (steps.foldl joinPath path) =
        (child.run w (steps.foldl joinPath path)).records := by
  induction hr generalizing origin validator path with
  | one hl =>
      obtain ⟨hstep, hchild⟩ := records_of_leads h hs hsv hl hfault
      exact ⟨hstep.joinPath_ne path, hchild⟩
  | @more s n m v w u step steps hl _ ih =>
      obtain ⟨hstep, child, hchild, hquiet, hrecords⟩ := records_of_leads h hs hsv hl hfault
      obtain ⟨hne, part, hpart, hsilent, hbelow⟩ := ih hchild (hs.of_leads hl) (hsv.of_leads hl) hquiet
      refine ⟨hne, part, hpart, hsilent, ?_⟩
      -- what lies at the end of the steps lies within the place of the first
      have hfirst (r : ErrorRecord) (hr : Within (steps.foldl joinPath (joinPath path step)) r.path) :
          Within (joinPath path step) r.path :=
        (within_foldl (hstep.joinPath_ne path) steps).trans hr
      rw [List.foldl_cons, ← hbelow, recordsWithin, recordsWithin, ← hrecords, recordsWithin, List.filter_filter]
      refine List.filter_congr fun r _ => ?_
      simpa using hfirst r

/-! ### The root of a part -/

/-- A path within a part, as the whole has it. -/
def pathUnder (place path : String) : String := if path = "" then place else place ++ "." ++ path

/-- A record of a part, as the whole has it. -/
def recordUnder (place : String) (r : ErrorRecord) : ErrorRecord := ⟨pathUnder place r.path, r.message⟩

theorem joinPath_pathUnder {place step : String} (hplace : place ≠ "") (hstep : step ≠ "") (path : String) :
    joinPath (pathUnder place path) step = pathUnder place (joinPath path step) := by
  by_cases hpath : path = ""
  · simp [pathUnder, hpath, joinPath, hstep, hplace]
  · have hunder : place ++ "." ++ path ≠ "" := by simp [hplace]
    have hjoined : path ++ "." ++ step ≠ "" := by simp [hpath]
    rw [pathUnder, if_neg hpath, joinPath_of_ne hunder, joinPath_of_ne hpath, pathUnder, if_neg hjoined]
    simp [String.append_assoc]

/-- At a place the same is reported as at the root, under the place. -/
theorem records_under (h : s.compileAt origin = .ok validator) (hsv : s.Separable v) {place : String}
    (hplace : place ≠ "") :
    (validator.run v place).fault = (validator.trace v).fault ∧
      (validator.run v place).records = (validator.trace v).records.map (recordUnder place) := by
  have hsame : SameUpTo (fun path path' => path' = pathUnder place path) (validator.trace v)
      (validator.run v place) := by
    have hstep (path path' step : String) (hstep : IsStep step) (hpath : path' = pathUnder place path) :
        joinPath path' step = pathUnder place (joinPath path step) := by
      rw [hpath, joinPath_pathUnder hplace hstep.nonempty]
    refine sameUpTo_run h hstep isStep_index hsv.names (fun key hkey step hplain => ?_) rfl
    obtain ⟨name, rfl, hname⟩ := hsv.keys key hkey
    obtain rfl : name = step := Except.ok.inj hplain
    exact hname
  exact ⟨hsame.fault.symm, hsame.records_eq_map⟩

/-- **Errors are compositional.** The errors at a location and below it are those that the schema of the
location has of the part that stands there, under the path of the location. -/
theorem errors_of_reaches (h : s.compile = .ok validator) (honce : s.Everywhere DeclaresOnce)
    (hsv : s.Separable v) {records : List ErrorRecord} (herrors : validator.errors v = .ok records)
    {steps : List String} (hr : Reaches s v steps n w) :
    ∃ child below, n.compile = .ok child ∧ child.errors w = .ok below ∧
      records.filter (fun r => Within (steps.foldl joinPath "") r.path) =
        below.map (recordUnder (steps.foldl joinPath "")) := by
  have hnamed := named_of_compileAt h honce
  obtain ⟨hfault, rfl⟩ := toExcept_eq_ok_iff.mp herrors
  obtain ⟨hne, child, hchild, hquiet, hrecords⟩ := records_of_reaches h hnamed hsv hr hfault
  obtain ⟨hfaults, hmoved⟩ := records_under hchild (hsv.of_reaches hr) hne
  refine ⟨child, _, hchild, toExcept_eq_ok_iff.mpr ⟨hfaults ▸ hquiet, rfl⟩, ?_⟩
  rw [← hmoved, ← hrecords]
  rfl

/-- A line of a purchase. -/
def purchaseLine : Schema :=
  .object {} {} [(.str "item", .string {} { minLength := some (.int 3) }),
    (.str "count", .integer {} { minimum := some (.int 0) })]

/-- A purchase of at least three lines, or of none, with a remark. -/
def purchase : Schema :=
  .refined {} ⟨.predicate ⟨"never", "never", .null, fun _ => .ok false⟩, .str "must be closed", none⟩
    (.object {} {} [(.str "line", .string {} {}),
      (.str "lines", .nullable {} (.array {} { minItems := some (.int 3) } purchaseLine))])

/-- The validator of purchases. -/
def purchaseValidator : Validator :=
  .refined ⟨"never", "never", .null, fun _ => .ok false⟩ "must be closed"
    (.object ⟨["line", "lines"], false⟩ [
      ("line", .string ⟨none, none, none, none, none⟩),
      ("lines", .nullable (.array ⟨some 3, none, false⟩ (.object ⟨["item", "count"], false⟩ [
        ("item", .string ⟨some 3, none, none, none, none⟩),
        ("count", .number ⟨true, some (.int 0), none, none, none, none, none⟩)])))])

/-- A line with a short name and a key too many, and without a count. -/
def ordered : Value := .record [("item", .str "ax"), ("note", .null)]

/-- What a purchase with two such lines is told. -/
def purchaseErrors : List ErrorRecord := [
  ⟨"line", "Expected string, got integer"⟩, ⟨"lines", "Array must have at least 3 items"⟩,
  ⟨"lines.0.item", "String must be at least 3 characters long"⟩, ⟨"lines.0.count", "Missing required property"⟩,
  ⟨"lines.0.note", "Unexpected property"⟩, ⟨"lines.1.item", "String must be at least 3 characters long"⟩,
  ⟨"lines.1.count", "Missing required property"⟩, ⟨"lines.1.note", "Unexpected property"⟩]

/-- The second line is told what it would be told alone. -/
theorem errors_of_reaches_purchase :
    purchase.compile = .ok purchaseValidator ∧
      purchaseValidator.errors (.record [("line", .int 1), ("lines", .list [ordered, ordered])]) =
        .ok purchaseErrors ∧
      ∃ child below, purchaseLine.compile = .ok child ∧ child.errors ordered = .ok below ∧
        purchaseErrors.filter (fun r => Within "lines.1" r.path) = below.map (recordUnder "lines.1") := by
  have hcompile : purchase.compile = .ok purchaseValidator := rfl
  have herrors : purchaseValidator.errors (.record [("line", .int 1), ("lines", .list [ordered, ordered])]) =
      .ok purchaseErrors := by
    decide +kernel
  have honce : purchase.Everywhere DeclaresOnce := by
    simp [purchase, purchaseLine, Everywhere, EverywhereAmong, DeclaresOnce, Value.same]
  have hseparable : purchase.Separable (.record [("line", .int 1), ("lines", .list [ordered, ordered])]) := by
    refine ⟨by decide, ?_⟩
    have hkeys : (Value.record [("line", .int 1), ("lines", .list [ordered, ordered])]).keys =
        [.str "line", .str "lines", .str "item", .str "note", .str "item", .str "note"] := rfl
    rw [hkeys]
    simp [IsStep.mk]
  have hreaches : Reaches purchase (.record [("line", .int 1), ("lines", .list [ordered, ordered])])
      ["lines", toString 1] purchaseLine ordered := by
    refine .more (.refined (.property (List.mem_cons_of_mem _ List.mem_cons_self) rfl)) (.one ?_)
    exact .nullable (by simp) (.item rfl rfl)
  exact ⟨hcompile, herrors, errors_of_reaches hcompile honce hseparable herrors hreaches⟩

end Schema

end ApiContract
