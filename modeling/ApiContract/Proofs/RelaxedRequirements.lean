import ApiContract.Documentation.Convert
import ApiContract.Normalization.Pipeline
import ApiContract.Proofs.Cleaning
import ApiContract.Proofs.Filling

/-!
# Requirements that defaults meet

A document lists no key as required that has a default. A schema that reads its requirements off such a
document (`Schema.relaxed`) asks for less, but a pipeline does not tell the two apart
(`Pipeline.apply_relaxed`): defaults are filled in before a value is checked, and at every place that the check
looks at (`Schema.filled_fill`, `Schema.filled_convert`).
-/

namespace ApiContract

namespace Schema

/-- The rules of an object that requires only what it has no default for. -/
def relaxedFields (f : ObjectFields) (ps : List (Value × Schema)) : ObjectFields :=
  { f with required := some (documentedRequired f ps) }

mutual
/-- The schema whose objects require only what they have no default for. -/
def relaxed : Schema → Schema
  | .array a f items => .array a f items.relaxed
  | .object a f ps => .object a (relaxedFields f ps) (relaxedProperties ps)
  | .nullable a inner => .nullable a inner.relaxed
  | .refined a r base => .refined a r base.relaxed
  | s => s
termination_by structural s => s

def relaxedProperties : List (Value × Schema) → List (Value × Schema)
  | [] => []
  | (key, s) :: rest => (key, s.relaxed) :: relaxedProperties rest
termination_by structural ps => ps
end

theorem relaxedProperties_eq_map (ps : List (Value × Schema)) :
    relaxedProperties ps = ps.map fun p => (p.1, p.2.relaxed) := by
  induction ps with
  | nil => rfl
  | cons p ps ih =>
      obtain ⟨key, s⟩ := p
      rw [List.map_cons, ← ih]
      rfl

theorem keys_relaxedProperties (ps : List (Value × Schema)) :
    (relaxedProperties ps).map (·.1) = ps.map (·.1) := by
  rw [relaxedProperties_eq_map, List.map_map]
  rfl

theorem Names.relaxed {ps : List (Value × Schema)} (h : Names ps) : Names (relaxedProperties ps) := by
  refine ⟨fun p' hp' => ?_, by rw [keys_relaxedProperties]; exact h.differ⟩
  rw [relaxedProperties_eq_map] at hp'
  obtain ⟨p, hp, rfl⟩ := List.mem_map.mp hp'
  exact h.texts p hp

theorem property?_relaxed (key : Value) (ps : List (Value × Schema)) :
    property? key (relaxedProperties ps) = (property? key ps).map relaxed := by
  rw [relaxedProperties_eq_map, property?, property?, List.find?_map, Option.map_map, Option.map_map]
  rfl

/-! ### The stages before the check -/

/-- Defaults stay where they are declared. -/
@[simp] theorem declaredDefault_relaxed (s : Schema) : s.relaxed.declaredDefault = s.declaredDefault := by
  induction s using Schema.induction with
  | nullable a inner ih => exact congrArg a.default.or ih
  | refined a r base ih => exact congrArg a.default.or ih
  | _ => rfl

@[simp] theorem isText_unwrap_relaxed (s : Schema) : s.relaxed.unwrap.isText = s.unwrap.isText := by
  induction s using Schema.induction with
  | refined a r base ih => exact ih
  | _ => rfl

theorem clean_relaxed (s : Schema) (v : Value) : s.relaxed.clean v = s.clean v := by
  induction s using Schema.induction generalizing v with
  | array a f items ih =>
      show (Schema.array a f items.relaxed).clean v = _
      rw [clean_array, clean_array, funext ih]
  | object a f ps ih =>
      cases v with
      | dict entries =>
          show (Schema.object a _ (relaxedProperties ps)).clean (.dict entries) = _
          rw [clean_dict, clean_dict]
          refine congrArg Value.dict (List.filterMap_congr fun e _ => ?_)
          rw [cleanedEntry, cleanedEntry, property?_relaxed]
          cases hs : property? e.1 ps with
          | none => rfl
          | some s =>
              obtain ⟨p, hp, rfl⟩ := exists_of_property? hs
              exact congrArg (fun item => some (e.1, item)) (ih p hp e.2)
      | _ => rfl
  | nullable a inner ih =>
      show (Schema.nullable a inner.relaxed).clean v = _
      rw [clean_nullable, clean_nullable, ih]
  | refined a r base ih => exact ih v
  | _ => rfl

theorem renameHeaders_relaxed (ps : List (Value × Schema)) (entries : List (Value × Value)) :
    renameHeaders (relaxedProperties ps) entries = renameHeaders ps entries := by
  have hnames : foldedNames (relaxedProperties ps) = foldedNames ps := by
    rw [relaxedProperties_eq_map, foldedNames, foldedNames, List.mapM_map]
    rfl
  rw [renameHeaders, renameHeaders, hnames]

theorem cleanHeaders_relaxed (s : Schema) (v : Value) : s.relaxed.cleanHeaders v = s.cleanHeaders v := by
  induction s using Schema.induction generalizing v with
  | array a f items ih => exact congrArg Except.ok (clean_relaxed (.array a f items) v)
  | object a f ps ih =>
      cases v with
      | dict entries =>
          have hclean : (Schema.object a f ps).relaxed.clean = (Schema.object a f ps).clean :=
            funext (clean_relaxed (.object a f ps))
          show (do
            let entries ← renameHeaders (relaxedProperties ps) entries
            return (Schema.object a f ps).relaxed.clean (.dict entries)) = _
          rw [renameHeaders_relaxed, hclean]
          rfl
      | _ => rfl
  | nullable a inner ih =>
      cases v with
      | null => rfl
      | _ => exact ih _
  | refined a r base ih => exact ih v
  | _ => rfl

theorem cleanFor_relaxed (s : Schema) (target : Option Target) (v : Value) :
    s.relaxed.cleanFor target v = s.cleanFor target v := by
  rw [cleanFor, cleanFor, cleanHeaders_relaxed, clean_relaxed]

theorem orDefault_relaxed (s : Schema) (v : Value) : s.relaxed.orDefault v = s.orDefault v := by
  rw [orDefault, orDefault, declaredDefault_relaxed]

theorem applyDefaults_relaxed {s : Schema} (h : ∀ v, s.relaxed.fill v = s.fill v) (v : Value) :
    s.relaxed.applyDefaults v = s.applyDefaults v := by
  rw [applyDefaults, applyDefaults, orDefault_relaxed, h]

theorem fillProperties_relaxed {ps : List (Value × Schema)}
    (h : ∀ p ∈ ps, ∀ v, p.2.relaxed.fill v = p.2.fill v) (entries : List (Value × Value)) :
    fillProperties (relaxedProperties ps) entries = fillProperties ps entries := by
  induction ps generalizing entries with
  | nil => rfl
  | cons p ps ih =>
      obtain ⟨key, s⟩ := p
      obtain ⟨hs, hrest⟩ := List.forall_mem_cons.mp h
      have horDefault : s.relaxed.orDefault = s.orDefault := funext (orDefault_relaxed s)
      rw [fillProperties, ← ih hrest, relaxedProperties, fillProperties, funext hs, horDefault,
        declaredDefault_relaxed]

theorem fill_relaxed (s : Schema) (v : Value) : s.relaxed.fill v = s.fill v := by
  induction s using Schema.induction generalizing v with
  | array a f items ih =>
      show (Schema.array a f items.relaxed).fill v = _
      rw [fill_array, fill_array, funext (applyDefaults_relaxed ih)]
  | object a f ps ih =>
      cases v with
      | dict entries => exact congrArg Value.dict (fillProperties_relaxed ih entries)
      | _ => rfl
  | nullable a inner ih =>
      by_cases hnull : v = .null
      · rw [hnull, fill_null, fill_null]
      · show (Schema.nullable a inner.relaxed).fill v = _
        rw [fill_nullable hnull, fill_nullable hnull, applyDefaults_relaxed ih]
  | refined a r base ih => exact ih v
  | _ => rfl

theorem convert_relaxed {textual : Bool} (s : Schema) (v : Value) :
    s.relaxed.convert textual v = s.convert textual v := by
  induction s using Schema.induction generalizing v with
  | array a f items ih =>
      show (Schema.array a f items.relaxed).convert textual v = _
      rw [convert_array, convert_array, funext ih]
  | object a f ps ih =>
      cases v with
      | dict entries =>
          have hproperty : convertProperty textual (relaxedProperties ps) = convertProperty textual ps := by
            funext key item
            rw [convertProperty_eq, convertProperty_eq, property?_relaxed]
            cases hs : property? key ps with
            | none => rfl
            | some s =>
                obtain ⟨p, hp, rfl⟩ := exists_of_property? hs
                exact ih p hp item
          show (do
            let entries ← entries.mapM fun (e : Value × Value) => do
              return (e.1, ← convertProperty textual (relaxedProperties ps) e.1 e.2)
            return Value.dict entries) = _
          rw [hproperty]
          rfl
      | _ => rfl
  | nullable a inner ih =>
      by_cases hnull : v = .null
      · rw [hnull, convert_null, convert_null]
      · show (Schema.nullable a inner.relaxed).convert textual v = _
        rw [convert_nullable hnull, convert_nullable hnull, readsNull, readsNull, isText_unwrap_relaxed, ih]
  | refined a r base ih => exact ih v
  | _ => rfl

/-! ### Filled values -/

mutual
/-- Wherever the value has an object, the object has every key that its schema has a default for. -/
def Filled : Schema → Value → Prop
  | .array _ _ items, v => ∀ xs, v.items? = some xs → ∀ x ∈ xs, items.Filled x
  | .object _ _ ps, v => ∀ entries, v = .dict entries → FilledProperties ps entries
  | .nullable _ inner, v => v ≠ .null → inner.Filled v
  | .refined _ _ base, v => base.Filled v
  | _, _ => True
termination_by structural s => s

def FilledProperties : List (Value × Schema) → List (Value × Value) → Prop
  | [], _ => True
  | (key, s) :: rest, entries =>
    ((s.declaredDefault.isSome = true → Value.hasKey key entries = true) ∧
      ∀ e ∈ entries, e.1 = key → s.Filled e.2) ∧ FilledProperties rest entries
termination_by structural ps => ps
end

/-- The declared keys with a default are there, and what stands under a declared key is filled. -/
theorem filledProperties_iff {ps : List (Value × Schema)} {entries : List (Value × Value)} :
    FilledProperties ps entries ↔
      ∀ p ∈ ps, (p.2.declaredDefault.isSome = true → Value.hasKey p.1 entries = true) ∧
        ∀ e ∈ entries, e.1 = p.1 → p.2.Filled e.2 := by
  induction ps with
  | nil => exact iff_of_true trivial (List.forall_mem_nil _)
  | cons p ps ih =>
      obtain ⟨key, s⟩ := p
      rw [List.forall_mem_cons, ← ih]
      exact Iff.rfl

theorem filled_null (s : Schema) : s.Filled .null := by
  induction s using Schema.induction with
  | array a f items ih =>
      intro xs hxs
      cases hxs
  | object a f ps ih =>
      intro entries hentries
      cases hentries
  | nullable a inner ih => exact fun hnull => absurd rfl hnull
  | refined a r base ih => exact ih
  | _ => trivial

/-- In a value without parts nothing is to be filled. -/
theorem filled_of_scalar (s : Schema) {v : Value} (hitems : v.items? = none)
    (hdict : ∀ entries, v ≠ .dict entries) : s.Filled v := by
  induction s using Schema.induction with
  | array a f items ih =>
      intro xs hxs
      rw [hitems] at hxs
      cases hxs
  | object a f ps ih => exact fun entries hentries => absurd hentries (hdict entries)
  | nullable a inner ih => exact fun _ => ih
  | refined a r base ih => exact ih
  | _ => trivial

/-- What stands under a declared key after filling has been filled. -/
theorem exists_fill_of_mem {ps : List (Value × Schema)} (hnames : Names ps) {p : Value × Schema} (hp : p ∈ ps)
    {entries : List (Value × Value)} {e : Value × Value} (he : e ∈ fillProperties ps entries)
    (hkey : e.1 = p.1) : ∃ v, e.2 = p.2.fill v := by
  rw [fillProperties_eq hnames, List.mem_append] at he
  rcases he with he | he
  · obtain ⟨e, -, rfl⟩ := List.mem_map.mp he
    obtain hkey : e.1 = p.1 := hkey
    refine ⟨p.2.orDefault e.2, ?_⟩
    show filledItem ps e = _
    rw [filledItem, hkey, property?_of_mem hnames hp]
    rfl
  · obtain ⟨q, hq, d, -, -, rfl⟩ := mem_missingEntries.mp he
    obtain rfl := List.inj_on_of_nodup_map hnames.differ hq hp hkey
    exact ⟨d, rfl⟩

/-- Filling leaves nothing to be filled. -/
theorem filled_fill {s : Schema} (h : s.Named) (v : Value) : s.Filled (s.fill v) := by
  induction s using Schema.induction generalizing v with
  | array a f items ih =>
      intro xs hxs x hx
      cases hv : v.items? with
      | none =>
          rw [fill_array_of_no_items hv, hv] at hxs
          cases hxs
      | some ys =>
          rw [fill_array_of_items hv] at hxs
          obtain rfl := Option.some.inj hxs
          obtain ⟨y, -, rfl⟩ := List.mem_map.mp hx
          exact ih h.2 _
  | object a f ps ih =>
      intro entries hentries
      cases v with
      | dict before =>
          obtain rfl := Value.dict.inj hentries
          refine filledProperties_iff.mpr fun p hp => ⟨fun hdefault => ?_, fun e he hkey => ?_⟩
          · rw [hasKey_fillProperties h.names hp, hdefault, Bool.or_true]
          · obtain ⟨w, hw⟩ := exists_fill_of_mem h.names hp he hkey
            rw [hw]
            exact ih p hp (h.property hp) w
      | _ => cases hentries
  | nullable a inner ih =>
      intro _
      by_cases hnull : v = .null
      · rw [hnull, fill_null]
        exact filled_null inner
      · rw [fill_nullable hnull]
        exact ih h.2 _
  | refined a r base ih => exact ih h.2 v
  | _ => trivial

/-- Conversion adds no place for a default. -/
theorem filled_convert {textual : Bool} {s : Schema} (h : s.Named) {v w : Value} (hv : s.Filled v)
    (hw : s.convert textual v = .ok w) : s.Filled w := by
  induction s using Schema.induction generalizing v w with
  | array a f items ih =>
      intro ys hys y hy
      cases hitems : v.items? with
      | some xs =>
          obtain ⟨ys', rfl, hconverted⟩ := (convert_items_eq_ok hitems).mp hw
          obtain rfl := Option.some.inj hys
          obtain ⟨x, hx, hxy⟩ := exists_left_of_forall₂ hconverted hy
          exact ih h.2 (hv xs hitems x hx) hxy
      | none =>
          cases halone : textual && standsAlone v with
          | true =>
              -- a value that stands for an array of one has no parts
              obtain ⟨y', rfl, hconverted⟩ := (convert_single_eq_ok hitems halone).mp hw
              obtain rfl := Option.some.inj hys
              obtain rfl := List.mem_singleton.mp hy
              refine ih h.2 (filled_of_scalar items hitems fun entries hentries => ?_) hconverted
              rw [hentries] at halone
              simp [standsAlone] at halone
          | false =>
              rw [convert_array_of_other hitems halone] at hw
              obtain rfl := Except.ok.inj hw
              exact hv ys hys y hy
  | object a f ps ih =>
      intro converted hconverted
      cases v with
      | dict entries =>
          obtain ⟨converted', rfl, hentries⟩ := convert_dict_eq_ok.mp hw
          obtain rfl := Value.dict.inj hconverted
          have hfilled := filledProperties_iff.mp (hv entries rfl)
          refine filledProperties_iff.mpr fun p hp => ⟨fun hdefault => ?_, fun e' he' hkey => ?_⟩
          · rw [hasKey_congr hentries.keys]
            exact (hfilled p hp).1 hdefault
          · obtain ⟨e, he, hsame, hitem⟩ := exists_left_of_forall₂ hentries he'
            obtain hkey : e.1 = p.1 := hsame.symm.trans hkey
            rw [convertProperty_eq, hkey, property?_of_mem h.names hp] at hitem
            exact ih p hp (h.property hp) ((hfilled p hp).2 e he hkey) hitem
      | _ =>
          obtain rfl := Except.ok.inj hw
          cases hconverted
  | nullable a inner ih =>
      intro hne
      by_cases hnull : v = .null
      · rw [hnull, convert_null] at hw
        exact absurd (Except.ok.inj hw).symm hne
      · rw [convert_nullable hnull] at hw
        split_ifs at hw
        · exact absurd (Except.ok.inj hw).symm hne
        · exact ih h.2 (hv hnull) hw
  | refined a r base ih => exact ih h.2 hv hw
  | _ => trivial

/-! ### The check of a filled value -/

open Validator

/-- Objects that differ in what they require differ in no record if the keys in question are there. -/
theorem runProperties_congr {rule rule' : ObjectRule} {children children' : List (String × Validator)}
    {entries : List (Value × Value)} {path : String}
    (h : List.Forall₂ (fun c c' => c'.1 = c.1 ∧
      (∀ v, Value.lookup? (.str c.1) entries = some v → ∀ place, c'.2.run v place = c.2.run v place) ∧
        (Value.lookup? (.str c.1) entries = none → (c.1 ∈ rule'.required ↔ c.1 ∈ rule.required)))
      children children') :
    runProperties rule' children' entries path = runProperties rule children entries path := by
  induction h with
  | nil => rfl
  | @cons c c' children children' hchild _ ih =>
      obtain ⟨name, child⟩ := c
      obtain ⟨name', child'⟩ := c'
      obtain ⟨hname, hpresent, hmissing⟩ := hchild
      obtain rfl : name' = name := hname
      rw [runProperties, runProperties, ih]
      cases hv : Value.lookup? (.str name') entries with
      | some v => exact congrArg (· ++ _) (hpresent v hv _)
      | none =>
          have hcontains : rule'.required.contains name' = rule.required.contains name' := by
            rw [Bool.eq_iff_iff, List.contains_iff_mem, List.contains_iff_mem]
            exact hmissing hv
          rw [hcontains]

/-- A property is documented as required if it is required and has no default behind its wrappers. -/
theorem mem_documentedRequired_iff {f : ObjectFields} {ps : List (Value × Schema)} (hnames : Names ps)
    {p : Value × Schema} (hp : p ∈ ps) :
    p.1 ∈ documentedRequired f ps ↔ p.1 ∈ requiredKeys f ps ∧ p.2.declaredDefault = none := by
  rw [documentedRequired, List.mem_filter, property?_of_mem hnames hp, Option.any_some, hasDefault_eq,
    Bool.not_eq_true', Option.isSome_eq_false_iff, Option.isNone_iff_eq_none]

/-- A declared key is required by the relaxed object exactly if it was required and has no default. -/
theorem mem_required_relaxed {f : ObjectFields} {ps : List (Value × Schema)} (hnames : Names ps) {name : String}
    {s : Schema} (hp : (.str name, s) ∈ ps) :
    .str name ∈ requiredKeys (relaxedFields f ps) (relaxedProperties ps) ↔
      .str name ∈ requiredKeys f ps ∧ s.declaredDefault = none := by
  have hkeys : requiredKeys (relaxedFields f ps) (relaxedProperties ps) =
      (ps.map (·.1)).filter fun k => k.isIn (documentedRequired f ps) := by
    rw [← keys_relaxedProperties]
    rfl
  have hmem : Value.str name ∈ ps.map (·.1) := List.mem_map_of_mem (f := (·.1)) hp
  rw [hkeys, List.mem_filter, Value.isIn_str_iff_mem, and_iff_right hmem]
  exact mem_documentedRequired_iff hnames hp

/-- The validator of the relaxed schema finds in filled values what the validator of the schema finds. -/
def RelaxesTo (s : Schema) (validator validator' : Validator) : Prop :=
  ∀ v, s.Filled v → ∀ place, validator'.run v place = validator.run v place

/-- The properties of an object compile one by one. -/
theorem exists_compileProperties {path : String} {ps : List (Value × Schema)}
    {children : List (String × Validator)} (hc : List.Forall₂ (PropertyCompiled path) ps children)
    (ih : ∀ p ∈ ps, ∀ {path : String} {validator : Validator}, p.2.compileAt path = .ok validator →
      ∃ validator', p.2.relaxed.compileAt path = .ok validator' ∧ p.2.RelaxesTo validator validator') :
    ∃ children', compileProperties path (relaxedProperties ps) = .ok children' ∧
      List.Forall₂ (fun c c' => c'.1 = c.1 ∧ ∃ p ∈ ps, p.1 = .str c.1 ∧ p.2.RelaxesTo c.2 c'.2)
        children children' := by
  induction hc with
  | nil => exact ⟨[], rfl, .nil⟩
  | @cons p c ps children hpc _ ihRest =>
      obtain ⟨key, s⟩ := p
      obtain ⟨name, child⟩ := c
      obtain ⟨hkey, hchild⟩ := hpc
      obtain rfl : key = .str name := hkey
      obtain ⟨ihs, ihps⟩ := List.forall_mem_cons.mp ih
      obtain ⟨child', hchild', hrelaxes⟩ := ihs hchild
      obtain ⟨children', hchildren', hall⟩ := ihRest ihps
      refine ⟨(name, child') :: children', ?_, .cons ⟨rfl, _, List.mem_cons_self, rfl, hrelaxes⟩ ?_⟩
      · exact bind_eq_ok_iff.mpr ⟨child', hchild', bind_eq_ok_iff.mpr ⟨children', hchildren', rfl⟩⟩
      · refine hall.imp fun c c' => ?_
        rintro ⟨hname, q, hq, hrest⟩
        exact ⟨hname, q, List.mem_cons_of_mem _ hq, hrest⟩

/-- What filled entries have under a declared key, or do not have, is judged alike. -/
theorem sees_relaxed {f : ObjectFields} {ps : List (Value × Schema)} (hnames : Names ps)
    {entries : List (Value × Value)} (hfilled : FilledProperties ps entries) {c c' : String × Validator}
    (hc : c'.1 = c.1 ∧ ∃ p ∈ ps, p.1 = .str c.1 ∧ p.2.RelaxesTo c.2 c'.2) :
    c'.1 = c.1 ∧
      (∀ v, Value.lookup? (.str c.1) entries = some v → ∀ place, c'.2.run v place = c.2.run v place) ∧
      (Value.lookup? (.str c.1) entries = none →
        (c.1 ∈ textKeys (requiredKeys (relaxedFields f ps) (relaxedProperties ps)) ↔
          c.1 ∈ textKeys (requiredKeys f ps))) := by
  obtain ⟨hname, ⟨key, s⟩, hp, hkey, hrelaxes⟩ := hc
  obtain rfl : key = .str c.1 := hkey
  obtain ⟨hdefault, hitem⟩ := filledProperties_iff.mp hfilled _ hp
  refine ⟨hname, fun v hv => hrelaxes v (hitem _ (Value.mem_of_lookup?_str hv) rfl), fun hnone => ?_⟩
  have hdefault : s.declaredDefault = none := by
    rw [← Option.not_isSome_iff_eq_none]
    intro hsome
    have hkey := hdefault hsome
    rw [Value.lookup?_eq_none_iff.mp hnone] at hkey
    cases hkey
  rw [mem_textKeys, mem_textKeys, mem_required_relaxed hnames hp, and_iff_left hdefault]

/-- The names and the requirements of a relaxed object are found right. -/
theorem checks_relaxed (f : ObjectFields) {ps : List (Value × Schema)} (path : String) (hnames : Names ps) :
    checkNames (relaxedProperties ps) path = .ok () ∧
      checkRequired (relaxedFields f ps) (relaxedProperties ps) path = .ok () := by
  constructor
  · unfold checkNames
    split
    · rfl
    · rename_i key s hfound
      obtain ⟨name, hname⟩ := hnames.relaxed.texts (key, s) (List.mem_of_find?_eq_some hfound)
      obtain rfl : key = .str name := hname
      cases List.find?_some hfound
  · have hunknown : ((documentedRequired f ps).filter fun k =>
        !(relaxedProperties ps).any fun p => k.same p.1) = [] := by
      rw [List.filter_eq_nil_iff]
      intro key hkey
      obtain ⟨p, hp, rfl⟩ := List.mem_map.mp (requiredKeys_subset f ps (List.mem_of_mem_filter hkey))
      obtain ⟨name, hname⟩ := hnames.texts p hp
      have hdeclared : ((relaxedProperties ps).any fun q => p.1.same q.1) = true := by
        rw [relaxedProperties_eq_map, List.any_map, List.any_eq_true]
        refine ⟨p, hp, ?_⟩
        rw [Function.comp_apply, hname]
        exact Value.same_str_left.mpr rfl
      simp [hdeclared]
    rw [checkRequired, relaxedFields]
    dsimp only
    rw [hunknown]
    rfl

namespace RelaxesTo

variable {a : Annotations} {child child' : Validator}

theorem array {f : ArrayFields} {items : Schema} {rule : ArrayRule} (h : items.RelaxesTo child child') :
    (Schema.array a f items).RelaxesTo (.array rule child) (.array rule child') := by
  intro v hv place
  rw [run, run]
  cases hitems : v.items? with
  | none => rfl
  | some xs =>
      have hrun : (xs.mapIdx fun i item => child'.run item (joinPath place (toString i))) =
          xs.mapIdx fun i item => child.run item (joinPath place (toString i)) :=
        List.mapIdx_eq_mapIdx_iff.mpr fun i hi => h _ (hv xs hitems _ (List.getElem_mem hi)) _
      dsimp only
      rw [hrun]

theorem object {f : ObjectFields} {ps : List (Value × Schema)} (hnames : Names ps)
    {children children' : List (String × Validator)}
    (hall : List.Forall₂ (fun c c' => c'.1 = c.1 ∧ ∃ p ∈ ps, p.1 = .str c.1 ∧ p.2.RelaxesTo c.2 c'.2)
      children children') :
    (Schema.object a f ps).RelaxesTo (.object ⟨textKeys (requiredKeys f ps), f.additional⟩ children)
      (.object ⟨textKeys (requiredKeys (relaxedFields f ps) (relaxedProperties ps)), f.additional⟩ children') := by
  intro v hv place
  have hkeys : children.map (·.1) = children'.map (·.1) := by
    rw [← List.forall₂_eq_eq_eq, List.forall₂_map_left_iff, List.forall₂_map_right_iff]
    exact hall.imp fun c c' hc => hc.1.symm
  cases v with
  | dict entries =>
      have hproperties :
          runProperties ⟨textKeys (requiredKeys (relaxedFields f ps) (relaxedProperties ps)), f.additional⟩
            children' entries place =
          runProperties ⟨textKeys (requiredKeys f ps), f.additional⟩ children entries place :=
        runProperties_congr (hall.imp fun c c' hc => sees_relaxed hnames (hv entries rfl) hc)
      rw [run, run, ← hproperties, hkeys]
  | _ => rfl

theorem nullable {inner : Schema} (h : inner.RelaxesTo child child') :
    (Schema.nullable a inner).RelaxesTo (.nullable child) (.nullable child') := by
  intro v hv place
  by_cases hnull : v = .null
  · rw [hnull]
    rfl
  · cases v with
    | null => exact absurd rfl hnull
    | _ => exact h _ (hv hnull) place

theorem refined {r : Refinement} {base : Schema} {p : Predicate} {message : String}
    (h : base.RelaxesTo child child') :
    (Schema.refined a r base).RelaxesTo (.refined p message child) (.refined p message child') := by
  intro v hv place
  rw [run, run, h v hv place]

end RelaxesTo

/-- A refinement that compiles compiles around another base. -/
theorem compileAt_refined_of_base {a : Annotations} {r : Refinement} {base base' : Schema} {path : String}
    {p : Predicate} {message : String} {child child' : Validator}
    (h : (Schema.refined a r base).compileAt path = .ok (.refined p message child))
    (hp : r.condition = .predicate p) (hmessage : r.message = .str message)
    (hbase : base'.compileAt path = .ok child') :
    (Schema.refined a r base').compileAt path = .ok (.refined p message child') := by
  obtain ⟨condition, text, constraint⟩ := r
  cases hp
  cases hmessage
  unfold compileAt at h ⊢
  dsimp only at h ⊢
  split_ifs at h with hforeign hempty hempty
  · cases h
  · cases h
  · cases h
  · rw [if_neg hempty, hbase]
    split
    · cases hbase
    · rfl

/-- A schema that compiles compiles when it is relaxed, and filled values do not tell the validators apart. -/
theorem exists_compileAt_relaxed {s : Schema} {path : String} {validator : Validator}
    (h : s.compileAt path = .ok validator) (hs : s.Named) :
    ∃ validator', s.relaxed.compileAt path = .ok validator' ∧ s.RelaxesTo validator validator' := by
  induction s using Schema.induction generalizing path validator with
  | array a f items ih =>
      obtain ⟨rule, hrule, h⟩ := bind_eq_ok_iff.mp h
      obtain ⟨child, hchild, h⟩ := bind_eq_ok_iff.mp h
      obtain rfl := Except.ok.inj h
      obtain ⟨child', hchild', hrelaxes⟩ := ih hchild hs.2
      exact ⟨.array rule child', bind_eq_ok_iff.mpr ⟨rule, hrule, bind_eq_ok_iff.mpr ⟨child', hchild', rfl⟩⟩,
        hrelaxes.array⟩
  | object a f ps ih =>
      obtain ⟨children, hchildren, rfl⟩ := compileAt_object h
      obtain ⟨hcheckNames, hcheckRequired⟩ := checks_relaxed f path hs.names
      obtain ⟨children', hchildren', hall⟩ :=
        exists_compileProperties hchildren fun p hp _ _ hp' => ih p hp hp' (hs.property hp)
      exact ⟨_, bind_eq_ok_iff.mpr ⟨(), hcheckNames, bind_eq_ok_iff.mpr ⟨(), hcheckRequired,
        bind_eq_ok_iff.mpr ⟨children', hchildren', rfl⟩⟩⟩, .object hs.names hall⟩
  | nullable a inner ih =>
      obtain ⟨child, hchild, rfl⟩ := compileAt_nullable h
      obtain ⟨child', hchild', hrelaxes⟩ := ih hchild hs.2
      exact ⟨.nullable child', bind_eq_ok_iff.mpr ⟨child', hchild', rfl⟩, hrelaxes.nullable⟩
  | refined a r base ih =>
      obtain ⟨p, message, child, hp, hmessage, hchild, rfl⟩ := compileAt_refined h
      obtain ⟨child', hchild', hrelaxes⟩ := ih hchild hs.2
      exact ⟨.refined p message child', compileAt_refined_of_base h hp hmessage hchild', hrelaxes.refined⟩
  | _ => exact ⟨validator, h, fun v hv place => rfl⟩

end Schema

namespace Pipeline

open Schema

theorem filled_nullIfAbsent {s : Schema} (hs : s.Named) (v : Value) :
    s.Filled (nullIfAbsent (s.applyDefaults v)) := by
  unfold nullIfAbsent
  split
  · exact filled_null s
  · exact filled_fill hs _

/-- **Requirements that defaults meet make no difference**: a pipeline gives the same result for the relaxed
schema, whatever comes in. -/
theorem apply_relaxed {s : Schema} {validator validator' : Validator} (hs : s.Named)
    (h : s.RelaxesTo validator validator') (target : Target) (raw : Value) :
    (Pipeline.mk s.relaxed validator').apply target raw = (Pipeline.mk s validator).apply target raw := by
  have hrun : (Pipeline.mk s.relaxed validator').run target raw = (Pipeline.mk s validator).run target raw := by
    unfold run
    dsimp only
    rw [cleanFor_relaxed]
    refine bind_congr fun cleaned => ?_
    rw [applyDefaults_relaxed (fill_relaxed s), convertFor, convertFor, convert_relaxed]
    cases hconvert : s.convert ((some target).any Target.isTextual) (nullIfAbsent (s.applyDefaults cleaned)) with
    | error fault => rfl
    | ok converted =>
        have hfilled := filled_convert hs (filled_nullIfAbsent hs cleaned) hconvert
        have htrace : validator'.trace converted = validator.trace converted := h converted hfilled ""
        show Except.ok _ = Except.ok _
        rw [htrace]
  rw [apply, hrun]
  rfl

end Pipeline

end ApiContract
