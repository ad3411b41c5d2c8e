import ApiContract.Proofs.Absence
import ApiContract.Proofs.Cleaning
import ApiContract.Proofs.Conversion
import ApiContract.Proofs.Filling
import ApiContract.Proofs.Parts

/-!
# The shape of what defaults fill

A value satisfies a schema if it has the shape of the schema and is approved by it: the predicates of refinements hold,
and items that have to differ do (`Schema.satisfies_iff`). Filling and conversion may lose an approval, since a
predicate is then asked about another value and items may become equal, but never the shape. Where the defaults are
valid, a value that has the shape of a schema has it still when it has been filled and converted
(`Schema.exists_convert_fill`).
-/

namespace ApiContract.Schema

/-! ### Shape and approval -/

mutual
/-- A value is as a schema describes it, whatever its predicates say and however often its items repeat. -/
def HasShape : Schema → Value → Prop
  | .string _ f, v => ∃ s, v = .str s ∧ f.Admits s
  | .number _ f, v => v.IsFiniteNumber ∧ f.Admits v
  | .integer _ f, v => v.IsInteger ∧ f.Admits v
  | .boolean _, v => ∃ b, v = .bool b
  | .array _ f items, v => ∃ xs, v.items? = some xs ∧ ArrayFields.Admits { f with uniqueItems := false } xs ∧
      ∀ x ∈ xs, items.HasShape x
  | .object _ f ps, v => ∃ entries, v = .dict entries ∧
      (∀ key ∈ requiredKeys f ps, Value.hasKey key entries = true) ∧
      HasShapeAmong ps entries ∧
      (f.additional = false → ∀ e ∈ entries, ∃ p ∈ ps, e.1.same p.1 = true)
  | .nullable _ inner, v => v = .null ∨ inner.HasShape v
  | .refined _ _ base, v => base.HasShape v
  | .bare _, _ => False
  | .foreign _, _ => False
termination_by structural s => s

def HasShapeAmong : List (Value × Schema) → List (Value × Value) → Prop
  | [], _ => True
  | (key, s) :: rest, entries =>
    (∀ v, Value.lookup? key entries = some v → s.HasShape v) ∧ HasShapeAmong rest entries
termination_by structural ps => ps
end

mutual
/-- The predicates of all refinements hold of a value, and the items in it that have to differ do. -/
def Approves : Schema → Value → Prop
  | .array _ f items, v => ∀ xs, v.items? = some xs →
      (f.uniqueItems = true → ∃ keys, xs.mapM Validator.uniqueKey = .ok keys ∧ keys.Nodup) ∧
        ∀ x ∈ xs, items.Approves x
  | .object _ _ ps, v => ∀ entries, v = .dict entries → ApprovesAmong ps entries
  | .nullable _ inner, v => v = .null ∨ inner.Approves v
  | .refined _ r base, v => base.Approves v ∧ r.condition.Holds v
  | _, _ => True
termination_by structural s => s

def ApprovesAmong : List (Value × Schema) → List (Value × Value) → Prop
  | [], _ => True
  | (key, s) :: rest, entries =>
    (∀ v, Value.lookup? key entries = some v → s.Approves v) ∧ ApprovesAmong rest entries
termination_by structural ps => ps
end

variable {s : Schema} {ps : List (Value × Schema)} {entries : List (Value × Value)} {v : Value}

theorem hasShapeAmong_iff : HasShapeAmong ps entries ↔
    ∀ p ∈ ps, ∀ v, Value.lookup? p.1 entries = some v → p.2.HasShape v := by
  induction ps with
  | nil => simp [HasShapeAmong]
  | cons p ps ih =>
      obtain ⟨key, s⟩ := p
      simp [HasShapeAmong, ih]

theorem approvesAmong_iff : ApprovesAmong ps entries ↔
    ∀ p ∈ ps, ∀ v, Value.lookup? p.1 entries = some v → p.2.Approves v := by
  induction ps with
  | nil => simp [ApprovesAmong]
  | cons p ps ih =>
      obtain ⟨key, s⟩ := p
      simp [ApprovesAmong, ih]

theorem admits_iff_of_uniqueItems {f : ArrayFields} {xs : List Value} : f.Admits xs ↔
    ArrayFields.Admits { f with uniqueItems := false } xs ∧
      (f.uniqueItems = true → ∃ keys, xs.mapM Validator.uniqueKey = .ok keys ∧ keys.Nodup) :=
  ⟨fun h => ⟨⟨h.minItems, h.maxItems, fun hfalse => Bool.noConfusion hfalse⟩, h.uniqueItems⟩,
    fun h => ⟨h.1.minItems, h.1.maxItems, h.2⟩⟩

/-- A value satisfies a schema exactly if it has its shape and is approved by it. -/
theorem satisfies_iff : s.Satisfies v ↔ s.HasShape v ∧ s.Approves v := by
  induction s using Schema.induction generalizing v with
  | array a f items ih =>
      constructor
      · rintro ⟨xs, hxs, hadmits, hitems⟩
        obtain ⟨hbounds, hunique⟩ := admits_iff_of_uniqueItems.mp hadmits
        refine ⟨⟨xs, hxs, hbounds, fun x hx => (ih.mp (hitems x hx)).1⟩, fun xs' hxs' => ?_⟩
        obtain rfl := Option.some.inj (hxs.symm.trans hxs')
        exact ⟨hunique, fun x hx => (ih.mp (hitems x hx)).2⟩
      · rintro ⟨⟨xs, hxs, hbounds, hshapes⟩, happroves⟩
        obtain ⟨hunique, hitems⟩ := happroves xs hxs
        exact ⟨xs, hxs, admits_iff_of_uniqueItems.mpr ⟨hbounds, hunique⟩,
          fun x hx => ih.mpr ⟨hshapes x hx, hitems x hx⟩⟩
  | object a f ps ih =>
      constructor
      · rintro ⟨entries, rfl, hkeys, hproperties, hdeclared⟩
        rw [satisfiesProperties_iff] at hproperties
        refine ⟨⟨entries, rfl, hkeys, hasShapeAmong_iff.mpr fun p hp w hw => ?_, hdeclared⟩, fun entries' hsame => ?_⟩
        · exact ((ih p hp).mp (hproperties p hp w hw)).1
        · obtain rfl := Value.dict.inj hsame
          exact approvesAmong_iff.mpr fun p hp w hw => ((ih p hp).mp (hproperties p hp w hw)).2
      · rintro ⟨⟨entries, rfl, hkeys, hshapes, hdeclared⟩, happroves⟩
        refine ⟨entries, rfl, hkeys, satisfiesProperties_iff.mpr fun p hp w hw => (ih p hp).mpr ⟨?_, ?_⟩, hdeclared⟩
        · exact hasShapeAmong_iff.mp hshapes p hp w hw
        · exact approvesAmong_iff.mp (happroves entries rfl) p hp w hw
  | nullable a inner ih =>
      show v = .null ∨ inner.Satisfies v ↔ (v = .null ∨ inner.HasShape v) ∧ (v = .null ∨ inner.Approves v)
      rw [ih, or_and_left]
  | refined a r base ih =>
      show base.Satisfies v ∧ r.condition.Holds v ↔ base.HasShape v ∧ base.Approves v ∧ r.condition.Holds v
      rw [ih, and_assoc]
  | _ => exact (and_iff_left trivial).symm

/-- What is absent has no shape. -/
theorem isAbsent_of_hasShape (h : s.HasShape v) : v.isAbsent = false := by
  rw [Bool.eq_false_iff, ne_eq, isAbsent_iff]
  rintro rfl
  induction s using Schema.induction with
  | string a f =>
      obtain ⟨s, ⟨⟩, -⟩ := h
  | number a f =>
      obtain ⟨⟨n, ⟨⟩⟩ | ⟨x, ⟨⟩, -⟩, -⟩ := h
  | integer a f =>
      obtain ⟨⟨n, ⟨⟩⟩, -⟩ := h
  | boolean a =>
      obtain ⟨b, ⟨⟩⟩ := h
  | array a f items ih =>
      obtain ⟨xs, ⟨⟩, -⟩ := h
  | object a f ps ih =>
      obtain ⟨entries, ⟨⟩, -⟩ := h
  | nullable a inner ih =>
      rcases h with ⟨⟨⟩⟩ | h
      exact ih h
  | refined a r base ih => exact ih h
  | bare a => cases h
  | foreign v => cases h

/-! ### Valid defaults -/

/-- The default of a node, if it has one, is valid for the node. -/
def DefaultValid (s : Schema) : Prop := ∀ d, s.default? = some d → d.WellFormed ∧ s.Satisfies d

/-- The outermost default of the wrappers around a node has the shape of the wrapped node. -/
theorem hasShape_declaredDefault (h : s.Everywhere DefaultValid) {d : Value} (hd : s.declaredDefault = some d) :
    d.WellFormed ∧ s.HasShape d := by
  have hown {s : Schema} (h : s.Everywhere DefaultValid) (hd : s.default? = some d) : d.WellFormed ∧ s.HasShape d :=
    ⟨(h.here d hd).1, (satisfies_iff.mp (h.here d hd).2).1⟩
  induction s using Schema.induction with
  | nullable a inner ih =>
      rcases Option.or_eq_some_iff.mp hd with hd | ⟨-, hd⟩
      · exact hown h hd
      · exact ⟨(ih h.2 hd).1, .inr (ih h.2 hd).2⟩
  | refined a r base ih =>
      rcases Option.or_eq_some_iff.mp hd with hd | ⟨-, hd⟩
      · exact hown h hd
      · exact ⟨(ih h.2 hd).1, (ih h.2 hd).2⟩
  | _ => exact hown h hd

/-! ### Filling and conversion keep the shape -/

variable {textual : Bool}

/-- A value becomes one of the shape of a schema when it is filled and converted. -/
def Shapes (textual : Bool) (s : Schema) (v : Value) : Prop :=
  ∃ w, s.convert textual (s.fill v) = .ok w ∧ s.HasShape w

/-- Filling adds declared keys only. -/
theorem declared_of_mem_filled (hnames : Names ps) (hdeclared : ∀ e ∈ entries, ∃ p ∈ ps, e.1.same p.1 = true)
    {key : Value} (hkey : key ∈ (fillProperties ps entries).map (·.1)) : ∃ p ∈ ps, key.same p.1 = true := by
  rw [keys_fillProperties hnames] at hkey
  rcases List.mem_append.mp hkey with hkey | hkey
  · obtain ⟨e, he, rfl⟩ := List.mem_map.mp hkey
    exact hdeclared e he
  · obtain ⟨e, he, rfl⟩ := List.mem_map.mp hkey
    obtain ⟨p, hp, d, -, -, rfl⟩ := mem_missingEntries.mp he
    obtain ⟨name, hname⟩ := hnames.texts p hp
    exact ⟨p, hp, by rw [hname, Value.same_str_right]⟩

/-- An object whose declared entries become of the shapes of their properties, as the defaults do, gets entries of
these shapes. -/
theorem exists_convert_entries (textual : Bool) (a : Annotations) (f : ObjectFields) (hnames : Names ps)
    (hdiffer : Value.KeysDiffer entries)
    (hitems : ∀ p ∈ ps, ∀ v, Value.lookup? p.1 entries = some v → v.isAbsent = false ∧ Shapes textual p.2 v)
    (hmissing : ∀ p ∈ ps, ∀ d, p.2.declaredDefault = some d → Shapes textual p.2 d) :
    ∃ es, (Schema.object a f ps).convert textual (.dict (fillProperties ps entries)) = .ok (.dict es) ∧
      es.map (·.1) = (fillProperties ps entries).map (·.1) ∧ HasShapeAmong ps es := by
  -- every entry after filling becomes one of the shape of its property, if it is declared
  have hentry : ∀ e ∈ fillProperties ps entries, ∃ w, convertProperty textual ps e.1 e.2 = .ok w ∧
      ∀ s, property? e.1 ps = some s → s.HasShape w := by
    intro e he
    rw [convertProperty_eq]
    cases hfound : property? e.1 ps with
    | none => exact ⟨e.2, rfl, fun s hs => by cases hs⟩
    | some s =>
        have hmem := mem_of_property? hnames hfound
        have hshapes : ∃ w, s.convert textual e.2 = .ok w ∧ s.HasShape w := by
          rw [fillProperties_eq hnames] at he
          rcases List.mem_append.mp he with he | he
          · obtain ⟨e', he', rfl⟩ := List.mem_map.mp he
            obtain ⟨name, hname⟩ := hnames.texts _ hmem
            obtain ⟨key, v⟩ := e'
            obtain rfl : key = .str name := hname
            obtain ⟨hpresent, hshapes⟩ := hitems _ hmem v (Value.lookup?_of_mem hdiffer he')
            have hfilled : filledItem ps (.str name, v) = s.fill v := by
              rw [filledItem, hfound]
              exact applyDefaults_of_isAbsent_eq_false s hpresent
            show ∃ w, s.convert textual (filledItem ps (.str name, v)) = .ok w ∧ s.HasShape w
            rwa [hfilled]
          · obtain ⟨p, hp, d, -, hd, rfl⟩ := mem_missingEntries.mp he
            obtain rfl := Option.some.inj ((property?_of_mem hnames hp).symm.trans hfound)
            exact hmissing p hp d hd
        obtain ⟨w, hconvert, hshape⟩ := hshapes
        exact ⟨w, hconvert, fun s' hs' => Option.some.inj hs' ▸ hshape⟩
  obtain ⟨es, hes⟩ := exists_convert_dict a f fun e he => (hentry e he).imp fun w hw => hw.1
  obtain ⟨es', hsame, hconverted⟩ := convert_dict_eq_ok.mp hes
  obtain rfl := Value.dict.inj hsame
  refine ⟨es, hes, hconverted.keys, hasShapeAmong_iff.mpr fun p hp w hw => ?_⟩
  obtain ⟨name, hname⟩ := hnames.texts p hp
  rw [hname] at hw
  obtain ⟨e, he, hkey, hitem⟩ := exists_left_of_forall₂ hconverted (Value.mem_of_lookup?_str hw)
  obtain ⟨w', hw', hshape⟩ := hentry e he
  obtain rfl := Except.ok.inj (hw'.symm.trans hitem)
  refine hshape p.2 ?_
  have hkeys : e.1 = p.1 := hkey.symm.trans hname.symm
  rw [hkeys]
  exact property?_of_mem hnames hp

/-- **What has the shape of a schema keeps it** when it is filled with valid defaults and converted. -/
theorem exists_convert_fill (hnamed : s.Named) (hdefaults : s.Everywhere DefaultValid) {v : Value}
    (hv : v.WellFormed) (hshape : s.HasShape v) : Shapes textual s v := by
  induction s using Schema.induction generalizing v with
  | string a f =>
      obtain ⟨text, rfl, hadmits⟩ := hshape
      exact ⟨_, rfl, text, rfl, hadmits⟩
  | number a f =>
      obtain ⟨⟨n, rfl⟩ | ⟨x, rfl, hfinite⟩, hadmits⟩ := hshape
      · exact ⟨_, rfl, .inl ⟨n, rfl⟩, hadmits⟩
      · exact ⟨_, rfl, .inr ⟨x, rfl, hfinite⟩, hadmits⟩
  | integer a f =>
      obtain ⟨⟨n, rfl⟩, hadmits⟩ := hshape
      exact ⟨_, rfl, ⟨n, rfl⟩, hadmits⟩
  | boolean a =>
      obtain ⟨b, rfl⟩ := hshape
      exact ⟨_, rfl, b, rfl⟩
  | array a f items ih =>
      obtain ⟨xs, hxs, hbounds, hitems⟩ := hshape
      have hshapes : ∀ x ∈ xs.map items.applyDefaults, ∃ w, items.convert textual x = .ok w ∧ items.HasShape w := by
        intro x hx
        obtain ⟨x₀, hx₀, rfl⟩ := List.mem_map.mp hx
        rw [applyDefaults_of_isAbsent_eq_false items (isAbsent_of_hasShape (hitems x₀ hx₀))]
        exact ih hnamed.2 hdefaults.2 (hv.items hxs x₀ hx₀) (hitems x₀ hx₀)
      obtain ⟨ws, hws⟩ := exists_forall₂ hshapes
      refine ⟨.list ws, ?_, ws, rfl, ?_, fun w hw => ?_⟩
      · rw [fill_array_of_items hxs]
        exact (convert_items_eq_ok rfl).mpr ⟨ws, rfl, hws.imp fun _ _ h => h.1⟩
      · have hlength : ws.length = xs.length := by rw [← hws.length_eq, List.length_map]
        exact ⟨hlength ▸ hbounds.minItems, hlength ▸ hbounds.maxItems, fun hfalse => Bool.noConfusion hfalse⟩
      · obtain ⟨x, -, hx⟩ := exists_left_of_forall₂ hws hw
        exact hx.2
  | object a f ps ih =>
      obtain ⟨entries, rfl, hkeys, hshapes, hdeclared⟩ := hshape
      obtain ⟨hdiffer, hvalues⟩ := Value.wellFormed_dict.mp hv
      have hproperties := (everywhere_object.mp hdefaults).2
      have hitems : ∀ p ∈ ps, ∀ w, Value.lookup? p.1 entries = some w → w.isAbsent = false ∧ Shapes textual p.2 w := by
        intro p hp w hw
        have hshape := hasShapeAmong_iff.mp hshapes p hp w hw
        obtain ⟨name, hname⟩ := hnamed.names.texts p hp
        rw [hname] at hw
        exact ⟨isAbsent_of_hasShape hshape, ih p hp (hnamed.property hp) (hproperties p hp)
          (hvalues _ (Value.mem_of_lookup?_str hw)) hshape⟩
      have hmissing : ∀ p ∈ ps, ∀ d, p.2.declaredDefault = some d → Shapes textual p.2 d := by
        intro p hp d hd
        obtain ⟨hd', hshape⟩ := hasShape_declaredDefault (hproperties p hp) hd
        exact ih p hp (hnamed.property hp) (hproperties p hp) hd' hshape
      obtain ⟨es, hconvert, hsame, hes⟩ := exists_convert_entries textual a f hnamed.names hdiffer hitems hmissing
      refine ⟨.dict es, hconvert, es, rfl, fun key hkey => ?_, hes, fun hclosed e he => ?_⟩
      · obtain ⟨p, hp, rfl⟩ := List.mem_map.mp (requiredKeys_subset f ps hkey)
        rw [hasKey_congr hsame, hasKey_fillProperties hnamed.names hp, hkeys _ hkey, Bool.true_or]
      · exact declared_of_mem_filled hnamed.names (hdeclared hclosed) (hsame ▸ List.mem_map_of_mem he)
  | nullable a inner ih =>
      by_cases hnull : v = .null
      · exact ⟨.null, by rw [hnull, fill_null, convert_null], .inl rfl⟩
      have hinner := hshape.resolve_left hnull
      obtain ⟨w, hconvert, hw⟩ := ih hnamed.2 hdefaults.2 hv hinner
      have hfill : (Schema.nullable a inner).fill v = inner.fill v := by
        rw [fill_nullable hnull, applyDefaults_of_isAbsent_eq_false inner (isAbsent_of_hasShape hinner)]
      unfold Shapes
      rw [hfill]
      by_cases hfilled : inner.fill v = .null
      · exact ⟨.null, by rw [hfilled, convert_null], .inl rfl⟩
      rw [convert_nullable hfilled]
      split
      · exact ⟨.null, rfl, .inl rfl⟩
      · exact ⟨w, hconvert, .inr hw⟩
  | refined a r base ih => exact ih hnamed.2 hdefaults.2 hv hshape
  | bare a => exact hshape.elim
  | foreign u => exact hshape.elim

end ApiContract.Schema
