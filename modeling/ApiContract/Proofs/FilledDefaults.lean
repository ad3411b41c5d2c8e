import ApiContract.Proofs.RelaxedRequirements

/-!
# What filling adds

Filling is complete and takes nothing away. `Schema.Completes s v w` says of a value `w` that it is `v` with the
defaults that are missing, without saying how they are found: the keys of every dictionary stay in their order,
and behind them come the missing keys with a default, each with its default completed in turn. Exactly one value
completes a given one, the filled value (`Schema.completes_iff`).

Two consequences speak of less. The filled value extends the given one, whatever the schema
(`Schema.Completes.extends`), and no dictionary in it that an object node governs lacks a key with a default
(`Schema.hasKey_of_governs`).
-/

namespace ApiContract

namespace Value

/-- Nothing in the value is absent. -/
def Present (v : Value) : Prop := v.Everywhere fun w => w.isAbsent = false

/-- The keys of a dictionary stay as they are, in front of others; an array keeps its length and may become a
list; everything else stays. -/
inductive Extends : Value → Value → Prop
  | refl (v : Value) : Extends v v
  | array {v : Value} {xs ys : List Value} (hitems : v.items? = some xs) (hlength : xs.length = ys.length)
      (hxys : ∀ x y, (x, y) ∈ xs.zip ys → Extends x y) : Extends v (.list ys)
  | dict {entries kept added : List (Value × Value)} (hkeys : entries.map (·.1) = kept.map (·.1))
      (hkept : ∀ e e', (e, e') ∈ entries.zip kept → Extends e.2 e'.2) :
      Extends (.dict entries) (.dict (kept ++ added))

end Value

namespace Schema

/-! ### Layers -/

/-- A node and the nodes behind its refinements and nullable wrappers, from the outside to the inside. -/
def layers : Schema → List Schema
  | .refined a r base => .refined a r base :: base.layers
  | .nullable a inner => .nullable a inner :: inner.layers
  | s => [s]

/-- The default of the outermost layer that declares one. -/
def outermostDefault (s : Schema) : Option Value := s.layers.findSome? default?

theorem outermostDefault_eq (s : Schema) : s.outermostDefault = s.declaredDefault := by
  have hleaf {s : Schema} (h : s.layers = [s]) : s.outermostDefault = s.default? := by
    rw [outermostDefault, h, List.findSome?_cons]
    cases s.default? <;> rfl
  have hlayer {s t : Schema} (h : s.layers = s :: t.layers) (ht : t.outermostDefault = t.declaredDefault) :
      s.outermostDefault = s.default?.or t.declaredDefault := by
    rw [outermostDefault, h, List.findSome?_cons, ← ht]
    cases s.default? <;> rfl
  induction s using Schema.induction with
  | nullable a inner ih => exact hlayer rfl ih
  | refined a r base ih => exact hlayer rfl ih
  | _ => exact hleaf rfl

/-- Nothing in the default of a node is absent. -/
def DefaultPresent (s : Schema) : Prop := ∀ d, s.default? = some d → d.Present

theorem DefaultPresent.of_none {s : Schema} (h : s.default? = none) : s.DefaultPresent := by
  intro d hd
  rw [h] at hd
  cases hd

theorem present_outermostDefault {s : Schema} {d : Value} (h : s.Everywhere DefaultPresent)
    (hd : s.outermostDefault = some d) : d.Present := by
  rw [outermostDefault_eq] at hd
  induction s using Schema.induction with
  | nullable a inner ih =>
      rcases Option.or_eq_some_iff.mp hd with hd | ⟨-, hd⟩
      · exact h.here d hd
      · exact ih h.2 hd
  | refined a r base ih =>
      rcases Option.or_eq_some_iff.mp hd with hd | ⟨-, hd⟩
      · exact h.here d hd
      · exact ih h.2 hd
  | _ => exact h.here d hd

/-! ### Completion -/

/-- The properties that entries lack and that have a default. -/
def missing (ps : List (Value × Schema)) (entries : List (Value × Value)) : List (Value × Schema) :=
  ps.filter fun p => !Value.hasKey p.1 entries && p.2.outermostDefault.isSome

/-- The node has something to say about parts of the value, or is a wrapper. -/
def Opens : Schema → Value → Prop
  | .array _ _ _, v => ∃ xs, v.items? = some xs
  | .object _ _ _, v => ∃ entries, v = .dict entries
  | .nullable _ _, _ | .refined _ _ _, _ => True
  | _, _ => False

/-- The second value is the first one with the missing defaults. -/
inductive Completes : Schema → Value → Value → Prop
  | array {a : Annotations} {f : ArrayFields} {items : Schema} {v : Value} {xs ys : List Value}
      (hitems : v.items? = some xs) (hlength : xs.length = ys.length)
      (hxys : ∀ x y, (x, y) ∈ xs.zip ys → Completes items x y) :
      Completes (.array a f items) v (.list ys)
  | object {a : Annotations} {f : ObjectFields} {ps : List (Value × Schema)}
      {entries kept added : List (Value × Value)} (hkeys : entries.map (·.1) = kept.map (·.1))
      (hdeclared : ∀ e e', (e, e') ∈ entries.zip kept → ∀ p ∈ ps, p.1 = e.1 → Completes p.2 e.2 e'.2)
      (hother : ∀ e e', (e, e') ∈ entries.zip kept → (∀ p ∈ ps, p.1 ≠ e.1) → e'.2 = e.2)
      (hnew : (missing ps entries).map (·.1) = added.map (·.1))
      (hadded : ∀ p e, (p, e) ∈ (missing ps entries).zip added →
        ∀ d, p.2.outermostDefault = some d → Completes p.2 d e.2) :
      Completes (.object a f ps) (.dict entries) (.dict (kept ++ added))
  | nullable {a : Annotations} {inner : Schema} {v w : Value} (h : Completes inner v w) :
      Completes (.nullable a inner) v w
  | refined {a : Annotations} {r : Refinement} {base : Schema} {v w : Value} (h : Completes base v w) :
      Completes (.refined a r base) v w
  | other {s : Schema} {v : Value} (h : ¬ s.Opens v) : Completes s v v

/-- What completes a value extends it. -/
theorem Completes.extends {s : Schema} {v w : Value} (h : s.Completes v w) : v.Extends w := by
  induction h with
  | array hitems hlength hxys ih => exact .array hitems hlength ih
  | @object a f ps entries kept added hkeys hdeclared hother hnew hadded ih =>
      refine .dict hkeys fun e e' he => ?_
      by_cases hp : ∃ p ∈ ps, p.1 = e.1
      · obtain ⟨p, hp, hkey⟩ := hp
        exact ih e e' he p hp hkey
      · rw [hother e e' he fun p hmem hkey => hp ⟨p, hmem, hkey⟩]
        exact .refl _
  | nullable h ih => exact ih
  | refined h ih => exact ih
  | other h => exact .refl _

/-! ### The filled value completes the given one -/

theorem applyDefaults_of_present (s : Schema) {v : Value} (h : v.Present) : s.applyDefaults v = s.fill v :=
  applyDefaults_of_isAbsent_eq_false s h.here

theorem fill_nullable_of_present (a : Annotations) (inner : Schema) {v : Value} (h : v.Present) :
    (Schema.nullable a inner).fill v = inner.fill v := by
  by_cases hnull : v = .null
  · rw [hnull, fill_null, fill_null]
  · rw [fill_nullable hnull, applyDefaults_of_present inner h]

theorem fill_of_not_opens {s : Schema} {v : Value} (h : ¬ s.Opens v) : s.fill v = v := by
  cases s with
  | array a f items =>
      apply fill_array_of_no_items
      rw [Option.eq_none_iff_forall_ne_some]
      intro xs hxs
      exact h ⟨xs, hxs⟩
  | object a f ps =>
      apply fill_object_of_no_dict
      intro entries hv
      exact h ⟨entries, hv⟩
  | nullable a inner => exact absurd trivial h
  | refined a r base => exact absurd trivial h
  | _ => rfl

theorem filledItem_of_mem_properties {ps : List (Value × Schema)} (hnames : Names ps) {p : Value × Schema}
    (hp : p ∈ ps) {e : Value × Value} (hkey : p.1 = e.1) : filledItem ps e = p.2.applyDefaults e.2 := by
  rw [filledItem, ← hkey, property?_of_mem hnames hp]

theorem filledItem_of_other {ps : List (Value × Schema)} (hnames : Names ps) {e : Value × Value}
    (h : ∀ p ∈ ps, p.1 ≠ e.1) : filledItem ps e = e.2 := by
  have hnone : property? e.1 ps = none := by
    cases hfound : property? e.1 ps with
    | none => rfl
    | some s => exact absurd rfl (h _ (mem_of_property? hnames hfound))
  rw [filledItem, hnone]

/-- The entries that filling adds are those of the missing properties, with their defaults filled. -/
theorem forall₂_missingEntries (ps : List (Value × Schema)) (entries : List (Value × Value)) :
    List.Forall₂ (fun p e => ∃ d, p.2.outermostDefault = some d ∧ e = (p.1, p.2.fill d)) (missing ps entries)
      (missingEntries ps entries) := by
  have hmissing : missing ps entries = ps.filter fun p =>
      (if Value.hasKey p.1 entries then none
        else p.2.declaredDefault.map fun d => (p.1, p.2.fill d)).isSome := by
    apply List.filter_congr
    intro p _
    rw [outermostDefault_eq]
    cases Value.hasKey p.1 entries <;> simp
  rw [hmissing]
  refine (forall₂_filter_filterMap _ ps).imp fun p e he => ?_
  obtain ⟨-, d, hd, rfl⟩ := of_missingEntry he
  exact ⟨d, by rw [outermostDefault_eq, hd], rfl⟩

theorem completes_fill {s : Schema} (h : s.Named) (hs : s.Everywhere DefaultPresent) {v : Value}
    (hv : v.Present) : s.Completes v (s.fill v) := by
  induction s using Schema.induction generalizing v with
  | array a f items ih =>
      cases hitems : v.items? with
      | none =>
          rw [fill_array_of_no_items hitems]
          apply Completes.other
          rintro ⟨xs, hxs⟩
          rw [hitems] at hxs
          cases hxs
      | some xs =>
          rw [fill_array_of_items hitems]
          refine .array hitems (by rw [List.length_map]) fun x y hxy => ?_
          obtain ⟨hx, rfl⟩ := of_mem_zip_map hxy
          have hpresent : x.Present := Value.Everywhere.items hv hitems x hx
          rw [applyDefaults_of_present items hpresent]
          exact ih h.2 hs.2 hpresent
  | object a f ps ih =>
      cases v with
      | dict entries =>
          have hnames := h.names
          have hitems := (Value.everywhere_dict.mp hv).2
          have hdefaults := (everywhere_object.mp hs).2
          have hadded := forall₂_missingEntries ps entries
          show Completes _ _ (.dict (fillProperties ps entries))
          rw [fillProperties_eq hnames]
          refine .object ?_ ?_ ?_ ?_ ?_
          · rw [List.map_map]
            rfl
          · intro e e' he p hp hkey
            obtain ⟨hmem, rfl⟩ := of_mem_zip_map he
            rw [filledItem_of_mem_properties hnames hp hkey, applyDefaults_of_present p.2 (hitems e hmem)]
            exact ih p hp (h.property hp) (hdefaults p hp) (hitems e hmem)
          · intro e e' he hother
            obtain ⟨-, rfl⟩ := of_mem_zip_map he
            exact filledItem_of_other hnames hother
          · rw [← List.forall₂_eq_eq_eq, List.forall₂_map_left_iff, List.forall₂_map_right_iff]
            refine hadded.imp fun p e he => ?_
            obtain ⟨d, -, rfl⟩ := he
            rfl
          · intro p e hpe d hd
            obtain ⟨d', hd', rfl⟩ := (List.forall₂_iff_zip.mp hadded).2 hpe
            obtain rfl := Option.some.inj (hd.symm.trans hd')
            have hp : p ∈ ps := List.mem_of_mem_filter (List.of_mem_zip hpe).1
            exact ih p hp (h.property hp) (hdefaults p hp) (present_outermostDefault (hdefaults p hp) hd)
      | _ =>
          apply Completes.other
          rintro ⟨entries, hentries⟩
          cases hentries
  | nullable a inner ih =>
      rw [fill_nullable_of_present a inner hv]
      exact .nullable (ih h.2 hs.2 hv)
  | refined a r base ih => exact .refined (ih h.2 hs.2 hv)
  | _ =>
      apply Completes.other
      intro h
      exact h

/-- Nothing else completes a value. -/
theorem eq_fill_of_completes {s : Schema} (h : s.Named) (hs : s.Everywhere DefaultPresent) {v w : Value}
    (hv : v.Present) (hw : s.Completes v w) : w = s.fill v := by
  induction hw with
  | @array a f items v xs ys hitems hlength hxys ih =>
      have hfilled : ys = xs.map items.applyDefaults := by
        apply eq_map_of_zip hlength
        intro x y hxy
        have hpresent : x.Present := Value.Everywhere.items hv hitems x (List.of_mem_zip hxy).1
        rw [applyDefaults_of_present items hpresent]
        exact ih x y hxy h.2 hs.2 hpresent
      rw [fill_array_of_items hitems, hfilled]
  | @object a f ps entries kept added hkeys hdeclared hother hnew hadded ih ih' =>
      have hnames := h.names
      have hitems := (Value.everywhere_dict.mp hv).2
      have hdefaults := (everywhere_object.mp hs).2
      have hkept : kept = entries.map fun e => (e.1, filledItem ps e) := by
        apply eq_map_of_zip
        · simpa using congrArg List.length hkeys
        intro e e' he
        have hpresent := hitems e (List.of_mem_zip he).1
        refine Prod.ext (eq_of_mem_zip hkeys he).symm ?_
        by_cases hp : ∃ p ∈ ps, p.1 = e.1
        · obtain ⟨p, hp, hkey⟩ := hp
          show e'.2 = filledItem ps e
          rw [filledItem_of_mem_properties hnames hp hkey, applyDefaults_of_present p.2 hpresent]
          exact ih e e' he p hp hkey (h.property hp) (hdefaults p hp) hpresent
        · have hundeclared : ∀ p ∈ ps, p.1 ≠ e.1 := fun p hmem hkey => hp ⟨p, hmem, hkey⟩
          rw [hother e e' he hundeclared]
          exact (filledItem_of_other hnames hundeclared).symm
      have hrow : List.Forall₂ (fun p e => ∃ d, p.2.outermostDefault = some d ∧ e = (p.1, p.2.fill d))
          (missing ps entries) added := by
        refine List.forall₂_iff_zip.mpr ⟨by simpa using congrArg List.length hnew, fun {p e} hpe => ?_⟩
        obtain ⟨hp, hmissing⟩ := List.mem_filter.mp (List.of_mem_zip hpe).1
        obtain ⟨d, hd⟩ := Option.isSome_iff_exists.mp ((Bool.and_eq_true _ _).mp hmissing).2
        refine ⟨d, hd, Prod.ext (eq_of_mem_zip hnew hpe).symm ?_⟩
        exact ih' p e hpe d hd (h.property hp) (hdefaults p hp) (present_outermostDefault (hdefaults p hp) hd)
      have hadded : added = missingEntries ps entries := by
        refine List.right_unique_forall₂' ?_ hrow (forall₂_missingEntries ps entries)
        rintro p e e' ⟨d, hd, rfl⟩ ⟨d', hd', rfl⟩
        rw [Option.some.inj (hd.symm.trans hd')]
      show Value.dict _ = .dict (fillProperties ps entries)
      rw [fillProperties_eq hnames, hkept, hadded]
  | nullable hw ih =>
      rw [fill_nullable_of_present _ _ hv]
      exact ih h.2 hs.2 hv
  | refined hw ih => exact ih h.2 hs.2 hv
  | other hw => exact (fill_of_not_opens hw).symm

theorem completes_iff {s : Schema} (h : s.Named) (hs : s.Everywhere DefaultPresent) {v w : Value}
    (hv : v.Present) : s.Completes v w ↔ w = s.applyDefaults v := by
  rw [applyDefaults_of_present s hv]
  constructor
  · intro hw
    exact eq_fill_of_completes h hs hv hw
  · rintro rfl
    exact completes_fill h hs hv

/-! ### Nothing is left to be filled -/

/-- A node of the first schema stands over a part of the first value. -/
inductive Governs : Schema → Value → Schema → Value → Prop
  | here (s : Schema) (v : Value) : Governs s v s v
  | item {a : Annotations} {f : ArrayFields} {items n : Schema} {v x w : Value} {xs : List Value}
      (hitems : v.items? = some xs) (hx : x ∈ xs) (rest : Governs items x n w) :
      Governs (.array a f items) v n w
  | entry {a : Annotations} {f : ObjectFields} {ps : List (Value × Schema)} {p : Value × Schema}
      {entries : List (Value × Value)} {e : Value × Value} {n : Schema} {w : Value} (hp : p ∈ ps)
      (he : e ∈ entries) (hkey : e.1 = p.1) (rest : Governs p.2 e.2 n w) :
      Governs (.object a f ps) (.dict entries) n w
  | nullable {a : Annotations} {inner n : Schema} {v w : Value} (hnull : v ≠ .null)
      (rest : Governs inner v n w) : Governs (.nullable a inner) v n w
  | refined {a : Annotations} {r : Refinement} {base n : Schema} {v w : Value} (rest : Governs base v n w) :
      Governs (.refined a r base) v n w

theorem Filled.governed {s n : Schema} {v w : Value} (h : s.Filled v) (hn : s.Governs v n w) : n.Filled w := by
  induction hn with
  | here s v => exact h
  | item hitems hx rest ih => exact ih (h _ hitems _ hx)
  | entry hp he hkey rest ih => exact ih ((filledProperties_iff.mp (h _ rfl) _ hp).2 _ he hkey)
  | nullable hnull rest ih => exact ih (h hnull)
  | refined rest ih => exact ih h

/-- In a filled value no dictionary under an object node lacks a key with a default. -/
theorem hasKey_of_governs {s : Schema} {v : Value} (h : s.Filled v) {a : Annotations} {f : ObjectFields}
    {ps : List (Value × Schema)} {entries : List (Value × Value)}
    (hn : s.Governs v (.object a f ps) (.dict entries)) {p : Value × Schema} (hp : p ∈ ps)
    (hdefault : p.2.outermostDefault.isSome = true) : Value.hasKey p.1 entries = true := by
  have hfilled := filledProperties_iff.mp (h.governed hn entries rfl) p hp
  rw [outermostDefault_eq] at hdefault
  exact hfilled.1 hdefault

/-- **Filling is complete and conservative.** Where nothing is absent in a value and in the defaults of a schema,
the filled value is the one that completes it: it extends the given value, and wherever an object node governs a
dictionary in it, in a filled default as well, no property with a default is missing. -/
theorem applyDefaults_completes {s : Schema} {validator : Validator} (hcompile : s.compile = .ok validator)
    (hs : s.Everywhere DeclaresOnce) (hdefaults : s.Everywhere DefaultPresent) {v : Value} (hv : v.Present) :
    (∀ w, s.Completes v w ↔ w = s.applyDefaults v) ∧ v.Extends (s.applyDefaults v) ∧
      ∀ a f ps entries, s.Governs (s.applyDefaults v) (.object a f ps) (.dict entries) →
        ∀ p ∈ ps, p.2.outermostDefault.isSome = true → Value.hasKey p.1 entries = true := by
  have hnamed := named_of_compileAt hcompile hs
  refine ⟨fun w => completes_iff hnamed hdefaults hv, ?_, ?_⟩
  · exact ((completes_iff hnamed hdefaults hv).mpr rfl).extends
  · intro a f ps entries hn p hp hdefault
    rw [applyDefaults_of_present s hv] at hn
    exact hasKey_of_governs (filled_fill hnamed v) hn hp hdefault

/-- The books of a shelf, some of them unknown. A loan has a default behind a refinement and a nullable wrapper,
and the default lacks the days. -/
def shelf : Schema :=
  .array {} {} <| .nullable {} <| .object {} { additional := true } [
    (.str "title", .string {} {}),
    (.str "loan", .refined {} ⟨.predicate ⟨"always", "always", .null, fun _ => .ok true⟩, .str "loan", none⟩ <|
      .nullable { default := some (.record []) } <| .object {} {} [
        (.str "days", .integer { default := some (.int 14) } {})])]

theorem declaresOnce_shelf : shelf.Everywhere DeclaresOnce := by
  refine ⟨trivial, trivial, ⟨.cons ?_ (List.pairwise_singleton _ _), trivial, ?_, trivial⟩⟩
  · intro p hp
    obtain rfl := List.mem_singleton.mp hp
    rfl
  · exact ⟨trivial, trivial, List.pairwise_singleton _ _, trivial, trivial⟩

theorem defaultPresent_shelf : shelf.Everywhere DefaultPresent := by
  have hnone {s : Schema} : s.default? = none → s.DefaultPresent := DefaultPresent.of_none
  refine ⟨hnone rfl, hnone rfl, ⟨hnone rfl, hnone rfl, ⟨hnone rfl, ?_, hnone rfl, ?_, trivial⟩, trivial⟩⟩
  · rintro d ⟨⟩
    exact ⟨rfl, trivial⟩
  · rintro d ⟨⟩
    rfl

theorem applyDefaults_completes_shelf :
    ∃ validator, shelf.compile = .ok validator ∧ shelf.Everywhere DeclaresOnce ∧
      shelf.Everywhere DefaultPresent ∧
      (Value.tuple [.null, .record [("pages", .null), ("title", .int 7)]]).Present ∧
      shelf.Completes (.tuple [.null, .record [("pages", .null), ("title", .int 7)]])
        (.list [.null, .record [("pages", .null), ("title", .int 7), ("loan", .record [("days", .int 14)])]]) := by
  obtain ⟨validator, hcompile⟩ : ∃ validator, shelf.compile = .ok validator := ⟨_, rfl⟩
  have hv : (Value.tuple [.null, .record [("pages", .null), ("title", .int 7)]]).Present :=
    ⟨rfl, rfl, ⟨rfl, rfl, rfl, trivial⟩, trivial⟩
  refine ⟨validator, hcompile, declaresOnce_shelf, defaultPresent_shelf, hv, ?_⟩
  exact ((applyDefaults_completes hcompile declaresOnce_shelf defaultPresent_shelf hv).1 _).mpr rfl

end Schema

end ApiContract
