import ApiContract.Proofs.Children
import ApiContract.Proofs.ValueEquality
import ApiContract.Schema.Equality

/-!
# Equality of schemas

Equal schemas are nodes of one kind with equal fields and equal children (`Schema.Same`). Equality of schemas is
transitive (`Schema.same_trans`), and equal schemas have the same name.
-/

namespace ApiContract

theorem sameOption_iff {α : Type} {same : α → α → Bool} {x y : Option α} :
    sameOption same x y = true ↔
      (x = none ∧ y = none) ∨ ∃ a b, x = some a ∧ y = some b ∧ same a b = true := by
  cases x <;> cases y <;> simp [sameOption]

theorem sameOption_trans {α : Type} {same : α → α → Bool}
    (htrans : ∀ a b c, same a b = true → same b c = true → same a c = true) {x y z : Option α}
    (h : sameOption same x y = true) (h' : sameOption same y z = true) : sameOption same x z = true := by
  rw [sameOption_iff] at h h' ⊢
  rcases h with ⟨rfl, rfl⟩ | ⟨a, b, rfl, rfl, hab⟩
  · rcases h' with ⟨-, rfl⟩ | ⟨_, _, hnone, -, -⟩
    · exact .inl ⟨rfl, rfl⟩
    · cases hnone
  · rcases h' with ⟨hnone, -⟩ | ⟨b', c, hb, rfl, hbc⟩
    · cases hnone
    · obtain rfl := Option.some.inj hb
      exact .inr ⟨a, c, rfl, rfl, htrans a b c hab hbc⟩

theorem sameValues_trans {x y z : Option Value} (h : sameValues x y = true) (h' : sameValues y z = true) :
    sameValues x z = true :=
  sameOption_trans (fun u v w (huv : u.same v = true) (hvw : v.same w = true) =>
    Value.same_trans huv hvw) h h'

theorem sameItems_trans {xs ys zs : List Value} (h : Value.sameItems xs ys = true)
    (h' : Value.sameItems ys zs = true) : Value.sameItems xs zs = true := by
  rw [Value.sameItems_iff] at h h' ⊢
  exact Value.forall₂_same_trans (fun _ _ _ _ => Value.same_trans) h h'

theorem sameLists_trans {x y z : Option (List Value)} (h : sameLists x y = true) (h' : sameLists y z = true) :
    sameLists x z = true :=
  sameOption_trans (fun us vs ws (huv : Value.sameItems us vs = true) (hvw : Value.sameItems vs ws = true) =>
    sameItems_trans huv hvw) h h'

theorem Annotations.same_iff {a b : Annotations} :
    a.same b = true ↔ a.description = b.description ∧ sameValues a.default b.default = true ∧
      sameLists a.examples b.examples = true ∧ a.name = b.name := by
  simp [Annotations.same, and_assoc]

theorem Annotations.same_trans {a b c : Annotations} (h : a.same b = true) (h' : b.same c = true) :
    a.same c = true := by
  rw [Annotations.same_iff] at h h' ⊢
  obtain ⟨hdescription, hdefault, hexamples, hname⟩ := h
  obtain ⟨hdescription', hdefault', hexamples', hname'⟩ := h'
  exact ⟨hdescription.trans hdescription', sameValues_trans hdefault hdefault',
    sameLists_trans hexamples hexamples', hname.trans hname'⟩

theorem StringFields.same_iff {f g : StringFields} :
    f.same g = true ↔ sameValues f.minLength g.minLength = true ∧ sameValues f.maxLength g.maxLength = true ∧
      f.pattern = g.pattern ∧ f.format = g.format ∧ sameLists f.enum g.enum = true := by
  simp [StringFields.same, and_assoc]

theorem StringFields.same_trans {f g k : StringFields} (h : f.same g = true) (h' : g.same k = true) :
    f.same k = true := by
  rw [StringFields.same_iff] at h h' ⊢
  obtain ⟨hmin, hmax, hpattern, hformat, henum⟩ := h
  obtain ⟨hmin', hmax', hpattern', hformat', henum'⟩ := h'
  exact ⟨sameValues_trans hmin hmin', sameValues_trans hmax hmax', hpattern.trans hpattern',
    hformat.trans hformat', sameLists_trans henum henum'⟩

theorem NumberFields.same_iff {f g : NumberFields} :
    f.same g = true ↔ sameValues f.minimum g.minimum = true ∧ sameValues f.maximum g.maximum = true ∧
      sameValues f.exclusiveMinimum g.exclusiveMinimum = true ∧
      sameValues f.exclusiveMaximum g.exclusiveMaximum = true ∧
      sameValues f.multipleOf g.multipleOf = true ∧ sameLists f.enum g.enum = true := by
  simp [NumberFields.same, and_assoc]

theorem NumberFields.same_trans {f g k : NumberFields} (h : f.same g = true) (h' : g.same k = true) :
    f.same k = true := by
  rw [NumberFields.same_iff] at h h' ⊢
  obtain ⟨hmin, hmax, habove, hbelow, hmultiple, henum⟩ := h
  obtain ⟨hmin', hmax', habove', hbelow', hmultiple', henum'⟩ := h'
  exact ⟨sameValues_trans hmin hmin', sameValues_trans hmax hmax', sameValues_trans habove habove',
    sameValues_trans hbelow hbelow', sameValues_trans hmultiple hmultiple', sameLists_trans henum henum'⟩

theorem ArrayFields.same_iff {f g : ArrayFields} :
    f.same g = true ↔ sameValues f.minItems g.minItems = true ∧ sameValues f.maxItems g.maxItems = true ∧
      f.uniqueItems = g.uniqueItems := by
  simp [ArrayFields.same, and_assoc]

theorem ArrayFields.same_trans {f g k : ArrayFields} (h : f.same g = true) (h' : g.same k = true) :
    f.same k = true := by
  rw [ArrayFields.same_iff] at h h' ⊢
  obtain ⟨hmin, hmax, hunique⟩ := h
  obtain ⟨hmin', hmax', hunique'⟩ := h'
  exact ⟨sameValues_trans hmin hmin', sameValues_trans hmax hmax', hunique.trans hunique'⟩

theorem ObjectFields.same_iff {f g : ObjectFields} :
    f.same g = true ↔ sameLists f.required g.required = true ∧ f.additional = g.additional := by
  simp [ObjectFields.same]

theorem ObjectFields.same_trans {f g k : ObjectFields} (h : f.same g = true) (h' : g.same k = true) :
    f.same k = true := by
  rw [ObjectFields.same_iff] at h h' ⊢
  exact ⟨sameLists_trans h.1 h'.1, h.2.trans h'.2⟩

theorem Refinement.same_iff {r q : Refinement} :
    r.same q = true ↔ r.condition.same q.condition = true ∧ r.message.same q.message = true ∧
      r.constraint = q.constraint := by
  simp [Refinement.same, and_assoc]

theorem Condition.same_trans {x y z : Condition} (h : x.same y = true) (h' : y.same z = true) :
    x.same z = true := by
  cases x with
  | predicate p =>
      cases y with
      | predicate q =>
          cases z with
          | predicate r => exact beq_iff_eq.mpr ((beq_iff_eq.mp h).trans (beq_iff_eq.mp h'))
          | value v => cases h'
      | value v => cases h
  | value u =>
      cases y with
      | predicate q => cases h
      | value v =>
          cases z with
          | predicate r => cases h'
          | value w => exact Value.same_trans h h'

theorem Refinement.same_trans {r q p : Refinement} (h : r.same q = true) (h' : q.same p = true) :
    r.same p = true := by
  rw [Refinement.same_iff] at h h' ⊢
  obtain ⟨hcondition, hmessage, hconstraint⟩ := h
  obtain ⟨hcondition', hmessage', hconstraint'⟩ := h'
  exact ⟨Condition.same_trans hcondition hcondition', Value.same_trans hmessage hmessage',
    hconstraint.trans hconstraint'⟩

namespace Schema

theorem sameProperties_iff {ps qs : List (Value × Schema)} :
    sameProperties ps qs = true ↔ ∀ p ∈ ps, ∃ q ∈ qs, p.1.same q.1 = true ∧ p.2.same q.2 = true := by
  induction ps with
  | nil => simp [sameProperties]
  | cons p ps ih =>
      obtain ⟨key, s⟩ := p
      simp [sameProperties, ih]

/-- Equal nodes: they are of one kind, their fields are equal, and so are their children. -/
inductive Same : Schema → Schema → Prop
  | string {a b f g} (ha : a.same b = true) (hf : f.same g = true) : Same (.string a f) (.string b g)
  | number {a b f g} (ha : a.same b = true) (hf : f.same g = true) : Same (.number a f) (.number b g)
  | integer {a b f g} (ha : a.same b = true) (hf : f.same g = true) : Same (.integer a f) (.integer b g)
  | boolean {a b} (ha : a.same b = true) : Same (.boolean a) (.boolean b)
  | array {a b f g s t} (ha : a.same b = true) (hf : f.same g = true) (hs : s.same t = true) :
      Same (.array a f s) (.array b g t)
  | object {a b f g ps qs} (ha : a.same b = true) (hf : f.same g = true) (hlength : ps.length = qs.length)
      (hps : ∀ p ∈ ps, ∃ q ∈ qs, p.1.same q.1 = true ∧ p.2.same q.2 = true) :
      Same (.object a f ps) (.object b g qs)
  | nullable {a b s t} (ha : a.same b = true) (hs : s.same t = true) : Same (.nullable a s) (.nullable b t)
  | refined {a b r q s t} (ha : a.same b = true) (hr : r.same q = true) (hs : s.same t = true) :
      Same (.refined a r s) (.refined b q t)
  | bare {a b} (ha : a.same b = true) : Same (.bare a) (.bare b)
  | foreign {v w} (hv : v.same w = true) : Same (.foreign v) (.foreign w)

theorem same_of_same {s t : Schema} (h : s.same t = true) : s.Same t := by
  cases s with
  | string a f =>
      cases t with
      | string b g =>
          obtain ⟨ha, hf⟩ := Bool.and_eq_true_iff.mp h
          exact .string ha hf
      | _ => cases h
  | number a f =>
      cases t with
      | number b g =>
          obtain ⟨ha, hf⟩ := Bool.and_eq_true_iff.mp h
          exact .number ha hf
      | _ => cases h
  | integer a f =>
      cases t with
      | integer b g =>
          obtain ⟨ha, hf⟩ := Bool.and_eq_true_iff.mp h
          exact .integer ha hf
      | _ => cases h
  | boolean a =>
      cases t with
      | boolean b => exact .boolean h
      | _ => cases h
  | array a f items =>
      cases t with
      | array b g items' =>
          obtain ⟨h, hitems⟩ := Bool.and_eq_true_iff.mp h
          obtain ⟨ha, hf⟩ := Bool.and_eq_true_iff.mp h
          exact .array ha hf hitems
      | _ => cases h
  | object a f ps =>
      cases t with
      | object b g qs =>
          obtain ⟨h, hps⟩ := Bool.and_eq_true_iff.mp h
          obtain ⟨h, hlength⟩ := Bool.and_eq_true_iff.mp h
          obtain ⟨ha, hf⟩ := Bool.and_eq_true_iff.mp h
          exact .object ha hf (beq_iff_eq.mp hlength) (sameProperties_iff.mp hps)
      | _ => cases h
  | nullable a inner =>
      cases t with
      | nullable b inner' =>
          obtain ⟨ha, hinner⟩ := Bool.and_eq_true_iff.mp h
          exact .nullable ha hinner
      | _ => cases h
  | refined a r base =>
      cases t with
      | refined b q base' =>
          obtain ⟨h, hbase⟩ := Bool.and_eq_true_iff.mp h
          obtain ⟨ha, hr⟩ := Bool.and_eq_true_iff.mp h
          exact .refined ha hr hbase
      | _ => cases h
  | bare a =>
      cases t with
      | bare b => exact .bare h
      | _ => cases h
  | foreign v =>
      cases t with
      | foreign w => exact .foreign h
      | _ => cases h

theorem Same.same {s t : Schema} (h : s.Same t) : s.same t = true := by
  cases h with
  | string ha hf => exact Bool.and_eq_true_iff.mpr ⟨ha, hf⟩
  | number ha hf => exact Bool.and_eq_true_iff.mpr ⟨ha, hf⟩
  | integer ha hf => exact Bool.and_eq_true_iff.mpr ⟨ha, hf⟩
  | boolean ha => exact ha
  | array ha hf hs => exact Bool.and_eq_true_iff.mpr ⟨Bool.and_eq_true_iff.mpr ⟨ha, hf⟩, hs⟩
  | object ha hf hlength hps =>
      refine Bool.and_eq_true_iff.mpr ⟨Bool.and_eq_true_iff.mpr ⟨?_, beq_iff_eq.mpr hlength⟩,
        sameProperties_iff.mpr hps⟩
      exact Bool.and_eq_true_iff.mpr ⟨ha, hf⟩
  | nullable ha hs => exact Bool.and_eq_true_iff.mpr ⟨ha, hs⟩
  | refined ha hr hs => exact Bool.and_eq_true_iff.mpr ⟨Bool.and_eq_true_iff.mpr ⟨ha, hr⟩, hs⟩
  | bare ha => exact ha
  | foreign hv => exact hv

theorem same_iff {s t : Schema} : s.same t = true ↔ s.Same t := ⟨same_of_same, Same.same⟩

/-- Equality of schemas is transitive. -/
theorem same_trans {s t u : Schema} (h : s.same t = true) (h' : t.same u = true) : s.same u = true := by
  induction s using Schema.induction generalizing t u with
  | string a f =>
      cases same_iff.mp h with
      | string ha hf =>
          cases same_iff.mp h' with
          | string ha' hf' =>
              exact (Same.string (Annotations.same_trans ha ha') (StringFields.same_trans hf hf')).same
  | number a f =>
      cases same_iff.mp h with
      | number ha hf =>
          cases same_iff.mp h' with
          | number ha' hf' =>
              exact (Same.number (Annotations.same_trans ha ha') (NumberFields.same_trans hf hf')).same
  | integer a f =>
      cases same_iff.mp h with
      | integer ha hf =>
          cases same_iff.mp h' with
          | integer ha' hf' =>
              exact (Same.integer (Annotations.same_trans ha ha') (NumberFields.same_trans hf hf')).same
  | boolean a =>
      cases same_iff.mp h with
      | boolean ha =>
          cases same_iff.mp h' with
          | boolean ha' =>
              exact (Same.boolean (Annotations.same_trans ha ha')).same
  | array a f items ih =>
      cases same_iff.mp h with
      | array ha hf hitems =>
          cases same_iff.mp h' with
          | array ha' hf' hitems' =>
              exact (Same.array (Annotations.same_trans ha ha') (ArrayFields.same_trans hf hf')
                (ih hitems hitems')).same
  | object a f ps ih =>
      cases same_iff.mp h with
      | object ha hf hlength hps =>
          cases same_iff.mp h' with
          | object ha' hf' hlength' hps' =>
              refine (Same.object (Annotations.same_trans ha ha') (ObjectFields.same_trans hf hf')
                (hlength.trans hlength') fun p hp => ?_).same
              obtain ⟨q, hq, hkey, hschema⟩ := hps p hp
              obtain ⟨r, hr, hkey', hschema'⟩ := hps' q hq
              exact ⟨r, hr, Value.same_trans hkey hkey', ih p hp hschema hschema'⟩
  | nullable a inner ih =>
      cases same_iff.mp h with
      | nullable ha hinner =>
          cases same_iff.mp h' with
          | nullable ha' hinner' =>
              exact (Same.nullable (Annotations.same_trans ha ha') (ih hinner hinner')).same
  | refined a r base ih =>
      cases same_iff.mp h with
      | refined ha hr hbase =>
          cases same_iff.mp h' with
          | refined ha' hr' hbase' =>
              exact (Same.refined (Annotations.same_trans ha ha') (Refinement.same_trans hr hr')
                (ih hbase hbase')).same
  | bare a =>
      cases same_iff.mp h with
      | bare ha =>
          cases same_iff.mp h' with
          | bare ha' =>
              exact (Same.bare (Annotations.same_trans ha ha')).same
  | foreign v =>
      cases same_iff.mp h with
      | foreign hv =>
          cases same_iff.mp h' with
          | foreign hv' =>
              exact (Same.foreign (Value.same_trans hv hv')).same

/-- Equal schemas have equal annotations, if they have any. -/
theorem annotations_of_same {s t : Schema} (h : s.same t = true) :
    (s.annotations? = none ∧ t.annotations? = none) ∨
      ∃ a b, s.annotations? = some a ∧ t.annotations? = some b ∧ a.same b = true := by
  cases same_iff.mp h with
  | foreign hv => exact .inl ⟨rfl, rfl⟩
  | _ => exact .inr ⟨_, _, rfl, rfl, ‹_›⟩

theorem exists_annotations_of_same {s t : Schema} (h : s.same t = true) {a : Annotations}
    (ha : s.annotations? = some a) : ∃ b, t.annotations? = some b ∧ a.same b = true := by
  rcases annotations_of_same h with ⟨hs, -⟩ | ⟨a', b, hs, ht, hab⟩
  · rw [ha] at hs
    cases hs
  · obtain rfl := Option.some.inj (ha.symm.trans hs)
    exact ⟨b, ht, hab⟩

/-- Equal schemas have one name. -/
theorem name?_of_same {s t : Schema} (h : s.same t = true) : s.name? = t.name? := by
  rw [name?, name?]
  rcases annotations_of_same h with ⟨hs, ht⟩ | ⟨a, b, hs, ht, hab⟩
  · rw [hs, ht]
  · rw [hs, ht]
    exact (Annotations.same_iff.mp hab).2.2.2

theorem sharedName?_of_same {s t : Schema} (h : s.same t = true) : s.sharedName? = t.sharedName? := by
  rw [sharedName?, sharedName?, name?_of_same h]

end Schema

end ApiContract
