import ApiContract.Proofs.Enumeration
import ApiContract.Proofs.NodeDocuments
import ApiContract.Proofs.SchemaEquality

/-!
# Equal schemas check alike

Equality of schemas does not look at the order of properties, and the errors of a value come in this order.
So the errors that equal schemas find in a value are the same in some order (`Schema.reordered_run`), and one
schema accepts what the other accepts (`Schema.check_and_errors_of_same`).

Equality overlooks more than order: numbers that are equal can have different texts, and a message shows the
text of what is declared; and predicates are told apart by identity alone. What is asked of two schemas so that
none of it shows is `Schema.ComparesExactly`.
-/

namespace ApiContract

open Trace

/-! ### Equal fields -/

theorem Value.IsInteger.eq_of_same {v w : Value} (hv : v.IsInteger) (hw : w.IsInteger) (h : v.same w = true) :
    v = w := by
  obtain ⟨n, rfl⟩ := hv
  obtain ⟨m, rfl⟩ := hw
  simpa [Value.same, Value.number?, Value.Number.same, Value.Number.compare?] using h

theorem sameValues_eq {x y : Option Value} (hx : ∀ v, x = some v → v.IsInteger)
    (hy : ∀ v, y = some v → v.IsInteger) (h : sameValues x y = true) : x = y := by
  rcases sameOption_iff.mp h with ⟨rfl, rfl⟩ | ⟨v, w, rfl, rfl, hvw⟩
  · rfl
  · exact congrArg some ((hx v rfl).eq_of_same (hy w rfl) hvw)

/-- Counts that are equal as values are the same count. -/
theorem count_eq {x y : Option Nat}
    (h : sameValues (x.map fun n : Nat => Value.int n) (y.map fun n : Nat => Value.int n) = true) : x = y := by
  have hinteger (z : Option Nat) (v : Value) (hv : z.map (fun n : Nat => Value.int n) = some v) : v.IsInteger := by
    obtain ⟨n, -, rfl⟩ := Option.map_eq_some_iff.mp hv
    exact ⟨n, rfl⟩
  have hmap := sameValues_eq (hinteger x) (hinteger y) h
  refine Option.map_injective (fun n m hnm => ?_) hmap
  exact Int.ofNat_inj.mp (Value.int.inj hnm)

theorem forall₂_of_sameLists {x y : Option (List Value)} (h : sameLists x y = true) :
    (x = none ∧ y = none) ∨
      ∃ vs ws, x = some vs ∧ y = some ws ∧ List.Forall₂ (fun v w => v.same w = true) vs ws := by
  rcases sameOption_iff.mp h with hnone | ⟨vs, ws, hx, hy, hsame⟩
  · exact .inl hnone
  · exact .inr ⟨vs, ws, hx, hy, Value.sameItems_iff.mp hsame⟩

/-- A text is a member of all rows that are equal to one of which it is a member. -/
theorem mem_str_iff_of_same {vs ws : List Value} (h : List.Forall₂ (fun v w => v.same w = true) vs ws)
    (s : String) : .str s ∈ vs ↔ .str s ∈ ws := by
  constructor
  · intro hmem
    obtain ⟨w, hw, hsame⟩ := exists_right_of_forall₂ h hmem
    rwa [Value.same_str_left.mp hsame] at hw
  · intro hmem
    obtain ⟨v, hv, hsame⟩ := exists_left_of_forall₂ h hmem
    rwa [Value.same_str_right.mp hsame] at hv

theorem NumberFields.IsExact.eq_of_same {f g : NumberFields} (hf : f.IsExact) (hg : g.IsExact)
    (h : f.same g = true) : f = g := by
  obtain ⟨hmin, hmax, habove, hbelow, hstep, henum⟩ := NumberFields.same_iff.mp h
  have henum : f.enum = g.enum := by
    rcases forall₂_of_sameLists henum with ⟨hx, hy⟩ | ⟨vs, ws, hx, hy, hsame⟩
    · rw [hx, hy]
    · rw [hx, hy, Option.some.injEq, ← List.forall₂_eq_eq_eq]
      exact forall₂_imp_of_mem_mem hsame fun v hv w hw =>
        (hf.enum vs hx v hv).eq_of_same (hg.enum ws hy w hw)
  obtain ⟨_, _, _, _, _, _⟩ := f
  obtain ⟨_, _, _, _, _, _⟩ := g
  simp only [NumberFields.mk.injEq]
  exact ⟨sameValues_eq hf.minimum hg.minimum hmin, sameValues_eq hf.maximum hg.maximum hmax,
    sameValues_eq hf.exclusiveMinimum hg.exclusiveMinimum habove,
    sameValues_eq hf.exclusiveMaximum hg.exclusiveMaximum hbelow,
    sameValues_eq hf.multipleOf hg.multipleOf hstep, henum⟩

/-- Equal arrays have one rule. -/
theorem Schema.ArrayCompiled.eq_of_same {f g : ArrayFields} {rule rule' : ArrayRule} (hf : ArrayCompiled f rule)
    (hg : ArrayCompiled g rule') (h : f.same g = true) : rule = rule' := by
  obtain ⟨hmin, hmax, hunique⟩ := ArrayFields.same_iff.mp h
  rw [hf.minItems, hg.minItems] at hmin
  rw [hf.maxItems, hg.maxItems] at hmax
  rw [hf.uniqueItems, hg.uniqueItems] at hunique
  obtain ⟨_, _, _⟩ := rule
  obtain ⟨_, _, _⟩ := rule'
  simp only [ArrayRule.mk.injEq]
  exact ⟨count_eq hmin, count_eq hmax, hunique⟩

/-- A pattern is known from its source. -/
theorem pattern_eq_of_source {p q : CompiledPattern} (hp : Regex.parse p.source = .ok p.regex)
    (hq : Regex.parse q.source = .ok q.regex) (h : p.source = q.source) : p = q := by
  obtain ⟨source, regex⟩ := p
  obtain ⟨source', regex'⟩ := q
  obtain rfl : source = source' := h
  obtain rfl : regex = regex' := Except.ok.inj (hp.symm.trans hq)
  rfl

theorem displayItems_congr {vs ws : List Value} (h : List.Forall₂ (fun v w => v.display = w.display) vs ws) :
    Value.displayItems vs = Value.displayItems ws := by
  induction h with
  | nil => rfl
  | cons hvw _ ih => rw [Value.displayItems, Value.displayItems, hvw, ih]

/-- An enumeration is told by the texts of its members. -/
theorem message_notEnumerated {vs ws : List Value}
    (h : List.Forall₂ (fun v w => v.display = w.display) vs ws) :
    (Violation.notEnumerated vs).message = (Violation.notEnumerated ws).message := by
  rw [Violation.message, Violation.message, Value.displayList, Value.displayList, Value.display, Value.display,
    displayItems_congr h]

namespace Schema

open Validator

/-- Equal text fields are checked alike, if the enumerated values have the same texts. -/
theorem checkString_of_same {f g : StringFields} {rule rule' : StringRule} (hf : StringCompiled f rule)
    (hg : StringCompiled g rule') (h : f.same g = true)
    (htexts : ∀ vs ws, f.enum = some vs → g.enum = some ws →
      ∀ v ∈ vs, ∀ w ∈ ws, v.same w = true → v.display = w.display) (s path : String) :
    checkString rule s path = checkString rule' s path := by
  obtain ⟨hmin, hmax, hpattern, hformat, henum⟩ := StringFields.same_iff.mp h
  rw [hf.minLength, hg.minLength] at hmin
  rw [hf.maxLength, hg.maxLength] at hmax
  rw [hf.format, hg.format] at hformat
  rw [hf.pattern, hg.pattern] at hpattern
  have hpattern : rule.pattern = rule'.pattern := by
    cases hp : rule.pattern with
    | none => cases hq : rule'.pattern <;> simp_all
    | some p =>
        rw [hp] at hpattern
        obtain ⟨q, hq, hsource⟩ := Option.map_eq_some_iff.mp hpattern.symm
        rw [hq, pattern_eq_of_source (hf.regex p hp) (hg.regex q hq) hsource.symm]
  -- a text is a member of both rows or of none, and only the words could differ
  have henum : Validator.optional rule.enum (fun vs => reportIf (!(Value.str s).isIn vs) path (.notEnumerated vs)) =
      Validator.optional rule'.enum (fun vs => reportIf (!(Value.str s).isIn vs) path (.notEnumerated vs)) := by
    rw [← hf.enum, ← hg.enum]
    rcases forall₂_of_sameLists henum with ⟨hx, hy⟩ | ⟨vs, ws, hx, hy, hsame⟩
    · rw [hx, hy]
    · have hmessage := message_notEnumerated (forall₂_imp_of_mem_mem hsame (htexts vs ws hx hy))
      have hisIn : (Value.str s).isIn vs = (Value.str s).isIn ws := by
        rw [Bool.eq_iff_iff, Value.isIn_str_iff_mem, Value.isIn_str_iff_mem, mem_str_iff_of_same hsame]
      rw [hx, hy, Validator.optional, Validator.optional, hisIn, reportIf, reportIf, report, report, hmessage]
  rw [checkString, checkString, count_eq hmin, count_eq hmax, hpattern,
    Option.map_injective Format.name_injective hformat, henum]

/-- A declared key is required if the required keys are not listed or it is one of them. -/
theorem mem_required_iff {f : ObjectFields} {ps : List (Value × Schema)} {name : String}
    (hdeclared : .str name ∈ ps.map (·.1)) :
    name ∈ textKeys (requiredKeys f ps) ↔ ∀ keys, f.required = some keys → .str name ∈ keys := by
  rw [mem_textKeys, requiredKeys]
  cases f.required with
  | none => simp [hdeclared]
  | some keys =>
      simp only [List.mem_filter, hdeclared, true_and, Value.isIn_str_iff_mem, Option.some.injEq, forall_eq']

/-- Equal objects require the same of their declared keys. -/
theorem contains_required_of_same {f g : ObjectFields} {ps qs : List (Value × Schema)} (h : f.same g = true)
    {name : String} (hp : .str name ∈ ps.map (·.1)) (hq : .str name ∈ qs.map (·.1)) :
    (textKeys (requiredKeys f ps)).contains name = (textKeys (requiredKeys g qs)).contains name := by
  rw [Bool.eq_iff_iff, List.contains_iff_mem, List.contains_iff_mem, mem_required_iff hp, mem_required_iff hq]
  rcases forall₂_of_sameLists (ObjectFields.same_iff.mp h).1 with ⟨hf, hg⟩ | ⟨vs, ws, hf, hg, hsame⟩
  · simp [hf, hg]
  · simp only [hf, hg, Option.some.injEq, forall_eq', mem_str_iff_of_same hsame]

end Schema

/-! ### The same records in some order -/

namespace Trace

/-- The same records in some order, if neither trace ends in a fault. -/
def Reordered (t t' : Trace) : Prop := t.fault = none → t'.fault = none → t.records.Perm t'.records

namespace Reordered

theorem of_records_eq {t t' : Trace} (h : t.records = t'.records) : Reordered t t' := fun _ _ => .of_eq h

theorem append {a a' b b' : Trace} (ha : Reordered a a') (hb : Reordered b b') :
    Reordered (a ++ b) (a' ++ b') := by
  intro h h'
  obtain ⟨hfa, hfb⟩ := (fault_append_eq_none_iff a b).mp h
  obtain ⟨hfa', hfb'⟩ := (fault_append_eq_none_iff a' b').mp h'
  rw [records_append hfa, records_append hfa']
  exact (ha hfa hfa').append (hb hfb hfb')

theorem joinable : Joinable Reordered := ⟨of_records_eq rfl, append⟩

/-- The order of the traces in a row is one more order that does not matter. -/
theorem concat_perm {ts us : List Trace} (h : ts.Perm us) : Reordered (Trace.concat ts) (Trace.concat us) := by
  intro hts hus
  rw [records_concat (fault_concat_eq_none_iff.mp hts), records_concat (fault_concat_eq_none_iff.mp hus)]
  exact h.flatMap fun t _ => .refl _

theorem concat_of_perm {ts us us' : List Trace} (h : List.Forall₂ Reordered ts us) (hperm : us.Perm us') :
    Reordered (Trace.concat ts) (Trace.concat us') := by
  intro hts hus'
  have hus : (Trace.concat us).fault = none :=
    fault_concat_eq_none_iff.mpr fun u hu => fault_concat_eq_none_iff.mp hus' u (hperm.mem_iff.mp hu)
  exact (joinable.concat h hts hus).trans (concat_perm hperm hus hus')

/-- What is checked of a value that a base accepts. -/
theorem refined {a a' b b' : Trace} (ha : Reordered a a') (hb : Reordered b b') :
    Reordered (if a.isClean then a ++ b else a) (if a'.isClean then a' ++ b' else a') := by
  intro h h'
  have hfault := fault_of_append_if_clean h
  have hfault' := fault_of_append_if_clean h'
  have hclean : a.isClean = a'.isClean := by
    rw [Bool.eq_iff_iff, isClean_iff, isClean_iff, and_iff_right hfault, and_iff_right hfault']
    exact ⟨fun hnil => List.nil_perm.mp (hnil ▸ ha hfault hfault'),
      fun hnil => List.perm_nil.mp (hnil ▸ ha hfault hfault')⟩
  rw [← hclean] at h' ⊢
  split at h'
  · rename_i hc
    rw [if_pos hc] at h ⊢
    rw [if_pos hc]
    exact ha.append hb h h'
  · rename_i hc
    rw [if_neg hc, if_neg hc]
    exact ha hfault hfault'

theorem checkPredicate {p q : Predicate} (h : p.holds = q.holds) (message : String) (v : Value) (path : String) :
    Reordered (Validator.checkPredicate p message v path) (Validator.checkPredicate q message v path) := by
  unfold Validator.checkPredicate
  rw [h]
  split
  · exact .of_records_eq rfl
  · exact append (.of_records_eq rfl) (.of_records_eq rfl)
  · exact .of_records_eq rfl

end Reordered

end Trace

/-! ### Schemas -/

namespace Schema

open Validator

/-- The predicates of the refinements in a schema. -/
def predicates (s : Schema) : List Predicate :=
  s.nodes.filterMap fun
    | .refined _ ⟨.predicate p, _, _⟩ _ => some p
    | _ => none

/-- The fields of the numbers and integers in a schema. -/
def numericFields (s : Schema) : List NumberFields :=
  s.nodes.filterMap fun
    | .number _ f | .integer _ f => some f
    | _ => none

/-- The values that the texts in a schema enumerate. -/
def enumeratedTexts (s : Schema) : List Value :=
  s.nodes.flatMap fun
    | .string _ f => f.enum.getD []
    | _ => []

/-- What equality overlooks in two schemas does not show when they check. -/
structure ComparesExactly (s t : Schema) : Prop where
  /-- Predicates of one identity are one function. -/
  predicates : ∀ p ∈ s.predicates, ∀ q ∈ t.predicates, p.identity = q.identity → p.holds = q.holds
  /-- Numbers are compared with integers of their own right. -/
  numbers : ∀ f ∈ s.numericFields ++ t.numericFields, f.IsExact
  /-- Equal values that texts enumerate have one text, as texts themselves have. -/
  texts : ∀ v ∈ s.enumeratedTexts, ∀ w ∈ t.enumeratedTexts, v.same w = true → v.display = w.display

variable {s t : Schema}

theorem predicates_mono (h : s.nodes ⊆ t.nodes) : s.predicates ⊆ t.predicates := List.filterMap_subset _ h

theorem numericFields_mono (h : s.nodes ⊆ t.nodes) : s.numericFields ⊆ t.numericFields :=
  List.filterMap_subset _ h

theorem enumeratedTexts_mono (h : s.nodes ⊆ t.nodes) : s.enumeratedTexts ⊆ t.enumeratedTexts := by
  intro v hv
  obtain ⟨n, hn, hv⟩ := List.mem_flatMap.mp hv
  exact List.mem_flatMap.mpr ⟨n, h hn, hv⟩

theorem mem_predicates {a : Annotations} {r : Refinement} {base : Schema} {p : Predicate}
    (h : r.condition = .predicate p) : p ∈ (Schema.refined a r base).predicates := by
  obtain ⟨_, _, _⟩ := r
  cases h
  exact List.mem_cons_self

theorem mem_enumeratedTexts {a : Annotations} {f : StringFields} {vs : List Value} (hvs : f.enum = some vs)
    {v : Value} (hv : v ∈ vs) : v ∈ (Schema.string a f).enumeratedTexts := by
  refine List.mem_flatMap.mpr ⟨_, mem_nodes_self _, ?_⟩
  simpa [hvs] using hv

theorem ComparesExactly.child (h : s.ComparesExactly t) {s' t' : Schema} (hs : s' ∈ s.children)
    (ht : t' ∈ t.children) : s'.ComparesExactly t' where
  predicates p hp q hq :=
    h.predicates p (predicates_mono (nodes_child_subset hs) hp) q (predicates_mono (nodes_child_subset ht) hq)
  numbers f hf :=
    h.numbers f <| List.mem_append.mpr <| (List.mem_append.mp hf).imp
      (numericFields_mono (nodes_child_subset hs) ·) (numericFields_mono (nodes_child_subset ht) ·)
  texts v hv w hw :=
    h.texts v (enumeratedTexts_mono (nodes_child_subset hs) hv) w
      (enumeratedTexts_mono (nodes_child_subset ht) hw)

/-! ### Runs -/

variable {origin origin' path : String}

/-- The properties of equal objects, each beside its partner in the order of the partners. -/
theorem exists_perm_children {ps qs : List (Value × Schema)} {children children' : List (String × Validator)}
    (hc : List.Forall₂ (PropertyCompiled origin) ps children)
    (hc' : List.Forall₂ (PropertyCompiled origin') qs children') (hps : Names ps)
    (hlength : ps.length = qs.length)
    (hsame : ∀ p ∈ ps, ∃ q ∈ qs, p.1.same q.1 = true ∧ p.2.same q.2 = true) :
    ∃ partners, partners.Perm children' ∧
      List.Forall₂ (fun c c' => c.1 = c'.1 ∧ ∃ p ∈ ps, ∃ q ∈ qs, p.2.same q.2 = true ∧
        PropertyCompiled origin p c ∧ PropertyCompiled origin' q c') children partners := by
  refine exists_perm_of_length_le ?_ (fun c hcmem => ?_) ?_
  · rw [← hc.length_eq, ← hc'.length_eq, hlength]
  · obtain ⟨p, hp, hpc⟩ := exists_left_of_forall₂ hc hcmem
    obtain ⟨q, hq, hkey, hschema⟩ := hsame p hp
    obtain ⟨c', hcmem', hqc⟩ := exists_right_of_forall₂ hc' hq
    rw [hpc.1, hqc.1, Value.same_str_left, Value.str.injEq] at hkey
    exact ⟨c', hcmem', hkey.symm, p, hp, q, hq, hschema, hpc, hqc⟩
  · -- a name tells the property, so partners of different properties are different
    refine (List.pairwise_map.mp (nodup_children hc hps)).imp fun hne c' _ hleft hright => ?_
    exact hne (hleft.1.trans hright.1.symm)

/-- A property that is required by both rules or by none. -/
theorem reordered_propertyTrace {rule rule' : ObjectRule} {c c' : String × Validator} (hname : c.1 = c'.1)
    (hrequired : rule.required.contains c.1 = rule'.required.contains c.1)
    (h : ∀ v place, Reordered (c.2.run v place) (c'.2.run v place)) (entries : List (Value × Value)) :
    Reordered (propertyTrace rule entries path c) (propertyTrace rule' entries path c') := by
  rw [propertyTrace, propertyTrace, ← hname, hrequired]
  cases Value.lookup? (.str c.1) entries with
  | some v => exact h v _
  | none => exact .of_records_eq rfl

theorem checkUndeclared_congr {names names' : List String} (h : ∀ name, name ∈ names ↔ name ∈ names')
    (entries : List (Value × Value)) (path : String) :
    checkUndeclared names entries path = checkUndeclared names' entries path := by
  have hcontains (name : String) : names.contains name = names'.contains name := by
    rw [Bool.eq_iff_iff, List.contains_iff_mem, List.contains_iff_mem, h name]
  simp only [checkUndeclared, hcontains]

/-- **Equal schemas find the same in a value, in some order.** -/
theorem reordered_run {a b : Validator} (hsame : s.same t = true) (ha : s.compileAt origin = .ok a)
    (hb : t.compileAt origin' = .ok b) (hs : s.Named) (hexact : s.ComparesExactly t) (v : Value) :
    Reordered (a.run v path) (b.run v path) := by
  induction s using Schema.induction generalizing t origin origin' a b v path with
  | string x f =>
      cases same_iff.mp hsame with
      | @string _ y _ g _ hf =>
          obtain ⟨rule, hrule, rfl⟩ := compileAt_string ha
          obtain ⟨rule', hrule', rfl⟩ := compileAt_string hb
          cases v with
          | str text =>
              rw [run, run, checkString_of_same hrule hrule' hf fun vs ws hvs hws v hv w hw =>
                hexact.texts v (mem_enumeratedTexts hvs hv) w (mem_enumeratedTexts hws hw)]
              exact .of_records_eq rfl
          | _ => exact .of_records_eq rfl
  | number x f =>
      cases same_iff.mp hsame with
      | @number _ y _ g _ hf =>
          obtain rfl : f = g := (hexact.numbers f List.mem_cons_self).eq_of_same
            (hexact.numbers g (List.mem_cons_of_mem _ List.mem_cons_self)) hf
          rw [compileAt_number ha, compileAt_number hb]
          exact .of_records_eq rfl
  | integer x f =>
      cases same_iff.mp hsame with
      | @integer _ y _ g _ hf =>
          obtain rfl : f = g := (hexact.numbers f List.mem_cons_self).eq_of_same
            (hexact.numbers g (List.mem_cons_of_mem _ List.mem_cons_self)) hf
          rw [compileAt_integer ha, compileAt_integer hb]
          exact .of_records_eq rfl
  | boolean x =>
      cases same_iff.mp hsame with
      | boolean _ =>
          rw [compileAt_boolean ha, compileAt_boolean hb]
          exact .of_records_eq rfl
  | array x f items ih =>
      cases same_iff.mp hsame with
      | @array _ y _ g _ items' _ hf hitems =>
          obtain ⟨rule, child, hrule, hchild, rfl⟩ := compileAt_array ha
          obtain ⟨rule', child', hrule', hchild', rfl⟩ := compileAt_array hb
          obtain rfl := hrule.eq_of_same hrule' hf
          rw [run, run]
          cases v.items? with
          | none => exact .of_records_eq rfl
          | some xs =>
              dsimp only
              rw [List.mapIdx_eq_zipIdx_map, List.mapIdx_eq_zipIdx_map]
              refine .append (.of_records_eq rfl) (Reordered.joinable.concat_map fun e _ => ?_)
              exact ih hitems hchild hchild' hs.2
                (hexact.child List.mem_cons_self List.mem_cons_self) e.1
  | object x f ps ih =>
      cases same_iff.mp hsame with
      | @object _ y _ g _ qs _ hf hlength hps =>
          obtain ⟨children, hchildren, rfl⟩ := compileAt_object ha
          obtain ⟨children', hchildren', rfl⟩ := compileAt_object hb
          obtain ⟨partners, hperm, hpartners⟩ :=
            exists_perm_children hchildren hchildren' hs.names hlength hps
          cases v with
          | dict entries =>
              rw [run, run, runProperties_eq, runProperties_eq]
              refine .append ?_ ?_
              · -- the other schema looks at the partners in an order of its own
                refine .concat_of_perm ?_ (hperm.map _)
                refine List.forall₂_map_left_iff.mpr <| List.forall₂_map_right_iff.mpr <| hpartners.imp ?_
                rintro c c' ⟨hname, p, hp, q, hq, hschema, ⟨hpkey, hpc⟩, hqkey, hqc⟩
                rw [← hname] at hqkey
                have hpmem : .str c.1 ∈ ps.map (·.1) := hpkey ▸ List.mem_map_of_mem hp
                have hqmem : .str c.1 ∈ qs.map (·.1) := hqkey ▸ List.mem_map_of_mem hq
                have hrequired := contains_required_of_same hf hpmem hqmem
                refine reordered_propertyTrace hname hrequired (fun w place => ?_) entries
                exact ih p hp hschema hpc hqc (hs.property hp)
                  (hexact.child (List.mem_map_of_mem hp) (List.mem_map_of_mem hq)) w
              · -- what is undeclared is known from the names, in whatever order
                have hnames : (children.map (·.1)).Perm (children'.map (·.1)) := by
                  have hpartnerNames : children.map (·.1) = partners.map (·.1) := by
                    rw [← List.forall₂_eq_eq_eq, List.forall₂_map_left_iff, List.forall₂_map_right_iff]
                    exact hpartners.imp fun _ _ h => h.1
                  exact hpartnerNames ▸ hperm.map _
                rw [(ObjectFields.same_iff.mp hf).2, checkUndeclared_congr fun _ => hnames.mem_iff]
                exact .of_records_eq rfl
          | _ => exact .of_records_eq rfl
  | nullable x inner ih =>
      cases same_iff.mp hsame with
      | @nullable _ y _ inner' _ hinner =>
          obtain ⟨child, hchild, rfl⟩ := compileAt_nullable ha
          obtain ⟨child', hchild', rfl⟩ := compileAt_nullable hb
          have hrest : Reordered (child.run v path) (child'.run v path) :=
            ih hinner hchild hchild' hs.2 (hexact.child List.mem_cons_self List.mem_cons_self) v
          cases v with
          | null => exact .of_records_eq rfl
          | _ => exact hrest
  | refined x r base ih =>
      cases same_iff.mp hsame with
      | @refined _ y _ r' _ base' _ hr hbase =>
          obtain ⟨p, message, child, hp, hmessage, hchild, rfl⟩ := compileAt_refined ha
          obtain ⟨q, message', child', hq, hmessage', hchild', rfl⟩ := compileAt_refined hb
          obtain ⟨hcondition, htext, -⟩ := Refinement.same_iff.mp hr
          rw [hp, hq] at hcondition
          rw [hmessage, hmessage', Value.same_str_left, Value.str.injEq] at htext
          obtain rfl := htext
          rw [run, run]
          refine .refined ?_ (.checkPredicate ?_ _ v path)
          · exact ih hbase hchild hchild' hs.2 (hexact.child List.mem_cons_self List.mem_cons_self) v
          · exact hexact.predicates p (mem_predicates hp) q (mem_predicates hq) (beq_iff_eq.mp hcondition)
  | bare x => exact absurd ha compileAt_bare_ne
  | foreign w => exact absurd ha compileAt_foreign_ne

/-- **Schemas that are equal are interchangeable for validation.** They accept the same values, and the errors
that they find are the same in some order. -/
theorem check_and_errors_of_same {a b : Validator} (hsame : s.same t = true) (ha : s.compile = .ok a)
    (hb : t.compile = .ok b) (hs : s.Everywhere DeclaresOnce)
    (hexact : s.ComparesExactly t) {v : Value} {records records' : List ErrorRecord}
    (herrors : a.errors v = .ok records) (herrors' : b.errors v = .ok records') :
    a.check v = b.check v ∧ records.Perm records' := by
  have hperm : records.Perm records' := by
    obtain ⟨hfault, rfl⟩ := toExcept_eq_ok_iff.mp herrors
    obtain ⟨hfault', rfl⟩ := toExcept_eq_ok_iff.mp herrors'
    exact reordered_run hsame ha hb (named_of_compileAt ha hs) hexact v hfault hfault'
  refine ⟨?_, hperm⟩
  rw [check, check, take_one_of_toExcept herrors, take_one_of_toExcept herrors']
  exact congrArg Except.ok hperm.isEmpty_eq

/-- Whether a stay is paid; this one takes every stay for paid. -/
def paid : Predicate := ⟨"paid", "paid", .null, fun _ => .ok true⟩

/-- The age of a guest. -/
def age : NumberFields := { minimum := some (.int 0) }

/-- A paid stay of at least two guests, with its properties arranged in some order. -/
def stay (arrange : {α : Type} → List α → List α) : Schema :=
  .refined {} ⟨.predicate paid, .str "must be paid", none⟩
    (.object {} {} (arrange [
      (.str "guests", .array {} { minItems := some (.int 2) } (.object {} {} (arrange [
        (.str "name", .string {} {}), (.str "age", .integer {} age)]))),
      (.str "room", .string {} { enum := some [.str "single", .str "double"] })]))

/-- The validator of stays. -/
def stayValidator (arrange : {α : Type} → List α → List α) : Validator :=
  .refined paid "must be paid"
    (.object ⟨arrange ["guests", "room"], false⟩ (arrange [
      ("guests", .array ⟨some 2, none, false⟩ (.object ⟨arrange ["name", "age"], false⟩ (arrange [
        ("name", .string ⟨none, none, none, none, none⟩),
        ("age", .number ⟨true, some (.int 0), none, none, none, none, none⟩)]))),
      ("room", .string ⟨none, none, none, none, some [.str "single", .str "double"]⟩)]))

/-- One guest without a name, in a room that there is not. -/
def lonely : Value :=
  .record [("room", .str "suite"), ("guests", .list [.record [("age", .int (-1)), ("pet", .str "cat")]])]

/-- What is wrong with the guest is told before or after what is wrong with the room. -/
theorem check_and_errors_of_same_stays :
    (stay id).same (stay List.reverse) = true ∧
      (stay id).compile = .ok (stayValidator id) ∧
      (stay List.reverse).compile = .ok (stayValidator List.reverse) ∧
      ∃ records records', (stayValidator id).errors lonely = .ok records ∧
        (stayValidator List.reverse).errors lonely = .ok records' ∧ records ≠ records' ∧
        (stayValidator id).check lonely = (stayValidator List.reverse).check lonely ∧
        records.Perm records' := by
  have hsame : (stay id).same (stay List.reverse) = true := by decide +kernel
  have hcompile : (stay id).compile = .ok (stayValidator id) := rfl
  have hcompile' : (stay List.reverse).compile = .ok (stayValidator List.reverse) := rfl
  have honce : (stay id).Everywhere DeclaresOnce := by
    simp [stay, Everywhere, EverywhereAmong, DeclaresOnce, Value.same]
  have hexact : (stay id).ComparesExactly (stay List.reverse) := by
    have hpredicates : (stay id).predicates = [paid] ∧ (stay List.reverse).predicates = [paid] := ⟨rfl, rfl⟩
    have hnumbers : (stay id).numericFields ++ (stay List.reverse).numericFields = [age, age] := rfl
    have htexts : (stay id).enumeratedTexts = [.str "single", .str "double"] := rfl
    refine ⟨fun p hp q hq _ => ?_, fun f hf => ?_, fun v hv w _ hvw => ?_⟩
    · rw [hpredicates.1, List.mem_singleton] at hp
      rw [hpredicates.2, List.mem_singleton] at hq
      rw [hp, hq]
    · obtain rfl : f = age := by simpa [hnumbers] using hf
      constructor <;> simp [age, Value.IsInteger]
    · obtain ⟨text, rfl⟩ : ∃ text, v = .str text := by
        rw [htexts] at hv
        rcases List.mem_pair.mp hv with rfl | rfl <;> exact ⟨_, rfl⟩
      rw [Value.same_str_left.mp hvw]
  have herrors : (stayValidator id).errors lonely = .ok [
      ⟨"guests", "Array must have at least 2 items"⟩, ⟨"guests.0.name", "Missing required property"⟩,
      ⟨"guests.0.age", "Value must be >= 0"⟩, ⟨"guests.0.pet", "Unexpected property"⟩,
      ⟨"room", "Value must be one of: ['single', 'double']"⟩] := by
    decide +kernel
  have herrors' : (stayValidator List.reverse).errors lonely = .ok [
      ⟨"room", "Value must be one of: ['single', 'double']"⟩,
      ⟨"guests", "Array must have at least 2 items"⟩, ⟨"guests.0.age", "Value must be >= 0"⟩,
      ⟨"guests.0.name", "Missing required property"⟩, ⟨"guests.0.pet", "Unexpected property"⟩] := by
    decide +kernel
  exact ⟨hsame, hcompile, hcompile', _, _, herrors, herrors', by decide,
    check_and_errors_of_same hsame hcompile hcompile' honce hexact herrors herrors'⟩

/-- A text that has to be one, which is no text. -/
def onlyOne (one : Value) : Schema := .string {} { enum := some [one] }

/-- The number one as a double. -/
def doubleOne : Value := .float (.finite false (Nat.pow 2 52) (-52))

/-- An enumerated integer and the double equal to it make equal schemas, and their messages show the difference. -/
theorem not_perm_errors_of_same :
    (onlyOne (.int 1)).same (onlyOne doubleOne) = true ∧
      (onlyOne (.int 1)).predicates = [] ∧ (onlyOne doubleOne).predicates = [] ∧
      (onlyOne (.int 1)).numericFields = [] ∧ (onlyOne doubleOne).numericFields = [] ∧
      ∃ a b, (onlyOne (.int 1)).compile = .ok a ∧ (onlyOne doubleOne).compile = .ok b ∧
        ∃ records records', a.errors (.str "one") = .ok records ∧ b.errors (.str "one") = .ok records' ∧
          ¬ records.Perm records' := by
  have herrors : (Validator.string ⟨none, none, none, none, some [.int 1]⟩).errors (.str "one") =
      .ok [⟨"", "Value must be one of: [1]"⟩] := by
    decide +kernel
  have herrors' : (Validator.string ⟨none, none, none, none, some [doubleOne]⟩).errors (.str "one") =
      .ok [⟨"", "Value must be one of: [1.0]"⟩] := by
    decide +kernel
  exact ⟨by decide +kernel, rfl, rfl, rfl, rfl, _, _, rfl, rfl, _, _, herrors, herrors', by decide⟩

end Schema

end ApiContract
