import ApiContract.Proofs.Annotated
import ApiContract.Proofs.Compilation
import ApiContract.Proofs.DefinitionGrammar
import ApiContract.Proofs.Members

/-!
# The members of documents in definitions

The document of a node is made of members, some of which may be missing (`Doc.ofMembers`). Each of them may stand
in a definition (`Definition.Fits`), and what a definition binds to the keyword of a member is what the node has
in the field that the member is for.
-/

namespace ApiContract

/-- The bounds, the step and no truth value among them. -/
structure NumberFields.AreNumbers (f : NumberFields) : Prop where
  minimum : ∀ v ∈ f.minimum, v.isNumber = true
  maximum : ∀ v ∈ f.maximum, v.isNumber = true
  exclusiveMinimum : ∀ v ∈ f.exclusiveMinimum, v.isNumber = true
  exclusiveMaximum : ∀ v ∈ f.exclusiveMaximum, v.isNumber = true
  multipleOf : ∀ v ∈ f.multipleOf, v.isNumber = true

/-! ### Documents from their members -/

namespace Doc

/-- The document with the given members, as far as they are there. -/
def ofMembers (ms : List (String × Option Doc)) : Doc :=
  ms.foldl (fun doc m => doc.setSome m.1 m.2) (.object [])

theorem get?_foldl_setSome {ms : List (String × Option Doc)} (hms : (ms.map (·.1)).Nodup) (doc : Doc)
    (key : String) :
    (ms.foldl (fun doc m => doc.setSome m.1 m.2) doc).get? key = ((ms.lookup key).join).or (doc.get? key) := by
  induction ms generalizing doc with
  | nil => rfl
  | cons m ms ih =>
      obtain ⟨k, d⟩ := m
      obtain ⟨hk, hms⟩ := List.nodup_cons.mp hms
      rw [List.foldl_cons, ih hms, List.lookup_cons]
      by_cases hkey : key = k
      · subst hkey
        have hnone : ms.lookup key = none := by
          rw [List.lookup_eq_none_iff]
          intro m hm
          rw [bne_iff_ne]
          exact fun heq => hk (List.mem_map.mpr ⟨m, hm, heq.symm⟩)
        rw [hnone, beq_self_eq_true, get?_setSome_self]
        rfl
      · rw [get?_setSome_of_ne _ _ hkey, beq_false_of_ne hkey]

/-- Under a key stands the member that is given for it. -/
theorem get?_ofMembers {ms : List (String × Option Doc)} (hms : (ms.map (·.1)).Nodup) (key : String) :
    (ofMembers ms).get? key = (ms.lookup key).join :=
  (get?_foldl_setSome hms _ key).trans (Option.or_none)

theorem forall_members_set {P : Value × Doc → Prop} {doc : Doc} (h : ∀ m ∈ doc.members, P m) {key : String}
    {d : Doc} (hd : P (.str key, d)) : ∀ m ∈ (doc.set key d).members, P m := by
  intro m hm
  have hm : m ∈ setMember doc.members (.str key) d := hm
  rw [setMember] at hm
  split at hm
  · obtain ⟨old, hold, rfl⟩ := List.mem_map.mp hm
    split
    · rename_i hsame
      rw [Value.same_str_left.mp hsame]
      exact hd
    · exact h old hold
  · rcases List.mem_append.mp hm with hm | hm
    · exact h m hm
    · rw [List.mem_singleton.mp hm]
      exact hd

/-- What holds of the given members holds of the members of the document. -/
theorem forall_members_ofMembers {P : Value × Doc → Prop} {ms : List (String × Option Doc)}
    (h : ∀ m ∈ ms, ∀ d ∈ m.2, P (.str m.1, d)) : ∀ m ∈ (ofMembers ms).members, P m := by
  have hfold (doc : Doc) (hdoc : ∀ m ∈ doc.members, P m) :
      ∀ m ∈ (ms.foldl (fun doc m => doc.setSome m.1 m.2) doc).members, P m := by
    induction ms generalizing doc with
    | nil => exact hdoc
    | cons m ms ih =>
        obtain ⟨k, d⟩ := m
        obtain ⟨hm, hms⟩ := List.forall_mem_cons.mp h
        refine ih hms _ ?_
        cases d with
        | none => exact hdoc
        | some d => exact forall_members_set hdoc (hm d rfl)
  exact hfold _ (List.forall_mem_nil _)

theorem toValue_ofMembers (ms : List (String × Option Doc)) :
    (ofMembers ms).toValue = .dict (membersToValues (ofMembers ms).members) := by
  have hobject (doc : Doc) (hdoc : doc = .object doc.members) :
      ms.foldl (fun doc m => doc.setSome m.1 m.2) doc =
        .object (ms.foldl (fun doc m => doc.setSome m.1 m.2) doc).members := by
    induction ms generalizing doc with
    | nil => exact hdoc
    | cons m ms ih =>
        obtain ⟨k, d⟩ := m
        cases d with
        | none => exact ih doc hdoc
        | some d => exact ih (doc.set k d) rfl
  have h := hobject (.object []) rfl
  exact congrArg toValue h

/-- A member that is there under a condition. -/
theorem setSome_ite (doc : Doc) (key : String) (c : Bool) (d : Doc) :
    doc.setSome key (if c then some d else none) = if c then doc.set key d else doc := by
  cases c <;> rfl

end Doc

namespace Definition

theorem get?_membersToValues (doc : Doc) (key : String) :
    get? (Doc.membersToValues doc.members) key = (doc.get? key).map Doc.toValue := by
  rw [Doc.membersToValues_eq, get?, Value.lookup?, List.find?_map, Doc.get?, Option.map_map, Option.map_map]
  rfl

/-! ### Members that definitions may have -/

/-- A definition may bind a key to a value. -/
structure MayBind (key v : Value) : Prop where
  keyword : isKeyword key = true
  rule : ∀ s r, key = .str s → rule? s = some r → r.Allows v
  items : key = .str "items" → Grammatical v
  properties : key = .str "properties" → ∃ ps, v = .dict ps ∧ ∀ p ∈ ps, Grammatical p.2

/-- A dictionary with a type is a definition if its entries may stand in one. -/
theorem grammatical_of_mayBind {entries : List (Value × Value)}
    (htype : Value.hasKey (.str "type") entries = true) (h : ∀ e ∈ entries, MayBind e.1 e.2) :
    Grammatical (.dict entries) := by
  refine .mk htype (fun e he => (h e he).keyword) (fun e he => (h e he).rule) (fun e he => (h e he).items)
    (fun e he hkey => ?_) fun e he hkey ps hps => ?_
  · obtain ⟨ps, hps, -⟩ := (h e he).properties hkey
    exact ⟨ps, hps⟩
  · obtain ⟨ps', hps', hall⟩ := (h e he).properties hkey
    obtain rfl := Value.dict.inj (hps.symm.trans hps')
    exact hall

/-- A keyword may be bound to what its rule allows. -/
theorem mayBind_of_rule {key : String} {r : Rule} (hr : rule? key = some r) {v : Value} (h : r.Allows v) :
    MayBind (.str key) v where
  keyword := by simp [isKeyword, hr]
  rule s r' hs hr' := by
    obtain rfl := Value.str.inj hs
    obtain rfl := Option.some.inj (hr.symm.trans hr')
    exact h
  items hs := by
    rw [Value.str.inj hs] at hr
    cases hr
  properties hs := by
    rw [Value.str.inj hs] at hr
    cases hr

theorem mayBind_items {v : Value} (h : Grammatical v) : MayBind (.str "items") v where
  keyword := rfl
  rule s r hs hr := by
    rw [← Value.str.inj hs] at hr
    cases hr
  items _ := h
  properties hs := absurd (Value.str.inj hs) (by decide)

theorem mayBind_properties {ps : List (Value × Value)} (h : ∀ p ∈ ps, Grammatical p.2) :
    MayBind (.str "properties") (.dict ps) where
  keyword := rfl
  rule s r hs hr := by
    rw [← Value.str.inj hs] at hr
    cases hr
  items hs := absurd (Value.str.inj hs) (by decide)
  properties _ := ⟨ps, rfl, h⟩

/-- A member of a document may stand in a definition if it is there. -/
def Fits (m : String × Option Doc) : Prop := ∀ d ∈ m.2, MayBind (.str m.1) d.toValue

variable {key : String} {r : Rule}

theorem fits_data (hr : rule? key = some r) {v : Option Value} (h : ∀ x ∈ v, r.Allows x) :
    Fits (key, Schema.dataOf v) := by
  intro d hd
  obtain ⟨x, hx, rfl⟩ := Option.map_eq_some_iff.mp hd
  exact mayBind_of_rule hr (h x hx)

theorem fits_list (hr : rule? key = some r) {vs : Option (List Value)} (h : ∀ xs ∈ vs, r.Allows (.list xs)) :
    Fits (key, Schema.enumOf vs) := by
  intro d hd
  obtain ⟨xs, hxs, rfl⟩ := Option.map_eq_some_iff.mp hd
  exact mayBind_of_rule hr (h xs hxs)

theorem fits_text (hr : rule? key = some r) {t : Option String} (h : ∀ s ∈ t, r.Allows (.str s)) :
    Fits (key, t.map .text) := by
  intro d hd
  obtain ⟨s, hs, rfl⟩ := Option.map_eq_some_iff.mp hd
  exact mayBind_of_rule hr (h s hs)

theorem allows_of_form {form : Form} {v : Value} (h : form.admits v = true) :
    Rule.Allows ⟨some form, []⟩ v where
  form f hf := Option.some.inj hf ▸ h
  limits limit hlimit := by cases hlimit

/-! ### Reading members back -/

/-- The entries of a definition with the given members. -/
def entriesOf (ms : List (String × Option Doc)) : List (Value × Value) :=
  Doc.membersToValues (Doc.ofMembers ms).members

theorem get?_entriesOf {ms : List (String × Option Doc)} (hms : (ms.map (·.1)).Nodup) (key : String) :
    get? (entriesOf ms) key = ((ms.lookup key).join).map Doc.toValue := by
  rw [entriesOf, get?_membersToValues, Doc.get?_ofMembers hms]

variable {entries : List (Value × Value)}

theorem set?_of_data {v : Option Value} (h : get? entries key = (Schema.dataOf v).map Doc.toValue)
    (hv : ∀ x ∈ v, x.isNull = false) : set? entries key = v := by
  rw [set?, h]
  cases v with
  | none => rfl
  | some x =>
      show (some x).filter _ = _
      rw [Option.filter_some, hv x rfl]
      rfl

theorem text?_of_text {t : Option String} (h : get? entries key = (t.map Doc.text).map Doc.toValue) :
    text? entries key = t := by
  rw [text?, h]
  cases t <;> rfl

theorem items?_of_list {vs : Option (List Value)}
    (h : get? entries key = (Schema.enumOf vs).map Doc.toValue) : items? entries key = vs := by
  rw [items?, h]
  cases vs <;> rfl

theorem flag_of_data {c : Bool}
    (h : get? entries key = (if c then some (Doc.data (.bool true)) else none).map Doc.toValue) :
    flag entries key = c := by
  rw [flag, h]
  cases c <;> rfl

/-- The members that annotations add. -/
def annotationMembers (a : Annotations) : List (String × Option Doc) :=
  [("description", a.description.map .text), ("default", Schema.dataOf a.default),
    ("examples", Schema.enumOf a.examples)]

/-- The members of a node have keys of their own, apart from those of annotations and wrappers. -/
def Apart (ms : List (String × Option Doc)) : Prop :=
  (ms.map (·.1) ++ ["description", "default", "examples", "name", "nullable"]).Nodup

variable {ms : List (String × Option Doc)} {a : Annotations}

theorem Apart.nodup (h : Apart ms) : ((ms ++ annotationMembers a).map (·.1)).Nodup := by
  rw [List.map_append]
  refine List.Nodup.sublist (List.Sublist.append (List.Sublist.refl _) ?_) h
  show ["description", "default", "examples"].Sublist ["description", "default", "examples", "name", "nullable"]
  decide

theorem Apart.get? (h : Apart ms) {key : String}
    (hkey : key ∈ ["description", "default", "examples", "name", "nullable"]) :
    get? (entriesOf (ms ++ annotationMembers a)) key =
      (((annotationMembers a).lookup key).join).map Doc.toValue := by
  have hnone : ms.lookup key = none := by
    rw [List.lookup_eq_none_iff]
    intro m hm
    rw [bne_iff_ne]
    intro heq
    exact (List.disjoint_of_nodup_append h) (List.mem_map.mpr ⟨m, hm, heq.symm⟩) hkey
  rw [get?_entriesOf h.nodup, List.lookup_append, hnone, Option.none_or]

/-- A node without a name finds its annotations in its document, and is not wrapped. -/
theorem wrap_entriesOf (h : Apart ms) (hname : a.name = none) (ha : a.Serializable)
    (node : Annotations → Schema) : wrap (entriesOf (ms ++ annotationMembers a)) node = node a := by
  have hplain : flag (entriesOf (ms ++ annotationMembers a)) "nullable" = false := by
    rw [flag, h.get? (by decide)]
    rfl
  have hdescription : text? (entriesOf (ms ++ annotationMembers a)) "description" = a.description :=
    text?_of_text (h.get? (by decide))
  have hexamples : items? (entriesOf (ms ++ annotationMembers a)) "examples" = a.examples :=
    items?_of_list (h.get? (by decide))
  have hnameless : text? (entriesOf (ms ++ annotationMembers a)) "name" = a.name := by
    rw [text?, h.get? (by decide), hname]
    rfl
  have hdefault : (get? (entriesOf (ms ++ annotationMembers a)) "default").filter (!·.isAbsent) = a.default := by
    rw [h.get? (by decide)]
    show ((Schema.dataOf a.default).map Doc.toValue).filter _ = _
    cases hd : a.default with
    | none => rfl
    | some v =>
        have hv : v.isAbsent = false := by
          have hserializable := ha.default v hd
          cases v with
          | absent => cases hserializable
          | _ => rfl
        show (some v).filter _ = _
        rw [Option.filter_some, hv]
        rfl
  rw [wrap, hplain, annotations, hdescription, hexamples, hnameless, hdefault]
  rfl

theorem fits_annotations : ∀ m ∈ annotationMembers a, Fits m := by
  unfold annotationMembers
  simp only [List.forall_mem_cons]
  refine ⟨fits_text rfl fun s _ => allows_of_form rfl, fits_data rfl fun x _ => ⟨?_, ?_⟩,
    fits_list rfl fun vs _ => allows_of_form rfl, List.forall_mem_nil _⟩
  · rintro _ ⟨⟩
  · exact List.forall_mem_nil _

/-- The document of a node is a definition if its members may stand in one and there is a type among them. -/
theorem grammatical_ofMembers (h : Apart ms) {kind : String}
    (htype : ms.lookup "type" = some (some (.text kind))) (hms : ∀ m ∈ ms, Fits m) :
    Grammatical (Doc.ofMembers (ms ++ annotationMembers a)).toValue := by
  rw [Doc.toValue_ofMembers]
  refine grammatical_of_mayBind ?_ ?_
  · have hget := get?_entriesOf (h.nodup (a := a)) "type"
    rw [List.lookup_append, htype] at hget
    rw [← Value.lookup?_isSome]
    exact congrArg Option.isSome hget
  · have hall : ∀ m ∈ (Doc.ofMembers (ms ++ annotationMembers a)).members, MayBind m.1 m.2.toValue :=
      Doc.forall_members_ofMembers (List.forall_mem_append.mpr ⟨hms, fits_annotations⟩)
    rw [Doc.membersToValues_eq]
    exact List.forall_mem_map.mpr hall

/-! ### What the members of nodes are -/

theorem fits_type {kind : String} (h : kind ∈ kinds) : Fits ("type", some (.text kind)) := by
  refine fits_text (t := some kind) rfl fun s hs => ⟨?_, ?_⟩
  · rintro _ ⟨⟩
    rfl
  · rw [← Option.some.inj hs, List.forall_mem_singleton]
    exact ⟨kind, h, rfl⟩

theorem fits_count (hr : rule? key = some count) {v : Option Value} {n : Option Nat}
    (h : v = n.map fun n => .int n) : Fits (key, Schema.dataOf v) := by
  refine fits_data hr fun x hx => ?_
  rw [h] at hx
  obtain ⟨n, -, rfl⟩ := Option.map_eq_some_iff.mp hx
  refine ⟨?_, ?_⟩
  · rintro _ ⟨⟩
    rfl
  · rw [count, List.forall_mem_singleton]
    have hcompare : compare (n : Int) 0 ≠ .lt := by
      rw [Ne, Int.compare_eq_lt]
      omega
    show (some (compare (n : Int) 0) == some .lt || _) = false
    simpa using hcompare

theorem isNull_of_count {v : Option Value} {n : Option Nat} (h : v = n.map fun n => .int n) :
    ∀ x ∈ v, x.isNull = false := by
  intro x hx
  rw [h] at hx
  obtain ⟨n, -, rfl⟩ := Option.map_eq_some_iff.mp hx
  rfl

theorem isNull_of_isNumber {v : Option Value} (h : ∀ x ∈ v, x.isNumber = true) :
    ∀ x ∈ v, x.isNull = false := by
  intro x hx
  have hnumber := h x hx
  cases x with
  | null => cases hnumber
  | _ => rfl

theorem fits_bound (hr : rule? key = some ⟨some .number, []⟩) {v : Option Value}
    (h : ∀ x ∈ v, x.isNumber = true) : Fits (key, Schema.dataOf v) := by
  refine fits_data hr fun x hx => allows_of_form ?_
  have hnumber := h x hx
  cases x with
  | int n => rfl
  | float x => rfl
  | _ => cases hnumber

theorem fits_step {v : Option Value} (h : ∀ x ∈ v, x.isNumber = true)
    (hpositive : ∀ x, v = some x → x.isGreater (.int 0) = .ok true) :
    Fits ("multipleOf", Schema.dataOf v) := by
  refine fits_data rfl fun x hx => ⟨?_, ?_⟩
  · rintro _ ⟨⟩
    have hnumber := h x hx
    cases x with
    | int n => rfl
    | float x => rfl
    | _ => cases hnumber
  · rw [List.forall_mem_singleton]
    have hgreater := hpositive x hx
    have hnumber := h x hx
    have habove {n : Value.Number} (hn : (.ok (n.compare? (.int 0) == some .gt) : Except Fault Bool) = .ok true) :
        (n.compare? (.int 0) == some .lt || (true && n.compare? (.int 0) == some .eq)) = false := by
      rw [eq_of_beq (Except.ok.inj hn)]
      rfl
    cases x with
    | int n => exact habove (n := .int n) hgreater
    | float x => exact habove (n := .float x) hgreater
    | _ => cases hnumber

theorem fits_enum {vs : Option (List Value)} (h : vs ≠ some []) : Fits ("enum", Schema.enumOf vs) := by
  refine fits_list rfl fun xs hxs => ⟨?_, ?_⟩
  · rintro _ ⟨⟩
    rfl
  · rw [List.forall_mem_singleton]
    rintro ⟨⟩
    exact h hxs

theorem fits_flag (hr : rule? key = some ⟨some .boolean, []⟩) (c : Bool) :
    Fits (key, if c then some (.data (.bool true)) else none) := by
  cases c with
  | true => exact fits_data (v := some (.bool true)) hr fun x hx => allows_of_form (Option.some.inj hx ▸ rfl)
  | false =>
      rintro _ ⟨⟩

/-! ### Texts -/

def stringMembers (f : StringFields) : List (String × Option Doc) :=
  [("type", some (.text "string")), ("minLength", Schema.dataOf f.minLength),
    ("maxLength", Schema.dataOf f.maxLength), ("pattern", f.pattern.map .text), ("format", f.format.map .text),
    ("enum", Schema.enumOf f.enum)]

theorem apart_stringMembers (f : StringFields) : Apart (stringMembers f) := by
  show List.Nodup ["type", "minLength", "maxLength", "pattern", "format", "enum", "description", "default",
    "examples", "name", "nullable"]
  decide

theorem fits_stringMembers {f : StringFields} {rule : StringRule} (h : Schema.StringCompiled f rule)
    (henum : f.enum ≠ some []) : ∀ m ∈ stringMembers f, Fits m := by
  have hformat : Fits ("format", f.format.map .text) := by
    refine fits_text rfl fun s hs => ⟨?_, ?_⟩
    · rintro _ ⟨⟩
      rfl
    · rw [h.format] at hs
      obtain ⟨format, -, rfl⟩ := Option.map_eq_some_iff.mp hs
      rw [List.forall_mem_singleton]
      exact ⟨_, List.mem_map_of_mem (by cases format <;> decide), rfl⟩
  unfold stringMembers
  simp only [List.forall_mem_cons]
  exact ⟨fits_type (by decide), fits_count rfl h.minLength, fits_count rfl h.maxLength,
    fits_text rfl fun s _ => allows_of_form rfl, hformat, fits_enum henum, List.forall_mem_nil _⟩

theorem stringFields_entriesOf {f : StringFields} {rule : StringRule} (h : Schema.StringCompiled f rule) :
    stringFields (entriesOf (stringMembers f ++ annotationMembers a)) = f := by
  have hget := get?_entriesOf ((apart_stringMembers f).nodup (a := a))
  rw [stringFields, set?_of_data (hget "minLength") (isNull_of_count h.minLength),
    set?_of_data (hget "maxLength") (isNull_of_count h.maxLength), text?_of_text (hget "pattern"),
    text?_of_text (hget "format"), items?_of_list (hget "enum")]

/-! ### Numbers -/

def numberMembers (kind : String) (f : NumberFields) : List (String × Option Doc) :=
  [("type", some (.text kind)), ("minimum", Schema.dataOf f.minimum), ("maximum", Schema.dataOf f.maximum),
    ("exclusiveMinimum", Schema.dataOf f.exclusiveMinimum),
    ("exclusiveMaximum", Schema.dataOf f.exclusiveMaximum), ("multipleOf", Schema.dataOf f.multipleOf),
    ("enum", Schema.enumOf f.enum)]

theorem apart_numberMembers (kind : String) (f : NumberFields) : Apart (numberMembers kind f) := by
  show List.Nodup ["type", "minimum", "maximum", "exclusiveMinimum", "exclusiveMaximum", "multipleOf", "enum",
    "description", "default", "examples", "name", "nullable"]
  decide

theorem fits_numberMembers {kind : String} (hkind : kind ∈ kinds) {f : NumberFields} (h : f.AreNumbers)
    (hstep : ∀ step, f.multipleOf = some step → step.isGreater (.int 0) = .ok true) (henum : f.enum ≠ some []) :
    ∀ m ∈ numberMembers kind f, Fits m := by
  unfold numberMembers
  simp only [List.forall_mem_cons]
  exact ⟨fits_type hkind, fits_bound rfl h.minimum, fits_bound rfl h.maximum, fits_bound rfl h.exclusiveMinimum,
    fits_bound rfl h.exclusiveMaximum, fits_step h.multipleOf hstep, fits_enum henum, List.forall_mem_nil _⟩

theorem numberFields_entriesOf (kind : String) {f : NumberFields} (h : f.AreNumbers) :
    numberFields (entriesOf (numberMembers kind f ++ annotationMembers a)) = f := by
  have hget := get?_entriesOf ((apart_numberMembers kind f).nodup (a := a))
  rw [numberFields, set?_of_data (hget "minimum") (isNull_of_isNumber h.minimum),
    set?_of_data (hget "maximum") (isNull_of_isNumber h.maximum),
    set?_of_data (hget "exclusiveMinimum") (isNull_of_isNumber h.exclusiveMinimum),
    set?_of_data (hget "exclusiveMaximum") (isNull_of_isNumber h.exclusiveMaximum),
    set?_of_data (hget "multipleOf") (isNull_of_isNumber h.multipleOf), items?_of_list (hget "enum")]

/-! ### Arrays and objects -/

def arrayMembers (f : ArrayFields) (items : Doc) : List (String × Option Doc) :=
  [("type", some (.text "array")), ("items", some items), ("minItems", Schema.dataOf f.minItems),
    ("maxItems", Schema.dataOf f.maxItems),
    ("uniqueItems", if f.uniqueItems then some (.data (.bool true)) else none)]

theorem apart_arrayMembers (f : ArrayFields) (items : Doc) : Apart (arrayMembers f items) := by
  show List.Nodup ["type", "items", "minItems", "maxItems", "uniqueItems", "description", "default", "examples",
    "name", "nullable"]
  decide

theorem fits_arrayMembers {f : ArrayFields} {rule : ArrayRule} (h : Schema.ArrayCompiled f rule) {items : Doc}
    (hitems : Grammatical items.toValue) : ∀ m ∈ arrayMembers f items, Fits m := by
  have hfits : Fits ("items", some items) := by
    rintro _ ⟨⟩
    exact mayBind_items hitems
  unfold arrayMembers
  simp only [List.forall_mem_cons]
  exact ⟨fits_type (by decide), hfits, fits_count rfl h.minItems, fits_count rfl h.maxItems,
    fits_flag rfl f.uniqueItems, List.forall_mem_nil _⟩

theorem arrayFields_entriesOf {f : ArrayFields} {rule : ArrayRule} (h : Schema.ArrayCompiled f rule)
    (items : Doc) : arrayFields (entriesOf (arrayMembers f items ++ annotationMembers a)) = f := by
  have hget := get?_entriesOf ((apart_arrayMembers f items).nodup (a := a))
  rw [arrayFields, set?_of_data (hget "minItems") (isNull_of_count h.minItems),
    set?_of_data (hget "maxItems") (isNull_of_count h.maxItems), flag_of_data (hget "uniqueItems")]

def objectMembers (required : List Value) (additional : Bool) (docs : List (Value × Doc)) :
    List (String × Option Doc) :=
  [("type", some (.text "object")), ("properties", some (.object docs)),
    ("required", if required.isEmpty then none else some (.data (.list required))),
    ("additionalProperties", if additional then some (.data (.bool true)) else none)]

theorem apart_objectMembers (required : List Value) (additional : Bool) (docs : List (Value × Doc)) :
    Apart (objectMembers required additional docs) := by
  show List.Nodup ["type", "properties", "required", "additionalProperties", "description", "default",
    "examples", "name", "nullable"]
  decide

theorem fits_objectMembers {required : List Value} (hrequired : ∀ key ∈ required, ∃ s, key = .str s)
    (additional : Bool) {docs : List (Value × Doc)} (hdocs : ∀ d ∈ docs, Grammatical d.2.toValue) :
    ∀ m ∈ objectMembers required additional docs, Fits m := by
  have hproperties : Fits ("properties", some (.object docs)) := by
    rintro _ ⟨⟩
    have hvalues : ∀ p ∈ Doc.membersToValues docs, Grammatical p.2 := by
      rw [Doc.membersToValues_eq]
      exact List.forall_mem_map.mpr hdocs
    exact mayBind_properties hvalues
  have hkeys : Fits ("required", if required.isEmpty then none else some (.data (.list required))) := by
    cases hempty : required.isEmpty with
    | true =>
        rintro _ ⟨⟩
    | false =>
        refine fits_data (v := some (.list required)) rfl fun x hx => ⟨?_, ?_⟩
        · rintro _ ⟨⟩
          rw [← Option.some.inj hx]
          rfl
        · rw [List.forall_mem_singleton, ← Option.some.inj hx]
          rintro _ ⟨⟩
          exact hrequired
  unfold objectMembers
  simp only [List.forall_mem_cons]
  exact ⟨fits_type (by decide), hproperties, hkeys, fits_flag rfl additional, List.forall_mem_nil _⟩

theorem objectFields_entriesOf (required : List Value) (additional : Bool) (docs : List (Value × Doc)) :
    objectFields (entriesOf (objectMembers required additional docs ++ annotationMembers a)) =
      ⟨some required, additional⟩ := by
  have hget := get?_entriesOf ((apart_objectMembers required additional docs).nodup (a := a))
  have hrequired : (items? (entriesOf (objectMembers required additional docs ++ annotationMembers a))
      "required").getD [] = required := by
    rw [items?, hget]
    cases required <;> rfl
  rw [objectFields, flag_of_data (hget "additionalProperties"), hrequired]

end Definition

end ApiContract
