import ApiContract.Proofs.EnforcedDefinitions
import ApiContract.Proofs.MalformedSchemas
import ApiContract.Proofs.SharedNames

/-!
# Definitions that compile

A definition is judged twice: by the grammar when it is loaded, and by the compiler once a schema has been built from
it. What the grammar accepts compiles exactly if it is coherent and exact throughout (`compiles_iff`). A definition is
coherent if no minimum is above its maximum, its patterns are regular expressions, and what it requires is declared;
the grammar has no words for that. It is exact if its counts are written as integers, its step is a number, and its
properties are named by texts. The grammar is meant to see to that, but to it a number without a fraction is an
integer, what is not a number is not below zero, and keys of any kind have definitions.
-/

namespace ApiContract

namespace Schema

/-! ### Nodes that compile -/

/-- A node at which compilation does not stop: what it has to compare can be compared, and it is not malformed. -/
def Compilable (s : Schema) : Prop := s.Comparable ∧ ¬ s.Malformed

theorem compilable_nullable {a : Annotations} {inner : Schema} : (Schema.nullable a inner).Compilable :=
  ⟨trivial, id⟩

theorem isGreater_of_checkBounds {low high : Option Value} {label path : String}
    (h : checkBounds low high label path = .ok ()) :
    ∀ a b, low = some a → high = some b → ∃ above, a.isGreater b = .ok above := by
  rintro a b rfl rfl
  obtain ⟨above, habove, -⟩ := bind_eq_ok_iff.mp h
  exact ⟨above, habove⟩

/-- The node of a validator had nothing that could not be compared. -/
theorem comparable_of_compileAt {s : Schema} {path : String} {v : Validator} (h : s.compileAt path = .ok v) :
    s.Comparable := by
  cases s with
  | string a f =>
      obtain ⟨rule, hrule, -⟩ := compileAt_string h
      intro source hsource
      rw [hrule.pattern] at hsource
      obtain ⟨p, hp, rfl⟩ := Option.map_eq_some_iff.mp hsource
      exact .inl ⟨p.regex, hrule.regex p hp⟩
  | number a f | integer a f =>
      obtain ⟨rule, hrule, -⟩ := bind_eq_ok_iff.mp h
      obtain ⟨_, hbounds, -⟩ := bind_eq_ok_iff.mp hrule
      exact isGreater_of_checkBounds hbounds
  | _ => exact trivial

/-- A schema compiles exactly if compilation stops at none of its nodes. -/
theorem exists_compile_iff {s : Schema} : (∃ v, s.compile = .ok v) ↔ s.Everywhere Compilable := by
  have hplaces (hs : s.Everywhere Comparable) : (∃ v, s.compile = .ok v) ↔ ∀ n ∈ s.nodes, ¬ n.Malformed := by
    have hjudged : Judged "" s.places s.compile := judged_compileAt hs ""
    rw [hjudged.exists_ok_iff, ← map_places, List.forall_mem_map]
  rw [everywhere_iff_nodes]
  constructor
  · rintro ⟨v, h⟩
    have hcomparable : ∀ n ∈ s.nodes, n.Comparable := by
      intro n hn
      obtain ⟨path, v', hcompile⟩ := exists_compileAt_of_mem_nodes h hn
      exact comparable_of_compileAt hcompile
    have hmalformed := (hplaces (everywhere_iff_nodes.mpr hcomparable)).mp ⟨v, h⟩
    exact fun n hn => ⟨hcomparable n hn, hmalformed n hn⟩
  · intro h
    exact (hplaces (everywhere_iff_nodes.mpr fun n hn => (h n hn).1)).mpr fun n hn => (h n hn).2

end Schema

namespace Definition

open Schema (Crossed BadCount BadStep UnknownFormat Compilable)

/-! ### Coherent and exact definitions -/

/-- What a definition says fits together: no minimum is above its maximum, a pattern is a regular expression, and
required keys are declared. -/
def Coherent (entries : List (Value × Value)) : Prop :=
  match text? entries "type" with
  | some "string" => ¬ Crossed (get? entries "minLength") (get? entries "maxLength") ∧
      ∀ source, text? entries "pattern" = some source → ∃ regex, Regex.parse source = .ok regex
  | some "number" | some "integer" => ¬ Crossed (get? entries "minimum") (get? entries "maximum")
  | some "array" => ¬ Crossed (get? entries "minItems") (get? entries "maxItems")
  | some "object" =>
      ∀ key ∈ (items? entries "required").getD [], ∃ p ∈ declaredProperties entries, key.same p.1 = true
  | _ => True

/-- Every value of a key is written as an integer. -/
def CountsExactly (entries : List (Value × Value)) (key : String) : Prop :=
  ∀ w, get? entries key = some w → w.IsInteger

/-- A definition is written as the compiler reads it: counts are integers, the step is a number, and properties are
named by texts. -/
def Exact (entries : List (Value × Value)) : Prop :=
  match text? entries "type" with
  | some "string" => CountsExactly entries "minLength" ∧ CountsExactly entries "maxLength"
  | some "number" | some "integer" => ∀ w, get? entries "multipleOf" = some w → w ≠ .float .nan
  | some "array" => CountsExactly entries "minItems" ∧ CountsExactly entries "maxItems"
  | some "object" => ∀ p ∈ declaredProperties entries, ∃ name, p.1 = .str name
  | _ => True

/-- Both together, as the compiler asks for them. -/
def Compiles (entries : List (Value × Value)) : Prop := Coherent entries ∧ Exact entries

/-! ### What the grammar leaves open -/

section Fields

variable {entries : List (Value × Value)} {key : String} {w : Value}

theorem isNumber_of_admits (h : Form.number.admits w = true) : w.isNumber = true := by
  cases w with
  | int n => rfl
  | float x => rfl
  | _ => cases h

theorem exists_isGreater_of_isNumber {a b : Value} (ha : a.isNumber = true) (hb : b.isNumber = true) :
    ∃ above, a.isGreater b = .ok above := by
  cases a with
  | int m | float x =>
      cases b with
      | int n | float y => exact ⟨_, rfl⟩
      | _ => cases hb
  | _ => cases ha

/-- A schema has the bounds that its definition states. -/
theorem crossed_iff (h : Grammatical (.dict entries)) {low high : String} {form form' : Form}
    {limits limits' : List Limit} (hlow : rule? low = some ⟨some form, limits⟩)
    (hhigh : rule? high = some ⟨some form', limits'⟩) :
    Crossed (set? entries low) (set? entries high) ↔ Crossed (get? entries low) (get? entries high) := by
  rw [h.set?_eq hlow, h.set?_eq hhigh]

/-- A count that the grammar accepts is only wrong if it is not written as an integer. -/
theorem not_badCount_iff (h : Grammatical (.dict entries)) (hr : rule? key = some count) :
    ¬ BadCount (set? entries key) ↔ CountsExactly entries key := by
  rw [h.set?_eq hr]
  constructor
  · intro hcount w hw
    by_contra hinexact
    exact hcount ⟨w, hw, fun n hn => hinexact ⟨n, hn⟩⟩
  · rintro hexact ⟨w, hw, hbad⟩
    obtain ⟨n, rfl⟩ := hexact w hw
    have hlimit : isBelow false 0 (.int n) = false := (h.allows hr hw).limits (.atLeast 0) List.mem_cons_self
    have hnat : 0 ≤ n := by
      by_contra hnegative
      have hless : compare n 0 = .lt := Int.compare_eq_lt.mpr (by omega)
      simp [isBelow, Value.isNumber, Value.number?, Value.Number.compare?, hless] at hlimit
    obtain ⟨m, rfl⟩ := Int.eq_ofNat_of_zero_le hnat
    exact hbad m rfl

/-- A number that is not at most zero is above zero, or it is not a number. -/
theorem isGreater_zero_iff (hnumber : w.isNumber = true) (habove : isBelow true 0 w = false) :
    w.isGreater (.int 0) = .ok true ↔ w ≠ .float .nan := by
  cases w with
  | int n =>
      refine iff_of_true ?_ (by rintro ⟨⟩)
      rcases Int.lt_trichotomy n 0 with hless | rfl | hgreater
      · have hcompare : compare n 0 = .lt := Int.compare_eq_lt.mpr hless
        simp [isBelow, Value.isNumber, Value.number?, Value.Number.compare?, hcompare] at habove
      · cases habove
      · show Except.ok (some (compare n 0) == some .gt) = .ok true
        rw [Int.compare_eq_gt.mpr hgreater]
        rfl
  | float x =>
      have habove' : (x.compareInt 0 == some .lt || x.compareInt 0 == some .eq) = false := habove
      show Except.ok (x.compareInt 0 == some .gt) = .ok true ↔ _
      cases x with
      | nan => exact iff_of_false (by rintro ⟨⟩) fun h => h rfl
      | infinite negative =>
          refine iff_of_true ?_ (by rintro ⟨⟩)
          cases negative with
          | false => rfl
          | true => cases habove'
      | finite negative mantissa exponent =>
          refine iff_of_true ?_ (by rintro ⟨⟩)
          obtain ⟨o, ho⟩ : ∃ o, (Binary64.finite negative mantissa exponent).compareInt 0 = some o := ⟨_, rfl⟩
          rw [ho] at habove' ⊢
          cases o with
          | lt => cases habove'
          | eq => cases habove'
          | gt => rfl
  | _ => cases hnumber

/-- A step that the grammar accepts is only wrong if it is not a number. -/
theorem not_badStep_iff (h : Grammatical (.dict entries)) :
    ¬ BadStep (set? entries "multipleOf") ↔ ∀ w, get? entries "multipleOf" = some w → w ≠ .float .nan := by
  rw [h.set?_eq rfl]
  have hallowed (w : Value) (hw : get? entries "multipleOf" = some w) :
      (w.isNumber = true ∧ w.isGreater (.int 0) = .ok true) ↔ w ≠ .float .nan := by
    have hallows := h.allows rfl hw
    have hnumber := isNumber_of_admits (hallows.form .number rfl)
    rw [and_iff_right hnumber]
    exact isGreater_zero_iff hnumber (hallows.limits (.above 0) List.mem_cons_self)
  constructor
  · intro hstep w hw hnan
    exact hstep ⟨w, hw, fun hgood => (hallowed w hw).mp hgood hnan⟩
  · rintro hstep ⟨w, hw, hbad⟩
    exact hbad ((hallowed w hw).mpr (hstep w hw))

/-- The grammar knows the formats. -/
theorem not_unknownFormat (h : Grammatical (.dict entries)) : ¬ UnknownFormat (text? entries "format") := by
  rintro ⟨name, hname, hunknown⟩
  have hget : get? entries "format" = some (.str name) := by
    rw [h.get?_eq_text rfl, hname]
    rfl
  obtain ⟨known, hknown, hsame⟩ := (h.allows rfl hget).limits (.oneOf _) List.mem_cons_self
  obtain rfl := Value.str.inj hsame
  obtain ⟨format, hformat, rfl⟩ := List.mem_map.mp hknown
  exact List.find?_eq_none.mp hunknown format hformat (beq_self_eq_true _)

end Fields

/-! ### Nodes of definitions -/

section Nodes

variable {entries : List (Value × Value)} {a : Annotations}

theorem compilable_string_iff (h : Grammatical (.dict entries)) (hkind : get? entries "type" = some (.str "string")) :
    (Schema.string a (stringFields entries)).Compilable ↔ Compiles entries := by
  have hmin : ¬ BadCount (stringFields entries).minLength ↔ CountsExactly entries "minLength" := not_badCount_iff h rfl
  have hmax : ¬ BadCount (stringFields entries).maxLength ↔ CountsExactly entries "maxLength" := not_badCount_iff h rfl
  have hcrossed : Crossed (stringFields entries).minLength (stringFields entries).maxLength ↔
      Crossed (get? entries "minLength") (get? entries "maxLength") := crossed_iff h rfl rfl
  unfold Compiles Coherent Exact
  rw [text?_eq_of_get? hkind]
  constructor
  · rintro ⟨hcomparable, hmalformed⟩
    simp only [Schema.Malformed, not_or] at hmalformed
    obtain ⟨hmin', hmax', hcrossed', -, hpattern⟩ := hmalformed
    refine ⟨⟨mt hcrossed.mpr hcrossed', ?_⟩, hmin.mp hmin', hmax.mp hmax'⟩
    intro source hsource
    -- a pattern can be read or is malformed, there is nothing in between
    rcases hcomparable source hsource with hregex | ⟨reason, place, hrefused⟩
    · exact hregex
    · exact absurd ⟨source, reason, place, hsource, hrefused⟩ hpattern
  · rintro ⟨⟨hcrossed', hpattern⟩, hmin', hmax'⟩
    refine ⟨fun source hsource => .inl (hpattern source hsource), ?_⟩
    simp only [Schema.Malformed, not_or]
    refine ⟨hmin.mpr hmin', hmax.mpr hmax', mt hcrossed.mp hcrossed', not_unknownFormat h, ?_⟩
    rintro ⟨source, reason, place, hsource, hrefused⟩
    obtain ⟨regex, hregex⟩ := hpattern source hsource
    rw [hregex] at hrefused
    cases hrefused

theorem compilable_number_iff (h : Grammatical (.dict entries)) {kind : String}
    (hkind : get? entries "type" = some (.str kind)) (hnumeric : kind = "number" ∨ kind = "integer") :
    (Schema.number a (numberFields entries)).Compilable ↔ Compiles entries := by
  have hcompiles : Compiles entries ↔ ¬ Crossed (get? entries "minimum") (get? entries "maximum") ∧
      ∀ w, get? entries "multipleOf" = some w → w ≠ .float .nan := by
    unfold Compiles Coherent Exact
    rw [text?_eq_of_get? hkind]
    rcases hnumeric with rfl | rfl
    · exact Iff.rfl
    · exact Iff.rfl
  -- what the grammar accepts as bounds can be compared
  have hbound (key : String) (hr : rule? key = some ⟨some .number, []⟩) (w : Value)
      (hw : set? entries key = some w) : w.isNumber = true := by
    rw [h.set?_eq hr] at hw
    exact isNumber_of_admits ((h.allows hr hw).form .number rfl)
  have hcomparable : (Schema.number a (numberFields entries)).Comparable := by
    intro low high hlow hhigh
    exact exists_isGreater_of_isNumber (hbound "minimum" rfl low hlow) (hbound "maximum" rfl high hhigh)
  have hcrossed : Crossed (numberFields entries).minimum (numberFields entries).maximum ↔
      Crossed (get? entries "minimum") (get? entries "maximum") := crossed_iff h rfl rfl
  have hstep : ¬ BadStep (numberFields entries).multipleOf ↔ _ := not_badStep_iff h
  rw [hcompiles, ← hcrossed, ← hstep, ← not_or]
  exact and_iff_right hcomparable

theorem compilable_array_iff (h : Grammatical (.dict entries)) (hkind : get? entries "type" = some (.str "array"))
    {items : Schema} : (Schema.array a (arrayFields entries) items).Compilable ↔ Compiles entries := by
  have hmin : ¬ BadCount (arrayFields entries).minItems ↔ CountsExactly entries "minItems" := not_badCount_iff h rfl
  have hmax : ¬ BadCount (arrayFields entries).maxItems ↔ CountsExactly entries "maxItems" := not_badCount_iff h rfl
  have hcrossed : Crossed (arrayFields entries).minItems (arrayFields entries).maxItems ↔
      Crossed (get? entries "minItems") (get? entries "maxItems") := crossed_iff h rfl rfl
  have hcompiles : Compiles entries ↔ ¬ Crossed (get? entries "minItems") (get? entries "maxItems") ∧
      CountsExactly entries "minItems" ∧ CountsExactly entries "maxItems" := by
    unfold Compiles Coherent Exact
    rw [text?_eq_of_get? hkind]
    exact Iff.rfl
  rw [hcompiles, ← hmin, ← hmax, ← hcrossed]
  constructor
  · rintro ⟨-, hmalformed⟩
    simp only [Schema.Malformed, not_or] at hmalformed
    exact ⟨hmalformed.2.2, hmalformed.1, hmalformed.2.1⟩
  · rintro ⟨hcrossed', hmin', hmax'⟩
    refine ⟨trivial, ?_⟩
    simp only [Schema.Malformed, not_or]
    exact ⟨hmin', hmax', hcrossed'⟩

theorem compilable_object_iff (hkind : get? entries "type" = some (.str "object")) {ps : List (Value × Schema)}
    (hnames : List.Forall₂ (fun e p => p.1 = e.1) (declaredProperties entries) ps) :
    (Schema.object a (objectFields entries) ps).Compilable ↔ Compiles entries := by
  have hcompiles : Compiles entries ↔
      (∀ key ∈ (items? entries "required").getD [], ∃ p ∈ declaredProperties entries, key.same p.1 = true) ∧
        ∀ p ∈ declaredProperties entries, ∃ name, p.1 = .str name := by
    unfold Compiles Coherent Exact
    rw [text?_eq_of_get? hkind]
    exact Iff.rfl
  have hunnamed : ¬ Schema.Unnamed ps ↔ ∀ p ∈ declaredProperties entries, ∃ name, p.1 = .str name := by
    constructor
    · intro hnamed e he
      obtain ⟨p, hp, hkey⟩ := exists_right_of_forall₂ hnames he
      by_contra htext
      exact hnamed ⟨p, hp, fun name hname => htext ⟨name, hkey.symm.trans hname⟩⟩
    · rintro htexts ⟨p, hp, hunnamed⟩
      obtain ⟨e, he, hkey⟩ := exists_left_of_forall₂ hnames hp
      obtain ⟨name, hname⟩ := htexts e he
      exact hunnamed name (hkey.trans hname)
  have hundeclared : ¬ Schema.RequiresUndeclared (objectFields entries) ps ↔
      ∀ key ∈ (items? entries "required").getD [], ∃ p ∈ declaredProperties entries, key.same p.1 = true := by
    constructor
    · intro hdeclared key hkey
      by_contra hmissing
      refine hdeclared ⟨_, rfl, key, hkey, fun p hp => ?_⟩
      obtain ⟨e, he, hname⟩ := exists_left_of_forall₂ hnames hp
      rw [← Bool.not_eq_true, hname]
      exact fun hsame => hmissing ⟨e, he, hsame⟩
    · rintro hdeclared ⟨keys, hkeys, key, hkey, hmissing⟩
      obtain rfl := Option.some.inj hkeys
      obtain ⟨e, he, hsame⟩ := hdeclared key hkey
      obtain ⟨p, hp, hname⟩ := exists_right_of_forall₂ hnames he
      rw [← hname, hmissing p hp] at hsame
      cases hsame
  rw [hcompiles, ← hundeclared, ← hunnamed, and_comm, ← not_or]
  exact and_iff_right trivial

end Nodes

/-! ### Whole definitions -/

/-- Wrapped or not, a node is followed through as it is. -/
theorem everywhere_wrap_iff {P : Schema → Prop} {entries : List (Value × Value)} {node : Annotations → Schema}
    {Q : Prop} (hnullable : ∀ a inner, P (.nullable a inner)) (hnode : ∀ a, (node a).Everywhere P ↔ Q) :
    (wrap entries node).Everywhere P ↔ Q := by
  unfold wrap
  dsimp only
  split
  · exact (and_iff_right (hnullable _ _)).trans (hnode _)
  · exact hnode _

theorem compilable_iff_of_build {D : Value} {path : String} {s : Schema} (h : Grammatical D)
    (hbuild : build path D = .ok s) : s.Everywhere Compilable ↔ Throughout Compiles D := by
  refine build_induction (motive := fun D s => s.Everywhere Compilable ↔ Throughout Compiles D) ?string ?number
    ?integer ?boolean ?array ?object h hbuild
  case string =>
    intro entries h hkind
    rw [throughout_leaf_iff hkind (by decide) (by decide)]
    exact everywhere_wrap_iff (fun _ _ => Schema.compilable_nullable) fun a => compilable_string_iff h hkind
  case number =>
    intro entries h hkind
    rw [throughout_leaf_iff hkind (by decide) (by decide)]
    exact everywhere_wrap_iff (fun _ _ => Schema.compilable_nullable) fun a =>
      compilable_number_iff h hkind (.inl rfl)
  case integer =>
    intro entries h hkind
    rw [throughout_leaf_iff hkind (by decide) (by decide)]
    -- an integer node is judged as a number node is
    exact everywhere_wrap_iff (fun _ _ => Schema.compilable_nullable) fun a =>
      (compilable_number_iff h hkind (.inr rfl) : (Schema.number a (numberFields entries)).Compilable ↔ _)
  case boolean =>
    intro entries h hkind
    rw [throughout_leaf_iff hkind (by decide) (by decide)]
    have hcompiles : Compiles entries := by
      unfold Compiles Coherent Exact
      rw [text?_eq_of_get? hkind]
      exact ⟨trivial, trivial⟩
    exact everywhere_wrap_iff (fun _ _ => Schema.compilable_nullable) fun a =>
      iff_of_true ⟨trivial, id⟩ hcompiles
  case array =>
    intro entries d items h hkind hd hitems
    rw [throughout_array_iff hkind hd, ← hitems]
    exact everywhere_wrap_iff (fun _ _ => Schema.compilable_nullable) fun a =>
      and_congr_left fun _ => compilable_array_iff h hkind
  case object =>
    intro entries ps h hkind hps
    have hbelow : (∀ p ∈ ps, p.2.Everywhere Compilable) ↔
        ∀ e ∈ declaredProperties entries, Throughout Compiles e.2 := by
      constructor
      · intro hall e he
        obtain ⟨p, hp, -, hread⟩ := exists_right_of_forall₂ hps he
        exact hread.mp (hall p hp)
      · intro hall p hp
        obtain ⟨e, he, -, hread⟩ := exists_left_of_forall₂ hps hp
        exact hread.mpr (hall e he)
    rw [throughout_object_iff hkind, ← hbelow]
    refine everywhere_wrap_iff (fun _ _ => Schema.compilable_nullable) fun a => ?_
    rw [Schema.everywhere_object]
    exact and_congr_left fun _ => compilable_object_iff hkind (hps.imp fun _ _ h => h.1)

/-- **Grammar and compiler.** The schema of a definition that the grammar accepts compiles exactly if the definition
is coherent and exact throughout. -/
theorem compiles_iff {D : Value} {s : Schema} (hload : Schema.ofDefinition D = .ok s) :
    (∃ validator, s.compile = .ok validator) ↔ Throughout Coherent D ∧ Throughout Exact D := by
  obtain ⟨hgrammar, hbuild⟩ := Schema.ofDefinition_eq_ok.mp hload
  rw [Schema.exists_compile_iff, compilable_iff_of_build hgrammar hbuild, ← throughout_and_iff]
  exact Iff.rfl

theorem not_crossed_of_none_left {low high : Option Value} (h : low = none) : ¬ Crossed low high := by
  rintro ⟨a, _, ha, -, -⟩
  rw [h] at ha
  cases ha

theorem not_crossed_of_none_right {low high : Option Value} (h : high = none) : ¬ Crossed low high := by
  rintro ⟨_, b, -, hb, -⟩
  rw [h] at hb
  cases hb

/-- The code of a ticket: two to four letters. -/
def codeEntries : List (Value × Value) := [
  (.str "type", .str "string"), (.str "minLength", .int 2), (.str "maxLength", .int 4),
  (.str "pattern", .str "[A-Z]+")]

/-- The prices on a ticket, in steps of five. -/
def priceEntries : List (Value × Value) := [
  (.str "type", .str "array"), (.str "maxItems", .int 3),
  (.str "items", .record [("type", .str "integer"), ("minimum", .int 0), ("multipleOf", .int 5)])]

/-- A ticket has a code, and may have prices. -/
def ticket : Value :=
  .record [("type", .str "object"),
    ("properties", .record [("code", .dict codeEntries), ("prices", .dict priceEntries)]),
    ("required", .list [.str "code"])]

theorem exists_codePattern : ∃ regex, Regex.parse "[A-Z]+" = .ok regex := by
  have hparses : (Regex.parse "[A-Z]+").toOption.isSome = true := by decide +kernel
  cases hregex : Regex.parse "[A-Z]+" with
  | ok regex => exact ⟨regex, rfl⟩
  | error f =>
      rw [hregex] at hparses
      cases hparses

theorem coherent_ticket : Throughout Coherent ticket := by
  have hcode : Throughout Coherent (.dict codeEntries) := by
    refine (throughout_leaf_iff rfl (by decide) (by decide)).mpr ⟨?_, ?_⟩
    · rintro ⟨_, _, ⟨⟩, ⟨⟩, ⟨⟩⟩
    · rintro _ ⟨⟩
      exact exists_codePattern
  have hprices : Throughout Coherent (.dict priceEntries) := by
    refine (throughout_array_iff rfl rfl).mpr ⟨not_crossed_of_none_left rfl, ?_⟩
    exact (throughout_leaf_iff rfl (by decide) (by decide)).mpr (not_crossed_of_none_right rfl)
  refine (throughout_object_iff rfl).mpr ⟨?_, ?_⟩
  · exact List.forall_mem_singleton.mpr ⟨_, List.mem_cons_self, rfl⟩
  · exact List.forall_mem_cons.mpr ⟨hcode, List.forall_mem_singleton.mpr hprices⟩

theorem exact_ticket : Throughout Exact ticket := by
  have hcode : Throughout Exact (.dict codeEntries) := by
    refine (throughout_leaf_iff rfl (by decide) (by decide)).mpr ⟨?_, ?_⟩
    · rintro _ ⟨⟩
      exact ⟨2, rfl⟩
    · rintro _ ⟨⟩
      exact ⟨4, rfl⟩
  have hprices : Throughout Exact (.dict priceEntries) := by
    refine (throughout_array_iff rfl rfl).mpr ⟨⟨?_, ?_⟩, (throughout_leaf_iff rfl (by decide) (by decide)).mpr ?_⟩
    · rintro _ ⟨⟩
    · rintro _ ⟨⟩
      exact ⟨3, rfl⟩
    · rintro _ ⟨⟩ ⟨⟩
  refine (throughout_object_iff rfl).mpr ⟨?_, ?_⟩
  · exact List.forall_mem_cons.mpr ⟨⟨"code", rfl⟩, List.forall_mem_singleton.mpr ⟨"prices", rfl⟩⟩
  · exact List.forall_mem_cons.mpr ⟨hcode, List.forall_mem_singleton.mpr hprices⟩

/-- The definition of a ticket is coherent and exact, so its schema compiles. -/
theorem compiles_iff_ticket :
    ∃ s, Schema.ofDefinition ticket = .ok s ∧ Throughout Coherent ticket ∧ Throughout Exact ticket ∧
      ∃ validator, s.compile = .ok validator := by
  obtain ⟨s, hload⟩ : ∃ s, Schema.ofDefinition ticket = .ok s := ⟨_, by with_unfolding_all rfl⟩
  exact ⟨s, hload, coherent_ticket, exact_ticket, (compiles_iff hload).mpr ⟨coherent_ticket, exact_ticket⟩⟩

/-- A word of two letters at least, where the two is written with a fraction. -/
def fractionalWord : Value := .record [("type", .str "string"), ("minLength", .float (.ofInt 2))]

/-- A number in steps that are not a number. -/
def stepless : Value := .record [("type", .str "number"), ("multipleOf", .float .nan)]

/-- A property whose name was read as a truth value. -/
def switched : Value :=
  .record [("type", .str "object"), ("properties", .dict [(.bool true, .record [("type", .str "string")])])]

/-- The grammar accepts three coherent definitions that the compiler refuses. -/
theorem not_compiles_of_inexact :
    (∃ s, Schema.ofDefinition fractionalWord = .ok s ∧ Throughout Coherent fractionalWord ∧
        s.compile = .error (.schema (.negativeCount "min_length" "2.0") "")) ∧
      (∃ s, Schema.ofDefinition stepless = .ok s ∧ Throughout Coherent stepless ∧
        s.compile = .error (.schema (.stepNotPositive "nan") "")) ∧
      ∃ s, Schema.ofDefinition switched = .ok s ∧ Throughout Coherent switched ∧
        s.compile = .error (.schema (.propertyNameNotText "True") "") := by
  have hword : Throughout Coherent fractionalWord := by
    refine (throughout_leaf_iff rfl (by decide) (by decide)).mpr ⟨not_crossed_of_none_right rfl, ?_⟩
    rintro _ ⟨⟩
  have hstepless : Throughout Coherent stepless :=
    (throughout_leaf_iff rfl (by decide) (by decide)).mpr (not_crossed_of_none_left rfl)
  have hswitched : Throughout Coherent switched := by
    refine (throughout_object_iff rfl).mpr ⟨List.forall_mem_nil _, List.forall_mem_singleton.mpr ?_⟩
    refine (throughout_leaf_iff rfl (by decide) (by decide)).mpr ⟨not_crossed_of_none_left rfl, ?_⟩
    rintro _ ⟨⟩
  exact ⟨⟨_, by with_unfolding_all rfl, hword, by with_unfolding_all rfl⟩,
    ⟨_, by with_unfolding_all rfl, hstepless, by with_unfolding_all rfl⟩,
    ⟨_, by with_unfolding_all rfl, hswitched, by with_unfolding_all rfl⟩⟩

end Definition

end ApiContract
