import ApiContract.Proofs.DefinitionGrammar
import ApiContract.Proofs.NodeDocuments

/-!
# Definitions read as JSON Schema

A definition differs from the JSON Schema of the same words in two ways: an object admits no additional
properties unless it says so, and `nullable` admits null. `Definition.standard` says both in words of JSON
Schema, at every level. What an instance has to be like to be valid is said keyword by keyword
(`valid_described_iff`); each keyword looks at the instances of one type.
-/

namespace ApiContract.Definition

open JsonSchema

/-! ### The reading -/

/-- A document that says of an object that it admits no additional properties, unless it says which it admits. -/
def closed (members : List (Value × Value)) : List (Value × Value) :=
  if Value.hasKey (.str "additionalProperties") members then members
  else members ++ [(.str "additionalProperties", .bool false)]

/-- A document that null is valid against besides. -/
def orNull (document : Value) : Value :=
  .record [("anyOf", .list [document, .record [("type", .str "null")]])]

mutual
/-- The JSON Schema that a definition stands for. -/
def standard : Value → Value
  | .dict entries =>
    let described := .dict (closed (standardMembers entries))
    if flag entries "nullable" then orNull described else described
  | v => v
termination_by structural v => v

def standardMembers : List (Value × Value) → List (Value × Value)
  | [] => []
  | (key, v) :: rest =>
    (key, match key with
      | .str "items" => standard v
      | .str "properties" => standardProperties v
      | _ => v) :: standardMembers rest
termination_by structural es => es

def standardProperties : Value → Value
  | .dict entries => .dict (standardChildren entries)
  | v => v
termination_by structural v => v

def standardChildren : List (Value × Value) → List (Value × Value)
  | [] => []
  | (key, v) :: rest => (key, standard v) :: standardChildren rest
termination_by structural es => es
end

/-- The value of a keyword in the reading. -/
def standardArgument (key v : Value) : Value :=
  match key with
  | .str "items" => standard v
  | .str "properties" => standardProperties v
  | _ => v

theorem standardMembers_eq_map (entries : List (Value × Value)) :
    standardMembers entries = entries.map fun e => (e.1, standardArgument e.1 e.2) := by
  induction entries with
  | nil => rfl
  | cons e entries ih =>
      obtain ⟨key, v⟩ := e
      rw [List.map_cons, ← ih]
      rfl

theorem standardChildren_eq_map (entries : List (Value × Value)) :
    standardChildren entries = entries.map fun e => (e.1, standard e.2) := by
  induction entries with
  | nil => rfl
  | cons e entries ih =>
      obtain ⟨key, v⟩ := e
      rw [List.map_cons, ← ih]
      rfl

/-- What the definition says besides `nullable`. -/
def described (entries : List (Value × Value)) : Value := .dict (closed (standardMembers entries))

/-- Null is valid against a nullable definition, and otherwise what is valid against the rest of it. -/
theorem valid_standard_iff {entries : List (Value × Value)} {v : Value} :
    valid (standard (.dict entries)) v = true ↔
      (flag entries "nullable" = true ∧ v = .null) ∨ valid (described entries) v = true := by
  have hstandard : standard (.dict entries) =
      if flag entries "nullable" then orNull (described entries) else described entries := rfl
  rw [hstandard]
  cases flag entries "nullable" with
  | false => simp
  | true =>
      have hnull : valid (.record [("type", .str "null")]) v = true ↔ v = .null := by
        show (hasType "null" v || false) && true = true ↔ _
        cases v <;> simp [hasType]
      have hany : valid (orNull (described entries)) v = true ↔
          valid (described entries) v = true ∨ v = .null := by
        show (validAny (.list [described entries, .record [("type", .str "null")]]) v && true) = true ↔ _
        rw [Bool.and_true, validAny_list, List.any_eq_true]
        simp only [List.mem_cons, List.not_mem_nil, or_false, exists_eq_or_imp, exists_eq_left, hnull]
      rw [if_pos rfl, hany]
      simp [or_comm]

/-! ### Keyword by keyword -/

variable {entries : List (Value × Value)} {v : Value}

theorem get?_standardMembers (entries : List (Value × Value)) (key : String) :
    get? (standardMembers entries) key = (get? entries key).map (standardArgument (.str key)) := by
  induction entries with
  | nil => rfl
  | cons e entries ih =>
      obtain ⟨k, w⟩ := e
      show get? ((k, standardArgument k w) :: standardMembers entries) key = _
      by_cases hkey : k = .str key
      · rw [hkey, get?_cons_self, get?_cons_self, Option.map_some]
      · rw [get?_cons_of_ne hkey, get?_cons_of_ne hkey, ih]

theorem get?_closed {key : String} (hkey : key ≠ "additionalProperties") (members : List (Value × Value)) :
    get? (closed members) key = get? members key := by
  rw [closed]
  split
  · rfl
  · have hother : ¬ (Value.str key).same (.str "additionalProperties") = true := by
      rw [Value.same_str_left]
      exact fun h => hkey (Value.str.inj h).symm
    rw [get?, Value.lookup?, List.find?_append, List.find?_singleton, if_neg hother, Option.or_none]
    rfl

/-- The reading declares the properties that the definition declares. -/
theorem propertyNames_closed (entries : List (Value × Value)) :
    propertyNames (closed (standardMembers entries)) = propertyNames entries := by
  have hlookup : Value.lookup? (.str "properties") (closed (standardMembers entries)) =
      (Value.lookup? (.str "properties") entries).map standardProperties :=
    (get?_closed (by decide) _).trans (get?_standardMembers entries "properties")
  unfold propertyNames
  rw [hlookup]
  cases Value.lookup? (.str "properties") entries with
  | none => rfl
  | some w =>
      cases w with
      | dict ps =>
          show (standardChildren ps).map (·.1) = ps.map (·.1)
          rw [standardChildren_eq_map, List.map_map]
          rfl
      | _ => rfl

/-- A keyword that is bound to a value holds for an instance. -/
def Says (entries : List (Value × Value)) (key : String) (w v : Value) : Prop :=
  holds (propertyNames entries) (.str key) (standardArgument (.str key) w) v = true

/-- An instance has no properties besides the declared ones. -/
def OnlyDeclared (entries : List (Value × Value)) (v : Value) : Prop :=
  ∀ members, v = .dict members → ∀ e ∈ members, ∃ name ∈ propertyNames entries, e.1.same name = true

theorem holds_closing_iff {declared : List Value} :
    holds declared (.str "additionalProperties") (.bool false) v = true ↔
      ∀ members, v = .dict members → ∀ e ∈ members, ∃ name ∈ declared, e.1.same name = true := by
  cases v with
  | dict members =>
      show (members.all fun e => declared.any (e.1.same ·) || false) = true ↔ _
      simp
  | _ => exact iff_of_true rfl (by simp)

/-- An instance is valid if each keyword of the definition holds, and if it has no properties besides the declared
ones unless the definition says which it admits. -/
theorem valid_described_iff (htexts : ∀ e ∈ entries, ∃ key, e.1 = .str key)
    (hdiffer : Value.KeysDiffer entries) :
    valid (described entries) v = true ↔
      (∀ key w, get? entries key = some w → Says entries key w v) ∧
        (get? entries "additionalProperties" = none → OnlyDeclared entries v) := by
  have hmembers : (∀ e ∈ standardMembers entries, holds (propertyNames entries) e.1 e.2 v = true) ↔
      ∀ key w, get? entries key = some w → Says entries key w v := by
    rw [standardMembers_eq_map, List.forall_mem_map]
    constructor
    · intro h key w hget
      exact h (.str key, w) (Value.mem_of_lookup?_str hget)
    · rintro h ⟨k, w⟩ he
      obtain ⟨key, hkey⟩ := htexts _ he
      obtain rfl : k = .str key := hkey
      exact h key w (Value.lookup?_of_mem hdiffer he)
  have hkey : Value.hasKey (.str "additionalProperties") (standardMembers entries) =
      (get? entries "additionalProperties").isSome := by
    rw [← Value.lookup?_isSome]
    show (get? (standardMembers entries) "additionalProperties").isSome = _
    rw [get?_standardMembers, Option.isSome_map]
  rw [described, valid_dict, propertyNames_closed, List.all_eq_true, ← hmembers, closed, hkey]
  cases get? entries "additionalProperties" with
  | some w => simp
  | none =>
      rw [Option.isSome_none, if_neg Bool.false_ne_true, List.forall_mem_append, List.forall_mem_singleton,
        holds_closing_iff]
      simp [OnlyDeclared]

/-! ### The types that keywords look at -/

/-- The keywords that say nothing of instances. -/
def annotationKeywords : List String := ["name", "description", "default", "examples", "nullable"]

def textKeywords : List String := ["minLength", "maxLength", "pattern", "format"]

def numberKeywords : List String :=
  ["minimum", "maximum", "exclusiveMinimum", "exclusiveMaximum", "multipleOf"]

def arrayKeywords : List String := ["items", "minItems", "maxItems", "uniqueItems"]

def objectKeywords : List String := ["properties", "required", "additionalProperties"]

/-- A keyword is an annotation, looks at instances of one type, or is the type or the enumeration. -/
theorem keyword_cases {key : String} (h : isKeyword (.str key) = true) :
    key = "type" ∨ key = "enum" ∨ key ∈ annotationKeywords ∨ key ∈ textKeywords ∨ key ∈ numberKeywords ∨
      key ∈ arrayKeywords ∨ key ∈ objectKeywords := by
  have hkeys : (key = "items" ∨ key = "properties") ∨ (rule? key).isSome = true := by
    simpa [isKeyword] using h
  rcases hkeys with (rfl | rfl) | hrule
  · decide
  · decide
  · unfold rule? at hrule
    split at hrule
    all_goals first | decide | cases hrule

section

variable {key : String} {w : Value}

theorem says_annotation (hkey : key ∈ annotationKeywords) : Says entries key w v := by
  simp only [annotationKeywords, List.mem_cons, List.not_mem_nil, or_false] at hkey
  rcases hkey with rfl | rfl | rfl | rfl | rfl <;> rfl

theorem says_text_of_other (hkey : key ∈ textKeywords) (hv : ∀ s, v ≠ .str s) : Says entries key w v := by
  have hother (meets : String → Bool) : onText v meets = true := by
    cases v with
    | str s => exact absurd rfl (hv s)
    | _ => rfl
  simp only [textKeywords, List.mem_cons, List.not_mem_nil, or_false] at hkey
  rcases hkey with rfl | rfl | rfl | rfl <;> exact hother _

theorem says_number_of_other (hkey : key ∈ numberKeywords) (hv : v.jsonNumber? = none) :
    Says entries key w v := by
  have hother (meets : Value.Number → Bool) : onNumber v meets = true := by
    rw [onNumber, hv]
  simp only [numberKeywords, List.mem_cons, List.not_mem_nil, or_false] at hkey
  rcases hkey with rfl | rfl | rfl | rfl | rfl <;> exact hother _

theorem says_array_of_other (hkey : key ∈ arrayKeywords) (hv : ∀ xs, v ≠ .list xs) : Says entries key w v := by
  have hother (meets : List Value → Bool) : onArray v meets = true := by
    cases v with
    | list xs => exact absurd rfl (hv xs)
    | _ => rfl
  simp only [arrayKeywords, List.mem_cons, List.not_mem_nil, or_false] at hkey
  rcases hkey with rfl | rfl | rfl | rfl <;> exact hother _

theorem says_object_of_other (hkey : key ∈ objectKeywords) (hv : ∀ members, v ≠ .dict members) :
    Says entries key w v := by
  have hother (meets : List (Value × Value) → Bool) : onObject v meets = true := by
    cases v with
    | dict members => exact absurd rfl (hv members)
    | _ => rfl
  simp only [objectKeywords, List.mem_cons, List.not_mem_nil, or_false] at hkey
  rcases hkey with rfl | rfl | rfl
  · cases w with
    | dict ps => exact hother _
    | _ => exact hother _
  · exact hother _
  · exact hother _

end

theorem says_type_iff {kind : String} : Says entries "type" (.str kind) v ↔ hasType kind v = true := by
  show ([kind].any (hasType · v)) = true ↔ _
  simp

theorem says_enum_iff {vs : List Value} : Says entries "enum" (.list vs) v ↔ ∃ w ∈ vs, v.jsonEqual w = true :=
  List.any_eq_true

/-- The type that a definition states is the type of the valid instances. -/
theorem hasType_of_stated {kind : String} (hkind : get? entries "type" = some (.str kind))
    (h : ∀ key w, get? entries key = some w → Says entries key w v) : hasType kind v = true :=
  says_type_iff.mp (h "type" _ hkind)

/-- The keywords that look at an instance for its type. -/
def keywordsFor : Value → List String
  | .str _ => textKeywords
  | .int _ | .float _ => numberKeywords
  | .list _ => arrayKeywords
  | .dict _ => objectKeywords
  | _ => []

/-- All keywords of a definition hold for an instance of its type that is enumerated, if those do that look at
instances of the type. -/
theorem forall_says_of_own (h : Grammatical (.dict entries)) {kind : String}
    (hkind : get? entries "type" = some (.str kind)) (htype : hasType kind v = true)
    (henum : ∀ w, get? entries "enum" = some w → Says entries "enum" w v)
    (hown : ∀ key ∈ keywordsFor v, ∀ w, get? entries key = some w → Says entries key w v) :
    ∀ key w, get? entries key = some w → Says entries key w v := by
  intro key w hget
  rcases keyword_cases (h.isKeyword_of_get? hget) with rfl | rfl | hkey | hkey | hkey | hkey | hkey
  · obtain rfl := Option.some.inj (hkind.symm.trans hget)
    exact says_type_iff.mpr htype
  · exact henum w hget
  · exact says_annotation hkey
  · cases v with
    | str s => exact hown key hkey w hget
    | _ => exact says_text_of_other hkey (by simp)
  · cases v with
    | int n => exact hown key hkey w hget
    | float x => exact hown key hkey w hget
    | _ => exact says_number_of_other hkey rfl
  · cases v with
    | list xs => exact hown key hkey w hget
    | _ => exact says_array_of_other hkey (by simp)
  · cases v with
    | dict members => exact hown key hkey w hget
    | _ => exact says_object_of_other hkey (by simp)

end ApiContract.Definition
