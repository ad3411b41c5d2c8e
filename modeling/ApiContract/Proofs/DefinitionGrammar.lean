import ApiContract.Proofs.Entries
import ApiContract.Proofs.Induction
import ApiContract.Schema.Definition

/-!
# The grammar of definitions

A definition is accepted exactly if it is grammatical (`check_eq_ok_iff`): it is a dictionary of keywords, its
type among them, the value of each keyword follows its rule, and what stands under `items` and `properties` is
grammatical in turn. A schema is built from what a definition binds its keywords to (`build_dict`).
-/

namespace ApiContract

namespace Definition

variable {path : List Value}

/-! ### Rules -/

/-- A step that reports a defect does not find nothing. -/
theorem bind_singleton_ne_nil {α β : Type} {x : Except Fault α} {f : α → β} :
    (do return [f (← x)]) ≠ Except.ok [] := by
  intro h
  obtain ⟨_, -, h⟩ := bind_eq_ok_iff.mp h
  cases h

/-- A step that reports a defect unless a condition holds finds nothing exactly if the condition holds. -/
theorem unless_eq_nil_iff {α : Type} {holds : Bool} {report : Except Fault (List α)} (hreport : report ≠ .ok []) :
    (if holds then pure [] else report) = Except.ok [] ↔ holds = true := by
  cases holds with
  | true => exact iff_of_true rfl rfl
  | false => exact iff_of_false hreport Bool.false_ne_true

/-- A step that reports a defect if a condition holds finds nothing exactly if the condition does not hold. -/
theorem when_eq_nil_iff {α : Type} {holds : Bool} {report : Except Fault (List α)} (hreport : report ≠ .ok []) :
    (if holds then report else pure []) = Except.ok [] ↔ holds = false := by
  cases holds with
  | true => exact iff_of_false hreport Bool.noConfusion
  | false => exact iff_of_true rfl rfl

theorem wrongTypeOf_eq_nil_iff {form : Form} {v : Value} :
    wrongTypeOf form path v = .ok [] ↔ form.admits v = true :=
  unless_eq_nil_iff bind_singleton_ne_nil

/-- A row of steps finds nothing exactly if no step finds anything. -/
theorem mapM_flatten_eq_nil_iff {α β : Type} {f : α → Except Fault (List β)} {xs : List α} :
    (do return (← xs.mapM f).flatten) = Except.ok [] ↔ ∀ x ∈ xs, f x = .ok [] := by
  constructor
  · intro h x hx
    obtain ⟨rows, hrows, h⟩ := bind_eq_ok_iff.mp h
    obtain ⟨row, hrow, hx⟩ := exists_right_of_forall₂ (mapM_eq_ok_iff.mp hrows) hx
    rw [hx, List.flatten_eq_nil_iff.mp (Except.ok.inj h) row hrow]
  · intro h
    have hrows : xs.mapM f = .ok (xs.map fun _ => []) := by
      rw [mapM_eq_ok_iff, List.forall₂_map_right_iff, List.forall₂_same]
      exact h
    refine bind_eq_ok_iff.mpr ⟨_, hrows, congrArg Except.ok ?_⟩
    rw [List.flatten_eq_nil_iff]
    exact List.forall_mem_map.mpr fun _ _ => rfl

/-- Two steps find nothing exactly if neither finds anything. -/
theorem append_eq_nil_iff {α : Type} {x y : Except Fault (List α)} :
    (do return (← x) ++ (← y)) = Except.ok [] ↔ x = .ok [] ∧ y = .ok [] := by
  constructor
  · intro h
    obtain ⟨xs, hx, h⟩ := bind_eq_ok_iff.mp h
    obtain ⟨ys, hy, h⟩ := bind_eq_ok_iff.mp h
    obtain ⟨rfl, rfl⟩ := List.append_eq_nil_iff.mp (Except.ok.inj h)
    exact ⟨hx, hy⟩
  · rintro ⟨rfl, rfl⟩
    rfl

/-- A value keeps to a limit. -/
def Limit.Allows (v : Value) : Limit → Prop
  | oneOf words => ∃ s ∈ words, v = .str s
  | componentName => ∀ s, v = .str s → ComponentName.accepts s = true
  | atLeast bound => isBelow false bound v = false
  | above bound => isBelow true bound v = false
  | nonEmpty => v ≠ .list []
  | textItems => ∀ xs, v = .list xs → ∀ x ∈ xs, ∃ s, x = .str s

theorem Form.admits_string_iff {v : Value} : Form.string.admits v = true ↔ ∃ s, v = .str s := by
  cases v <;> simp [admits]

theorem mem_mapIdx_pair {α : Type} {xs : List α} {x : α} (hx : x ∈ xs) :
    ∃ i, (i, x) ∈ xs.mapIdx fun i x => (i, x) := by
  obtain ⟨i, hi, rfl⟩ := List.mem_iff_getElem.mp hx
  exact ⟨i, List.mem_mapIdx.mpr ⟨i, hi, rfl⟩⟩

namespace Limit

variable {wrongType : Bool} {v : Value}

theorem defects_oneOf_eq_nil_iff {words : List String} :
    (oneOf words).defects wrongType path v = .ok [] ↔ (oneOf words).Allows v := by
  refine (unless_eq_nil_iff fun h => ?_).trans ?_
  · obtain ⟨_, -, h⟩ := bind_eq_ok_iff.mp h
    exact bind_singleton_ne_nil h
  · cases v <;> simp [Allows]

theorem defects_componentName_eq_nil_iff :
    componentName.defects wrongType path v = .ok [] ↔ componentName.Allows v := by
  cases v with
  | str s =>
      refine (unless_eq_nil_iff ?_).trans (by simp [Allows])
      rintro ⟨⟩
  | _ => exact iff_of_true rfl (by simp [Allows])

theorem defects_nonEmpty_eq_nil_iff : nonEmpty.defects wrongType path v = .ok [] ↔ nonEmpty.Allows v := by
  cases v with
  | list xs =>
      cases xs with
      | nil => exact iff_of_false (by rintro ⟨⟩) fun h => h rfl
      | cons x xs => exact iff_of_true rfl (by simp [Allows])
  | _ => exact iff_of_true rfl (by simp [Allows])

theorem defects_textItems_eq_nil_iff : textItems.defects wrongType path v = .ok [] ↔ textItems.Allows v := by
  cases v with
  | list xs =>
      refine mapM_flatten_eq_nil_iff.trans ?_
      constructor
      · rintro h _ ⟨⟩ x hx
        obtain ⟨i, hi⟩ := mem_mapIdx_pair hx
        exact Form.admits_string_iff.mp (wrongTypeOf_eq_nil_iff.mp (h (i, x) hi))
      · intro h p hp
        obtain ⟨i, hi, rfl⟩ := List.mem_mapIdx.mp hp
        exact wrongTypeOf_eq_nil_iff.mpr (Form.admits_string_iff.mpr (h xs rfl _ (List.getElem_mem hi)))
  | _ => exact iff_of_true rfl (by simp [Allows])

/-- A limit finds no defect exactly if the value keeps to it. -/
theorem defects_eq_nil_iff {limit : Limit} : limit.defects wrongType path v = .ok [] ↔ limit.Allows v := by
  cases limit with
  | oneOf words => exact defects_oneOf_eq_nil_iff
  | componentName => exact defects_componentName_eq_nil_iff
  | atLeast bound => exact when_eq_nil_iff bind_singleton_ne_nil
  | above bound => exact when_eq_nil_iff bind_singleton_ne_nil
  | nonEmpty => exact defects_nonEmpty_eq_nil_iff
  | textItems => exact defects_textItems_eq_nil_iff

end Limit

/-- A value follows the rule of its keyword. -/
structure Rule.Allows (r : Rule) (v : Value) : Prop where
  form : ∀ form ∈ r.form, form.admits v = true
  limits : ∀ limit ∈ r.limits, limit.Allows v

/-- A rule finds no defect exactly if the value follows it. -/
theorem Rule.defects_eq_nil_iff {r : Rule} {v : Value} : r.defects path v = .ok [] ↔ r.Allows v := by
  obtain ⟨form, limits⟩ := r
  have hlimits (wrongType : Bool) :
      (do return (← limits.mapM (Limit.defects wrongType path v)).flatten) = Except.ok [] ↔
        ∀ limit ∈ limits, limit.Allows v := by
    rw [mapM_flatten_eq_nil_iff]
    exact forall₂_congr fun limit _ => Limit.defects_eq_nil_iff
  have hothers (wrongType : Bool) {typed : List Defect} :
      (do return typed ++ (← limits.mapM (Limit.defects wrongType path v)).flatten) = Except.ok [] ↔
        typed = [] ∧ ∀ limit ∈ limits, limit.Allows v := by
    rw [← hlimits wrongType]
    cases limits.mapM (Limit.defects wrongType path v) with
    | error f => exact iff_of_false (by rintro ⟨⟩) (by rintro ⟨-, ⟨⟩⟩)
    | ok rows =>
        constructor
        · intro h
          obtain ⟨htyped, hrows⟩ := List.append_eq_nil_iff.mp (Except.ok.inj h)
          exact ⟨htyped, congrArg Except.ok hrows⟩
        · rintro ⟨rfl, hrows⟩
          exact hrows
  cases form with
  | none => exact (hothers false).trans ⟨fun h => ⟨by simp, h.2⟩, fun h => ⟨rfl, h.limits⟩⟩
  | some f =>
      constructor
      · intro h
        obtain ⟨typed, htyped, h⟩ := bind_eq_ok_iff.mp h
        obtain ⟨rfl, hallowed⟩ := (hothers _).mp h
        refine ⟨?_, hallowed⟩
        rintro _ ⟨⟩
        exact wrongTypeOf_eq_nil_iff.mp htyped
      · intro h
        exact bind_eq_ok_iff.mpr ⟨[], wrongTypeOf_eq_nil_iff.mpr (h.form f rfl), (hothers false).mpr ⟨rfl, h.limits⟩⟩

/-! ### Definitions -/

/-- The value of a keyword has no defects. -/
structure IsSound (path : List Value) (key v : Value) : Prop where
  items : key = .str "items" → defects (path ++ [key]) v = .ok []
  properties : key = .str "properties" → propertiesDefects (path ++ [key]) v = .ok []
  rule : ∀ s r, key = .str s → rule? s = some r → r.Allows v

theorem memberDefects_cons_eq_nil_iff {key v : Value} {entries : List (Value × Value)} :
    memberDefects path ((key, v) :: entries) = .ok [] ↔
      IsSound path key v ∧ memberDefects path entries = .ok [] := by
  rw [memberDefects.eq_def]
  dsimp only
  split
  · refine append_eq_nil_iff.trans (and_congr_left fun _ => ⟨fun h => ⟨fun _ => h, ?_, ?_⟩, fun h => h.items rfl⟩)
    · exact fun h => absurd (Value.str.inj h) (by decide)
    · rintro _ _ ⟨⟩ ⟨⟩
  · refine append_eq_nil_iff.trans (and_congr_left fun _ =>
      ⟨fun h => ⟨?_, fun _ => h, ?_⟩, fun h => h.properties rfl⟩)
    · exact fun h => absurd (Value.str.inj h) (by decide)
    · rintro _ _ ⟨⟩ ⟨⟩
  · rename_i s hitems hproperties
    have hother (hrule : ∀ r, rule? s = some r → r.Allows v) : IsSound path (.str s) v :=
      ⟨fun h => absurd (Value.str.inj h) hitems, fun h => absurd (Value.str.inj h) hproperties,
        fun t r ht hr => hrule r (Value.str.inj ht ▸ hr)⟩
    split
    · rename_i r hr
      refine append_eq_nil_iff.trans (and_congr_left fun _ => Rule.defects_eq_nil_iff.trans ?_)
      refine ⟨fun h => hother fun r' hr' => ?_, fun h => h.rule s r rfl hr⟩
      obtain rfl := Option.some.inj (hr.symm.trans hr')
      exact h
    · rename_i hnone
      refine append_eq_nil_iff.trans (and_congr_left fun _ => iff_of_true rfl (hother fun r hr => ?_))
      rw [hnone] at hr
      cases hr
  · rename_i hitems hproperties htext
    refine append_eq_nil_iff.trans (and_congr_left fun _ => iff_of_true rfl ?_)
    exact ⟨fun h => absurd h hitems, fun h => absurd h hproperties, fun s _ hs => absurd hs (htext s)⟩

theorem memberDefects_eq_nil_iff {entries : List (Value × Value)} :
    memberDefects path entries = .ok [] ↔ ∀ e ∈ entries, IsSound path e.1 e.2 := by
  induction entries with
  | nil => exact iff_of_true rfl (List.forall_mem_nil _)
  | cons e entries ih =>
      obtain ⟨key, v⟩ := e
      rw [memberDefects_cons_eq_nil_iff, ih, List.forall_mem_cons]

theorem childDefects_cons (e : Value × Value) (entries : List (Value × Value)) :
    childDefects path (e :: entries) =
      do return (← defects (path ++ [e.1]) e.2) ++ (← childDefects path entries) :=
  rfl

theorem childDefects_eq_nil_iff {entries : List (Value × Value)} :
    childDefects path entries = .ok [] ↔ ∀ e ∈ entries, defects (path ++ [e.1]) e.2 = .ok [] := by
  induction entries with
  | nil => exact iff_of_true rfl (List.forall_mem_nil _)
  | cons e entries ih => rw [childDefects_cons, append_eq_nil_iff, ih, List.forall_mem_cons]

theorem unexpected_eq_nil_iff {entries : List (Value × Value)} :
    unexpected path entries = .ok [] ↔ ∀ e ∈ entries, isKeyword e.1 = true := by
  have hkeys : (((entries.map (·.1)).filter fun k => !isKeyword k).isEmpty = true) ↔
      ∀ e ∈ entries, isKeyword e.1 = true := by
    rw [List.isEmpty_iff, List.filter_eq_nil_iff]
    simp
  rw [← hkeys]
  unfold unexpected
  dsimp only
  split
  · rename_i hempty
    exact iff_of_true rfl hempty
  · rename_i hempty
    refine iff_of_false (fun h => ?_) hempty
    obtain ⟨_, -, h⟩ := bind_eq_ok_iff.mp h
    cases h

theorem defects_dict_eq_nil_iff {entries : List (Value × Value)} :
    defects path (.dict entries) = .ok [] ↔
      Value.hasKey (.str "type") entries = true ∧ (∀ e ∈ entries, isKeyword e.1 = true) ∧
        ∀ e ∈ entries, IsSound path e.1 e.2 := by
  have hdefects : defects path (.dict entries) = (do
      let own ← unexpected path entries
      return missingType path entries ++ own ++ (← memberDefects path entries)) := rfl
  rw [hdefects, ← unexpected_eq_nil_iff, ← memberDefects_eq_nil_iff]
  constructor
  · intro h
    obtain ⟨own, hown, h⟩ := bind_eq_ok_iff.mp h
    obtain ⟨others, hothers, h⟩ := bind_eq_ok_iff.mp h
    obtain ⟨hfirst, rfl⟩ := List.append_eq_nil_iff.mp (Except.ok.inj h)
    obtain ⟨hmissing, rfl⟩ := List.append_eq_nil_iff.mp hfirst
    refine ⟨?_, hown, hothers⟩
    unfold missingType at hmissing
    split at hmissing
    · assumption
    · cases hmissing
  · rintro ⟨htype, hown, hothers⟩
    rw [hown, hothers, missingType, if_pos htype]
    rfl

/-- What a definition has to be: a dictionary of keywords with a type, whose values follow the rules of their
keywords, with such dictionaries for its items and its properties. -/
inductive Grammatical : Value → Prop
  | mk {entries : List (Value × Value)} (typed : Value.hasKey (.str "type") entries = true)
      (keywords : ∀ e ∈ entries, isKeyword e.1 = true)
      (rules : ∀ e ∈ entries, ∀ s r, e.1 = .str s → rule? s = some r → r.Allows e.2)
      (items : ∀ e ∈ entries, e.1 = .str "items" → Grammatical e.2)
      (mapped : ∀ e ∈ entries, e.1 = .str "properties" → ∃ ps, e.2 = .dict ps)
      (properties : ∀ e ∈ entries, e.1 = .str "properties" → ∀ ps, e.2 = .dict ps → ∀ p ∈ ps, Grammatical p.2) :
      Grammatical (.dict entries)

theorem propertiesDefects_eq_nil_iff {v : Value} :
    propertiesDefects path v = .ok [] ↔
      ∃ ps, v = .dict ps ∧ ∀ p ∈ ps, defects (path ++ [p.1]) p.2 = .ok [] := by
  cases v with
  | dict ps =>
      refine childDefects_eq_nil_iff.trans ⟨fun h => ⟨ps, rfl, h⟩, ?_⟩
      rintro ⟨_, ⟨⟩, h⟩
      exact h
  | _ =>
      refine iff_of_false (fun h => ?_) (by rintro ⟨_, ⟨⟩, -⟩)
      have hform : Form.object.admits _ = true := wrongTypeOf_eq_nil_iff.mp h
      cases hform

/-- Induction on definitions: the claim holds for the values of the keywords, and for the values in these. -/
@[elab_as_elim]
theorem valueInduction {motive : Value → Prop}
    (dict : ∀ entries, (∀ e ∈ entries, motive e.2) →
      (∀ e ∈ entries, ∀ ps, e.2 = .dict ps → ∀ p ∈ ps, motive p.2) → motive (.dict entries))
    (other : ∀ v, (∀ entries, v ≠ .dict entries) → motive v) (v : Value) : motive v := by
  have h : motive v ∧ ∀ ps, v = .dict ps → ∀ p ∈ ps, motive p.2 := by
    induction v using Value.induction with
    | dict entries ih =>
        have hvalues : ∀ e ∈ entries, motive e.2 := fun e he => (ih e he).2.1
        refine ⟨dict entries hvalues fun e he => (ih e he).2.2, ?_⟩
        rintro _ ⟨⟩
        exact hvalues
    | _ => exact ⟨other _ (by rintro _ ⟨⟩), by rintro _ ⟨⟩⟩
  exact h.1

/-- A definition has no defects exactly if it is grammatical. -/
theorem defects_eq_nil_iff {v : Value} : defects path v = .ok [] ↔ Grammatical v := by
  constructor
  · intro h
    induction v using valueInduction generalizing path with
    | dict entries ih ihMembers =>
        obtain ⟨htyped, hkeywords, hsound⟩ := defects_dict_eq_nil_iff.mp h
        refine .mk htyped hkeywords (fun e he => (hsound e he).rule) (fun e he hkey => ?_) (fun e he hkey => ?_)
          fun e he hkey ps hps p hp => ?_
        · exact ih e he ((hsound e he).items hkey)
        · obtain ⟨ps, hps, -⟩ := propertiesDefects_eq_nil_iff.mp ((hsound e he).properties hkey)
          exact ⟨ps, hps⟩
        · obtain ⟨ps', hps', hall⟩ := propertiesDefects_eq_nil_iff.mp ((hsound e he).properties hkey)
          obtain rfl := Value.dict.inj (hps.symm.trans hps')
          exact ihMembers e he ps hps p hp (hall p hp)
    | other v hv =>
        cases v with
        | dict entries => exact absurd rfl (hv entries)
        | _ =>
            have hform : Form.object.admits _ = true := wrongTypeOf_eq_nil_iff.mp h
            cases hform
  · intro h
    induction h generalizing path with
    | mk typed keywords rules items mapped properties ihItems ihProperties =>
        refine defects_dict_eq_nil_iff.mpr ⟨typed, keywords, fun e he => ⟨fun hkey => ihItems e he hkey,
          fun hkey => ?_, rules e he⟩⟩
        obtain ⟨ps, hps⟩ := mapped e he hkey
        exact propertiesDefects_eq_nil_iff.mpr ⟨ps, hps, fun p hp => ihProperties e he hkey ps hps p hp⟩

theorem worst?_eq_none_iff {ds : List Defect} : worst? ds = .ok none ↔ ds = [] := by
  cases ds with
  | nil => exact iff_of_true rfl rfl
  | cons d ds =>
      refine iff_of_false (fun h => ?_) (by rintro ⟨⟩)
      obtain ⟨_, -, h⟩ := bind_eq_ok_iff.mp h
      cases h

/-- A definition is accepted exactly if it is grammatical. -/
theorem check_eq_ok_iff {v : Value} : check v = .ok () ↔ Grammatical v := by
  have hdefects : defects [] v = .ok [] ↔ Grammatical v := defects_eq_nil_iff
  rw [← hdefects]
  constructor
  · intro h
    obtain ⟨ds, hds, h⟩ := bind_eq_ok_iff.mp h
    obtain ⟨worst, hworst, h⟩ := bind_eq_ok_iff.mp h
    cases worst with
    | none => rw [hds, worst?_eq_none_iff.mp hworst]
    | some d =>
        obtain ⟨_, -, h⟩ := bind_eq_ok_iff.mp h
        cases h
  · intro h
    exact bind_eq_ok_iff.mpr ⟨[], h, rfl⟩

/-! ### Building -/

/-- A schema is built from what a definition binds its keywords to. -/
theorem build_dict (path : String) (entries : List (Value × Value)) :
    build path (.dict entries) =
      match text? entries "type" with
      | some "string" => .ok (wrap entries fun a => .string a (stringFields entries))
      | some "number" => .ok (wrap entries fun a => .number a (numberFields entries))
      | some "integer" => .ok (wrap entries fun a => .integer a (numberFields entries))
      | some "boolean" => .ok (wrap entries fun a => .boolean a)
      | some "array" => do
        match ← buildItems path entries with
        | some items => return wrap entries fun a => .array a (arrayFields entries) items
        | none => throw (.schema .arrayWithoutItems path)
      | _ => do
        let properties ← buildProperties path entries
        return wrap entries fun a => .object a (objectFields entries) properties :=
  rfl

theorem get?_cons_self (key : String) (v : Value) (entries : List (Value × Value)) :
    get? ((.str key, v) :: entries) key = some v := by
  rw [get?, Value.lookup?, List.find?_cons, Value.same_str_left.mpr rfl]
  rfl

theorem get?_cons_of_ne {key : String} {e : Value × Value} (h : e.1 ≠ .str key)
    (entries : List (Value × Value)) : get? (e :: entries) key = get? entries key := by
  have hother : (Value.str key).same e.1 = false := by
    rw [← Bool.not_eq_true, Value.same_str_left]
    exact h
  rw [get?, Value.lookup?, List.find?_cons, hother]
  rfl

/-- There is a path to what stands under a text. -/
theorem exists_step_str (path name : String) : ∃ below, step path (.str name) = .ok below := by
  by_cases hpath : path.isEmpty = true
  · exact ⟨_, if_pos hpath⟩
  · exact ⟨_, if_neg hpath⟩

/-- The items are built from what stands under their keyword. -/
theorem buildItems_eq (path : String) (entries : List (Value × Value)) :
    buildItems path entries =
      match get? entries "items" with
      | some v => do return some (← build (← step path (.str "items")) v)
      | none => .ok none := by
  induction entries with
  | nil => rfl
  | cons e entries ih =>
      obtain ⟨key, v⟩ := e
      rw [buildItems.eq_def]
      dsimp only
      split
      · rw [get?_cons_self]
      · rename_i hkey
        rw [get?_cons_of_ne hkey, ih]

/-- The properties are built from the dictionary under their keyword, if there is one. -/
theorem buildProperties_eq (path : String) (entries : List (Value × Value)) :
    buildProperties path entries =
      match get? entries "properties" with
      | some v => buildMembers path v
      | none => .ok [] := by
  induction entries with
  | nil => rfl
  | cons e entries ih =>
      obtain ⟨key, v⟩ := e
      rw [buildProperties.eq_def]
      dsimp only
      split
      · rw [get?_cons_self]
      · rename_i hkey
        rw [get?_cons_of_ne hkey, ih]

/-- Each property is built from its definition, under a path of its own. -/
theorem buildChildren_eq_ok {path : String} {entries : List (Value × Value)} {ps : List (Value × Schema)} :
    buildChildren path entries = .ok ps ↔
      List.Forall₂ (fun e p => p.1 = e.1 ∧ ∃ below, step path e.1 = .ok below ∧ build below e.2 = .ok p.2)
        entries ps := by
  induction entries generalizing ps with
  | nil =>
      rw [List.forall₂_nil_left_iff]
      exact ⟨fun h => (Except.ok.inj h).symm, fun h => h ▸ rfl⟩
  | cons e entries ih =>
      obtain ⟨key, v⟩ := e
      rw [List.forall₂_cons_left_iff]
      constructor
      · intro h
        obtain ⟨below, hbelow, h⟩ := bind_eq_ok_iff.mp h
        obtain ⟨s, hs, h⟩ := bind_eq_ok_iff.mp h
        obtain ⟨ps', hps', h⟩ := bind_eq_ok_iff.mp h
        exact ⟨(key, s), ps', ⟨rfl, below, hbelow, hs⟩, ih.mp hps', (Except.ok.inj h).symm⟩
      · rintro ⟨⟨_, s⟩, ps', ⟨rfl, below, hbelow, hs⟩, hps', rfl⟩
        exact bind_eq_ok_iff.mpr ⟨below, hbelow, bind_eq_ok_iff.mpr ⟨s, hs,
          bind_eq_ok_iff.mpr ⟨ps', ih.mpr hps', rfl⟩⟩⟩

/-! ### What grammatical definitions bind -/

namespace Grammatical

variable {entries : List (Value × Value)} {key : String} {v : Value}

theorem texts (h : Grammatical (.dict entries)) : ∀ e ∈ entries, ∃ key, e.1 = .str key := by
  intro e he
  cases h with
  | mk typed keywords rules items mapped properties =>
      have hkeyword := keywords e he
      obtain ⟨k, v⟩ := e
      cases k with
      | str s => exact ⟨s, rfl⟩
      | _ => cases hkeyword

theorem isKeyword_of_get? (h : Grammatical (.dict entries)) (hget : get? entries key = some v) :
    isKeyword (.str key) = true := by
  cases h with
  | mk typed keywords rules items mapped properties => exact keywords _ (Value.mem_of_lookup?_str hget)

/-- What a keyword is bound to follows the rule of the keyword. -/
theorem allows (h : Grammatical (.dict entries)) {r : Rule} (hr : rule? key = some r)
    (hget : get? entries key = some v) : r.Allows v := by
  cases h with
  | mk typed keywords rules items mapped properties =>
      exact rules _ (Value.mem_of_lookup?_str hget) key r rfl hr

theorem exists_kind (h : Grammatical (.dict entries)) : ∃ kind ∈ kinds, get? entries "type" = some (.str kind) := by
  have htyped : (get? entries "type").isSome = true := by
    cases h with
    | mk typed keywords rules items mapped properties =>
        rw [← Value.lookup?_isSome] at typed
        exact typed
  obtain ⟨v, hv⟩ := Option.isSome_iff_exists.mp htyped
  obtain ⟨kind, hkind, rfl⟩ := (h.allows rfl hv).limits (.oneOf kinds) List.mem_cons_self
  exact ⟨kind, hkind, hv⟩

/-- A keyword of a type of its own is not bound to null. -/
theorem set?_eq (h : Grammatical (.dict entries)) {form : Form} {limits : List Limit}
    (hr : rule? key = some ⟨some form, limits⟩) : set? entries key = get? entries key := by
  rw [set?]
  cases hget : get? entries key with
  | none => rfl
  | some v =>
      have hform := (h.allows hr hget).form form rfl
      have hnull : v.isNull = false := by
        cases v with
        | null => cases form <;> cases hform
        | _ => rfl
      rw [Option.filter_some, hnull]
      rfl

theorem get?_eq_text (h : Grammatical (.dict entries)) {limits : List Limit}
    (hr : rule? key = some ⟨some .string, limits⟩) : get? entries key = (text? entries key).map .str := by
  rw [text?]
  cases hget : get? entries key with
  | none => rfl
  | some v =>
      obtain ⟨s, rfl⟩ := Form.admits_string_iff.mp ((h.allows hr hget).form .string rfl)
      rfl

theorem get?_eq_items (h : Grammatical (.dict entries)) {limits : List Limit}
    (hr : rule? key = some ⟨some .array, limits⟩) : get? entries key = (items? entries key).map .list := by
  rw [items?]
  cases hget : get? entries key with
  | none => rfl
  | some v =>
      have hform := (h.allows hr hget).form .array rfl
      cases v with
      | list xs => rfl
      | _ => cases hform

/-- A flag that is bound is bound to its truth value. -/
theorem eq_flag_of_get? (h : Grammatical (.dict entries)) {limits : List Limit}
    (hr : rule? key = some ⟨some .boolean, limits⟩) (hget : get? entries key = some v) :
    v = .bool (flag entries key) := by
  have hform := (h.allows hr hget).form .boolean rfl
  rw [flag, hget]
  cases v with
  | bool b => rfl
  | _ => cases hform

theorem items (h : Grammatical (.dict entries)) (hget : get? entries "items" = some v) : Grammatical v := by
  cases h with
  | mk typed keywords rules items mapped properties => exact items _ (Value.mem_of_lookup?_str hget) rfl

theorem properties (h : Grammatical (.dict entries)) (hget : get? entries "properties" = some v) :
    ∃ ps, v = .dict ps ∧ ∀ p ∈ ps, Grammatical p.2 := by
  cases h with
  | mk typed keywords rules items mapped properties =>
      have hmem := Value.mem_of_lookup?_str hget
      obtain ⟨ps, hps⟩ := mapped _ hmem rfl
      exact ⟨ps, hps, properties _ hmem rfl ps hps⟩

end Grammatical

end Definition

/-- A definition describes a schema exactly if it is grammatical and the schema can be built. -/
theorem Schema.ofDefinition_eq_ok {definition : Value} {s : Schema} :
    ofDefinition definition = .ok s ↔
      Definition.Grammatical definition ∧ Definition.build "" definition = .ok s := by
  rw [← Definition.check_eq_ok_iff]
  cases definition with
  | dict entries =>
      constructor
      · intro h
        obtain ⟨_, hcheck, hbuild⟩ := bind_eq_ok_iff.mp h
        exact ⟨hcheck, hbuild⟩
      · rintro ⟨hcheck, hbuild⟩
        exact bind_eq_ok_iff.mpr ⟨(), hcheck, hbuild⟩
  | _ =>
      refine iff_of_false (by rintro ⟨⟩) ?_
      rintro ⟨-, ⟨⟩⟩

end ApiContract
