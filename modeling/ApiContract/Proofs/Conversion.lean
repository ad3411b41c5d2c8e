import ApiContract.Proofs.NumeralText
import ApiContract.Proofs.Satisfaction
import ApiContract.Proofs.WellFormed

/-!
# Converting twice

For each kind of node one lemma says what a conversion gives. From these: what has been converted is left
as it is by a second conversion (`convert_convert`), because no conversion makes the text `null` of
anything else (`eq_null_text_of_convert`).
-/

namespace ApiContract

/-! ### Numbers are not written as null -/

theorem Numeral.intChars_ne_null (n : Int) : intChars n ≠ "null".toList := by
  intro h
  unfold intChars at h
  split at h
  · cases (List.cons.inj h).1
  · have hdigits := ofDigits?_digits n.natAbs
    rw [h] at hdigits
    cases hdigits

/-- The text of a number that is not zero has a point or an exponent. -/
theorem Binary64.Layout.mark_mem_digitsText (layout : Layout) (digits : String) (leading : Int) :
    '.' ∈ (layout.digitsText digits leading).toList ∨
      'e' ∈ (layout.digitsText digits leading).toList := by
  unfold digitsText
  dsimp only
  split_ifs <;> simp

theorem Binary64.text_ne_null {x : Binary64} (h : x.isFinite = true) : x.text ≠ "null" := by
  have hmark : '.' ∈ x.text.toList ∨ 'e' ∈ x.text.toList := by
    cases x with
    | nan => cases h
    | infinite s => cases h
    | finite s m e =>
        unfold text Layout.text
        dsimp only
        split
        · left
          simp
        · rw [String.toList_append, List.mem_append, List.mem_append]
          rcases Layout.mark_mem_digitsText plainLayout _ _ with hpoint | hexponent
          · exact .inl (.inr hpoint)
          · exact .inr (.inr hexponent)
  intro hnull
  rw [hnull] at hmark
  revert hmark
  decide

/-! ### Leaves -/

namespace Convert

/-- Conversion toward a number gives the value itself, an integer, or a number with a fraction where these
are admitted. -/
theorem number_cases {integral : Bool} {v w : Value} (h : number integral v = .ok w) :
    w = v ∨ (∃ n, w = .int n) ∨ (integral = false ∧ ∃ x, w = .float x) := by
  cases v with
  | str s =>
      rcases numberOfText_cases h with hkept | ⟨-, n, -, hint⟩ | ⟨-, x, -, rfl⟩
      · exact .inl hkept
      · exact .inr (.inl ⟨n, hint⟩)
      · rcases admitted_cases integral s x with hkept | ⟨n, -, hint⟩ | ⟨hintegral, -, hfloat⟩
        · exact .inl hkept
        · exact .inr (.inl ⟨n, hint⟩)
        · exact .inr (.inr ⟨hintegral, x, hfloat⟩)
  | float x =>
      rcases number_float integral x with hkept | ⟨n, -, hint⟩
      · exact .inl (Except.ok.inj (h.symm.trans hkept))
      · exact .inr (.inl ⟨n, Except.ok.inj (h.symm.trans hint)⟩)
  | _ => exact .inl (Except.ok.inj h).symm

theorem number_number {integral : Bool} {v w : Value} (h : number integral v = .ok w) :
    number integral w = .ok w := by
  rcases number_cases h with rfl | ⟨n, rfl⟩ | ⟨rfl, x, rfl⟩
  · exact h
  · rfl
  · rfl

/-- Conversion toward a truth value gives the value itself or a truth value. -/
theorem boolean_cases (v : Value) : boolean v = v ∨ ∃ b, boolean v = .bool b := by
  cases v with
  | str s =>
      unfold boolean
      dsimp only
      split_ifs
      · exact .inr ⟨_, rfl⟩
      · exact .inr ⟨_, rfl⟩
      · exact .inl rfl
  | int n =>
      unfold boolean
      dsimp only
      split_ifs
      · exact .inr ⟨_, rfl⟩
      · exact .inr ⟨_, rfl⟩
      · exact .inl rfl
  | _ => exact .inl rfl

theorem boolean_boolean (v : Value) : boolean (boolean v) = boolean v := by
  rcases boolean_cases v with h | ⟨b, h⟩
  · rw [h, h]
  · rw [h]
    rfl

/-- Conversion toward a text gives the value itself or a text, and a text that was none before does not
read `null`. -/
theorem string_cases {v w : Value} (h : string v = .ok w) :
    w = v ∨ ∃ s, w = .str s ∧ s ≠ "null" := by
  cases v with
  | bool b =>
      cases h
      cases b
      · exact .inr ⟨_, rfl, by decide⟩
      · exact .inr ⟨_, rfl, by decide⟩
  | int n =>
      obtain ⟨s, hs, h⟩ := bind_eq_ok_iff.mp h
      cases h
      refine .inr ⟨s, rfl, ?_⟩
      rintro rfl
      unfold intText at hs
      split_ifs at hs
      · have hchars := congrArg String.toList (Except.ok.inj hs)
        rw [String.toList_ofList] at hchars
        exact Numeral.intChars_ne_null n hchars
  | float x =>
      obtain rfl := Except.ok.inj h
      split_ifs with hfinite
      · exact .inr ⟨_, rfl, Binary64.text_ne_null hfinite⟩
      · exact .inl rfl
  | _ =>
      cases h
      exact .inl rfl

theorem string_string {v w : Value} (h : string v = .ok w) : string w = .ok w := by
  rcases string_cases h with rfl | ⟨s, rfl, -⟩
  · exact h
  · rfl

/-- What a leaf makes of a value: the value itself, or a scalar that does not read `null`. -/
def KeepsOrMakes (v w : Value) : Prop := w = v ∨ (w ≠ .str "null" ∧ w.WellFormed)

theorem KeepsOrMakes.eq_null_text {v : Value} (h : KeepsOrMakes v (.str "null")) : v = .str "null" := by
  rcases h with hkept | ⟨hmade, -⟩
  · exact hkept.symm
  · exact absurd rfl hmade

theorem KeepsOrMakes.wellFormed {v w : Value} (h : KeepsOrMakes v w) (hv : v.WellFormed) :
    w.WellFormed := by
  rcases h with rfl | ⟨-, hmade⟩
  · exact hv
  · exact hmade

theorem keepsOrMakes_number {integral : Bool} {v w : Value} (h : number integral v = .ok w) :
    KeepsOrMakes v w := by
  rcases number_cases h with rfl | ⟨n, rfl⟩ | ⟨-, x, rfl⟩
  · exact .inl rfl
  · exact .inr ⟨by simp, trivial⟩
  · exact .inr ⟨by simp, trivial⟩

theorem keepsOrMakes_boolean (v : Value) : KeepsOrMakes v (boolean v) := by
  rcases boolean_cases v with h | ⟨b, h⟩
  · exact .inl h
  · rw [h]
    exact .inr ⟨by simp, trivial⟩

theorem keepsOrMakes_string {v w : Value} (h : string v = .ok w) : KeepsOrMakes v w := by
  rcases string_cases h with rfl | ⟨s, rfl, hne⟩
  · exact .inl rfl
  · refine .inr ⟨?_, trivial⟩
    intro hs
    exact hne (Value.str.inj hs)

end Convert

namespace Schema

variable {textual : Bool}

/-! ### Nodes -/

theorem exists_of_property? {key : Value} {ps : List (Value × Schema)} {s : Schema}
    (h : property? key ps = some s) : ∃ p ∈ ps, p.2 = s := by
  obtain ⟨p, hp, rfl⟩ := Option.map_eq_some_iff.mp h
  exact ⟨p, List.mem_of_find?_eq_some hp, rfl⟩

theorem convertProperty_eq (ps : List (Value × Schema)) (key item : Value) :
    convertProperty textual ps key item =
      match property? key ps with
      | some s => s.convert textual item
      | none => .ok item := by
  induction ps with
  | nil => rfl
  | cons p ps ih =>
      obtain ⟨name, s⟩ := p
      -- one step of the search, which the recursion over schemas hides
      show (if key.same name then s.convert textual item else convertProperty textual ps key item) = _
      rw [ih, property?, property?, List.find?_cons]
      dsimp only
      cases key.same name <;> rfl

/-- Entries before and after conversion: the keys stay, and the items of declared keys are converted. -/
def EntriesConverted (textual : Bool) (ps : List (Value × Schema))
    (entries converted : List (Value × Value)) : Prop :=
  List.Forall₂ (fun e e' => e'.1 = e.1 ∧ convertProperty textual ps e.1 e.2 = .ok e'.2)
    entries converted

theorem EntriesConverted.keys {ps : List (Value × Schema)} {entries converted : List (Value × Value)}
    (h : EntriesConverted textual ps entries converted) :
    converted.map (·.1) = entries.map (·.1) := by
  induction h with
  | nil => rfl
  | cons hhead _ ih => rw [List.map_cons, List.map_cons, hhead.1, ih]

theorem convert_dict_eq_ok {a : Annotations} {f : ObjectFields} {ps : List (Value × Schema)}
    {entries : List (Value × Value)} {w : Value} :
    (Schema.object a f ps).convert textual (.dict entries) = .ok w ↔
      ∃ converted, w = .dict converted ∧ EntriesConverted textual ps entries converted := by
  have hstep (e e' : Value × Value) :
      (do return (e.1, ← convertProperty textual ps e.1 e.2) : Except Fault (Value × Value)) = .ok e' ↔
        e'.1 = e.1 ∧ convertProperty textual ps e.1 e.2 = .ok e'.2 := by
    rw [bind_eq_ok_iff]
    constructor
    · rintro ⟨item, hitem, h⟩
      cases h
      exact ⟨rfl, hitem⟩
    · rintro ⟨hkey, hitem⟩
      exact ⟨e'.2, hitem, congrArg Except.ok (Prod.ext hkey.symm rfl)⟩
  constructor
  · intro h
    obtain ⟨converted, hconverted, hw⟩ := bind_eq_ok_iff.mp h
    rw [mapM_eq_ok_iff] at hconverted
    exact ⟨converted, (Except.ok.inj hw).symm, hconverted.imp fun e e' => (hstep e e').mp⟩
  · rintro ⟨converted, rfl, hconverted⟩
    have hmapM := mapM_eq_ok_iff.mpr (hconverted.imp fun e e' => (hstep e e').mpr)
    exact bind_eq_ok_iff.mpr ⟨converted, hmapM, rfl⟩

/-- The entries of an object are converted if each of them is. -/
theorem exists_convert_dict (a : Annotations) (f : ObjectFields) {ps : List (Value × Schema)}
    {entries : List (Value × Value)}
    (h : ∀ e ∈ entries, ∃ item, convertProperty textual ps e.1 e.2 = .ok item) :
    ∃ converted, (Schema.object a f ps).convert textual (.dict entries) = .ok (.dict converted) := by
  have hmember : ∀ e ∈ entries, ∃ member,
      (do return (e.1, ← convertProperty textual ps e.1 e.2)) = Except.ok member := by
    intro e he
    obtain ⟨item, hitem⟩ := h e he
    exact ⟨_, bind_eq_ok_iff.mpr ⟨item, hitem, rfl⟩⟩
  obtain ⟨converted, hconverted⟩ := exists_mapM_eq_ok hmember
  exact ⟨converted, bind_eq_ok_iff.mpr ⟨converted, hconverted, rfl⟩⟩

/-- The items of a list or tuple are converted one by one; a single value may stand for an array. -/
theorem convert_array (a : Annotations) (f : ArrayFields) (items : Schema) (v : Value) :
    (Schema.array a f items).convert textual v =
      match v.items? with
      | some xs => do return .list (← xs.mapM (items.convert textual))
      | none =>
        if textual && standsAlone v then do return .list [← items.convert textual v]
        else .ok v :=
  rfl

theorem convert_items_eq_ok {a : Annotations} {f : ArrayFields} {items : Schema} {v w : Value}
    {xs : List Value} (hv : v.items? = some xs) :
    (Schema.array a f items).convert textual v = .ok w ↔
      ∃ ys, w = .list ys ∧ List.Forall₂ (fun x y => items.convert textual x = .ok y) xs ys := by
  rw [convert_array, hv]
  dsimp only
  rw [bind_eq_ok_iff]
  simp only [mapM_eq_ok_iff]
  constructor
  · rintro ⟨ys, h, hw⟩
    exact ⟨ys, (Except.ok.inj hw).symm, h⟩
  · rintro ⟨ys, rfl, h⟩
    exact ⟨ys, h, rfl⟩

/-- A single value becomes an array of one. -/
theorem convert_single_eq_ok {a : Annotations} {f : ArrayFields} {items : Schema} {v w : Value}
    (hv : v.items? = none) (halone : (textual && standsAlone v) = true) :
    (Schema.array a f items).convert textual v = .ok w ↔
      ∃ y, w = .list [y] ∧ items.convert textual v = .ok y := by
  rw [convert_array, hv]
  dsimp only
  rw [if_pos halone, bind_eq_ok_iff]
  constructor
  · rintro ⟨y, h, hw⟩
    exact ⟨y, (Except.ok.inj hw).symm, h⟩
  · rintro ⟨y, rfl, h⟩
    exact ⟨y, h, rfl⟩

theorem convert_array_of_other {a : Annotations} {f : ArrayFields} {items : Schema} {v : Value}
    (hv : v.items? = none) (halone : (textual && standsAlone v) = false) :
    (Schema.array a f items).convert textual v = .ok v := by
  rw [convert_array, hv]
  dsimp only
  rw [halone]
  rfl

/-- Whether a nullable node reads a text as null. -/
def readsNull (textual : Bool) (inner : Schema) (v : Value) : Bool :=
  textual && isNullText v && !inner.unwrap.isText

theorem eq_null_text_of_readsNull {inner : Schema} {v : Value}
    (h : readsNull textual inner v = true) : v = .str "null" := by
  simp only [readsNull, Bool.and_eq_true] at h
  cases v with
  | str s => rw [eq_of_beq h.1.2]
  | _ => cases h.1.2

theorem convert_nullable {a : Annotations} {inner : Schema} {v : Value} (hv : v ≠ .null) :
    (Schema.nullable a inner).convert textual v =
      if readsNull textual inner v then .ok .null else inner.convert textual v := by
  cases v with
  | null => exact absurd rfl hv
  | _ => rfl

@[simp] theorem convert_null (s : Schema) : s.convert textual .null = .ok .null := by
  induction s using Schema.induction with
  | array a f items ih => exact convert_array_of_other rfl (by simp [standsAlone])
  | refined a r base ih => exact ih
  | _ => rfl

/-! ### Converting what has been converted -/

/-- No conversion makes the text `null` of anything else. -/
theorem eq_null_text_of_convert {s : Schema} {v : Value}
    (h : s.convert textual v = .ok (.str "null")) : v = .str "null" := by
  induction s using Schema.induction generalizing v with
  | string a f => exact (Convert.keepsOrMakes_string h).eq_null_text
  | number a f => exact (Convert.keepsOrMakes_number h).eq_null_text
  | integer a f => exact (Convert.keepsOrMakes_number h).eq_null_text
  | boolean a =>
      have hmade := Convert.keepsOrMakes_boolean v
      rw [Except.ok.inj h] at hmade
      exact hmade.eq_null_text
  | array a f items ih =>
      cases hv : v.items? with
      | some xs =>
          obtain ⟨ys, hw, -⟩ := (convert_items_eq_ok hv).mp h
          cases hw
      | none =>
          cases halone : textual && standsAlone v with
          | true =>
              obtain ⟨y, hw, -⟩ := (convert_single_eq_ok hv halone).mp h
              cases hw
          | false => exact Except.ok.inj ((convert_array_of_other hv halone).symm.trans h)
  | object a f ps ih =>
      cases v with
      | dict entries =>
          obtain ⟨converted, hw, -⟩ := convert_dict_eq_ok.mp h
          cases hw
      | _ => exact Except.ok.inj h
  | nullable a inner ih =>
      by_cases hv : v = .null
      · rw [hv, convert_null] at h
        cases h
      · rw [convert_nullable hv] at h
        split_ifs at h
        · cases h
        · exact ih h
  | refined a r base ih => exact ih h
  | bare a => exact Except.ok.inj h
  | foreign w => exact Except.ok.inj h

/-- What has been converted is left as it is. -/
theorem convert_convert {s : Schema} {v w : Value} (h : s.convert textual v = .ok w) :
    s.convert textual w = .ok w := by
  induction s using Schema.induction generalizing v w with
  | string a f => exact Convert.string_string h
  | number a f => exact Convert.number_number h
  | integer a f => exact Convert.number_number h
  | boolean a =>
      obtain rfl := Except.ok.inj h
      exact congrArg Except.ok (Convert.boolean_boolean v)
  | array a f items ih =>
      cases hv : v.items? with
      | some xs =>
          obtain ⟨ys, rfl, hys⟩ := (convert_items_eq_ok hv).mp h
          -- the result is a list whatever the items came in, so the second conversion goes item by item
          refine (convert_items_eq_ok rfl).mpr ⟨ys, rfl, List.forall₂_same.mpr fun y hy => ?_⟩
          obtain ⟨x, -, hxy⟩ := exists_left_of_forall₂ hys hy
          exact ih hxy
      | none =>
          cases halone : textual && standsAlone v with
          | true =>
              obtain ⟨y, rfl, hy⟩ := (convert_single_eq_ok hv halone).mp h
              -- the second conversion finds a list of one, not a single value
              exact (convert_items_eq_ok rfl).mpr ⟨[y], rfl, .cons (ih hy) .nil⟩
          | false =>
              have hw := h
              rw [convert_array_of_other hv halone] at hw
              obtain rfl := Except.ok.inj hw
              exact h
  | object a f ps ih =>
      cases v with
      | dict entries =>
          obtain ⟨converted, rfl, hconverted⟩ := convert_dict_eq_ok.mp h
          refine convert_dict_eq_ok.mpr ⟨converted, rfl, List.forall₂_same.mpr ?_⟩
          intro e' he'
          refine ⟨rfl, ?_⟩
          obtain ⟨e, -, hkey, hitem⟩ := exists_left_of_forall₂ hconverted he'
          rw [convertProperty_eq] at hitem ⊢
          rw [hkey]
          cases hs : property? e.1 ps with
          | none => rfl
          | some s =>
              rw [hs] at hitem
              obtain ⟨p, hp, rfl⟩ := exists_of_property? hs
              exact ih p hp hitem
      | _ =>
          obtain rfl := Except.ok.inj h
          exact h
  | nullable a inner ih =>
      by_cases hv : v = .null
      · rw [hv, convert_null] at h
        obtain rfl := Except.ok.inj h
        exact convert_null _
      · rw [convert_nullable hv] at h
        cases hreads : readsNull textual inner v with
        | true =>
            rw [hreads, if_pos rfl] at h
            obtain rfl := Except.ok.inj h
            exact convert_null _
        | false =>
            rw [hreads, if_neg Bool.false_ne_true] at h
            by_cases hw : w = .null
            · rw [hw, convert_null]
            · -- a result that reads `null` was there before, and then it was not read as null
              have hsame : readsNull textual inner w = false := by
                rw [Bool.eq_false_iff]
                intro hnull
                obtain rfl := eq_null_text_of_readsNull hnull
                obtain rfl := eq_null_text_of_convert h
                rw [hreads] at hnull
                cases hnull
              rw [convert_nullable hw, hsame]
              exact ih h
  | refined a r base ih => exact ih h
  | bare a =>
      obtain rfl := Except.ok.inj h
      exact h
  | foreign u =>
      obtain rfl := Except.ok.inj h
      exact h

/-! ### What conversion keeps -/

/-- An absent value is not converted to anything that satisfies a schema. -/
theorem not_satisfies_of_convert_absent {s : Schema} {w : Value}
    (h : s.convert textual .absent = .ok w) : w ≠ .null ∧ ¬ s.Satisfies w := by
  -- most conversions hand on what is absent
  have hkept {s : Schema} {w : Value} (hw : Value.absent = w) : w ≠ .null ∧ ¬ s.Satisfies w := by
    subst hw
    exact ⟨by simp, not_satisfies_absent s⟩
  induction s using Schema.induction generalizing w with
  | array a f items ih =>
      cases textual with
      | true =>
          obtain ⟨y, rfl, hy⟩ := (convert_single_eq_ok rfl rfl).mp h
          refine ⟨by simp, ?_⟩
          rintro ⟨xs, hxs, -, hitems⟩
          cases hxs
          exact (ih hy).2 (hitems y List.mem_cons_self)
      | false => exact hkept (Except.ok.inj h)
  | nullable a inner ih =>
      have hreads : readsNull textual inner .absent = false := by
        simp [readsNull, isNullText]
      rw [convert_nullable (v := .absent) (by simp), hreads, if_neg Bool.false_ne_true] at h
      refine ⟨(ih h).1, ?_⟩
      rintro (hnull | hsat)
      · exact (ih h).1 hnull
      · exact (ih h).2 hsat
  | refined a r base ih => exact ⟨(ih h).1, fun hsat => (ih h).2 hsat.1⟩
  | _ => exact hkept (Except.ok.inj h)

/-- Converting a well-formed value gives a well-formed value. -/
theorem wellFormed_convert {s : Schema} {v w : Value} (h : s.convert textual v = .ok w)
    (hv : v.WellFormed) : w.WellFormed := by
  induction s using Schema.induction generalizing v w with
  | string a f => exact (Convert.keepsOrMakes_string h).wellFormed hv
  | number a f => exact (Convert.keepsOrMakes_number h).wellFormed hv
  | integer a f => exact (Convert.keepsOrMakes_number h).wellFormed hv
  | boolean a =>
      obtain rfl := Except.ok.inj h
      exact (Convert.keepsOrMakes_boolean v).wellFormed hv
  | array a f items ih =>
      cases hitems : v.items? with
      | some xs =>
          obtain ⟨ys, rfl, hys⟩ := (convert_items_eq_ok hitems).mp h
          refine Value.wellFormed_list.mpr fun y hy => ?_
          obtain ⟨x, hx, hxy⟩ := exists_left_of_forall₂ hys hy
          exact ih hxy (hv.items hitems x hx)
      | none =>
          cases halone : textual && standsAlone v with
          | true =>
              obtain ⟨y, rfl, hy⟩ := (convert_single_eq_ok hitems halone).mp h
              refine Value.wellFormed_list.mpr fun z hz => ?_
              obtain rfl := List.mem_singleton.mp hz
              exact ih hy hv
          | false =>
              rw [convert_array_of_other hitems halone] at h
              rwa [← Except.ok.inj h]
  | object a f ps ih =>
      cases v with
      | dict entries =>
          obtain ⟨converted, rfl, hconverted⟩ := convert_dict_eq_ok.mp h
          obtain ⟨hdiffer, hvalues⟩ := Value.wellFormed_dict.mp hv
          refine Value.wellFormed_dict.mpr ⟨hdiffer.congr hconverted.keys, fun e' he' => ?_⟩
          obtain ⟨e, he, -, hitem⟩ := exists_left_of_forall₂ hconverted he'
          rw [convertProperty_eq] at hitem
          cases hs : property? e.1 ps with
          | none =>
              rw [hs] at hitem
              rw [← Except.ok.inj hitem]
              exact hvalues e he
          | some s =>
              rw [hs] at hitem
              obtain ⟨p, hp, rfl⟩ := exists_of_property? hs
              exact ih p hp hitem (hvalues e he)
      | _ =>
          obtain rfl := Except.ok.inj h
          exact hv
  | nullable a inner ih =>
      by_cases hnull : v = .null
      · rw [hnull, convert_null] at h
        rw [← Except.ok.inj h]
        trivial
      · rw [convert_nullable hnull] at h
        split_ifs at h
        · rw [← Except.ok.inj h]
          trivial
        · exact ih h hv
  | refined a r base ih => exact ih h hv
  | bare a =>
      obtain rfl := Except.ok.inj h
      exact hv
  | foreign u =>
      obtain rfl := Except.ok.inj h
      exact hv

end Schema

end ApiContract
