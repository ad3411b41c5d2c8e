import ApiContract.Proofs.CanonicalText
import ApiContract.Proofs.ValueEquality

/-!
# Values with a JSON text

A value has a JSON text if it is made of null, truth values, numbers, texts, lists, tuples and dictionaries
with scalar keys, and if its integers have a decimal text (`isSerializable_iff`). Equal values have JSON
texts together (`isSerializable_of_same`): an integer that is equal to a double is not too long.
-/

namespace ApiContract

namespace Value

/-- A key that can be written as the name of a member. -/
def WritableKey : Value → Prop
  | .null | .bool _ | .str _ | .float _ => True
  | .int n => Numeral.withinLimit n = true
  | _ => False

/-- A value of a kind that can be written, apart from what is in it. -/
def WritableForm : Value → Prop
  | .null | .bool _ | .str _ | .float _ | .list _ | .tuple _ => True
  | .int n => Numeral.withinLimit n = true
  | .dict entries => ∀ e ∈ entries, e.1.WritableKey
  | _ => False

/-- What a value in memory is made of: a dictionary binds each key once, and a float is a double. -/
def GenuineForm : Value → Prop
  | .dict entries => KeysDiffer entries ∧ ∀ e ∈ entries, ∀ x, e.1 = .float x → x.IsDouble
  | .float x => x.IsDouble
  | _ => True

/-- A value as it is in memory. -/
def Genuine (v : Value) : Prop := v.Everywhere GenuineForm

end Value

namespace Json

open Value (WritableKey WritableForm)

/-- One line, in which a value without a JSON form is refused. -/
def plainStyle : Style := { ascii := true, spaced := true }

theorem exists_keyText_iff {key : Value} : (∃ name, keyText plainStyle key = .ok name) ↔ key.WritableKey := by
  cases key with
  | null => exact iff_of_true ⟨_, rfl⟩ trivial
  | bool b => exact iff_of_true ⟨_, rfl⟩ trivial
  | str s => exact iff_of_true ⟨_, rfl⟩ trivial
  | int n => exact intText_eq_ok_iff
  | float x =>
      refine iff_of_true ?_ trivial
      show ∃ name, floatText plainStyle x = .ok name
      unfold floatText
      split
      · exact ⟨_, rfl⟩
      · exact ⟨_, rfl⟩
  | _ => exact iff_of_false (by rintro ⟨_, h⟩; cases h) id

theorem exists_writeMember_iff {level : Nat} {e : Value × Value} :
    (∃ m, writeMember plainStyle level e = .ok m) ↔
      e.1.WritableKey ∧ ∃ text, writeAt plainStyle level e.2 = .ok text := by
  rw [← exists_keyText_iff, writeMember]
  constructor
  · rintro ⟨m, h⟩
    obtain ⟨name, hname, h⟩ := bind_eq_ok_iff.mp h
    obtain ⟨text, htext, -⟩ := bind_eq_ok_iff.mp h
    exact ⟨⟨name, hname⟩, text, htext⟩
  · rintro ⟨⟨name, hname⟩, text, htext⟩
    exact ⟨_, bind_eq_ok_iff.mpr ⟨name, hname, bind_eq_ok_iff.mpr ⟨text, htext, rfl⟩⟩⟩

theorem exists_writeAt_items_iff {level : Nat} {v : Value} {xs : List Value} (hv : v.items? = some xs) :
    (∃ text, writeAt plainStyle level v = .ok text) ↔
      ∀ x ∈ xs, ∃ text, writeAt plainStyle (level + 1) x = .ok text := by
  rw [← exists_mapM_iff]
  constructor
  · rintro ⟨text, h⟩
    obtain ⟨texts, htexts, -⟩ := (writeAt_items_eq_ok hv).mp h
    exact ⟨texts, mapM_eq_ok_iff.mpr htexts⟩
  · rintro ⟨texts, htexts⟩
    exact ⟨_, (writeAt_items_eq_ok hv).mpr ⟨texts, mapM_eq_ok_iff.mp htexts, rfl⟩⟩

theorem exists_writeAt_dict_iff {level : Nat} {entries : List (Value × Value)} :
    (∃ text, writeAt plainStyle level (.dict entries) = .ok text) ↔
      ∀ e ∈ entries, ∃ m, writeMember plainStyle (level + 1) e = .ok m := by
  rw [← exists_mapM_iff, writeAt, writeMembers_eq]
  constructor
  · rintro ⟨text, h⟩
    obtain ⟨ms, hms, -⟩ := bind_eq_ok_iff.mp h
    exact ⟨ms, hms⟩
  · rintro ⟨ms, hms⟩
    exact ⟨_, bind_eq_ok_iff.mpr ⟨ms, hms, rfl⟩⟩

theorem exists_writeAt_iff {level : Nat} {v : Value} :
    (∃ text, writeAt plainStyle level v = .ok text) ↔ v.Everywhere WritableForm := by
  induction v using Value.induction generalizing level with
  | null => exact iff_of_true ⟨_, rfl⟩ trivial
  | bool b => exact iff_of_true ⟨_, rfl⟩ trivial
  | str s => exact iff_of_true ⟨_, rfl⟩ trivial
  | int n => exact intText_eq_ok_iff
  | float x =>
      have hkey : (∃ text, keyText plainStyle (.float x) = .ok text) ↔ _ := exists_keyText_iff
      exact hkey
  | list xs ih =>
      rw [exists_writeAt_items_iff rfl, Value.everywhere_list]
      exact (forall₂_congr fun x hx => ih x hx).trans (and_iff_right trivial).symm
  | tuple xs ih =>
      rw [exists_writeAt_items_iff rfl, Value.everywhere_tuple]
      exact (forall₂_congr fun x hx => ih x hx).trans (and_iff_right trivial).symm
  | dict entries ih =>
      rw [exists_writeAt_dict_iff, Value.everywhere_dict, WritableForm, ← forall₂_and]
      refine forall₂_congr fun e he => exists_writeMember_iff.trans ?_
      exact and_congr_right fun _ => (ih e he).2
  | set xs =>
      rw [Value.everywhere_set]
      exact iff_of_false (by rintro ⟨_, h⟩; cases h) fun h => h.1
  | _ => exact iff_of_false (by rintro ⟨_, h⟩; cases h) id

/-- A value is serializable if it is made of what can be written. -/
theorem isSerializable_iff {v : Value} : isSerializable v = true ↔ v.Everywhere WritableForm := by
  have htext : (∃ text, writeAt plainStyle 0 v = .ok text) ↔ _ := exists_writeAt_iff
  rw [← htext]
  show (writeAt plainStyle 0 v).toBool = true ↔ _
  cases writeAt plainStyle 0 v with
  | error fault => exact iff_of_false Bool.false_ne_true (by rintro ⟨_, h⟩; cases h)
  | ok text => exact iff_of_true rfl ⟨text, rfl⟩

end Json

/-! ### Equal values -/

namespace Value

open Json (isSerializable isSerializable_iff)

/-- The integer that a genuine number with a text is equal to has a text. -/
theorem withinLimit_of_same {v : Value} {a : Number} (hv : v.number? = some a)
    (hgenuine : ∀ x, v = .float x → x.IsDouble) (hwritable : v.WritableKey) {n : Int}
    (h : a.same (.int n) = true) : Numeral.withinLimit n = true := by
  rw [Number.same_iff] at h
  obtain ⟨p, q, hratio, hcross⟩ : ∃ p q, a.ratio? = some (p, q) ∧ p = n * q := by
    rcases h with ⟨negative, -, h⟩ | ⟨p, q, r, s, ha, hn, hcross⟩
    · cases h
    · cases hn
      exact ⟨p, q, ha, by simpa using hcross⟩
  cases v with
  | bool b =>
      cases hv
      obtain ⟨rfl, rfl⟩ := Prod.mk.inj (Option.some.inj hratio)
      obtain rfl : (if b then 1 else 0) = n := by simpa using hcross
      cases b with
      | true => exact Numeral.withinLimit_of_lt (by decide)
      | false => exact Numeral.withinLimit_of_lt (by decide)
  | int m =>
      cases hv
      obtain ⟨rfl, rfl⟩ := Prod.mk.inj (Option.some.inj hratio)
      obtain rfl : m = n := by simpa using hcross
      exact hwritable
  | float x =>
      cases hv
      have hq : (q : Int) ≠ 0 := by exact_mod_cast (Number.ratio?_snd_pos hratio).ne'
      refine Binary64.withinLimit_of_toInt? (hgenuine x rfl) ?_
      have hratio : x.ratio? = some (p, q) := hratio
      unfold Binary64.toInt?
      rw [hratio, Option.bind_eq_bind, Option.bind_some]
      dsimp only
      rw [hcross, Int.mul_emod_left, if_pos rfl, Int.mul_ediv_cancel _ hq]
  | _ => cases hv

theorem WritableKey.kind {key : Value} (h : key.WritableKey) :
    key = .null ∨ (∃ s, key = .str s) ∨ ∃ a, key.number? = some a := by
  cases key with
  | null => exact .inl rfl
  | str s => exact .inr (.inl ⟨s, rfl⟩)
  | bool b => exact .inr (.inr ⟨_, rfl⟩)
  | int n => exact .inr (.inr ⟨_, rfl⟩)
  | float x => exact .inr (.inr ⟨_, rfl⟩)
  | _ => cases h

theorem same_null {v : Value} : Value.null.same v = true ↔ v = .null := by
  cases v <;> simp [same]

/-- Keys that are equal to one key are equal to each other. -/
theorem same_of_same_of_same {key key' other : Value} (hkey : key.WritableKey) (hkey' : key'.WritableKey)
    (h : key.same other = true) (h' : key'.same other = true) : key'.same key = true := by
  rcases hkey.kind with rfl | ⟨s, rfl⟩ | ⟨a, ha⟩
  · obtain rfl := same_null.mp h
    exact h'
  · rw [same_str_left] at h
    rwa [h] at h'
  · obtain ⟨b, hb, hab⟩ := (same_of_number? ha).mp h
    rcases hkey'.kind with rfl | ⟨s, rfl⟩ | ⟨a', ha'⟩
    · rw [same_null.mp h'] at hb
      cases hb
    · rw [same_str_left.mp h'] at hb
      cases hb
    · obtain ⟨b', hb', hab'⟩ := (same_of_number? ha').mp h'
      obtain rfl := Option.some.inj (hb.symm.trans hb')
      exact (same_of_number? ha').mpr ⟨a, ha, Number.same_trans hab' (Number.same_symm hab)⟩

theorem WritableKey.of_same {key key' : Value} (hkey : key.WritableKey)
    (hgenuine : ∀ x, key = .float x → x.IsDouble) (h : key.same key' = true) : key'.WritableKey := by
  rcases hkey.kind with rfl | ⟨s, rfl⟩ | ⟨a, ha⟩
  · obtain rfl := same_null.mp h
    trivial
  · obtain rfl := same_str_left.mp h
    trivial
  · obtain ⟨b, hb, hab⟩ := (same_of_number? ha).mp h
    cases key' with
    | int n =>
        cases hb
        exact withinLimit_of_same ha hgenuine hkey hab
    | bool b => trivial
    | float x => trivial
    | _ => cases hb

/-- Dictionaries that are equal have their entries in common, whichever comes first. -/
theorem exists_same_entry {es fs : List (Value × Value)} (hkeys : ∀ e ∈ es, e.1.WritableKey)
    (hdiffer : KeysDiffer es) (hlength : es.length = fs.length)
    (h : ∀ e ∈ es, ∃ f ∈ fs, e.1.same f.1 = true ∧ e.2.same f.2 = true) :
    ∀ f ∈ fs, ∃ e ∈ es, e.1.same f.1 = true ∧ e.2.same f.2 = true := by
  refine exists_left_of_length_le hlength.ge h (hdiffer.imp_of_mem ?_)
  intro e e' he he' hne f _ hef hef'
  rw [same_of_same_of_same (hkeys e he) (hkeys e' he') hef.1 hef'.1] at hne
  cases hne

theorem WritableKey.everywhere {v : Value} (h : v.WritableKey) : v.Everywhere WritableForm := by
  cases v with
  | null => trivial
  | bool b => trivial
  | str s => trivial
  | int n => exact h
  | float x => trivial
  | _ => cases h

/-- Items that are equal to genuine items that can be written can be written, if single values can. -/
theorem writable_items_of_same {xs ys : List Value}
    (ih : ∀ x ∈ xs, ∀ y, x.Genuine → x.Everywhere WritableForm → x.same y = true → y.Everywhere WritableForm)
    (hgenuine : ∀ x ∈ xs, x.Genuine) (hxs : ∀ x ∈ xs, x.Everywhere WritableForm)
    (h : List.Forall₂ (fun x y => x.same y = true) xs ys) : ∀ y ∈ ys, y.Everywhere WritableForm := by
  intro y hy
  obtain ⟨x, hx, hxy⟩ := exists_left_of_forall₂ h hy
  exact ih x hx y (hgenuine x hx) (hxs x hx) hxy

/-- What is equal to a genuine value that can be written can be written. -/
theorem writable_of_same {v w : Value} (hgenuine : v.Genuine) (hv : v.Everywhere WritableForm)
    (h : v.same w = true) : w.Everywhere WritableForm := by
  induction v using Value.induction generalizing w with
  | null =>
      have hkey : Value.null.WritableKey := trivial
      exact (hkey.of_same (fun x hx => by cases hx) h).everywhere
  | bool b =>
      have hkey : (Value.bool b).WritableKey := trivial
      exact (hkey.of_same (fun x hx => by cases hx) h).everywhere
  | int n =>
      have hkey : (Value.int n).WritableKey := hv
      exact (hkey.of_same (fun x hx => by cases hx) h).everywhere
  | str s =>
      have hkey : (Value.str s).WritableKey := trivial
      exact (hkey.of_same (fun x hx => by cases hx) h).everywhere
  | float x =>
      have hkey : (Value.float x).WritableKey := trivial
      exact (hkey.of_same (fun y hy => Value.float.inj hy ▸ hgenuine) h).everywhere
  | list xs ih =>
      obtain ⟨ys, rfl, hys⟩ := same_list.mp h
      exact everywhere_list.mpr ⟨trivial, writable_items_of_same (fun x hx y => ih x hx (w := y))
        (everywhere_list.mp hgenuine).2 (everywhere_list.mp hv).2 hys⟩
  | tuple xs ih =>
      obtain ⟨ys, rfl, hys⟩ := same_tuple.mp h
      exact everywhere_tuple.mpr ⟨trivial, writable_items_of_same (fun x hx y => ih x hx (w := y))
        (everywhere_tuple.mp hgenuine).2 (everywhere_tuple.mp hv).2 hys⟩
  | dict es ih =>
      obtain ⟨fs, rfl, hlength, hfs⟩ := same_dict.mp h
      obtain ⟨⟨hdiffer, hdoubles⟩, hgenuine⟩ := everywhere_dict.mp hgenuine
      obtain ⟨hkeys, hes⟩ := everywhere_dict.mp hv
      have hentries := exists_same_entry hkeys hdiffer hlength hfs
      refine everywhere_dict.mpr ⟨fun f hf => ?_, fun f hf => ?_⟩
      · obtain ⟨e, he, hkey, -⟩ := hentries f hf
        exact (hkeys e he).of_same (hdoubles e he) hkey
      · obtain ⟨e, he, -, hvalue⟩ := hentries f hf
        exact (ih e he).2 (hgenuine e he) (hes e he) hvalue
  | set xs => exact absurd hv.here id
  | _ => cases hv

/-- What is equal to a genuine value with a JSON text has one. -/
theorem isSerializable_of_same {v w : Value} (hgenuine : v.Genuine) (h : v.same w = true)
    (hv : isSerializable v = true) : isSerializable w = true :=
  isSerializable_iff.mpr (writable_of_same hgenuine (isSerializable_iff.mp hv) h)

end Value

end ApiContract
