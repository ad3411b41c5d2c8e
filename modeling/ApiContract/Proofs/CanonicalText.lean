import ApiContract.Proofs.Doubles
import ApiContract.Proofs.MemberOrder
import ApiContract.Proofs.Parts

/-!
# Canonical text

The canonical text of a value is its JSON text in one line with members in the order of their keys. Every
value of the kinds that requests have has one, as long as its integers have a decimal text
(`exists_writeAt`).
-/

namespace ApiContract

namespace Value

/-- A value of a kind that requests have, whose number has a decimal text. -/
def PrintableForm : Value → Prop
  | .null | .bool _ | .str _ | .list _ | .tuple _ | .absent => True
  | .int n => Numeral.withinLimit n = true
  | .float x => x.IsDouble
  | .dict entries => ∀ e ∈ entries, ∃ name, e.1 = .str name
  | _ => False

/-- A value of the kinds that requests have, whose numbers have decimal texts. -/
def IsPrintable (v : Value) : Prop := v.Everywhere PrintableForm

end Value

namespace Json

/-! ### Items and members -/

theorem writeItems_eq (style : Style) (level : Nat) (xs : List Value) :
    writeItems style level xs = xs.mapM (writeAt style level) := by
  induction xs with
  | nil => rfl
  | cons x xs ih => rw [List.mapM_cons, ← ih, writeItems]

/-- The member that an entry is written as. -/
def writeMember (style : Style) (level : Nat) (e : Value × Value) : Except Fault Member := do
  let name ← keyText style e.1
  let text ← writeAt style level e.2
  return (e.1, stringText style.ascii name ++ keySeparator style ++ text)

theorem writeMembers_eq (style : Style) (level : Nat) (entries : List (Value × Value)) :
    writeMembers style level entries = entries.mapM (writeMember style level) := by
  induction entries with
  | nil => rfl
  | cons e entries ih =>
      obtain ⟨key, v⟩ := e
      rw [List.mapM_cons, ← ih, writeMembers, writeMember]
      cases keyText style key with
      | error f => rfl
      | ok name =>
          cases writeAt style level v with
          | error f => rfl
          | ok text => rfl

theorem writeMember_eq_ok {style : Style} {level : Nat} {name : String} {v : Value} {m : Member} :
    writeMember style level (.str name, v) = .ok m ↔
      ∃ text, writeAt style level v = .ok text ∧
        m = (.str name, stringText style.ascii name ++ keySeparator style ++ text) := by
  have hname : keyText style (.str name) = .ok name := rfl
  rw [writeMember, hname, bind_eq_ok_iff]
  constructor
  · rintro ⟨_, hname, h⟩
    obtain rfl := Except.ok.inj hname
    obtain ⟨text, htext, h⟩ := bind_eq_ok_iff.mp h
    exact ⟨text, htext, (Except.ok.inj h).symm⟩
  · rintro ⟨text, htext, rfl⟩
    exact ⟨name, rfl, bind_eq_ok_iff.mpr ⟨text, htext, rfl⟩⟩

/-- A list is written as its items between brackets. -/
theorem writeAt_items_eq_ok {style : Style} {level : Nat} {v : Value} {xs : List Value} {text : String}
    (hv : v.items? = some xs) :
    writeAt style level v = .ok text ↔
      ∃ texts, List.Forall₂ (fun x t => writeAt style (level + 1) x = .ok t) xs texts ∧
        text = bracketed style level "[" "]" texts := by
  have hwrite : writeAt style level v =
      (do return bracketed style level "[" "]" (← writeItems style (level + 1) xs)) := by
    cases v with
    | list ys =>
        obtain rfl := Option.some.inj hv
        rfl
    | tuple ys =>
        obtain rfl := Option.some.inj hv
        rfl
    | _ => cases hv
  rw [hwrite, bind_eq_ok_iff, writeItems_eq]
  constructor
  · rintro ⟨texts, htexts, h⟩
    exact ⟨texts, mapM_eq_ok_iff.mp htexts, (Except.ok.inj h).symm⟩
  · rintro ⟨texts, htexts, rfl⟩
    exact ⟨texts, mapM_eq_ok_iff.mpr htexts, rfl⟩

/-- A dictionary is written as its members in the order of their keys between braces. -/
theorem writeAt_dict_eq_ok {level : Nat} {entries : List (Value × Value)} {text : String} :
    writeAt canonicalStyle level (.dict entries) = .ok text ↔
      ∃ ms ms', List.Forall₂ (fun e m => writeMember canonicalStyle (level + 1) e = .ok m) entries ms ∧
        sortMembers ms = .ok ms' ∧
        text = bracketed canonicalStyle level "\x7b" "\x7d" (ms'.map (·.2)) := by
  rw [writeAt, bind_eq_ok_iff, writeMembers_eq]
  constructor
  · rintro ⟨ms, hms, h⟩
    obtain ⟨ms', hsort, h⟩ := bind_eq_ok_iff.mp h
    exact ⟨ms, ms', mapM_eq_ok_iff.mp hms, hsort, (Except.ok.inj h).symm⟩
  · rintro ⟨ms, ms', hms, hsort, rfl⟩
    exact ⟨ms, mapM_eq_ok_iff.mpr hms, bind_eq_ok_iff.mpr ⟨ms', hsort, rfl⟩⟩

/-- The members of a dictionary with text keys have text keys. -/
theorem textKeys_of_forall₂ {level : Nat} {entries : List (Value × Value)} {ms : List Member}
    (hkeys : ∀ e ∈ entries, ∃ name, e.1 = .str name)
    (h : List.Forall₂ (fun e m => writeMember canonicalStyle level e = .ok m) entries ms) :
    TextKeys ms := by
  intro m hm
  obtain ⟨⟨key, v⟩, he, hwrite⟩ := exists_left_of_forall₂ h hm
  obtain ⟨name, hname⟩ := hkeys _ he
  obtain rfl : key = .str name := hname
  obtain ⟨text, -, rfl⟩ := writeMember_eq_ok.mp hwrite
  exact ⟨name, rfl⟩

/-- A value whose numbers have decimal texts has a canonical text. -/
theorem exists_writeAt {v : Value} (hv : v.IsPrintable) (level : Nat) :
    ∃ text, writeAt canonicalStyle level v = .ok text := by
  -- lists and tuples are written alike
  have hitems {v : Value} {xs : List Value} (hxs : v.items? = some xs) (hv : v.IsPrintable)
      (ih : ∀ x ∈ xs, x.IsPrintable → ∀ level, ∃ text, writeAt canonicalStyle level x = .ok text)
      (level : Nat) : ∃ text, writeAt canonicalStyle level v = .ok text := by
    obtain ⟨texts, htexts⟩ := exists_mapM_eq_ok fun x hx => ih x hx (hv.items hxs x hx) (level + 1)
    exact ⟨_, (writeAt_items_eq_ok hxs).mpr ⟨texts, mapM_eq_ok_iff.mp htexts, rfl⟩⟩
  induction v using Value.induction generalizing level with
  | int n => exact intText_eq_ok_iff.mpr hv
  | float x =>
      show ∃ text, floatText canonicalStyle x = .ok text
      unfold floatText
      split
      · exact ⟨_, rfl⟩
      · exact ⟨_, rfl⟩
  | list xs ih => exact hitems rfl hv ih level
  | tuple xs ih => exact hitems rfl hv ih level
  | dict entries ih =>
      obtain ⟨hkeys, hvalues⟩ := Value.everywhere_dict.mp hv
      obtain ⟨ms, hms⟩ : ∃ ms, entries.mapM (writeMember canonicalStyle (level + 1)) = .ok ms := by
        refine exists_mapM_eq_ok fun e he => ?_
        obtain ⟨name, hname⟩ := hkeys e he
        obtain ⟨text, htext⟩ := (ih e he).2 (hvalues e he) (level + 1)
        obtain ⟨key, item⟩ := e
        obtain rfl : key = .str name := hname
        exact ⟨_, writeMember_eq_ok.mpr ⟨text, htext, rfl⟩⟩
      have hms := mapM_eq_ok_iff.mp hms
      obtain ⟨ms', hsort, -, -⟩ := sortMembers_spec (textKeys_of_forall₂ hkeys hms)
      exact ⟨_, writeAt_dict_eq_ok.mpr ⟨ms, ms', hms, hsort, rfl⟩⟩
  | bytes bs => cases hv
  | date d => cases hv
  | dateTime t => cases hv
  | set xs => exact absurd hv.here id
  | uuid text => cases hv
  | _ => exact ⟨_, rfl⟩

end Json

end ApiContract
