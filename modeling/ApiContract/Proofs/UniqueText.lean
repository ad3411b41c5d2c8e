import Mathlib.Data.List.Perm.Subperm
import ApiContract.Proofs.CanonicalText
import ApiContract.Proofs.EscapedText
import ApiContract.Proofs.JsonEquality
import ApiContract.Validation.Check

/-!
# Canonical texts and equality

The canonical text of an exact JSON value determines the value up to the order of members, and that order
does not show in the text: two exact values have the same canonical text exactly if they are equal as JSON
(`uniqueKey_eq_iff`). A text shows by its first character what type of value it is the text of
(`initial_writeAt`), and by itself where it ends (`writeAt_append_inj`).
-/

namespace ApiContract

/-- Numbers that are integers with decimal texts have decimal texts. -/
theorem Value.IsExactJson.isPrintable {v : Value} (hv : v.IsExactJson) : v.IsPrintable := by
  refine hv.imp fun w hw => ?_
  cases w with
  | dict entries => exact hw.1
  | int n => exact hw
  | _ => trivial

namespace Json

open Value

/-! ### First characters -/

/-- The type of the values whose canonical text begins with a character. -/
def typeOfInitial (c : Char) : String :=
  if c = 'n' then "null"
  else if c = 't' ∨ c = 'f' then "boolean"
  else if c = '"' then "string"
  else if c = '[' then "array"
  else if c = '\x7b' then "object"
  else if c = '-' ∨ Text.isDecimalDigit c then "integer"
  else ""

theorem initial_intChars (n : Int) : ∃ c ∈ (Numeral.intChars n).head?, typeOfInitial c = "integer" := by
  have hdigits : ∀ d ∈ List.range 10, typeOfInitial (Nat.digitChar d) = "integer" := by decide
  rw [Numeral.intChars]
  split
  · exact ⟨'-', rfl, by decide⟩
  · obtain ⟨c, cs, hcs⟩ := List.exists_cons_of_ne_nil (Numeral.digits_ne_nil n.natAbs)
    obtain ⟨d, hd, rfl⟩ := Numeral.exists_digitChar_of_mem (hcs ▸ List.mem_cons_self)
    exact ⟨_, by rw [hcs]; rfl, hdigits d (List.mem_range.mpr hd)⟩

theorem initial_bracketed {opening closing : String} {c : Char} (hopening : opening.toList = [c])
    (level : Nat) (texts : List String) :
    c ∈ (bracketed canonicalStyle level opening closing texts).toList.head? := by
  unfold bracketed
  split
  · simp [hopening]
  · simp [hopening]

theorem intText_eq_ok {n : Int} {text : String} (h : intText n = .ok text) :
    Numeral.withinLimit n = true ∧ text.toList = Numeral.intChars n := by
  unfold intText at h
  split at h
  · rename_i hn
    rw [← Except.ok.inj h, String.toList_ofList]
    exact ⟨hn, rfl⟩
  · cases h

theorem describe_ne_empty (v : Value) : v.describe ≠ "" := by
  cases v <;> simp [describe, typeName]

/-- A canonical text begins as the type of its value asks for. -/
theorem initial_writeAt {v : Value} (hv : v.IsExactJson) {level : Nat} {text : String}
    (h : writeAt canonicalStyle level v = .ok text) :
    ∃ c ∈ text.toList.head?, typeOfInitial c = v.describe := by
  cases v with
  | null =>
      obtain rfl := Except.ok.inj h
      exact ⟨'n', rfl, rfl⟩
  | bool b =>
      obtain rfl := Except.ok.inj h
      cases b with
      | true => exact ⟨'t', rfl, rfl⟩
      | false => exact ⟨'f', rfl, rfl⟩
  | int n =>
      rw [(intText_eq_ok h).2]
      exact initial_intChars n
  | str s =>
      obtain rfl := Except.ok.inj h
      exact ⟨'"', by simp [stringText], rfl⟩
  | list xs =>
      obtain ⟨texts, -, rfl⟩ := (writeAt_items_eq_ok rfl).mp h
      exact ⟨'[', initial_bracketed rfl level texts, rfl⟩
  | dict entries =>
      obtain ⟨ms, ms', -, -, rfl⟩ := writeAt_dict_eq_ok.mp h
      exact ⟨'\x7b', initial_bracketed rfl level _, rfl⟩
  | _ => exact absurd hv.here id

/-! ### Rows of texts -/

/-- The texts behind the first one of a row, each with the separator in front of it. -/
def rowTail (texts : List String) : List Char := texts.flatMap fun t => ',' :: ' ' :: t.toList

theorem toList_bracketed_nil (level : Nat) (opening closing : String) :
    (bracketed canonicalStyle level opening closing []).toList = opening.toList ++ closing.toList :=
  String.toList_append

theorem toList_bracketed_cons (level : Nat) (opening closing t : String) (ts : List String) :
    (bracketed canonicalStyle level opening closing (t :: ts)).toList =
      opening.toList ++ (t.toList ++ (rowTail ts ++ closing.toList)) := by
  have hrow : ∀ t ts, (", ".intercalate (t :: ts)).toList = t.toList ++ rowTail ts := by
    intro t ts
    induction ts generalizing t with
    | nil => simp [rowTail]
    | cons u ts ih =>
        rw [String.intercalate_cons_cons, String.toList_append, String.toList_append, ih u, rowTail,
          rowTail, List.flatMap_cons]
        simp
  simp only [bracketed, canonicalStyle, itemSeparator, newline, Option.isNone_none, Bool.and_self,
    if_true, String.append_empty, String.toList_append, hrow, List.append_assoc]

/-- A character behind which no integer goes on. -/
def IsDelimiter (c : Char) : Prop := c ≠ '-' ∧ Text.isDecimalDigit c = false

theorem delimited_cons {c : Char} {r : List Char} (h : IsDelimiter c) : Delimited (c :: r) := by
  rintro d ⟨⟩
  exact h

theorem delimited_rowTail (ts : List String) {closing : Char} {r : List Char} (h : IsDelimiter closing) :
    Delimited (rowTail ts ++ closing :: r) := by
  cases ts with
  | nil => exact delimited_cons h
  | cons t ts => exact delimited_cons ⟨by decide, by decide⟩

section Rows

variable {α : Type} {R : α → String → Prop} {E : α → α → Prop} {closing : Char} {xs ys : List α}
  {ts us : List String} {r r' : List Char}

/-- The texts of two things show where they end, and whether the things are related. -/
def Recognized (R : α → String → Prop) (E : α → α → Prop) (x y : α) : Prop :=
  ∀ {t u : String} {r r' : List Char}, R x t → R y u → Delimited r → Delimited r' →
    t.toList ++ r = u.toList ++ r' → E x y ∧ r = r'

/-- Where each text of a row is recognized, the row is recognized up to its closing character. -/
theorem rowTail_append_inj (hclosing : IsDelimiter closing) (hcomma : closing ≠ ',')
    (hxs : List.Forall₂ R xs ts) (hys : List.Forall₂ R ys us)
    (hread : ∀ x ∈ xs, ∀ y ∈ ys, Recognized R E x y)
    (h : rowTail ts ++ closing :: r = rowTail us ++ closing :: r') :
    List.Forall₂ E xs ys ∧ r = r' := by
  -- by induction on the first row: a separator in one text is a separator in the other
  induction hxs generalizing ys us with
  | nil =>
      cases hys with
      | nil => exact ⟨.nil, (List.cons.inj h).2⟩
      | cons hu hus => exact absurd (List.cons.inj h).1 hcomma
  | cons ht hts ih =>
      cases hys with
      | nil => exact absurd (List.cons.inj h).1.symm hcomma
      | cons hu hus =>
          simp only [rowTail, List.flatMap_cons, List.cons_append, List.append_assoc, List.cons.injEq,
            true_and] at h
          obtain ⟨hfirst, hrest⟩ := hread _ List.mem_cons_self _ List.mem_cons_self ht hu
            (delimited_rowTail _ hclosing) (delimited_rowTail _ hclosing) h
          obtain ⟨hall, hend⟩ := ih hus
            (fun x hx y hy => hread x (List.mem_cons_of_mem _ hx) y (List.mem_cons_of_mem _ hy)) hrest
          exact ⟨.cons hfirst hall, hend⟩

theorem bracketed_append_inj {opening end' : String} {level level' : Nat} (hend : end'.toList = [closing])
    (hclosing : IsDelimiter closing) (hcomma : closing ≠ ',')
    (hxs : List.Forall₂ R xs ts) (hys : List.Forall₂ R ys us)
    (hinitial : ∀ x, x ∈ xs ∨ x ∈ ys → ∀ {t : String}, R x t → ∃ c ∈ t.toList.head?, c ≠ closing)
    (hread : ∀ x ∈ xs, ∀ y ∈ ys, Recognized R E x y)
    (h : (bracketed canonicalStyle level opening end' ts).toList ++ r =
      (bracketed canonicalStyle level' opening end' us).toList ++ r') :
    List.Forall₂ E xs ys ∧ r = r' := by
  -- an empty row closes where another has its first text
  have hfirst {x : α} {t : String} {s s' : List Char} (hx : x ∈ xs ∨ x ∈ ys) (ht : R x t)
      (heq : closing :: s = t.toList ++ s') : False := by
    obtain ⟨c, hc, hne⟩ := hinitial x hx ht
    obtain ⟨cs, hcs⟩ := List.head?_eq_some_iff.mp hc
    rw [hcs] at heq
    exact hne (List.cons.inj heq).1.symm
  cases hxs with
  | nil =>
      cases hys with
      | nil => exact ⟨.nil, List.append_cancel_left h⟩
      | cons hu hus =>
          simp only [toList_bracketed_nil, toList_bracketed_cons, hend, List.append_assoc,
            List.append_cancel_left_eq, List.cons_append, List.nil_append] at h
          exact (hfirst (.inr List.mem_cons_self) hu h).elim
  | cons ht hts =>
      cases hys with
      | nil =>
          simp only [toList_bracketed_nil, toList_bracketed_cons, hend, List.append_assoc,
            List.append_cancel_left_eq, List.cons_append, List.nil_append] at h
          exact (hfirst (.inl List.mem_cons_self) ht h.symm).elim
      | cons hu hus =>
          simp only [toList_bracketed_cons, hend, List.append_assoc, List.append_cancel_left_eq,
            List.cons_append, List.nil_append] at h
          obtain ⟨hfirst, hrest⟩ := hread _ List.mem_cons_self _ List.mem_cons_self ht hu
            (delimited_rowTail _ hclosing) (delimited_rowTail _ hclosing) h
          obtain ⟨hall, hrest⟩ := rowTail_append_inj hclosing hcomma hts hus
            (fun x hx y hy => hread x (List.mem_cons_of_mem _ hx) y (List.mem_cons_of_mem _ hy)) hrest
          exact ⟨.cons hfirst hall, hrest⟩

end Rows

/-! ### Values -/

/-- The members of a canonical text stand for a rearrangement of the entries. -/
theorem exists_sorted_of_writeAt {level : Nat} {entries : List (Value × Value)} {text : String}
    (hkeys : ∀ e ∈ entries, ∃ name, e.1 = .str name)
    (h : writeAt canonicalStyle level (.dict entries) = .ok text) :
    ∃ sorted ms, sorted.Perm entries ∧
      List.Forall₂ (fun e m => writeMember canonicalStyle (level + 1) e = .ok m) sorted ms ∧
      text = bracketed canonicalStyle level "\x7b" "\x7d" (ms.map (·.2)) := by
  obtain ⟨ms, ms', hms, hsort, rfl⟩ := writeAt_dict_eq_ok.mp h
  obtain ⟨ms'', hsort', hperm, -⟩ := sortMembers_spec (textKeys_of_forall₂ hkeys hms)
  obtain rfl : ms'' = ms' := Except.ok.inj (hsort'.symm.trans hsort)
  obtain ⟨sorted, hsorted, hentries⟩ := List.perm_comp_forall₂ hperm hms.flip
  exact ⟨sorted, ms'', hentries, hsorted.flip, rfl⟩

/-- The same beginning means the same type. -/
theorem describe_eq_of_append {v w : Value} (hv : v.IsExactJson) (hw : w.IsExactJson) {level level' : Nat}
    {t u : String} {r r' : List Char} (ht : writeAt canonicalStyle level v = .ok t)
    (hu : writeAt canonicalStyle level' w = .ok u) (h : t.toList ++ r = u.toList ++ r') :
    v.describe = w.describe := by
  obtain ⟨c, hc, hdescribe⟩ := initial_writeAt hv ht
  obtain ⟨d, hd, hdescribe'⟩ := initial_writeAt hw hu
  obtain ⟨cs, hcs⟩ := List.head?_eq_some_iff.mp hc
  obtain ⟨ds, hds⟩ := List.head?_eq_some_iff.mp hd
  rw [hcs, hds] at h
  rw [← hdescribe, ← hdescribe', (List.cons.inj h).1]

/-- A text is the canonical text of a value, at some level. -/
def IsCanonical (v : Value) (text : String) : Prop := ∃ level, writeAt canonicalStyle level v = .ok text

/-- The texts of two values show where they end, and whether the values are equal. -/
abbrev Told (v w : Value) : Prop := Recognized IsCanonical (fun v w => v.jsonEqual w = true) v w

/-- Values of different types need no further look: the first characters of their texts differ. -/
theorem told_of_describe {v w : Value} (hv : v.IsExactJson) (hw : w.IsExactJson)
    (h : v.describe = w.describe → Told v w) : Told v w := by
  rintro t u r r' ⟨level, ht⟩ ⟨level', hu⟩ hr hr' heq
  exact h (describe_eq_of_append hv hw ht hu heq) ⟨level, ht⟩ ⟨level', hu⟩ hr hr' heq

theorem told_null : Told .null .null := by
  rintro t u r r' ⟨level, ht⟩ ⟨level', hu⟩ - - h
  obtain rfl := Except.ok.inj ht
  obtain rfl := Except.ok.inj hu
  exact ⟨rfl, List.append_cancel_left h⟩

theorem told_bool (b b' : Bool) : Told (.bool b) (.bool b') := by
  rintro t u r r' ⟨level, ht⟩ ⟨level', hu⟩ - - h
  obtain rfl := Except.ok.inj ht
  obtain rfl := Except.ok.inj hu
  cases b <;> cases b' <;> simp_all [jsonEqual]

theorem told_int (n m : Int) : Told (.int n) (.int m) := by
  rintro t u r r' ⟨level, ht⟩ ⟨level', hu⟩ hr hr' h
  obtain ⟨hn, ht⟩ := intText_eq_ok ht
  obtain ⟨hm, hu⟩ := intText_eq_ok hu
  rw [ht, hu] at h
  obtain ⟨rfl, hrest⟩ := intChars_append_inj hn hm hr hr' h
  exact ⟨by simp [jsonEqual, jsonNumber?, Number.same, Number.compare?], hrest⟩

theorem told_str (s s' : String) : Told (.str s) (.str s') := by
  rintro t u r r' ⟨level, ht⟩ ⟨level', hu⟩ - - h
  obtain rfl := Except.ok.inj ht
  obtain rfl := Except.ok.inj hu
  obtain ⟨rfl, hrest⟩ := stringText_append_inj h
  exact ⟨by simp [jsonEqual], hrest⟩

theorem told_list {xs ys : List Value} (hxs : ∀ x ∈ xs, x.IsExactJson) (hys : ∀ y ∈ ys, y.IsExactJson)
    (ih : ∀ x ∈ xs, ∀ y ∈ ys, Told x y) : Told (.list xs) (.list ys) := by
  rintro t u r r' ⟨level, ht⟩ ⟨level', hu⟩ hr hr' h
  obtain ⟨ts, hts, rfl⟩ := (writeAt_items_eq_ok rfl).mp ht
  obtain ⟨us, hus, rfl⟩ := (writeAt_items_eq_ok rfl).mp hu
  -- no canonical text begins with the closing bracket
  have hinitial {x : Value} (hx : x.IsExactJson) {t : String} (ht : IsCanonical x t) :
      ∃ c ∈ t.toList.head?, c ≠ ']' := by
    obtain ⟨level, ht⟩ := ht
    obtain ⟨c, hc, hdescribe⟩ := initial_writeAt hx ht
    refine ⟨c, hc, ?_⟩
    rintro rfl
    have hnone : typeOfInitial ']' = "" := by decide
    exact describe_ne_empty x (hdescribe.symm.trans hnone)
  obtain ⟨hall, hrest⟩ := bracketed_append_inj rfl ⟨by decide, by decide⟩ (by decide)
    (hts.imp fun x t ht => ⟨level + 1, ht⟩) (hus.imp fun x t ht => ⟨level' + 1, ht⟩)
    (fun x hx => hinitial (hx.elim (hxs x) (hys x))) ih h
  exact ⟨jsonEqual_list_iff.mpr hall, hrest⟩

/-- A text is that of an entry as a member of an object. -/
def IsCanonicalMember (e : Value × Value) (text : String) : Prop :=
  ∃ level m, writeMember canonicalStyle level e = .ok m ∧ m.2 = text

theorem IsCanonicalMember.toList {name : String} {v : Value} {t : String}
    (h : IsCanonicalMember (.str name, v) t) :
    ∃ text, IsCanonical v text ∧ t.toList = (stringText true name).toList ++ (':' :: ' ' :: text.toList) := by
  obtain ⟨level, m, hm, rfl⟩ := h
  obtain ⟨text, htext, rfl⟩ := writeMember_eq_ok.mp hm
  exact ⟨text, ⟨level, htext⟩, by simp [canonicalStyle, keySeparator]⟩

theorem recognized_member {e f : Value × Value} (he : ∃ name, e.1 = .str name)
    (hf : ∃ name, f.1 = .str name) (h : Told e.2 f.2) :
    Recognized IsCanonicalMember (fun e f => f.1 = e.1 ∧ e.2.jsonEqual f.2 = true) e f := by
  obtain ⟨key, v⟩ := e
  obtain ⟨key', w⟩ := f
  obtain ⟨name, rfl⟩ := he
  obtain ⟨name', rfl⟩ := hf
  intro t u r r' ht hu hr hr' heq
  obtain ⟨text, htext, ht⟩ := ht.toList
  obtain ⟨text', htext', hu⟩ := hu.toList
  rw [ht, hu, List.append_assoc, List.append_assoc] at heq
  obtain ⟨rfl, htail⟩ := stringText_append_inj heq
  simp only [List.cons_append, List.cons.injEq, true_and] at htail
  obtain ⟨hequal, hrest⟩ := h htext htext' hr hr' htail
  exact ⟨⟨rfl, hequal⟩, hrest⟩

theorem told_dict {es fs : List (Value × Value)} (hes : (Value.dict es).IsExactJson)
    (hfs : (Value.dict fs).IsExactJson) (ih : ∀ e ∈ es, ∀ f ∈ fs, Told e.2 f.2) :
    Told (.dict es) (.dict fs) := by
  rintro t u r r' ⟨level, ht⟩ ⟨level', hu⟩ hr hr' h
  have hkeys := hes.keys.1
  have hkeys' := hfs.keys.1
  obtain ⟨sorted, ms, hperm, hms, rfl⟩ := exists_sorted_of_writeAt hkeys ht
  obtain ⟨sorted', ms', hperm', hms', rfl⟩ := exists_sorted_of_writeAt hkeys' hu
  -- the sorted members are told one by one, and what holds of them holds of the entries
  have hkey : ∀ e, e ∈ sorted ∨ e ∈ sorted' → ∃ name, e.1 = .str name := by
    rintro e (he | he)
    · exact hkeys e (hperm.mem_iff.mp he)
    · exact hkeys' e (hperm'.mem_iff.mp he)
  have hrow {level : Nat} {sorted : List (Value × Value)} {ms : List Member}
      (h : List.Forall₂ (fun e m => writeMember canonicalStyle level e = .ok m) sorted ms) :
      List.Forall₂ IsCanonicalMember sorted (ms.map (·.2)) :=
    List.forall₂_map_right_iff.mpr (h.imp fun e m hm => ⟨level, m, hm, rfl⟩)
  have hinitial {e : Value × Value} (he : ∃ name, e.1 = .str name) {t : String}
      (ht : IsCanonicalMember e t) : ∃ c ∈ t.toList.head?, c ≠ '\x7d' := by
    obtain ⟨key, v⟩ := e
    obtain ⟨name, rfl⟩ := he
    obtain ⟨text, -, htext⟩ := ht.toList
    exact ⟨'"', by simp [htext, stringText], by decide⟩
  obtain ⟨hall, hrest⟩ := bracketed_append_inj rfl ⟨by decide, by decide⟩ (by decide) (hrow hms)
    (hrow hms') (fun e he => hinitial (hkey e he)) (fun e he f hf => recognized_member
      (hkey e (.inl he)) (hkey f (.inr hf)) (ih e (hperm.mem_iff.mp he) f (hperm'.mem_iff.mp hf))) h
  refine ⟨(jsonEqual_dict_iff hkeys).mpr ⟨?_, fun e he => ?_⟩, hrest⟩
  · rw [← hperm.length_eq, ← hperm'.length_eq, hall.length_eq]
  · obtain ⟨f, hf, hequal⟩ := exists_right_of_forall₂ hall (hperm.mem_iff.mpr he)
    exact ⟨f, hperm'.mem_iff.mp hf, hequal⟩

/-- A canonical text is recognized in front of whatever no integer goes on in, and up to the order of
members it tells the value. -/
theorem told_of_isExactJson {v w : Value} (hv : v.IsExactJson) (hw : w.IsExactJson) : Told v w := by
  induction v using Value.induction generalizing w with
  | null =>
      refine told_of_describe hv hw fun hkind => ?_
      cases w with
      | null => exact told_null
      | _ => simp [describe, typeName] at hkind
  | bool b =>
      refine told_of_describe hv hw fun hkind => ?_
      cases w with
      | bool b' => exact told_bool b b'
      | _ => simp [describe, typeName] at hkind
  | int n =>
      refine told_of_describe hv hw fun hkind => ?_
      cases w with
      | int m => exact told_int n m
      | _ => simp [describe, typeName] at hkind
  | str s =>
      refine told_of_describe hv hw fun hkind => ?_
      cases w with
      | str s' => exact told_str s s'
      | _ => simp [describe, typeName] at hkind
  | list xs ih =>
      refine told_of_describe hv hw fun hkind => ?_
      cases w with
      | list ys =>
          rw [isExactJson_list] at hv hw
          exact told_list hv hw fun x hx y hy => ih x hx (hv x hx) (hw y hy)
      | tuple ys => exact absurd hw.here id
      | _ => simp [describe, typeName] at hkind
  | dict entries ih =>
      refine told_of_describe hv hw fun hkind => ?_
      cases w with
      | dict entries' =>
          exact told_dict hv hw fun e he f hf => (ih e he).2 (hv.members e he) (hw.members f hf)
      | _ => simp [describe, typeName] at hkind
  | float x => exact absurd hv.here id
  | bytes bs => exact absurd hv.here id
  | tuple xs ih => exact absurd hv.here id
  | absent => exact absurd hv.here id
  | date d => exact absurd hv.here id
  | dateTime t => exact absurd hv.here id
  | set xs ih => exact absurd hv.here id
  | uuid text => exact absurd hv.here id

/-! ### Equal values -/

/-- The members of an object have its keys. -/
theorem keys_of_writeMember {level : Nat} {entries : List (Value × Value)} {ms : List Member}
    (hkeys : ∀ e ∈ entries, ∃ name, e.1 = .str name)
    (h : List.Forall₂ (fun e m => writeMember canonicalStyle level e = .ok m) entries ms) :
    ms.map (·.1) = entries.map (·.1) := by
  induction h with
  | nil => rfl
  | @cons e m entries ms hm _ ih =>
      obtain ⟨⟨name, hname⟩, hrest⟩ := List.forall_mem_cons.mp hkeys
      obtain ⟨key, v⟩ := e
      obtain rfl : key = .str name := hname
      obtain ⟨text, -, rfl⟩ := writeMember_eq_ok.mp hm
      rw [List.map_cons, List.map_cons, ih hrest]

/-- Objects with the same members in any order have the same text. -/
theorem writeAt_dict_congr {es fs : List (Value × Value)} {level : Nat}
    (hes : (Value.dict es).IsExactJson) (hfs : (Value.dict fs).IsExactJson)
    (hlength : es.length = fs.length)
    (h : ∀ e ∈ es, ∃ f ∈ fs, f.1 = e.1 ∧
      writeAt canonicalStyle (level + 1) e.2 = writeAt canonicalStyle (level + 1) f.2) :
    writeAt canonicalStyle level (.dict es) = writeAt canonicalStyle level (.dict fs) := by
  obtain ⟨text, htext⟩ := exists_writeAt hes.isPrintable level
  obtain ⟨text', htext'⟩ := exists_writeAt hfs.isPrintable level
  obtain ⟨ms, sorted, hms, hsort, rfl⟩ := writeAt_dict_eq_ok.mp htext
  obtain ⟨ms', sorted', hms', hsort', rfl⟩ := writeAt_dict_eq_ok.mp htext'
  have hnodup : (ms.map (·.1)).Nodup := by
    rw [keys_of_writeMember hes.keys.1 hms]
    exact hes.keys.2
  have hsub : ms ⊆ ms' := by
    intro m hm
    obtain ⟨e, he, hwrite⟩ := exists_left_of_forall₂ hms hm
    obtain ⟨f, hf, hkey, hequal⟩ := h e he
    obtain ⟨m', hm', hwrite'⟩ := exists_right_of_forall₂ hms' hf
    rw [writeMember, hkey, ← hequal] at hwrite'
    obtain rfl : m = m' := Except.ok.inj (hwrite.symm.trans hwrite')
    exact hm'
  -- without repetitions, the members of the one are those of the other, for there are as many
  have hperm : ms.Perm ms' := by
    refine ((List.Nodup.of_map _ hnodup).subperm hsub).perm_of_length_le ?_
    rw [← hms.length_eq, ← hms'.length_eq, hlength]
  have hsorted := sortMembers_perm (textKeys_of_forall₂ hes.keys.1 hms) hnodup hperm
  rw [hsort, hsort'] at hsorted
  rw [htext, htext', Except.ok.inj hsorted]

/-- Equal values have the same canonical text. -/
theorem writeAt_congr {v w : Value} (hv : v.IsExactJson) (hw : w.IsExactJson)
    (h : v.jsonEqual w = true) (level : Nat) :
    writeAt canonicalStyle level v = writeAt canonicalStyle level w := by
  induction v using Value.induction generalizing w level with
  | list xs ih =>
      cases w with
      | list ys =>
          rw [isExactJson_list] at hv hw
          have hall := forall₂_imp_of_mem_mem (jsonEqual_list_iff.mp h) fun x hx y hy hxy =>
            ih x hx (hv x hx) (hw y hy) hxy (level + 1)
          rw [writeAt, writeAt, writeItems_eq, writeItems_eq, mapM_congr_of_forall₂ hall]
      | _ => cases h
  | dict es ih =>
      cases w with
      | dict fs =>
          obtain ⟨hlength, hmembers⟩ := (jsonEqual_dict_iff hv.keys.1).mp h
          refine writeAt_dict_congr hv hw hlength fun e he => ?_
          obtain ⟨f, hf, hkey, hequal⟩ := hmembers e he
          exact ⟨f, hf, hkey, (ih e he).2 (hv.members e he) (hw.members f hf) hequal (level + 1)⟩
      | _ => cases h
  | int n =>
      cases w with
      | int m =>
          obtain rfl : n = m := by
            simpa [jsonEqual, jsonNumber?, Number.same, Number.compare?] using h
          rfl
      | float x => exact absurd hw.here id
      | _ => cases h
  | null =>
      cases w with
      | null => rfl
      | _ => cases h
  | bool b =>
      cases w with
      | bool b' => rw [eq_of_beq h]
      | _ => cases h
  | str s =>
      cases w with
      | str s' => rw [eq_of_beq h]
      | _ => cases h
  | float x => exact absurd hv.here id
  | bytes bs => exact absurd hv.here id
  | tuple xs ih => exact absurd hv.here id
  | absent => exact absurd hv.here id
  | date d => exact absurd hv.here id
  | dateTime t => exact absurd hv.here id
  | set xs ih => exact absurd hv.here id
  | uuid text => exact absurd hv.here id

end Json

namespace Validator

/-- Two exact values have the same key exactly if they are equal as JSON. -/
theorem uniqueKey_eq_iff {v w : Value} (hv : v.IsExactJson) (hw : w.IsExactJson) :
    uniqueKey v = uniqueKey w ↔ v.jsonEqual w = true := by
  constructor
  · intro h
    obtain ⟨text, htext⟩ := Json.exists_writeAt hv.isPrintable 0
    -- both texts are this one, with nothing behind it
    have hnil : Json.Delimited [] := by
      rintro c ⟨⟩
    have hsame : text.toList ++ [] = text.toList ++ [] := rfl
    exact (Json.told_of_isExactJson hv hw ⟨0, htext⟩ ⟨0, h.symm.trans htext⟩ hnil hnil hsame).1
  · intro h
    exact Json.writeAt_congr hv hw h 0

/-- The keys of exact items are pairwise different exactly if the items are. -/
theorem nodup_uniqueKeys_iff {xs : List Value} (hxs : ∀ x ∈ xs, x.IsExactJson) :
    (∃ keys, xs.mapM uniqueKey = .ok keys ∧ keys.Nodup) ↔
      xs.Pairwise fun x y => x.jsonEqual y = false := by
  obtain ⟨keys, hkeys⟩ := exists_mapM_eq_ok fun x hx => Json.exists_writeAt (hxs x hx).isPrintable 0
  have hdiffer : ∀ x ∈ xs, ∀ y ∈ xs, ∀ k l, uniqueKey x = .ok k → uniqueKey y = .ok l →
      (x.jsonEqual y = false ↔ k ≠ l) := by
    intro x hx y hy k l hk hl
    rw [← Bool.not_eq_true, not_iff_not, ← uniqueKey_eq_iff (hxs x hx) (hxs y hy), hk, hl, Except.ok.injEq]
  rw [pairwise_iff_of_forall₂ (mapM_eq_ok_iff.mp hkeys) hdiffer]
  constructor
  · rintro ⟨keys', hkeys', hnodup⟩
    obtain rfl : keys' = keys := Except.ok.inj (hkeys'.symm.trans hkeys)
    exact hnodup
  · intro hnodup
    exact ⟨keys, hkeys, hnodup⟩

end Validator

end ApiContract
