import Mathlib.Logic.Relation
import ApiContract.Proofs.Acceptance
import ApiContract.Proofs.HeaderNames
import ApiContract.Proofs.IntegerText

/-!
# Undeclared input

A value gains undeclared keys (`Schema.Gains`) where entries are put into dictionaries that closed objects
govern, under keys that these objects do not declare. Cleaning removes what has been gained
(`clean_of_gains`), and every other stage sees the cleaned value alone, so nothing that is not declared has
any influence on the result: `Pipeline.apply_of_gains`.

The names of headers at the root are matched without regard to case first. That renaming binds the entries
one after the other, and selecting entries by their keys commutes with binding (`Value.select_ofEntries`).
-/

namespace ApiContract

namespace Value

/-! ### Selecting entries by their keys -/

/-- The entries whose keys a rule selects, with their items as the rule changes them. -/
def select (rule : Value → Option (Value → Value)) (entries : List (Value × Value)) :
    List (Value × Value) :=
  entries.filterMap fun e => (rule e.1).map fun change => (e.1, change e.2)

/-- A rule that does not tell equal keys apart. -/
def RespectsKeys (rule : Value → Option (Value → Value)) : Prop :=
  ∀ key key', key.same key' = true → rule key = rule key'

variable {rule : Value → Option (Value → Value)}

theorem select_append (entries entries' : List (Value × Value)) :
    select rule (entries ++ entries') = select rule entries ++ select rule entries' :=
  List.filterMap_append

/-- A key that is selected is there exactly if it was there before. -/
theorem hasKey_select (hrule : RespectsKeys rule) {key : Value} (hkey : (rule key).isSome)
    (entries : List (Value × Value)) :
    hasKey key (select rule entries) = hasKey key entries := by
  rw [Bool.eq_iff_iff, hasKey_iff, hasKey_iff]
  constructor
  · rintro ⟨e', he', hsame⟩
    obtain ⟨e, he, hselected⟩ := List.mem_filterMap.mp he'
    obtain ⟨change, -, rfl⟩ := Option.map_eq_some_iff.mp hselected
    exact ⟨e, he, hsame⟩
  · rintro ⟨e, he, hsame⟩
    obtain ⟨change, hchange⟩ := Option.isSome_iff_exists.mp hkey
    rw [hrule key e.1 hsame] at hchange
    refine ⟨(e.1, change e.2), List.mem_filterMap.mpr ⟨e, he, ?_⟩, hsame⟩
    rw [hchange]
    rfl

/-- Binding a key that is not selected changes nothing that is. -/
theorem select_bind_of_none (hrule : RespectsKeys rule) {key : Value} (hkey : rule key = none)
    (entries : List (Value × Value)) (v : Value) :
    select rule (bind entries key v) = select rule entries := by
  unfold bind
  split
  · rw [select, List.filterMap_map]
    refine List.filterMap_congr fun e _ => ?_
    simp only [Function.comp_apply]
    split
    · rename_i hsame
      -- the entry that is replaced was not selected, and its replacement has the same key
      rw [← hrule key e.1 hsame, hkey]
      rfl
    · rfl
  · rw [select_append]
    have hnone : select rule [(key, v)] = [] := by
      simp [select, hkey]
    rw [hnone, List.append_nil]

/-- Binding a selected key is binding it among what has been selected. -/
theorem select_bind_of_some (hrule : RespectsKeys rule) {key : Value} {change : Value → Value}
    (hkey : rule key = some change) (entries : List (Value × Value)) (v : Value) :
    select rule (bind entries key v) = bind (select rule entries) key (change v) := by
  have hbound := hasKey_select hrule (Option.isSome_iff_exists.mpr ⟨change, hkey⟩) entries
  unfold bind
  rw [hbound]
  split
  · rw [select, select, List.filterMap_map, List.map_filterMap]
    refine List.filterMap_congr fun e _ => ?_
    simp only [Function.comp_apply, Option.map_map]
    split
    · rename_i hsame
      rw [← hrule key e.1 hsame, hkey]
      simp [hsame]
    · rename_i hsame
      cases rule e.1 with
      | none => rfl
      | some change' => simp [hsame]
  · rw [select_append]
    have hone : select rule [(key, v)] = [(key, change v)] := by
      simp [select, hkey]
    rw [hone]

/-- Selecting after all entries have been bound is binding the selected ones. -/
theorem select_ofEntries (hrule : RespectsKeys rule) (entries : List (Value × Value)) :
    select rule (ofEntries entries) = ofEntries (select rule entries) := by
  suffices hfold : ∀ bound, select rule (entries.foldl (fun es e => bind es e.1 e.2) bound) =
      (select rule entries).foldl (fun es e => bind es e.1 e.2) (select rule bound) from hfold []
  induction entries with
  | nil => exact fun bound => rfl
  | cons e entries ih =>
      intro bound
      rw [List.foldl_cons, ih]
      cases hkey : rule e.1 with
      | none =>
          have hselect : select rule (e :: entries) = select rule entries := by
            simp [select, hkey]
          rw [select_bind_of_none hrule hkey, hselect]
      | some change =>
          have hselect : select rule (e :: entries) = (e.1, change e.2) :: select rule entries := by
            simp [select, hkey]
          rw [select_bind_of_some hrule hkey, hselect, List.foldl_cons]

end Value

namespace Schema

/-! ### Gaining undeclared keys -/

/-- `s.Gains v v'`: one entry more makes `v'` of `v`. It is in a dictionary that a closed object governs,
and the object does not declare its key. The dictionary is reached through declared properties, items of
arrays, nullable wrappers and refinements. -/
inductive Gains : Schema → Value → Value → Prop
  | entry {a : Annotations} {f : ObjectFields} {ps : List (Value × Schema)}
      (before after : List (Value × Value)) (key item : Value)
      (closed : f.additional = false) (undeclared : property? key ps = none) :
      Gains (.object a f ps) (.dict (before ++ after)) (.dict (before ++ (key, item) :: after))
  | property {a : Annotations} {f : ObjectFields} {ps : List (Value × Schema)} {child : Schema}
      (before after : List (Value × Value)) {key v v' : Value}
      (declared : property? key ps = some child) (inside : Gains child v v') :
      Gains (.object a f ps) (.dict (before ++ (key, v) :: after)) (.dict (before ++ (key, v') :: after))
  | listItem {a : Annotations} {f : ArrayFields} {items : Schema} (before after : List Value)
      {v v' : Value} (inside : Gains items v v') :
      Gains (.array a f items) (.list (before ++ v :: after)) (.list (before ++ v' :: after))
  | tupleItem {a : Annotations} {f : ArrayFields} {items : Schema} (before after : List Value)
      {v v' : Value} (inside : Gains items v v') :
      Gains (.array a f items) (.tuple (before ++ v :: after)) (.tuple (before ++ v' :: after))
  | nullable {a : Annotations} {inner : Schema} {v v' : Value} (inside : Gains inner v v') :
      Gains (.nullable a inner) v v'
  | refined {a : Annotations} {r : Refinement} {base : Schema} {v v' : Value}
      (inside : Gains base v v') : Gains (.refined a r base) v v'

/-- A header name is matched with the last declared name that it equals but for case. -/
def MatchesHeader (ps : List (Value × Schema)) (text name : String) (child : Schema) : Prop :=
  ∃ before after, ps = before ++ (.str name, child) :: after ∧
    Text.toLower name = Text.toLower text ∧
    ∀ p ∈ after, ∀ other, p.1 = .str other → Text.toLower other ≠ Text.toLower text

/-- One entry more in the headers of a request: at the root, an entry whose name equals no declared name
but for case; or an entry within the item of a header, as the property describes it that the name of the
header is matched with. -/
inductive GainsHeader : Schema → Value → Value → Prop
  | entry {a : Annotations} {f : ObjectFields} {ps : List (Value × Schema)}
      (before after : List (Value × Value)) (key item : Value) {text : String}
      (closed : f.additional = false) (name : key.plain = .ok text)
      (undeclared : ∀ p ∈ ps, ∀ other, p.1 = .str other → Text.toLower other ≠ Text.toLower text) :
      GainsHeader (.object a f ps) (.dict (before ++ after)) (.dict (before ++ (key, item) :: after))
  | property {a : Annotations} {f : ObjectFields} {ps : List (Value × Schema)} {child : Schema}
      (before after : List (Value × Value)) {key v v' : Value} {text declared : String}
      (name : key.plain = .ok text) (matched : MatchesHeader ps text declared child)
      (inside : Gains child v v') :
      GainsHeader (.object a f ps) (.dict (before ++ (key, v) :: after))
        (.dict (before ++ (key, v') :: after))
  | array {a : Annotations} {f : ArrayFields} {items : Schema} {v v' : Value}
      (inside : Gains (.array a f items) v v') : GainsHeader (.array a f items) v v'
  | nullable {a : Annotations} {inner : Schema} {v v' : Value} (inside : GainsHeader inner v v') :
      GainsHeader (.nullable a inner) v v'
  | refined {a : Annotations} {r : Refinement} {base : Schema} {v v' : Value}
      (inside : GainsHeader base v v') : GainsHeader (.refined a r base) v v'

/-- One undeclared entry more in the input for a target. -/
def GainsFor (s : Schema) : Target → Value → Value → Prop
  | .header => s.GainsHeader
  | _ => s.Gains

/-! ### Cleaning removes what has been gained -/

theorem clean_of_gains {s : Schema} {v v' : Value} (h : s.Gains v v') : s.clean v' = s.clean v := by
  induction h with
  | entry before after key item closed undeclared =>
      rename_i f ps
      have hremoved : cleanedEntry f ps (key, item) = none := by
        simp [cleanedEntry, undeclared, closed]
      rw [clean_dict, clean_dict, List.filterMap_append, List.filterMap_append, List.filterMap_cons,
        hremoved]
  | property before after declared inside ih =>
      rename_i f ps child key v v'
      have hkept : cleanedEntry f ps (key, v') = cleanedEntry f ps (key, v) := by
        simp [cleanedEntry, declared, ih]
      rw [clean_dict, clean_dict, List.filterMap_append, List.filterMap_append, List.filterMap_cons,
        List.filterMap_cons, hkept]
  | listItem before after inside ih =>
      rw [clean_array_of_items rfl, clean_array_of_items rfl, List.map_append, List.map_append,
        List.map_cons, List.map_cons, ih]
  | tupleItem before after inside ih =>
      rw [clean_array_of_items rfl, clean_array_of_items rfl, List.map_append, List.map_append,
        List.map_cons, List.map_cons, ih]
  | nullable inside ih => rw [clean_nullable, clean_nullable, ih]
  | refined inside ih => exact ih

/-- What cleaning does to the item of a key; nothing is left of the entry if the key is not selected. -/
def cleaningRule (f : ObjectFields) (ps : List (Value × Schema)) (key : Value) :
    Option (Value → Value) :=
  match property? key ps with
  | some s => some s.clean
  | none => if f.additional then some id else none

theorem filterMap_cleanedEntry (f : ObjectFields) (ps : List (Value × Schema))
    (entries : List (Value × Value)) :
    entries.filterMap (cleanedEntry f ps) = Value.select (cleaningRule f ps) entries := by
  refine List.filterMap_congr fun e _ => ?_
  unfold cleanedEntry cleaningRule
  cases property? e.1 ps with
  | some s => rfl
  | none => cases f.additional <;> rfl

/-- Equal keys have the same property: a declared key is a text, and equal to itself alone. -/
theorem property?_congr {ps : List (Value × Schema)} (htexts : ∀ p ∈ ps, ∃ name, p.1 = .str name)
    {key key' : Value} (h : key.same key' = true) : property? key ps = property? key' ps := by
  have hsame : ∀ p ∈ ps, key.same p.1 = key'.same p.1 := by
    intro p hp
    obtain ⟨name, hname⟩ := htexts p hp
    rw [hname, Bool.eq_iff_iff, Value.same_str_right, Value.same_str_right]
    constructor
    · rintro rfl
      exact Value.same_str_left.mp h
    · rintro rfl
      exact Value.same_str_right.mp h
  induction ps with
  | nil => rfl
  | cons p ps ih =>
      have hrest := ih (fun q hq => htexts q (List.mem_cons_of_mem _ hq))
        fun q hq => hsame q (List.mem_cons_of_mem _ hq)
      simp only [property?, List.find?_cons] at hrest ⊢
      rw [hsame p List.mem_cons_self]
      cases key'.same p.1 with
      | true => rfl
      | false => exact hrest

theorem respectsKeys_cleaningRule (f : ObjectFields) {ps : List (Value × Schema)}
    (htexts : ∀ p ∈ ps, ∃ name, p.1 = .str name) : Value.RespectsKeys (cleaningRule f ps) := by
  intro key key' hsame
  rw [cleaningRule, cleaningRule, property?_congr htexts hsame]

/-! ### Headers -/

/-- A header under the name that it is matched with, or under its own. -/
def renamedHeader (names : List (String × Value)) (e : Value × Value) :
    Except Fault (Value × Value) := do
  let folded := Text.toLower (← e.1.plain)
  return ((names.lookup folded).getD e.1, e.2)

theorem renamedHeader_eq {names : List (String × Value)} {key : Value} {text : String}
    (h : key.plain = .ok text) (v : Value) :
    renamedHeader names (key, v) = .ok ((names.lookup (Text.toLower text)).getD key, v) := by
  simp [renamedHeader, h, bind, Except.bind, pure, Except.pure]

/-- Cleaning headers is renaming them one by one, selecting what is declared or admitted, and binding
it. -/
theorem cleanHeaders_dict {a : Annotations} {f : ObjectFields} {ps : List (Value × Schema)}
    (htexts : ∀ p ∈ ps, ∃ name, p.1 = .str name) {names : List (String × Value)}
    (hnames : foldedNames ps = .ok names) (entries : List (Value × Value)) :
    (Schema.object a f ps).cleanHeaders (.dict entries) =
      ((entries.mapM (renamedHeader names)).map (Value.select (cleaningRule f ps))).map
        fun selected => .dict (Value.ofEntries selected) := by
  have hopen : (Schema.object a f ps).cleanHeaders (.dict entries) =
      (entries.mapM (renamedHeader names)).map fun renamed =>
        (Schema.object a f ps).clean (.dict (Value.ofEntries renamed)) := by
    show (renameHeaders ps entries >>= _) = _
    unfold renameHeaders
    rw [hnames]
    show ((entries.mapM (renamedHeader names) >>= _) >>= _) = _
    cases entries.mapM (renamedHeader names) <;> rfl
  rw [hopen]
  cases entries.mapM (renamedHeader names) with
  | error fault => rfl
  | ok renamed =>
      show Except.ok ((Schema.object a f ps).clean _) = .ok _
      rw [clean_dict, filterMap_cleanedEntry,
        Value.select_ofEntries (respectsKeys_cleaningRule f htexts)]

/-- Headers that differ in one place, where nothing is selected or the same, are cleaned to the same. -/
theorem map_select_mapM_congr {names : List (String × Value)} {rule : Value → Option (Value → Value)}
    (before : List (Value × Value)) {rest rest' : List (Value × Value)}
    (h : (rest'.mapM (renamedHeader names)).map (Value.select rule) =
      (rest.mapM (renamedHeader names)).map (Value.select rule)) :
    ((before ++ rest').mapM (renamedHeader names)).map (Value.select rule) =
      ((before ++ rest).mapM (renamedHeader names)).map (Value.select rule) := by
  rw [List.mapM_append, List.mapM_append]
  cases before.mapM (renamedHeader names) with
  | error fault => rfl
  | ok renamed =>
      cases hrest : rest.mapM (renamedHeader names) with
      | error fault =>
          cases hrest' : rest'.mapM (renamedHeader names) with
          | error fault' =>
              rw [hrest, hrest'] at h
              exact h
          | ok renamed' =>
              rw [hrest, hrest'] at h
              cases h
      | ok renamed₁ =>
          cases hrest' : rest'.mapM (renamedHeader names) with
          | error fault' =>
              rw [hrest, hrest'] at h
              cases h
          | ok renamed₂ =>
              rw [hrest, hrest'] at h
              have hselect := Except.ok.inj h
              show Except.ok (Value.select rule (renamed ++ renamed₂)) =
                .ok (Value.select rule (renamed ++ renamed₁))
              rw [Value.select_append, Value.select_append, hselect]

/-- A header that is matched takes the declared spelling. -/
theorem lookup_of_matchesHeader {ps : List (Value × Schema)} {names : List (String × Value)}
    (hnames : foldedNames ps = .ok names) {text name : String} {child : Schema}
    (h : MatchesHeader ps text name child) :
    names.lookup (Text.toLower text) = some (.str name) := by
  obtain ⟨before, after, rfl, hname, hafter⟩ := h
  obtain ⟨pairs, hpairs, hnames⟩ := bind_eq_ok_iff.mp hnames
  obtain rfl := Except.ok.inj hnames
  rw [List.mapM_append] at hpairs
  obtain ⟨pairs₁, -, hpairs⟩ := bind_eq_ok_iff.mp hpairs
  obtain ⟨pairs₂, hpairs₂, hpairs⟩ := bind_eq_ok_iff.mp hpairs
  obtain rfl := Except.ok.inj hpairs
  rw [List.mapM_cons] at hpairs₂
  obtain ⟨_, ⟨⟩, hpairs₂⟩ := bind_eq_ok_iff.mp hpairs₂
  obtain ⟨pairs₃, hpairs₃, hpairs₂⟩ := bind_eq_ok_iff.mp hpairs₂
  obtain rfl := Except.ok.inj hpairs₂
  -- the names are looked up from the last one on, and those behind the match have other forms
  have hlater : pairs₃.reverse.lookup (Text.toLower text) = none := by
    rw [List.lookup_eq_none_iff]
    intro n hn
    obtain ⟨p, hp, hpn⟩ := exists_left_of_forall₂ (mapM_eq_ok_iff.mp hpairs₃) (List.mem_reverse.mp hn)
    obtain ⟨other, hother, rfl⟩ := foldedName_eq_ok.mp hpn
    simpa using (hafter p hp other hother).symm
  simp [List.lookup_append, hlater, hname]

/-- A header that equals no declared name but for case keeps its own. -/
theorem lookup_of_no_match {ps : List (Value × Schema)} {names : List (String × Value)}
    (hnames : foldedNames ps = .ok names) {text : String}
    (h : ∀ p ∈ ps, ∀ other, p.1 = .str other → Text.toLower other ≠ Text.toLower text) :
    names.lookup (Text.toLower text) = none := by
  rw [List.lookup_eq_none_iff]
  intro n hn
  obtain ⟨p, hp, other, hother, rfl⟩ := (foldedNames_eq_ok hnames n).mp hn
  simpa using (h p hp other hother).symm

/-- What no declared name equals but for case is not declared. -/
theorem property?_of_no_match {ps : List (Value × Schema)} (hs : Names ps) {key : Value} {text : String}
    (hkey : key.plain = .ok text)
    (h : ∀ p ∈ ps, ∀ other, p.1 = .str other → Text.toLower other ≠ Text.toLower text) :
    property? key ps = none := by
  rw [property?_eq_none_iff]
  intro p hp
  obtain ⟨name, hname⟩ := hs.texts p hp
  rw [hname, Bool.eq_false_iff]
  intro hsame
  rw [Value.same_str_right.mp hsame] at hkey
  obtain rfl := Except.ok.inj hkey
  exact h p hp name hname rfl

theorem cleanHeaders_of_gains {s : Schema} (hs : s.Named) {v v' : Value} (h : s.GainsHeader v v') :
    s.cleanHeaders v' = s.cleanHeaders v := by
  induction h with
  | entry before after key item closed name undeclared =>
      rename_i f ps text
      obtain ⟨names, hnames⟩ := exists_foldedNames hs.names
      have hremoved : cleaningRule f ps key = none := by
        simp [cleaningRule, property?_of_no_match hs.names name undeclared, closed]
      rw [cleanHeaders_dict hs.names.texts hnames, cleanHeaders_dict hs.names.texts hnames]
      refine congrArg (Except.map _) (map_select_mapM_congr before ?_)
      rw [List.mapM_cons, renamedHeader_eq name, lookup_of_no_match hnames undeclared]
      cases after.mapM (renamedHeader names) with
      | error fault => rfl
      | ok renamed =>
          show Except.ok (Value.select _ ((key, item) :: renamed)) = .ok (Value.select _ renamed)
          simp [Value.select, hremoved]
  | property before after name matched inside =>
      rename_i f ps child key v v' text declared
      obtain ⟨names, hnames⟩ := exists_foldedNames hs.names
      have hmem : (.str declared, child) ∈ ps := by
        obtain ⟨_, _, rfl, -⟩ := matched
        exact List.mem_append_right _ List.mem_cons_self
      have hkept : cleaningRule f ps (.str declared) = some child.clean := by
        simp [cleaningRule, property?_of_mem hs.names hmem]
      rw [cleanHeaders_dict hs.names.texts hnames, cleanHeaders_dict hs.names.texts hnames]
      refine congrArg (Except.map _) (map_select_mapM_congr before ?_)
      rw [List.mapM_cons, List.mapM_cons, renamedHeader_eq name, renamedHeader_eq name,
        lookup_of_matchesHeader hnames matched]
      cases after.mapM (renamedHeader names) with
      | error fault => rfl
      | ok renamed =>
          show Except.ok (Value.select _ ((.str declared, v') :: renamed)) =
            .ok (Value.select _ ((.str declared, v) :: renamed))
          simp [Value.select, hkept, clean_of_gains inside]
  | array inside => exact congrArg Except.ok (clean_of_gains inside)
  | nullable inside ih => rw [cleanHeaders_nullable, cleanHeaders_nullable, ih hs.2]
  | refined inside ih => exact ih hs.2

theorem cleanFor_of_gains {s : Schema} (hs : s.Named) {t : Target} {v v' : Value}
    (h : s.GainsFor t v v') : s.cleanFor (some t) v' = s.cleanFor (some t) v := by
  cases t with
  | header => exact cleanHeaders_of_gains hs h
  | _ => exact congrArg Except.ok (clean_of_gains h)

end Schema

namespace Pipeline

open Schema

/-- The stages after cleaning see the cleaned value alone. -/
theorem apply_congr {p : Pipeline} {t : Target} {v v' : Value}
    (h : p.schema.cleanFor (some t) v' = p.schema.cleanFor (some t) v) :
    p.apply t v' = p.apply t v := by
  unfold apply run
  rw [h]

theorem apply_of_cleanFor_error {p : Pipeline} {t : Target} {v : Value} {fault : Fault}
    (h : p.schema.cleanFor (some t) v = .error fault) : p.apply t v = .error fault := by
  unfold apply run
  rw [h]
  rfl

/-- **Undeclared input has no influence.** However many undeclared entries a value gains, and wherever it
gains them, the pipeline gives the same result: the same data, the same violations or the same fault. -/
theorem apply_of_gains {s : Schema} {p : Pipeline} {t : Target} {v v' : Value}
    (hp : ofSchema s = .ok p) (hs : s.Everywhere DeclaresOnce)
    (h : Relation.ReflTransGen (s.GainsFor t) v v') : p.apply t v' = p.apply t v := by
  obtain ⟨rfl, hcompile⟩ := ofSchema_eq_ok hp
  have hnamed := named_of_compileAt hcompile hs
  apply apply_congr
  induction h with
  | refl => rfl
  | tail _ hstep ih => rw [cleanFor_of_gains hnamed hstep, ih]

/-- Headers with an array of closed objects. -/
def cart : Schema :=
  .object {} { required := some [] }
    [(.str "X-Items", .array {} {} (.nullable {} (.object {} {} [(.str "sku", .string {} {})])))]

/-- An item gains a role, and so does the root. -/
theorem apply_cart :
    ∃ p, ofSchema cart = .ok p ∧ cart.Everywhere DeclaresOnce ∧
      Relation.ReflTransGen (cart.GainsFor .header)
        (.record [("x-items", .list [.record [("sku", .str "1")], .null])])
        (.record [("x-role", .str "root"),
          ("x-items", .list [.record [("sku", .str "1"), ("role", .str "admin")], .null])]) ∧
      p.apply .header (.record [("x-role", .str "root"),
          ("x-items", .list [.record [("sku", .str "1"), ("role", .str "admin")], .null])]) =
        .ok (.success (.record [("X-Items", .list [.record [("sku", .str "1")], .null])])) := by
  obtain ⟨p, hp, happly⟩ : ∃ p, ofSchema cart = .ok p ∧
      p.apply .header (.record [("x-items", .list [.record [("sku", .str "1")], .null])]) =
        .ok (.success (.record [("X-Items", .list [.record [("sku", .str "1")], .null])])) :=
    ⟨_, rfl, rfl⟩
  have honce : cart.Everywhere DeclaresOnce :=
    ⟨List.pairwise_singleton _ _, ⟨trivial, trivial, List.pairwise_singleton _ _, trivial, trivial⟩,
      trivial⟩
  have hfolded : Text.toLower "X-Items" = Text.toLower "x-items" := by decide +kernel
  have hother : Text.toLower "X-Items" ≠ Text.toLower "x-role" := by decide +kernel
  have hitem : cart.GainsHeader (.record [("x-items", .list [.record [("sku", .str "1")], .null])])
      (.record [("x-items", .list [.record [("sku", .str "1"), ("role", .str "admin")], .null])]) := by
    refine .property [] [] rfl ⟨[], [], rfl, hfolded, by simp⟩ (.listItem [] [.null] (.nullable ?_))
    exact .entry [(.str "sku", .str "1")] [] (.str "role") (.str "admin") rfl rfl
  have hroot : cart.GainsHeader
      (.record [("x-items", .list [.record [("sku", .str "1"), ("role", .str "admin")], .null])])
      (.record [("x-role", .str "root"),
        ("x-items", .list [.record [("sku", .str "1"), ("role", .str "admin")], .null])]) := by
    refine .entry [] _ (.str "x-role") (.str "root") rfl rfl ?_
    intro p hp other heq
    obtain rfl := List.mem_singleton.mp hp
    rwa [← Value.str.inj heq]
  have hgains : Relation.ReflTransGen (cart.GainsFor .header) _ _ := .tail (.single hitem) hroot
  exact ⟨p, hp, honce, hgains, (apply_of_gains hp honce hgains).trans happly⟩

/-- A closed object whose only property is the name `1`. -/
def numbered : Schema := .object {} {} [(.str "1", .string {} {})]

/-- Two properties whose names are equal but for case; the object of the first is closed, that of the
second open. -/
def twofold : Schema :=
  .object {} { required := some [] }
    [(.str "X", .object {} {} []), (.str "x", .object {} { additional := true } [])]

/-- Among headers it is the text of a key that counts, whatever the key is: a number may be read as a
declared name, and a number that is too long for a text ends in a fault. And of two names that are equal
but for case the last one describes the item, whichever of them the key is. -/
theorem not_apply_header_of_gains :
    (∃ p, ofSchema numbered = .ok p ∧ numbered.Gains (.dict []) (.dict [(.int 1, .str "a")]) ∧
      p.apply .header (.dict []) = .ok (.failure [⟨"1", "Missing required property"⟩]) ∧
      p.apply .header (.dict [(.int 1, .str "a")]) = .ok (.success (.record [("1", .str "a")]))) ∧
    (∃ p, ofSchema numbered = .ok p ∧
      numbered.Gains (.dict []) (.dict [(.int (Nat.pow 10 Numeral.digitLimit : Nat), .null)]) ∧
      p.apply .header (.dict [(.int (Nat.pow 10 Numeral.digitLimit : Nat), .null)]) =
        .error .digitLimit) ∧
    (∃ p, ofSchema twofold = .ok p ∧
      twofold.Gains (.record [("X", .dict [])]) (.record [("X", .record [("k", .int 1)])]) ∧
      p.apply .header (.record [("X", .dict [])]) = .ok (.success (.record [("x", .dict [])])) ∧
      p.apply .header (.record [("X", .record [("k", .int 1)])]) =
        .ok (.success (.record [("x", .record [("k", .int 1)])]))) := by
  have hnames : foldedNames [(.str "1", .string {} {})] = .ok [(Text.toLower "1", .str "1")] := rfl
  have htexts : ∀ p ∈ [(Value.str "1", Schema.string {} {})], ∃ name, p.1 = .str name := by
    simp
  -- the number has the text of the declared name
  have hone : (Value.int 1).plain = .ok "1" := by
    show intText 1 = _
    rw [intText, Numeral.withinLimit_of_lt (by decide)]
    rfl
  have hread : numbered.cleanHeaders (.dict [(.int 1, .str "a")]) = .ok (.record [("1", .str "a")]) := by
    rw [numbered, cleanHeaders_dict htexts hnames, List.mapM_cons, renamedHeader_eq hone]
    rfl
  have hfault : ∀ n : Int, Numeral.withinLimit n = false →
      ∃ p, ofSchema numbered = .ok p ∧ numbered.Gains (.dict []) (.dict [(.int n, .null)]) ∧
        p.apply .header (.dict [(.int n, .null)]) = .error .digitLimit := by
    intro n hn
    have hplain : (Value.int n).plain = intText n := rfl
    have hclean : numbered.cleanHeaders (.dict [(.int n, .null)]) = .error .digitLimit := by
      rw [numbered, cleanHeaders_dict htexts hnames, List.mapM_cons, renamedHeader, hplain,
        intText_of_not_withinLimit hn]
      rfl
    exact ⟨_, rfl, .entry [] [] _ .null rfl rfl, apply_of_cleanFor_error hclean⟩
  refine ⟨⟨_, rfl, .entry [] [] (.int 1) (.str "a") rfl rfl, rfl, ?_⟩,
    hfault _ Numeral.not_withinLimit_pow,
    ⟨_, rfl, .property [] [] rfl (.entry [] [] (.str "k") (.int 1) rfl rfl), rfl, rfl⟩⟩
  have hkept : numbered.cleanHeaders (.record [("1", .str "a")]) = .ok (.record [("1", .str "a")]) := rfl
  refine Eq.trans (apply_congr (v := .record [("1", .str "a")]) ?_) rfl
  exact hread.trans hkept.symm

end Pipeline

end ApiContract
