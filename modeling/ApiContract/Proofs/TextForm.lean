import ApiContract.Proofs.Acceptance
import ApiContract.Proofs.Cleaning
import ApiContract.Proofs.Filling
import ApiContract.Proofs.IntegerText
import ApiContract.Proofs.Parts
import ApiContract.Proofs.RepeatedKeys

/-!
# The text form of a value

A flat dictionary is written as pairs of texts, one for each scalar and one for each item of an array. What
a query or a form makes of these pairs goes through the pipeline and comes back as the dictionary
(`Pipeline.apply_of_encode`), in whatever order the pairs of different keys arrive.

Each property is on its own: folding gives the property its texts, cleaning and filling leave texts
alone, and conversion undoes the writing (`Schema.convert_folded`).
-/

namespace ApiContract

/-! ### Writing -/

/-- The text of a scalar: `null` for null, and what conversion toward a text gives for the others. -/
def Value.scalarText : Value → Except Fault String
  | .null => .ok "null"
  | v => do
    match ← Convert.string v with
    | .str text => return text
    | _ => throw .unsupported

/-- What is written of a value: the items of an array, or the value itself. -/
def Value.scalars (v : Value) : List Value := v.items?.getD [v]

namespace TextForm

/-- The pairs of one entry. -/
def encodeEntry (e : Value × Value) : Except Fault (List (String × String)) :=
  match e.1 with
  | .str key => do return (← e.2.scalars.mapM Value.scalarText).map fun text => (key, text)
  | _ => .error .unsupported

/-- The pairs of a dictionary, in the order of its entries. -/
def encode (entries : List (Value × Value)) : Except Fault (List (String × String)) := do
  return (← entries.mapM encodeEntry).flatten

/-- The pairs of a dictionary in another order: the pairs of each key stay in their order, and the keys
come for the first time in the order of the dictionary. -/
structure Interleaves (entries : List (Value × Value)) (written pairs : List (String × String)) :
    Prop where
  sameKey : ∀ key, pairs.filter (·.1 == key) = written.filter (·.1 == key)
  firstKeys : (pairs.map (·.1)).eraseDups = Schema.textKeys (entries.map (·.1))

/-- No float, no empty array, and no integer with more digits than can be written. -/
def IsWritable : Value → Prop
  | .float _ => False
  | .list [] => False
  | .tuple [] => False
  | .int n => Numeral.withinLimit n = true
  | _ => True

end TextForm

open TextForm

namespace Schema

/-! ### Flat schemas -/

/-- A text, number or truth value, behind refinements. -/
def isLeaf (s : Schema) : Bool :=
  match s.unwrap with
  | .string .. | .number .. | .integer .. | .boolean _ => true
  | _ => false

/-- A leaf, or a nullable around a leaf that is no text. -/
def isScalar (s : Schema) : Bool :=
  match s.unwrap with
  | .nullable _ inner => inner.isLeaf && !inner.unwrap.isText
  | _ => s.isLeaf

/-- A scalar, or an array of scalars. -/
def isFlat (s : Schema) : Bool :=
  match s.unwrap with
  | .array _ _ items => items.isScalar
  | _ => s.isScalar

/-! ### Refinements do not count before the check -/

theorem clean_unwrap (s : Schema) (v : Value) : s.unwrap.clean v = s.clean v := by
  induction s using Schema.induction with
  | refined a r base ih => exact ih
  | _ => rfl

theorem fill_unwrap (s : Schema) (v : Value) : s.unwrap.fill v = s.fill v := by
  induction s using Schema.induction with
  | refined a r base ih => exact ih
  | _ => rfl

theorem convert_unwrap (textual : Bool) (s : Schema) (v : Value) :
    s.unwrap.convert textual v = s.convert textual v := by
  induction s using Schema.induction with
  | refined a r base ih => exact ih
  | _ => rfl

theorem Satisfies.unwrap {s : Schema} {v : Value} (h : s.Satisfies v) : s.unwrap.Satisfies v := by
  induction s using Schema.induction with
  | refined a r base ih => exact ih h.1
  | _ => exact h

theorem Everywhere.unwrap {P : Schema → Prop} {s : Schema} (h : s.Everywhere P) : s.unwrap.Everywhere P := by
  induction s using Schema.induction with
  | refined a r base ih => exact ih h.2
  | _ => exact h

theorem Named.unwrap {s : Schema} (h : s.Named) : s.unwrap.Named := Everywhere.unwrap h

/-! ### Reading what has been written -/

theorem scalarText_int {n : Int} (h : Numeral.withinLimit n = true) :
    ∃ text, intText n = .ok text ∧ (Value.int n).scalarText = .ok text ∧ text ≠ "null" := by
  have htext : intText n = .ok (String.ofList (Numeral.intChars n)) := by
    rw [intText, h]
    rfl
  have hstring : Convert.string (.int n) = .ok (.str (String.ofList (Numeral.intChars n))) := by
    rw [Convert.string, htext]
    rfl
  refine ⟨_, htext, ?_, ?_⟩
  · rw [Value.scalarText, hstring]
    · rfl
    · simp
  · rcases Convert.string_cases hstring with heq | ⟨text, heq, hne⟩
    · cases heq
    · rwa [Value.str.inj heq]

/-- A leaf and a value of the kind that the leaf describes. -/
inductive LeafValue : Schema → Value → Prop where
  | string (a : Annotations) (f : StringFields) (text : String) : LeafValue (.string a f) (.str text)
  | number (a : Annotations) (f : NumberFields) (n : Int) : LeafValue (.number a f) (.int n)
  | fraction (a : Annotations) (f : NumberFields) (x : Binary64) : LeafValue (.number a f) (.float x)
  | integer (a : Annotations) (f : NumberFields) (n : Int) : LeafValue (.integer a f) (.int n)
  | boolean (a : Annotations) (b : Bool) : LeafValue (.boolean a) (.bool b)

theorem leafValue_of_satisfies {s : Schema} (hs : s.isLeaf = true) {v : Value} (hsat : s.Satisfies v) :
    LeafValue s.unwrap v := by
  have hsat' := hsat.unwrap
  unfold isLeaf at hs
  generalize s.unwrap = node at hs hsat'
  cases node with
  | string a f =>
      obtain ⟨text, rfl, -⟩ := hsat'
      exact .string a f text
  | number a f =>
      obtain ⟨⟨n, rfl⟩ | ⟨x, rfl, -⟩, -⟩ := hsat'
      · exact .number a f n
      · exact .fraction a f x
  | integer a f =>
      obtain ⟨⟨n, rfl⟩, -⟩ := hsat'
      exact .integer a f n
  | boolean a =>
      obtain ⟨b, rfl⟩ := hsat'
      exact .boolean a b
  | _ => cases hs

/-- The text of a leaf's value is converted back to the value. Only a text leaf has a value that is written
as `null`. -/
theorem convert_leafText {s : Schema} (hs : s.isLeaf = true) {v : Value} (hsat : s.Satisfies v)
    (hv : IsWritable v) :
    ∃ text, v.scalarText = .ok text ∧ s.convert true (.str text) = .ok v ∧
      (s.unwrap.isText = false → text ≠ "null") := by
  simp only [← convert_unwrap true s]
  have hleaf := leafValue_of_satisfies hs hsat
  generalize s.unwrap = node at hleaf
  cases hleaf with
  | string a f text =>
      refine ⟨text, rfl, rfl, ?_⟩
      intro htext
      cases htext
  | number a f n =>
      obtain ⟨text, hint, htext, hne⟩ := scalarText_int hv
      exact ⟨text, htext, Convert.number_of_intText hint false, fun _ => hne⟩
  | fraction a f x => exact absurd hv id
  | integer a f n =>
      obtain ⟨text, hint, htext, hne⟩ := scalarText_int hv
      exact ⟨text, htext, Convert.number_of_intText hint true, fun _ => hne⟩
  | boolean a b =>
      cases b
      · exact ⟨"false", rfl, rfl, fun _ => by decide⟩
      · exact ⟨"true", rfl, rfl, fun _ => by decide⟩

/-- The text of a scalar is converted back to the scalar. -/
theorem convert_scalarText {s : Schema} (hs : s.isScalar = true) {v : Value} (hsat : s.Satisfies v)
    (hv : IsWritable v) : ∃ text, v.scalarText = .ok text ∧ s.convert true (.str text) = .ok v := by
  unfold isScalar at hs
  split at hs
  · rename_i a inner hnode
    rw [Bool.and_eq_true, Bool.not_eq_true'] at hs
    have hsat' := hsat.unwrap
    rw [hnode] at hsat'
    simp only [← convert_unwrap true s, hnode]
    rcases hsat' with rfl | hinner
    · -- null is written as `null`, which a nullable around no text reads as null
      refine ⟨"null", rfl, ?_⟩
      have hreads : readsNull true inner (.str "null") = true := by
        rw [readsNull, hs.2]
        rfl
      rw [convert_nullable (v := .str "null") (by simp), hreads, if_pos rfl]
    · obtain ⟨text, htext, hconvert, hne⟩ := convert_leafText hs.1 hinner hv
      have hreads : readsNull true inner (.str text) = false := by
        rw [Bool.eq_false_iff]
        intro hreads
        exact hne hs.2 (Value.str.inj (eq_null_text_of_readsNull hreads))
      refine ⟨text, htext, ?_⟩
      rw [convert_nullable (v := .str text) (by simp), hreads, if_neg Bool.false_ne_true]
      exact hconvert
  · obtain ⟨text, htext, hconvert, -⟩ := convert_leafText hs hsat hv
    exact ⟨text, htext, hconvert⟩

theorem items?_of_isLeaf {s : Schema} (hs : s.isLeaf = true) {v : Value} (hsat : s.Satisfies v) :
    v.items? = none := by
  have hleaf := leafValue_of_satisfies hs hsat
  generalize s.unwrap = node at hleaf
  cases hleaf <;> rfl

/-- A scalar is no array. -/
theorem items?_of_isScalar {s : Schema} (hs : s.isScalar = true) {v : Value} (hsat : s.Satisfies v) :
    v.items? = none := by
  unfold isScalar at hs
  split at hs
  · rename_i a inner hnode
    have hsat' := hsat.unwrap
    rw [hnode] at hsat'
    rcases hsat' with rfl | hinner
    · rfl
    · exact items?_of_isLeaf (Bool.and_eq_true_iff.mp hs).1 hinner
  · exact items?_of_isLeaf hs hsat

/-- An array is converted back from its folded texts, from a single one and from several. -/
theorem convert_folded_items {a : Annotations} {f : ArrayFields} {items : Schema} {xs : List Value}
    {texts : List String} (hne : texts ≠ [])
    (h : List.Forall₂ (fun x text => items.convert true (.str text) = .ok x) xs texts) :
    (Schema.array a f items).convert true (Http.folded texts) = .ok (.list xs) := by
  rcases texts with _ | ⟨text, _ | ⟨second, rest⟩⟩
  · exact absurd rfl hne
  · -- a text on its own is read as an array of one item
    rcases h with _ | ⟨hx, ⟨⟩⟩
    exact (convert_single_eq_ok rfl rfl).mpr ⟨_, rfl, hx⟩
  · refine (convert_items_eq_ok rfl).mpr ⟨xs, rfl, ?_⟩
    show List.Forall₂ _ ((text :: second :: rest).map Value.str) xs
    rw [List.forall₂_map_left_iff]
    exact h.flip

/-- The folded texts of a property are converted back to its value. -/
theorem convert_folded {s : Schema} (hs : s.isFlat = true) {v : Value} (hsat : s.Satisfies v)
    (hv : v.Everywhere IsWritable) (hfilled : s.fill v = v) :
    ∃ texts, v.scalars.mapM Value.scalarText = .ok texts ∧ texts ≠ [] ∧
      s.convert true (Http.folded texts) = .ok v := by
  unfold isFlat at hs
  split at hs
  · rename_i a f items hnode
    have hsat' := hsat.unwrap
    rw [hnode] at hsat'
    obtain ⟨xs, hxs, -, hitems⟩ := hsat'
    -- filling has made a list of a tuple
    obtain rfl : v = .list xs := by
      rw [← fill_unwrap, hnode, fill_array_of_items hxs] at hfilled
      rw [← hfilled] at hxs ⊢
      rw [Option.some.inj hxs]
    obtain ⟨hwritable, hvalues⟩ := Value.everywhere_list.mp hv
    have htext : ∀ x ∈ xs, ∃ text, x.scalarText = .ok text ∧ items.convert true (.str text) = .ok x :=
      fun x hx => convert_scalarText hs (hitems x hx) (hvalues x hx).here
    obtain ⟨texts, htexts⟩ := exists_mapM_eq_ok fun x hx => (htext x hx).imp fun _ h => h.1
    have hforall := mapM_eq_ok_iff.mp htexts
    -- an empty array would leave no pair behind
    have hne : texts ≠ [] := by
      rintro rfl
      obtain rfl := List.forall₂_nil_right_iff.mp hforall
      exact hwritable
    refine ⟨texts, htexts, hne, ?_⟩
    rw [← convert_unwrap, hnode]
    refine convert_folded_items hne (forall₂_imp_of_mem hforall fun x hx text hxtext => ?_)
    obtain ⟨text', htext', hconvert⟩ := htext x hx
    rwa [Except.ok.inj (hxtext.symm.trans htext')]
  · obtain ⟨text, htext, hconvert⟩ := convert_scalarText hs hsat hv.here
    refine ⟨[text], ?_, List.cons_ne_nil _ _, hconvert⟩
    rw [Value.scalars, items?_of_isScalar hs hsat, mapM_eq_ok_iff]
    exact .cons htext .nil

/-! ### Texts before conversion -/

theorem clean_text (s : Schema) (text : String) : s.clean (.str text) = .str text := by
  induction s using Schema.induction with
  | nullable a inner ih => exact (clean_nullable a inner (.str text)).trans ih
  | refined a r base ih => exact ih
  | _ => rfl

theorem clean_texts (s : Schema) (texts : List String) :
    s.clean (.list (texts.map .str)) = .list (texts.map .str) := by
  induction s using Schema.induction with
  | array a f items ih =>
      rw [clean_array_of_items rfl, List.map_map]
      exact congrArg _ (List.map_congr_left fun text _ => clean_text items text)
  | nullable a inner ih => exact (clean_nullable a inner _).trans ih
  | refined a r base ih => exact ih
  | _ => rfl

theorem applyDefaults_text (s : Schema) (text : String) : s.applyDefaults (.str text) = .str text := by
  rw [applyDefaults_of_isAbsent_eq_false s rfl]
  exact fill_of_scalar s rfl rfl (by simp)

theorem applyDefaults_texts (s : Schema) (texts : List String) :
    s.applyDefaults (.list (texts.map .str)) = .list (texts.map .str) := by
  rw [applyDefaults_of_isAbsent_eq_false s rfl]
  induction s using Schema.induction with
  | array a f items ih =>
      rw [fill_array_of_items rfl, List.map_map]
      exact congrArg _ (List.map_congr_left fun text _ => applyDefaults_text items text)
  | nullable a inner ih =>
      rw [fill_nullable (v := .list _) (by simp), applyDefaults_of_isAbsent_eq_false inner rfl]
      exact ih
  | refined a r base ih => exact ih
  | _ => rfl

/-- Cleaning and filling leave texts alone. -/
theorem clean_folded (s : Schema) (texts : List String) :
    s.clean (Http.folded texts) = Http.folded texts ∧
      s.applyDefaults (Http.folded texts) = Http.folded texts := by
  rcases texts with _ | ⟨text, _ | ⟨second, rest⟩⟩
  · exact ⟨clean_texts s [], applyDefaults_texts s []⟩
  · exact ⟨clean_text s text, applyDefaults_text s text⟩
  · exact ⟨clean_texts s _, applyDefaults_texts s _⟩

/-- The entries of a dictionary with folded texts in the place of items: cleaning leaves them alone, since
every key is declared. -/
theorem clean_of_folded {a : Annotations} {f : ObjectFields} {ps : List (Value × Schema)}
    {raw : List (Value × Value)} (hdeclared : ∀ e ∈ raw, ∃ s, property? e.1 ps = some s)
    (hfolded : ∀ e ∈ raw, ∃ texts, e.2 = Http.folded texts) :
    (Schema.object a f ps).clean (.dict raw) = .dict raw := by
  have hfixed : ∀ e ∈ raw, cleanedEntry f ps e = some e := by
    intro e he
    obtain ⟨s, hs⟩ := hdeclared e he
    obtain ⟨texts, htexts⟩ := hfolded e he
    rw [cleanedEntry, hs, htexts]
    show some (e.1, s.clean (Http.folded texts)) = some e
    rw [(clean_folded s texts).1, ← htexts]
  rw [clean_dict, List.filterMap_congr hfixed, List.filterMap_some]

/-- Filling leaves them alone, too, if it adds nothing to the dictionary. -/
theorem fill_of_folded {a : Annotations} {f : ObjectFields} {ps : List (Value × Schema)}
    (h : Names ps) {raw entries : List (Value × Value)}
    (hkeys : raw.map (·.1) = (fillProperties ps entries).map (·.1))
    (hfolded : ∀ e ∈ raw, ∃ texts, e.2 = Http.folded texts) :
    (Schema.object a f ps).fill (.dict raw) = .dict raw := by
  have hfixed : ∀ e ∈ raw, (e.1, filledItem ps e) = id e := by
    intro e he
    refine Prod.ext rfl ?_
    obtain ⟨texts, htexts⟩ := hfolded e he
    rw [filledItem]
    cases property? e.1 ps with
    | none => rfl
    | some s =>
        show s.applyDefaults e.2 = e.2
        rw [htexts, (clean_folded s texts).2]
  show Value.dict (fillProperties ps raw) = .dict raw
  rw [fillProperties_eq h, missingEntries_eq_nil h hkeys, List.append_nil,
    List.map_congr_left hfixed, List.map_id]

end Schema

/-! ### The pairs of a dictionary -/

namespace TextForm

open Http Schema

theorem textsOf_append (key : String) (pairs pairs' : List (String × String)) :
    textsOf key (pairs ++ pairs') = textsOf key pairs ++ textsOf key pairs' := by
  rw [textsOf, List.filter_append, List.map_append]
  rfl

theorem textsOf_own (key : String) (texts : List String) :
    textsOf key (texts.map fun text => (key, text)) = texts := by
  rw [textsOf, List.filter_map, List.map_map]
  simp [Function.comp_def]

theorem textsOf_other {key key' : String} (h : key' ≠ key) (texts : List String) :
    textsOf key (texts.map fun text => (key', text)) = [] := by
  refine textsOf_of_new fun hmem => ?_
  rw [List.map_map] at hmem
  obtain ⟨text, -, hkey⟩ := List.mem_map.mp hmem
  exact h hkey

/-- An entry has been written as texts of which something holds. -/
def Written (Q : Value × Value → List String → Prop) (e : Value × Value)
    (part : List (String × String)) : Prop :=
  ∃ key texts, e.1 = .str key ∧ part = texts.map (fun text => (key, text)) ∧ Q e texts

/-- The texts of a key among all pairs are those of its entry. -/
theorem textsOf_flatten {Q : Value × Value → List String → Prop} {entries : List (Value × Value)}
    {parts : List (List (String × String))} (h : List.Forall₂ (Written Q) entries parts)
    (hdiffer : Value.KeysDiffer entries) :
    ∀ e ∈ entries, ∃ key, e.1 = .str key ∧ Q e (textsOf key parts.flatten) := by
  induction h with
  | nil =>
      intro e he
      cases he
  | cons hhead htail ih =>
      rename_i e part entries parts
      obtain ⟨key, texts, hkey, rfl, hQ⟩ := hhead
      obtain ⟨hfirst, hrest⟩ := List.pairwise_cons.mp hdiffer
      -- the first entry shares its key with no other, so its pairs and theirs do not mix
      have hne {e' : Value × Value} (he' : e' ∈ entries) {key' : String} (hkey' : e'.1 = .str key') :
          key ≠ key' := by
        rintro rfl
        have hsame := hfirst e' he'
        rw [hkey', hkey, Value.same_str_left.mpr rfl] at hsame
        cases hsame
      have hnew : key ∉ parts.flatten.map (·.1) := by
        intro hmem
        obtain ⟨pair, hpair, rfl⟩ := List.mem_map.mp hmem
        obtain ⟨part, hpart, hpair⟩ := List.mem_flatten.mp hpair
        obtain ⟨e', he', key', texts', hkey', rfl, -⟩ := exists_left_of_forall₂ htail hpart
        obtain ⟨text, -, rfl⟩ := List.mem_map.mp hpair
        exact hne he' hkey' rfl
      intro e' he'
      rw [List.flatten_cons]
      rcases List.mem_cons.mp he' with rfl | he'
      · refine ⟨key, hkey, ?_⟩
        rw [textsOf_append, textsOf_own, textsOf_of_new hnew, List.append_nil]
        exact hQ
      · obtain ⟨key', hkey', hQ'⟩ := ih hrest e' he'
        refine ⟨key', hkey', ?_⟩
        rw [textsOf_append, textsOf_other (hne he' hkey'), List.nil_append]
        exact hQ'

theorem encodeEntry_eq_ok {key : String} {v : Value} {texts : List String}
    (h : v.scalars.mapM Value.scalarText = .ok texts) :
    encodeEntry (.str key, v) = .ok (texts.map fun text => (key, text)) :=
  bind_eq_ok_iff.mpr ⟨texts, h, rfl⟩

/-- Keys of a dictionary that are all texts. -/
theorem forall₂_textKeys {R : Value × Value → Value × Value → Prop} {entries : List (Value × Value)}
    {item : String → Value} (h : ∀ e ∈ entries, ∃ key, e.1 = .str key ∧ R (.str key, item key) e) :
    List.Forall₂ R ((textKeys (entries.map (·.1))).map fun key => (.str key, item key)) entries := by
  induction entries with
  | nil => exact .nil
  | cons e entries ih =>
      obtain ⟨key, hkey, hR⟩ := h e List.mem_cons_self
      have hkeys : textKeys ((e :: entries).map (·.1)) = key :: textKeys (entries.map (·.1)) := by
        rw [List.map_cons, hkey]
        rfl
      rw [hkeys]
      exact .cons hR (ih fun e he => h e (List.mem_cons_of_mem _ he))

end TextForm

namespace Pipeline

open Schema Http

variable {a : Annotations} {f : ObjectFields} {ps : List (Value × Schema)}
  {entries raw : List (Value × Value)}

/-- Every key of a valid dictionary is declared, if the object is closed. -/
theorem exists_property (hclosed : f.additional = false)
    (hsat : (Schema.object a f ps).Satisfies (.dict entries)) :
    ∀ e ∈ entries, ∃ s, property? e.1 ps = some s := by
  intro e he
  obtain ⟨_, ⟨⟩, -, -, hdeclared⟩ := hsat
  cases hs : property? e.1 ps with
  | some s => exact ⟨s, rfl⟩
  | none =>
      obtain ⟨q, hq, hsame⟩ := hdeclared hclosed e he
      rw [property?_eq_none_iff.mp hs q hq] at hsame
      cases hsame

/-- Every entry of a flat dictionary is written, and its texts are converted back to its item. -/
theorem exists_texts (hnames : Names ps) (hclosed : f.additional = false)
    (hflat : ∀ q ∈ ps, q.2.isFlat = true) (hd : (Value.dict entries).WellFormed)
    (hsat : (Schema.object a f ps).Satisfies (.dict entries))
    (hfilled : fillProperties ps entries = entries)
    (hwritable : (Value.dict entries).Everywhere IsWritable) :
    ∀ e ∈ entries, ∃ key texts, e.1 = .str key ∧ e.2.scalars.mapM Value.scalarText = .ok texts ∧
      convertProperty true ps e.1 (folded texts) = .ok e.2 := by
  intro e he
  obtain ⟨s, hs⟩ := exists_property hclosed hsat e he
  obtain ⟨_, ⟨⟩, -, hprops, -⟩ := hsat
  have hmem := mem_of_property? hnames hs
  obtain ⟨key, hkey⟩ := hnames.texts _ hmem
  have hitem := satisfies_item hnames (Value.wellFormed_dict.mp hd).1 hprops he hs
  have hfill := filledItem_of_fillProperties hnames hfilled e he
  rw [filledItem, hs] at hfill
  obtain ⟨texts, htexts, -, hconvert⟩ := convert_folded (hflat _ hmem) hitem
    ((Value.everywhere_dict.mp hwritable).2 e he) ((applyDefaults_of_satisfies hitem).symm.trans hfill)
  refine ⟨key, texts, hkey, htexts, ?_⟩
  rw [convertProperty_eq, hs]
  exact hconvert

/-- Entries that can be written one by one can be written together. -/
theorem exists_encode {Q : Value × Value → List String → Prop}
    (h : ∀ e ∈ entries, ∃ key texts, e.1 = .str key ∧
      e.2.scalars.mapM Value.scalarText = .ok texts ∧ Q e texts) :
    ∃ parts, encode entries = .ok parts.flatten ∧ List.Forall₂ (Written Q) entries parts := by
  have hencode : ∀ e ∈ entries, ∃ part, encodeEntry e = .ok part := by
    rintro ⟨key, v⟩ he
    obtain ⟨key, texts, rfl, htexts, -⟩ := h _ he
    exact ⟨_, encodeEntry_eq_ok htexts⟩
  obtain ⟨parts, hparts⟩ := exists_mapM_eq_ok hencode
  refine ⟨parts, bind_eq_ok_iff.mpr ⟨parts, hparts, rfl⟩, ?_⟩
  refine forall₂_imp_of_mem (mapM_eq_ok_iff.mp hparts) ?_
  rintro ⟨key, v⟩ he part hpart
  obtain ⟨key, texts, rfl, htexts, hQ⟩ := h _ he
  rw [encodeEntry_eq_ok htexts] at hpart
  exact ⟨key, texts, rfl, (Except.ok.inj hpart).symm, hQ⟩

/-- Folding brings the texts of every key together, in whatever order the pairs arrive. -/
theorem entriesConverted_foldPairs {written pairs : List (String × String)}
    (h : ∀ e ∈ entries, ∃ key, e.1 = .str key ∧
      convertProperty true ps e.1 (folded (textsOf key written)) = .ok e.2)
    (hpairs : Interleaves entries written pairs) :
    EntriesConverted true ps (foldPairs (Request.textPairs pairs)) entries := by
  rw [foldPairs_textPairs, hpairs.firstKeys]
  refine forall₂_textKeys fun e he => ?_
  obtain ⟨key, hkey, hconvert⟩ := h e he
  refine ⟨key, hkey, hkey, ?_⟩
  rw [textsOf, hpairs.sameKey, ← hkey]
  exact hconvert

/-- Entries with texts in the place of items go through the stages, and come out as the entries that the
texts are converted to. -/
theorem stages_of_folded {s : Schema} (hnames : Names ps) (hnode : s.unwrap = .object a f ps)
    (hdeclared : ∀ e ∈ entries, ∃ s, property? e.1 ps = some s)
    (hfolded : ∀ e ∈ raw, ∃ texts, e.2 = folded texts)
    (hfilled : fillProperties ps entries = entries) (hconverted : EntriesConverted true ps raw entries) :
    s.clean (.dict raw) = .dict raw ∧ s.applyDefaults (.dict raw) = .dict raw ∧
      s.convert true (.dict raw) = .ok (.dict entries) := by
  rw [applyDefaults_of_isAbsent_eq_false s rfl, ← clean_unwrap, ← fill_unwrap, ← convert_unwrap, hnode]
  have hkeys : raw.map (·.1) = (fillProperties ps entries).map (·.1) := by
    rw [hfilled]
    exact hconverted.keys.symm
  have hdeclared' : ∀ e ∈ raw, ∃ s, property? e.1 ps = some s := by
    intro e he
    obtain ⟨e', he', hkey, -⟩ := exists_right_of_forall₂ hconverted he
    rw [← hkey]
    exact hdeclared e' he'
  exact ⟨clean_of_folded hdeclared' hfolded, fill_of_folded hnames hkeys hfolded,
    convert_dict_eq_ok.mpr ⟨entries, rfl, hconverted⟩⟩

/-- **Writing a value as text is undone by the pipeline.** The schema is a closed object of flat
properties, and the value is a valid dictionary in which nothing is to be filled. -/
theorem apply_of_encode {s : Schema} {p : Pipeline} {f : ObjectFields} {ps : List (Value × Schema)}
    {entries : List (Value × Value)} (hp : ofSchema s = .ok p) (hs : s.WellFormed)
    (hobject : s.object? = some (f, ps)) (hclosed : f.additional = false)
    (hflat : ∀ q ∈ ps, q.2.isFlat = true) (hd : (Value.dict entries).WellFormed)
    (hcheck : p.validator.check (.dict entries) = .ok true)
    (hfilled : s.applyDefaults (.dict entries) = .dict entries)
    (hwritable : (Value.dict entries).Everywhere IsWritable) :
    ∃ written, encode entries = .ok written ∧
      ∀ pairs, Interleaves entries written pairs → ∀ t, t = .query ∨ t = .form →
        p.apply t (.dict (foldPairs (Request.textPairs pairs))) = .ok (.success (.dict entries)) := by
  obtain ⟨rfl, hcompile⟩ := ofSchema_eq_ok hp
  obtain ⟨a, hnode⟩ := object?_eq_some hobject
  have hnamed := (named_of_compileAt hcompile hs.declaresOnce).unwrap
  rw [hnode] at hnamed
  have hnames : Names ps := hnamed.names
  have htrace := (Trace.take_one_isEmpty_iff _).mp hcheck
  have hsat := ((isClean_run_iff hcompile _ "").mp htrace).unwrap
  rw [hnode] at hsat
  rw [applyDefaults_of_isAbsent_eq_false _ rfl, ← fill_unwrap, hnode] at hfilled
  have hsame : fillProperties ps entries = entries := Value.dict.inj hfilled
  obtain ⟨parts, hencode, hparts⟩ :=
    exists_encode (exists_texts hnames hclosed hflat hd hsat hsame hwritable)
  refine ⟨parts.flatten, hencode, fun pairs hpairs t ht => ?_⟩
  have hconverted := entriesConverted_foldPairs
    (textsOf_flatten hparts (Value.wellFormed_dict.mp hd).1) hpairs
  have hfolded : ∀ e ∈ foldPairs (Request.textPairs pairs), ∃ texts, e.2 = folded texts := by
    rw [foldPairs_textPairs]
    intro e he
    obtain ⟨key, -, rfl⟩ := List.mem_map.mp he
    exact ⟨_, rfl⟩
  obtain ⟨hclean, hfill, hconvert⟩ := stages_of_folded hnames hnode (exists_property hclosed hsat)
    hfolded hsame hconverted
  refine apply_eq_success_iff.mpr ⟨.dict (foldPairs (Request.textPairs pairs)), ?_, ?_, htrace⟩
  · rcases ht with rfl | rfl
    · exact congrArg Except.ok hclean
    · exact congrArg Except.ok hclean
  · rw [hfill]
    rcases ht with rfl | rfl
    · exact hconvert
    · exact hconvert

/-- Parameters of a search: numbers that may be null, a switch, and words. -/
def search : Schema :=
  .object {} {} [
    (.str "ids", .array {} {} (.nullable {} (.integer {} {}))),
    (.str "all", .boolean {}),
    (.str "q", .refined {}
      ⟨.predicate ⟨"some", "some", .null, fun v => .ok v.truthy⟩, .str "empty", none⟩
      (.string {} {})),
    (.str "tags", .array {} {} (.string {} {}))]

/-- Its text holds `null` as a word and as a number that is missing, and an array of one item. -/
def searched : List (Value × Value) := [
  (.str "ids", .list [.int (-7), .null]), (.str "all", .bool true), (.str "q", .str "null"),
  (.str "tags", .list [.str "1"])]

theorem wellFormed_search : search.WellFormed where
  declaresOnce := by
    refine ⟨?_, ⟨trivial, trivial, trivial⟩, trivial, ⟨trivial, trivial⟩, ⟨trivial, trivial⟩,
      trivial⟩
    simp [DeclaresOnce, Value.same]
  defaults := by
    have hnone {s : Schema} : s.default? = none → s.DefaultWellFormed := DefaultWellFormed.of_none
    exact ⟨hnone rfl, ⟨hnone rfl, hnone rfl, hnone rfl⟩, hnone rfl, ⟨hnone rfl, hnone rfl⟩,
      ⟨hnone rfl, hnone rfl⟩, trivial⟩

theorem wellFormed_searched : (Value.dict searched).WellFormed := by
  refine ⟨?_, ⟨trivial, trivial, trivial, trivial⟩, trivial, trivial, ⟨trivial, trivial, trivial⟩,
    trivial⟩
  simp [Value.BindsOnce, Value.KeysDiffer, searched, Value.same]

theorem encode_searched : encode searched =
    .ok [("ids", "-7"), ("ids", "null"), ("all", "true"), ("q", "null"), ("tags", "1")] := by
  have hint : intText (-7) = .ok "-7" := by
    rw [intText, Numeral.withinLimit_of_lt (by decide)]
    rfl
  have htext : (Value.int (-7)).scalarText = .ok "-7" := by
    rw [Value.scalarText, Convert.string, hint]
    · rfl
    · simp
  have hids : encodeEntry (.str "ids", .list [.int (-7), .null]) =
      .ok [("ids", "-7"), ("ids", "null")] := by
    have htexts : (Value.list [.int (-7), .null]).scalars.mapM Value.scalarText = .ok ["-7", "null"] :=
      mapM_eq_ok_iff.mpr (.cons htext (.cons rfl .nil))
    exact encodeEntry_eq_ok htexts
  exact bind_eq_ok_iff.mpr ⟨[[("ids", "-7"), ("ids", "null")], [("all", "true")], [("q", "null")],
    [("tags", "1")]], mapM_eq_ok_iff.mpr (.cons hids (.cons rfl (.cons rfl (.cons rfl .nil)))), rfl⟩

/-- The pairs of the numbers are read together although another pair stands between them. -/
theorem apply_searched :
    ∃ p, ofSchema search = .ok p ∧
      Interleaves searched
        [("ids", "-7"), ("ids", "null"), ("all", "true"), ("q", "null"), ("tags", "1")]
        [("ids", "-7"), ("all", "true"), ("ids", "null"), ("q", "null"), ("tags", "1")] ∧
      p.apply .query (.dict (foldPairs (Request.textPairs
        [("ids", "-7"), ("all", "true"), ("ids", "null"), ("q", "null"), ("tags", "1")]))) =
        .ok (.success (.dict searched)) := by
  obtain ⟨p, hp, hcheck⟩ : ∃ p, ofSchema search = .ok p ∧
      p.validator.check (.dict searched) = .ok true := ⟨_, rfl, by decide +kernel⟩
  have hwritable : (Value.dict searched).Everywhere IsWritable := by
    have hnumber : IsWritable (.int (-7)) := Numeral.withinLimit_of_lt (by decide)
    exact ⟨trivial, ⟨trivial, hnumber, trivial, trivial⟩, trivial, trivial, ⟨trivial, trivial, trivial⟩,
      trivial⟩
  obtain ⟨written, hwritten, happly⟩ := apply_of_encode hp wellFormed_search rfl rfl (by decide)
    wellFormed_searched hcheck rfl hwritable
  obtain rfl := Except.ok.inj (encode_searched.symm.trans hwritten)
  have hpairs : Interleaves searched
      [("ids", "-7"), ("ids", "null"), ("all", "true"), ("q", "null"), ("tags", "1")]
      [("ids", "-7"), ("all", "true"), ("ids", "null"), ("q", "null"), ("tags", "1")] := by
    refine ⟨fun key => ?_, by decide⟩
    by_cases hkey : key = "all"
    · subst hkey
      decide
    · have hother : ("all" == key) = false := by
        rw [beq_eq_false_iff_ne]
        exact Ne.symm hkey
      simp [List.filter_cons, hother]
  exact ⟨p, hp, hpairs, happly _ hpairs .query (.inl rfl)⟩

end Pipeline

end ApiContract
