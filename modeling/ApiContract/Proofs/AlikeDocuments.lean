import ApiContract.Proofs.ExpandedDocuments
import ApiContract.Proofs.JsonEquality
import ApiContract.Proofs.SerializableValues

/-!
# Documents that are equal as JSON

Two values are equal as JSON if what they are written as is (`Value.SameJson`), and so for documents.
Documents of nodes that are equal are put together alike (`Doc.Alike`), as far as the data that the nodes show
is equal as JSON: a document of a node may differ from that of an equal one only in data that equality confuses,
and in the order of what is required (`Schema.Agrees`).
-/

namespace ApiContract

namespace Value

/-- The name of the member that a key is written as. -/
def memberName (key : Value) : Value :=
  match Json.keyText Json.plainStyle key with
  | .ok name => .str name
  | .error _ => key

mutual
/-- The JSON value that a value is written as: tuples become arrays, and keys the names of members. -/
def asJson : Value → Value
  | .list xs => .list (asJsonItems xs)
  | .tuple xs => .list (asJsonItems xs)
  | .dict entries => .dict (asJsonEntries entries)
  | v => v
termination_by structural v => v

def asJsonItems : List Value → List Value
  | [] => []
  | x :: xs => x.asJson :: asJsonItems xs
termination_by structural xs => xs

def asJsonEntries : List (Value × Value) → List (Value × Value)
  | [] => []
  | (key, v) :: entries => (memberName key, v.asJson) :: asJsonEntries entries
termination_by structural entries => entries
end

theorem asJsonItems_eq (xs : List Value) : asJsonItems xs = xs.map asJson := by
  induction xs with
  | nil => rfl
  | cons x xs ih => rw [List.map_cons, ← ih, asJsonItems]

theorem asJsonEntries_eq (entries : List (Value × Value)) :
    asJsonEntries entries = entries.map fun e => (memberName e.1, e.2.asJson) := by
  induction entries with
  | nil => rfl
  | cons e entries ih =>
      obtain ⟨key, v⟩ := e
      rw [List.map_cons, ← ih, asJsonEntries]

/-- Two values are equal as JSON. -/
def SameJson (v w : Value) : Prop := v.asJson.jsonEqual w.asJson = true

theorem sameJson_str (s : String) : (Value.str s).SameJson (.str s) := beq_self_eq_true s

theorem sameJson_bool (b : Bool) : (Value.bool b).SameJson (.bool b) := beq_self_eq_true b

theorem sameJson_list_iff {xs ys : List Value} :
    (Value.list xs).SameJson (.list ys) ↔ List.Forall₂ SameJson xs ys := by
  show (Value.list (asJsonItems xs)).jsonEqual (.list (asJsonItems ys)) = true ↔ _
  rw [jsonEqual_list_iff, asJsonItems_eq, asJsonItems_eq, List.forall₂_map_left_iff,
    List.forall₂_map_right_iff]
  rfl

/-- Objects with names in common are equal as JSON, in whatever order they come. -/
theorem sameJson_dict {es fs : List (Value × Value)} (hkeys : ∀ e ∈ es, ∃ name, e.1 = .str name)
    (hlength : es.length = fs.length) (h : ∀ e ∈ es, ∃ f ∈ fs, f.1 = e.1 ∧ e.2.SameJson f.2) :
    (Value.dict es).SameJson (.dict fs) := by
  show (Value.dict (asJsonEntries es)).jsonEqual (.dict (asJsonEntries fs)) = true
  rw [asJsonEntries_eq, asJsonEntries_eq, jsonEqual_dict_iff]
  · refine ⟨by rw [List.length_map, List.length_map, hlength], List.forall_mem_map.mpr fun e he => ?_⟩
    obtain ⟨f, hf, hkey, hvalue⟩ := h e he
    exact ⟨_, List.mem_map_of_mem hf, congrArg memberName hkey, hvalue⟩
  · refine List.forall_mem_map.mpr fun e he => ?_
    obtain ⟨name, hname⟩ := hkeys e he
    exact ⟨name, congrArg memberName hname⟩

end Value

namespace Doc

/-- Two documents are equal as JSON. -/
def SameJson (d e : Doc) : Prop := d.toValue.SameJson e.toValue

theorem sameJson_text (s : String) : (Doc.text s).SameJson (.text s) := Value.sameJson_str s

theorem sameJson_array_iff {ds es : List Doc} :
    (Doc.array ds).SameJson (.array es) ↔ List.Forall₂ SameJson ds es := by
  show (Value.list (itemsToValues ds)).SameJson (.list (itemsToValues es)) ↔ _
  rw [Value.sameJson_list_iff, itemsToValues_eq, itemsToValues_eq, List.forall₂_map_left_iff,
    List.forall₂_map_right_iff]
  rfl

theorem sameJson_object {ms ms' : List (Value × Doc)} (hkeys : ∀ m ∈ ms, ∃ name, m.1 = .str name)
    (hlength : ms.length = ms'.length) (h : ∀ m ∈ ms, ∃ m' ∈ ms', m'.1 = m.1 ∧ m.2.SameJson m'.2) :
    (Doc.object ms).SameJson (.object ms') := by
  show (Value.dict (membersToValues ms)).SameJson (.dict (membersToValues ms'))
  rw [membersToValues_eq, membersToValues_eq]
  refine Value.sameJson_dict (List.forall_mem_map.mpr hkeys) ?_ (List.forall_mem_map.mpr fun m hm => ?_)
  · rw [List.length_map, List.length_map, hlength]
  · obtain ⟨m', hm', hkey, hsame⟩ := h m hm
    exact ⟨_, List.mem_map_of_mem hm', hkey, hsame⟩

/-- Two documents have the same keys in the same order, with documents under them that are equal as JSON; and
the refinements that they list are equal one by one. -/
structure Alike (doc doc' : Doc) : Prop where
  isObject : ∃ ms ms', doc = .object ms ∧ doc' = .object ms'
  texts : ∀ m ∈ doc.members, ∃ name, m.1 = .str name
  members : List.Forall₂ (fun m m' : Value × Doc => m'.1 = m.1 ∧ m.2.SameJson m'.2) doc.members doc'.members
  refinements : List.Forall₂ SameJson doc.refinements doc'.refinements

namespace Alike

variable {doc doc' d d' : Doc} {key : String}

theorem sameJson (h : doc.Alike doc') : doc.SameJson doc' := by
  obtain ⟨⟨ms, ms', rfl, rfl⟩, htexts, hmembers, -⟩ := h
  exact sameJson_object htexts hmembers.length_eq fun m hm => exists_right_of_forall₂ hmembers hm

/-- Nothing has been set yet. -/
theorem empty : (Doc.record []).Alike (.record []) where
  isObject := ⟨[], [], rfl, rfl⟩
  texts := List.forall_mem_nil _
  members := .nil
  refinements := .nil

/-- What is set is alike if it is equal as JSON, and if the refinements are after it. -/
theorem set_of_refinements (h : doc.Alike doc') (hd : d.SameJson d')
    (hrefinements : List.Forall₂ SameJson (doc.set key d).refinements (doc'.set key d').refinements) :
    (doc.set key d).Alike (doc'.set key d') where
  isObject := ⟨_, _, rfl, rfl⟩
  texts := by
    show ∀ m ∈ setMember doc.members (.str key) d, _
    unfold setMember
    split
    · refine List.forall_mem_map.mpr fun m hm => ?_
      split
      · exact h.texts m hm
      · exact h.texts m hm
    · exact List.forall_mem_append.mpr ⟨h.texts, List.forall_mem_singleton.mpr ⟨key, rfl⟩⟩
  members := by
    have hany : (doc.members.any fun m => (Value.str key).same m.1) =
        doc'.members.any fun m => (Value.str key).same m.1 := by
      rw [Bool.eq_iff_iff, List.any_eq_true, List.any_eq_true]
      constructor
      · rintro ⟨m, hm, hsame⟩
        obtain ⟨m', hm', hkey, -⟩ := exists_right_of_forall₂ h.members hm
        exact ⟨m', hm', hkey ▸ hsame⟩
      · rintro ⟨m', hm', hsame⟩
        obtain ⟨m, hm, hkey, -⟩ := exists_left_of_forall₂ h.members hm'
        exact ⟨m, hm, hkey ▸ hsame⟩
    show List.Forall₂ _ (setMember doc.members (.str key) d) (setMember doc'.members (.str key) d')
    unfold setMember
    rw [hany]
    split
    · rw [List.forall₂_map_left_iff, List.forall₂_map_right_iff]
      refine h.members.imp fun m m' hm => ?_
      rw [hm.1]
      split
      · exact ⟨rfl, hd⟩
      · exact hm
    · exact List.rel_append h.members (.cons ⟨rfl, hd⟩ .nil)
  refinements := hrefinements

theorem set (h : doc.Alike doc') (hkey : key ≠ "x-refinements") (hd : d.SameJson d') :
    (doc.set key d).Alike (doc'.set key d') := by
  refine h.set_of_refinements hd ?_
  rw [refinements_set_of_ne _ _ hkey, refinements_set_of_ne _ _ hkey]
  exact h.refinements

/-- Data that is there in one document is there in the other. -/
theorem setSome (h : doc.Alike doc') (hkey : key ≠ "x-refinements") {x y : Option Doc}
    (hxy : Option.Rel SameJson x y) : (doc.setSome key x).Alike (doc'.setSome key y) := by
  cases hxy with
  | none => exact h
  | some hd => exact h.set hkey hd

theorem setText (h : doc.Alike doc') (hkey : key ≠ "x-refinements") (x : Option String) :
    (doc.setSome key (x.map .text)).Alike (doc'.setSome key (x.map .text)) := by
  cases x with
  | none => exact h
  | some s => exact h.set hkey (sameJson_text s)

theorem setIf (h : doc.Alike doc') (hkey : key ≠ "x-refinements") (b : Bool) {v : Value}
    (hv : v.SameJson v) : (if b then doc.set key (.data v) else doc).Alike
      (if b then doc'.set key (.data v) else doc') := by
  split
  · exact h.set hkey hv
  · exact h

end Alike

end Doc

/-! ### Data that is told apart -/

/-- Of two rows of data, those that are equal are equal as JSON. -/
def ToldApart (vs ws : List Value) : Prop := ∀ v ∈ vs, ∀ w ∈ ws, v.same w = true → v.SameJson w

theorem ToldApart.left {vs vs' ws ws' : List Value} (h : ToldApart (vs ++ vs') (ws ++ ws')) :
    ToldApart vs ws :=
  fun v hv w hw => h v (List.mem_append_left _ hv) w (List.mem_append_left _ hw)

theorem ToldApart.right {vs vs' ws ws' : List Value} (h : ToldApart (vs ++ vs') (ws ++ ws')) :
    ToldApart vs' ws' :=
  fun v hv w hw => h v (List.mem_append_right _ hv) w (List.mem_append_right _ hw)

theorem sameJson_dataOf {x y : Option Value} (h : sameValues x y = true)
    (htold : ToldApart x.toList y.toList) : Option.Rel Doc.SameJson (Schema.dataOf x) (Schema.dataOf y) := by
  rcases sameOption_iff.mp h with ⟨rfl, rfl⟩ | ⟨v, w, rfl, rfl, hvw⟩
  · exact .none
  · exact .some (htold v List.mem_cons_self w List.mem_cons_self hvw)

theorem sameJson_enumOf {x y : Option (List Value)} (h : sameLists x y = true)
    (htold : ToldApart (x.getD []) (y.getD [])) :
    Option.Rel Doc.SameJson (Schema.enumOf x) (Schema.enumOf y) := by
  rcases sameOption_iff.mp h with ⟨rfl, rfl⟩ | ⟨vs, ws, rfl, rfl, hvws⟩
  · exact .none
  · refine .some (Value.sameJson_list_iff.mpr ?_)
    exact forall₂_imp_of_mem_mem (Value.sameItems_iff.mp hvws) htold

namespace Schema

/-- The data that annotations show. -/
def annotationData (a : Annotations) : List Value := a.default.toList ++ a.examples.getD []

def stringData (f : StringFields) : List Value := f.minLength.toList ++ f.maxLength.toList ++ f.enum.getD []

def numberData (f : NumberFields) : List Value :=
  f.minimum.toList ++ f.maximum.toList ++ f.exclusiveMinimum.toList ++ f.exclusiveMaximum.toList ++
    f.multipleOf.toList ++ f.enum.getD []

def arrayData (f : ArrayFields) : List Value := f.minItems.toList ++ f.maxItems.toList

/-- The data that a node shows in its document, besides texts and truth values of the library. -/
def shownData : Schema → List Value
  | .string a f => annotationData a ++ stringData f
  | .number a f | .integer a f => annotationData a ++ numberData f
  | .array a f _ => annotationData a ++ arrayData f
  | .refined a r _ => annotationData a ++ [r.message]
  | .boolean a | .object a _ _ | .nullable a _ | .bare a => annotationData a
  | .foreign _ => []

theorem annotationData_subset {s : Schema} {a : Annotations} (h : s.annotations? = some a) :
    annotationData a ⊆ s.shownData := by
  cases s with
  | foreign v => cases h
  | boolean b => cases h; exact List.Subset.refl _
  | object b f ps => cases h; exact List.Subset.refl _
  | nullable b inner => cases h; exact List.Subset.refl _
  | bare b => cases h; exact List.Subset.refl _
  | _ => cases h; exact List.subset_append_left _ _

/-- What a node lists as required, in its order. -/
def shownRequired : Schema → List Value
  | .object _ f ps => documentedRequired f ps
  | _ => []

/-- Two nodes show the same of what equality leaves open: which of the values that it confuses their data are,
and the order of what is required. -/
structure Agrees (s t : Schema) : Prop where
  data : ToldApart s.shownData t.shownData
  required : s.shownRequired = t.shownRequired

open Doc (Alike)

theorem alike_annotated {a b : Annotations} (hsame : a.same b = true)
    (htold : ToldApart (annotationData a) (annotationData b)) {doc doc' : Doc} (h : doc.Alike doc') :
    (annotated a doc).Alike (annotated b doc') := by
  obtain ⟨hdescription, hdefault, hexamples, -⟩ := Annotations.same_iff.mp hsame
  unfold annotated
  rw [hdescription]
  refine ((h.setText (by decide) _).setSome (by decide) (sameJson_dataOf hdefault ?_)).setSome (by decide)
    (sameJson_enumOf hexamples ?_)
  · exact htold.left
  · exact htold.right

theorem alike_typeDoc (name : String) : (typeDoc name).Alike (typeDoc name) := by
  have htype : ((Doc.record []).set "type" (.text name)).Alike ((Doc.record []).set "type" (.text name)) :=
    Alike.empty.set (by decide) (Doc.sameJson_text name)
  exact htype

theorem alike_stringDoc {f g : StringFields} (hsame : f.same g = true)
    (htold : ToldApart (stringData f) (stringData g)) : (stringDoc f).Alike (stringDoc g) := by
  obtain ⟨hmin, hmax, hpattern, hformat, henum⟩ := StringFields.same_iff.mp hsame
  unfold stringDoc
  rw [hpattern, hformat]
  exact (alike_typeDoc _).setSome (by decide) (sameJson_dataOf hmin htold.left.left)
    |>.setSome (by decide) (sameJson_dataOf hmax htold.left.right)
    |>.setText (by decide) _ |>.setText (by decide) _
    |>.setSome (by decide) (sameJson_enumOf henum htold.right)

theorem alike_numberDoc (name : String) {f g : NumberFields} (hsame : f.same g = true)
    (htold : ToldApart (numberData f) (numberData g)) : (numberDoc name f).Alike (numberDoc name g) := by
  obtain ⟨hmin, hmax, habove, hbelow, hmultiple, henum⟩ := NumberFields.same_iff.mp hsame
  exact (alike_typeDoc _).setSome (by decide) (sameJson_dataOf hmin htold.left.left.left.left.left)
    |>.setSome (by decide) (sameJson_dataOf hmax htold.left.left.left.left.right)
    |>.setSome (by decide) (sameJson_dataOf habove htold.left.left.left.right)
    |>.setSome (by decide) (sameJson_dataOf hbelow htold.left.left.right)
    |>.setSome (by decide) (sameJson_dataOf hmultiple htold.left.right)
    |>.setSome (by decide) (sameJson_enumOf henum htold.right)

theorem alike_arrayDoc {f g : ArrayFields} (hsame : f.same g = true)
    (htold : ToldApart (arrayData f) (arrayData g)) {doc doc' : Doc} (h : doc.SameJson doc') :
    (arrayDoc f doc).Alike (arrayDoc g doc') := by
  obtain ⟨hmin, hmax, hunique⟩ := ArrayFields.same_iff.mp hsame
  have hitems : ((typeDoc "array").set "items" doc).Alike ((typeDoc "array").set "items" doc') :=
    (alike_typeDoc _).set (by decide) h
  unfold arrayDoc
  rw [hunique]
  exact hitems.setSome (by decide) (sameJson_dataOf hmin htold.left)
    |>.setSome (by decide) (sameJson_dataOf hmax htold.right)
    |>.setIf (by decide) _ (Value.sameJson_bool true)

theorem alike_objectDoc {f g : ObjectFields} (hsame : f.same g = true) {ps qs : List (Value × Schema)}
    (hps : Names ps) (hrequired : documentedRequired f ps = documentedRequired g qs)
    {docs docs' : List (Value × Doc)} (h : (Doc.object docs).SameJson (.object docs')) :
    (objectDoc f ps docs).Alike (objectDoc g qs docs') := by
  obtain ⟨-, hadditional⟩ := ObjectFields.same_iff.mp hsame
  have hbase : ((typeDoc "object").set "properties" (.object docs)).Alike
      ((typeDoc "object").set "properties" (.object docs')) := (alike_typeDoc _).set (by decide) h
  have htexts : (Value.list (documentedRequired g qs)).SameJson (.list (documentedRequired g qs)) := by
    rw [← hrequired, Value.sameJson_list_iff]
    refine List.forall₂_same.mpr fun key hkey => ?_
    obtain ⟨p, hp, rfl⟩ := List.mem_map.mp (requiredKeys_subset f ps (List.mem_of_mem_filter hkey))
    obtain ⟨name, hname⟩ := hps.texts p hp
    rw [hname]
    exact Value.sameJson_str name
  unfold objectDoc
  rw [hrequired, hadditional]
  refine Alike.setIf ?_ (by decide) _ (Value.sameJson_bool true)
  split
  · exact hbase
  · exact hbase.set (by decide) htexts

theorem alike_nullable {doc doc' : Doc} (h : doc.SameJson doc') :
    (Doc.record [("anyOf", .array [doc, typeDoc "null"])]).Alike
      (.record [("anyOf", .array [doc', typeDoc "null"])]) := by
  have hset : ((Doc.record []).set "anyOf" (.array [doc, typeDoc "null"])).Alike
      ((Doc.record []).set "anyOf" (.array [doc', typeDoc "null"])) :=
    Alike.empty.set (by decide) (Doc.sameJson_array_iff.mpr (.cons h (.cons (alike_typeDoc _).sameJson .nil)))
  exact hset

theorem alike_refinedDoc {r q : Refinement} (hsame : r.same q = true)
    (htold : ToldApart [r.message] [q.message]) {doc doc' : Doc} (h : doc.Alike doc') :
    (refinedDoc r doc).Alike (refinedDoc q doc') := by
  obtain ⟨-, hmessage, hconstraint⟩ := Refinement.same_iff.mp hsame
  have hentry : (refinementEntry r).SameJson (refinementEntry q) := by
    have hset : ((Doc.record []).set "message" (.data r.message)).Alike
        ((Doc.record []).set "message" (.data q.message)) :=
      Alike.empty.set (by decide) (htold _ List.mem_cons_self _ List.mem_cons_self hmessage)
    unfold refinementEntry
    rw [hconstraint]
    exact (hset.setText (by decide) _).sameJson
  have hentries := List.rel_append h.refinements (.cons hentry .nil)
  rw [refinedDoc_eq, refinedDoc_eq]
  refine h.set_of_refinements (Doc.sameJson_array_iff.mpr hentries) ?_
  rw [Doc.refinements_set, Doc.refinements_set]
  exact hentries

end Schema

end ApiContract
