import ApiContract.Proofs.Enumeration
import ApiContract.Proofs.Members
import ApiContract.Proofs.MissingProperties
import ApiContract.Proofs.RelaxedRequirements
import ApiContract.Proofs.SharedNames
import ApiContract.Proofs.Totality

/-!
# Documented requirements

The document of an object lists the properties that clients have to send, and validation reports the properties
that are missing after the defaults have been filled in. The two lists are made by separate walks through the
refinements and nullable wrappers around a property, and they agree: a property is documented as required exactly
if an object without it is reported to miss it (`Schema.documented_required_iff`).

The report is recognized by its path and its words. A refinement around a property reports at the same path, in
words that its author chooses, and may choose the words of a missing property. And a check that breaks off at one
property does not come to the next (`Schema.not_documented_required_iff`).
-/

namespace ApiContract.Schema

/-! ### The document of an object -/

/-- The keys that the document of an object lists as required. A document without a list requires nothing. -/
def requiredOf (doc : Doc) : List Value :=
  match doc.get? "required" with
  | some (.data (.list keys)) => keys
  | _ => []

theorem get?_annotated {a : Annotations} {doc : Doc} {key : String} (hdescription : key ≠ "description")
    (hdefault : key ≠ "default") (hexamples : key ≠ "examples") : (annotated a doc).get? key = doc.get? key := by
  rw [annotated, Doc.get?_setSome_of_ne _ _ hexamples, Doc.get?_setSome_of_ne _ _ hdefault,
    Doc.get?_setSome_of_ne _ _ hdescription]

theorem requiredOf_objectDoc (a : Annotations) (f : ObjectFields) (ps : List (Value × Schema))
    (docs : List (Value × Doc)) : requiredOf (annotated a (objectDoc f ps docs)) = documentedRequired f ps := by
  have hset (doc d : Doc) : (doc.set "additionalProperties" d).get? "required" = doc.get? "required" :=
    Doc.get?_set_of_ne doc d (by decide)
  rw [requiredOf, get?_annotated (by decide) (by decide) (by decide), objectDoc]
  cases hkeys : documentedRequired f ps with
  | nil =>
      -- the list is left out
      have hnone : (Doc.record [("type", .text "object"), ("properties", .object docs)]).get? "required" = none :=
        Doc.get?_record _ _
      cases f.additional with
      | true => simp [hset, hnone]
      | false => simp [hnone]
  | cons key keys =>
      cases f.additional with
      | true => simp [hset, Doc.get?_set_self]
      | false => simp [Doc.get?_set_self]

/-- A schema whose nodes are all of a kind and have serializable annotations has a document, and nothing is
collected on the way. -/
theorem exists_builds_document {s : Schema} (h : s.Documentable) : ∃ doc, Builds (s.document false) doc := by
  induction s using childInduction with
  | node s ih =>
      obtain ⟨docs, hdocs⟩ := exists_forall₂ fun t ht => ih t ht (h.child ht)
      obtain ⟨hkind, hannotations⟩ := h s s.mem_nodes_self
      obtain ⟨doc, hdoc⟩ := exists_assemble hkind hannotations hdocs.length_eq
      have hbuilds : Builds (s.inlineDoc false) doc := by
        rw [inlineDoc_eq]
        exact (builds_mapM hdocs).bind (builds_lift hdoc)
      exact ⟨doc, hbuilds⟩

/-- The document of an object exists, and it lists the required properties without a default. -/
theorem exists_inlined_object {a : Annotations} {f : ObjectFields} {ps : List (Value × Schema)}
    (h : (Schema.object a f ps).Documentable) :
    ∃ doc, (Schema.object a f ps).inlined = .ok doc ∧ requiredOf doc = documentedRequired f ps := by
  obtain ⟨doc, hdoc⟩ := exists_builds_document h
  obtain ⟨docs, a', body, -, ha, hbody, -, rfl⟩ := exists_body_of_run (hdoc {})
  obtain rfl := Option.some.inj ha
  obtain rfl := Option.some.inj hbody
  exact ⟨_, congrArg Prod.fst (hdoc {}), requiredOf_objectDoc _ f ps _⟩

/-! ### What is missing after filling -/

section Object

variable {a : Annotations} {f : ObjectFields} {ps : List (Value × Schema)} {validator : Validator}
  {p : Value × Schema} {k : String} {entries : List (Value × Value)}

/-- After filling, a key that was not there is there if it has a default. -/
theorem hasKey_filled (hnames : Names ps) (hp : p ∈ ps) (hk : p.1 = .str k)
    (hmissing : Value.hasKey (.str k) entries = false) :
    Value.hasKey (.str k) (fillProperties ps entries) = p.2.declaredDefault.isSome := by
  have hfilled := hasKey_fillProperties hnames hp entries
  rwa [hk, hmissing, Bool.false_or] at hfilled

/-- What is filled in for a property may be reported with the words of a missing property: a refinement around the
property has them. -/
def SpeaksAsMissing (s : Schema) : Prop := s.declaredDefault.isSome = true ∧ s.UsesWords missingText

/-- A check of filled entries reports a property that was not there only if it is documented as required, even if
the check breaks off. -/
theorem documentedRequired_of_missing (h : (Schema.object a f ps).compile = .ok validator)
    (hs : (Schema.object a f ps).Named) (hnames : ∀ q ∈ ps, q.1 ≠ .str "") (hp : p ∈ ps) (hk : p.1 = .str k)
    (hpoint : '.' ∉ k.toList) (hmissing : Value.hasKey (.str k) entries = false) (hwords : ¬ p.2.SpeaksAsMissing)
    (hreported : ⟨k, missingText⟩ ∈
      (validator.trace ((Schema.object a f ps).applyDefaults (.dict entries))).records) :
    .str k ∈ documentedRequired f ps := by
  have hkey := hasKey_filled hs.names hp hk hmissing
  have hsilent : Value.hasKey (.str k) (fillProperties ps entries) = true → ¬ p.2.UsesWords missingText := by
    intro hthere hmessage
    rw [hkey] at hthere
    exact hwords ⟨hthere, hmessage⟩
  obtain ⟨violation, hm, himp⟩ := reports_missing h hs hnames hp hk hpoint hsilent _ hreported
  obtain ⟨hrequired, habsent⟩ := himp rfl hm
  rw [hkey, Option.isSome_eq_false_iff, Option.isNone_iff_eq_none] at habsent
  rw [← hk] at hrequired ⊢
  exact (mem_documentedRequired_iff hs.names hp).mpr ⟨hrequired, habsent⟩

/-- A check of filled entries that ends reports every property that was not there and that is documented as
required. -/
theorem missing_of_documentedRequired (h : (Schema.object a f ps).compile = .ok validator)
    (hs : (Schema.object a f ps).Named) (hnames : ∀ q ∈ ps, q.1 ≠ .str "") (hp : p ∈ ps) (hk : p.1 = .str k)
    (hpoint : '.' ∉ k.toList) (hmissing : Value.hasKey (.str k) entries = false)
    (hfault : (validator.trace ((Schema.object a f ps).applyDefaults (.dict entries))).fault = none)
    (hrequired : .str k ∈ documentedRequired f ps) :
    ⟨k, missingText⟩ ∈ (validator.trace ((Schema.object a f ps).applyDefaults (.dict entries))).records := by
  rw [← hk, mem_documentedRequired_iff hs.names hp, hk] at hrequired
  obtain ⟨hrequired, hdefault⟩ := hrequired
  have hkey := hasKey_filled hs.names hp hk hmissing
  rw [hdefault, Option.isSome_none] at hkey
  have hsilent : Value.hasKey (.str k) (fillProperties ps entries) = true → ¬ p.2.UsesWords missingText := by
    intro hthere
    rw [hkey] at hthere
    cases hthere
  exact (missing_mem_records_iff h hs hnames hp hk hpoint hsilent hfault).mpr ⟨hrequired, hkey⟩

/-- **A property is documented as required exactly if its absence is reported.** The document of an object lists a
property as required if and only if an object without it, after filling, is reported to miss it. A refinement
around a property with a default can use the words of this report, and what it reports does not count. A record
that is made before a check breaks off counts as well; no check breaks off where predicates return and numbers
have texts. -/
theorem documented_required_iff (h : (Schema.object a f ps).compile = .ok validator)
    (hs : (Schema.object a f ps).Everywhere DeclaresOnce)
    (hannotations : ∀ t ∈ (Schema.object a f ps).nodes, ∀ a ∈ t.annotations?, a.Serializable)
    (hnames : ∀ q ∈ ps, q.1 ≠ .str "") (hp : p ∈ ps) (hk : p.1 = .str k) (hpoint : '.' ∉ k.toList) :
    ∃ doc, (Schema.object a f ps).inlined = .ok doc ∧
      ∀ entries, Value.hasKey (.str k) entries = false →
        (∀ records, validator.errors ((Schema.object a f ps).applyDefaults (.dict entries)) = .ok records →
          (.str k ∈ requiredOf doc ↔ ⟨k, missingText⟩ ∈ records ∧ ¬ p.2.SpeaksAsMissing)) ∧
        (⟨k, missingText⟩ ∈ (validator.trace ((Schema.object a f ps).applyDefaults (.dict entries))).records →
          ¬ p.2.SpeaksAsMissing → .str k ∈ requiredOf doc) ∧
        (Pipeline.Robust (.object a f ps) → (Value.dict entries).IsPrintable →
          ∃ records, validator.errors ((Schema.object a f ps).applyDefaults (.dict entries)) = .ok records) := by
  have hnamed := named_of_compileAt h hs
  have hdocumentable : (Schema.object a f ps).Documentable := fun t ht =>
    ⟨isNode_of_compileAt h t ht, hannotations t ht⟩
  obtain ⟨doc, hdoc, hrequired⟩ := exists_inlined_object hdocumentable
  refine ⟨doc, hdoc, fun entries hmissing => ⟨?_, ?_, ?_⟩⟩
  · intro records herrors
    obtain ⟨hfault, rfl⟩ := Trace.toExcept_eq_ok_iff.mp herrors
    rw [hrequired]
    constructor
    · intro hk'
      refine ⟨missing_of_documentedRequired h hnamed hnames hp hk hpoint hmissing hfault hk', ?_⟩
      rintro ⟨hdefault, -⟩
      rw [← hk, mem_documentedRequired_iff hnamed.names hp] at hk'
      rw [hk'.2] at hdefault
      cases hdefault
    · rintro ⟨hreported, hwords⟩
      exact documentedRequired_of_missing h hnamed hnames hp hk hpoint hmissing hwords hreported
  · intro hreported hwords
    rw [hrequired]
    exact documentedRequired_of_missing h hnamed hnames hp hk hpoint hmissing hwords hreported
  · intro hrobust hprintable
    have hfilled := everywhere_applyDefaults Value.inherited_printableForm hnamed hrobust.defaults hprintable
    have hfault := fault_run h hrobust.answers hfilled ""
    exact ⟨_, Trace.toExcept_eq_ok_iff.mpr ⟨hfault, rfl⟩⟩

end Object

/-- A text that is null by default, behind two wrappers. -/
def optionalNote : Schema :=
  .refined {} ⟨.predicate ⟨"always", "always", .null, fun _ => .ok true⟩, .str "note", none⟩ <|
    .nullable { default := some .null } (.string {} {})

/-- The properties of a member. -/
def memberProperties : List (Value × Schema) := [(.str "name", .string {} {}), (.str "note", optionalNote)]

/-- The name is required and the note is not, and an empty object misses the name alone. -/
theorem documented_required_memberProperties :
    ∃ validator doc, (Schema.object {} {} memberProperties).compile = .ok validator ∧
      (Schema.object {} {} memberProperties).Everywhere DeclaresOnce ∧
      (∀ t ∈ (Schema.object {} {} memberProperties).nodes, ∀ a ∈ t.annotations?, a.Serializable) ∧
      (Schema.object {} {} memberProperties).inlined = .ok doc ∧
      validator.errors ((Schema.object {} {} memberProperties).applyDefaults (.dict [])) =
        .ok [⟨"name", missingText⟩] ∧
      .str "name" ∈ requiredOf doc ∧ .str "note" ∉ requiredOf doc := by
  obtain ⟨validator, hcompile, herrors⟩ : ∃ validator,
      (Schema.object {} {} memberProperties).compile = .ok validator ∧
        validator.errors ((Schema.object {} {} memberProperties).applyDefaults (.dict [])) =
          .ok [⟨"name", missingText⟩] := ⟨_, rfl, rfl⟩
  have honce : (Schema.object {} {} memberProperties).Everywhere DeclaresOnce := by
    simp [memberProperties, optionalNote, Everywhere, EverywhereAmong, DeclaresOnce, Value.same]
  have hannotations : ∀ t ∈ (Schema.object {} {} memberProperties).nodes, ∀ a ∈ t.annotations?,
      a.Serializable := by
    have hempty : ({} : Annotations).Serializable := ⟨by simp, by simp⟩
    have hnull : ({ default := some .null } : Annotations).Serializable :=
      ⟨by simp; rfl, by simp⟩
    simp [memberProperties, optionalNote, nodes, nodesAmong, annotations?, hempty, hnull]
  have hnames : ∀ q ∈ memberProperties, q.1 ≠ .str "" := by simp [memberProperties]
  have hname : (.str "name", .string {} {}) ∈ memberProperties := List.mem_cons_self
  have hnote : (.str "note", optionalNote) ∈ memberProperties := List.mem_cons_of_mem _ List.mem_cons_self
  obtain ⟨doc, hdoc, hall⟩ :=
    documented_required_iff hcompile honce hannotations hnames hname rfl (by decide)
  obtain ⟨doc', hdoc', hall'⟩ :=
    documented_required_iff hcompile honce hannotations hnames hnote rfl (by decide)
  obtain rfl := Except.ok.inj (hdoc.symm.trans hdoc')
  refine ⟨validator, doc, hcompile, honce, hannotations, hdoc, herrors, ?_, ?_⟩
  · rw [(hall [] rfl).1 _ herrors]
    simp [SpeaksAsMissing, UsesWords]
  · rw [(hall' [] rfl).1 _ herrors]
    simp

/-- A nickname with a default that a refinement refuses in the words of a missing property. -/
def refusedNickname : Schema :=
  .object {} {} [(.str "nickname",
    .refined {} ⟨.predicate ⟨"never", "never", .null, fun _ => .ok false⟩, .str missingText, none⟩
      (.string { default := some (.str "x") } {}))]

/-- A name is required, and the check of the code in front of it breaks off. -/
def interruptedCode : Schema :=
  .object {} {} [
    (.str "code", .refined {} ⟨.predicate ⟨"raises", "raises", .null, fun _ => .error (.raised "")⟩, .str "code", none⟩
      (.string {} {})),
    (.str "name", .string {} {})]

/-- The nickname is not documented as required, and an empty object is told that it is missing. The name is
documented as required, and an object that has only the code is told nothing. -/
theorem not_documented_required_iff :
    (∃ validator doc, refusedNickname.compile = .ok validator ∧ refusedNickname.Everywhere DeclaresOnce ∧
      refusedNickname.inlined = .ok doc ∧
      ¬ (.str "nickname" ∈ requiredOf doc ↔
        ∃ records, validator.errors (refusedNickname.applyDefaults (.dict [])) = .ok records ∧
          ⟨"nickname", missingText⟩ ∈ records)) ∧
    ∃ validator doc, interruptedCode.compile = .ok validator ∧ interruptedCode.Everywhere DeclaresOnce ∧
      interruptedCode.inlined = .ok doc ∧
      ¬ (.str "name" ∈ requiredOf doc ↔
        ∃ records, validator.errors (interruptedCode.applyDefaults (.record [("code", .str "a")])) = .ok records ∧
          ⟨"name", missingText⟩ ∈ records) := by
  constructor
  · obtain ⟨validator, doc, hcompile, hdoc, hrequired, herrors⟩ : ∃ validator doc,
        refusedNickname.compile = .ok validator ∧ refusedNickname.inlined = .ok doc ∧ requiredOf doc = [] ∧
          validator.errors (refusedNickname.applyDefaults (.dict [])) = .ok [⟨"nickname", missingText⟩] :=
      ⟨_, _, rfl, rfl, rfl, rfl⟩
    have honce : refusedNickname.Everywhere DeclaresOnce := by
      simp [refusedNickname, Everywhere, EverywhereAmong, DeclaresOnce]
    refine ⟨validator, doc, hcompile, honce, hdoc, fun hiff => ?_⟩
    have hlisted := hiff.mpr ⟨_, herrors, List.mem_cons_self⟩
    rw [hrequired] at hlisted
    cases hlisted
  · obtain ⟨validator, doc, hcompile, hdoc, hrequired, herrors⟩ : ∃ validator doc,
        interruptedCode.compile = .ok validator ∧ interruptedCode.inlined = .ok doc ∧
          requiredOf doc = [.str "code", .str "name"] ∧
          validator.errors (interruptedCode.applyDefaults (.record [("code", .str "a")])) = .error (.raised "") :=
      ⟨_, _, rfl, rfl, rfl, rfl⟩
    have honce : interruptedCode.Everywhere DeclaresOnce := by
      simp [interruptedCode, Everywhere, EverywhereAmong, DeclaresOnce, Value.same]
    refine ⟨validator, doc, hcompile, honce, hdoc, fun hiff => ?_⟩
    have hlisted : Value.str "name" ∈ requiredOf doc := by
      rw [hrequired]
      exact List.mem_cons_of_mem _ List.mem_cons_self
    obtain ⟨records, hrecords, -⟩ := hiff.mp hlisted
    rw [herrors] at hrecords
    cases hrecords

end ApiContract.Schema
