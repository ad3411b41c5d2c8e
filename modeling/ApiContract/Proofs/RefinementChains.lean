import ApiContract.Proofs.ExpandedDocuments
import ApiContract.Proofs.FilledDefaults
import ApiContract.Proofs.RefinementVisits
import ApiContract.Proofs.RequiredProperties

/-!
# Chains of refinements

Three walks go through the refinements around a schema. A document is made from the inside to the outside, and
each refinement adds an entry to the document of its base and may lay a default of its own over the one that is
there. A check runs from the inside to the outside as well and calls one predicate after the other. The default
of an absent value is looked for from the outside to the inside. The walks agree (`Schema.inlined_of_refinements`):
the entries of the document are those of the predicates that are called, in this order, and its default is the one
that is filled in.

A nullable node keeps what is inside of it from its document, so the base must not be nullable.
-/

namespace ApiContract

/-! ### Documents without default and refinements -/

/-- The document has no default and lists no refinements. -/
structure Doc.Plain (doc : Doc) : Prop where
  default : doc.get? "default" = none
  refinements : doc.get? "x-refinements" = none

namespace Doc.Plain

variable {doc : Doc} {key : String}

theorem set (h : doc.Plain) (hkey : "default" ≠ key ∧ "x-refinements" ≠ key) (d : Doc) : (doc.set key d).Plain where
  default := (get?_set_of_ne doc d hkey.1).trans h.default
  refinements := (get?_set_of_ne doc d hkey.2).trans h.refinements

theorem setSome (h : doc.Plain) (hkey : "default" ≠ key ∧ "x-refinements" ≠ key) (d : Option Doc) :
    (doc.setSome key d).Plain := by
  cases d with
  | none => exact h
  | some d => exact h.set hkey d

end Doc.Plain

namespace Schema

open Doc (Plain)

theorem plain_typeDoc (name : String) : (typeDoc name).Plain := ⟨rfl, rfl⟩

theorem plain_stringDoc (f : StringFields) : (stringDoc f).Plain :=
  (plain_typeDoc _).setSome (by decide) _
    |>.setSome (by decide) _ |>.setSome (by decide) _ |>.setSome (by decide) _ |>.setSome (by decide) _

theorem plain_numberDoc (name : String) (f : NumberFields) : (numberDoc name f).Plain :=
  (plain_typeDoc _).setSome (by decide) _
    |>.setSome (by decide) _ |>.setSome (by decide) _ |>.setSome (by decide) _
    |>.setSome (by decide) _ |>.setSome (by decide) _

theorem plain_arrayDoc (f : ArrayFields) (items : Doc) : (arrayDoc f items).Plain := by
  have hitems : (Doc.record [("type", .text "array"), ("items", items)]).Plain := ⟨rfl, rfl⟩
  have hbounds : (((Doc.record [("type", .text "array"), ("items", items)]).setSome "minItems"
      (dataOf f.minItems)).setSome "maxItems" (dataOf f.maxItems)).Plain :=
    (hitems.setSome (by decide) _).setSome (by decide) _
  unfold arrayDoc
  dsimp only
  split
  · exact hbounds.set (by decide) _
  · exact hbounds

theorem plain_objectDoc (f : ObjectFields) (ps : List (Value × Schema)) (docs : List (Value × Doc)) :
    (objectDoc f ps docs).Plain := by
  have hproperties : (Doc.record [("type", .text "object"), ("properties", .object docs)]).Plain := ⟨rfl, rfl⟩
  have hrequired : (if (documentedRequired f ps).isEmpty then
      Doc.record [("type", .text "object"), ("properties", .object docs)]
    else (Doc.record [("type", .text "object"), ("properties", .object docs)]).set "required"
      (.data (.list (documentedRequired f ps)))).Plain := by
    split
    · exact hproperties
    · exact hproperties.set (by decide) _
  unfold objectDoc
  dsimp only
  split
  · exact hrequired.set (by decide) _
  · exact hrequired

/-! ### The chain around a schema -/

/-- The refinements around a schema, from the inside to the outside. -/
def refinements : Schema → List Refinement
  | .refined _ r base => base.refinements ++ [r]
  | _ => []

/-- The node behind the refinements is not nullable. -/
def SolidBase (s : Schema) : Prop := ∀ a inner, s.unwrap ≠ .nullable a inner

theorem get?_default_annotated (a : Annotations) (doc : Doc) :
    (annotated a doc).get? "default" = (dataOf a.default).or (doc.get? "default") := by
  rw [annotated, Doc.get?_setSome_of_ne _ _ (by decide), Doc.get?_setSome_self,
    Doc.get?_setSome_of_ne _ _ (by decide)]

/-- A document says of a schema what it declares by default and which refinements are around it. -/
structure ShowsChain (s : Schema) (doc : Doc) : Prop where
  default : doc.get? "default" = dataOf s.declaredDefault
  refinements : doc.refinements = s.refinements.map refinementEntry

/-- A node that is no wrapper shows its own default alone. -/
theorem showsChain_of_plain {s : Schema} {a : Annotations} {doc : Doc} (hdoc : doc.Plain)
    (hdefault : s.declaredDefault = a.default) (hrefinements : s.refinements = []) :
    s.ShowsChain (annotated a doc) where
  default := by rw [get?_default_annotated, hdoc.default, Option.or_none, hdefault]
  refinements := by
    rw [Doc.refinements, get?_annotated (by decide) (by decide) (by decide), hdoc.refinements, hrefinements]
    rfl

/-- A refinement adds its entry behind those of its base, and its default hides the one of its base. -/
theorem ShowsChain.refined {base : Schema} {doc : Doc} (h : base.ShowsChain doc) (a : Annotations) (r : Refinement) :
    (Schema.refined a r base).ShowsChain (annotated a (refinedDoc r doc)) where
  default := by
    rw [get?_default_annotated, refinedDoc_eq, Doc.get?_set_of_ne _ _ (by decide), h.default]
    show _ = (a.default.or base.declaredDefault).map Doc.data
    cases a.default <;> rfl
  refinements := by
    rw [Doc.refinements, get?_annotated (by decide) (by decide) (by decide), refinedDoc_eq, Doc.get?_set_self]
    show doc.refinements ++ [refinementEntry r] = (base.refinements ++ [r]).map refinementEntry
    rw [h.refinements, List.map_append]
    rfl

/-- The body of a node that is no wrapper has no default and lists no refinements. -/
theorem plain_body {s : Schema} {docs : List Doc} {doc : Doc} (hs : s.SolidBase) (hrefinements : s.refinements = [])
    (h : s.body docs = some doc) : doc.Plain := by
  unfold body at h
  split at h
  · cases h
    exact plain_stringDoc _
  · cases h
    exact plain_numberDoc _ _
  · cases h
    exact plain_numberDoc _ _
  · cases h
    exact plain_typeDoc _
  · cases h
    exact plain_arrayDoc _ _
  · cases h
    exact plain_objectDoc _ _ _
  · exact absurd rfl (hs _ _)
  · exact absurd hrefinements (List.concat_ne_nil _ _)
  · cases h

/-- The document of a schema shows the chain around it. -/
theorem showsChain_of_run {s : Schema} (hs : s.SolidBase) {c c' : Collector} {doc : Doc}
    (h : (s.inlineDoc false).run c = (.ok doc, c')) : s.ShowsChain doc := by
  induction s using Schema.induction generalizing c c' doc with
  | refined a r base ih =>
      obtain ⟨docs, b, body, hdocs, hb, hbody, -, rfl⟩ := exists_body_of_run h
      obtain rfl := Option.some.inj hb
      cases hdocs with
      | cons hbase hrest =>
          cases hrest
          obtain rfl := Option.some.inj hbody
          obtain ⟨c₁, c₂, hbase⟩ := hbase
          exact (ih hs hbase).refined a r
  | nullable a inner ih => exact absurd rfl (hs a inner)
  | foreign v =>
      obtain ⟨docs, b, body, hdocs, hb, hbody, -, rfl⟩ := exists_body_of_run h
      cases hb
  | _ =>
      obtain ⟨docs, b, body, hdocs, hb, hbody, -, rfl⟩ := exists_body_of_run h
      obtain rfl := Option.some.inj hb
      exact showsChain_of_plain (plain_body hs rfl hbody) rfl rfl

/-! ### The calls of a chain -/

/-- A refinement is checked on a value: its predicate is called on it and accepts it. -/
def Calls (v : Value) (r : Refinement) (call : Predicate × Value) : Prop :=
  r.condition = .predicate call.1 ∧ call.2 = v ∧ call.1.holds v = .ok true

open Trace in
theorem checkPredicate_of_isClean {p : Predicate} {message : String} {v : Value} {path : String}
    (h : (Validator.checkPredicate p message v path).isClean = true) :
    p.holds v = .ok true ∧ (Validator.checkPredicate p message v path).calls = [(p, v)] := by
  unfold Validator.checkPredicate at h ⊢
  cases hholds : p.holds v with
  | error f =>
      rw [hholds] at h
      cases h
  | ok accepted =>
      cases accepted with
      | true => exact ⟨rfl, rfl⟩
      | false =>
          rw [hholds] at h
          dsimp only at h
          rw [isClean_append, isClean_report, Bool.and_false] at h
          cases h

open Trace in
/-- Where nothing is reported, the predicates of a chain are called from the inside to the outside, after those in
the base. -/
theorem calls_of_isClean {s : Schema} {origin : String} {validator : Validator}
    (h : s.compileAt origin = .ok validator) {v : Value} {path : String}
    (hclean : (validator.run v path).isClean = true) :
    ∃ base calls, s.unwrap.compileAt origin = .ok base ∧
      (validator.run v path).calls = (base.run v path).calls ++ calls ∧
        List.Forall₂ (Calls v) s.refinements calls := by
  induction s using Schema.induction generalizing origin validator with
  | refined a r base ih =>
      obtain ⟨p, message, child, hp, -, hchild, rfl⟩ := compileAt_refined h
      rw [Validator.run] at hclean ⊢
      cases hbase : (child.run v path).isClean with
      | false =>
          rw [hbase, if_neg Bool.false_ne_true, hbase] at hclean
          cases hclean
      | true =>
          rw [hbase, if_pos rfl, isClean_append, hbase, Bool.true_and] at hclean
          obtain ⟨hholds, hcall⟩ := checkPredicate_of_isClean hclean
          obtain ⟨inner, calls, hinner, hcalls, hall⟩ := ih hchild hbase
          refine ⟨inner, calls ++ [(p, v)], hinner, ?_, ?_⟩
          · rw [if_pos rfl, calls_append ((isClean_iff _).mp hbase).1, hcall, hcalls, List.append_assoc]
          · exact List.rel_append hall (.cons ⟨hp, rfl, hholds⟩ .nil)
  | _ => exact ⟨validator, [], h, (List.append_nil _).symm, .nil⟩

/-! ### The default of an absent property -/

/-- What stands under a key that was not there is the outermost default, filled in turn. -/
theorem lookup?_fillProperties_of_missing {ps : List (Value × Schema)} (hnames : Names ps) {p : Value × Schema}
    (hp : p ∈ ps) {entries : List (Value × Value)} (hmissing : Value.hasKey p.1 entries = false) :
    Value.lookup? p.1 (fillProperties ps entries) = p.2.declaredDefault.map p.2.fill := by
  obtain ⟨name, hname⟩ := hnames.texts p hp
  have hkey := hasKey_fillProperties hnames hp entries
  rw [hmissing, Bool.false_or] at hkey
  cases hfound : Value.lookup? p.1 (fillProperties ps entries) with
  | none =>
      rw [Value.lookup?_eq_none_iff.mp hfound] at hkey
      rw [Option.isNone_iff_eq_none.mp (Option.isSome_eq_false_iff.mp hkey.symm), Option.map_none]
  | some w =>
      rw [hname] at hfound
      have hmem := Value.mem_of_lookup?_str hfound
      rw [fillProperties_eq hnames, List.mem_append] at hmem
      rcases hmem with hmem | hmem
      · -- an entry that was there has another key
        obtain ⟨e, he, heq⟩ := List.mem_map.mp hmem
        have hthere : Value.hasKey (.str name) entries = true :=
          Value.hasKey_str.mpr (List.mem_map.mpr ⟨e, he, congrArg Prod.fst heq⟩)
        rw [← hname, hmissing] at hthere
        cases hthere
      · obtain ⟨q, hq, d, -, hd, heq⟩ := mem_missingEntries.mp hmem
        obtain ⟨hqname, rfl⟩ := Prod.mk.inj heq
        obtain rfl := List.inj_on_of_nodup_map hnames.differ hq hp (hqname.symm.trans hname.symm)
        rw [hd, Option.map_some]

/-- A default that can be written is not absent. -/
theorem isAbsent_of_declaredDefault {s : Schema} {d : Value}
    (hannotations : ∀ t ∈ s.nodes, ∀ a ∈ t.annotations?, a.Serializable) (hd : s.declaredDefault = some d) :
    d.isAbsent = false := by
  obtain ⟨t, ht, hdefault⟩ := List.mem_filterMap.mp (mem_defaults_of_declaredDefault hd)
  obtain ⟨a, ha, hdefault⟩ := Option.bind_eq_some_iff.mp hdefault
  have hwritable := (hannotations t ht a ha).default d hdefault
  cases d with
  | absent => cases hwritable
  | _ => rfl

/-! ### The three walks -/

/-- **A chain of refinements is documented as it runs.** The document of refinements around a base that is not
nullable lists their messages from the inside to the outside, which is the order in which a check calls their
predicates on a value that it accepts, after those in the base. The document has a default if some node of the chain
declares one, and it is the one that, filled in turn, is put in the place of an absent property. -/
theorem inlined_of_refinements {s : Schema} {validator : Validator} (h : s.compile = .ok validator)
    (hchain : s.refinements ≠ []) (hbase : s.SolidBase)
    (hannotations : ∀ t ∈ s.nodes, ∀ a ∈ t.annotations?, a.Serializable) :
    ∃ doc entries, s.inlined = .ok doc ∧ doc.get? "x-refinements" = some (.array entries) ∧
      entries.map (fun e => e.get? "message") = s.refinements.map (fun r => some (.data r.message)) ∧
      (∀ v, validator.check v = .ok true →
        ∃ base calls, s.unwrap.compile = .ok base ∧
          (validator.trace v).calls = (base.trace v).calls ++ calls ∧
            List.Forall₂ (Calls v) s.refinements calls) ∧
      ((doc.get? "default").isSome = true ↔ ∃ t ∈ s.layers, t.default?.isSome = true) ∧
      ∀ d, doc.get? "default" = some d →
        ∃ v, d = .data v ∧ s.applyDefaults .absent = s.applyDefaults v ∧
          ∀ ps key entries, Names ps → (key, s) ∈ ps → Value.hasKey key entries = false →
            Value.lookup? key (fillProperties ps entries) = some (s.applyDefaults v) := by
  have hdocumentable : s.Documentable := fun t ht => ⟨isNode_of_compileAt h t ht, hannotations t ht⟩
  obtain ⟨doc, hbuilds⟩ := exists_builds_document hdocumentable
  have hshows : s.ShowsChain doc := showsChain_of_run hbase (hbuilds {})
  have hentries : doc.get? "x-refinements" = some (.array (s.refinements.map refinementEntry)) := by
    have hlisted := hshows.refinements
    unfold Doc.refinements at hlisted
    split at hlisted
    · rename_i entries hfound
      rw [hfound, hlisted]
    · exact absurd (List.map_eq_nil_iff.mp hlisted.symm) hchain
  refine ⟨doc, _, congrArg Prod.fst (hbuilds {}), hentries, ?_, fun v hv => ?_, ?_, fun d hd => ?_⟩
  · rw [List.map_map]
    refine List.map_congr_left fun r _ => ?_
    show (refinementEntry r).get? "message" = _
    rw [refinementEntry, Doc.get?_setSome_of_ne _ _ (by decide)]
    rfl
  · exact calls_of_isClean h ((Trace.take_one_isEmpty_iff _).mp hv)
  · rw [hshows.default, dataOf, Option.isSome_map, ← outermostDefault_eq, outermostDefault, List.isSome_findSome?,
      List.any_eq_true]
  · rw [hshows.default] at hd
    obtain ⟨v, hv, rfl⟩ := Option.map_eq_some_iff.mp hd
    have hfill : s.applyDefaults v = s.fill v :=
      applyDefaults_of_isAbsent_eq_false s (isAbsent_of_declaredDefault hannotations hv)
    refine ⟨v, rfl, by rw [applyDefaults_absent hv, hfill], fun ps key entries hnames hp hmissing => ?_⟩
    rw [lookup?_fillProperties_of_missing hnames hp hmissing, hv, Option.map_some, hfill]

/-- Whether an array has at most two items. -/
def isShort : Predicate :=
  ⟨"is_short", "is_short", .null, fun v => .ok (decide ((v.items?.getD []).length ≤ 2))⟩

/-- Whether an array has items. -/
def hasItems : Predicate := ⟨"has_items", "has_items", .null, fun v => .ok v.truthy⟩

/-- One or two even numbers. The inner refinement has a default of its own. -/
def evenPair : Schema :=
  .refined { description := some "One or two" } ⟨.predicate isShort, .str "at most two", none⟩ <|
    .refined { default := some (.list [.str "2"]) } ⟨.predicate hasItems, .str "at least one", some "some"⟩ <|
      .array { default := some (.list []) } {} <|
        .refined {}
          ⟨.predicate ⟨"is_even", "is_even", .null, fun v => Validator.isMultiple v (.int 2)⟩, .str "even", none⟩
          (.integer {} {})

theorem names_pair : Names [(.str "pair", evenPair)] := ⟨by simp, by simp⟩

/-- The messages stand in the order of the calls, and what is filled in is the default of the inner refinement, not
the one of the array. -/
theorem inlined_of_refinements_evenPair :
    ∃ validator doc entries, evenPair.compile = .ok validator ∧ evenPair.refinements ≠ [] ∧ evenPair.SolidBase ∧
      (∀ t ∈ evenPair.nodes, ∀ a ∈ t.annotations?, a.Serializable) ∧ evenPair.inlined = .ok doc ∧
      doc.get? "x-refinements" = some (.array entries) ∧
      entries.map (fun e => e.get? "message") = [some (.text "at least one"), some (.text "at most two")] ∧
      ((validator.trace (.list [.int 4])).calls.map fun c => c.1.name) = ["is_even", "has_items", "is_short"] ∧
      (doc.get? "default").isSome = true ∧
      Value.lookup? (.str "pair") (fillProperties [(.str "pair", evenPair)] []) = some (.list [.str "2"]) := by
  obtain ⟨validator, hcompile, hcheck, hnames⟩ : ∃ validator, evenPair.compile = .ok validator ∧
      validator.check (.list [.int 4]) = .ok true ∧
        ((validator.trace (.list [.int 4])).calls.map fun c => c.1.name) = ["is_even", "has_items", "is_short"] :=
    ⟨_, rfl, by decide +kernel, by decide +kernel⟩
  have hchain : evenPair.refinements ≠ [] := List.concat_ne_nil _ _
  have hbase : evenPair.SolidBase := by
    rintro a inner ⟨⟩
  have hannotations : ∀ t ∈ evenPair.nodes, ∀ a ∈ t.annotations?, a.Serializable := by
    have hempty : ({} : Annotations).Serializable := ⟨by simp, by simp⟩
    have hdescribed : ({ description := some "One or two" } : Annotations).Serializable := ⟨by simp, by simp⟩
    have hnone : ({ default := some (.list []) } : Annotations).Serializable := ⟨by simp; rfl, by simp⟩
    have htwo : ({ default := some (.list [.str "2"]) } : Annotations).Serializable :=
      ⟨by simp; decide +kernel, by simp⟩
    simp [evenPair, nodes, annotations?, hempty, hdescribed, hnone, htwo]
  obtain ⟨doc, entries, hdoc, hentries, hmessages, -, hdefault, hfilled⟩ :=
    inlined_of_refinements hcompile hchain hbase hannotations
  obtain ⟨d, hd⟩ := Option.isSome_iff_exists.mp (hdefault.mpr ⟨_, List.mem_cons_of_mem _ List.mem_cons_self, rfl⟩)
  obtain ⟨v, rfl, hroot, hproperty⟩ := hfilled d hd
  have hlookup := hproperty _ _ [] names_pair List.mem_cons_self rfl
  rw [← hroot] at hlookup
  refine ⟨validator, doc, entries, hcompile, hchain, hbase, hannotations, hdoc, hentries, hmessages, hnames, ?_,
    hlookup⟩
  rw [hd, Option.isSome_some]

end Schema

end ApiContract
