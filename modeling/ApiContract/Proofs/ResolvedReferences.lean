import ApiContract.Documentation.OpenApi
import ApiContract.Proofs.Members
import ApiContract.Proofs.References

/-!
# The references of a registry's document

The steps that describe a route collect what the schemas in it name, and what they make refers to names that
are bound (`collects_operation`). In the end every name that is bound has a document among the components,
which refers to such names as well. So **every reference of a generated document resolves**
(`references_resolve`), and a component is there for a reason (`Binds`).
-/

namespace ApiContract

open Schema (Taken)

variable {Allowed : String → Schema → Prop} {source? : String → Option Schema}

theorem Collects.forIn {α : Type} {f : α → PUnit → Build (ForInStep PUnit)} {xs : List α}
    (h : ∀ x ∈ xs, Collects Allowed source? (f x ⟨⟩) fun next => next = .yield ⟨⟩) :
    Collects Allowed source? (forIn xs PUnit.unit f) fun _ => True := by
  induction xs with
  | nil => exact .pure trivial
  | cons x xs ih =>
      rw [List.forIn_cons]
      refine (h x List.mem_cons_self).bind fun next => ?_
      cases next with
      | done => exact .pure fun _ => trivial
      | yield => exact (ih fun x hx => h x (List.mem_cons_of_mem _ hx)).imp fun _ _ _ => trivial

namespace Documentation

open Routing

/-- The names of the nodes of a schema are allowed. -/
def NamesAllowed (Allowed : String → Schema → Prop) (s : Schema) : Prop :=
  ∀ t ∈ s.nodes, ∀ name, t.sharedName? = some name → Allowed name t

theorem NamesAllowed.mono {s t : Schema} (h : NamesAllowed Allowed s) (hnodes : t.nodes ⊆ s.nodes) :
    NamesAllowed Allowed t :=
  fun x hx => h x (hnodes hx)

theorem collects_schema {s : Schema} (h : NamesAllowed Allowed s) :
    Collects Allowed source? (s.document true) fun d => d.Resolves (Taken source?) := by
  refine (collects_document h).imp ?_
  rintro d ⟨hshown, hbound⟩
  exact hshown.resolves hbound

/-! ### Parameters and bodies -/

theorem collects_parameter {location : String} {required : List Value} {key : Value} {s : Schema}
    (h : NamesAllowed Allowed s) :
    Collects Allowed source? (parameter location required key s) fun d => d.Resolves (Taken source?) := by
  refine (collects_schema h).bind fun doc => .pure fun hdoc => Doc.Resolves.setData ?_
  simpa [Doc.resolves_record, Doc.resolves_data, Doc.resolves_text] using hdoc

theorem collects_validatorParameters {v : RouteValidator} (h : NamesAllowed Allowed v.stage.pipeline.schema) :
    Collects Allowed source? (validatorParameters v) fun ds => ∀ d ∈ ds, d.Resolves (Taken source?) := by
  unfold validatorParameters
  dsimp only
  split
  · exact .pure (List.forall_mem_nil _)
  · split
    · exact .throw
    · rename_i f ps hobject
      have hallowed : ∀ p ∈ ps, NamesAllowed Allowed p.2 := by
        intro p hp
        refine h.mono (List.Subset.trans ?_ (Schema.nodes_unwrap_subset _))
        obtain ⟨a, hunwrap⟩ := Schema.object?_eq_some hobject
        rw [hunwrap]
        exact Schema.nodes_property_subset hp
      refine (Collects.mapM fun p hp => collects_parameter (hallowed p hp)).imp fun ds hds d hd => ?_
      obtain ⟨p, -, hresolves⟩ := exists_left_of_forall₂ hds hd
      exact hresolves

theorem collects_parameters {route : Route}
    (h : ∀ v ∈ route.validators, NamesAllowed Allowed v.stage.pipeline.schema) :
    Collects Allowed source? (parameters route) fun ds => ∀ d ∈ ds, d.Resolves (Taken source?) := by
  refine (Collects.mapM fun v hv => collects_validatorParameters (h v hv)).bind fun rows => .pure ?_
  intro hrows d hd
  obtain ⟨row, hrow, hd⟩ := List.mem_flatten.mp hd
  obtain ⟨v, -, hresolves⟩ := exists_left_of_forall₂ hrows hrow
  exact hresolves d hd

theorem collects_validatorContent {v : RouteValidator} (h : NamesAllowed Allowed v.stage.pipeline.schema) :
    Collects Allowed source? (validatorContent v) fun content => ∀ e ∈ content, e.2.Resolves (Taken source?) := by
  unfold validatorContent
  split
  · exact .pure (List.forall_mem_nil _)
  · refine (collects_schema h).bind fun doc => .pure fun hdoc => List.forall_mem_map.mpr fun t _ => ?_
    exact Doc.resolves_record.mpr (List.forall_mem_singleton.mpr hdoc)

theorem collects_requestBody {route : Route}
    (h : ∀ v ∈ route.validators, NamesAllowed Allowed v.stage.pipeline.schema) :
    Collects Allowed source? (requestBody route) fun body => ∀ d ∈ body, d.Resolves (Taken source?) := by
  refine (Collects.mapM fun v hv => collects_validatorContent (h v hv)).bind fun rows => ?_
  dsimp only
  split
  · exact .pure fun _ d hd => by cases hd
  · refine .pure fun hrows d hd => ?_
    cases hd
    refine Doc.resolves_record.mpr (List.forall_mem_cons.mpr ⟨Doc.resolves_data _,
      List.forall_mem_singleton.mpr (Doc.resolves_record.mpr fun e he => ?_)⟩)
    obtain ⟨row, hrow, he⟩ := List.mem_flatten.mp he
    obtain ⟨v, -, hresolves⟩ := exists_left_of_forall₂ hrows hrow
    exact hresolves e he

/-! ### Responses -/

theorem collects_responseSchema {s : Schema} (h : NamesAllowed Allowed s) :
    Collects Allowed source? (responseSchema s) fun d => d.Resolves (Taken source?) := by
  unfold responseSchema
  split
  · exact collects_schema h
  · split
    · exact .pure (Doc.resolves_data _)
    · exact .throw

theorem collects_mediaMember {m : Value × MediaMember}
    (h : ∀ s, m.2 = .schema s → NamesAllowed Allowed s) :
    Collects Allowed source? (mediaMember m) fun e => e.2.Resolves (Taken source?) := by
  obtain ⟨key, v | s⟩ := m
  · exact .pure (Doc.resolves_data v)
  · exact (collects_responseSchema (h s rfl)).bind fun doc => .pure id

/-- What is made of each of a row resolves. -/
theorem collects_members {α κ : Type} {f : α → Build (κ × Doc)} {xs : List α}
    (h : ∀ x ∈ xs, Collects Allowed source? (f x) fun e => e.2.Resolves (Taken source?)) :
    Collects Allowed source? (xs.mapM f) fun es => ∀ e ∈ es, e.2.Resolves (Taken source?) := by
  refine (Collects.mapM h).imp fun es hes e he => ?_
  obtain ⟨x, -, hresolves⟩ := exists_left_of_forall₂ hes he
  exact hresolves

theorem collects_responseMember {m : Value × ResponseMember}
    (h : ∀ s ∈ RouteDescription.responseSchemas [m], NamesAllowed Allowed s) :
    Collects Allowed source? (responseMember m) fun e => e.2.Resolves (Taken source?) := by
  obtain ⟨key, v | types⟩ := m
  · exact .pure (Doc.resolves_data v)
  · refine (collects_members fun t ht => ?_).bind fun docs => .pure Doc.resolves_object.mpr
    refine (collects_members fun m hm => ?_).bind fun members => .pure Doc.resolves_object.mpr
    refine collects_mediaMember fun s hs => h s ?_
    obtain ⟨key', m⟩ := m
    obtain rfl : m = .schema s := hs
    simp only [RouteDescription.responseSchemas, List.flatMap_cons, List.flatMap_nil, List.append_nil,
      List.mem_flatMap, List.mem_filterMap]
    exact ⟨t, ht, _, hm, rfl⟩

theorem collects_declaredResponse {r : ResponseDescription}
    (h : ∀ s ∈ RouteDescription.responseSchemas r, NamesAllowed Allowed s) :
    Collects Allowed source? (declaredResponse r) fun d => d.Resolves (Taken source?) := by
  refine (collects_members fun m hm => collects_responseMember fun s hs => h s ?_).bind fun members =>
    .pure fun hmembers => ?_
  · rw [RouteDescription.responseSchemas, List.flatMap_singleton] at hs
    exact List.mem_flatMap.mpr ⟨m, hm, hs⟩
  · have hdoc := Doc.resolves_object.mpr hmembers
    split
    · exact hdoc
    · exact hdoc.set (Doc.resolves_text _)

theorem resolves_bindResponse {Known : String → Prop} {responses : List (String × Doc)} {status : String}
    {doc : Doc} (h : ∀ r ∈ responses, r.2.Resolves Known) (hdoc : doc.Resolves Known) :
    ∀ r ∈ bindResponse responses status doc, r.2.Resolves Known :=
  List.forall_mem_append.mpr ⟨fun r hr => h r (List.mem_of_mem_filter hr), List.forall_mem_singleton.mpr hdoc⟩

theorem collects_declaredResponses {route : Route}
    (h : ∀ r ∈ (route.description.map (·.responses)).getD [], ∀ s ∈ RouteDescription.responseSchemas r.2,
      NamesAllowed Allowed s) :
    Collects Allowed source? (declaredResponses route) fun rs => ∀ r ∈ rs, r.2.Resolves (Taken source?) := by
  refine (Collects.foldlM (Q := fun rs => ∀ r ∈ rs, r.2.Resolves (Taken source?)) (fun responses r hr => ?_)
    []).imp fun rs hall => hall fun _ hr => by cases hr
  refine (collects_declaredResponse (h r hr)).bind fun doc => ?_
  exact (Collects.lift (Q := fun _ => True) fun _ _ => trivial).bind fun status =>
    .pure fun _ hdoc hresponses => resolves_bindResponse hresponses hdoc

theorem collects_failureResponse (hname : Allowed "ValidationErrorResponse" validationErrorSchema)
    (h : NamesAllowed Allowed validationErrorSchema) :
    Collects Allowed source? failureResponse fun d => d.Resolves (Taken source?) := by
  refine (collects_add hname fun _ => collects_inlineDoc h).bind fun schema => .pure ?_
  rintro ⟨rfl, hbound⟩
  simpa [Doc.resolves_record, Doc.resolves_text, Doc.resolves_referTo] using hbound.taken

theorem collects_addFailures (hname : Allowed "ValidationErrorResponse" validationErrorSchema)
    (h : NamesAllowed Allowed validationErrorSchema) (responses : List (String × Doc))
    (statuses : List String) :
    Collects Allowed source? (addFailures responses statuses) fun rs =>
      (∀ r ∈ responses, r.2.Resolves (Taken source?)) → ∀ r ∈ rs, r.2.Resolves (Taken source?) := by
  refine Collects.foldlM (Q := fun rs => ∀ r ∈ rs, r.2.Resolves (Taken source?))
    (fun responses status _ => ?_) responses
  split
  · exact .pure id
  · exact (collects_failureResponse hname h).bind fun doc => .pure fun hdoc hresponses =>
      resolves_bindResponse hresponses hdoc

/-- The schemas that the documentation of a route shows. -/
def shownSchemas (route : Route) : List Schema :=
  (route.validators.map fun v => v.stage.pipeline.schema) ++
    ((route.description.map (·.responses)).getD []).flatMap fun r => RouteDescription.responseSchemas r.2

theorem collects_responses {settings : Settings} {route : Route}
    (h : ∀ s ∈ shownSchemas route, NamesAllowed Allowed s)
    (hname : Allowed "ValidationErrorResponse" validationErrorSchema)
    (hfailure : NamesAllowed Allowed validationErrorSchema) :
    Collects Allowed source? (responses settings route) fun d => d.Resolves (Taken source?) := by
  refine (collects_declaredResponses fun r hr s hs => h s ?_).bind fun declared => ?_
  · exact List.mem_append_right _ (List.mem_flatMap.mpr ⟨r, hr, hs⟩)
  refine (Collects.lift fun _ _ => trivial).bind fun statuses => ?_
  refine (collects_addFailures hname hfailure _ _).bind fun all => .pure fun hall _ hdeclared => ?_
  have hsuccess : ∀ r ∈ addSuccess declared, r.2.Resolves (Taken source?) := by
    unfold addSuccess
    split
    · exact hdeclared
    · exact resolves_bindResponse hdeclared
        (Doc.resolves_record.mpr (List.forall_mem_singleton.mpr (Doc.resolves_text _)))
  refine Doc.resolves_record.mpr fun r hr => ?_
  obtain ⟨status, -, hr⟩ := List.mem_filterMap.mp hr
  obtain ⟨doc, hdoc, rfl⟩ := Option.map_eq_some_iff.mp hr
  exact hall hsuccess (status, doc) (mem_of_lookup hdoc)

/-! ### Operations -/

theorem resolves_wording {Known : String → Prop} (d : RouteDescription) : (wording d).Resolves Known := by
  have htags : ∀ e ∈ (if d.tags.isEmpty then none else some (Doc.data (.list d.tags))), e.Resolves Known := by
    intro e he
    split at he
    · cases he
    · cases he
      exact Doc.resolves_data _
  have hdeprecated : ∀ e ∈ (if d.deprecated then some (Doc.data (.bool true)) else none), e.Resolves Known := by
    intro e he
    split at he
    · cases he
      exact Doc.resolves_data _
    · cases he
  have hempty : (Doc.record []).Resolves Known := Doc.resolves_record.mpr (List.forall_mem_nil _)
  exact ((hempty.setSome htags).setData.setData.setData).setSome hdeprecated

/-- The operation of a route refers to names that are bound. -/
theorem collects_operation {settings : Settings} {route : Route}
    (h : ∀ s ∈ shownSchemas route, NamesAllowed Allowed s)
    (hname : Allowed "ValidationErrorResponse" validationErrorSchema)
    (hfailure : NamesAllowed Allowed validationErrorSchema) :
    Collects Allowed source? (operation settings route) fun d => d.Resolves (Taken source?) := by
  have hvalidators : ∀ v ∈ route.validators, NamesAllowed Allowed v.stage.pipeline.schema := fun v hv =>
    h _ (List.mem_append_left _ (List.mem_map_of_mem hv))
  have hwording : ((route.description.map wording).getD (.record [])).Resolves (Taken source?) := by
    cases route.description with
    | none => exact Doc.resolves_record.mpr (List.forall_mem_nil _)
    | some d => exact resolves_wording d
  refine (collects_parameters hvalidators).bind fun ps => ?_
  refine (collects_requestBody hvalidators).bind fun body => ?_
  refine (collects_responses h hname hfailure).bind fun doc => .pure fun hdoc hbody hps => ?_
  refine Doc.Resolves.set (Doc.Resolves.setSome ?_ hbody) hdoc
  split
  · exact hwording
  · exact hwording.set (Doc.resolves_array.mpr hps)

theorem collects_operations {settings : Settings} {routes : List Route}
    (h : ∀ route ∈ routes, ∀ s ∈ shownSchemas route, NamesAllowed Allowed s)
    (hname : Allowed "ValidationErrorResponse" validationErrorSchema)
    (hfailure : NamesAllowed Allowed validationErrorSchema) :
    Collects Allowed source? (operations settings routes) fun d => d.Resolves (Taken source?) := by
  refine (Collects.foldlM (Q := fun d => d.Resolves (Taken source?)) (fun paths route hroute => ?_) _).imp
    fun _ hall => hall (Doc.resolves_record.mpr (List.forall_mem_nil _))
  refine (collects_operation (h route hroute) hname hfailure).bind fun doc => .pure fun hdoc hpaths => ?_
  refine hpaths.set (Doc.Resolves.set ?_ hdoc)
  cases hold : paths.get? (PathPattern.documented route.path) with
  | none => exact Doc.resolves_record.mpr (List.forall_mem_nil _)
  | some old => exact hpaths.get? hold

/-! ### Documents -/

/-- Why a name is bound to a schema when a registry is documented: the schema is a registered component, or a
node of this name in a component, in a visible route or in the response to input that fails. -/
inductive Binds (r : Registry) (name : String) (s : Schema) : Prop
  | component (h : (name, s) ∈ r.components)
  | inComponent {key : String} {t : Schema} (ht : (key, t) ∈ r.components) (hs : s ∈ t.nodes)
      (hname : s.sharedName? = some name)
  | inRoute {route : Route} {t : Schema} (hroute : route ∈ r.routes) (hvisible : isVisible route = true)
      (ht : t ∈ shownSchemas route) (hs : s ∈ t.nodes) (hname : s.sharedName? = some name)
  | inFailure (hs : s ∈ validationErrorSchema.nodes) (hname : s.sharedName? = some name)

/-- What stands in front of the operations refers to nothing. -/
theorem resolves_heading {Known : String → Prop} (settings : Settings) :
    (Doc.record [("openapi", .text formatVersion), ("info", info settings)]).Resolves Known ∧
      ∀ s ∈ settings.servers.map server, s.Resolves Known := by
  have hpair {key key' : String} {d : Doc} {text : String} (hd : d.Resolves Known) :
      (Doc.record [(key, .text text), (key', d)]).Resolves Known :=
    Doc.resolves_record.mpr (List.forall_mem_cons.mpr
      ⟨Doc.resolves_text _, List.forall_mem_singleton.mpr hd⟩)
  refine ⟨hpair (hpair (Doc.resolves_text _)).setData, List.forall_mem_map.mpr fun s _ => ?_⟩
  exact (Doc.resolves_record.mpr (List.forall_mem_singleton.mpr (Doc.resolves_text _))).setData

/-- The document of a registry: operations, and the components that a settled collector holds. -/
theorem generate_collects {r : Registry} {settings : Settings} {doc : Doc}
    (h : generate r settings = .ok doc) :
    ∃ c : Collector, c.Settled (Binds r) ∧
      doc.get? "components" = some (.record [("schemas", .record c.schemas)]) ∧
      ((∀ e ∈ c.schemas, e.2.Resolves (Taken c.source?)) → doc.Resolves (Taken c.source?)) := by
  have hbuild : (build r settings).run {} = (.ok doc, ((build r settings).run {}).2) := Prod.ext h rfl
  obtain ⟨_, c₁, hcomponents, hbuild⟩ := build_bind_eq_ok hbuild
  obtain ⟨paths, c, hpaths, hbuild⟩ := build_bind_eq_ok hbuild
  obtain ⟨collector, c', hget, hbuild⟩ := build_bind_eq_ok hbuild
  obtain ⟨rfl, -⟩ := build_pure_eq_ok hbuild
  cases hget
  have hallowed : Collects (Binds r) c.source? (forIn r.components PUnit.unit fun x _ => do
      let _ ← Collector.add x.1 x.2
      pure (ForInStep.yield PUnit.unit)) fun _ => True := by
    refine .forIn fun x hx => (collects_add (.component hx) fun _ => collects_inlineDoc ?_).bind fun _ => ?_
    · exact fun t ht name hname => .inComponent hx ht hname
    · exact .pure fun _ => rfl
  have hoperations : Collects (Binds r) c.source? (operations settings (r.routes.filter isVisible)) fun d =>
      d.Resolves (Taken c.source?) := by
    refine collects_operations (fun route hroute s hs t ht name hname => ?_)
      (.inFailure validationErrorSchema.mem_nodes_self rfl) fun t ht name hname => .inFailure ht hname
    obtain ⟨hroute, hvisible⟩ := List.mem_filter.mp hroute
    exact .inRoute hroute hvisible hs ht hname
  refine ⟨c, (Collector.Settled.empty.run hallowed hcomponents).run hoperations hpaths, ?_, fun hschemas => ?_⟩
  · rw [Doc.get?_set_self]
  · have hresolves := (hoperations.completes hpaths).2 fun _ _ => id
    obtain ⟨hheading, hservers⟩ := resolves_heading settings
    refine Doc.Resolves.set (Doc.Resolves.set ?_ hresolves) ?_
    · split
      · exact hheading
      · exact hheading.set (Doc.resolves_array.mpr hservers)
    · exact Doc.resolves_record.mpr (List.forall_mem_singleton.mpr (Doc.resolves_record.mpr hschemas))

/-- **Every reference of a generated document resolves**: it is the text of a name under which the document
lists a component. A component is listed under a name that a registered component has, or a named node of one,
of a visible route or of the response to input that fails; and what is listed is a document of this schema. -/
theorem references_resolve {r : Registry} {settings : Settings} {doc : Doc}
    (h : generate r settings = .ok doc) :
    ∃ entries, doc.get? "components" = some (.record [("schemas", .record entries)]) ∧
      (∀ name ∈ doc.references, (Doc.reference name).toValue = .str ("#/components/schemas/" ++ name) ∧
        name ∈ entries.map (·.1)) ∧
      ∀ e ∈ entries, ∃ s, Binds r e.1 s ∧ s.Yields e.2 := by
  obtain ⟨c, hsettled, hcomponents, hdoc⟩ := generate_collects h
  have hentry : ∀ e ∈ c.schemas, ∃ s, Binds r e.1 s ∧ s.Yields e.2 ∧ s.PartsBound c.source? := by
    intro e he
    obtain ⟨s, hs, hyields, hparts⟩ := hsettled.sound _ _ (Collector.document?_of_mem_schemas he)
    exact ⟨s, hsettled.allowed _ _ hs, hyields, hparts⟩
  refine ⟨c.schemas, hcomponents, fun name hname => ⟨rfl, ?_⟩, fun e he => ?_⟩
  · have htaken : Taken c.source? name := hdoc (fun e he => by
      obtain ⟨s, -, hyields, hparts⟩ := hentry e he
      exact hyields.resolves hparts) name hname
    obtain ⟨d, hd⟩ := Option.isSome_iff_exists.mp (hsettled.documented name htaken)
    rw [← Collector.lookup_schemas] at hd
    obtain ⟨before, after, hsplit, -⟩ := List.lookup_eq_some_iff.mp hd
    rw [hsplit, List.map_append]
    exact List.mem_append_right _ List.mem_cons_self
  · obtain ⟨s, hbinds, hyields, -⟩ := hentry e he
    exact ⟨s, hbinds, hyields⟩

/-- A post. -/
def post : Schema := .object { name := some "Post" } {} [(.str "title", .string {} {})]

/-- A post is shown in one of two media types, with links that users wrote themselves. -/
def showPost : RouteDescription where
  responses := [(.str "200", [
    (.str "content", .content [(.str "application/json", [(.str "schema", .schema post)]),
      (.str "application/yaml", [(.str "schema", .schema post)])]),
    (.str "links", .data (.record [("$ref", .str "#/components/links/Next")]))])]

/-- Posts are shown. -/
def blog : Registry where
  routes := [
    { method := "GET"
      path := "/post"
      stages := [.description showPost]
      handler := .function "post" fun _ => ⟨[], .ok (.value .null)⟩
      name := none
      validators := []
      description := some showPost }]

/-- The document of the blog refers to posts twice. What users wrote is no reference. -/
theorem references_resolve_blog :
    ∃ doc entries, generate blog {} = .ok doc ∧ doc.references = ["Post", "Post"] ∧
      doc.get? "components" = some (.record [("schemas", .record entries)]) ∧
      (∀ name ∈ doc.references, name ∈ entries.map (·.1)) ∧
      ∀ e ∈ entries, ∃ s, Binds blog e.1 s ∧ s.Yields e.2 := by
  have hreferences : (generate blog {}).toOption.map (·.references) = some ["Post", "Post"] := by
    with_unfolding_all rfl
  have hdoc : ∃ doc, generate blog {} = .ok doc := ⟨_, rfl⟩
  obtain ⟨doc, hdoc⟩ := hdoc
  obtain ⟨entries, hcomponents, hresolve, hentries⟩ := references_resolve hdoc
  rw [hdoc] at hreferences
  exact ⟨doc, entries, hdoc, Option.some.inj hreferences, hcomponents, fun name hname =>
    (hresolve name hname).2, hentries⟩

end Documentation

end ApiContract
