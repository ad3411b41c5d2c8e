import ApiContract.Proofs.ComponentDocuments
import ApiContract.Proofs.ResolvedReferences
import ApiContract.Proofs.SharedNames

/-!
# The names of the components

Which names a document lists its components under. A build shows schemas (`Shows`): it may bind the names in them, and
in the end they are bound. So every component stands under a name that is given to a registered component, to a node
below one, or to a node that a visible route shows, or under one of the names for input that fails. Conversely each of
the former names has a component, if every object declares a property once (`components_of_generate`).
-/

namespace ApiContract

namespace Schema

variable {source? : String → Option Schema}

/-- Equal schemas have equal parts, so the names that are bound for the parts of one serve for the other. -/
theorem partsBound_of_same {u t : Schema} (hu : u.Named) (h : u.same t = true) (hparts : u.PartsBound source?) :
    t.PartsBound source? := by
  induction hparts generalizing t with
  | @node u shared own ih =>
      apply PartsBound.of_children
      intro y hy
      obtain ⟨x, hx, hxy⟩ := exists_child_of_same hu h y hy
      have hname := sharedName?_of_same hxy
      constructor
      · intro name hyname
        obtain ⟨w, hw, hserves⟩ := shared x hx name (hname.trans hyname)
        refine ⟨w, hw, .inr ?_⟩
        rcases hserves with rfl | hwx
        · exact hxy
        · exact same_trans hwx hxy
      · intro hyname
        exact ih x hx (hname.trans hyname) (hu.child hx) hxy

theorem Named.node {s t : Schema} (h : s.Named) (ht : t ∈ s.nodes) : t.Named :=
  everywhere_iff_nodes.mpr fun n hn => everywhere_iff_nodes.mp h n (nodes_subset_of_mem ht hn)

theorem mem_namedNodes {s t : Schema} {name : String} :
    (name, t) ∈ s.namedNodes ↔ t ∈ s.nodes ∧ t.sharedName? = some name := by
  unfold namedNodes
  rw [List.mem_filterMap]
  constructor
  · rintro ⟨u, hu, h⟩
    obtain ⟨_, hname, hpair⟩ := Option.map_eq_some_iff.mp h
    obtain ⟨rfl, rfl⟩ := Prod.mk.inj hpair
    exact ⟨hu, hname⟩
  · rintro ⟨ht, hname⟩
    refine ⟨t, ht, ?_⟩
    rw [hname]
    rfl

end Schema

namespace Collector

open Schema (Bound BoundTo Taken)

variable {Allowed : String → Schema → Prop} {c : Collector}

/-- In the end a schema that is bound to a name has its parts bound: those of the schema that serves for the name
are, and an equal schema has equal parts. -/
theorem Settled.partsBound_of_boundTo (h : c.Settled Allowed) (hnamed : ∀ name u, Allowed name u → u.Named)
    {name : String} {s : Schema} (hbound : BoundTo c.source? name s) : s.PartsBound c.source? := by
  obtain ⟨u, hu, hserves⟩ := hbound
  obtain ⟨-, -, -, hparts⟩ := h.exists_document hu
  rcases hserves with rfl | hsame
  · exact hparts
  · exact Schema.partsBound_of_same (hnamed name u (h.allowed name u hu)) hsame hparts

/-- In the end all names in a schema are bound if its own name is, or else those of its parts. -/
theorem Settled.taken_of_bound (h : c.Settled Allowed) (hnamed : ∀ name u, Allowed name u → u.Named) {s : Schema}
    (hbound : s.Bound c.source?) : ∀ n ∈ s.namedNodes, Taken c.source? n.1 := by
  induction s using Schema.childInduction with
  | node s ih =>
      -- below a node without a name of its own its parts are looked at right away
      have hparts : s.PartsBound c.source? := by
        cases hname : s.sharedName? with
        | none => exact hbound.own hname
        | some name => exact h.partsBound_of_boundTo hnamed (hbound.shared name hname)
      rintro ⟨name, t⟩ hn
      obtain ⟨ht, hname⟩ := Schema.mem_namedNodes.mp hn
      rcases Schema.mem_nodes_iff.mp ht with rfl | ⟨child, hchild, ht⟩
      · exact (hbound.shared name hname).taken
      · exact ih child hchild (hparts.child hchild) _ (Schema.mem_namedNodes.mpr ⟨ht, hname⟩)

/-- Below a schema that is bound to a name all names are bound. -/
theorem Settled.taken_of_boundTo (h : c.Settled Allowed) (hnamed : ∀ name u, Allowed name u → u.Named)
    {name : String} {s : Schema} (hbound : BoundTo c.source? name s) : ∀ n ∈ s.namedBelow, Taken c.source? n.1 := by
  intro n hn
  obtain ⟨child, hchild, hn⟩ := List.mem_flatMap.mp hn
  exact h.taken_of_bound hnamed ((h.partsBound_of_boundTo hnamed hbound).child hchild) n hn

/-- In the end the names that are bound are those that have a component. -/
theorem Settled.taken_iff (h : c.Settled Allowed) {name : String} :
    Taken c.source? name ↔ name ∈ c.schemas.map (·.1) := by
  constructor
  · intro htaken
    obtain ⟨d, hd⟩ := Option.isSome_iff_exists.mp (h.documented name htaken)
    rw [← lookup_schemas] at hd
    exact List.mem_map.mpr ⟨_, mem_of_lookup hd, rfl⟩
  · intro hname
    obtain ⟨⟨_, d⟩, hd, rfl⟩ := List.mem_map.mp hname
    obtain ⟨s, hs, -⟩ := h.sound _ _ (document?_of_mem_schemas hd)
    exact Option.isSome_iff_exists.mpr ⟨s, hs⟩

end Collector

namespace Documentation

open Routing

open Schema (BoundTo PartsBound Bound)

/-! ### Builds that show schemas -/

/-- A build that shows the given schemas: besides the names for input that fails it binds only names in them, and in
the end they are bound. -/
structure Shows {α : Type} (ss : List Schema) (b : Build α) : Prop where
  collects : ∀ {Allowed : String → Schema → Prop} {source? : String → Option Schema},
    NamesAllowed Allowed validationErrorSchema → (∀ s ∈ ss, NamesAllowed Allowed s) →
      Collects Allowed source? b fun _ => ∀ s ∈ ss, Bound source? s

namespace Shows

variable {α β : Type} {ss ts : List Schema}

theorem lift (x : Except Fault α) : Shows [] (x : Build α) where
  collects := fun _ _ => .lift fun _ _ => List.forall_mem_nil _

theorem pure (a : α) : Shows [] (pure a : Build α) := lift _

theorem throw (f : Fault) : Shows ss (throw f : Build α) where
  collects := fun _ _ => .throw

theorem bind {b : Build α} {f : α → Build β} (hb : Shows ss b) (hf : ∀ a, Shows ts (f a)) :
    Shows (ss ++ ts) (b >>= f) where
  collects := by
    intro Allowed source? hfailure hallowed
    obtain ⟨hss, hts⟩ := List.forall_mem_append.mp hallowed
    refine (hb.collects hfailure hss).bind fun a => ((hf a).collects hfailure hts).imp ?_
    intro _ hlast hfirst
    exact List.forall_mem_append.mpr ⟨hfirst, hlast⟩

/-- What follows a build without showing anything. -/
theorem followed {b : Build α} {f : α → Build β} (hb : Shows ss b) (hf : ∀ a, Shows [] (f a)) :
    Shows ss (b >>= f) := by
  have h := hb.bind hf
  rwa [List.append_nil] at h

theorem mapM {f : α → Build β} {shown : α → List Schema} {xs : List α} (h : ∀ x ∈ xs, Shows (shown x) (f x)) :
    Shows (xs.flatMap shown) (xs.mapM f) := by
  induction xs with
  | nil => exact .pure []
  | cons x xs ih =>
      rw [List.mapM_cons, List.flatMap_cons]
      refine (h x List.mem_cons_self).bind fun y => ?_
      exact (ih fun x hx => h x (List.mem_cons_of_mem _ hx)).followed fun ys => .pure _

theorem foldlM {f : β → α → Build β} {shown : α → List Schema} {xs : List α}
    (h : ∀ y, ∀ x ∈ xs, Shows (shown x) (f y x)) (y : β) : Shows (xs.flatMap shown) (xs.foldlM f y) := by
  induction xs generalizing y with
  | nil => exact .pure y
  | cons x xs ih =>
      rw [List.foldlM_cons, List.flatMap_cons]
      exact (h y x List.mem_cons_self).bind fun y' => ih (fun y x hx => h y x (List.mem_cons_of_mem _ hx)) y'

theorem document (s : Schema) : Shows [s] (s.document true) where
  collects := by
    intro Allowed source? _ hallowed
    refine (collects_document (hallowed s List.mem_cons_self)).imp ?_
    rintro d ⟨-, hbound⟩
    exact List.forall_mem_singleton.mpr hbound

/-- The response to input that fails may be documented at any time. -/
theorem failureResponse : Shows [] failureResponse where
  collects := by
    intro Allowed source? hfailure _
    have hname : Allowed "ValidationErrorResponse" validationErrorSchema :=
      hfailure _ validationErrorSchema.mem_nodes_self _ rfl
    exact (collects_failureResponse hname hfailure).imp fun _ _ => List.forall_mem_nil _

end Shows

/-! ### Routes -/

/-- The schemas of the parameters of a validation. -/
def parameterSchemas (v : RouteValidator) : List Schema :=
  match location? v.stage.target with
  | none => []
  | some _ =>
    match v.stage.pipeline.schema.object? with
    | none => []
    | some (_, properties) => properties.map (·.2)

/-- The schema of the body that a validation reads. -/
def bodySchemas (v : RouteValidator) : List Schema :=
  match bodyMediaTypes v.stage.target with
  | [] => []
  | _ => [v.stage.pipeline.schema]

/-- The schemas of the responses that a route declares. -/
def declaredSchemas (route : Route) : List Schema :=
  ((route.description.map (·.responses)).getD []).flatMap fun r => RouteDescription.responseSchemas r.2

/-- The schemas that the operation of a route shows. -/
def operationSchemas (route : Route) : List Schema :=
  route.validators.flatMap parameterSchemas ++ (route.validators.flatMap bodySchemas ++ declaredSchemas route)

theorem shows_validatorParameters (v : RouteValidator) : Shows (parameterSchemas v) (validatorParameters v) := by
  unfold validatorParameters parameterSchemas
  dsimp only
  cases location? v.stage.target with
  | none => exact .pure _
  | some location =>
      cases v.stage.pipeline.schema.object? with
      | none => exact .throw _
      | some object =>
          show Shows (object.2.map (·.2)) _
          rw [List.map_eq_flatMap]
          exact .mapM fun p _ => (Shows.document p.2).followed fun _ => .pure _

theorem shows_validatorContent (v : RouteValidator) : Shows (bodySchemas v) (validatorContent v) := by
  unfold validatorContent bodySchemas
  cases bodyMediaTypes v.stage.target with
  | nil => exact .pure _
  | cons t types => exact (Shows.document _).followed fun _ => .pure _

theorem shows_requestBody (route : Route) : Shows (route.validators.flatMap bodySchemas) (requestBody route) := by
  refine (Shows.mapM fun v _ => shows_validatorContent v).followed fun rows => ?_
  dsimp only
  split
  · exact .pure _
  · exact .pure _

theorem shows_responseSchema (s : Schema) : Shows [s] (responseSchema s) := by
  unfold responseSchema
  split
  · exact .document s
  · split
    · -- what is no schema names nothing
      constructor
      intro Allowed source? _ _
      apply Collects.pure
      intro s hs
      obtain rfl := List.mem_singleton.mp hs
      exact .of_own rfl (PartsBound.of_children (List.forall_mem_nil _))
    · exact .throw _

/-- The schema of a member of a media type. -/
def mediaSchemas : Value × MediaMember → List Schema
  | (_, .data _) => []
  | (_, .schema s) => [s]

theorem responseSchemas_content (key : Value) (types : List (Value × List (Value × MediaMember))) :
    RouteDescription.responseSchemas [(key, .content types)] = types.flatMap fun t => t.2.flatMap mediaSchemas := by
  simp only [RouteDescription.responseSchemas, List.flatMap_cons, List.flatMap_nil, List.append_nil,
    List.filterMap_eq_flatMap_toList]
  congr 1
  funext t
  congr 1
  funext m
  obtain ⟨_, _ | _⟩ := m
  · rfl
  · rfl

theorem shows_mediaMember (m : Value × MediaMember) : Shows (mediaSchemas m) (mediaMember m) := by
  obtain ⟨key, v | s⟩ := m
  · exact .pure _
  · exact (shows_responseSchema s).followed fun _ => .pure _

theorem shows_responseMember (m : Value × ResponseMember) :
    Shows (RouteDescription.responseSchemas [m]) (responseMember m) := by
  obtain ⟨key, v | types⟩ := m
  · exact .pure _
  · rw [responseSchemas_content]
    refine (Shows.mapM fun t _ => ?_).followed fun _ => .pure _
    exact (Shows.mapM fun m _ => shows_mediaMember m).followed fun _ => .pure _

theorem shows_declaredResponse (r : ResponseDescription) :
    Shows (RouteDescription.responseSchemas r) (declaredResponse r) := by
  have hrow : RouteDescription.responseSchemas r = r.flatMap fun m => RouteDescription.responseSchemas [m] := by
    simp only [RouteDescription.responseSchemas, List.flatMap_singleton]
  rw [hrow]
  exact (Shows.mapM fun m _ => shows_responseMember m).followed fun _ => .pure _

theorem shows_declaredResponses (route : Route) : Shows (declaredSchemas route) (declaredResponses route) := by
  refine .foldlM (fun responses r _ => ?_) []
  exact (shows_declaredResponse r.2).followed fun _ => (Shows.lift r.1.plain).followed fun _ => .pure _

theorem shows_addFailures (responses : List (String × Doc)) (statuses : List String) :
    Shows [] (addFailures responses statuses) := by
  have hnone : statuses.flatMap (fun _ => ([] : List Schema)) = [] := List.flatMap_eq_nil_iff.mpr fun _ _ => rfl
  rw [← hnone]
  refine .foldlM (fun responses status _ => ?_) responses
  split
  · exact .pure _
  · exact Shows.failureResponse.followed fun _ => .pure _

theorem shows_operation (settings : Settings) (route : Route) :
    Shows (operationSchemas route) (operation settings route) := by
  have hparameters : Shows (route.validators.flatMap parameterSchemas) (parameters route) :=
    (Shows.mapM fun v _ => shows_validatorParameters v).followed fun _ => .pure _
  have hresponses : Shows (declaredSchemas route) (responses settings route) :=
    (shows_declaredResponses route).followed fun declared => (Shows.lift _).followed fun statuses =>
      (shows_addFailures _ _).followed fun _ => .pure _
  exact hparameters.bind fun ps => (shows_requestBody route).bind fun body => hresponses.followed fun _ => .pure _

theorem shows_operations (settings : Settings) (routes : List Route) :
    Shows (routes.flatMap operationSchemas) (operations settings routes) := by
  refine .foldlM (fun paths route _ => ?_) _
  exact (shows_operation settings route).followed fun _ => .pure _

/-! ### Registries -/

/-- The names that the documentation of a registry comes to: those of its components and of the nodes below them,
and those of the nodes that its visible routes show. -/
def shownNames (r : Registry) : List String :=
  r.components.flatMap (fun c => c.1 :: c.2.namedBelow.map (·.1)) ++
    ((r.routes.filter isVisible).flatMap operationSchemas).flatMap fun s => s.namedNodes.map (·.1)

/-- The names for input that fails. -/
def refusalNames : List String := validationErrorSchema.namedNodes.map (·.1)

/-- The schemas that the documentation of a registry comes to. -/
def shownIn (r : Registry) : List Schema :=
  r.components.map (·.2) ++ (r.routes.filter isVisible).flatMap operationSchemas

/-- Under which name the documentation of a registry comes to a schema. -/
inductive ShownUnder (r : Registry) (name : String) (s : Schema) : Prop
  | component (h : (name, s) ∈ r.components)
  | part {key : String} {t : Schema} (ht : (key, t) ∈ r.components) (hs : (name, s) ∈ t.namedBelow)
  | route {t : Schema} (ht : t ∈ (r.routes.filter isVisible).flatMap operationSchemas)
      (hs : (name, s) ∈ t.namedNodes)
  | refusal (hs : (name, s) ∈ validationErrorSchema.namedNodes)

section Generate

variable {r : Registry} {settings : Settings} {doc : Doc}

theorem ShownUnder.mem_names {name : String} {s : Schema} (h : ShownUnder r name s) :
    name ∈ shownNames r ∨ name ∈ refusalNames := by
  unfold shownNames
  cases h with
  | component h =>
      exact .inl (List.mem_append_left _ (List.mem_flatMap.mpr ⟨_, h, List.mem_cons_self⟩))
  | part ht hs =>
      refine .inl (List.mem_append_left _ (List.mem_flatMap.mpr ⟨_, ht, List.mem_cons_of_mem _ ?_⟩))
      exact List.mem_map.mpr ⟨_, hs, rfl⟩
  | route ht hs =>
      refine .inl (List.mem_append_right _ (List.mem_flatMap.mpr ⟨_, ht, ?_⟩))
      exact List.mem_map.mpr ⟨_, hs, rfl⟩
  | refusal hs => exact .inr (List.mem_map.mpr ⟨_, hs, rfl⟩)

theorem named_validationErrorSchema : validationErrorSchema.Named := by
  apply Schema.everywhere_iff_nodes.mpr
  intro t ht
  simp [validationErrorSchema, Schema.nodes_eq, Schema.children] at ht
  rcases ht with rfl | rfl | rfl | rfl | rfl | rfl
  · exact ⟨by simp, by simp⟩
  · trivial
  · trivial
  · exact ⟨by simp, by simp⟩
  · trivial
  · trivial

theorem ShownUnder.named {name : String} {s : Schema} (h : ShownUnder r name s)
    (hnamed : ∀ t ∈ shownIn r, t.Named) : s.Named := by
  cases h with
  | component h => exact hnamed s (List.mem_append_left _ (List.mem_map.mpr ⟨_, h, rfl⟩))
  | @part key t ht hs =>
      obtain ⟨child, hchild, hs⟩ := List.mem_flatMap.mp hs
      have ht' := hnamed t (List.mem_append_left _ (List.mem_map.mpr ⟨_, ht, rfl⟩))
      exact (ht'.child hchild).node (Schema.mem_namedNodes.mp hs).1
  | @route t ht hs =>
      have ht' := hnamed t (List.mem_append_right _ ht)
      exact ht'.node (Schema.mem_namedNodes.mp hs).1
  | refusal hs => exact named_validationErrorSchema.node (Schema.mem_namedNodes.mp hs).1

/-- A loop that never breaks off collects what its steps do. -/
theorem collects_forIn_all {α : Type} {Allowed : String → Schema → Prop} {source? : String → Option Schema}
    {f : α → PUnit → Build (ForInStep PUnit)} {xs : List α} {R : α → Prop}
    (h : ∀ x ∈ xs, Collects Allowed source? (f x ⟨⟩) fun next => next = .yield ⟨⟩ ∧ R x) :
    Collects Allowed source? (forIn xs PUnit.unit f) fun _ => ∀ x ∈ xs, R x := by
  induction xs with
  | nil => exact .pure (List.forall_mem_nil _)
  | cons x xs ih =>
      rw [List.forIn_cons]
      refine (h x List.mem_cons_self).bind fun next => ?_
      cases next with
      | done =>
          refine .pure ?_
          rintro ⟨hyield, -⟩
          cases hyield
      | yield =>
          refine (ih fun x hx => h x (List.mem_cons_of_mem _ hx)).imp ?_
          rintro _ hrest ⟨-, hfirst⟩
          exact List.forall_mem_cons.mpr ⟨hfirst, hrest⟩

/-- Documenting a schema in place does not use its own name. -/
theorem collects_parts {Allowed : String → Schema → Prop} {source? : String → Option Schema} {s : Schema}
    (h : ∀ t ∈ s.children, NamesAllowed Allowed t) :
    Collects Allowed source? (s.inlineDoc true) fun _ => PartsBound source? s := by
  rw [Schema.inlineDoc_eq]
  refine (Collects.mapM fun t ht => collects_document (h t ht)).bind fun docs => .lift fun d _ hdocs => ?_
  apply PartsBound.of_children
  intro t ht
  obtain ⟨doc, -, -, hbound⟩ := exists_right_of_forall₂ hdocs ht
  exact hbound

/-- The collector behind the document of a registry: what it has bound is shown, and what is shown is bound. -/
theorem generate_shows (h : generate r settings = .ok doc) :
    ∃ c : Collector, c.Settled (ShownUnder r) ∧
      doc.get? "components" = some (.record [("schemas", .record c.schemas)]) ∧
      (∀ e ∈ r.components, BoundTo c.source? e.1 e.2) ∧
      ∀ s ∈ (r.routes.filter isVisible).flatMap operationSchemas, Bound c.source? s := by
  have hbuild : (build r settings).run {} = (.ok doc, ((build r settings).run {}).2) := Prod.ext h rfl
  obtain ⟨_, c₁, hcomponents, hbuild⟩ := build_bind_eq_ok hbuild
  obtain ⟨paths, c, hpaths, hbuild⟩ := build_bind_eq_ok hbuild
  obtain ⟨collector, c', hget, hbuild⟩ := build_bind_eq_ok hbuild
  obtain ⟨rfl, -⟩ := build_pure_eq_ok hbuild
  cases hget
  -- both halves of the build are judged against what is bound in the end
  have hadd : Collects (ShownUnder r) c.source? (forIn r.components PUnit.unit fun x _ => do
      let _ ← Collector.add x.1 x.2
      pure (ForInStep.yield PUnit.unit)) fun _ => ∀ e ∈ r.components, BoundTo c.source? e.1 e.2 := by
    refine collects_forIn_all fun e he => (collects_add (.component he) fun source? => ?_).bind fun _ => ?_
    · refine collects_parts fun t ht x hx name hname => .part he ?_
      exact List.mem_flatMap.mpr ⟨t, ht, Schema.mem_namedNodes.mpr ⟨hx, hname⟩⟩
    · refine .pure ?_
      rintro ⟨-, hbound⟩
      exact ⟨rfl, hbound⟩
  have hoperations : Collects (ShownUnder r) c.source? (operations settings (r.routes.filter isVisible)) fun _ =>
      ∀ s ∈ (r.routes.filter isVisible).flatMap operationSchemas, Bound c.source? s := by
    refine (shows_operations settings _).collects ?_ ?_
    · intro t ht name hname
      exact .refusal (Schema.mem_namedNodes.mpr ⟨ht, hname⟩)
    · intro s hs t ht name hname
      exact .route hs (Schema.mem_namedNodes.mpr ⟨ht, hname⟩)
  have hgrows := hoperations.grows_of_run hpaths
  refine ⟨c, (Collector.Settled.empty.run hadd hcomponents).run hoperations hpaths, ?_, ?_, ?_⟩
  · rw [Doc.get?_set_self]
  · exact (hadd.completes hcomponents).2 fun _ _ hs => hgrows.source? hs
  · exact (hoperations.completes hpaths).2 fun _ _ => id

/-- The components can be read off a document. -/
theorem schemas_eq_of_get? {entries entries' : List (String × Doc)}
    (h : doc.get? "components" = some (.record [("schemas", .record entries)]))
    (h' : doc.get? "components" = some (.record [("schemas", .record entries')])) : entries = entries' := by
  rw [h] at h'
  simp only [Doc.record, List.map_cons, List.map_nil, Option.some.injEq, Doc.object.injEq, List.cons.injEq,
    Prod.mk.injEq, true_and, and_true] at h'
  refine (List.map_inj_right ?_).mp h'
  rintro ⟨key, d⟩ ⟨key', d'⟩ hpair
  simpa using hpair

/-- **The components of a document** stand under the names that the documentation comes to, and under those for
input that fails; and there is one under each of the former, if every object declares a property once. -/
theorem components_of_generate (h : generate r settings = .ok doc) :
    ∃ entries, doc.get? "components" = some (.record [("schemas", .record entries)]) ∧
      (∀ name ∈ entries.map (·.1), name ∈ shownNames r ∨ name ∈ refusalNames) ∧
      ((∀ s ∈ shownIn r, s.Named) → ∀ name ∈ shownNames r, name ∈ entries.map (·.1)) ∧
      ∀ name ∈ doc.references, name ∈ entries.map (·.1) := by
  obtain ⟨c, hsettled, hcomponents, hadded, hshown⟩ := generate_shows h
  refine ⟨c.schemas, hcomponents, ?_, ?_, ?_⟩
  · intro name hname
    obtain ⟨s, hs⟩ := Option.isSome_iff_exists.mp (hsettled.taken_iff.mpr hname)
    exact (hsettled.allowed name s hs).mem_names
  · intro hnamed name hname
    have hallowed : ∀ name u, ShownUnder r name u → u.Named := fun _ _ hu => hu.named hnamed
    apply hsettled.taken_iff.mp
    rcases List.mem_append.mp hname with hname | hname
    · obtain ⟨e, he, hname⟩ := List.mem_flatMap.mp hname
      rcases List.mem_cons.mp hname with rfl | hname
      · exact (hadded e he).taken
      · obtain ⟨n, hn, rfl⟩ := List.mem_map.mp hname
        exact hsettled.taken_of_boundTo hallowed (hadded e he) n hn
    · obtain ⟨s, hs, hname⟩ := List.mem_flatMap.mp hname
      obtain ⟨n, hn, rfl⟩ := List.mem_map.mp hname
      exact hsettled.taken_of_bound hallowed (hshown s hs) n hn
  · obtain ⟨c', hsettled', hcomponents', hresolves⟩ := generate_collects h
    -- the collector behind the references is the one behind the components: both are in the document
    have hsame : c'.schemas = c.schemas := schemas_eq_of_get? hcomponents' hcomponents
    intro name hname
    rw [← hsame]
    apply hsettled'.taken_iff.mp
    refine hresolves ?_ name hname
    intro e he
    obtain ⟨s, -, hyields, hparts⟩ := hsettled'.sound _ _ (Collector.document?_of_mem_schemas he)
    exact hyields.resolves hparts

end Generate

end Documentation

end ApiContract
