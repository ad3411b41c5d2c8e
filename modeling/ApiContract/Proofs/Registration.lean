import ApiContract.Proofs.Acceptance
import ApiContract.Proofs.ListLemmas
import ApiContract.Routing.Registry

/-!
# What registration finds out

A registered route has a handler that can be called, and its validations are for pairwise different
targets. What registration keeps true of a registry (`Registry.Sound`) holds of every registry that it can
reach (`Registry.Reachable.sound`).
-/

namespace ApiContract.Routing

/-- The target that a stage validates, if it validates one. -/
def Stage.target? : Stage → Option Target
  | .validation stage => some stage.target
  | _ => none

/-- The targets that a row of stages validates, in order. -/
def targets (stages : List Stage) : List Target := stages.filterMap Stage.target?

@[simp] theorem targets_cons_validation (stage : ValidationStage) (rest : List Stage) :
    targets (.validation stage :: rest) = stage.target :: targets rest := rfl

theorem mem_targets {stages : List Stage} {t : Target} :
    t ∈ targets stages ↔ ∃ stage, .validation stage ∈ stages ∧ stage.target = t := by
  simp only [targets, List.mem_filterMap]
  constructor
  · rintro ⟨stage, hmem, h⟩
    cases stage with
    | validation stage => exact ⟨stage, hmem, Option.some.inj h⟩
    | _ => cases h
  · rintro ⟨stage, hmem, rfl⟩
    exact ⟨_, hmem, rfl⟩

/-- The targets of extracted stages are pairwise different, and none of them was seen before. -/
theorem targets_of_extract {method path : String} {seen : List Target}
    {description : Option RouteDescription} {stages : List Stage}
    {result : List RouteValidator × Option RouteDescription}
    (h : extract method path seen description stages = .ok result) :
    (targets stages).Nodup ∧ ∀ t ∈ targets stages, t ∉ seen := by
  induction stages generalizing seen description result with
  | nil => exact ⟨List.nodup_nil, fun t ht => absurd ht List.not_mem_nil⟩
  | cons stage rest ih =>
      cases stage with
      | validation stage =>
          rw [extract] at h
          dsimp only at h
          split_ifs at h with hseen
          · cases h
          · -- the targets seen so far go along, so none of them comes again
            obtain ⟨rest', hrest, -⟩ := bind_eq_ok_iff.mp h
            obtain ⟨hnodup, hnew⟩ := ih hrest
            rw [targets_cons_validation, List.nodup_cons]
            refine ⟨⟨fun ht => hnew _ ht List.mem_cons_self, hnodup⟩, fun t ht => ?_⟩
            rcases List.mem_cons.mp ht with rfl | ht
            · exact hseen
            · exact fun hs => hnew t ht (List.mem_cons_of_mem _ hs)
      | description d => exact ih h
      | custom run => exact ih h
      | value v =>
          obtain ⟨_, _, h⟩ := bind_eq_ok_iff.mp h
          cases h

theorem ensureOpen_eq_ok {r : Registry} : r.ensureOpen = .ok () ↔ r.frozen = false := by
  unfold Registry.ensureOpen
  split_ifs with hfrozen
  · simp [hfrozen]
  · simpa using hfrozen

/-- A route is registered exactly if the registry is open, method and path are admissible and new, the handler is
a function, and the stages can be extracted. The route that is added at the end carries what was extracted. -/
theorem addRoute_eq_ok {registry registry' : Registry} {method path : String} {stages : List Stage}
    {handler : Handler} {name : Option String} {handle : RouteHandle} :
    registry.addRoute method path stages handler name = .ok (registry', handle) ↔
      ∃ validators description functionName run,
        registry.frozen = false ∧ Text.toUpper method ∈ httpMethods ∧
        path.toList.head? = some '/' ∧ registry.isTaken (Text.toUpper method) path = false ∧
        handler = .function functionName run ∧
        extract (Text.toUpper method) path [] none stages = .ok (validators, description) ∧
        registry' = { registry with
          routes := registry.routes ++
            [⟨Text.toUpper method, path, stages, handler, name, validators, description⟩],
          keys := registry.keys ++ [(Text.toUpper method, path)] } ∧
        handle = ⟨registry.routes.length, Text.toUpper method, path⟩ := by
  constructor
  · intro h
    unfold Registry.addRoute at h
    obtain ⟨_, hopen, h⟩ := bind_eq_ok_iff.mp h
    have hfrozen : registry.frozen = false := ensureOpen_eq_ok.mp hopen
    -- the checks in the order in which they are made; each failure is a fault
    by_cases hmethod : Text.toUpper method ∈ httpMethods
    swap
    · rw [if_neg hmethod] at h
      cases h
    by_cases hpath : (path.toList.head? == some '/') = true
    swap
    · rw [if_pos hmethod, if_neg hpath] at h
      cases h
    by_cases htaken : registry.isTaken (Text.toUpper method) path = true
    · rw [if_pos hmethod, if_pos hpath, if_pos htaken] at h
      cases h
    rw [if_pos hmethod, if_pos hpath, if_neg htaken] at h
    cases handler with
    | value v => cases h
    | function functionName run =>
        obtain ⟨⟨validators, description⟩, hextract, h⟩ := bind_eq_ok_iff.mp h
        obtain ⟨rfl, rfl⟩ := Prod.mk.inj (Except.ok.inj h)
        exact ⟨validators, description, functionName, run, hfrozen, hmethod, by simpa using hpath,
          by simpa using htaken, rfl, hextract, rfl, rfl⟩
  · rintro ⟨validators, description, functionName, run, hfrozen, hmethod, hpath, htaken, rfl, hextract, rfl, rfl⟩
    have hslash : (path.toList.head? == some '/') = true := beq_iff_eq.mpr hpath
    refine bind_eq_ok_iff.mpr ⟨(), ensureOpen_eq_ok.mpr hfrozen, ?_⟩
    rw [if_pos hmethod, if_pos hslash, htaken, if_neg Bool.false_ne_true]
    exact bind_eq_ok_iff.mpr ⟨_, hextract, rfl⟩

/-- The route that a registration has added is found under its handle. -/
theorem get_of_addRoute {registry registry' : Registry} {method path : String} {stages : List Stage}
    {handler : Handler} {name : Option String} {handle : RouteHandle} {route : Route}
    (h : registry.addRoute method path stages handler name = .ok (registry', handle))
    (hget : registry'.get handle = .ok route) :
    route.stages = stages ∧ (∃ functionName run, route.handler = .function functionName run) ∧
      (targets stages).Nodup := by
  obtain ⟨validators, description, functionName, run, -, -, -, -, rfl, hextract, rfl, rfl⟩ :=
    addRoute_eq_ok.mp h
  unfold Registry.get at hget
  simp only [List.getElem?_append_right (Nat.le_refl _), Nat.sub_self, List.getElem?_cons_zero,
    Except.ok.injEq] at hget
  subst hget
  exact ⟨rfl, ⟨functionName, run, rfl⟩, (targets_of_extract hextract).1⟩

/-- The validation of a stage, as the documentation sees it. -/
def Stage.validator? (method path : String) : Stage → Option RouteValidator
  | .validation stage => some ⟨method, path, stage⟩
  | _ => none

/-- Every validation of a row of stages is extracted, in order. -/
theorem validators_of_extract {method path : String} {seen : List Target}
    {description : Option RouteDescription} {stages : List Stage}
    {result : List RouteValidator × Option RouteDescription}
    (h : extract method path seen description stages = .ok result) :
    result.1 = stages.filterMap (Stage.validator? method path) := by
  induction stages generalizing seen description result with
  | nil =>
      obtain rfl := Except.ok.inj h
      rfl
  | cons stage rest ih =>
      cases stage with
      | validation stage =>
          rw [extract] at h
          dsimp only at h
          split_ifs at h with hseen
          · cases h
          · obtain ⟨rest', hrest, h⟩ := bind_eq_ok_iff.mp h
            obtain rfl := Except.ok.inj h
            exact congrArg (⟨method, path, stage⟩ :: ·) (ih hrest)
      | description d => exact ih h
      | custom run => exact ih h
      | value v =>
          obtain ⟨_, _, h⟩ := bind_eq_ok_iff.mp h
          cases h

/-- What is extracted from stages does not depend on the path, which only stands in it. -/
theorem extract_of_extract {method path : String} {seen : List Target} {description : Option RouteDescription}
    {stages : List Stage} {result : List RouteValidator × Option RouteDescription}
    (h : extract method path seen description stages = .ok result) (path' : String) :
    extract method path' seen description stages = .ok (result.1.map fun v => { v with path := path' }, result.2) := by
  induction stages generalizing seen description result with
  | nil =>
      obtain rfl := Except.ok.inj h
      rfl
  | cons stage rest ih =>
      cases stage with
      | validation stage =>
          rw [extract] at h ⊢
          dsimp only at h ⊢
          split_ifs at h ⊢ with hseen
          · cases h
          · obtain ⟨rest', hrest, h⟩ := bind_eq_ok_iff.mp h
            obtain rfl := Except.ok.inj h
            exact bind_eq_ok_iff.mpr ⟨_, ih hrest, rfl⟩
      | description d => exact ih h
      | custom run => exact ih h
      | value v =>
          obtain ⟨_, _, h⟩ := bind_eq_ok_iff.mp h
          cases h

/-- The description that is extracted from stages was given, or it is one of them. -/
theorem description_of_extract {method path : String} {seen : List Target} {description : Option RouteDescription}
    {stages : List Stage} {result : List RouteValidator × Option RouteDescription}
    (h : extract method path seen description stages = .ok result) {d : RouteDescription}
    (hd : result.2 = some d) : description = some d ∨ .description d ∈ stages := by
  induction stages generalizing seen description result with
  | nil =>
      obtain rfl := Except.ok.inj h
      exact .inl hd
  | cons stage rest ih =>
      cases stage with
      | validation stage =>
          rw [extract] at h
          dsimp only at h
          split_ifs at h with hseen
          · cases h
          · obtain ⟨rest', hrest, h⟩ := bind_eq_ok_iff.mp h
            obtain rfl := Except.ok.inj h
            exact (ih hrest hd).imp_right (List.mem_cons_of_mem _)
      | description d' =>
          rcases ih h hd with hgiven | hmem
          · obtain rfl := Option.some.inj hgiven
            exact .inr List.mem_cons_self
          · exact .inr (List.mem_cons_of_mem _ hmem)
      | custom run => exact (ih h hd).imp_right (List.mem_cons_of_mem _)
      | value v =>
          obtain ⟨_, _, h⟩ := bind_eq_ok_iff.mp h
          cases h

/-! ### Validations and descriptions -/

/-- A validation stage that was made with its checks. -/
def ValidationStage.IsChecked (stage : ValidationStage) : Prop :=
  ∃ target s hook failureStatus, ValidationStage.checked target s hook failureStatus = .ok stage

/-- A stage made with its checks has a validator of its schema, and an object schema unless it is for the JSON
body. -/
theorem ValidationStage.IsChecked.spec {stage : ValidationStage} (h : stage.IsChecked) :
    stage.pipeline.schema.compile = .ok stage.pipeline.validator ∧
      (stage.target ≠ .json → stage.pipeline.schema.object?.isSome) := by
  obtain ⟨target, s, hook, failureStatus, h⟩ := h
  unfold ValidationStage.checked at h
  extract_lets rest at h
  -- whatever the status, what follows names the target and asks for an object
  have hrest (h : rest () = .ok stage) : stage.pipeline.schema.compile = .ok stage.pipeline.validator ∧
      (stage.target ≠ .json → stage.pipeline.schema.object?.isSome) := by
    obtain ⟨t, -, h⟩ := bind_eq_ok_iff.mp h
    dsimp only at h
    split_ifs at h with hobject
    · cases h
    · obtain ⟨pipeline, hpipeline, h⟩ := bind_eq_ok_iff.mp h
      obtain rfl := Except.ok.inj h
      obtain ⟨rfl, hcompile⟩ := Pipeline.ofSchema_eq_ok hpipeline
      refine ⟨hcompile, fun htarget => ?_⟩
      rw [Bool.and_eq_true, not_and] at hobject
      rw [← Option.not_isNone, Bool.not_eq_true', ← Bool.not_eq_true]
      exact hobject (bne_iff_ne.mpr htarget)
  split at h
  · split_ifs at h
    · exact hrest h
    · obtain ⟨_, -, h⟩ := bind_eq_ok_iff.mp h
      cases h
  · exact hrest h

/-- A description that was made with its checks: what stands for the schema of a media type is a schema or a
ready-made dictionary. -/
structure RouteDescription.IsChecked (d : RouteDescription) : Prop where
  checked : d.checked = .ok d
  schemas : ∀ r ∈ d.responses, ∀ s ∈ responseSchemas r.2,
    s.isNode = true ∨ ∃ entries, s = .foreign (.dict entries)

/-- The schemas of a description that was checked compile. -/
theorem RouteDescription.exists_compile_of_checked {d d' : RouteDescription} (h : d.checked = .ok d') :
    ∀ r ∈ d.responses, ∀ s ∈ responseSchemas r.2, s.isNode = true → ∃ v, s.compile = .ok v := by
  obtain ⟨_, hloop, -⟩ := bind_eq_ok_iff.mp h
  intro r hr s hs hnode
  have hstep := forIn_eq_ok (fun s _ next hnext => ?_) hloop s (List.mem_flatMap.mpr ⟨r, hr, hs⟩)
  · rw [if_pos hnode] at hstep
    obtain ⟨v, hv, -⟩ := bind_eq_ok_iff.mp hstep
    exact ⟨v, hv⟩
  · split_ifs at hnext
    · obtain ⟨_, -, hnext⟩ := bind_eq_ok_iff.mp hnext
      exact (Except.ok.inj hnext).symm
    · exact (Except.ok.inj hnext).symm

/-! ### Registries -/

/-- The registries that registrations lead to. -/
inductive Registry.Reachable : Registry → Prop
  | empty : Reachable {}
  | addRoute {r r' : Registry} {method path : String} {stages : List Stage} {handler : Handler}
      {name : Option String} {handle : RouteHandle} (h : Reachable r)
      (hadd : r.addRoute method path stages handler name = .ok (r', handle)) : Reachable r'
  | addComponent {r r' : Registry} {name : String} {s : Schema} (h : Reachable r)
      (hadd : r.addComponent name s = .ok r') : Reachable r'
  | freeze {r : Registry} (h : Reachable r) : Reachable r.freeze

/-- A route has an admissible method and path, and carries what was extracted from its stages. -/
structure Route.Sound (route : Route) : Prop where
  method : route.method ∈ httpMethods
  path : route.path.toList.head? = some '/'
  extracted : extract route.method route.path [] none route.stages = .ok (route.validators, route.description)

/-- The routes of a registry are sound, their keys are the keys that are taken, and no two of them have one in
common. The components compile. -/
structure Registry.Sound (r : Registry) : Prop where
  routes : ∀ route ∈ r.routes, route.Sound
  keys : r.keys = r.routes.map Route.key
  differ : (r.routes.map Route.key).Nodup
  components : ∀ c ∈ r.components, ∃ v, c.2.compile = .ok v

section Route

variable {route : Route}

theorem Route.Sound.validators (h : route.Sound) :
    route.validators = route.stages.filterMap (Stage.validator? route.method route.path) :=
  validators_of_extract h.extracted

theorem Route.Sound.mem_validators (h : route.Sound) {v : RouteValidator} :
    v ∈ route.validators ↔
      v.method = route.method ∧ v.path = route.path ∧ .validation v.stage ∈ route.stages := by
  rw [h.validators, List.mem_filterMap]
  constructor
  · rintro ⟨stage, hmem, hv⟩
    cases stage with
    | validation stage =>
        obtain rfl := Option.some.inj hv
        exact ⟨rfl, rfl, hmem⟩
    | _ => cases hv
  · rintro ⟨hmethod, hpath, hmem⟩
    refine ⟨_, hmem, ?_⟩
    rw [← hmethod, ← hpath]
    rfl

/-- The validations of a route are for different targets. -/
theorem Route.Sound.nodup_targets (h : route.Sound) :
    (route.validators.map fun v => v.stage.target).Nodup := by
  have htargets : (route.validators.map fun v => v.stage.target) = targets route.stages := by
    rw [h.validators, List.map_filterMap, targets]
    refine List.filterMap_congr fun stage _ => ?_
    cases stage <;> rfl
  rw [htargets]
  exact (targets_of_extract h.extracted).1

theorem Route.Sound.description_mem (h : route.Sound) {d : RouteDescription}
    (hd : route.description = some d) : .description d ∈ route.stages :=
  (description_of_extract h.extracted hd).resolve_left (by simp)

end Route

theorem Registry.Sound.addRoute {r r' : Registry} {method path : String} {stages : List Stage}
    {handler : Handler} {name : Option String} {handle : RouteHandle} (h : r.Sound)
    (hadd : r.addRoute method path stages handler name = .ok (r', handle)) : r'.Sound := by
  obtain ⟨validators, description, functionName, run, -, hmethod, hpath, hnew, -, hextract, rfl, -⟩ :=
    addRoute_eq_ok.mp hadd
  refine ⟨fun route hroute => ?_, ?_, ?_, h.components⟩
  · rcases List.mem_append.mp hroute with hroute | hroute
    · exact h.routes route hroute
    · obtain rfl := List.mem_singleton.mp hroute
      exact ⟨hmethod, hpath, hextract⟩
  · dsimp only
    rw [h.keys, List.map_append]
    rfl
  · rw [List.map_append]
    -- the registry was asked whether the method and the path are taken
    rw [Registry.isTaken, h.keys, List.contains_eq_mem, decide_eq_false_iff_not] at hnew
    refine List.nodup_append.mpr ⟨h.differ, List.pairwise_singleton _ _, fun key hkey key' hkey' => ?_⟩
    rintro rfl
    obtain rfl := List.mem_singleton.mp hkey'
    exact hnew hkey

/-- A component is registered exactly if the registry is open, the name is admissible, the schema is one and
compiles, and the name is free or bound to an equal schema. It is bound to the schema then. -/
theorem addComponent_eq_ok {r r' : Registry} {name : String} {s : Schema} :
    r.addComponent name s = .ok r' ↔
      r.frozen = false ∧ ComponentName.accepts name = true ∧ s.isNode = true ∧ (∃ v, s.compile = .ok v) ∧
        (∀ existing, r.components.lookup name = some existing → existing.same s = true) ∧
        r' = { r with components := Registry.bindComponent r.components name s } := by
  constructor
  · intro h
    unfold Registry.addComponent at h
    obtain ⟨_, hopen, h⟩ := bind_eq_ok_iff.mp h
    have hfrozen : r.frozen = false := ensureOpen_eq_ok.mp hopen
    split_ifs at h with hnode hname
    · obtain ⟨v, hcompile, h⟩ := bind_eq_ok_iff.mp h
      refine ⟨hfrozen, hname, hnode, ⟨v, hcompile⟩, ?_⟩
      dsimp only at h
      split at h
      · rename_i existing hexisting
        split_ifs at h with hsame
        · obtain rfl := Except.ok.inj h
          exact ⟨fun _ h => Option.some.inj (hexisting.symm.trans h) ▸ hsame, rfl⟩
        · cases h
      · rename_i hfree
        obtain rfl := Except.ok.inj h
        refine ⟨fun existing hexisting => ?_, rfl⟩
        rw [hfree] at hexisting
        cases hexisting
    all_goals cases h
  · rintro ⟨hfrozen, hname, hnode, ⟨v, hcompile⟩, hequal, rfl⟩
    refine bind_eq_ok_iff.mpr ⟨(), ensureOpen_eq_ok.mpr hfrozen, ?_⟩
    rw [if_pos hname, if_pos hnode]
    refine bind_eq_ok_iff.mpr ⟨v, hcompile, ?_⟩
    cases hexisting : r.components.lookup name with
    | none => rfl
    | some existing =>
        dsimp only
        rw [if_pos (hequal existing hexisting)]
        rfl

/-- What is bound after a name has been bound was bound before, or it is what the name has been bound to. -/
theorem mem_bindComponent {components : List (String × Schema)} {name : String} {s : Schema}
    {c : String × Schema} (h : c ∈ Registry.bindComponent components name s) :
    c ∈ components ∨ c = (name, s) := by
  unfold Registry.bindComponent at h
  split_ifs at h
  · obtain ⟨c', hc', rfl⟩ := List.mem_map.mp h
    split_ifs
    · exact .inr rfl
    · exact .inl hc'
  · exact (List.mem_append.mp h).imp_right List.mem_singleton.mp

theorem Registry.Sound.addComponent {r r' : Registry} {name : String} {s : Schema} (h : r.Sound)
    (hadd : r.addComponent name s = .ok r') : r'.Sound := by
  obtain ⟨-, -, -, hcompile, -, rfl⟩ := addComponent_eq_ok.mp hadd
  refine ⟨h.routes, h.keys, h.differ, fun c hc => ?_⟩
  rcases mem_bindComponent hc with hc | rfl
  · exact h.components c hc
  · exact hcompile

theorem Registry.Sound.empty : Registry.Sound {} := ⟨by simp, rfl, List.nodup_nil, by simp⟩

theorem Registry.Sound.freeze {r : Registry} (h : r.Sound) : r.freeze.Sound :=
  ⟨h.routes, h.keys, h.differ, h.components⟩

/-- Every registry that registration reaches is sound. -/
theorem Registry.Reachable.sound {r : Registry} (h : r.Reachable) : r.Sound := by
  induction h with
  | empty => exact .empty
  | addRoute _ hadd ih => exact ih.addRoute hadd
  | addComponent _ hadd ih => exact ih.addComponent hadd
  | freeze _ ih => exact ih.freeze

end ApiContract.Routing
