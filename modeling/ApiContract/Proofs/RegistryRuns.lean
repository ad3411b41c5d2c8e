import ApiContract.Proofs.Registration
import ApiContract.Proofs.SchemaEquality
import ApiContract.Routing.Router

/-!
# Runs of a registry

A registry answers three calls: to add a route, to add a component, and to end registration. Each call steps
from one registry to the next (`Call.Steps`), and a call that is refused steps to where it came from. What a
step keeps is kept by every run: the registry stays sound, and what it has recorded is recorded later on
(`Evolves`, `invariant_of_serve`).
-/

namespace ApiContract.Routing

/-- The methods that a route can have are in upper case. -/
theorem toUpper_of_mem_httpMethods {method : String} (h : method ∈ httpMethods) :
    Text.toUpper method = method := by
  simp only [httpMethods, List.mem_cons, List.not_mem_nil, or_false] at h
  rcases h with rfl | rfl | rfl | rfl | rfl | rfl | rfl <;> rfl

namespace Registry

/-! ### Names of components -/

theorem lookup_map_replace (components : List (String × Schema)) (name key : String) (s : Schema) :
    (components.map fun c => if c.1 == name then (name, s) else c).lookup key =
      if key = name then (components.lookup key).map fun _ => s else components.lookup key := by
  induction components with
  | nil => simp
  | cons c components ih =>
      obtain ⟨bound, t⟩ := c
      rw [List.map_cons]
      by_cases hbound : bound = name
      · subst hbound
        by_cases hkey : key = bound
        · simp [hkey]
        · rw [if_neg hkey] at ih ⊢
          rw [if_pos (by simp), List.lookup_cons, List.lookup_cons, ih, beq_false_of_ne hkey]
      · rw [if_neg (by simpa using hbound), List.lookup_cons, List.lookup_cons, ih]
        by_cases hkey : key = bound
        · subst hkey
          simp [hbound]
        · rw [beq_false_of_ne hkey]

/-- A name that has been bound stands for its schema, and the other names stand for what they did. -/
theorem lookup_bindComponent (components : List (String × Schema)) (name key : String) (s : Schema) :
    (bindComponent components name s).lookup key = if key = name then some s else components.lookup key := by
  rw [bindComponent, any_key_eq]
  cases hbound : components.lookup name with
  | some t =>
      rw [Option.isSome_some, if_pos rfl, lookup_map_replace]
      refine if_ctx_congr Iff.rfl (fun hkey => ?_) fun _ => rfl
      rw [hkey, hbound, Option.map_some]
  | none =>
      rw [Option.isSome_none, if_neg Bool.false_ne_true, lookup_concat]
      by_cases hkey : key = name
      · rw [hkey, hbound, Option.none_or, if_pos rfl]
      · rw [if_neg hkey, if_neg hkey, Option.or_none]

/-! ### Steps -/

/-- What a call of a registry asks for. -/
inductive Call where
  | addRoute (method path : String) (stages : List Stage) (handler : Handler) (name : Option String)
  | addComponent (name : String) (s : Schema)
  | freeze

/-- What a call does. One that adds a route is answered with a handle of it. -/
def Call.action : Call → Registration (Option RouteHandle)
  | addRoute method path stages handler name => do
    return some (← Router.addUnlisted method path stages handler name)
  | addComponent name s => do
    Router.component name s
    return none
  | freeze => do
    modify Router.freeze
    return none

/-- The answer to a call, and the router that it leaves. -/
def Call.perform (call : Call) (router : Router) : Except Fault (Option RouteHandle) × Router :=
  (call.action.run.run router).run

/-- The answer to a call and the registry it leads to. -/
inductive Call.Steps (r : Registry) : Call → Except Fault (Option RouteHandle) → Registry → Prop
  | added {method path : String} {stages : List Stage} {handler : Handler} {name : Option String}
      {r' : Registry} {handle : RouteHandle}
      (h : r.addRoute method path stages handler name = .ok (r', handle)) :
      Steps r (.addRoute method path stages handler name) (.ok (some handle)) r'
  | bound {name : String} {s : Schema} {r' : Registry} (h : r.addComponent name s = .ok r') :
      Steps r (.addComponent name s) (.ok none) r'
  | frozen : Steps r .freeze (.ok none) r.freeze
  | refused (call : Call) (f : Fault) : Steps r call (.error f) r

/-- A registration that goes on after its first step has given a result. -/
theorem registration_bind {α β : Type} (a : Registration α) (next : α → Registration β) (router : Router) :
    ((a >>= next).run.run router).run =
      match (a.run.run router).run with
      | (.ok x, router') => ((next x).run.run router').run
      | (.error f, router') => (.error f, router') := by
  show (((a >>= next).run).run router).run = _
  simp only [ExceptT.run_bind, StateT.run_bind, Id.run_bind]
  rcases (a.run.run router).run with ⟨_ | x, router'⟩ <;> rfl

/-- A route is added to the registry of the router, which keeps no handle of it. -/
theorem run_addUnlisted (method path : String) (stages : List Stage) (handler : Handler) (name : Option String)
    (router : Router) :
    ((Router.addUnlisted method path stages handler name).run.run router).run =
      match router.registry.addRoute method path stages handler name with
      | .ok (registry, handle) => (.ok handle, { router with registry })
      | .error f => (.error f, router) := by
  unfold Router.addUnlisted
  rw [registration_bind]
  show (((liftM (router.registry.addRoute method path stages handler name) >>= _ : Registration _).run).run
    router).run = _
  cases router.registry.addRoute method path stages handler name <;> rfl

theorem run_component (name : String) (s : Schema) (router : Router) :
    ((Router.component name s).run.run router).run =
      match router.registry.addComponent name s with
      | .ok registry => (.ok (), { router with registry })
      | .error f => (.error f, router) := by
  unfold Router.component
  rw [registration_bind]
  show (((liftM (router.registry.addComponent name s) >>= _ : Registration _).run).run router).run = _
  cases router.registry.addComponent name s <;> rfl

theorem Call.perform_addRoute (method path : String) (stages : List Stage) (handler : Handler)
    (name : Option String) (router : Router) :
    (Call.addRoute method path stages handler name).perform router =
      match router.registry.addRoute method path stages handler name with
      | .ok (registry, handle) => (.ok (some handle), { router with registry })
      | .error f => (.error f, router) := by
  unfold perform action
  rw [registration_bind, run_addUnlisted]
  cases router.registry.addRoute method path stages handler name <;> rfl

theorem Call.perform_addComponent (name : String) (s : Schema) (router : Router) :
    (Call.addComponent name s).perform router =
      match router.registry.addComponent name s with
      | .ok registry => (.ok none, { router with registry })
      | .error f => (.error f, router) := by
  unfold perform action
  rw [registration_bind, run_component]
  cases router.registry.addComponent name s <;> rfl

theorem Call.steps_perform (call : Call) (router : Router) :
    call.Steps router.registry (call.perform router).1 (call.perform router).2.registry := by
  cases call with
  | addRoute method path stages handler name =>
      rw [perform_addRoute]
      cases h : router.registry.addRoute method path stages handler name with
      | error f => exact .refused _ f
      | ok added => exact .added h
  | addComponent name s =>
      rw [perform_addComponent]
      cases h : router.registry.addComponent name s with
      | error f => exact .refused _ f
      | ok r' => exact .bound h
  | freeze => exact .frozen

/-- A call that is refused leaves the router as it was. -/
theorem Call.perform_of_error {call : Call} {router : Router} {f : Fault} (h : (call.perform router).1 = .error f) :
    (call.perform router).2 = router := by
  cases call with
  | addRoute method path stages handler name =>
      rw [perform_addRoute] at h ⊢
      cases hadd : router.registry.addRoute method path stages handler name with
      | error f => rfl
      | ok added =>
          rw [hadd] at h
          cases h
  | addComponent name s =>
      rw [perform_addComponent] at h ⊢
      cases hadd : router.registry.addComponent name s with
      | error f => rfl
      | ok r' =>
          rw [hadd] at h
          cases h
  | freeze => cases h

variable {r r' r'' : Registry} {call : Call} {answer : Except Fault (Option RouteHandle)}

theorem Call.Steps.reachable (h : call.Steps r answer r') (hr : r.Reachable) : r'.Reachable := by
  cases h with
  | added h => exact hr.addRoute h
  | bound h => exact hr.addComponent h
  | frozen => exact hr.freeze
  | refused call f => exact hr

/-! ### What stays recorded -/

/-- What a registry has recorded is recorded in a later one: its routes come first, a bound name is still bound
to the schema or to one that is equal to it, and a frozen registry is the same. -/
structure Evolves (r r' : Registry) : Prop where
  routes : r.routes <+: r'.routes
  bound : ∀ name s, r.components.lookup name = some s →
    ∃ s', r'.components.lookup name = some s' ∧ (s' = s ∨ s.same s' = true)
  frozen : r.frozen = true → r' = r

theorem Evolves.refl (r : Registry) : r.Evolves r :=
  ⟨List.prefix_rfl, fun _ s hs => ⟨s, hs, .inl rfl⟩, fun _ => rfl⟩

theorem Evolves.trans (h : r.Evolves r') (h' : r'.Evolves r'') : r.Evolves r'' where
  routes := List.IsPrefix.trans h.routes h'.routes
  bound := fun name s hs => by
    obtain ⟨s', hs', hsame⟩ := h.bound name s hs
    obtain ⟨s'', hs'', hsame'⟩ := h'.bound name s' hs'
    refine ⟨s'', hs'', ?_⟩
    rcases hsame with rfl | hsame
    · exact hsame'
    · rcases hsame' with rfl | hsame'
      · exact .inr hsame
      · exact .inr (Schema.same_trans hsame hsame')
  frozen := fun hfrozen => by
    obtain rfl := h.frozen hfrozen
    exact h'.frozen hfrozen

theorem Call.Steps.evolves (h : call.Steps r answer r') : r.Evolves r' := by
  cases h with
  | added h =>
      obtain ⟨_, _, _, _, hopen, -, -, -, -, -, rfl, -⟩ := addRoute_eq_ok.mp h
      refine ⟨List.prefix_append _ _, fun _ s hs => ⟨s, hs, .inl rfl⟩, fun hfrozen => ?_⟩
      rw [hopen] at hfrozen
      cases hfrozen
  | @bound name s _ h =>
      obtain ⟨hopen, -, -, -, hequal, rfl⟩ := addComponent_eq_ok.mp h
      refine ⟨List.prefix_rfl, fun key t ht => ?_, fun hfrozen => ?_⟩
      · -- the name of the call stands for its schema now, which what it stood for is equal to
        by_cases hkey : key = name
        · subst hkey
          exact ⟨s, (lookup_bindComponent _ _ _ _).trans (if_pos rfl), .inr (hequal t ht)⟩
        · exact ⟨t, ((lookup_bindComponent _ _ _ _).trans (if_neg hkey)).trans ht, .inl rfl⟩
      · rw [hopen] at hfrozen
        cases hfrozen
  | frozen =>
      refine ⟨List.prefix_rfl, fun _ s hs => ⟨s, hs, .inl rfl⟩, fun hfrozen => ?_⟩
      rw [Registry.freeze, ← hfrozen]
  | refused call f => exact .refl r

/-- The route of a handle, with the method and the path that the handle names. -/
def Refers (r : Registry) (handle : RouteHandle) (route : Route) : Prop :=
  r.get handle = .ok route ∧ route.method = handle.method ∧ route.path = handle.path

theorem get_eq_ok_iff {handle : RouteHandle} {route : Route} :
    r.get handle = .ok route ↔ r.routes[handle.index]? = some route := by
  unfold get
  cases r.routes[handle.index]? <;> simp

/-- A handle keeps its route. -/
theorem Evolves.refers (h : r.Evolves r') {handle : RouteHandle} {route : Route} (hrefers : r.Refers handle route) :
    r'.Refers handle route := by
  obtain ⟨rest, hrest⟩ := h.routes
  refine ⟨?_, hrefers.2⟩
  have hget := get_eq_ok_iff.mp hrefers.1
  rw [get_eq_ok_iff, ← hrest, List.getElem?_append_left (List.getElem?_eq_some_iff.mp hget).1]
  exact hget

/-- The handle that answers a call refers to a route. -/
theorem Call.Steps.exists_refers {handle : RouteHandle} (h : call.Steps r (.ok (some handle)) r') :
    ∃ route, r'.Refers handle route := by
  cases h with
  | added h =>
      obtain ⟨_, _, _, _, -, -, -, -, -, -, rfl, rfl⟩ := addRoute_eq_ok.mp h
      exact ⟨_, get_eq_ok_iff.mpr List.getElem?_concat_length, rfl, rfl⟩

/-! ### Runs -/

/-- Calls in a row: the answers to them, and the router that the last one leaves. A call that is refused leaves
a router to the next one as well. -/
def serve (router : Router) : List Call → List (Except Fault (Option RouteHandle)) × Router
  | [] => ([], router)
  | call :: calls =>
    let next := serve (call.perform router).2 calls
    ((call.perform router).1 :: next.1, next.2)

variable {router : Router} {calls : List Call}

theorem serve_append (router : Router) (calls later : List Call) :
    (serve router (calls ++ later)).2 = (serve (serve router calls).2 later).2 := by
  induction calls generalizing router with
  | nil => rfl
  | cons call calls ih => exact ih _

theorem reachable_serve (h : router.registry.Reachable) (calls : List Call) :
    (serve router calls).2.registry.Reachable := by
  induction calls generalizing router with
  | nil => exact h
  | cons call calls ih => exact ih ((call.steps_perform router).reachable h)

theorem evolves_serve (router : Router) (calls : List Call) :
    router.registry.Evolves (serve router calls).2.registry := by
  induction calls generalizing router with
  | nil => exact .refl _
  | cons call calls ih => exact (call.steps_perform router).evolves.trans (ih _)

/-- Every handle that a run gives refers to a route in the end. -/
theorem exists_refers_serve {handle : RouteHandle} (h : .ok (some handle) ∈ (serve router calls).1) :
    ∃ route, (serve router calls).2.registry.Refers handle route := by
  induction calls generalizing router with
  | nil => cases h
  | cons call calls ih =>
      rcases List.mem_cons.mp h with hanswer | hlater
      · have hstep := call.steps_perform router
        rw [← hanswer] at hstep
        obtain ⟨route, hroute⟩ := hstep.exists_refers
        exact ⟨route, (evolves_serve _ calls).refers hroute⟩
      · exact ih hlater

/-- What every run of an empty registry keeps. The routes have admissible methods and paths, their keys are the
keys that are taken, and no two of them are the same; a route carries the validations of its stages, which are for
different targets. Components compile, and a name that is bound stays bound to an equal schema. A refused call
changes nothing. Routes are added at the end, so a handle keeps its route. Nothing changes once registration has
ended. -/
theorem invariant_of_serve (calls later : List Call) :
    let router := (serve {} calls).2
    let r := router.registry
    let r' := (serve {} (calls ++ later)).2.registry
    (r.keys = r.routes.map (fun route => (route.method, route.path)) ∧ r.keys.Nodup ∧
      ∀ route ∈ r.routes, route.method ∈ httpMethods ∧ Text.toUpper route.method = route.method ∧
        route.path.toList.head? = some '/') ∧
    (∀ route ∈ r.routes,
      route.validators = route.stages.filterMap (Stage.validator? route.method route.path) ∧
        (route.validators.map fun v => v.stage.target).Nodup) ∧
    ((∀ c ∈ r.components, ∃ v, c.2.compile = .ok v) ∧
      ∀ name s, r.components.lookup name = some s →
        ∃ s', r'.components.lookup name = some s' ∧ (s' = s ∨ s.same s' = true)) ∧
    (∀ (call : Call) (f : Fault), (call.perform router).1 = .error f → (call.perform router).2 = router) ∧
    (r.routes <+: r'.routes ∧
      ∀ handle, .ok (some handle) ∈ (serve {} calls).1 → ∃ route, r.get handle = .ok route ∧
        r'.get handle = .ok route ∧ route.method = handle.method ∧ route.path = handle.path) ∧
    (r.frozen = true → r' = r) := by
  intro router r r'
  have hsound : r.Sound := (reachable_serve .empty calls).sound
  have hevolves : r.Evolves r' := by
    have h := evolves_serve (serve {} calls).2 later
    rwa [← serve_append] at h
  refine ⟨⟨hsound.keys, ?_, fun route hroute => ?_⟩, fun route hroute => ?_, ⟨hsound.components, hevolves.bound⟩,
    fun call f h => ?_, ⟨hevolves.routes, fun handle hhandle => ?_⟩, hevolves.frozen⟩
  · rw [hsound.keys]
    exact hsound.differ
  · have h := hsound.routes route hroute
    exact ⟨h.method, toUpper_of_mem_httpMethods h.method, h.path⟩
  · have h := hsound.routes route hroute
    exact ⟨h.validators, h.nodup_targets⟩
  · exact call.perform_of_error h
  · obtain ⟨route, hroute⟩ := exists_refers_serve hhandle
    exact ⟨route, hroute.1, (hevolves.refers hroute).1, hroute.2⟩

/-- A route, the same route in another spelling, a component, the end of registration, and one more route. -/
def itemCalls : List Call :=
  let handler := .function "items" fun _ => { result := .ok (.value .null) }
  [.addRoute "get" "/items" [] handler none, .addRoute "GET" "/items" [] handler none,
    .addComponent "Item" (.integer {} {}), .freeze, .addRoute "PUT" "/items" [] handler none]

/-- The route is refused the second time and after the end; its handle still refers to it. -/
theorem invariant_of_serve_items :
    (serve {} itemCalls).1 = [.ok (some ⟨0, "GET", "/items"⟩), .error (.refused (.routeTaken "GET" "/items")),
      .ok none, .ok none, .error .frozen] ∧
    ∃ route, (serve {} itemCalls).2.registry.get ⟨0, "GET", "/items"⟩ = .ok route ∧ route.method = "GET" := by
  have hanswers : (serve {} itemCalls).1 = [.ok (some ⟨0, "GET", "/items"⟩),
      .error (.refused (.routeTaken "GET" "/items")), .ok none, .ok none, .error .frozen] := by
    with_unfolding_all rfl
  obtain ⟨-, -, -, -, ⟨-, hhandles⟩, -⟩ := invariant_of_serve itemCalls []
  obtain ⟨route, hget, -, hmethod, -⟩ := hhandles ⟨0, "GET", "/items"⟩ (hanswers ▸ List.mem_cons_self)
  exact ⟨hanswers, route, hget, hmethod⟩

end Registry

end ApiContract.Routing
