import ApiContract.Proofs.JoinedPaths
import ApiContract.Proofs.ServedDocument

/-!
# Routers that are taken over

Taking over a registry is asking for each of its components and then for each of its routes behind the base path,
up to the first that is refused (`Attempt.perform_mount`). Each registration is all or nothing, but the row of
them is not: what has been registered before one is refused stays. A fresh router refuses nothing that some
registry has taken (`mount_fresh`), and behind one base behind another its routes are the same as behind the two
in a row (`Route.behind_behind`).
-/

namespace ApiContract.Routing

open Router (IsBase dropSlashes joinBase)

/-! ### Registrations in a row -/

/-- Attempts in a row, up to the first one that is refused. -/
def Router.register (router : Router) : List Attempt → Except Fault Unit × Router
  | [] => (.ok (), router)
  | attempt :: attempts =>
    match attempt.perform router with
    | (.ok (), router') => router'.register attempts
    | (.error f, router') => (.error f, router')

/-- What taking over a registry asks for: its components, and then its routes behind the base. -/
def Attempt.takingOver (base : String) (other : Registry) : List Attempt :=
  other.components.map (fun c => .component c.1 c.2) ++
    other.routes.map fun route =>
      .route route.method (joinBase base route.path) route.stages route.handler route.name

variable {router router' : Router} {base : String} {other : Registry}

theorem Router.register_cons_of_ok {attempt : Attempt} (h : attempt.perform router = (.ok (), router'))
    (attempts : List Attempt) : router.register (attempt :: attempts) = router'.register attempts := by
  rw [Router.register, h]

theorem Router.register_cons_of_error {attempt : Attempt} {f : Fault} (h : attempt.perform router = (.error f, router'))
    (attempts : List Attempt) : router.register (attempt :: attempts) = (.error f, router') := by
  rw [Router.register, h]

theorem Router.register_append (router : Router) (attempts later : List Attempt) :
    router.register (attempts ++ later) =
      match router.register attempts with
      | (.ok (), router') => router'.register later
      | (.error f, router') => (.error f, router') := by
  induction attempts generalizing router with
  | nil => rfl
  | cons attempt attempts ih =>
      rcases hattempt : attempt.perform router with ⟨f | ⟨⟩, router'⟩
      · rw [List.cons_append, register_cons_of_error hattempt, register_cons_of_error hattempt]
      · rw [List.cons_append, register_cons_of_ok hattempt, register_cons_of_ok hattempt, ih]

/-- If a row is refused, then one attempt of it is, after those in front of it have been registered. -/
theorem Router.register_eq_error {attempts : List Attempt} {f : Fault}
    (h : router.register attempts = (.error f, router')) :
    ∃ done refused later between, attempts = done ++ refused :: later ∧
      router.register done = (.ok (), between) ∧ refused.perform between = (.error f, router') := by
  induction attempts generalizing router with
  | nil => cases h
  | cons attempt attempts ih =>
      rcases hattempt : attempt.perform router with ⟨f' | ⟨⟩, router₁⟩
      · rw [register_cons_of_error hattempt] at h
        exact ⟨[], attempt, attempts, router, rfl, rfl, hattempt.trans h⟩
      · rw [register_cons_of_ok hattempt] at h
        obtain ⟨done, refused, later, between, rfl, hdone, hrefused⟩ := ih h
        exact ⟨attempt :: done, refused, later, between, rfl, (register_cons_of_ok hattempt _).trans hdone, hrefused⟩

/-! ### Taking over -/

namespace Attempt

theorem perform_component (name : String) (s : Schema) (router : Router) :
    (component name s).perform router =
      match router.registry.addComponent name s with
      | .ok registry => (.ok (), { router with registry })
      | .error f => (.error f, router) :=
  Registry.run_component name s router

theorem perform_route (method path : String) (stages : List Stage) (handler : Handler) (name : Option String)
    (router : Router) :
    (route method path stages handler name).perform router =
      match router.registry.addRoute method path stages handler name with
      | .ok (registry, handle) => (.ok (), { registry, handles := router.handles ++ [handle] })
      | .error f => (.error f, router) := by
  unfold perform action
  rw [Registry.registration_bind, Router.run_add]
  cases router.registry.addRoute method path stages handler name <;> rfl

theorem run_components (components : List (String × Schema)) (router : Router) :
    ((forIn components PUnit.unit (fun c _ => do
        Router.component c.1 c.2
        pure (ForInStep.yield PUnit.unit)) : Registration PUnit).run.run router).run =
      router.register (components.map fun c => component c.1 c.2) := by
  induction components generalizing router with
  | nil => rfl
  | cons c components ih =>
      rw [List.forIn_cons, bind_assoc, Registry.registration_bind, List.map_cons]
      rcases hrun : ((Router.component c.1 c.2).run.run router).run with ⟨f | ⟨⟩, router'⟩
      · have hperform : (component c.1 c.2).perform router = (.error f, router') := hrun
        rw [Router.register_cons_of_error hperform]
      · have hperform : (component c.1 c.2).perform router = (.ok (), router') := hrun
        rw [Router.register_cons_of_ok hperform, ← ih]
        rfl

theorem run_routes (base : String) (routes : List Route) (router : Router) :
    ((do
        let _ ← routes.mapM fun route =>
          Router.add route.method (joinBase base route.path) route.stages route.handler route.name
        pure () : Registration Unit).run.run router).run =
      router.register (routes.map fun r => route r.method (joinBase base r.path) r.stages r.handler r.name) := by
  induction routes generalizing router with
  | nil => rfl
  | cons r routes ih =>
      rw [List.mapM_cons, bind_assoc, Registry.registration_bind, List.map_cons]
      have hperform := perform_route r.method (joinBase base r.path) r.stages r.handler r.name router
      rw [Router.run_add]
      cases hadd : router.registry.addRoute r.method (joinBase base r.path) r.stages r.handler r.name with
      | error f =>
          rw [hadd] at hperform
          exact (Router.register_cons_of_error hperform _).symm
      | ok added =>
          rw [hadd] at hperform
          rw [Router.register_cons_of_ok hperform, ← ih]
          dsimp only
          rw [bind_assoc]
          rfl

/-- A base path that is none is refused at once. -/
theorem perform_mount_of_not_isBase (h : ¬ IsBase (dropSlashes base)) :
    (mount base other).perform router = (.error (.refused (.relativePrefix (dropSlashes base))), router) := by
  unfold perform action Router.mount
  dsimp only
  rw [if_pos (Router.not_isBase_iff.mpr h)]
  rfl

/-- Taking over a registry is registering what it has, one after the other. -/
theorem perform_mount (h : IsBase (dropSlashes base)) :
    (mount base other).perform router = router.register (takingOver (dropSlashes base) other) := by
  unfold perform action Router.mount
  dsimp only
  rw [if_neg (fun hnot => Router.not_isBase_iff.mp hnot h), takingOver, Router.register_append,
    bind_assoc, Registry.registration_bind, run_components]
  rcases hrow : router.register (other.components.map fun c => component c.1 c.2) with ⟨f | ⟨⟩, router'⟩
  · rw [hrow]
  · rw [hrow]
    exact run_routes (dropSlashes base) other.routes router'

/-! ### Steps -/

/-- An attempt to register one thing. -/
def IsSingle (attempt : Attempt) : Prop := ∀ base other, attempt ≠ .mount base other

/-- The answer to a single registration and the router that it leads to. -/
inductive Steps (router : Router) : Attempt → Except Fault Unit → Router → Prop
  | added {method path : String} {stages : List Stage} {handler : Handler} {name : Option String}
      {registry : Registry} {handle : RouteHandle}
      (h : router.registry.addRoute method path stages handler name = .ok (registry, handle)) :
      Steps router (.route method path stages handler name) (.ok ()) { registry, handles := router.handles ++ [handle] }
  | bound {name : String} {s : Schema} {registry : Registry} (h : router.registry.addComponent name s = .ok registry) :
      Steps router (.component name s) (.ok ()) { router with registry }
  | refused (attempt : Attempt) (f : Fault) : Steps router attempt (.error f) router

theorem isSingle_of_mem_takingOver {attempt : Attempt} (h : attempt ∈ takingOver base other) : attempt.IsSingle := by
  rintro base' other' rfl
  rcases List.mem_append.mp h with h | h
  · obtain ⟨c, -, hc⟩ := List.mem_map.mp h
    cases hc
  · obtain ⟨r, -, hr⟩ := List.mem_map.mp h
    cases hr

theorem IsSingle.steps {attempt : Attempt} (h : attempt.IsSingle) (router : Router) :
    attempt.Steps router (attempt.perform router).1 (attempt.perform router).2 := by
  cases attempt with
  | route method path stages handler name =>
      rw [perform_route]
      cases hadd : router.registry.addRoute method path stages handler name with
      | error f => exact .refused _ f
      | ok added => exact .added hadd
  | component name s =>
      rw [perform_component]
      cases hadd : router.registry.addComponent name s with
      | error f => exact .refused _ f
      | ok registry => exact .bound hadd
  | mount base other => exact absurd rfl (h base other)

end Attempt

/-- What a router has registered it has registered later on as well. -/
structure Router.Continues (router router' : Router) : Prop where
  registry : router.registry.Evolves router'.registry
  handles : router.handles <+: router'.handles

theorem Router.Continues.refl (router : Router) : router.Continues router := ⟨.refl _, List.prefix_rfl⟩

theorem Router.Continues.trans {router'' : Router} (h : router.Continues router') (h' : router'.Continues router'') :
    router.Continues router'' :=
  ⟨h.registry.trans h'.registry, List.IsPrefix.trans h.handles h'.handles⟩

namespace Attempt

variable {attempt : Attempt} {answer : Except Fault Unit}

theorem Steps.continues (h : attempt.Steps router answer router') : router.Continues router' := by
  cases h with
  | added h => exact ⟨(Registry.Call.Steps.added h).evolves, List.prefix_append _ _⟩
  | bound h => exact ⟨(Registry.Call.Steps.bound h).evolves, List.prefix_rfl⟩
  | refused attempt f => exact .refl router

theorem Steps.reachable (h : attempt.Steps router answer router') (hr : router.registry.Reachable) :
    router'.registry.Reachable := by
  cases h with
  | added h => exact hr.addRoute h
  | bound h => exact hr.addComponent h
  | refused attempt f => exact hr

/-- A single registration that is refused changes nothing. -/
theorem Steps.eq_of_error {f : Fault} (h : attempt.Steps router (.error f) router') : router' = router := by
  cases h with
  | refused attempt f => rfl

end Attempt

namespace Router

variable {attempts : List Attempt}

/-- What every single registration keeps, a row of them keeps. -/
theorem register_induction {P : Router → Prop} (hsingle : ∀ attempt ∈ attempts, attempt.IsSingle)
    (hstep : ∀ (attempt : Attempt) (router : Router) (answer : Except Fault Unit) (router' : Router),
      attempt.Steps router answer router' → P router → P router') (h : P router) :
    P (router.register attempts).2 := by
  induction attempts generalizing router with
  | nil => exact h
  | cons attempt attempts ih =>
      obtain ⟨hfirst, hrest⟩ := List.forall_mem_cons.mp hsingle
      have hnext := hstep attempt router _ _ (hfirst.steps router) h
      rcases hattempt : attempt.perform router with ⟨f | ⟨⟩, router'⟩
      · rw [hattempt] at hnext
        rw [register_cons_of_error hattempt]
        exact hnext
      · rw [hattempt] at hnext
        rw [register_cons_of_ok hattempt]
        exact ih hrest hnext

theorem reachable_register (hsingle : ∀ attempt ∈ attempts, attempt.IsSingle) (h : router.registry.Reachable) :
    (router.register attempts).2.registry.Reachable :=
  register_induction (P := fun router => router.registry.Reachable) hsingle
    (fun _ _ _ _ hsteps h => hsteps.reachable h) h

theorem continues_mount (router : Router) (base : String) (other : Registry) :
    router.Continues ((Attempt.mount base other).perform router).2 := by
  by_cases hbase : IsBase (dropSlashes base)
  · rw [Attempt.perform_mount hbase]
    exact register_induction (fun _ => Attempt.isSingle_of_mem_takingOver)
      (fun _ _ _ _ hsteps h => h.trans hsteps.continues) (.refl router)
  · rw [Attempt.perform_mount_of_not_isBase hbase]
    exact .refl router

/-- A registry that takes over another one is still one that registrations lead to. -/
theorem reachable_mount (h : router.registry.Reachable) (base : String) (other : Registry) :
    ((Attempt.mount base other).perform router).2.registry.Reachable := by
  by_cases hbase : IsBase (dropSlashes base)
  · rw [Attempt.perform_mount hbase]
    exact reachable_register (fun _ => Attempt.isSingle_of_mem_takingOver) h
  · rw [Attempt.perform_mount_of_not_isBase hbase]
    exact h

/-- **Taking over a registry is a row of registrations, each of which is all or nothing.** If it is refused, then
either the base path is none, and nothing has happened, or some registration has been refused, and the router is
what those in front of it have made of it: first the components and then the routes, behind the base path. A
frozen router stays as it was, and in any case what has been registered before stays. -/
theorem mount_refused {f : Fault} (h : (Attempt.mount base other).perform router = (.error f, router')) :
    ((¬ IsBase (dropSlashes base) ∧ router' = router) ∨
      ∃ done refused later, Attempt.takingOver (dropSlashes base) other = done ++ refused :: later ∧
        router.register done = (.ok (), router') ∧ refused.perform router' = (.error f, router')) ∧
    (router.registry.frozen = true → router' = router) ∧ router.Continues router' := by
  refine ⟨?_, fun hfrozen => ?_, ?_⟩
  · by_cases hbase : IsBase (dropSlashes base)
    · right
      rw [Attempt.perform_mount hbase] at h
      obtain ⟨done, refused, later, between, hattempts, hdone, hrefused⟩ := register_eq_error h
      have hsingle : refused.IsSingle := Attempt.isSingle_of_mem_takingOver
        (hattempts ▸ List.mem_append_right _ List.mem_cons_self)
      have hsteps := hsingle.steps between
      rw [hrefused] at hsteps
      obtain rfl := hsteps.eq_of_error
      exact ⟨done, refused, later, hattempts, hdone, hrefused⟩
    · left
      rw [Attempt.perform_mount_of_not_isBase hbase] at h
      exact ⟨hbase, (Prod.mk.inj h).2.symm⟩
  · have hsame := (Attempt.perform_of_frozen hfrozen (.mount base other)).1
    rwa [h] at hsame
  · have hcontinues := continues_mount router base other
    rwa [h] at hcontinues

/-- A shop has a front page, a page for each item, and a schema of its items. -/
def shop : Router :=
  (register {} [.component "Item" (.integer {} {}), .route "GET" "/" [] Route.showItem none,
    .route "GET" "/items/{id}" Route.showing Route.showItem none]).2

/-- A stall has a page for each item as well. -/
def stall : Router := (register {} [.route "GET" "/items/{id}" [] Route.showItem none]).2

/-- A stall that takes over a shop is refused its second page, after it has got the schema and the front page. -/
theorem mount_refused_stall :
    ∃ router' done refused later, (Attempt.mount "/" shop.registry).perform stall =
        (.error (.refused (.routeTaken "GET" "/items/{id}")), router') ∧
      Attempt.takingOver "" shop.registry = done ++ refused :: later ∧
      stall.register done = (.ok (), router') ∧ stall.Continues router' := by
  have hrun : ∃ router', (Attempt.mount "/" shop.registry).perform stall =
      (.error (.refused (.routeTaken "GET" "/items/{id}")), router') := ⟨_, rfl⟩
  obtain ⟨router', hrun⟩ := hrun
  have hbase : dropSlashes "/" = "" := by decide
  obtain ⟨hrefused, -, hcontinues⟩ := mount_refused hrun
  rw [hbase] at hrefused
  rcases hrefused with ⟨hnot, -⟩ | ⟨done, refused, later, hparts, hdone, -⟩
  · exact absurd (.inl rfl) hnot
  · exact ⟨router', done, refused, later, hrun, hparts, hdone, hcontinues⟩

/-- **A router that is refused another one does not stay as it was.** -/
theorem mount_halfway :
    ((Attempt.mount "/" shop.registry).perform stall).1 = .error (.refused (.routeTaken "GET" "/items/{id}")) ∧
      stall.registry.routes.map Route.key = [("GET", "/items/{id}")] ∧
      stall.registry.components.map (·.1) = [] ∧ stall.handles = [⟨0, "GET", "/items/{id}"⟩] ∧
      ((Attempt.mount "/" shop.registry).perform stall).2.registry.routes.map Route.key =
        [("GET", "/items/{id}"), ("GET", "/")] ∧
      ((Attempt.mount "/" shop.registry).perform stall).2.registry.components.map (·.1) = ["Item"] ∧
      ((Attempt.mount "/" shop.registry).perform stall).2.handles =
        [⟨0, "GET", "/items/{id}"⟩, ⟨1, "GET", "/"⟩] :=
  ⟨rfl, rfl, rfl, rfl, rfl, rfl, rfl⟩

end Router

/-! ### Fresh routers -/

/-- Everything in a registry could be registered by itself. -/
structure Registry.Registrable (r : Registry) : Prop where
  names : (r.components.map (·.1)).Nodup
  components : ∀ c ∈ r.components, ComponentName.accepts c.1 = true ∧ c.2.isNode = true ∧ ∃ v, c.2.compile = .ok v
  handlers : ∀ route ∈ r.routes, ∃ functionName run, route.handler = .function functionName run

theorem Registry.nodup_bindComponent {components : List (String × Schema)} (h : (components.map (·.1)).Nodup)
    (name : String) (s : Schema) : ((bindComponent components name s).map (·.1)).Nodup := by
  unfold bindComponent
  split_ifs with hbound
  · have hnames : (components.map fun c => if c.1 == name then (name, s) else c).map (·.1) =
        components.map (·.1) := by
      rw [List.map_map]
      refine List.map_congr_left fun c _ => ?_
      dsimp only [Function.comp]
      split_ifs with hc
      · exact (beq_iff_eq.mp hc).symm
      · rfl
    rw [hnames]
    exact h
  · rw [List.map_append]
    refine h.append (List.nodup_singleton _) ?_
    intro n hn hn'
    obtain ⟨c, hc, rfl⟩ := List.mem_map.mp hn
    exact hbound (List.any_eq_true.mpr ⟨c, hc, beq_iff_eq.mpr (List.mem_singleton.mp hn')⟩)

theorem Registry.Reachable.registrable {r : Registry} (h : r.Reachable) : r.Registrable := by
  induction h with
  | empty => exact ⟨List.nodup_nil, List.forall_mem_nil _, List.forall_mem_nil _⟩
  | addRoute _ hadd ih =>
      obtain ⟨_, _, functionName, run, -, -, -, -, hhandler, -, rfl, -⟩ := addRoute_eq_ok.mp hadd
      refine ⟨ih.names, ih.components, List.forall_mem_append.mpr ⟨ih.handlers, ?_⟩⟩
      exact List.forall_mem_singleton.mpr ⟨functionName, run, hhandler⟩
  | addComponent _ hadd ih =>
      obtain ⟨-, hname, hnode, hcompile, -, rfl⟩ := addComponent_eq_ok.mp hadd
      refine ⟨Registry.nodup_bindComponent ih.names _ _, fun c hc => ?_, ih.handlers⟩
      rcases mem_bindComponent hc with hc | rfl
      · exact ih.components c hc
      · exact ⟨hname, hnode, hcompile⟩
  | freeze _ ih => exact ⟨ih.names, ih.components, ih.handlers⟩

/-- A route behind a base path. -/
def Route.behind (base : String) (route : Route) : Route :=
  { route with
    path := joinBase base route.path
    validators := route.validators.map fun v => { v with path := joinBase base route.path } }

/-- A route behind a base behind another one is behind the two in a row. -/
theorem Route.behind_behind {p q : String} {route : Route} (hq : q ≠ "/") (hpath : route.path ≠ "") :
    (route.behind q).behind p = route.behind (p ++ q) := by
  simp only [behind, Router.joinBase_joinBase hq hpath, List.map_map]
  rfl

theorem Route.Sound.path_ne {route : Route} (h : route.Sound) : route.path ≠ "" := by
  intro hempty
  have hslash := h.path
  rw [hempty] at hslash
  cases hslash

/-- The keys of different routes are different behind a base as well. -/
theorem nodup_keys_behind {routes : List Route} (hsound : ∀ route ∈ routes, route.Sound)
    (h : (routes.map Route.key).Nodup) (base : String) :
    ((routes.map (Route.behind base)).map Route.key).Nodup := by
  rw [List.Nodup, List.pairwise_map] at h
  rw [List.Nodup, List.pairwise_map, List.pairwise_map]
  refine h.imp_of_mem fun {route route'} hroute hroute' hne heq => hne ?_
  obtain ⟨hmethod, hpath⟩ := Prod.mk.inj heq
  have hsame := Router.joinBase_injective (hsound route hroute).path_ne (hsound route' hroute').path_ne hpath
  exact Prod.ext hmethod hsame

namespace Router

/-- A component whose name is free is registered at the end. -/
theorem perform_component_of_free {name : String} {s : Schema} (hopen : router.registry.frozen = false)
    (hname : ComponentName.accepts name = true) (hnode : s.isNode = true) (hcompile : ∃ v, s.compile = .ok v)
    (hfree : router.registry.components.lookup name = none) :
    ∃ router', (Attempt.component name s).perform router = (.ok (), router') ∧
      router'.registry = { router.registry with components := router.registry.components ++ [(name, s)] } := by
  have hbind : Registry.bindComponent router.registry.components name s =
      router.registry.components ++ [(name, s)] := by
    rw [Registry.bindComponent, any_key_eq, hfree, Option.isSome_none, if_neg Bool.false_ne_true]
  have hequal : ∀ existing, router.registry.components.lookup name = some existing → existing.same s = true := by
    intro existing hexisting
    rw [hfree] at hexisting
    cases hexisting
  rw [Attempt.perform_component, addComponent_eq_ok.mpr ⟨hopen, hname, hnode, hcompile, hequal, rfl⟩, hbind]
  exact ⟨_, rfl, rfl⟩

/-- Components with different names that are free are registered one after the other. -/
theorem register_components {components : List (String × Schema)} (hopen : router.registry.frozen = false)
    (hcomponents : ∀ c ∈ components,
      ComponentName.accepts c.1 = true ∧ c.2.isNode = true ∧ ∃ v, c.2.compile = .ok v)
    (hnames : ((router.registry.components ++ components).map (·.1)).Nodup) :
    ∃ router', router.register (components.map fun c => .component c.1 c.2) = (.ok (), router') ∧
      router'.registry = { router.registry with components := router.registry.components ++ components } := by
  induction components generalizing router with
  | nil => exact ⟨router, rfl, by rw [List.append_nil]⟩
  | cons c components ih =>
      obtain ⟨⟨hname, hnode, hcompile⟩, hcomponents⟩ := List.forall_mem_cons.mp hcomponents
      have hfree : router.registry.components.lookup c.1 = none := by
        rw [List.map_append, List.nodup_append] at hnames
        refine List.lookup_eq_none_iff.mpr fun b hb => bne_iff_ne.mpr fun heq => ?_
        exact hnames.2.2 _ (List.mem_map_of_mem hb) c.1 List.mem_cons_self heq.symm
      obtain ⟨router₁, hnext, hregistry⟩ := perform_component_of_free hopen hname hnode hcompile hfree
      have hopen₁ : router₁.registry.frozen = false := by
        rw [hregistry]
        exact hopen
      have hnames₁ : ((router₁.registry.components ++ components).map (·.1)).Nodup := by
        rwa [hregistry, ← List.append_cons]
      obtain ⟨router', hregister, hlast⟩ := ih hopen₁ hcomponents hnames₁
      refine ⟨router', ?_, ?_⟩
      · rw [List.map_cons, register_cons_of_ok hnext, hregister]
      · rw [hlast, hregistry]
        dsimp only
        rw [← List.append_cons]

/-- A sound route is registered behind a base if its key is free there. -/
theorem perform_route_behind {route : Route} (hopen : router.registry.frozen = false) (hbase : IsBase base)
    (hsound : route.Sound) (hhandler : ∃ functionName run, route.handler = .function functionName run)
    (hfree : (route.behind base).key ∉ router.registry.keys) :
    ∃ router', (Attempt.route route.method (joinBase base route.path) route.stages route.handler
        route.name).perform router = (.ok (), router') ∧
      router'.registry = { router.registry with
        routes := router.registry.routes ++ [route.behind base]
        keys := router.registry.keys ++ [(route.behind base).key] } := by
  obtain ⟨functionName, run, hhandler⟩ := hhandler
  have hadd : router.registry.addRoute route.method (joinBase base route.path) route.stages route.handler route.name =
      .ok ({ router.registry with
          routes := router.registry.routes ++ [route.behind base]
          keys := router.registry.keys ++ [(route.behind base).key] },
        ⟨router.registry.routes.length, route.method, joinBase base route.path⟩) := by
    rw [addRoute_eq_ok, toUpper_of_mem_httpMethods hsound.method]
    refine ⟨_, _, functionName, run, hopen, hsound.method, head?_joinBase hbase hsound.path, ?_, hhandler,
      extract_of_extract hsound.extracted _, rfl, rfl⟩
    rwa [Registry.isTaken, List.contains_eq_mem, decide_eq_false_iff_not]
  rw [Attempt.perform_route, hadd]
  exact ⟨_, rfl, rfl⟩

/-- Sound routes whose keys behind a base are free and different are registered there one after the other. -/
theorem register_routes {routes : List Route} (hopen : router.registry.frozen = false) (hbase : IsBase base)
    (hsound : ∀ route ∈ routes, route.Sound)
    (hhandlers : ∀ route ∈ routes, ∃ functionName run, route.handler = .function functionName run)
    (hkeys : (router.registry.keys ++ (routes.map (Route.behind base)).map Route.key).Nodup) :
    ∃ router', router.register (routes.map fun r =>
        .route r.method (joinBase base r.path) r.stages r.handler r.name) = (.ok (), router') ∧
      router'.registry.routes = router.registry.routes ++ routes.map (Route.behind base) ∧
      router'.registry.components = router.registry.components := by
  induction routes generalizing router with
  | nil => exact ⟨router, rfl, (List.append_nil _).symm, rfl⟩
  | cons r routes ih =>
      obtain ⟨hr, hsound⟩ := List.forall_mem_cons.mp hsound
      obtain ⟨hhandler, hhandlers⟩ := List.forall_mem_cons.mp hhandlers
      have hfree : (r.behind base).key ∉ router.registry.keys := by
        intro htaken
        exact (List.nodup_append.mp hkeys).2.2 _ htaken _ List.mem_cons_self rfl
      obtain ⟨router₁, hnext, hregistry⟩ := perform_route_behind hopen hbase hr hhandler hfree
      have hopen₁ : router₁.registry.frozen = false := by
        rw [hregistry]
        exact hopen
      have hkeys₁ : (router₁.registry.keys ++ (routes.map (Route.behind base)).map Route.key).Nodup := by
        rwa [hregistry, ← List.append_cons]
      obtain ⟨router', hregister, hroutes, hcomponents⟩ := ih hopen₁ hsound hhandlers hkeys₁
      refine ⟨router', ?_, ?_, ?_⟩
      · rw [List.map_cons, register_cons_of_ok hnext, hregister]
      · rw [hroutes, hregistry, List.map_cons]
        exact (List.append_cons _ _ _).symm
      · rw [hcomponents, hregistry]

/-- **A fresh router refuses nothing that some registry has taken.** It has the components of the registry then,
and the routes of the registry behind the base path. -/
theorem mount_fresh {r : Registry} (hr : r.Reachable) (hbase : IsBase (dropSlashes base)) :
    ∃ router, (Attempt.mount base r).perform {} = (.ok (), router) ∧ router.registry.Reachable ∧
      router.registry.routes = r.routes.map (Route.behind (dropSlashes base)) ∧
      router.registry.components = r.components := by
  have hregistrable := hr.registrable
  have hsound := hr.sound
  have hfresh : (({} : Router).registry.frozen = false) := rfl
  obtain ⟨router₁, hfirst, hregistry⟩ := register_components hfresh hregistrable.components hregistrable.names
  have hopen : router₁.registry.frozen = false := by rw [hregistry]
  have hkeys : (router₁.registry.keys ++ (r.routes.map (Route.behind (dropSlashes base))).map Route.key).Nodup := by
    rw [hregistry]
    exact nodup_keys_behind hsound.routes hsound.differ (dropSlashes base)
  obtain ⟨router, hregister, hroutes, hcomponents⟩ :=
    register_routes hopen hbase hsound.routes hregistrable.handlers hkeys
  have hmount : (Attempt.mount base r).perform {} = (.ok (), router) := by
    rw [Attempt.perform_mount hbase, Attempt.takingOver, register_append, hfirst]
    exact hregister
  have hreachable : ((Attempt.mount base r).perform {}).2.registry.Reachable := reachable_mount .empty base r
  rw [hmount] at hreachable
  refine ⟨router, hmount, hreachable, ?_, ?_⟩
  · rw [hroutes, hregistry]
    rfl
  · rw [hcomponents, hregistry]
    rfl

/-- **Taking over composes.** A fresh router takes over a registry, and another fresh router takes over that one.
Neither is refused, and nor is a fresh router that takes over the registry behind the two base paths in a row.
The latter two have the same components and the same routes, with validations of the paths that the routes
have now. -/
theorem mount_mount {r : Registry} (hr : r.Reachable) {p q : String} (hp : IsBase p) (hq : IsBase q) :
    ∃ m a b, (Attempt.mount q r).perform {} = (.ok (), m) ∧
      (Attempt.mount p m.registry).perform {} = (.ok (), a) ∧
      (Attempt.mount (dropSlashes p ++ q) r).perform {} = (.ok (), b) ∧
      a.registry.components = b.registry.components ∧ a.registry.routes = b.registry.routes ∧
      ∀ route ∈ a.registry.routes, ∀ v ∈ route.validators, v.path = route.path := by
  obtain ⟨m, hm, hmreachable, hmroutes, hmcomponents⟩ := mount_fresh hr hq.dropSlashes
  obtain ⟨a, ha, hareachable, haroutes, hacomponents⟩ := mount_fresh hmreachable hp.dropSlashes
  obtain ⟨b, hb, -, hbroutes, hbcomponents⟩ := mount_fresh hr (hp.dropSlashes.append hq).dropSlashes
  refine ⟨m, a, b, hm, ha, hb, ?_, ?_, fun route hroute v hv => ?_⟩
  · rw [hacomponents, hmcomponents, hbcomponents]
  · rw [haroutes, hmroutes, hbroutes, dropSlashes_append, List.map_map]
    refine List.map_congr_left fun route hroute => ?_
    exact Route.behind_behind (dropSlashes_ne_slash q) (hr.sound.routes route hroute).path_ne
  · exact ((hareachable.sound.routes route hroute).mem_validators.mp hv).2.1

/-- A shop can be reached behind two bases, of which either ends in a slash, or behind both at once. -/
theorem mount_mount_shop :
    ∃ m a b, (Attempt.mount "/v1/" shop.registry).perform {} = (.ok (), m) ∧
      (Attempt.mount "/api/" m.registry).perform {} = (.ok (), a) ∧
      (Attempt.mount "/api/v1/" shop.registry).perform {} = (.ok (), b) ∧
      a.registry.components = b.registry.components ∧ a.registry.routes = b.registry.routes ∧
      ∀ route ∈ a.registry.routes, ∀ v ∈ route.validators, v.path = route.path := by
  have hshop : shop.registry.Reachable := by
    refine reachable_register (fun attempt hattempt => ?_) .empty
    simp only [List.mem_cons, List.not_mem_nil, or_false] at hattempt
    rcases hattempt with rfl | rfl | rfl
    · simp [Attempt.IsSingle]
    · simp [Attempt.IsSingle]
    · simp [Attempt.IsSingle]
  have hbase : dropSlashes "/api/" ++ "/v1/" = "/api/v1/" := by decide
  have hmount := mount_mount hshop (p := "/api/") (q := "/v1/") (.inr (by decide)) (.inr (by decide))
  rwa [hbase] at hmount

end Router

end ApiContract.Routing
