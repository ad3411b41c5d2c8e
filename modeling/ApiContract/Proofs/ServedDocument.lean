import ApiContract.Proofs.Dispatch
import ApiContract.Proofs.RegistryRuns

/-!
# The document that an application serves

Building an application ends registration: whatever is tried afterwards is refused and changes nothing
(`Attempt.perform_of_frozen`), so the document of an application stays the document of its router. A request for it
has to pass the routes of the application first, because the path of the documentation comes last
(`showsDocument_iff`).
-/

namespace ApiContract.Routing

open Http

/-! ### Attempts to register something -/

/-- What a router is asked for. -/
inductive Attempt where
  | route (method path : String) (stages : List Stage) (handler : Handler) (name : Option String)
  | component (name : String) (s : Schema)
  | mount (base : String) (other : Registry)

namespace Attempt

def action : Attempt → Registration Unit
  | route method path stages handler name => do
    let _ ← Router.add method path stages handler name
  | component name s => Router.component name s
  | mount base other => do
    let _ ← Router.mount base other

/-- The answer to an attempt, and the router that it leaves. -/
def perform (attempt : Attempt) (router : Router) : Except Fault Unit × Router :=
  (attempt.action.run.run router).run

/-- Taking over the registrations of an empty registry asks for nothing. -/
def AsksForNothing (attempt : Attempt) : Prop :=
  ∃ base other, attempt = .mount base other ∧ other.routes = [] ∧ other.components = []

end Attempt

/-- Attempts in a row: the answers to them, and the router that the last one leaves. -/
def Router.attempt (router : Router) : List Attempt → List (Except Fault Unit) × Router
  | [] => ([], router)
  | attempt :: attempts =>
    let next := Router.attempt (attempt.perform router).2 attempts
    ((attempt.perform router).1 :: next.1, next.2)

/-- A route is added to the registry of the router, which keeps its handle. -/
theorem Router.run_add (method path : String) (stages : List Stage) (handler : Handler) (name : Option String)
    (router : Router) :
    ((Router.add method path stages handler name).run.run router).run =
      match router.registry.addRoute method path stages handler name with
      | .ok (registry, handle) => (.ok handle, { registry, handles := router.handles ++ [handle] })
      | .error f => (.error f, router) := by
  unfold Router.add
  rw [Registry.registration_bind]
  show (((liftM (router.registry.addRoute method path stages handler name) >>= _ : Registration _).run).run
    router).run = _
  cases router.registry.addRoute method path stages handler name <;> rfl

section Frozen

variable {router : Router}

theorem Router.run_add_of_frozen (h : router.registry.frozen = true) (method path : String) (stages : List Stage)
    (handler : Handler) (name : Option String) :
    ((Router.add method path stages handler name).run.run router).run = (.error .frozen, router) := by
  have hadd : router.registry.addRoute method path stages handler name = .error .frozen := by
    unfold Registry.addRoute Registry.ensureOpen
    rw [h]
    rfl
  rw [Router.run_add, hadd]

theorem Router.run_component_of_frozen (h : router.registry.frozen = true) (name : String) (s : Schema) :
    ((Router.component name s).run.run router).run = (.error .frozen, router) := by
  have hadd : router.registry.addComponent name s = .error .frozen := by
    unfold Registry.addComponent Registry.ensureOpen
    rw [h]
    rfl
  rw [Registry.run_component, hadd]

/-- The first registration that would be taken over is refused, and nothing follows it. -/
theorem Router.run_mount_of_frozen (h : router.registry.frozen = true) (base : String) (other : Registry) :
    ∃ answer, ((Router.mount base other).run.run router).run = (answer, router) ∧
      ((∃ f, answer = .error f) ∨ other.routes = [] ∧ other.components = []) := by
  unfold Router.mount
  extract_lets base rest
  have hrest : ∃ answer, ((rest ()).run.run router).run = (answer, router) ∧
      ((∃ f, answer = .error f) ∨ other.routes = [] ∧ other.components = []) := by
    unfold rest
    cases hcomponents : other.components with
    | nil =>
        rw [List.forIn_nil, pure_bind]
        cases hroutes : other.routes with
        | nil => exact ⟨_, rfl, .inr ⟨rfl, rfl⟩⟩
        | cons route routes =>
            refine ⟨.error .frozen, ?_, .inl ⟨_, rfl⟩⟩
            rw [List.mapM_cons, Registry.registration_bind, Router.run_add_of_frozen h]
    | cons c components =>
        refine ⟨.error .frozen, ?_, .inl ⟨_, rfl⟩⟩
        rw [List.forIn_cons, bind_assoc, bind_assoc, Registry.registration_bind, Router.run_component_of_frozen h]
  split_ifs
  · exact ⟨_, rfl, .inl ⟨_, rfl⟩⟩
  · exact hrest

/-- **Nothing is registered after registration has ended**: every attempt that asks for something is refused, and
none of them changes anything. -/
theorem Attempt.perform_of_frozen (h : router.registry.frozen = true) (attempt : Attempt) :
    (attempt.perform router).2 = router ∧
      (¬ attempt.AsksForNothing → ∃ f, (attempt.perform router).1 = .error f) := by
  cases attempt with
  | route method path stages handler name =>
      have hperform : (Attempt.route method path stages handler name).perform router =
          (.error .frozen, router) := by
        unfold perform action
        rw [Registry.registration_bind, Router.run_add_of_frozen h]
      rw [hperform]
      exact ⟨rfl, fun _ => ⟨_, rfl⟩⟩
  | component name s =>
      have hperform : (Attempt.component name s).perform router = (.error .frozen, router) :=
        Router.run_component_of_frozen h name s
      rw [hperform]
      exact ⟨rfl, fun _ => ⟨_, rfl⟩⟩
  | mount base other =>
      obtain ⟨answer, hrun, hanswer⟩ := Router.run_mount_of_frozen h base other
      have hperform : (Attempt.mount base other).perform router = (answer.map fun _ => (), router) := by
        unfold perform action
        rw [Registry.registration_bind, hrun]
        cases answer <;> rfl
      rw [hperform]
      refine ⟨rfl, fun hasks => ?_⟩
      rcases hanswer with ⟨f, rfl⟩ | hempty
      · exact ⟨f, rfl⟩
      · exact absurd ⟨base, other, rfl, hempty⟩ hasks

theorem Router.attempt_of_frozen (h : router.registry.frozen = true) (attempts : List Attempt) :
    (router.attempt attempts).2 = router := by
  induction attempts with
  | nil => rfl
  | cons attempt attempts ih =>
      show (Router.attempt (attempt.perform router).2 attempts).2 = router
      rw [(attempt.perform_of_frozen h).1]
      exact ih

end Frozen

/-! ### The way to the document -/

/-- A route leaves a request to the paths behind it. -/
def Route.Leaves (route : Route) (method path : String) : Prop :=
  ∃ m, Mounted.ofRoute route = .ok m ∧ m.Leaves method path

/-- A path, read as a pattern, matches itself. -/
def MatchesItself (path : String) : Prop :=
  ∃ p params, PathPattern.read path = .ok p ∧ p.match? path = .ok (some params)

/-- A path without braces matches itself. -/
theorem matchesItself_of_plain {path : String} (h : '{' ∉ path.toList) : MatchesItself path := by
  refine ⟨_, [], PathPattern.read_of_plain h, ?_⟩
  unfold PathPattern.match?
  rw [PathPattern.texts?_plain]
  rfl

namespace Application

variable {settings : Settings} {router router' : Router} {app : Application}

/-- Building freezes the router first, and leaves it so. -/
theorem run_build (settings : Settings) (router : Router) :
    ((build settings).run.run router).run = (ofRegistry router.freeze.registry settings, router.freeze) := by
  unfold build
  rw [Registry.registration_bind]
  show (((liftM (ofRegistry router.freeze.registry settings) : Registration Application).run).run
    router.freeze).run = _
  cases ofRegistry router.freeze.registry settings <;> rfl

/-- The application of a router has the paths of its routes, and the path of the documentation behind them. Its
registry is that of the router, which is frozen. -/
theorem build_eq_ok (h : ((build settings).run.run router).run = (.ok app, router')) :
    router' = router.freeze ∧ ofRegistry router.freeze.registry settings = .ok app := by
  obtain ⟨happ, hrouter⟩ := Prod.mk.inj ((run_build settings router).symm.trans h)
  exact ⟨hrouter.symm, happ⟩

theorem ofRegistry_eq_ok {r : Registry} (h : ofRegistry r settings = .ok app) :
    app.settings = settings ∧ app.registry = r ∧ ∃ ms d,
      List.Forall₂ (fun route m => Mounted.ofRoute route = .ok m) r.routes ms ∧
      Mounted.ofDocumentation settings.openapiPath = .ok d ∧ app.mounted = ms ++ [d] := by
  obtain ⟨ms, hms, h⟩ := bind_eq_ok_iff.mp h
  obtain ⟨d, hd, h⟩ := bind_eq_ok_iff.mp h
  obtain rfl := Except.ok.inj h
  exact ⟨rfl, rfl, ms, d, mapM_eq_ok_iff.mp hms, hd, rfl⟩

/-- A request goes to the documentation. -/
def ShowsDocument (app : Application) (request : Request) : Prop :=
  ∃ m params, app.select request.method request.path = .ok (.found m params) ∧ m.endpoint = .documentation

theorem endpoint_ofRoute {route : Route} {m : Mounted} (h : Mounted.ofRoute route = .ok m) :
    m.endpoint = .route route := by
  obtain ⟨p, -, h⟩ := bind_eq_ok_iff.mp h
  obtain rfl := Except.ok.inj h
  rfl

/-- A request goes to the documentation if all routes leave it, and if the path of the documentation takes it. -/
theorem showsDocument_iff {r : Registry} (h : ofRegistry r settings = .ok app) {request : Request}
    (hmethod : request.method = "GET") (hpath : request.path = settings.openapiPath) :
    app.ShowsDocument request ↔
      (∀ route ∈ r.routes, route.Leaves "GET" settings.openapiPath) ∧ MatchesItself settings.openapiPath := by
  obtain ⟨-, -, ms, d, hms, hd, hmounted⟩ := ofRegistry_eq_ok h
  obtain ⟨p, hp, hd'⟩ := bind_eq_ok_iff.mp hd
  obtain rfl := Except.ok.inj hd'
  unfold ShowsDocument
  rw [hmethod, hpath]
  constructor
  · rintro ⟨m, params, hselect, hdocumentation⟩
    obtain ⟨before, after, hsplit, hbefore, hmatch, -⟩ := select_eq_found_iff.mp hselect
    rw [hmounted] at hsplit
    -- what takes the request is no path of a route, so it is the last one
    have hlast : m ∉ ms := fun hm => by
      obtain ⟨route, -, hroute⟩ := exists_left_of_forall₂ hms hm
      rw [endpoint_ofRoute hroute] at hdocumentation
      cases hdocumentation
    rcases List.eq_nil_or_concat after with rfl | ⟨rest, x, rfl⟩
    · obtain ⟨rfl, hd'⟩ := List.append_inj' hsplit rfl
      obtain rfl := List.singleton_inj.mp hd'
      refine ⟨fun route hroute => ?_, p, params, hp, hmatch⟩
      obtain ⟨m, hm, hofRoute⟩ := exists_right_of_forall₂ hms hroute
      exact ⟨m, hofRoute, hbefore m hm⟩
    · rw [List.concat_eq_append, ← List.cons_append, ← List.append_assoc] at hsplit
      have hms := (List.append_inj' hsplit rfl).1
      exact absurd (hms ▸ List.mem_append_right _ List.mem_cons_self) hlast
  · rintro ⟨hleaves, p', params, hp', hmatch⟩
    obtain rfl := Except.ok.inj (hp.symm.trans hp')
    refine ⟨_, params, select_eq_found_iff.mpr ⟨ms, [], hmounted, fun m hm => ?_, hmatch, List.mem_cons_self⟩, rfl⟩
    obtain ⟨route, hroute, hm⟩ := exists_left_of_forall₂ hms hm
    obtain ⟨m', hm', hleaves⟩ := hleaves route hroute
    obtain rfl := Except.ok.inj (hm.symm.trans hm')
    exact hleaves

/-- Where a request goes to the documentation, a document with a text is the response. -/
theorem handle_of_showsDocument {request : Request} (h : app.ShowsDocument request) {text : String}
    (htext : Documentation.text app.registry app.settings = .ok text) :
    app.handle request = { response := ⟨.code 200, some Response.jsonType, text⟩, notes := [] } := by
  obtain ⟨m, params, hselect, hendpoint⟩ := h
  have hdocumentation : app.documentation = .ok ⟨.code 200, some Response.jsonType, text⟩ := by
    obtain ⟨doc, hdoc, hrender⟩ := bind_eq_ok_iff.mp htext
    unfold documentation
    rw [hdoc]
    dsimp only
    rw [hrender]
    rfl
  rw [handle_of_documentation hselect hendpoint, hdocumentation]
  rfl

/-- **The served document is the document of the router**, where a request for it comes through. Whatever is tried
after the application has been built is refused and changes neither the router nor its document. A request for the
path of the documentation gets there if every route leaves it and the path matches itself as a pattern, which it
does if it has no braces; and then the response is the text of the document. -/
theorem handle_openapiPath (h : ((build settings).run.run router).run = (.ok app, router')) (attempts : List Attempt)
    {request : Request} (hmethod : request.method = "GET") (hpath : request.path = settings.openapiPath) :
    let later := (router'.attempt attempts).2
    let app' := { app with registry := later.registry }
    (later = router' ∧ ∀ attempt ∈ attempts, ¬ attempt.AsksForNothing →
      ∃ f, (attempt.perform router').1 = .error f) ∧
    Documentation.text later.registry settings = Documentation.text router.registry settings ∧
    (app'.ShowsDocument request ↔
      (∀ route ∈ router.registry.routes, route.Leaves "GET" settings.openapiPath) ∧
        MatchesItself settings.openapiPath) ∧
    ('{' ∉ settings.openapiPath.toList → MatchesItself settings.openapiPath) ∧
    (app'.ShowsDocument request → ∀ text, Documentation.text later.registry settings = .ok text →
      app'.handle request = { response := ⟨.code 200, some Response.jsonType, text⟩, notes := [] }) := by
  obtain ⟨rfl, happ⟩ := build_eq_ok h
  have hfrozen : router.freeze.registry.frozen = true := rfl
  obtain ⟨hsettings, hregistry, -⟩ := ofRegistry_eq_ok happ
  intro later app'
  have hlater : later = router.freeze := Router.attempt_of_frozen hfrozen attempts
  have happ' : app' = app := by
    rw [show app' = { app with registry := later.registry } from rfl, hlater, ← hregistry]
  rw [happ', hlater]
  refine ⟨⟨rfl, fun attempt _ => (attempt.perform_of_frozen hfrozen).2⟩, rfl, showsDocument_iff happ hmethod hpath,
    matchesItself_of_plain, fun hshows text htext => ?_⟩
  refine handle_of_showsDocument hshows ?_
  rw [hregistry, hsettings]
  exact htext

/-- A route that shows a page. -/
def pageRoute (path : String) : Route where
  method := "GET"
  path
  stages := []
  handler := .function "page" fun _ => { result := .ok (.value (.str "a page")) }
  name := none
  validators := []
  description := none

def pageRouter (path : String) : Router where
  registry := { routes := [pageRoute path] }

/-- A page at a path of its own leaves the document where it is, and nothing is registered later on. -/
theorem handle_openapiPath_pages :
    ∃ app router' text, ((build {}).run.run (pageRouter "/pages")).run = (.ok app, router') ∧
      Documentation.text (pageRouter "/pages").registry {} = .ok text ∧
      Application.handle
          { app with registry := (router'.attempt [.component "Late" (.boolean {})]).2.registry }
          { path := "/openapi" } =
        { response := ⟨.code 200, some Response.jsonType, text⟩, notes := [] } := by
  have hbuild : ∃ app router', ((build {}).run.run (pageRouter "/pages")).run = (.ok app, router') :=
    ⟨_, _, by with_unfolding_all rfl⟩
  have htext : ∃ text, Documentation.text (pageRouter "/pages").registry {} = .ok text :=
    ⟨_, by with_unfolding_all rfl⟩
  obtain ⟨app, router', hbuild⟩ := hbuild
  obtain ⟨text, htext⟩ := htext
  have hmethod : Request.method { path := "/openapi" } = "GET" := rfl
  have hpath : Request.path { path := "/openapi" } = Settings.openapiPath {} := rfl
  obtain ⟨-, hsame, hshows, hplain, hhandle⟩ :=
    handle_openapiPath hbuild [.component "Late" (.boolean {})] hmethod hpath
  refine ⟨app, router', text, hbuild, htext, hhandle (hshows.mpr ⟨?_, hplain (by decide)⟩) text (hsame.trans htext)⟩
  refine List.forall_mem_singleton.mpr
    ⟨⟨"/pages", "/pages".toList.map .literal, "page", ["GET", "HEAD"], .route (pageRoute "/pages")⟩, ?_, ?_⟩
  · with_unfolding_all rfl
  · exact .inl (by with_unfolding_all rfl)

/-- A page at a path with a parameter is shown in place of the document, and a path that does not match itself leads
nowhere. -/
theorem lost_openapiPath :
    (∃ app router' text, ((build {}).run.run (pageRouter "/\x7bpage\x7d")).run = (.ok app, router') ∧
      Documentation.text (pageRouter "/\x7bpage\x7d").registry {} = .ok text ∧ text ≠ "\"a page\"" ∧
      (app.handle { path := "/openapi" }).response = ⟨.code 200, some Response.jsonType, "\"a page\""⟩) ∧
    ∃ app router', ((build { openapiPath := "/docs/\x7bversion:int\x7d" }).run.run {}).run = (.ok app, router') ∧
      (app.handle { path := "/docs/\x7bversion:int\x7d" }).response = .plain 404 "Not Found" := by
  constructor
  · have hdiffers : (Documentation.text (pageRouter "/\x7bpage\x7d").registry {}).toOption.map (· != "\"a page\"") =
        some true := by decide +kernel
    cases htext : Documentation.text (pageRouter "/\x7bpage\x7d").registry {} with
    | error f =>
        rw [htext] at hdiffers
        cases hdiffers
    | ok text =>
        rw [htext] at hdiffers
        refine ⟨_, _, text, by with_unfolding_all rfl, rfl, bne_iff_ne.mp (Option.some.inj hdiffers), ?_⟩
        decide +kernel
  · refine ⟨_, _, by with_unfolding_all rfl, ?_⟩
    decide +kernel

end Application

end ApiContract.Routing
