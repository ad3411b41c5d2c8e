import ApiContract.Proofs.PathParameters
import ApiContract.Proofs.ServedDocument

/-!
# Builds that fail

Building an application ends registration first and reads the paths afterwards. It succeeds exactly if every path
is readable, and otherwise fails with the fault of the first one that is not (`exists_ofRegistry_iff`,
`ofRegistry_eq_error_iff`). Either way the router ends up frozen (`build_outcome`): a failed build leaves what has
been registered as it was, but nothing can be registered any more.
-/

namespace ApiContract.Routing.Application

open PathPattern

/-- The paths that are read for an application, in this order: those of the routes, and that of the
documentation. -/
def paths (r : Registry) (settings : Settings) : List String :=
  r.routes.map Route.path ++ [settings.openapiPath]

/-- The first path that cannot be read, and how it fails. -/
def FirstFault (r : Registry) (settings : Settings) (path : String) (f : Fault) : Prop :=
  ∃ before after, paths r settings = before ++ path :: after ∧ (∀ p ∈ before, IsReadable p) ∧
    PathPattern.read path = .error f

section Outcome

variable {r : Registry} {settings : Settings} {f : Fault}

/-- A step that reads a path and never fails afterwards. -/
theorem bind_pure_eq_error_iff {α : Type} {path : String} {g : PathPattern → α} :
    (PathPattern.read path >>= fun p => (pure (g p) : Except Fault α)) = .error f ↔
      PathPattern.read path = .error f := by
  rw [bind_eq_error_iff]
  constructor
  · rintro (h | ⟨p, -, h⟩)
    · exact h
    · cases h
  · exact .inl

theorem exists_bind_pure_iff {α : Type} {path : String} {g : PathPattern → α} :
    (∃ m, (PathPattern.read path >>= fun p => (pure (g p) : Except Fault α)) = .ok m) ↔ IsReadable path := by
  rw [← exists_read_iff]
  constructor
  · rintro ⟨m, h⟩
    obtain ⟨p, hp, -⟩ := bind_eq_ok_iff.mp h
    exact ⟨p, hp⟩
  · rintro ⟨p, hp⟩
    exact ⟨g p, bind_eq_ok_iff.mpr ⟨p, hp, rfl⟩⟩

theorem ofRoute_eq_error_iff {route : Route} :
    Mounted.ofRoute route = .error f ↔ PathPattern.read route.path = .error f :=
  bind_pure_eq_error_iff

theorem exists_ofRoute_iff {route : Route} : (∃ m, Mounted.ofRoute route = .ok m) ↔ IsReadable route.path :=
  exists_bind_pure_iff

theorem ofDocumentation_eq_error_iff {path : String} :
    Mounted.ofDocumentation path = .error f ↔ PathPattern.read path = .error f :=
  bind_pure_eq_error_iff

theorem exists_ofDocumentation_iff {path : String} :
    (∃ m, Mounted.ofDocumentation path = .ok m) ↔ IsReadable path :=
  exists_bind_pure_iff

/-- There is an application exactly if all paths can be read. -/
theorem exists_ofRegistry_iff :
    (∃ app, ofRegistry r settings = .ok app) ↔ ∀ path ∈ paths r settings, IsReadable path := by
  unfold paths
  rw [List.forall_mem_append, List.forall_mem_map, List.forall_mem_singleton]
  have hroutes : (∃ ms, r.routes.mapM Mounted.ofRoute = .ok ms) ↔ ∀ route ∈ r.routes, _ := exists_mapM_iff
  constructor
  · rintro ⟨app, h⟩
    obtain ⟨ms, hms, h⟩ := bind_eq_ok_iff.mp h
    obtain ⟨d, hd, -⟩ := bind_eq_ok_iff.mp h
    refine ⟨?_, exists_ofDocumentation_iff.mp ⟨d, hd⟩⟩
    intro route hroute
    exact exists_ofRoute_iff.mp (hroutes.mp ⟨ms, hms⟩ route hroute)
  · rintro ⟨hreadable, hdocumentation⟩
    obtain ⟨ms, hms⟩ := hroutes.mpr fun route hroute => exists_ofRoute_iff.mpr (hreadable route hroute)
    obtain ⟨d, hd⟩ := exists_ofDocumentation_iff.mpr hdocumentation
    exact ⟨_, bind_eq_ok_iff.mpr ⟨ms, hms, bind_eq_ok_iff.mpr ⟨d, hd, rfl⟩⟩⟩

/-- Otherwise the first path that cannot be read is at fault: that of a route, or that of the documentation behind
them all. -/
theorem ofRegistry_eq_error_iff :
    ofRegistry r settings = .error f ↔ ∃ path, FirstFault r settings path f := by
  unfold FirstFault paths
  constructor
  · intro h
    obtain h | ⟨ms, hms, h⟩ := bind_eq_error_iff.mp h
    · -- a route is at fault
      obtain ⟨before, route, after, hsplit, hbefore, hroute⟩ := mapM_eq_error_iff.mp h
      refine ⟨route.path, before.map Route.path, after.map Route.path ++ [settings.openapiPath], ?_, ?_,
        ofRoute_eq_error_iff.mp hroute⟩
      · rw [hsplit]
        simp
      · rw [List.forall_mem_map]
        intro route' hroute'
        exact exists_ofRoute_iff.mp (hbefore route' hroute')
    · -- the documentation is, or nothing
      obtain h | ⟨d, -, h⟩ := bind_eq_error_iff.mp h
      · refine ⟨_, r.routes.map Route.path, [], rfl, ?_, ofDocumentation_eq_error_iff.mp h⟩
        rw [List.forall_mem_map]
        intro route hroute
        exact exists_ofRoute_iff.mp (exists_mapM_iff.mp ⟨ms, hms⟩ route hroute)
      · cases h
  · rintro ⟨path, before, after, hsplit, hbefore, hpath⟩
    rcases List.eq_nil_or_concat after with rfl | ⟨after, last, rfl⟩
    · -- all routes are readable, the documentation is not
      obtain ⟨rfl, hlast⟩ := List.append_inj' hsplit rfl
      obtain rfl := List.singleton_inj.mp hlast
      rw [List.forall_mem_map] at hbefore
      obtain ⟨ms, hms⟩ := exists_mapM_iff.mpr fun route hroute => exists_ofRoute_iff.mpr (hbefore route hroute)
      exact bind_eq_error_iff.mpr (.inr ⟨ms, hms,
        bind_eq_error_iff.mpr (.inl (ofDocumentation_eq_error_iff.mpr hpath))⟩)
    · -- the last path is that of the documentation, so a route is at fault
      rw [List.concat_eq_append, ← List.cons_append, ← List.append_assoc] at hsplit
      have hroutes := (List.append_inj' hsplit rfl).1
      obtain ⟨before', rest, hsplit', hbefore', hrest⟩ := List.map_eq_append_iff.mp hroutes
      obtain ⟨route, after', rfl, rfl, -⟩ := List.map_eq_cons_iff.mp hrest
      refine bind_eq_error_iff.mpr (.inl (mapM_eq_error_iff.mpr ⟨before', route, after', hsplit', ?_,
        ofRoute_eq_error_iff.mpr hpath⟩))
      intro route' hroute'
      apply exists_ofRoute_iff.mpr
      apply hbefore
      rw [← hbefore']
      exact List.mem_map_of_mem hroute'

end Outcome

theorem freeze_eq_self_iff {router : Router} : router.freeze = router ↔ router.registry.frozen = true := by
  constructor
  · intro h
    rw [← h]
    rfl
  · intro h
    show { router with registry := { router.registry with frozen := true } } = router
    rw [← h]

/-- **What a build leaves behind.** There is an application exactly if every path can be read, and otherwise the
first path that cannot be read is at fault. Whatever comes of it, the router ends up frozen, with its routes,
components and handles as they were; so it is what it was before only if it had been frozen before. Every later
attempt to register something is refused, and a second build comes to the same. -/
theorem build_outcome (settings : Settings) (router : Router) :
    ∃ outcome, ((build settings).run.run router).run = (outcome, router.freeze) ∧
      ((∃ app, outcome = .ok app) ↔ ∀ path ∈ paths router.registry settings, IsReadable path) ∧
      (∀ f, outcome = .error f ↔ ∃ path, FirstFault router.registry settings path f) ∧
      router.freeze.registry.frozen = true ∧
      (router.freeze.registry.routes = router.registry.routes ∧
        router.freeze.registry.components = router.registry.components ∧
        router.freeze.registry.keys = router.registry.keys ∧ router.freeze.handles = router.handles) ∧
      (router.freeze = router ↔ router.registry.frozen = true) ∧
      (∀ attempt : Attempt, (attempt.perform router.freeze).2 = router.freeze ∧
        (¬ attempt.AsksForNothing → ∃ f, (attempt.perform router.freeze).1 = .error f)) ∧
      ((build settings).run.run router.freeze).run = (outcome, router.freeze) := by
  have hfrozen : router.freeze.registry.frozen = true := rfl
  refine ⟨_, run_build settings router, ?_, ?_, hfrozen, ⟨rfl, rfl, rfl, rfl⟩, freeze_eq_self_iff, ?_, ?_⟩
  · exact exists_ofRegistry_iff
  · intro f
    exact ofRegistry_eq_error_iff
  · intro attempt
    exact attempt.perform_of_frozen hfrozen
  · rw [run_build]
    rfl

/-- A route is registered although its path cannot be read: the build fails, and the router, which
took registrations before, takes none any more. -/
theorem build_unreadable :
    ∃ router handle, ((Router.add "GET" "/a/\x7bid:nope\x7d" [] (pageRoute "").handler none).run.run {}).run =
        (.ok handle, router) ∧ router.registry.frozen = false ∧
      ((build {}).run.run router).run = (.error .pathPattern, router.freeze) ∧ router.freeze ≠ router := by
  refine ⟨_, _, by with_unfolding_all rfl, rfl, by with_unfolding_all rfl, ?_⟩
  intro h
  have hfrozen := freeze_eq_self_iff.mp h
  cases hfrozen

end ApiContract.Routing.Application
