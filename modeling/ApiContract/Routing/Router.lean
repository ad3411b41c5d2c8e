import ApiContract.Routing.Registry

/-!
# Routers

A router registers routes and components in its registry and keeps handles of the routes. One router
may take over the registrations of another behind a path; what it has taken over before one of them is
refused stays.
-/

namespace ApiContract.Routing

structure Router where
  registry : Registry := {}
  handles : List RouteHandle := []

/-- A registration. What it has registered stays, also if it is refused in the end. -/
abbrev Registration := ExceptT Fault (StateM Router)

namespace Router

/-- Registers a route. -/
def add (method path : String) (stages : List Stage) (handler : Handler) (name : Option String) :
    Registration RouteHandle := do
  let (registry, handle) ← (← get).registry.addRoute method path stages handler name
  modify fun r => { registry, handles := r.handles ++ [handle] }
  return handle

/-- Registers a route in the registry alone: the router keeps no handle of it. -/
def addUnlisted (method path : String) (stages : List Stage) (handler : Handler)
    (name : Option String) : Registration RouteHandle := do
  let (registry, handle) ← (← get).registry.addRoute method path stages handler name
  modify fun r => { r with registry }
  return handle

/-- Registers a shared schema. -/
def component (name : String) (s : Schema) : Registration Unit := do
  let registry ← (← get).registry.addComponent name s
  modify fun r => { r with registry }

/-- Ends registration. -/
def freeze (r : Router) : Router := { r with registry := r.registry.freeze }

/-- A text without the slashes at its end. -/
def dropSlashes (s : String) : String :=
  String.ofList (s.toList.reverse.dropWhile (· == '/')).reverse

/-- The path of a route behind a base path without slashes at its end. The root path stands for the
base itself. -/
def joinBase (base path : String) : String :=
  if path != "/" || base.isEmpty then base ++ path else base

/-- Takes over the components and then the routes of a registry behind a base path. -/
def mount (base : String) (other : Registry) : Registration (List RouteHandle) := do
  let base := dropSlashes base
  if !base.isEmpty && base.toList.head? != some '/' then throw (.refused (.relativePrefix base))
  for (name, s) in other.components do component name s
  other.routes.mapM fun route =>
    add route.method (joinBase base route.path) route.stages route.handler route.name

end Router

end ApiContract.Routing
