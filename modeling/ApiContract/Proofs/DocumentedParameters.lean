import ApiContract.Proofs.DocumentationFaults
import ApiContract.Proofs.Operations
import ApiContract.Proofs.TextForm

/-!
# Parameters are documented once

The parameters of an operation are listed in the order of the stages and of the properties that these declare, one for
each (`DocumentsParameters`). Two of them never have both the name and the place in common: a registered route validates
each target once, targets have different locations, and an object declares each name once. Where the stages were made
with their checks, every target with a location has an object, so that nothing is left to refuse
(`documentsParameters_of_reachable`).
-/

namespace ApiContract

namespace Routing

open Documentation

/-- Where the properties that a validation declares are documented, and under which names. -/
def ValidationStage.parameterKeys (stage : ValidationStage) : List (String × Value) :=
  match location? stage.target, stage.pipeline.schema.object? with
  | some location, some (_, ps) => ps.map fun p => (location, p.1)
  | _, _ => []

/-- The properties that a row of stages declares for parameters, in order. -/
def declaredParameters (stages : List Stage) : List (String × Value) :=
  stages.flatMap fun
    | .validation stage => stage.parameterKeys
    | _ => []

theorem ValidationStage.parameterKeys_of_object {stage : ValidationStage} {location : String} {f : ObjectFields}
    {ps : List (Value × Schema)} (hlocation : location? stage.target = some location)
    (hobject : stage.pipeline.schema.object? = some (f, ps)) :
    stage.parameterKeys = ps.map fun p => (location, p.1) := by
  rw [parameterKeys, hlocation, hobject]

theorem ValidationStage.parameterKeys_of_no_location {stage : ValidationStage}
    (hlocation : location? stage.target = none) : stage.parameterKeys = [] := by
  rw [parameterKeys, hlocation]

/-- Properties are documented where the target has its location. -/
theorem ValidationStage.location?_of_mem_parameterKeys {stage : ValidationStage} {k : String × Value}
    (h : k ∈ stage.parameterKeys) : location? stage.target = some k.1 := by
  unfold parameterKeys at h
  split at h
  · rename_i location f ps hlocation hobject
    obtain ⟨p, -, rfl⟩ := List.mem_map.mp h
    exact hlocation
  · cases h

/-- A validation declares each name once. -/
theorem ValidationStage.nodup_parameterKeys {stage : ValidationStage} (h : stage.IsChecked)
    (honce : stage.pipeline.schema.Everywhere Schema.DeclaresOnce) : stage.parameterKeys.Nodup := by
  unfold parameterKeys
  split
  · rename_i location f ps hlocation hobject
    obtain ⟨a, hnode⟩ := Schema.object?_eq_some hobject
    have hnamed := (Schema.named_of_compileAt h.spec.1 honce).unwrap
    rw [hnode] at hnamed
    refine (List.Nodup.of_map Prod.snd ?_)
    rw [List.map_map]
    exact hnamed.names.differ
  · exact List.nodup_nil

section Route

variable {route : Route}

theorem Route.Sound.declaredParameters_eq (h : route.Sound) :
    declaredParameters route.stages = route.validators.flatMap fun v => v.stage.parameterKeys := by
  rw [h.validators, declaredParameters]
  induction route.stages with
  | nil => rfl
  | cons stage stages ih =>
      rw [List.flatMap_cons, ih]
      cases stage <;> rfl

/-- What is declared for parameters are different names, or names in different places. -/
theorem Route.Sound.nodup_declaredParameters (h : route.Sound)
    (hstages : ∀ stage, .validation stage ∈ route.stages →
      stage.IsChecked ∧ stage.pipeline.schema.Everywhere Schema.DeclaresOnce) :
    (declaredParameters route.stages).Nodup := by
  rw [h.declaredParameters_eq, List.nodup_flatMap]
  constructor
  · intro v hv
    obtain ⟨hchecked, honce⟩ := hstages v.stage (h.mem_validators.mp hv).2.2
    exact v.stage.nodup_parameterKeys hchecked honce
  · refine (List.pairwise_map.mp h.nodup_targets).imp fun {v v'} hne k hk hk' => hne ?_
    exact location?_inj (ValidationStage.location?_of_mem_parameterKeys hk)
      (ValidationStage.location?_of_mem_parameterKeys hk')

end Route

end Routing

namespace Documentation

open Routing Schema

/-- The place of a parameter: where it is found, and its name. -/
def parameterPlace (d : Doc) : Option Doc × Option Doc := (d.get? "in", d.get? "name")

/-- The place where a declared property is documented. -/
def keyPlace (k : String × Value) : Option Doc × Option Doc := (some (.text k.1), some (.data k.2))

theorem keyPlace_injective : Function.Injective keyPlace := by
  rintro ⟨location, key⟩ ⟨location', key'⟩ h
  simpa [keyPlace, Doc.text] using h

/-- The parameters of an operation are those of the properties that the stages of its route declare for them, one for
each and in order. No two have both their names and their places in common, and those in the path are required. -/
structure DocumentsParameters (route : Route) (op : Doc) : Prop where
  listed : (parametersOf op).map parameterPlace = (declaredParameters route.stages).map keyPlace
  differ : ((parametersOf op).map parameterPlace).Nodup
  path : ∀ d ∈ parametersOf op, d.get? "in" = some (.text "path") →
    d.get? "required" = some (.data (.bool true))

variable {settings : Settings} {route : Route} {c c' : Collector}

theorem parameterPlace_of_isParameter {d : Doc} {location : String} {key : Value} {required : Bool}
    (h : IsParameter d location key required) : parameterPlace d = keyPlace (location, key) := by
  rw [parameterPlace, h.location, h.name]
  rfl

/-- The parameters of a validation are listed as their properties are declared. -/
theorem map_parameterPlace_validatorParameters {v : RouteValidator} {ds : List Doc}
    (h : (validatorParameters v).run c = (.ok ds, c')) : ds.map parameterPlace = v.stage.parameterKeys.map keyPlace := by
  rcases of_validatorParameters h with ⟨hlocation, rfl⟩ | ⟨location, f, ps, hlocation, hobject, hall⟩
  · rw [ValidationStage.parameterKeys_of_no_location hlocation]
    rfl
  · rw [ValidationStage.parameterKeys_of_object hlocation hobject, List.map_map, ← List.forall₂_eq_eq_eq,
      List.forall₂_map_left_iff, List.forall₂_map_right_iff]
    exact (hall.imp fun p d hd => parameterPlace_of_isParameter hd).flip

theorem map_parameterPlace_parameters {documents : List Doc}
    (h : (parameters route).run c = (.ok documents, c')) :
    documents.map parameterPlace = (route.validators.flatMap fun v => v.stage.parameterKeys).map keyPlace := by
  obtain ⟨rows, c₁, hrows, h⟩ := build_bind_eq_ok h
  obtain ⟨rfl, -⟩ := build_pure_eq_ok h
  rw [List.map_flatten, List.map_flatMap, List.flatMap_def]
  refine congrArg List.flatten ?_
  rw [← List.forall₂_eq_eq_eq, List.forall₂_map_left_iff, List.forall₂_map_right_iff]
  refine ((build_mapM_eq_ok hrows).imp fun v ds hds => ?_).flip
  obtain ⟨c₁, c₂, hrun⟩ := hds
  exact map_parameterPlace_validatorParameters hrun

/-- A parameter in the path is required. -/
theorem required_of_in_path {documents : List Doc} (h : (parameters route).run c = (.ok documents, c')) {d : Doc}
    (hd : d ∈ documents) (hin : d.get? "in" = some (.text "path")) :
    d.get? "required" = some (.data (.bool true)) := by
  obtain ⟨v, -, location, f, ps, -, -, p, -, hparameter⟩ := of_mem_parameters h hd
  obtain rfl : location = "path" := by
    simpa [Doc.text] using hparameter.location.symm.trans hin
  exact hparameter.required

theorem documentsParameters_of_run (hroute : route.Sound)
    (hstages : ∀ stage, .validation stage ∈ route.stages →
      stage.IsChecked ∧ stage.pipeline.schema.Everywhere DeclaresOnce) {op : Doc}
    (h : (operation settings route).run c = (.ok op, c')) : DocumentsParameters route op := by
  obtain ⟨body, c₁, c₂, hparameters, -, -⟩ := operation_eq_ok h
  have hlisted : (parametersOf op).map parameterPlace = (declaredParameters route.stages).map keyPlace := by
    rw [map_parameterPlace_parameters hparameters, hroute.declaredParameters_eq]
  constructor
  · exact hlisted
  · rw [hlisted]
    exact (hroute.nodup_declaredParameters hstages).map keyPlace_injective
  · exact fun d hd hin => required_of_in_path hparameters hd hin

/-- A target with a location has an object schema, if the stage was made with its checks. -/
theorem isSome_object?_of_location {stage : ValidationStage} (h : stage.IsChecked) {location : String}
    (hlocation : location? stage.target = some location) : stage.pipeline.schema.object?.isSome := by
  refine h.spec.2 fun htarget => ?_
  rw [htarget] at hlocation
  cases hlocation

/-- **Parameters are documented once each.** In every registry that registrations lead to, with stages that were made
with their checks: every operation lists the parameters of its route one by one; no operation is refused for want of an
object; and every operation of a document is that of a route. -/
theorem documentsParameters_of_reachable {r : Registry} (hr : r.Reachable)
    (hstages : ∀ route ∈ r.routes, ∀ stage, .validation stage ∈ route.stages →
      stage.IsChecked ∧ stage.pipeline.schema.Everywhere DeclaresOnce) (settings : Settings) :
    (∀ route ∈ r.routes, ∀ c op c', (operation settings route).run c = (.ok op, c') → DocumentsParameters route op) ∧
      (∀ route ∈ r.routes, ∀ c f c', (operation settings route).run c = (.error f, c') →
        ∀ method path target, f ≠ .documentation (.parameterNotObject method path target)) ∧
      ∀ doc, generate r settings = .ok doc → ∃ paths, doc.get? "paths" = some paths ∧
        ∀ place op, operationAt paths place = some op →
          ∃ route ∈ r.routes, isVisible route = true ∧ placeOf route = place ∧ DocumentsParameters route op := by
  have hlisted : ∀ route ∈ r.routes, ∀ c op c', (operation settings route).run c = (.ok op, c') →
      DocumentsParameters route op := fun route hroute c op c' hrun =>
    documentsParameters_of_run (hr.sound.routes route hroute) (hstages route hroute) hrun
  refine ⟨hlisted, fun route hroute c f c' hrun => ?_, fun doc hdoc => ?_⟩
  · have hdefects : AdmitsDefects fun f =>
        ∀ method path target, f ≠ .documentation (.parameterNotObject method path target) := by
      constructor <;> simp
    have hsound := hr.sound.routes route hroute
    refine failsWith_operation hdefects (fun v hv location hlocation => ?_) (.inr (by simp)) (.inr (by simp)) hrun
    exact isSome_object?_of_location (hstages route hroute v.stage (hsound.mem_validators.mp hv).2.2).1 hlocation
  · obtain ⟨operations, hoperations, hpaths⟩ := generate_eq_ok hdoc
    refine ⟨_, hpaths, fun place op hop => ?_⟩
    have hnothing : operationAt (.record []) place = none := rfl
    rw [operationAt_describe, hnothing, Option.or_none] at hop
    obtain ⟨route, hroute, hplace, hoperation⟩ :=
      exists_left_of_forall₂ hoperations (List.mem_reverse.mp (mem_of_lookup hop))
    obtain ⟨hmem, hvisible⟩ := List.mem_filter.mp hroute
    obtain ⟨c, c', hrun⟩ := hoperation.built
    exact ⟨route, hmem, hvisible, hplace, hlisted route hmem c op c' hrun⟩

/-- The validator of an integer without bounds. -/
def anyInteger : Validator := .number ⟨true, none, none, none, none, none, none⟩

/-- A volume is chosen by its number in the path. -/
def volumeStage : ValidationStage where
  target := .param
  pipeline := ⟨.object {} {} [(.str "id", .integer {} {})], .object ⟨["id"], false⟩ [("id", anyInteger)]⟩

/-- The page, and the number of the reader under the same name as that of the volume. -/
def readerStage : ValidationStage where
  target := .query
  pipeline :=
    ⟨.object {} { required := some [.str "id"] } [(.str "page", .integer {} {}), (.str "id", .integer {} {})],
      .object ⟨["id"], false⟩ [("page", anyInteger), ("id", anyInteger)]⟩

/-- The route by which volumes are read. -/
def volumeRoute : Route where
  method := "GET"
  path := "/volumes/\x7bid\x7d"
  stages := [.validation volumeStage, .validation readerStage]
  handler := answerNothing
  name := none
  validators := [⟨"GET", "/volumes/\x7bid\x7d", volumeStage⟩, ⟨"GET", "/volumes/\x7bid\x7d", readerStage⟩]
  description := none

/-- Volumes are read, and nothing else. -/
def volumes : Registry where
  routes := [volumeRoute]

theorem reachable_volumes : volumes.Reachable := by
  have hadd : ({} : Registry).addRoute "get" "/volumes/\x7bid\x7d"
      [.validation volumeStage, .validation readerStage] answerNothing none = .ok (volumes, ⟨0, "GET", _⟩) := rfl
  exact .addRoute .empty hadd

/-- Both numbers are listed, each in its place. -/
theorem documentsParameters_volumes :
    volumes.Reachable ∧ ∃ doc paths op, generate volumes {} = .ok doc ∧ doc.get? "paths" = some paths ∧
      operationAt paths ("/volumes/\x7bid\x7d", "get") = some op ∧
      (parametersOf op).map parameterPlace =
        [("path", "id"), ("query", "page"), ("query", "id")].map (fun p => (some (.text p.1), some (.text p.2))) ∧
      ((parametersOf op).map parameterPlace).Nodup ∧
      ∀ d ∈ parametersOf op, d.get? "in" = some (.text "path") → d.get? "required" = some (.data (.bool true)) := by
  obtain ⟨doc, c, hrun⟩ : ∃ doc c, (build volumes {}).run {} = (.ok doc, c) := exists_run_of_isOk (by decide +kernel)
  have hdoc : generate volumes {} = .ok doc := congrArg Prod.fst hrun
  have hfound : (match generate volumes {} with
      | .ok doc => (doc.get? "paths").bind fun paths => operationAt paths ("/volumes/\x7bid\x7d", "get")
      | .error _ => none).isSome = true := by decide +kernel
  rw [hdoc] at hfound
  obtain ⟨op, hop⟩ := Option.isSome_iff_exists.mp hfound
  obtain ⟨paths, hpaths, hop⟩ := Option.bind_eq_some_iff.mp hop
  have hstages : ∀ route ∈ volumes.routes, ∀ stage, .validation stage ∈ route.stages →
      stage.IsChecked ∧ stage.pipeline.schema.Everywhere DeclaresOnce := by
    intro route hroute stage hstage
    obtain rfl := List.mem_singleton.mp hroute
    simp only [volumeRoute, List.mem_cons, Stage.validation.injEq, List.not_mem_nil, or_false] at hstage
    rcases hstage with rfl | rfl
    · exact ⟨⟨.str "param", volumeStage.pipeline.schema, none, none, rfl⟩,
        by simp [volumeStage, Everywhere, EverywhereAmong, DeclaresOnce]⟩
    · exact ⟨⟨.str "query", readerStage.pipeline.schema, none, none, rfl⟩,
        by simp [readerStage, Everywhere, EverywhereAmong, DeclaresOnce, Value.same]⟩
  obtain ⟨-, -, hdocument⟩ := documentsParameters_of_reachable reachable_volumes hstages {}
  obtain ⟨paths', hpaths', hoperations⟩ := hdocument doc hdoc
  obtain rfl := Option.some.inj (hpaths.symm.trans hpaths')
  obtain ⟨route, hroute, -, -, hparameters⟩ := hoperations _ op hop
  obtain rfl := List.mem_singleton.mp hroute
  exact ⟨reachable_volumes, doc, paths, op, hdoc, hpaths, hop, hparameters.listed.trans rfl, hparameters.differ,
    hparameters.path⟩

end Documentation

end ApiContract
