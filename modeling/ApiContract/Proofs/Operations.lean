import ApiContract.Documentation.Operation
import ApiContract.Proofs.Builds
import ApiContract.Proofs.Members
import ApiContract.Proofs.Registration
import Mathlib.Data.List.Nodup

/-!
# What an operation documents

An operation has a parameter for every property that a validation of the path, the query, the headers or the
cookies declares, and no other (`exists_mem_parameters`, `of_mem_parameters`). A name in a location belongs to
one property only (`isParameter_unique`), so what its parameter says is what that property says. A body is
documented if a validation reads it (`exists_requestBody`).
-/

namespace ApiContract.Documentation

open Routing

variable {c c' : Collector}

/-- A document describes the parameter of a name in a location, and says whether it is required. -/
structure IsParameter (d : Doc) (location : String) (key : Value) (required : Bool) : Prop where
  name : d.get? "name" = some (.data key)
  location : d.get? "in" = some (.text location)
  required : d.get? "required" = some (.data (.bool required))

/-- Whether a property of an object has to be sent, according to the document. -/
def needed (location : String) (f : ObjectFields) (ps : List (Value × Schema)) (p : Value × Schema) : Bool :=
  location == "path" || (p.1.isIn (Schema.requiredKeys f ps) && !acceptsAbsence p.2)

theorem isParameter_of_parameter {location : String} {f : ObjectFields} {ps : List (Value × Schema)}
    {p : Value × Schema} {d : Doc}
    (h : (parameter location (Schema.requiredKeys f ps) p.1 p.2).run c = (.ok d, c')) :
    IsParameter d location p.1 (needed location f ps p) := by
  obtain ⟨doc, c₁, -, h⟩ := build_bind_eq_ok h
  obtain ⟨rfl, -⟩ := build_pure_eq_ok h
  constructor
  all_goals rw [Doc.get?_setSome_of_ne _ _ (by decide)]; rfl

/-- The parameters of a validation are those of the properties that its object declares. -/
theorem of_validatorParameters {v : RouteValidator} {ds : List Doc}
    (h : (validatorParameters v).run c = (.ok ds, c')) :
    (location? v.stage.target = none ∧ ds = []) ∨
      ∃ location f ps, location? v.stage.target = some location ∧
        v.stage.pipeline.schema.object? = some (f, ps) ∧
        List.Forall₂ (fun p d => IsParameter d location p.1 (needed location f ps p)) ps ds := by
  unfold validatorParameters at h
  dsimp only at h
  split at h
  · rename_i hlocation
    exact .inl ⟨hlocation, (build_pure_eq_ok h).1⟩
  · rename_i location hlocation
    split at h
    · cases h
    · rename_i f ps hobject
      refine .inr ⟨location, f, ps, hlocation, hobject, (build_mapM_eq_ok h).imp fun p d hp => ?_⟩
      obtain ⟨c₁, c₂, hp⟩ := hp
      exact isParameter_of_parameter hp

section Parameters

variable {route : Route} {documents : List Doc}

/-- A parameter of a route is that of a property that one of its validations declares. -/
theorem of_mem_parameters (h : (parameters route).run c = (.ok documents, c')) {d : Doc}
    (hd : d ∈ documents) :
    ∃ v ∈ route.validators, ∃ location f ps, location? v.stage.target = some location ∧
      v.stage.pipeline.schema.object? = some (f, ps) ∧
      ∃ p ∈ ps, IsParameter d location p.1 (needed location f ps p) := by
  obtain ⟨rows, c₁, hrows, h⟩ := build_bind_eq_ok h
  obtain ⟨rfl, -⟩ := build_pure_eq_ok h
  obtain ⟨row, hrow, hd⟩ := List.mem_flatten.mp hd
  obtain ⟨v, hv, c₁, c₂, hrun⟩ := exists_left_of_forall₂ (build_mapM_eq_ok hrows) hrow
  rcases of_validatorParameters hrun with ⟨-, rfl⟩ | ⟨location, f, ps, hlocation, hobject, hall⟩
  · cases hd
  · obtain ⟨p, hp, hparameter⟩ := exists_left_of_forall₂ hall hd
    exact ⟨v, hv, location, f, ps, hlocation, hobject, p, hp, hparameter⟩

/-- Every property that a validation declares for a location has a parameter. -/
theorem exists_mem_parameters (h : (parameters route).run c = (.ok documents, c')) {v : RouteValidator}
    (hv : v ∈ route.validators) {location : String} (hlocation : location? v.stage.target = some location)
    {f : ObjectFields} {ps : List (Value × Schema)}
    (hobject : v.stage.pipeline.schema.object? = some (f, ps)) {p : Value × Schema} (hp : p ∈ ps) :
    ∃ d ∈ documents, IsParameter d location p.1 (needed location f ps p) := by
  obtain ⟨rows, c₁, hrows, h⟩ := build_bind_eq_ok h
  obtain ⟨rfl, -⟩ := build_pure_eq_ok h
  obtain ⟨row, hrow, c₁, c₂, hrun⟩ := exists_right_of_forall₂ (build_mapM_eq_ok hrows) hv
  rcases of_validatorParameters hrun with ⟨hnone, -⟩ | ⟨location', f', ps', hlocation', hobject', hall⟩
  · rw [hnone] at hlocation
    cases hlocation
  · obtain rfl : location' = location := Option.some.inj (hlocation'.symm.trans hlocation)
    obtain ⟨rfl, rfl⟩ := Prod.mk.inj (Option.some.inj (hobject'.symm.trans hobject))
    obtain ⟨d, hd, hparameter⟩ := exists_right_of_forall₂ hall hp
    exact ⟨d, List.mem_flatten.mpr ⟨row, hrow, hd⟩, hparameter⟩

/-- The targets that have a location have different ones. -/
theorem location?_inj {t t' : Target} {location : String} (h : location? t = some location)
    (h' : location? t' = some location) : t = t' := by
  cases t <;> cases t' <;> first | rfl | exact absurd (h.trans h'.symm) (by decide) | cases h

/-- All parameters of a name in a location are those of one property. -/
theorem isParameter_unique (hroute : route.Sound) (h : (parameters route).run c = (.ok documents, c'))
    {v : RouteValidator} (hv : v ∈ route.validators) {location : String}
    (hlocation : location? v.stage.target = some location) {f : ObjectFields} {ps : List (Value × Schema)}
    (hobject : v.stage.pipeline.schema.object? = some (f, ps)) (hdiffer : (ps.map (·.1)).Nodup)
    {p : Value × Schema} (hp : p ∈ ps) {d : Doc} (hd : d ∈ documents)
    (hname : d.get? "name" = some (.data p.1)) (hin : d.get? "in" = some (.text location)) :
    d.get? "required" = some (.data (.bool (needed location f ps p))) := by
  obtain ⟨v', hv', location', f', ps', hlocation', hobject', q, hq, hparameter⟩ := of_mem_parameters h hd
  obtain rfl : location' = location := by
    have hlocations := hparameter.location.symm.trans hin
    simpa [Doc.text] using hlocations
  obtain rfl : v' = v :=
    List.inj_on_of_nodup_map hroute.nodup_targets hv' hv (location?_inj hlocation' hlocation)
  obtain ⟨rfl, rfl⟩ := Prod.mk.inj (Option.some.inj (hobject'.symm.trans hobject))
  have hkey : q.1 = p.1 := by simpa using hparameter.name.symm.trans hname
  obtain rfl : q = p := List.inj_on_of_nodup_map hdiffer hq hp hkey
  exact hparameter.required

end Parameters

section Body

variable {route : Route} {v : RouteValidator}

/-- A validation of the body documents content for it. -/
theorem of_validatorContent {content : List (String × Doc)} (h : (validatorContent v).run c = (.ok content, c'))
    (hbody : bodyMediaTypes v.stage.target ≠ []) : content ≠ [] := by
  unfold validatorContent at h
  split at h
  · rename_i htypes
    exact absurd htypes hbody
  · obtain ⟨doc, c₁, -, h⟩ := build_bind_eq_ok h
    obtain ⟨rfl, -⟩ := build_pure_eq_ok h
    exact mt List.map_eq_nil_iff.mp hbody

/-- A route that validates the body documents it, and says whether it is required. -/
theorem exists_requestBody {body : Option Doc} (h : (requestBody route).run c = (.ok body, c'))
    (hv : v ∈ route.validators) (hbody : bodyMediaTypes v.stage.target ≠ []) :
    ∃ d, body = some d ∧ d.get? "required" = some (.data (.bool (bodyRequired route))) := by
  obtain ⟨rows, c₁, hrows, h⟩ := build_bind_eq_ok h
  obtain ⟨row, hrow, c₂, c₃, hrun⟩ := exists_right_of_forall₂ (build_mapM_eq_ok hrows) hv
  have hcontent : rows.flatten.isEmpty = false := by
    rw [← Bool.not_eq_true, List.isEmpty_iff, List.flatten_eq_nil_iff]
    exact fun hnil => of_validatorContent hrun hbody (hnil row hrow)
  dsimp only at h
  rw [hcontent] at h
  obtain ⟨rfl, -⟩ := build_pure_eq_ok h
  exact ⟨_, rfl, rfl⟩

/-- Whether a body is required is judged by the schema of the validation that reads it, if there is one only. -/
theorem bodyRequired_eq (hv : v ∈ route.validators) (hbody : bodyMediaTypes v.stage.target ≠ [])
    (hsole : ∀ v' ∈ route.validators, bodyMediaTypes v'.stage.target ≠ [] → v' = v) :
    bodyRequired route = !acceptsAbsence v.stage.pipeline.schema := by
  rw [bodyRequired, Bool.eq_iff_iff, List.any_eq_true]
  constructor
  · rintro ⟨v', hv', hrequired⟩
    obtain ⟨hnonempty, hneeded⟩ := Bool.and_eq_true_iff.mp hrequired
    rwa [hsole v' hv' (by simpa using hnonempty)] at hneeded
  · intro hneeded
    exact ⟨v, hv, Bool.and_eq_true_iff.mpr ⟨by simpa using hbody, hneeded⟩⟩

end Body

/-! ### Operations -/

/-- The members that describe an operation in words are these. -/
theorem get?_wording (d : RouteDescription) {key : String}
    (h : key ∉ ["tags", "summary", "description", "operationId", "deprecated"]) :
    (wording d).get? key = none := by
  simp only [List.mem_cons, List.not_mem_nil, or_false, not_or] at h
  obtain ⟨htags, hsummary, hdescription, hid, hdeprecated⟩ := h
  unfold wording
  rw [Doc.get?_setSome_of_ne _ _ hdeprecated, Doc.get?_setSome_of_ne _ _ hid,
    Doc.get?_setSome_of_ne _ _ hdescription, Doc.get?_setSome_of_ne _ _ hsummary,
    Doc.get?_setSome_of_ne _ _ htags]
  rfl

/-- The parameters that an operation documents. -/
def parametersOf (doc : Doc) : List Doc :=
  match doc.get? "parameters" with
  | some (.array documents) => documents
  | _ => []

/-- An operation holds the parameters and the body of its route. -/
theorem operation_eq_ok {settings : Settings} {route : Route} {doc : Doc}
    (h : (operation settings route).run c = (.ok doc, c')) :
    ∃ body c₁ c₂, (parameters route).run c = (.ok (parametersOf doc), c₁) ∧
      (requestBody route).run c₁ = (.ok body, c₂) ∧ doc.get? "requestBody" = body := by
  obtain ⟨documents, c₁, hparameters, h⟩ := build_bind_eq_ok h
  obtain ⟨body, c₂, hbody, h⟩ := build_bind_eq_ok h
  obtain ⟨responses, c₃, -, h⟩ := build_bind_eq_ok h
  obtain ⟨rfl, -⟩ := build_pure_eq_ok h
  have hworded {key : String} (hkey : key ∉ ["tags", "summary", "description", "operationId", "deprecated"]) :
      ((route.description.map wording).getD (.record [])).get? key = none := by
    cases route.description with
    | none => rfl
    | some d => exact get?_wording d hkey
  refine ⟨body, c₁, c₂, ?_, hbody, ?_⟩
  · rw [hparameters, parametersOf, Doc.get?_set_of_ne _ _ (by decide), Doc.get?_setSome_of_ne _ _ (by decide)]
    cases documents with
    | nil => rw [List.isEmpty_nil, if_pos rfl, hworded (by decide)]
    | cons d rest => rw [List.isEmpty_cons, if_neg Bool.false_ne_true, Doc.get?_set_self]
  · rw [Doc.get?_set_of_ne _ _ (by decide), Doc.get?_setSome_self]
    cases documents with
    | nil => rw [List.isEmpty_nil, if_pos rfl, hworded (by decide), Option.or_none]
    | cons d rest =>
        rw [List.isEmpty_cons, if_neg Bool.false_ne_true, Doc.get?_set_of_ne _ _ (by decide),
          hworded (by decide), Option.or_none]

end ApiContract.Documentation
