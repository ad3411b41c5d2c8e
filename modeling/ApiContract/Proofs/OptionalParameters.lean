import ApiContract.Proofs.Absence
import ApiContract.Proofs.MissingProperties
import ApiContract.Proofs.Operations
import ApiContract.Proofs.Totality

/-!
# Which parameters have to be sent

A parameter of the query, the headers or the cookies is documented as required, or it is not; and validation
reports the property as missing when no key matches it, or it does not. The two agree for every property but
a required one that is nullable without a default, or whose default is declared only by a refinement further
inside (`parameter_required_iff`).
-/

namespace ApiContract.Documentation

open Routing Schema

theorem needed_eq_true_iff {location : String} (hlocation : location ≠ "path") {f : ObjectFields}
    {ps : List (Value × Schema)} {p : Value × Schema} {k : String} (hk : p.1 = .str k) :
    needed location f ps p = true ↔ .str k ∈ requiredKeys f ps ∧ ¬ acceptsAbsence p.2 = true := by
  rw [needed, hk, Bool.or_eq_true, beq_iff_eq, or_iff_right hlocation, Bool.and_eq_true,
    Bool.not_eq_true', Bool.not_eq_true, Value.isIn, List.any_eq_true]
  refine and_congr_left fun _ => ?_
  constructor
  · rintro ⟨key, hmem, hsame⟩
    rwa [← Value.same_str_left.mp hsame]
  · exact fun hmem => ⟨_, hmem, Value.same_str_left.mpr rfl⟩

/-- What the parameter of a property says is the opposite of what validation does: the property is required, and
it is nullable without a default or its default is hidden. -/
def Misjudged (f : ObjectFields) (ps : List (Value × Schema)) (p : Value × Schema) : Prop :=
  p.1 ∈ requiredKeys f ps ∧ (p.2.NullableOnly ∨ p.2.HidesDefault)

/-- **A parameter is documented as required exactly if it is reported as missing**, but for the properties that
are misjudged. -/
theorem parameter_required_iff {r : Registry} (hr : r.Reachable) {route : Route} (hroute : route ∈ r.routes)
    {stage : ValidationStage} (hstage : .validation stage ∈ route.stages) (hchecked : stage.IsChecked)
    (honce : stage.pipeline.schema.Everywhere DeclaresOnce) {location : String}
    (hlocation : location? stage.target = some location) (htarget : stage.target ≠ .param)
    {f : ObjectFields} {ps : List (Value × Schema)} (hobject : stage.pipeline.schema.object? = some (f, ps))
    (hnames : ∀ q ∈ ps, q.1 ≠ .str "") {p : Value × Schema} (hp : p ∈ ps) {k : String} (hk : p.1 = .str k)
    (hpoint : '.' ∉ k.toList) (hwords : p.2.declaredDefault = none ∨ ¬ p.2.UsesWords missingText)
    {settings : Settings} {doc : Doc} {c c' : Collector} (h : (operation settings route).run c = (.ok doc, c')) :
    ∃ required, (∃ d ∈ parametersOf doc, IsParameter d location p.1 required) ∧
      (∀ d ∈ parametersOf doc, d.get? "name" = some (.data p.1) → d.get? "in" = some (.text location) →
        d.get? "required" = some (.data (.bool required))) ∧
      ∀ entries, Unmatched stage.target k entries →
        (∀ outcome, stage.pipeline.apply stage.target (.dict entries) = .ok outcome →
          ((required = true ↔ ⟨k, missingText⟩ ∈ outcome.errors) ↔ ¬ Misjudged f ps p)) ∧
        (Pipeline.Robust stage.pipeline.schema → (Value.dict entries).IsPrintable →
          ∃ outcome, stage.pipeline.apply stage.target (.dict entries) = .ok outcome) := by
  have hsound := hr.sound.routes route hroute
  obtain ⟨hcompile, -⟩ := hchecked.spec
  obtain ⟨a, hnode⟩ := object?_eq_some hobject
  have hdiffer : (ps.map (·.1)).Nodup := by
    have hnamed := (named_of_compileAt hcompile honce).unwrap
    rw [hnode] at hnamed
    exact hnamed.names.differ
  have hv : (⟨route.method, route.path, stage⟩ : RouteValidator) ∈ route.validators :=
    hsound.mem_validators.mpr ⟨rfl, rfl, hstage⟩
  obtain ⟨body, c₁, c₂, hparameters, -, -⟩ := operation_eq_ok h
  refine ⟨needed location f ps p, exists_mem_parameters hparameters hv hlocation hobject hp,
    fun d hd hname hin => isParameter_unique hsound hparameters hv hlocation hobject hdiffer hp hd hname hin,
    fun entries hunmatched => ⟨fun outcome happly => ?_, fun hrobust hprintable => ?_⟩⟩
  · have hplace : location ≠ "path" := by
      rintro rfl
      exact htarget (location?_inj hlocation rfl)
    rw [needed_eq_true_iff hplace hk, Pipeline.missing_mem_errors_iff hcompile honce hobject hnames hp hk hpoint
      hwords hunmatched happly, Misjudged, hk, and_congr_right_iff, not_and, ← acceptsAbsence_iff,
      Option.eq_none_iff_forall_ne_some, ← not_exists]
    exact imp_congr_right fun _ => not_iff_not
  · obtain ⟨cleaned, converted, hclean, hconvert, hfault⟩ :=
      Pipeline.exists_trace hcompile hrobust stage.target hprintable
    exact Pipeline.exists_apply hclean hconvert hfault

/-- The handler of a search. -/
def showResults : Handler := .function "results" fun _ => ⟨[], .ok (.value .null)⟩

/-- A search for a text, in an order that may be chosen. -/
def search : ValidationStage where
  target := .query
  pipeline :=
    ⟨.object {} {} [(.str "q", .string {} {}), (.str "sort", .string { default := some (.str "name") } {})],
      .object ⟨["q", "sort"], false⟩ [("q", .string ⟨none, none, none, none, none⟩),
        ("sort", .string ⟨none, none, none, none, none⟩)]⟩

/-- A search for a text that may be null. -/
def searchOrNull : ValidationStage where
  target := .query
  pipeline :=
    ⟨.object {} {} [(.str "q", .nullable {} (.string {} {}))],
      .object ⟨["q"], false⟩ [("q", .nullable (.string ⟨none, none, none, none, none⟩))]⟩

/-- The route of a search. -/
def searchRoute (stage : ValidationStage) : Route where
  method := "GET"
  path := "/search"
  stages := [.validation stage]
  handler := showResults
  name := none
  validators := [⟨"GET", "/search", stage⟩]
  description := none

theorem reachable_search (stage : ValidationStage) : Registry.Reachable { routes := [searchRoute stage] } := by
  have hadd : ({} : Registry).addRoute "get" "/search" [.validation stage] showResults none =
      .ok ({ routes := [searchRoute stage] }, ⟨0, "GET", "/search"⟩) := rfl
  exact .addRoute .empty hadd

/-- The text of a search is documented as required, and a search without one is refused. -/
theorem parameter_required_search :
    ∃ doc c', (operation {} (searchRoute search)).run {} = (.ok doc, c') ∧ search.IsChecked ∧
      ∃ required, (∃ d ∈ parametersOf doc, IsParameter d "query" (.str "q") required) ∧
        ∀ entries, Unmatched .query "q" entries →
          ∀ outcome, search.pipeline.apply .query (.dict entries) = .ok outcome →
            (required = true ↔ ⟨"q", missingText⟩ ∈ outcome.errors) := by
  have hrun : ∃ doc c', (operation {} (searchRoute search)).run {} = (.ok doc, c') :=
    exists_run_of_isOk (by decide +kernel)
  obtain ⟨doc, c', hrun⟩ := hrun
  have hchecked : search.IsChecked := ⟨.str "query", search.pipeline.schema, none, none, rfl⟩
  have honce : search.pipeline.schema.Everywhere DeclaresOnce :=
    everywhere_object.mpr ⟨by simp [DeclaresOnce, Value.same], by simp [Everywhere, DeclaresOnce]⟩
  obtain ⟨required, hdocumented, -, hagree⟩ := parameter_required_iff (reachable_search search)
    List.mem_cons_self List.mem_cons_self hchecked honce rfl (by decide) rfl (by simp) List.mem_cons_self rfl
    (by decide) (.inl rfl) hrun
  refine ⟨doc, c', hrun, hchecked, required, hdocumented, fun entries hunmatched outcome happly => ?_⟩
  refine ((hagree entries hunmatched).1 outcome happly).mpr fun hmisjudged => ?_
  obtain ⟨-, ⟨⟨a, inner, hnullable⟩, -⟩ | ⟨⟨d, hdefault⟩, -⟩⟩ := hmisjudged
  · cases hnullable
  · cases hdefault

/-- A text that may be null is documented as optional, and a search without one is refused as well. -/
theorem parameter_optional_searchOrNull :
    Registry.Reachable { routes := [searchRoute searchOrNull] } ∧ searchOrNull.IsChecked ∧
      ∃ doc c', (operation {} (searchRoute searchOrNull)).run {} = (.ok doc, c') ∧
      (∃ d ∈ parametersOf doc, IsParameter d "query" (.str "q") false) ∧
      ∃ outcome, searchOrNull.pipeline.apply .query (.dict []) = .ok outcome ∧
        ⟨"q", missingText⟩ ∈ outcome.errors := by
  have hrun : ∃ doc c', (operation {} (searchRoute searchOrNull)).run {} = (.ok doc, c') :=
    exists_run_of_isOk (by decide +kernel)
  obtain ⟨doc, c', hrun⟩ := hrun
  obtain ⟨body, c₁, c₂, hparameters, -⟩ := operation_eq_ok hrun
  have hv : (⟨"GET", "/search", searchOrNull⟩ : RouteValidator) ∈ (searchRoute searchOrNull).validators :=
    List.mem_cons_self
  have hobject : searchOrNull.pipeline.schema.object? =
      some ({}, [(.str "q", .nullable {} (.string {} {}))]) := rfl
  exact ⟨reachable_search searchOrNull, ⟨.str "query", searchOrNull.pipeline.schema, none, none, rfl⟩,
    doc, c', hrun, exists_mem_parameters hparameters hv rfl hobject List.mem_cons_self, _, rfl, by decide⟩

end ApiContract.Documentation
