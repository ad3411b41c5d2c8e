import ApiContract.Proofs.EmptyBodies
import ApiContract.Proofs.Operations

/-!
# Which bodies have to be sent

A body is documented as required, or it is not; and validation accepts an empty body, or it does not. The document
judges a JSON body and a form by one test, which looks for a default or null at the node and at the node behind its
refinements. But an empty JSON body gets the default of any layer, and an empty form gets the defaults of its
properties and never its own. Where the defaults are valid, the two agree but for the shapes that the test misjudges
(`body_required_iff`).
-/

namespace ApiContract.Documentation

open Routing Schema Pipeline

/-- A default is declared by the node itself or by the node behind its refinements. -/
def ShowsDefault (s : Schema) : Prop := (∃ d, s.default? = some d) ∨ ∃ d, s.unwrap.default? = some d

/-- The shapes of bodies for which the document and validation differ. -/
inductive MisjudgedBody : Target → Schema → Prop
  /-- A JSON body has a default that is overlooked, and nothing speaks against it. -/
  | overlooked {s : Schema} (hidden : s.HidesDefault) (approved : EmptyApproved .json s) : MisjudgedBody .json s
  /-- A JSON body has a default or may be null, but what stands in for it is refused. -/
  | refused {s : Schema} (optional : s.AdmitsNull ∨ ShowsDefault s) (refused : ¬ EmptyApproved .json s) :
      MisjudgedBody .json s
  /-- A form has a default of its own, which no empty form gets, and a required property has none or is refused. -/
  | unfilled {s : Schema} (own : ShowsDefault s) (unfilled : ¬ (s.RequiredFilled ∧ EmptyApproved .form s)) :
      MisjudgedBody .form s
  /-- A form has no default of its own and needs none, since every required property has one. -/
  | filled {s : Schema} (bare : ¬ ShowsDefault s) (filled : s.RequiredFilled) (approved : EmptyApproved .form s) :
      MisjudgedBody .form s

variable {s : Schema}

/-- The test of the document looks for null and for defaults that show. -/
theorem acceptsAbsence_iff_shows : acceptsAbsence s = true ↔ s.AdmitsNull ∨ ShowsDefault s :=
  acceptsAbsence_eq_true_iff

theorem misjudgedBody_json_iff :
    MisjudgedBody .json s ↔ (s.HidesDefault ∧ EmptyApproved .json s) ∨
      ((s.AdmitsNull ∨ ShowsDefault s) ∧ ¬ EmptyApproved .json s) := by
  constructor
  · rintro (⟨hidden, approved⟩ | ⟨optional, refused⟩)
    · exact .inl ⟨hidden, approved⟩
    · exact .inr ⟨optional, refused⟩
  · rintro (⟨hidden, approved⟩ | ⟨optional, refused⟩)
    · exact .overlooked hidden approved
    · exact .refused optional refused

theorem misjudgedBody_form_iff :
    MisjudgedBody .form s ↔ (ShowsDefault s ∧ ¬ (s.RequiredFilled ∧ EmptyApproved .form s)) ∨
      (¬ ShowsDefault s ∧ s.RequiredFilled ∧ EmptyApproved .form s) := by
  constructor
  · rintro (_ | _ | ⟨own, unfilled⟩ | ⟨bare, filled, approved⟩)
    · exact .inl ⟨own, unfilled⟩
    · exact .inr ⟨bare, filled, approved⟩
  · rintro (⟨own, unfilled⟩ | ⟨bare, filled, approved⟩)
    · exact .unfilled own unfilled
    · exact .filled bare filled approved

/-- What the document looks for is there exactly if there is a default that is not hidden, or null is admitted. -/
theorem admitsNull_or_showsDefault_iff : s.AdmitsNull ∨ ShowsDefault s ↔
    ((∃ d, s.declaredDefault = some d) ∨ s.AdmitsNull) ∧ ¬ s.HidesDefault := by
  by_cases hidden : s.HidesDefault
  · refine iff_of_false ?_ fun h => h.2 hidden
    obtain ⟨-, hown, hinner, hnull⟩ := hidden
    rintro (h | ⟨d, h⟩ | ⟨d, h⟩)
    · exact hnull h
    · exact absurd (hown.symm.trans h) (by simp)
    · exact absurd (hinner.symm.trans h) (by simp)
  · rw [and_iff_left hidden, ← acceptsAbsence_iff_of_not_hidesDefault hidden, acceptsAbsence_iff_shows]

/-- An empty JSON body is judged right but for two shapes. -/
theorem json_judged_iff {p : Pipeline} (hcompile : p.schema.compile = .ok p.validator)
    (honce : p.schema.Everywhere DeclaresOnce) (hdefaults : p.schema.Everywhere DefaultValid) :
    ((acceptsAbsence p.schema = true ↔ ∃ data, p.apply .json (emptyBody .json) = .ok (.success data)) ↔
      ¬ MisjudgedBody .json p.schema) := by
  rw [apply_absent_iff hcompile honce hdefaults, acceptsAbsence_iff_shows, misjudgedBody_json_iff,
    admitsNull_or_showsDefault_iff]
  by_cases hidden : p.schema.HidesDefault
  · have hdefault : (∃ d, p.schema.declaredDefault = some d) ∨ p.schema.AdmitsNull := .inl hidden.1
    simp [hidden, hdefault]
  · by_cases approved : EmptyApproved .json p.schema <;> simp [hidden, approved]

/-- An empty form is judged right but for two shapes. -/
theorem form_judged_iff {p : Pipeline} (hcompile : p.schema.compile = .ok p.validator)
    (honce : p.schema.Everywhere DeclaresOnce) (hobject : p.schema.object?.isSome)
    (hdefaults : p.schema.Everywhere DefaultValid) :
    ((acceptsAbsence p.schema = true ↔ ∃ data, p.apply .form (emptyBody .form) = .ok (.success data)) ↔
      ¬ MisjudgedBody .form p.schema) := by
  rw [apply_nothing_iff hcompile honce hobject hdefaults, acceptsAbsence_iff_shows, misjudgedBody_form_iff,
    or_iff_right (not_admitsNull_of_object hobject)]
  by_cases own : ShowsDefault p.schema <;> simp [own]

/-- **A body is documented as optional exactly if an empty one is accepted**, but for the shapes that are
misjudged. -/
theorem body_required_iff {r : Registry} (hr : r.Reachable) {route : Route} (hroute : route ∈ r.routes)
    {stage : ValidationStage} (hstage : .validation stage ∈ route.stages) (hchecked : stage.IsChecked)
    (hbody : stage.target = .json ∨ stage.target = .form)
    (hsole : ∀ stage', .validation stage' ∈ route.stages → stage'.target = .json ∨ stage'.target = .form →
      stage'.target = stage.target)
    (honce : stage.pipeline.schema.Everywhere DeclaresOnce)
    (hdefaults : stage.pipeline.schema.Everywhere DefaultValid)
    {settings : Settings} {doc : Doc} {c c' : Collector} (h : (operation settings route).run c = (.ok doc, c')) :
    ∃ body required, doc.get? "requestBody" = some body ∧
      body.get? "required" = some (.data (.bool required)) ∧
      ((required = false ↔
        ∃ data, stage.pipeline.apply stage.target (emptyBody stage.target) = .ok (.success data)) ↔
        ¬ MisjudgedBody stage.target stage.pipeline.schema) := by
  have hsound := hr.sound.routes route hroute
  obtain ⟨hcompile, hobject⟩ := hchecked.spec
  have hv : (⟨route.method, route.path, stage⟩ : RouteValidator) ∈ route.validators :=
    hsound.mem_validators.mpr ⟨rfl, rfl, hstage⟩
  have htypes {t : Target} : bodyMediaTypes t ≠ [] ↔ t = .json ∨ t = .form := by
    cases t <;> simp [bodyMediaTypes, formMediaTypes]
  obtain ⟨body, c₁, c₂, -, hrun, hmember⟩ := operation_eq_ok h
  obtain ⟨d, rfl, hrequired⟩ := exists_requestBody hrun hv (htypes.mpr hbody)
  refine ⟨d, _, hmember, hrequired, ?_⟩
  rw [bodyRequired_eq hv (htypes.mpr hbody) fun v' hv' hbody' => ?sole, Bool.not_eq_false']
  case sole =>
    obtain ⟨-, -, hstage'⟩ := hsound.mem_validators.mp hv'
    exact List.inj_on_of_nodup_map hsound.nodup_targets hv' hv (hsole _ hstage' (htypes.mp hbody'))
  rcases hbody with ht | ht
  · rw [ht]
    exact json_judged_iff hcompile honce hdefaults
  · have hobject := hobject (by rw [ht]; decide)
    rw [ht]
    exact form_judged_iff hcompile honce hobject hdefaults

/-- Whether a value is anything but null. -/
def isGiven : Predicate where
  identity := "is_given"
  name := "is_given"
  argument := .null
  holds := fun v => .ok (v.describe != "null")

/-- A body with a wish that need not be there, and an empty body in its place. -/
def wish : ValidationStage where
  target := .json
  pipeline :=
    ⟨.refined {} ⟨.predicate isGiven, .str "Nothing is no wish", none⟩
        (.object { default := some (.dict []) } { required := some [] } [(.str "wish", .string {} {})]),
      .refined isGiven "Nothing is no wish"
        (.object ⟨[], false⟩ [("wish", .string ⟨none, none, none, none, none⟩)])⟩

/-- A form with a wish that need not be there. -/
def wishForm : ValidationStage where
  target := .form
  pipeline :=
    ⟨.object {} { required := some [] } [(.str "wish", .string {} {})],
      .object ⟨[], false⟩ [("wish", .string ⟨none, none, none, none, none⟩)]⟩

/-- The route of a wish. -/
def wishRoute (stage : ValidationStage) : Route where
  method := "POST"
  path := "/wishes"
  stages := [.validation stage]
  handler := .function "grant" fun _ => ⟨[], .ok (.value .null)⟩
  name := none
  validators := [⟨"POST", "/wishes", stage⟩]
  description := none

theorem reachable_wishes (stage : ValidationStage) : Registry.Reachable { routes := [wishRoute stage] } := by
  have hadd : ({} : Registry).addRoute "post" "/wishes" [.validation stage]
      (.function "grant" fun _ => ⟨[], .ok (.value .null)⟩) none =
      .ok ({ routes := [wishRoute stage] }, ⟨0, "POST", "/wishes"⟩) := rfl
  exact .addRoute .empty hadd

theorem sole_wish {stage stage' : ValidationStage} (h : .validation stage' ∈ (wishRoute stage).stages) :
    stage' = stage :=
  Stage.validation.inj (List.mem_singleton.mp h)

theorem defaultValid_of_none {s : Schema} (h : s.default? = none) : DefaultValid s := by
  intro d hd
  rw [h] at hd
  cases hd

theorem defaultValid_wish : wish.pipeline.schema.Everywhere DefaultValid := by
  refine ⟨defaultValid_of_none rfl, everywhere_object.mpr ⟨fun d hd => ?_,
    List.forall_mem_singleton.mpr (defaultValid_of_none rfl)⟩⟩
  obtain rfl := Option.some.inj hd
  refine ⟨Value.wellFormed_dict.mpr ⟨.nil, List.forall_mem_nil _⟩, [], rfl, List.forall_mem_nil _, ?_,
    fun _ => List.forall_mem_nil _⟩
  exact satisfiesProperties_iff.mpr fun p _ v hv => by cases hv

theorem defaultValid_wishForm : wishForm.pipeline.schema.Everywhere DefaultValid :=
  everywhere_object.mpr ⟨defaultValid_of_none rfl, List.forall_mem_singleton.mpr (defaultValid_of_none rfl)⟩

theorem emptyApproved_wish : EmptyApproved .json wish.pipeline.schema := by
  intro w hw
  obtain rfl := Except.ok.inj hw
  refine ⟨fun entries hsame => ?_, rfl⟩
  obtain rfl := Value.dict.inj hsame
  exact approvesAmong_iff.mpr fun p _ v hv => by cases hv

theorem emptyApproved_wishForm : EmptyApproved .form wishForm.pipeline.schema := by
  intro w hw
  obtain rfl := Except.ok.inj hw
  intro entries hsame
  obtain rfl := Value.dict.inj hsame
  exact approvesAmong_iff.mpr fun p _ v hv => by cases hv

/-- A JSON body without a wish is documented as optional, and accepted. For the form the document and validation
differ. -/
theorem body_required_wishes :
    (∃ doc c', (operation {} (wishRoute wish)).run {} = (.ok doc, c') ∧ wish.IsChecked ∧
      ∃ body required, doc.get? "requestBody" = some body ∧ body.get? "required" = some (.data (.bool required)) ∧
        (required = false ↔ ∃ data, wish.pipeline.apply .json .absent = .ok (.success data))) ∧
    ∃ doc c', (operation {} (wishRoute wishForm)).run {} = (.ok doc, c') ∧ wishForm.IsChecked ∧
      ∃ body required, doc.get? "requestBody" = some body ∧ body.get? "required" = some (.data (.bool required)) ∧
        ¬ (required = false ↔ ∃ data, wishForm.pipeline.apply .form (.dict []) = .ok (.success data)) := by
  have hchecked : wish.IsChecked := ⟨.str "json", wish.pipeline.schema, none, none, rfl⟩
  have hcheckedForm : wishForm.IsChecked := ⟨.str "form", wishForm.pipeline.schema, none, none, rfl⟩
  have honce : wish.pipeline.schema.Everywhere DeclaresOnce :=
    ⟨trivial, everywhere_object.mpr ⟨by simp [DeclaresOnce], by simp [Everywhere, DeclaresOnce]⟩⟩
  have honceForm : wishForm.pipeline.schema.Everywhere DeclaresOnce :=
    everywhere_object.mpr ⟨by simp [DeclaresOnce], by simp [Everywhere, DeclaresOnce]⟩
  have hrun : ∃ doc c', (operation {} (wishRoute wish)).run {} = (.ok doc, c') :=
    exists_run_of_isOk (by decide +kernel)
  have hrunForm : ∃ doc c', (operation {} (wishRoute wishForm)).run {} = (.ok doc, c') :=
    exists_run_of_isOk (by decide +kernel)
  obtain ⟨doc, c', hrun⟩ := hrun
  obtain ⟨docForm, c'', hrunForm⟩ := hrunForm
  obtain ⟨body, required, hbody, hrequired, hjudged⟩ := body_required_iff (reachable_wishes wish)
    List.mem_cons_self List.mem_cons_self hchecked (.inl rfl) (fun stage' h _ => by rw [sole_wish h]) honce
    defaultValid_wish hrun
  obtain ⟨bodyForm, requiredForm, hbodyForm, hrequiredForm, hjudgedForm⟩ :=
    body_required_iff (reachable_wishes wishForm) List.mem_cons_self List.mem_cons_self hcheckedForm (.inr rfl)
      (fun stage' h _ => by rw [sole_wish h]) honceForm defaultValid_wishForm hrunForm
  refine ⟨⟨doc, c', hrun, hchecked, body, required, hbody, hrequired, hjudged.mpr ?_⟩,
    docForm, c'', hrunForm, hcheckedForm, bodyForm, requiredForm, hbodyForm, hrequiredForm, fun hagree => ?_⟩
  · rintro (⟨⟨-, -, hnone, -⟩, -⟩ | ⟨-, hrefused⟩)
    · cases hnone
    · exact hrefused emptyApproved_wish
  · refine hjudgedForm.mp hagree (.filled ?_ (fun f ps hobject q _ hneeded => ?_) emptyApproved_wishForm)
    · rintro (⟨d, hd⟩ | ⟨d, hd⟩)
      · cases hd
      · cases hd
    · obtain ⟨rfl, rfl⟩ := Prod.mk.inj (Option.some.inj hobject)
      cases hneeded

/-- A form whose only key is optional is documented as required, and an empty one is accepted. No default and no
predicate has a part in it. -/
theorem body_required_wishForm :
    Registry.Reachable { routes := [wishRoute wishForm] } ∧ wishForm.IsChecked ∧
      wishForm.pipeline.schema.defaults = [] ∧
      ∃ doc c', (operation {} (wishRoute wishForm)).run {} = (.ok doc, c') ∧
      (∃ body, doc.get? "requestBody" = some body ∧ body.get? "required" = some (.data (.bool true))) ∧
      wishForm.pipeline.apply .form (.dict []) = .ok (.success (.dict [])) := by
  have hrun : ∃ doc c', (operation {} (wishRoute wishForm)).run {} = (.ok doc, c') :=
    exists_run_of_isOk (by decide +kernel)
  obtain ⟨doc, c', hrun⟩ := hrun
  obtain ⟨body, c₁, c₂, -, hbody, hmember⟩ := operation_eq_ok hrun
  obtain ⟨d, rfl, hrequired⟩ := exists_requestBody hbody List.mem_cons_self (by decide)
  exact ⟨reachable_wishes wishForm, ⟨.str "form", wishForm.pipeline.schema, none, none, rfl⟩, rfl, doc, c', hrun,
    ⟨d, hmember, hrequired⟩, rfl⟩

end ApiContract.Documentation
