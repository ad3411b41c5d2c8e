import ApiContract.Documentation.Operation
import ApiContract.Proofs.Builds
import ApiContract.Proofs.Induction

/-!
# Documents do not depend on what has been collected

A shared schema is documented by a reference to its name, whether its document is built on the way or has been
built before. So whatever has been collected, a schema has one document (`determined_inlineDoc`) and a route
one operation (`determined_operation`), where they can be built at all.
-/

namespace ApiContract

/-- Sharing gives a reference, whether or not the name has been bound before. -/
theorem determined_bind (name : String) (s : Schema) (document : Build Doc) :
    Determined (Collector.bind name s document) := by
  have href {c c' : Collector} {d : Doc} (h : (Collector.bind name s document).run c = (.ok d, c')) :
      d = .referTo name := by
    obtain ⟨c₁, c₂, hget, h⟩ := build_bind_eq_ok h
    split at h
    · split at h
      · exact (build_pure_eq_ok h).1
      · cases h
    · obtain ⟨_, _, -, h⟩ := build_bind_eq_ok h
      obtain ⟨_, _, -, h⟩ := build_bind_eq_ok h
      obtain ⟨_, _, -, h⟩ := build_bind_eq_ok h
      exact (build_pure_eq_ok h).1
  intro c₁ c₂ c₁' c₂' a₁ a₂ h₁ h₂
  rw [href h₁, href h₂]

theorem determined_shareOr {collecting : Bool} {s : Schema} {document : Build Doc}
    (h : Determined document) : Determined (Schema.shareOr collecting s document) := by
  unfold Schema.shareOr
  split
  · exact determined_bind _ _ _
  · exact h

theorem determined_inlineDoc (collecting : Bool) (s : Schema) : Determined (s.inlineDoc collecting) := by
  induction s using Schema.induction with
  | string a f => exact determined_lift _
  | number a f => exact determined_lift _
  | integer a f => exact determined_lift _
  | boolean a => exact determined_lift _
  | array a f items ih => exact (determined_shareOr ih).bind fun _ => determined_lift _
  | object a f ps ih =>
      have hdocs (ps : List (Value × Schema)) (h : ∀ p ∈ ps, Determined (p.2.inlineDoc collecting)) :
          Determined (Schema.propertyDocs collecting ps) := by
        induction ps with
        | nil => exact determined_pure _
        | cons p ps ihps =>
            exact (determined_shareOr (h p List.mem_cons_self)).bind fun doc =>
              (ihps fun p hp => h p (List.mem_cons_of_mem _ hp)).bind fun rest => determined_pure _
      exact (hdocs ps ih).bind fun _ => determined_lift _
  | nullable a inner ih => exact (determined_shareOr ih).bind fun _ => determined_lift _
  | refined a r base ih => exact (determined_shareOr ih).bind fun _ => determined_lift _
  | bare a => exact determined_throw _
  | foreign u => exact determined_throw _

namespace Documentation

open Routing

/-! ### Operations -/

theorem determined_document (s : Schema) (collecting : Bool) : Determined (s.document collecting) :=
  determined_shareOr (determined_inlineDoc collecting s)

theorem determined_validatorParameters (v : RouteValidator) : Determined (validatorParameters v) := by
  unfold validatorParameters
  dsimp only
  split
  · exact determined_pure _
  · split
    · exact determined_throw _
    · refine determined_mapM fun p _ => ?_
      exact (determined_document p.2 true).bind fun doc => determined_pure _

theorem determined_parameters (route : Route) : Determined (parameters route) :=
  (determined_mapM fun v _ => determined_validatorParameters v).bind fun _ => determined_pure _

theorem determined_validatorContent (v : RouteValidator) : Determined (validatorContent v) := by
  unfold validatorContent
  split
  · exact determined_pure _
  · exact (determined_document _ true).bind fun _ => determined_pure _

theorem determined_requestBody (route : Route) : Determined (requestBody route) := by
  refine (determined_mapM fun v _ => determined_validatorContent v).bind fun rows => ?_
  dsimp only
  split
  · exact determined_pure _
  · exact determined_pure _

theorem determined_responseSchema (s : Schema) : Determined (responseSchema s) := by
  unfold responseSchema
  split
  · exact determined_document s true
  · split
    · exact determined_pure _
    · exact determined_throw _

theorem determined_mediaMember (m : Value × MediaMember) : Determined (mediaMember m) := by
  obtain ⟨key, v | s⟩ := m
  · exact determined_pure _
  · exact (determined_responseSchema s).bind fun _ => determined_pure _

theorem determined_responseMember (m : Value × ResponseMember) : Determined (responseMember m) := by
  obtain ⟨key, v | types⟩ := m
  · exact determined_pure _
  · refine (determined_mapM fun t _ => ?_).bind fun _ => determined_pure _
    exact (determined_mapM fun m _ => determined_mediaMember m).bind fun _ => determined_pure _

theorem determined_declaredResponse (r : ResponseDescription) : Determined (declaredResponse r) :=
  (determined_mapM fun m _ => determined_responseMember m).bind fun _ => determined_pure _

theorem determined_declaredResponses (route : Route) : Determined (declaredResponses route) := by
  refine determined_foldlM (fun responses r _ => ?_) []
  exact (determined_declaredResponse r.2).bind fun doc =>
    (determined_lift _).bind fun status => determined_pure _

theorem determined_failureResponse : Determined failureResponse :=
  (determined_bind _ _ _).bind fun _ => determined_pure _

theorem determined_addFailures (responses : List (String × Doc)) (statuses : List String) :
    Determined (addFailures responses statuses) := by
  refine determined_foldlM (fun responses status _ => ?_) responses
  split
  · exact determined_pure _
  · exact determined_failureResponse.bind fun _ => determined_pure _

theorem determined_responses (settings : Settings) (route : Route) : Determined (responses settings route) :=
  (determined_declaredResponses route).bind fun _ => (determined_lift _).bind fun _ =>
    (determined_addFailures _ _).bind fun _ => determined_pure _

/-- The operation of a route does not depend on what has been collected. -/
theorem determined_operation (settings : Settings) (route : Route) : Determined (operation settings route) :=
  (determined_parameters route).bind fun _ =>
    (determined_requestBody route).bind fun _ =>
      (determined_responses settings route).bind fun _ => determined_pure _

end Documentation

end ApiContract
