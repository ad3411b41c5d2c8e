import ApiContract.Proofs.DocumentationFaults
import ApiContract.Proofs.FailedCalls
import ApiContract.Proofs.FailureResponses
import ApiContract.Proofs.SerializableValues

/-!
# The order of failure statuses

The statuses with which the validations of a route refuse input are a set: no order of them is given, and the document
of their response is shared. Whatever the order, the response is documented once, for all the statuses that have none
(`addFailures_eq`), and then all responses are sorted. So the responses of a route, what is collected for them, the
faults and with them the text of the document are the same in every order (`text_of_perm`).
-/

namespace ApiContract.Documentation

open Routing Schema

/-! ### Documents in a given order -/

/-- The responses of a route whose failure statuses are put in an order before they are passed through. -/
def responsesIn (order : List String → List String) (settings : Settings) (route : Route) : Build Doc := do
  let declared ← declaredResponses route
  let statuses ← failureStatuses settings route
  let all ← addFailures (addSuccess declared) (order statuses)
  return .record (sortResponses all)

/-- The responses of a route come in one of these orders. -/
theorem responses_eq (settings : Settings) (route : Route) :
    responses settings route = responsesIn id settings route := rfl

/-- The documentation of a route with the given responses. -/
def operationWith (answers : Build Doc) (route : Route) : Build Doc := do
  let doc := (route.description.map wording).getD (.record [])
  let ps ← parameters route
  let doc := if ps.isEmpty then doc else doc.set "parameters" (.array ps)
  let doc := doc.setSome "requestBody" (← requestBody route)
  return doc.set "responses" (← answers)

/-- The document of a registry with the given responses of its routes. -/
def buildWith (answers : Route → Build Doc) (registry : Registry) (settings : Settings) : Build Doc := do
  for (name, s) in registry.components do
    let _ ← Collector.add name s
  let paths ← (registry.routes.filter isVisible).foldlM (fun paths route => do
    let doc ← operationWith (answers route) route
    return addOperation paths (PathPattern.documented route.path) (Text.toLower route.method) doc) (Doc.record [])
  let doc := Doc.record [("openapi", .text formatVersion), ("info", info settings)]
  let servers := settings.servers.map server
  let doc := if servers.isEmpty then doc else doc.set "servers" (.array servers)
  let doc := doc.set "paths" paths
  return doc.set "components" (.record [("schemas", .record (← get).schemas)])

/-- The document of a registry is the one with the responses that its routes have. -/
theorem build_eq (registry : Registry) (settings : Settings) :
    build registry settings = buildWith (responses settings) registry settings := rfl

/-- The text of the document of a registry whose routes have their failure statuses in given orders. -/
def textIn (order : Route → List String → List String) (registry : Registry) (settings : Settings) :
    Except Fault String := do
  let answers := fun route => responsesIn (order route) settings route
  render (← ((buildWith answers registry settings).run {}).1).toValue

/-! ### Adding the response -/

variable {c c' : Collector} {d : Doc} {start : List (String × Doc)}

/-- Once it has been documented, the response to input that fails is at hand. -/
theorem failureResponse_again (h : failureResponse.run c = (.ok d, c')) : failureResponse.run c' = (.ok d, c') := by
  have hcollects : Collects Anything c'.source? failureResponse (IsFailureResponse c'.source?) :=
    collects_isFailureResponse
  obtain ⟨-, hcollected⟩ := hcollects.completes h
  obtain ⟨rfl, existing, hexisting, hserves⟩ := hcollected fun _ _ => id
  have hsame : existing.same validationErrorSchema = true := by
    rcases hserves with rfl | hsame
    · decide
    · exact hsame
  have hadd : (Collector.add "ValidationErrorResponse" validationErrorSchema).run c' =
      (.ok (.referTo "ValidationErrorResponse"), c') := by
    rw [Collector.add, Collector.run_bind, hexisting]
    dsimp only
    rw [if_pos hsame]
  rw [failureResponse, build_bind_ok hadd]
  rfl

/-- The statuses that have no response yet. -/
def missingFrom (start : List (String × Doc)) (statuses : List String) : List String :=
  statuses.filter fun status => !start.any (·.1 == status)

/-- Adds one response for all missing statuses, if any is missing. -/
def addMissing (start : List (String × Doc)) (missing : List String) : Build (List (String × Doc)) :=
  if missing.isEmpty then return start
  else do
    let d ← failureResponse
    return start ++ missing.map (·, d)

theorem bindResponse_of_missing {status : String} (h : start.any (·.1 == status) = false) (d : Doc) :
    bindResponse start status d = start ++ [(status, d)] := by
  rw [bindResponse, List.filter_eq_self.mpr]
  intro e he
  rw [List.any_eq_false] at h
  simpa using h e he

/-- After a response has been added for one status, the others are missing as before. -/
theorem missingFrom_concat {status : String} {statuses : List String} (hnew : status ∉ statuses) :
    missingFrom (start ++ [(status, d)]) statuses = missingFrom start statuses := by
  refine List.filter_congr fun other hother => ?_
  have hne : status ≠ other := fun heq => hnew (heq ▸ hother)
  rw [List.any_append, List.any_cons, List.any_nil, beq_false_of_ne hne, Bool.or_false, Bool.or_false]

/-- The response has been documented for one status, and serves the others. -/
theorem run_addMissing_again (h : failureResponse.run c = (.ok d, c')) (rows : List (String × Doc))
    (missing : List String) : (addMissing rows missing).run c' = (.ok (rows ++ missing.map (·, d)), c') := by
  unfold addMissing
  split_ifs with hmissing
  · rw [List.isEmpty_iff.mp hmissing, List.map_nil, List.append_nil]
    rfl
  · rw [build_bind_ok (failureResponse_again h)]
    rfl

/-- However the statuses come, the response is documented once, and stands under all that have none. -/
theorem addFailures_eq {statuses : List String} (h : statuses.Nodup) :
    addFailures start statuses = addMissing start (missingFrom start statuses) := by
  induction statuses generalizing start with
  | nil => rfl
  | cons status statuses ih =>
      obtain ⟨hnew, hnodup⟩ := List.nodup_cons.mp h
      unfold addFailures at ih ⊢
      rw [List.foldlM_cons]
      -- a status that has a response is passed over; the first one that has none documents it for the rest
      cases hstatus : start.any (·.1 == status) with
      | true =>
          have hmissing : missingFrom start (status :: statuses) = missingFrom start statuses := by
            simp [missingFrom, hstatus]
          rw [hmissing, if_pos rfl, pure_bind]
          exact ih hnodup
      | false =>
          have hmissing : missingFrom start (status :: statuses) = status :: missingFrom start statuses := by
            simp [missingFrom, hstatus]
          rw [hmissing, if_neg Bool.false_ne_true, bind_assoc]
          refine build_ext fun c => ?_
          rw [build_bind, addMissing, List.isEmpty_cons, if_neg Bool.false_ne_true, build_bind]
          rcases hresponse : failureResponse.run c with ⟨fault | d, c'⟩
          · rfl
          · show (addFailures (bindResponse start status d) statuses).run c' = _
            rw [addFailures, ih hnodup, bindResponse_of_missing hstatus, missingFrom_concat hnew,
              run_addMissing_again hresponse, List.append_assoc]
            rfl

/-! ### Sorting the responses -/

/-- What stands under a status does not depend on the order in which it has been added. -/
theorem lookup_append_map (start : List (String × Doc)) (missing : List String) (d : Doc) (status : String) :
    (start ++ missing.map (·, d)).lookup status =
      (start.lookup status).or (if status ∈ missing then some d else none) := by
  have hpairs : missing.map (·, d) = missing.filterMap fun k => (some d).map (k, ·) := by
    rw [← List.filterMap_eq_map]
    rfl
  rw [List.lookup_append, hpairs, lookup_filterMap_pair missing fun _ => some d]

theorem sortResponses_of_perm (start : List (String × Doc)) {missing missing' : List String}
    (h : missing.Perm missing') (d : Doc) :
    sortResponses (start ++ missing.map (·, d)) = sortResponses (start ++ missing'.map (·, d)) := by
  have hkeys : sortTexts ((start ++ missing.map (·, d)).map (·.1)) =
      sortTexts ((start ++ missing'.map (·, d)).map (·.1)) :=
    eq_sortTexts ((List.mergeSort_perm _ _).trans (((h.map _).append_left start).map _)) (pairwise_sortTexts _)
  rw [sortResponses, sortResponses, hkeys]
  refine List.filterMap_congr fun status _ => ?_
  simp only [lookup_append_map, h.mem_iff]

theorem nodup_failureStatuses {settings : Settings} {route : Route} {statuses : List String}
    (h : failureStatuses settings route = .ok statuses) : statuses.Nodup := by
  obtain ⟨texts, -, hstatuses⟩ := bind_eq_ok_iff.mp h
  obtain rfl := Except.ok.inj hstatuses
  exact nodup_eraseDups texts

/-- The responses of a route are the same in all orders of the failure statuses, and so is what is collected. -/
theorem responsesIn_of_perm {order order' : List String → List String} (h : ∀ xs, (order xs).Perm (order' xs))
    (hset : ∀ xs, (order xs).Perm xs) (settings : Settings) (route : Route) :
    responsesIn order settings route = responsesIn order' settings route := by
  refine bind_congr fun declared => ?_
  cases hstatuses : failureStatuses settings route with
  | error f => rfl
  | ok statuses =>
  have hnodup := (hset statuses).nodup_iff.mpr (nodup_failureStatuses hstatuses)
  show (addFailures (addSuccess declared) (order statuses) >>= fun all => pure (Doc.record (sortResponses all))) =
    (addFailures (addSuccess declared) (order' statuses) >>= fun all => pure (Doc.record (sortResponses all)))
  rw [addFailures_eq hnodup, addFailures_eq ((h statuses).nodup_iff.mp hnodup)]
  have hmissing : (missingFrom (addSuccess declared) (order statuses)).Perm
      (missingFrom (addSuccess declared) (order' statuses)) := (h statuses).filter _
  unfold addMissing
  rw [hmissing.isEmpty_eq]
  split_ifs
  · rfl
  · rw [bind_assoc, bind_assoc]
    refine bind_congr fun d => ?_
    rw [pure_bind, pure_bind, sortResponses_of_perm _ hmissing d]

/-- **The document does not depend on the order of statuses.** -/
theorem text_of_perm {settings : Settings} {order : Route → List String → List String}
    (horder : ∀ route statuses, (order route statuses).Perm statuses) :
    (∀ route c, (responsesIn (order route) settings route).run c = (responses settings route).run c) ∧
      (∀ route, ResponsesTold settings route → ∀ c f c',
        (responsesIn (order route) settings route).run c = (.error f, c') → ∃ defect, f = .documentation defect) ∧
      ∀ r, textIn order r settings = text r settings := by
  have hsame (route : Route) : responsesIn (order route) settings route = responses settings route := by
    rw [responses_eq, responsesIn_of_perm (horder route) (horder route)]
    rfl
  refine ⟨fun route c => by rw [hsame], fun route htold c f c' hrun => ?_, fun r => ?_⟩
  · have hdefects : AdmitsDefects fun f => ∃ defect, f = .documentation defect := by
      constructor <;> simp
    rw [hsame] at hrun
    exact failsWith_responses hdefects (.inl htold) hrun
  · have hbuild : buildWith (fun route => responsesIn (order route) settings route) r settings = build r settings := by
      rw [build_eq, funext hsame]
    rw [textIn, hbuild]
    rfl

/-- A validation that takes everything, and has its own status for refusals. -/
def refusingStage (target : Target) (status : Int) : ValidationStage where
  target := target
  pipeline := ⟨.object {} { additional := true } [], .object ⟨[], true⟩ []⟩
  failureStatus := some status

/-- A route whose query and body are refused with different statuses. -/
def refusingRoute : Route where
  method := "POST"
  path := "/orders"
  stages := [.validation (refusingStage .query 422), .validation (refusingStage .json 404)]
  handler := answerNothing
  name := none
  validators := [⟨"POST", "/orders", refusingStage .query 422⟩, ⟨"POST", "/orders", refusingStage .json 404⟩]
  description := none

/-- The name of the response to input that fails is taken by another schema. -/
def takenName : Collector where
  sources := [("ValidationErrorResponse", .string {} {})]

/-- In the reversed order there are the same responses, and the same fault where there is one. -/
theorem text_of_perm_refusingRoute :
    failureStatuses {} refusingRoute = .ok ["422", "404"] ∧
      (responsesIn List.reverse {} refusingRoute).run {} = (responses {} refusingRoute).run {} ∧
      (∃ defect c, (responsesIn List.reverse {} refusingRoute).run takenName = (.error (.documentation defect), c)) ∧
      textIn (fun _ => List.reverse) { routes := [refusingRoute] } {} = text { routes := [refusingRoute] } {} := by
  have hquery : intText ((refusingStage .query 422).statusFor {}) = .ok "422" :=
    (text_of_clientError (s := 422) (by decide) (by decide)).1
  have hbody : intText ((refusingStage .json 404).statusFor {}) = .ok "404" :=
    (text_of_clientError (s := 404) (by decide) (by decide)).1
  have hstatuses : failureStatuses {} refusingRoute = .ok ["422", "404"] :=
    bind_eq_ok_iff.mpr ⟨_, mapM_eq_ok_iff.mpr (.cons hquery (.cons hbody .nil)), by decide +kernel⟩
  have horder : ∀ (_ : Route) (statuses : List String), statuses.reverse.Perm statuses :=
    fun _ statuses => List.reverse_perm statuses
  obtain ⟨hresponses, hfaults, htext⟩ := @text_of_perm {} (fun _ => List.reverse) horder
  have htold : ResponsesTold {} refusingRoute := by
    refine ⟨List.forall_mem_nil _, fun v hv => ?_, List.forall_mem_nil _⟩
    rcases List.mem_pair.mp hv with rfl | rfl
    · exact ⟨_, hquery⟩
    · exact ⟨_, hbody⟩
  refine ⟨hstatuses, hresponses refusingRoute {}, ?_, htext _⟩
  have hfails : ((responsesIn List.reverse {} refusingRoute).run takenName).1.isOk = false := by decide +kernel
  rcases hrun : (responsesIn List.reverse {} refusingRoute).run takenName with ⟨f | d, c⟩
  · obtain ⟨defect, rfl⟩ := hfaults refusingRoute htold takenName f c hrun
    exact ⟨defect, c, rfl⟩
  · rw [hrun] at hfails
    cases hfails

/-! ### Numbers without a text -/

/-- A description of a number with a default. -/
def numberDescription (n : Nat) : RouteDescription where
  responses := [(.int 200, [(.str "content", .content [(.str jsonMediaType,
    [(.str "schema", .schema (.integer { default := some (.int n) } {}))])])])]

/-- A route that answers with a number, of which it shows a default. -/
def numberRoute (n : Nat) : Route where
  method := "GET"
  path := "/number"
  stages := [.description (numberDescription n)]
  handler := answerNothing
  name := none
  validators := []
  description := some (numberDescription n)

theorem reachable_numberRoute (n : Nat) : Registry.Reachable { routes := [numberRoute n] } := by
  have hadd : ({} : Registry).addRoute "get" "/number" [.description (numberDescription n)] answerNothing none =
      .ok ({ routes := [numberRoute n] }, ⟨0, "GET", "/number"⟩) := rfl
  exact .addRoute .empty hadd

/-- A default without a text can be written neither in the document nor in the words that say so. -/
theorem serializable_of_not_withinLimit {n : Nat} (h : Numeral.withinLimit n = false) (what : String) :
    serializable (.int n) what = .error .digitLimit := by
  have hwritten : Json.isSerializable (.int n) = false := by
    rw [Bool.eq_false_iff, ne_eq, Json.isSerializable_iff]
    intro hn
    exact Bool.false_ne_true (h.symm.trans hn.here)
  have hshown : (Value.int n).display = .error .digitLimit := intText_of_not_withinLimit h
  unfold serializable
  rw [hwritten, if_neg Bool.false_ne_true, hshown]
  rfl

theorem run_responsesIn_numberRoute {n : Nat} (h : Numeral.withinLimit n = false)
    (order : List String → List String) (settings : Settings) :
    (responsesIn order settings (numberRoute n)).run {} = (.error .digitLimit, {}) := by
  have hschema : responseSchema (.integer { default := some (.int n) } {}) = throw .digitLimit := by
    show ((annotate { default := some (.int n) } (numberDoc "integer" {}) : Except Fault Doc) : Build Doc) = _
    have hannotate : annotate { default := some (.int n) } (numberDoc "integer" {}) = .error .digitLimit := by
      rw [annotate]
      dsimp only
      rw [serializable_of_not_withinLimit h]
      rfl
    rw [hannotate]
    rfl
  have hdeclared : declaredResponses (numberRoute n) = throw .digitLimit := by
    simp only [declaredResponses, numberRoute, numberDescription, Option.map_some, Option.getD_some,
      List.foldlM_cons, declaredResponse, List.mapM_cons, responseMember, mediaMember, hschema]
    rfl
  rw [responsesIn, hdeclared]
  rfl

/-- The default is beyond the limit: in no order is the route described, and in none is a defect of it named. -/
theorem responses_numberRoute :
    Registry.Reachable { routes := [numberRoute (Nat.pow 10 Numeral.digitLimit)] } ∧
      ∀ order, (responsesIn order {} (numberRoute (Nat.pow 10 Numeral.digitLimit))).run {} = (.error .digitLimit, {}) ∧
        ∀ defect, Fault.digitLimit ≠ .documentation defect :=
  ⟨reachable_numberRoute _, fun order =>
    ⟨run_responsesIn_numberRoute Numeral.not_withinLimit_pow order _, fun _ h => by cases h⟩⟩

end ApiContract.Documentation
