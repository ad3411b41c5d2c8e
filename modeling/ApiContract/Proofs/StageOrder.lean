import ApiContract.Proofs.BodyStates

/-!
# The order of validations

Validations without hooks share nothing but the body of the request. What one of them makes of its target is
fixed by the request (`ValidationStage.Accepts`), so a row of them that lets a request pass does so in any
other order and leaves the same values, with one exception: if the request holds a form, the JSON body is
gone once the form has been read (`runStages_of_perm`).
-/

namespace ApiContract

namespace Http.Request

variable (r : Request)

/-- Reading the targets one after the other comes to the JSON body when it is gone. -/
def LosesBody : BodyState → List Target → Prop
  | _, [] => False
  | state, t :: ts => (t = .json ∧ state = .consumed) ∨ LosesBody (r.bodyAfter state t) ts

theorem losesBody_consumed_iff (ts : List Target) : r.LosesBody .consumed ts ↔ .json ∈ ts := by
  induction ts with
  | nil => simp [LosesBody]
  | cons t ts ih => rw [LosesBody, bodyAfter_consumed, ih, List.mem_cons]; simp [eq_comm]

theorem not_losesBody_kept (ts : List Target) : ¬ r.LosesBody .kept ts := by
  induction ts with
  | nil => exact id
  | cons t ts ih =>
      rw [LosesBody, bodyAfter_kept]
      exact not_or.mpr ⟨fun h => BodyState.noConfusion h.2, ih⟩

/-- The JSON body gets lost exactly if the body holds a form that is read in front of it. -/
theorem losesBody_iff {ts : List Target} (hts : ts.Nodup) :
    r.LosesBody .unread ts ↔ r.formKind?.isSome = true ∧ [.form, .json].Sublist ts := by
  induction ts with
  | nil => simp [LosesBody]
  | cons t ts ih =>
      obtain ⟨hfirst, hrest⟩ := List.nodup_cons.mp hts
      rw [LosesBody]
      cases t with
      | json =>
          -- the body is kept from here on, and no other target is the JSON body
          have hkept : ¬ r.LosesBody (r.bodyAfter .unread .json) ts := r.not_losesBody_kept ts
          have hform : ¬ [Target.form, .json].Sublist (.json :: ts) := by
            rw [List.sublist_cons_iff]
            rintro (h | ⟨us, heq, -⟩)
            · exact hfirst (h.subset (by simp))
            · cases heq
          simp [hkept, hform]
      | form =>
          rw [show r.bodyAfter .unread .form = if r.formKind?.isSome then .consumed else .unread from rfl,
            List.cons_sublist_cons, List.singleton_sublist]
          cases hform : r.formKind?.isSome with
          | true => rw [if_pos rfl, r.losesBody_consumed_iff]; simp
          | false => rw [if_neg Bool.false_ne_true, ih hrest, hform]; simp
      | _ =>
          rw [show r.bodyAfter .unread _ = .unread from rfl, ih hrest, List.sublist_cons_iff]
          simp

end Http.Request

namespace Routing

open Http

namespace ValidationStage

variable {stage : ValidationStage} {c c' : Context} {data data' : Value}

/-- A validation accepts the data of a request, provided that its body is still there. -/
def Accepts (stage : ValidationStage) (c : Context) (data : Value) : Prop :=
  ∃ raw, c.request.read c.params .unread true stage.target = .ok raw ∧
    stage.pipeline.apply stage.target raw = .ok (.success data)

theorem Accepts.unique (h : stage.Accepts c data) (h' : stage.Accepts c data') : data = data' := by
  obtain ⟨raw, hread, happly⟩ := h
  obtain ⟨raw', hread', happly'⟩ := h'
  obtain rfl := Except.ok.inj (hread.symm.trans hread')
  exact Outcome.success.inj (Except.ok.inj (happly.symm.trans happly'))

theorem accepts_congr (h : c.SameInput c') : stage.Accepts c' data ↔ stage.Accepts c data := by
  obtain ⟨hrequest, hparams, -⟩ := h
  unfold Accepts
  rw [hrequest, hparams]

/-- What has been read in whatever state of the body is read as long as the body is there. -/
theorem accepts_of_read {state : BodyState} {raw : Value}
    (hread : c.request.read c.params state true stage.target = .ok raw)
    (happly : stage.pipeline.apply stage.target raw = .ok (.success data)) : stage.Accepts c data := by
  refine ⟨raw, ?_, happly⟩
  rw [← hread]
  refine (Request.read_eq_unread _ (fun htarget hconsumed => ?_) _ _).symm
  rw [htarget, hconsumed] at hread
  cases hread

/-- A validation without a hook lets a request pass whose data it accepts. -/
theorem Accepts.run (h : stage.Accepts c data) (hhook : stage.hook = none)
    (hbody : stage.target = .json → c.body ≠ .consumed) :
    runIn stage.run c = (.ok .proceed, { c with
      body := c.request.bodyAfter c.body stage.target, valid := (stage.target, data) :: c.valid }) := by
  obtain ⟨raw, hread, happly⟩ := h
  have hvalidate : runIn stage.validate c =
      (.ok (.success data), { c with body := c.request.bodyAfter c.body stage.target }) := by
    rw [runIn_validate, Request.read_eq_unread _ hbody, hread]
    exact congrArg (·, _) happly
  unfold ValidationStage.run
  rw [runIn_bind_ok hvalidate, runIn_bind_ok (runIn_consult_none hhook _ _)]
  exact runIn_settle_success _ _ _

end ValidationStage

/-- The stages of a row of validations. -/
def validations (stages : List ValidationStage) : List Stage := stages.map .validation

theorem targets_validations (stages : List ValidationStage) :
    targets (validations stages) = stages.map (·.target) := by
  have hcomp : Stage.target? ∘ Stage.validation = some ∘ (·.target) := rfl
  rw [targets, validations, List.filterMap_map, hcomp, List.filterMap_eq_map]

variable {stages stages' : List ValidationStage} {c c' : Context}

/-- A row of validations that lets a request pass accepts its data, which is there in the end. -/
theorem exists_accepts_of_passes (hnodup : (stages.map (·.target)).Nodup)
    (h : Passes (validations stages) c c') {stage : ValidationStage} (hstage : stage ∈ stages) :
    ∃ data, stage.Accepts c data ∧ c'.validValue stage.target = .ok data := by
  obtain ⟨before, after, rfl⟩ := List.append_of_mem hstage
  have hsplit : validations (before ++ stage :: after) =
      validations before ++ .validation stage :: validations after := List.map_append
  rw [← targets_validations, hsplit] at hnodup
  rw [hsplit] at h
  obtain ⟨c₁, raw, data, -, hread, happly, hvalue⟩ := Route.validated_of_passes hnodup h
  exact ⟨data, ValidationStage.accepts_of_read hread happly, hvalue⟩

/-- Validations without hooks that accept the data of a request let it pass, unless they come to the JSON body
when it is gone. -/
theorem runStages_of_accepts (hhooks : ∀ stage ∈ stages, stage.hook = none)
    (haccepts : ∀ stage ∈ stages, ∃ data, stage.Accepts c data) :
    (c.request.LosesBody c.body (stages.map (·.target)) →
      (runIn (runStages (validations stages)) c).1 = .error .bodyConsumed) ∧
    (¬ c.request.LosesBody c.body (stages.map (·.target)) → ∃ c', Passes (validations stages) c c') := by
  induction stages generalizing c with
  | nil => exact ⟨False.elim, fun _ => ⟨c, .nil c⟩⟩
  | cons stage rest ih =>
      obtain ⟨hhook, hhooks⟩ := List.forall_mem_cons.mp hhooks
      obtain ⟨⟨data, hdata⟩, haccepts⟩ := List.forall_mem_cons.mp haccepts
      show (_ ∨ _ → (runIn (runStages (.validation stage :: validations rest)) c).1 = _) ∧
        (¬ (_ ∨ _) → ∃ c', Passes (.validation stage :: validations rest) c c')
      by_cases hlost : stage.target = .json ∧ c.body = .consumed
      · -- the stage itself comes too late
        refine ⟨fun _ => ?_, fun hnot => absurd (.inl hlost) hnot⟩
        have hrun : runIn (Stage.validation stage).run c = (.error .bodyConsumed, c) :=
          ValidationStage.run_of_consumed hlost.1 hlost.2
        rw [runStages, runIn_bind_error hrun]
      · have hrun : runIn (Stage.validation stage).run c = (.ok .proceed, _) :=
          hdata.run hhook fun htarget hbody => hlost ⟨htarget, hbody⟩
        -- the next stages see the same request
        obtain ⟨hlater, hpasses⟩ := ih hhooks fun s hs => (haccepts s hs).imp fun _ h =>
          (ValidationStage.accepts_congr (sameInput_run hrun)).mpr h
        refine ⟨fun h => ?_, fun hnot => ?_⟩
        · rw [runStages, runIn_bind_ok hrun]
          exact hlater (h.resolve_left hlost)
        · obtain ⟨c', htail⟩ := hpasses fun h => hnot (.inr h)
          exact ⟨c', .cons hrun htail⟩

/-- **Validations are independent of their order, as far as the body of the request allows.** A row of validations
without hooks, for different targets, lets a request pass. Then it does so in any other order, and the value of
every target is the same; unless the request holds a form, which the other order reads in front of the JSON body:
then the JSON body is gone, and the request ends with this fault. -/
theorem runStages_of_perm (hperm : stages.Perm stages') (hhooks : ∀ stage ∈ stages, stage.hook = none)
    (hnodup : (stages.map (·.target)).Nodup) (hbody : c.body = .unread)
    (h : runIn (runStages (validations stages)) c = (.ok .proceed, c')) :
    (c.request.formKind?.isSome = true ∧ [.form, .json].Sublist (stages'.map (·.target)) →
      (runIn (runStages (validations stages')) c).1 = .error .bodyConsumed) ∧
    (¬ (c.request.formKind?.isSome = true ∧ [.form, .json].Sublist (stages'.map (·.target))) →
      ∃ c'', runIn (runStages (validations stages')) c = (.ok .proceed, c'') ∧
        ∀ t, c''.validValue t = c'.validValue t) := by
  have hpasses := runStages_proceed_iff.mp h
  have hnodup' : (stages'.map (·.target)).Nodup := (hperm.map _).nodup_iff.mp hnodup
  have haccepts : ∀ stage ∈ stages', ∃ data, stage.Accepts c data := fun stage hstage => by
    obtain ⟨data, hdata, -⟩ := exists_accepts_of_passes hnodup hpasses (hperm.mem_iff.mpr hstage)
    exact ⟨data, hdata⟩
  obtain ⟨hlost, hkept⟩ := runStages_of_accepts (fun s hs => hhooks s (hperm.mem_iff.mpr hs)) haccepts
  rw [hbody, c.request.losesBody_iff hnodup'] at hlost hkept
  refine ⟨hlost, fun hnot => ?_⟩
  obtain ⟨c'', hpasses'⟩ := hkept hnot
  refine ⟨c'', runStages_proceed_iff.mpr hpasses', fun t => ?_⟩
  by_cases ht : ∃ stage ∈ stages, stage.target = t
  · obtain ⟨stage, hstage, rfl⟩ := ht
    obtain ⟨data, hdata, hvalue⟩ := exists_accepts_of_passes hnodup hpasses hstage
    obtain ⟨data', hdata', hvalue'⟩ := exists_accepts_of_passes hnodup' hpasses' (hperm.mem_iff.mp hstage)
    rw [hvalue, hvalue', hdata.unique hdata']
  · -- neither order validates the target
    have hnot : t ∉ targets (validations stages) := by
      rw [targets_validations, List.mem_map]
      exact ht
    have hnot' : t ∉ targets (validations stages') := by
      rw [targets_validations, ← (hperm.map _).mem_iff, List.mem_map]
      exact ht
    rw [validValue_of_passes hpasses hnot, validValue_of_passes hpasses' hnot']

/-- A validation that asks for nothing but an object. -/
def anyObject (t : Target) : ValidationStage where
  target := t
  pipeline := ⟨.object {} {} [], .object ⟨[], false⟩ []⟩

/-- A validation of the word that is looked for. -/
def wordStage : ValidationStage where
  target := .param
  pipeline := ⟨.object {} {} [(.str "word", .string {} {})],
    .object ⟨["word"], false⟩ [("word", .string ⟨none, none, none, none, none⟩)]⟩

/-- A request that looks for a word. Its body is an empty JSON object, and a form with one field. -/
def wordRequest : Context where
  request := {
    method := "POST"
    headers := [("content-type", "application/x-www-form-urlencoded")]
    body := [123, 125] }
  params := [(.str "word", .str "owl")]

/-- The word can be validated behind the JSON body or in front of it. -/
theorem runStages_wordRequest :
    ∃ c' c'', runIn (runStages (validations [anyObject .json, wordStage, anyObject .form])) wordRequest =
        (.ok .proceed, c') ∧
      runIn (runStages (validations [wordStage, anyObject .json, anyObject .form])) wordRequest =
        (.ok .proceed, c'') ∧ ∀ t, c''.validValue t = c'.validValue t := by
  have hrun : ∃ c', runIn (runStages (validations [anyObject .json, wordStage, anyObject .form])) wordRequest =
      (.ok .proceed, c') := ⟨_, rfl⟩
  obtain ⟨c', hrun⟩ := hrun
  have hhooks : ∀ stage ∈ [anyObject .json, wordStage, anyObject .form], stage.hook = none :=
    List.forall_mem_cons.mpr ⟨rfl, List.forall_mem_cons.mpr ⟨rfl, List.forall_mem_singleton.mpr rfl⟩⟩
  obtain ⟨c'', hrun', hvalues⟩ :=
    (runStages_of_perm (.swap _ _ _) hhooks (by decide) rfl hrun).2 (by decide)
  exact ⟨c', c'', hrun, hrun', hvalues⟩

/-- A form that is read in front of the JSON body leaves nothing of it, though the other order lets the same
request pass. -/
theorem bodyConsumed_wordRequest :
    (∃ c', runIn (runStages (validations [anyObject .json, anyObject .form])) wordRequest = (.ok .proceed, c') ∧
      ∃ data, c'.validValue .json = .ok data) ∧
      (runIn (runStages (validations [anyObject .form, anyObject .json])) wordRequest).1 = .error .bodyConsumed :=
  ⟨⟨_, rfl, _, rfl⟩, rfl⟩

end Routing

end ApiContract
