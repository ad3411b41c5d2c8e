import ApiContract.Proofs.Passage

/-!
# What becomes of the body of a request

All parts of a request can be read again and again, save its body, which is a stream. Reading it for JSON
keeps it for later; reading a form takes it from the connection, and then it is gone for JSON. So it depends
on the targets that have been read, and on their order, whether the JSON body is still there
(`Request.isConsumed_iff`, `body_of_passes`).
-/

namespace ApiContract

namespace Http.Request

variable (r : Request)

/-- The state of the body after targets have been read one after the other. -/
def bodyAfterAll (state : BodyState) (ts : List Target) : BodyState := ts.foldl r.bodyAfter state

/-- A form is read before the JSON body is. -/
def FormFirst (ts : List Target) : Prop := ∃ before after, ts = before ++ .form :: after ∧ .json ∉ before

@[simp] theorem bodyAfter_kept (t : Target) : r.bodyAfter .kept t = .kept := by
  cases t <;> rfl

@[simp] theorem bodyAfter_consumed (t : Target) : r.bodyAfter .consumed t = .consumed := by
  cases t <;> rfl

theorem bodyAfterAll_append (state : BodyState) (ts us : List Target) :
    r.bodyAfterAll state (ts ++ us) = r.bodyAfterAll (r.bodyAfterAll state ts) us :=
  List.foldl_append

theorem bodyAfterAll_of_fixed {state : BodyState} (h : ∀ t, r.bodyAfter state t = state) (ts : List Target) :
    r.bodyAfterAll state ts = state := by
  induction ts with
  | nil => rfl
  | cons t ts ih => rw [bodyAfterAll, List.foldl_cons, h]; exact ih

theorem formFirst_cons {t : Target} {ts : List Target} :
    FormFirst (t :: ts) ↔ t = .form ∨ t ≠ .json ∧ FormFirst ts := by
  constructor
  · rintro ⟨before, after, hts, hjson⟩
    cases before with
    | nil => exact .inl (List.cons.inj hts).1
    | cons u before =>
        obtain ⟨rfl, rfl⟩ := List.cons.inj hts
        obtain ⟨hne, hjson⟩ := not_or.mp (mt List.mem_cons.mpr hjson)
        exact .inr ⟨Ne.symm hne, before, after, rfl, hjson⟩
  · rintro (rfl | ⟨hne, before, after, rfl, hjson⟩)
    · exact ⟨[], ts, rfl, List.not_mem_nil⟩
    · exact ⟨t :: before, after, rfl, fun h => (List.mem_cons.mp h).elim (fun h => hne h.symm) hjson⟩

/-- The body is gone for JSON if it holds a form and was read as one before anything has kept it. -/
theorem isConsumed_iff (ts : List Target) :
    r.bodyAfterAll .unread ts = .consumed ↔ r.formKind?.isSome = true ∧ FormFirst ts := by
  induction ts with
  | nil =>
      constructor
      · intro h
        cases h
      · rintro ⟨-, before, after, hts, -⟩
        simp at hts
  | cons t ts ih =>
      rw [formFirst_cons]
      show r.bodyAfterAll (r.bodyAfter .unread t) ts = .consumed ↔ _
      cases t with
      | json =>
          rw [show r.bodyAfter .unread .json = .kept from rfl, r.bodyAfterAll_of_fixed r.bodyAfter_kept]
          simp
      | form =>
          rw [show r.bodyAfter .unread .form = if r.formKind?.isSome then .consumed else .unread from rfl]
          cases hform : r.formKind?.isSome with
          | true =>
              rw [if_pos rfl, r.bodyAfterAll_of_fixed r.bodyAfter_consumed]
              simp
          | false => rw [if_neg Bool.false_ne_true, ih, hform]; simp
      | _ => rw [show r.bodyAfter .unread _ = .unread from rfl, ih]; simp

/-- As long as the body is not gone for JSON, what is read does not depend on its state. -/
theorem read_eq_unread {state : BodyState} {t : Target} (h : t = .json → state ≠ .consumed)
    (params : List (Value × Value)) (inApplication : Bool) :
    r.read params state inApplication t = r.read params .unread inApplication t := by
  cases t with
  | json =>
      show (if state = .consumed then .error .bodyConsumed else r.jsonBody) = _
      rw [if_neg (h rfl)]
      rfl
  | _ => rfl

end Http.Request

namespace Routing

open Http

/-- Every validation that lets a request pass has read its target, and no other stage reads anything. -/
theorem body_run {stage : Stage} {c c' : Context} (h : runIn stage.run c = (.ok .proceed, c')) :
    c'.body = c.request.bodyAfterAll c.body stage.target?.toList := by
  cases stage with
  | validation stage =>
      obtain ⟨outcome, c₁, hvalidate, h⟩ := runIn_bind_eq_ok h
      obtain ⟨passage, c₂, hconsult, h⟩ := runIn_bind_eq_ok h
      rw [ValidationStage.runIn_validate] at hvalidate
      obtain ⟨-, rfl⟩ := Prod.mk.inj hvalidate
      cases passage with
      | stop response => cases h
      | proceed =>
          obtain ⟨data, rfl, rfl⟩ := ValidationStage.settle_proceed h
          cases hhook : stage.hook with
          | none =>
              rw [ValidationStage.runIn_consult_none hhook] at hconsult
              obtain ⟨-, rfl⟩ := Prod.mk.inj hconsult
              rfl
          | some hook =>
              rw [ValidationStage.runIn_consult_some hhook] at hconsult
              obtain ⟨-, rfl⟩ := Prod.mk.inj hconsult
              rfl
  | description d =>
      obtain ⟨-, rfl⟩ := Prod.mk.inj h
      rfl
  | custom run =>
      rw [Stage.run, runIn_call] at h
      obtain ⟨-, rfl⟩ := Prod.mk.inj h
      rfl
  | value v => cases h

/-- The state of the body follows from the targets that the stages have validated. -/
theorem body_of_passes {stages : List Stage} {c c' : Context} (h : Passes stages c c') :
    c'.body = c.request.bodyAfterAll c.body (targets stages) := by
  induction h with
  | nil c => rfl
  | @cons stage rest c c₁ c' head tail ih =>
      have htargets : targets (stage :: rest) = stage.target?.toList ++ targets rest := by
        rw [targets, List.filterMap_cons]
        cases stage.target? <;> rfl
      rw [ih, (sameInput_run head).1, body_run head, htargets, Request.bodyAfterAll_append]

/-- A body that is gone for JSON is no input to validate: reading it is a fault, whatever the hook. -/
theorem ValidationStage.run_of_consumed {stage : ValidationStage} {c : Context} (htarget : stage.target = .json)
    (hbody : c.body = .consumed) : runIn stage.run c = (.error .bodyConsumed, c) := by
  unfold run
  refine runIn_bind_error ?_ _
  have hread : c.request.read c.params c.body true stage.target = .error .bodyConsumed := by
    rw [htarget, hbody]
    rfl
  rw [runIn_validate, hread, hbody, Request.bodyAfter_consumed, ← hbody]

end Routing

end ApiContract
