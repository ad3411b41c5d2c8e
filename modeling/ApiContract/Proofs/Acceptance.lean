import ApiContract.Normalization.Pipeline
import ApiContract.Proofs.Satisfaction

/-!
# What a run of the pipeline says

A value leaves the pipeline if the three stages before the check have produced it and the check finds
nothing in it (`apply_eq_success_iff`). Where the check finds something, its records are what leaves the
pipeline (`apply_eq_failure_iff`).
-/

namespace ApiContract

/-- The violations that a result lists. -/
def Outcome.errors : Outcome → List ErrorRecord
  | .success _ => []
  | .failure errors => errors

namespace Pipeline

theorem outcome_eq_success_iff {r : Run} {data : Value} :
    r.outcome = .ok (.success data) ↔ r.trace.isClean = true ∧ r.converted = data := by
  unfold Run.outcome
  rw [← Trace.toExcept_eq_nil_iff]
  cases r.trace.toExcept with
  | error f =>
      constructor
      · rintro ⟨⟩
      · rintro ⟨⟨⟩, -⟩
  | ok records =>
      cases records with
      | nil =>
          constructor
          · rintro ⟨⟩
            exact ⟨rfl, rfl⟩
          · rintro ⟨-, rfl⟩
            rfl
      | cons record rest =>
          constructor
          · rintro ⟨⟩
          · rintro ⟨⟨⟩, -⟩

/-- A run succeeds with the value that cleaning, filling and conversion have produced, if the validator
finds nothing in it. -/
theorem apply_eq_success_iff {p : Pipeline} {t : Target} {raw data : Value} :
    p.apply t raw = .ok (.success data) ↔
      ∃ cleaned, p.schema.cleanFor (some t) raw = .ok cleaned ∧
        p.schema.convertFor (some t) (nullIfAbsent (p.schema.applyDefaults cleaned)) = .ok data ∧
        (p.validator.trace data).isClean = true := by
  unfold apply run
  simp only [bind_eq_ok_iff, outcome_eq_success_iff]
  constructor
  · rintro ⟨r, ⟨cleaned, hclean, converted, hconvert, hr⟩, htrace, rfl⟩
    obtain rfl := Except.ok.inj hr
    exact ⟨cleaned, hclean, hconvert, htrace⟩
  · rintro ⟨cleaned, hclean, hconvert, htrace⟩
    exact ⟨_, ⟨cleaned, hclean, data, hconvert, rfl⟩, htrace, rfl⟩

theorem outcome_eq_failure_iff {r : Run} {records : List ErrorRecord} :
    r.outcome = .ok (.failure records) ↔ r.trace.toExcept = .ok records ∧ records ≠ [] := by
  unfold Run.outcome
  cases r.trace.toExcept with
  | error f =>
      constructor
      · rintro ⟨⟩
      · rintro ⟨⟨⟩, -⟩
  | ok found =>
      cases found with
      | nil =>
          constructor
          · rintro ⟨⟩
          · rintro ⟨⟨⟩, hne⟩
            exact absurd rfl hne
      | cons record rest =>
          constructor
          · rintro ⟨⟩
            exact ⟨rfl, by simp⟩
          · rintro ⟨⟨⟩, -⟩
            rfl

/-- A run fails with the records that the validator finds in the value that cleaning, filling and
conversion have produced. -/
theorem apply_eq_failure_iff {p : Pipeline} {t : Target} {raw : Value} {records : List ErrorRecord} :
    p.apply t raw = .ok (.failure records) ↔
      ∃ cleaned converted, p.schema.cleanFor (some t) raw = .ok cleaned ∧
        p.schema.convertFor (some t) (nullIfAbsent (p.schema.applyDefaults cleaned)) = .ok converted ∧
        (p.validator.trace converted).toExcept = .ok records ∧ records ≠ [] := by
  unfold apply run
  simp only [bind_eq_ok_iff, outcome_eq_failure_iff]
  constructor
  · rintro ⟨r, ⟨cleaned, hclean, converted, hconvert, hr⟩, htrace, hne⟩
    obtain rfl := Except.ok.inj hr
    exact ⟨cleaned, converted, hclean, hconvert, htrace, hne⟩
  · rintro ⟨cleaned, converted, hclean, hconvert, htrace, hne⟩
    exact ⟨_, ⟨cleaned, hclean, converted, hconvert, rfl⟩, htrace, hne⟩

/-- A run that ends lists what the validator finds in the value before the check. -/
theorem errors_of_apply {p : Pipeline} {t : Target} {raw : Value} {outcome : Outcome}
    (h : p.apply t raw = .ok outcome) :
    ∃ cleaned converted, p.schema.cleanFor (some t) raw = .ok cleaned ∧
      p.schema.convertFor (some t) (nullIfAbsent (p.schema.applyDefaults cleaned)) = .ok converted ∧
      (p.validator.trace converted).toExcept = .ok outcome.errors := by
  cases outcome with
  | success data =>
      obtain ⟨cleaned, hclean, hconvert, htrace⟩ := apply_eq_success_iff.mp h
      exact ⟨cleaned, data, hclean, hconvert, (Trace.toExcept_eq_nil_iff _).mpr htrace⟩
  | failure records =>
      obtain ⟨cleaned, converted, hclean, hconvert, htrace, -⟩ := apply_eq_failure_iff.mp h
      exact ⟨cleaned, converted, hclean, hconvert, htrace⟩

/-- A run whose stages succeed and whose check ends without a fault has a result. -/
theorem exists_apply {p : Pipeline} {t : Target} {raw cleaned converted : Value}
    (hclean : p.schema.cleanFor (some t) raw = .ok cleaned)
    (hconvert : p.schema.convertFor (some t) (nullIfAbsent (p.schema.applyDefaults cleaned)) = .ok converted)
    (hfault : (p.validator.trace converted).fault = none) : ∃ outcome, p.apply t raw = .ok outcome := by
  have htrace : (p.validator.trace converted).toExcept = .ok (p.validator.trace converted).records := by
    rw [Trace.toExcept, hfault]
  by_cases hempty : (p.validator.trace converted).records = []
  · refine ⟨.success converted, apply_eq_success_iff.mpr ⟨cleaned, hclean, hconvert, ?_⟩⟩
    rw [← Trace.toExcept_eq_nil_iff, htrace, hempty]
  · exact ⟨.failure _, apply_eq_failure_iff.mpr
      ⟨cleaned, converted, hclean, hconvert, htrace, hempty⟩⟩

/-- The value of a successful run passes the check. -/
theorem check_of_apply {p : Pipeline} {t : Target} {raw data : Value}
    (h : p.apply t raw = .ok (.success data)) : p.validator.check data = .ok true := by
  obtain ⟨-, -, -, htrace⟩ := apply_eq_success_iff.mp h
  exact (Trace.take_one_isEmpty_iff _).mpr htrace

/-- A pipeline made for a schema holds the schema and its validator. -/
theorem ofSchema_eq_ok {s : Schema} {p : Pipeline} (h : ofSchema s = .ok p) :
    p.schema = s ∧ s.compile = .ok p.validator := by
  obtain ⟨validator, hcompile, hp⟩ := bind_eq_ok_iff.mp h
  obtain rfl := Except.ok.inj hp
  exact ⟨rfl, hcompile⟩

end Pipeline

end ApiContract
