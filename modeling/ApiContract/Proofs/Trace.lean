import ApiContract.Validation.Check

/-!
# Clean traces

A trace is clean if it holds neither a record nor a fault. The lemmas say of every way to build a trace
when the result is clean, so that what a validator accepts can be read off its parts. The first `n`
records of a trace determine what has happened when they have been asked for (`records_take`,
`fault_take`); in particular one record is enough to know whether a trace is clean
(`take_one_isEmpty_iff`).
-/

namespace ApiContract.Trace

theorem append_def (a b : Trace) : a ++ b = a.append b := rfl

/-! ### Records and faults of a sequence -/

theorem append_of_fault {a : Trace} {f : Fault} (h : a.fault = some f) (b : Trace) : a ++ b = a := by
  rw [append_def, append, h]

theorem append_of_no_fault {a : Trace} (h : a.fault = none) (b : Trace) :
    a ++ b = ⟨a.events ++ b.events, b.fault⟩ := by
  rw [append_def, append, h]

theorem fault_append_eq_none_iff (a b : Trace) :
    (a ++ b).fault = none ↔ a.fault = none ∧ b.fault = none := by
  cases h : a.fault with
  | some f => simp [append_of_fault h, h]
  | none => simp [append_of_no_fault h]

@[simp] theorem recordsOf_nil : recordsOf [] = [] := rfl

@[simp] theorem recordsOf_record (r : ErrorRecord) (es : List Event) :
    recordsOf (.record r :: es) = r :: recordsOf es := rfl

@[simp] theorem recordsOf_call (p : Predicate) (v : Value) (es : List Event) :
    recordsOf (.call p v :: es) = recordsOf es := rfl

@[simp] theorem recordsOf_append (es fs : List Event) :
    recordsOf (es ++ fs) = recordsOf es ++ recordsOf fs :=
  List.filterMap_append

theorem records_append {a : Trace} (h : a.fault = none) (b : Trace) :
    (a ++ b).records = a.records ++ b.records := by
  rw [append_of_no_fault h]
  exact recordsOf_append a.events b.events

/-- A record of a sequence is one of its first part, or one of the second if the first has no fault. -/
theorem mem_records_append {a b : Trace} {r : ErrorRecord} :
    r ∈ (a ++ b).records ↔ r ∈ a.records ∨ a.fault = none ∧ r ∈ b.records := by
  cases h : a.fault with
  | some f => simp [append_of_fault h]
  | none => simp [records_append h]

/-! ### Clean traces -/

theorem isClean_iff (t : Trace) : t.isClean = true ↔ t.fault = none ∧ t.records = [] := by
  simp [isClean]

@[simp] theorem isClean_empty : empty.isClean = true := rfl

@[simp] theorem isClean_failed (f : Fault) : (failed f).isClean = false := rfl

@[simp] theorem isClean_append (a b : Trace) : (a ++ b).isClean = (a.isClean && b.isClean) := by
  cases h : a.fault with
  | some f => simp [append_of_fault h, isClean, h]
  | none =>
      rw [append_of_no_fault h, Bool.eq_iff_iff]
      simp only [Bool.and_eq_true, isClean_iff, records, recordsOf_append, h]
      simp [and_left_comm]

@[simp] theorem isClean_report (path : String) (v : Violation) : (report path v).isClean = false := by
  unfold report
  cases v.message with
  | ok m => rfl
  | error f => rfl

@[simp] theorem isClean_reportIf (holds : Bool) (path : String) (v : Violation) :
    (reportIf holds path v).isClean = !holds := by
  cases holds <;> simp [reportIf]

theorem isClean_reportWhen {holds : Except Fault Bool} {path : String} {v : Violation} :
    (reportWhen holds path v).isClean = true ↔ holds = .ok false := by
  cases holds with
  | ok b => simp [reportWhen]
  | error f => simp [reportWhen]

theorem isClean_concat {ts : List Trace} :
    (concat ts).isClean = true ↔ ∀ t ∈ ts, t.isClean = true := by
  induction ts with
  | nil => simp [concat]
  | cons t ts ih => simp [concat, ih]

/-- The list of all records is empty exactly if the trace is clean. -/
theorem toExcept_eq_nil_iff (t : Trace) : t.toExcept = .ok [] ↔ t.isClean = true := by
  rw [isClean_iff]
  cases h : t.fault with
  | some f => simp [toExcept, h]
  | none => simp [toExcept, h]

/-! ### Beginnings of a trace -/

theorem takeEvents_spec (fault : Option Fault) (n : Nat) (events : List Event) :
    recordsOf (takeEvents fault n events).events = (recordsOf events).take n ∧
      (takeEvents fault n events).fault =
        if (recordsOf events).length < n then fault else none := by
  induction events generalizing n with
  | nil => cases n <;> simp [takeEvents, empty]
  | cons e es ih =>
      cases n with
      | zero => simp [takeEvents, empty]
      | succ n =>
          cases e with
          | call p v =>
              -- a call is not counted
              exact ih (n + 1)
          | record r => simpa [takeEvents] using ih n

/-- Asking for `n` records gives the first `n` of all. -/
@[simp] theorem records_take (t : Trace) (n : Nat) : (t.take n).records = t.records.take n :=
  (takeEvents_spec t.fault n t.events).1

/-- The fault at the end of a trace is met only by who asks for more records than there are. -/
theorem fault_take (t : Trace) (n : Nat) :
    (t.take n).fault = if t.records.length < n then t.fault else none :=
  (takeEvents_spec t.fault n t.events).2

/-- The first record decides whether a trace is clean. -/
theorem take_one_isEmpty_iff (t : Trace) :
    (t.take 1).toExcept.map (·.isEmpty) = .ok true ↔ t.isClean = true := by
  rw [isClean_iff, toExcept, fault_take, records_take]
  cases hr : t.records with
  | nil => cases hf : t.fault <;> simp [Except.map]
  | cons r rs => simp [Except.map]

/-- Where all records can be listed, the first one can. -/
theorem take_one_of_toExcept {t : Trace} {rs : List ErrorRecord} (h : t.toExcept = .ok rs) :
    (t.take 1).toExcept.map (·.isEmpty) = .ok rs.isEmpty := by
  unfold toExcept at h
  cases hf : t.fault with
  | some f => simp [hf] at h
  | none =>
      simp only [hf, Except.ok.injEq] at h
      subst h
      rw [toExcept, fault_take, records_take, hf, ite_self]
      cases t.records <;> simp [Except.map]

end ApiContract.Trace
