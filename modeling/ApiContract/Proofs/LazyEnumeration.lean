import ApiContract.Proofs.RefinementVisits

/-!
# Asking for the first records only

Who asks for `n` records sees the beginning of an enumeration that ends with the `n`-th record
(`Trace.events_take_of_split`). What stands behind it has not been evaluated: if the predicates are replaced
by others that give the same answers to the calls in this beginning, the beginning stays as it is, whatever
they answer elsewhere (`Schema.lazily_run`). In particular `check` depends on no predicate call behind the
first record.
-/

namespace ApiContract

/-! ### Beginnings -/

namespace Trace

@[simp] theorem take_zero (t : Trace) : t.take 0 = .empty := by
  rw [take]
  cases t.events <;> rfl

theorem takeEvents_prefix (fault : Option Fault) (n : Nat) (es : List Event) :
    (takeEvents fault n es).events <+: es := by
  induction es generalizing n with
  | nil => cases n <;> exact List.prefix_refl _
  | cons e es ih =>
      cases n with
      | zero => exact List.nil_prefix
      | succ n =>
          cases e with
          | call p v => exact (List.cons_prefix_cons).mpr ⟨rfl, ih (n + 1)⟩
          | record r => exact (List.cons_prefix_cons).mpr ⟨rfl, ih n⟩

theorem events_take_prefix (t : Trace) (n : Nat) : (t.take n).events <+: t.events :=
  takeEvents_prefix t.fault n t.events

theorem calls_take_prefix (t : Trace) (n : Nat) : (t.take n).calls <+: t.calls :=
  (t.events_take_prefix n).filterMap _

theorem takeEvents_append {before : List Event} (fault : Option Fault) {n : Nat}
    (h : (recordsOf before).length < n) (after : List Event) :
    takeEvents fault n (before ++ after) =
      ⟨before ++ (takeEvents fault (n - (recordsOf before).length) after).events,
        (takeEvents fault (n - (recordsOf before).length) after).fault⟩ := by
  induction before generalizing n with
  | nil => rfl
  | cons e before ih =>
      obtain ⟨n, rfl⟩ := Nat.exists_eq_succ_of_ne_zero (Nat.ne_zero_of_lt h)
      cases e with
      | call p v =>
          rw [List.cons_append, takeEvents, ih h]
          rfl
      | record r =>
          have hlt : (recordsOf before).length < n := Nat.lt_of_succ_lt_succ h
          rw [List.cons_append, takeEvents, ih hlt, recordsOf_record, List.length_cons,
            Nat.succ_sub_succ]
          rfl

/-- The beginning up to the `n`-th record ends with this record. -/
theorem events_take_of_split {t : Trace} {before after : List Event} {r : ErrorRecord}
    (h : t.events = before ++ .record r :: after) :
    (t.take ((recordsOf before).length + 1)).events = before ++ [.record r] := by
  rw [take, h, takeEvents_append _ (Nat.lt_succ_self _), Nat.succ_sub (Nat.le_refl _), Nat.sub_self]
  cases after <;> rfl

/-- Who asks for more records than there are sees everything. -/
theorem take_of_length_lt {t : Trace} {n : Nat} (h : t.records.length < n) : t.take n = t := by
  obtain ⟨k, hk⟩ := Nat.exists_eq_succ_of_ne_zero (Nat.sub_ne_zero_of_lt h)
  have hall := takeEvents_append t.fault h []
  rw [List.append_nil] at hall
  rw [take, hall]
  show (⟨t.events ++ (takeEvents t.fault (n - t.records.length) []).events, _⟩ : Trace) = t
  rw [show (recordsOf t.events).length = t.records.length from rfl, hk]
  show (⟨t.events ++ [], t.fault⟩ : Trace) = t
  rw [List.append_nil]

theorem takeEvents_append_left {before : List Event} (fault fault' : Option Fault) {n : Nat}
    (h : n ≤ (recordsOf before).length) (after : List Event) :
    takeEvents fault n (before ++ after) = takeEvents fault' n before := by
  induction before generalizing n with
  | nil =>
      obtain rfl := Nat.le_zero.mp h
      exact take_zero ⟨after, fault⟩
  | cons e before ih =>
      cases n with
      | zero => rfl
      | succ n =>
          cases e with
          | call p v => rw [List.cons_append, takeEvents, takeEvents, ih h]
          | record r => rw [List.cons_append, takeEvents, takeEvents, ih (Nat.le_of_succ_le_succ h)]

theorem take_of_length_take_lt {t : Trace} {n : Nat} (h : (t.take n).records.length < n) : t.take n = t := by
  rw [records_take, List.length_take] at h
  exact take_of_length_lt (by omega)

/-- The beginning of a sequence reaches into the second trace if the first has too few records. -/
theorem take_append {a : Trace} (hfault : a.fault = none) {n : Nat} (h : a.records.length < n) (b : Trace) :
    (a ++ b).take n = a ++ b.take (n - a.records.length) := by
  rw [append_of_no_fault hfault, append_of_no_fault hfault, take, takeEvents_append b.fault h]
  rfl

theorem take_append_left {a : Trace} {n : Nat} (h : n ≤ a.records.length) (b : Trace) :
    (a ++ b).take n = a.take n := by
  cases hfault : a.fault with
  | some f => rw [append_of_fault hfault]
  | none =>
      rw [append_of_no_fault hfault]
      exact takeEvents_append_left b.fault a.fault h b.events

/-! ### Other answers -/

end Trace

/-- The predicate with other answers. -/
def Predicate.answering (g : Predicate → Value → Except Fault Bool) (p : Predicate) : Predicate :=
  { p with holds := g p }

/-- The event with the predicate of other answers. -/
def Event.answering (g : Predicate → Value → Except Fault Bool) : Event → Event
  | .call p v => .call (p.answering g) v
  | .record r => .record r

namespace Trace

variable {g : Predicate → Value → Except Fault Bool}

/-- The same trace of predicates with other answers. -/
def answering (g : Predicate → Value → Except Fault Bool) (t : Trace) : Trace :=
  ⟨t.events.map (Event.answering g), t.fault⟩

theorem answering_append (a b : Trace) : (a ++ b).answering g = a.answering g ++ b.answering g := by
  cases hfault : a.fault with
  | some f => rw [append_of_fault hfault, append_of_fault (a := a.answering g) hfault]
  | none =>
      rw [append_of_no_fault hfault, append_of_no_fault (a := a.answering g) hfault, answering,
        List.map_append]
      rfl

@[simp] theorem records_answering (t : Trace) : (t.answering g).records = t.records := by
  obtain ⟨es, fault⟩ := t
  show recordsOf (es.map (Event.answering g)) = recordsOf es
  induction es with
  | nil => rfl
  | cons e es ih =>
      cases e with
      | call p v => exact ih
      | record r => exact congrArg (r :: ·) ih

theorem isClean_answering (t : Trace) : (t.answering g).isClean = t.isClean := by
  rw [isClean, isClean, records_answering]
  rfl

theorem toExcept_answering (t : Trace) : (t.answering g).toExcept = t.toExcept := by
  rw [toExcept, toExcept, records_answering]
  rfl

theorem answering_of_calls_eq_nil {t : Trace} (h : t.calls = []) : t.answering g = t := by
  obtain ⟨es, fault⟩ := t
  have hevents : es.map (Event.answering g) = es := by
    induction es with
    | nil => rfl
    | cons e es ih =>
        cases e with
        | call p v => cases h
        | record r => exact congrArg (.record r :: ·) (ih h)
  rw [answering, hevents]

/-- The answers to the calls of a trace are the same. -/
def Agrees (g : Predicate → Value → Except Fault Bool) (t : Trace) : Prop :=
  ∀ c ∈ t.calls, g c.1 c.2 = c.1.holds c.2

instance (t : Trace) : Decidable (Agrees g t) :=
  inferInstanceAs (Decidable (∀ c ∈ t.calls, g c.1 c.2 = c.1.holds c.2))

theorem agrees_append_iff {a b : Trace} (hfault : a.fault = none) :
    Agrees g (a ++ b) ↔ Agrees g a ∧ Agrees g b := by
  rw [append_of_no_fault hfault, Agrees, calls, List.filterMap_append, List.forall_mem_append]
  rfl

/-- A predicate is called on the value, and then its answer is reported. -/
theorem checkPredicate_eq (p : Predicate) (message : String) (v : Value) (path : String) :
    Validator.checkPredicate p message v path =
      ⟨[.call p v], none⟩ ++ reportWhen ((p.holds v).map (!·)) path (.refinement message) := by
  unfold Validator.checkPredicate
  cases p.holds v with
  | error f => rfl
  | ok b => cases b <;> rfl

/-- Each beginning of a trace is that of another, but for other answers, if the answers to the calls in this
beginning are the same. -/
def Lazily (g : Predicate → Value → Except Fault Bool) (t t' : Trace) : Prop :=
  ∀ n, Agrees g (t.take n) → t'.take n = (t.take n).answering g

namespace Lazily

variable {t t' a a' b b' : Trace}

theorem own (h : t.calls = []) : Lazily g t t := by
  intro n _
  have hcalls : (t.take n).calls = [] := List.prefix_nil.mp (h ▸ t.calls_take_prefix n)
  exact (answering_of_calls_eq_nil hcalls).symm

/-- Where the beginning is already the whole, the other trace is the same but for the answers. -/
theorem eq_answering (h : Lazily g t t') {n : Nat} (hn : t.records.length < n) (hagrees : Agrees g t) :
    t' = t.answering g := by
  have htake := h n (by rwa [take_of_length_lt hn])
  rw [take_of_length_lt hn] at htake
  rw [← htake]
  refine (take_of_length_take_lt ?_).symm
  rw [htake, records_answering]
  exact hn

/-- If the other trace has fewer records than are asked for, so has the first. -/
theorem length_lt (h : Lazily g t t') {n : Nat} (hagrees : Agrees g (t.take n))
    (hn : t'.records.length < n) : t.take n = t ∧ t' = t.answering g := by
  have htake := h n hagrees
  rw [take_of_length_lt hn] at htake
  have hshort : (t.take n).records.length < n := by
    rw [← records_answering (g := g), ← htake]
    exact hn
  have hall := take_of_length_take_lt hshort
  rw [hall] at htake
  exact ⟨hall, htake⟩

theorem append (ha : Lazily g a a') (hb : Lazily g b b') : Lazily g (a ++ b) (a' ++ b') := by
  intro n hagrees
  by_cases hreaches : a.fault = none ∧ a.records.length < n
  · -- the beginning reaches into the second trace, and the whole of the first has been evaluated
    obtain ⟨hfault, hlength⟩ := hreaches
    rw [take_append hfault hlength] at hagrees ⊢
    obtain ⟨hagrees, hrest⟩ := (agrees_append_iff hfault).mp hagrees
    obtain rfl := ha.eq_answering hlength hagrees
    rw [take_append (a := a.answering g) hfault (by rwa [records_answering]), records_answering, hb _ hrest,
      answering_append]
  · -- the beginning lies in the first trace, also where the answers differ behind it
    have hleft : (a ++ b).take n = a.take n := by
      cases hfault : a.fault with
      | some f => rw [append_of_fault hfault]
      | none => exact take_append_left (by simpa [hfault] using hreaches) b
    rw [hleft] at hagrees ⊢
    rw [← ha n hagrees]
    cases hfault : a'.fault with
    | some f => rw [append_of_fault hfault]
    | none =>
        refine take_append_left (Nat.not_lt.mp fun hlength => hreaches ?_) b'
        obtain ⟨hall, rfl⟩ := ha.length_lt hagrees hlength
        exact ⟨hfault, by rwa [records_answering] at hlength⟩

theorem joinable : Joinable (Lazily g) := ⟨own rfl, append⟩

/-- The predicate is called before its answer matters. -/
theorem checkPredicate (p : Predicate) (message : String) (v : Value) (path : String) :
    Lazily g (Validator.checkPredicate p message v path)
      (Validator.checkPredicate (p.answering g) message v path) := by
  intro n hagrees
  rw [checkPredicate_eq] at hagrees
  rw [checkPredicate_eq, checkPredicate_eq]
  cases n with
  | zero =>
      rw [take_zero, take_zero]
      rfl
  | succ n =>
      have hshort (p : Predicate) : (⟨[.call p v], none⟩ : Trace).records.length < n + 1 := Nat.succ_pos n
      rw [take_append rfl (hshort _)] at hagrees ⊢
      have hanswer : g p v = p.holds v :=
        ((agrees_append_iff rfl).mp hagrees).1 (p, v) List.mem_cons_self
      have hcalls : (reportWhen ((p.holds v).map (!·)) path (.refinement message)).calls = [] :=
        closed_calls.reportWhen (calls_report path _) fun fault _ => calls_failed fault
      rw [take_append rfl (hshort _), answering_append, ← own hcalls _ ((agrees_append_iff rfl).mp hagrees).2]
      show _ ++ (reportWhen ((g p v).map (!·)) path (.refinement message)).take (n + 1) = _
      rw [hanswer]
      rfl

/-- A predicate behind a base is called if the base is clean, which is known before it is called. -/
theorem refined (h : Lazily g a a') (hb : Lazily g b b') :
    Lazily g (if a.isClean then a ++ b else a) (if a'.isClean then a' ++ b' else a') := by
  intro n hagrees
  cases n with
  | zero =>
      rw [take_zero, take_zero]
      rfl
  | succ n =>
      cases hclean : a.isClean with
      | true =>
          rw [if_pos hclean] at hagrees
          have hwhole := hagrees
          obtain ⟨hfault, hnone⟩ := (isClean_iff a).mp hclean
          have hshort : a.records.length < n + 1 := by
            rw [hnone]
            exact Nat.succ_pos n
          rw [take_append hfault hshort] at hagrees
          have hbase := h.eq_answering hshort ((agrees_append_iff hfault).mp hagrees).1
          have hclean' : a'.isClean = true := by rw [hbase, isClean_answering, hclean]
          rw [if_pos hclean']
          exact h.append hb (n + 1) hwhole
      | false =>
          rw [hclean, if_neg Bool.false_ne_true] at hagrees
          have hclean' : ¬ a'.isClean = true := by
            intro hclean'
            have hshort : a'.records.length < n + 1 := by
              rw [((isClean_iff a').mp hclean').2]
              exact Nat.succ_pos n
            rw [(h.length_lt hagrees hshort).2, isClean_answering, hclean] at hclean'
            cases hclean'
          rw [if_neg hclean']
          exact h (n + 1) hagrees

end Lazily

end Trace

/-! ### Runs -/

namespace Validator

mutual
/-- The validator with predicates of other answers. -/
def answering (g : Predicate → Value → Except Fault Bool) : Validator → Validator
  | .array rule items => .array rule (items.answering g)
  | .object rule properties => .object rule (answeringAmong g properties)
  | .nullable inner => .nullable (inner.answering g)
  | .refined p message base => .refined (p.answering g) message (base.answering g)
  | v => v
termination_by structural v => v

def answeringAmong (g : Predicate → Value → Except Fault Bool) :
    List (String × Validator) → List (String × Validator)
  | [] => []
  | (name, child) :: rest => (name, child.answering g) :: answeringAmong g rest
termination_by structural ps => ps
end

variable {g : Predicate → Value → Except Fault Bool}

theorem answeringAmong_eq (properties : List (String × Validator)) :
    answeringAmong g properties = properties.map fun c => (c.1, c.2.answering g) := by
  induction properties with
  | nil => rfl
  | cons c properties ih => exact congrArg ((c.1, c.2.answering g) :: ·) ih

theorem keys_answeringAmong (properties : List (String × Validator)) :
    (answeringAmong g properties).map (·.1) = properties.map (·.1) := by
  rw [answeringAmong_eq, List.map_map]
  rfl

theorem lazily_propertyTrace {rule : ObjectRule} {entries : List (Value × Value)} {path : String}
    {c : String × Validator}
    (h : ∀ v place, Trace.Lazily g (c.2.run v place) ((c.2.answering g).run v place)) :
    Trace.Lazily g (propertyTrace rule entries path c)
      (propertyTrace rule entries path (c.1, c.2.answering g)) := by
  unfold propertyTrace
  cases Value.lookup? (.str c.1) entries with
  | some v => exact h v _
  | none => exact .own (Trace.closed_calls.reportIf (Trace.calls_report _ _))

end Validator

namespace Schema

open Trace Validator

variable {g : Predicate → Value → Except Fault Bool} {s : Schema} {origin : String} {validator : Validator}

/-- **What is behind the records that are asked for is not evaluated.** -/
theorem lazily_run (h : s.compileAt origin = .ok validator) (v : Value) (path : String) :
    Lazily g (validator.run v path) ((validator.answering g).run v path) := by
  induction s using Schema.induction generalizing origin validator v path with
  | string a f =>
      obtain ⟨rule, hrule, rfl⟩ := compileAt_string h
      exact .own (calls_run_string hrule v path)
  | number a f =>
      obtain rfl := compileAt_number h
      exact .own (calls_run_number false f v path)
  | integer a f =>
      obtain rfl := compileAt_integer h
      exact .own (calls_run_number true f v path)
  | boolean a =>
      obtain rfl := compileAt_boolean h
      exact .own (calls_run_boolean v path)
  | array a f items ih =>
      obtain ⟨rule, child, hrule, hchild, rfl⟩ := compileAt_array h
      rw [Validator.answering, run, run]
      cases v.items? with
      | none => exact .own (calls_wrongType path _ _)
      | some xs =>
          dsimp only
          rw [List.mapIdx_eq_zipIdx_map, List.mapIdx_eq_zipIdx_map]
          exact .append (.own (calls_checkItems hrule xs path)) (Lazily.joinable.concat_map fun e _ => ih hchild _ _)
  | object a f ps ih =>
      obtain ⟨children, hchildren, rfl⟩ := compileAt_object h
      cases v with
      | dict entries =>
          rw [Validator.answering, run, run, keys_answeringAmong, runProperties_eq, runProperties_eq,
            answeringAmong_eq, List.map_map]
          refine .append (Lazily.joinable.concat_map fun c hc => lazily_propertyTrace fun w place => ?_)
            (.own (calls_undeclared _ _ _ _))
          obtain ⟨p, hp, -, hcompiled⟩ := exists_left_of_forall₂ hchildren hc
          exact ih p hp hcompiled w place
      | _ => exact .own (calls_wrongType path _ _)
  | nullable a inner ih =>
      obtain ⟨child, hchild, rfl⟩ := compileAt_nullable h
      cases v with
      | null => exact .own rfl
      | _ => exact ih hchild _ path
  | refined a r base ih =>
      obtain ⟨p, message, child, -, -, hchild, rfl⟩ := compileAt_refined h
      rw [Validator.answering, run, run]
      exact .refined (ih hchild v path) (.checkPredicate p message v path)
  | bare a => exact absurd h compileAt_bare_ne
  | foreign w => exact absurd h compileAt_foreign_ne

/-- **Predicates are called by visits to refined nodes only, and only as far as records are asked for.** The
events of an enumeration are what the visits add, in order, and the records that the schema has without
refinements. Who asks for `n` records meets the beginning that ends with the `n`-th record, and all of it if
there are fewer. No answer of a predicate behind this beginning matters, whatever it is or if there is none;
in particular none behind the first record matters to `check`. -/
theorem predicate_calls {v : Value} {records : List ErrorRecord} (h : s.compile = .ok validator)
    (herrors : validator.errors v = .ok records) :
    (∃ own, validator.unrefined.errors v = .ok own ∧
      Interleaved (s.visits v "") own (validator.trace v).events) ∧
    (∀ n, ((validator.trace v).take n).records = records.take n ∧
      ((validator.trace v).take n).calls <+: (validator.trace v).calls) ∧
    ((validator.trace v).take 0).events = [] ∧
    (∀ before r after, (validator.trace v).events = before ++ .record r :: after →
      ((validator.trace v).take ((recordsOf before).length + 1)).events = before ++ [.record r]) ∧
    (∀ n, records.length < n → (validator.trace v).take n = validator.trace v) ∧
    (∀ g n, Agrees g ((validator.trace v).take n) →
      ((validator.answering g).trace v).take n = ((validator.trace v).take n).answering g) ∧
    ∀ g, Agrees g ((validator.trace v).take 1) → (validator.answering g).check v = validator.check v := by
  obtain ⟨hfault, rfl⟩ := toExcept_eq_ok_iff.mp herrors
  have hseparated : Separated (s.visits v "") (validator.unrefined.trace v) (validator.trace v) :=
    separated_run h hfault
  have hlazily (g : Predicate → Value → Except Fault Bool) :
      Lazily g (validator.trace v) ((validator.answering g).trace v) :=
    lazily_run h v ""
  refine ⟨⟨_, toExcept_eq_ok_iff.mpr ⟨hseparated.fault, rfl⟩, hseparated.events⟩, fun n => ?_, ?_,
    fun _ _ _ => events_take_of_split, fun _ => take_of_length_lt, hlazily, fun g hagrees => ?_⟩
  · exact ⟨records_take _ n, calls_take_prefix _ n⟩
  · rw [take_zero]
    rfl
  · rw [check, check, hlazily g 1 hagrees, toExcept_answering]

/-- Whether a number is even. -/
def isEven : Predicate := ⟨"is_even", "is_even", .null, fun v => isMultiple v (.int 2)⟩

/-- Whether a number is below ten. -/
def isBelowTen : Predicate := ⟨"below_ten", "below_ten", .null, fun v => v.isLess (.int 10)⟩

/-- Scores, which are even, and below ten as well. -/
def scores : Schema :=
  .object {} {} [
    (.str "scores", .array {} {} (.refined {} ⟨.predicate isBelowTen, .str "must be below ten", none⟩
      (.refined {} ⟨.predicate isEven, .str "must be even", none⟩
        (.integer {} { minimum := some (.int 0) }))))]

/-- The validator of scores. -/
def scoresValidator : Validator :=
  .object ⟨["scores"], false⟩ [
    ("scores", .array ⟨none, none, false⟩ (.refined isBelowTen "must be below ten"
      (.refined isEven "must be even" (.number ⟨true, some (.int 0), none, none, none, none, none⟩))))]

/-- A negative, an odd and a large number among good ones. -/
def scored : Value := .record [("scores", .list [.int 4, .int (-2), .int 3, .int 12, .int 6])]

/-- Answers for the first score; every other question is a failure. -/
def answersFirst (p : Predicate) (v : Value) : Except Fault Bool :=
  if v.same (.int 4) then p.holds v else .error (.raised "too far")

/-- The predicates are asked about four, and behind the negative number nobody asks about its fellows. -/
theorem predicate_calls_scores :
    scores.compile = .ok scoresValidator ∧
      (∃ records, scoresValidator.errors scored = .ok records ∧ records.length = 3) ∧
      (∃ own, scoresValidator.unrefined.errors scored = .ok own ∧
        Interleaved (scores.visits scored "") own (scoresValidator.trace scored).events) ∧
      ((scoresValidator.trace scored).calls.map fun c => (c.1.name, c.2.plain)) =
        [("is_even", .ok "4"), ("below_ten", .ok "4"), ("is_even", .ok "3"), ("is_even", .ok "12"),
          ("below_ten", .ok "12"), ("is_even", .ok "6"), ("below_ten", .ok "6")] ∧
      (scoresValidator.answering answersFirst).check scored = scoresValidator.check scored := by
  have hcompile : scores.compile = .ok scoresValidator := rfl
  have herrors : scoresValidator.errors scored = .ok [
      ⟨"scores.1", "Value must be >= 0"⟩, ⟨"scores.2", "must be even"⟩,
      ⟨"scores.3", "must be below ten"⟩] := by
    decide +kernel
  obtain ⟨hvisits, -, -, -, -, -, hcheck⟩ := predicate_calls hcompile herrors
  refine ⟨hcompile, ⟨_, herrors, rfl⟩, hvisits, by decide +kernel, hcheck answersFirst (by decide +kernel)⟩

end Schema

end ApiContract
