import ApiContract.Proofs.ErrorPlaces
import ApiContract.Proofs.Totality
import ApiContract.Proofs.UniqueText

/-!
# Repeated items

An array that is asked for unique items tells them apart by their canonical texts, and two exact JSON values have
the same text exactly if they are equal. So it reports that its items are not unique exactly if two of its positions
hold equal values (`Schema.repeated_mem_records_iff`), unless it has come before to a bound on their number whose
decimal text is too long.
-/

namespace ApiContract

namespace Trace

/-- A report has a fault exactly if its words cannot be formed. -/
theorem fault_report_eq_none_iff {path : String} {violation : Violation} :
    (report path violation).fault = none ↔ ∃ text, violation.message = .ok text := by
  unfold report
  cases violation.message with
  | error f => simp [failed]
  | ok m => simp

end Trace

namespace Validator

open Trace

/-! ### Equal items -/

/-- Two different positions of a row hold values that are equal as JSON. -/
def HasRepeats (xs : List Value) : Prop :=
  ∃ (i j : Nat) (x y : Value), i ≠ j ∧ xs[i]? = some x ∧ xs[j]? = some y ∧ x.jsonEqual y = true

theorem not_hasRepeats_iff {xs : List Value} (hxs : ∀ x ∈ xs, x.IsExactJson) :
    ¬ HasRepeats xs ↔ xs.Pairwise fun x y => x.jsonEqual y = false := by
  rw [List.pairwise_iff_getElem]
  constructor
  · intro h i j hi hj hlt
    rw [Bool.eq_false_iff]
    intro heq
    exact h ⟨i, j, _, _, Nat.ne_of_lt hlt, List.getElem?_eq_getElem hi, List.getElem?_eq_getElem hj, heq⟩
  · rintro hdiffer ⟨i, j, x, y, hne, hx, hy, heq⟩
    obtain ⟨hi, rfl⟩ := List.getElem?_eq_some_iff.mp hx
    obtain ⟨hj, rfl⟩ := List.getElem?_eq_some_iff.mp hy
    rcases Nat.lt_or_gt_of_ne hne with hlt | hgt
    · rw [hdiffer i j hi hj hlt] at heq
      cases heq
    · -- equality does not depend on which of the two is named first
      have hexact := hxs _ (List.getElem_mem hi)
      have hexact' := hxs _ (List.getElem_mem hj)
      have hback := (uniqueKey_eq_iff hexact' hexact).mp ((uniqueKey_eq_iff hexact hexact').mpr heq).symm
      rw [hdiffer j i hj hi hgt] at hback
      cases hback

/-- Items are repeated exactly if it is found that some are. -/
theorem hasRepeats_iff {xs : List Value} (hxs : ∀ x ∈ xs, x.IsExactJson) :
    HasRepeats xs ↔ hasDuplicate xs = .ok true := by
  obtain ⟨repeats, hrun⟩ := Schema.exists_hasDuplicate fun x hx => (hxs x hx).isPrintable
  rw [← not_iff_not, not_hasRepeats_iff hxs, ← nodup_uniqueKeys_iff hxs, ← hasDuplicate_eq_false_iff, hrun]
  cases repeats <;> simp

/-! ### The number of items -/

/-- The words for repeated items. -/
def repeatedText : String := "Array must contain unique items"

/-- The words for a number of items, if the bound that they show has a decimal text. -/
def countText (start : String) (n : Nat) : Except Fault String := do return start ++ (← intText n) ++ " items"

theorem message_tooFewItems (n : Nat) : (Violation.tooFewItems n).message = countText "Array must have at least " n := rfl

theorem message_tooManyItems (n : Nat) : (Violation.tooManyItems n).message = countText "Array must have at most " n := rfl

theorem exists_countText_iff {start : String} {n : Nat} :
    (∃ text, countText start n = .ok text) ↔ Numeral.withinLimit n = true := by
  rw [← intText_eq_ok_iff]
  constructor
  · rintro ⟨text, h⟩
    obtain ⟨digits, hdigits, -⟩ := bind_eq_ok_iff.mp h
    exact ⟨digits, hdigits⟩
  · rintro ⟨digits, hdigits⟩
    exact ⟨_, bind_eq_ok_iff.mpr ⟨digits, hdigits, rfl⟩⟩

/-- What an array has to have is not what it has to contain. -/
theorem countText_ne {start : String} (h : "Array must have".toList <+: start.toList) (n : Nat) :
    countText start n ≠ .ok repeatedText := by
  intro heq
  obtain ⟨digits, -, heq⟩ := bind_eq_ok_iff.mp heq
  have hprefix : "Array must have".toList <+: repeatedText.toList := by
    rw [← Except.ok.inj heq, String.toList_append, String.toList_append]
    exact (h.trans (List.prefix_append _ _)).trans (List.prefix_append _ _)
  exact absurd hprefix (by decide)

/-- A bound on the number of items has no say on their repetition, unless it has to be shown and has no text. -/
theorem repeated_mem_append_iff {start : String} (hstart : "Array must have".toList <+: start.toList)
    {violation : Nat → Violation} (hmessage : ∀ n, (violation n).message = countText start n) (rule : Option Nat)
    (broken : Nat → Bool) (path : String) (rest : Trace) :
    ⟨path, repeatedText⟩ ∈
        ((optional rule fun n => reportIf (broken n) path (violation n)) ++ rest).records ↔
      (∀ n, rule = some n → broken n = true → Numeral.withinLimit n = true) ∧
        ⟨path, repeatedText⟩ ∈ rest.records := by
  have hreports : (optional rule fun n => reportIf (broken n) path (violation n)).Reports
      fun _ v => v.message ≠ .ok repeatedText := by
    refine (closed_reports _).optional fun n _ => (closed_reports _).reportIf (reports_report ?_)
    rw [hmessage]
    exact countText_ne hstart n
  rw [mem_records_append, or_iff_right]
  · refine and_congr_left fun _ => ?_
    cases rule with
    | none => simp [optional, Trace.empty]
    | some m =>
        simp only [optional, Option.some.injEq, forall_eq']
        cases hm : broken m with
        | false => simp [reportIf, Trace.empty]
        | true => simp [reportIf, fault_report_eq_none_iff, hmessage, exists_countText_iff]
  · intro hmem
    obtain ⟨v, hm, hne⟩ := hreports _ hmem
    exact hne hm

/-- A bound that the number of items breaks has a decimal text. -/
def BoundsTold (f : ArrayFields) (length : Nat) : Prop :=
  (∀ n : Nat, f.minItems = some (.int n) → length < n → Numeral.withinLimit n = true) ∧
    ∀ n : Nat, f.maxItems = some (.int n) → n < length → Numeral.withinLimit n = true

/-- A count is compiled as it is declared. -/
theorem count_eq_some_iff {v : Option Value} {r : Option Nat} (h : v = r.map fun n => .int n) {n : Nat} :
    v = some (.int n) ↔ r = some n := by
  subst h
  cases r with
  | none => simp
  | some m => rw [Option.map_some, Option.some.injEq, Option.some.injEq, Value.int.injEq, Int.natCast_inj]

/-- An array says of itself that items are repeated exactly if some are, once the bounds on their number have been
looked at. -/
theorem repeated_mem_checkItems_iff {f : ArrayFields} {rule : ArrayRule} (h : Schema.ArrayCompiled f rule)
    (hunique : f.uniqueItems = true) {xs : List Value} (hxs : ∀ x ∈ xs, x.IsExactJson) (path : String) :
    ⟨path, repeatedText⟩ ∈ (checkItems rule xs path).records ↔ BoundsTold f xs.length ∧ HasRepeats xs := by
  obtain ⟨repeats, hrepeats⟩ := Schema.exists_hasDuplicate fun x hx => (hxs x hx).isPrintable
  show _ ∈ (_ ++ (_ ++ (_ ++ Trace.empty))).records ↔ _
  rw [repeated_mem_append_iff (by decide) message_tooFewItems,
    repeated_mem_append_iff (by decide) message_tooManyItems, ← and_assoc]
  refine and_congr (and_congr ?_ ?_) ?_
  · simp only [count_eq_some_iff h.minItems, decide_eq_true_eq]
  · simp only [count_eq_some_iff h.maxItems, decide_eq_true_eq]
  · rw [← h.uniqueItems, if_pos hunique, hrepeats, mem_records_append, or_iff_left (by simp [Trace.empty, records])]
    rw [hasRepeats_iff hxs, hrepeats]
    cases repeats with
    | true => exact iff_of_true (List.mem_singleton_self _) rfl
    | false => exact iff_of_false List.not_mem_nil (by simp)

end Validator

namespace Schema

open Trace Validator

/-- Of an item nothing is reported at the path of the array. -/
theorem reports_item {items : Schema} {origin : String} {child : Validator}
    (h : items.compileAt origin = .ok child) (hs : items.Named) (x : Value) (path : String) (i : Nat) :
    (child.run x (joinPath path (toString i))).Reports fun place _ => place ≠ path := by
  refine (reports_within h hs x ((isStep_index i).joinPath_ne path)).imp fun place _ hwithin hplace => ?_
  rw [hplace] at hwithin
  exact not_within_joinPath (isStep_index i) hwithin

/-- **Uniqueness is inequality of JSON values.** An array that is asked for unique items reports that they are not
exactly if two different positions hold equal values, unless the number of items breaks a bound that has no decimal
text. The keys by which items are told apart are equal exactly if the items are. -/
theorem repeated_mem_records_iff {a : Annotations} {f : ArrayFields} {items : Schema} {origin : String}
    {validator : Validator} (h : (Schema.array a f items).compileAt origin = .ok validator)
    (honce : (Schema.array a f items).Everywhere DeclaresOnce) (hunique : f.uniqueItems = true) :
    (∀ xs : List Value, (∀ x ∈ xs, x.IsExactJson) → ∀ path : String,
        ⟨path, "Array must contain unique items"⟩ ∈ (validator.run (.list xs) path).records ↔
          BoundsTold f xs.length ∧ HasRepeats xs) ∧
      ∀ v w : Value, v.IsExactJson → w.IsExactJson → (uniqueKey v = uniqueKey w ↔ v.jsonEqual w = true) := by
  obtain ⟨rule, child, hrule, hchild, rfl⟩ := compileAt_array h
  have hnamed := (named_of_compileAt h honce).2
  refine ⟨fun xs hxs path => ?_, fun v w hv hw => uniqueKey_eq_iff hv hw⟩
  have hitems : (concat (xs.mapIdx fun i item => child.run item (joinPath path (toString i)))).Reports
      fun place _ => place ≠ path := by
    refine (closed_reports _).concat fun t ht => ?_
    obtain ⟨i, hi, rfl⟩ := List.mem_mapIdx.mp ht
    exact reports_item hchild hnamed _ path i
  show _ ∈ (checkItems rule xs path ++ _).records ↔ _
  rw [mem_records_append, ← repeated_mem_checkItems_iff hrule hunique hxs path]
  refine or_iff_left ?_
  rintro ⟨-, hmem⟩
  obtain ⟨_, -, hne⟩ := hitems _ hmem
  exact hne rfl

/-- A row of badges, of which no two may be equal. -/
def badges : Schema := .array {} { uniqueItems := true } (.object {} { additional := true } [])

/-- The validator of badges. -/
def badgesValidator : Validator := .array ⟨none, none, true⟩ (.object ⟨[], true⟩ [])

/-- A badge has a size and a tag. -/
def badge (size : Value) : Value := .record [("size", size), ("tag", .str "é")]

/-- The badge of size one, with its members in the other order. -/
def turnedBadge : Value := .record [("tag", .str "é"), ("size", .int 1)]

theorem isExactJson_badge {size : Value} (h : size.IsExactJson) : (badge size).IsExactJson := by
  refine Value.everywhere_dict.mpr ⟨⟨by simp, by simp [Value.KeysDiffer, Value.same]⟩, ?_⟩
  exact List.forall_mem_cons.mpr ⟨h, List.forall_mem_singleton.mpr trivial⟩

theorem isExactJson_turnedBadge : turnedBadge.IsExactJson := by
  refine Value.everywhere_dict.mpr ⟨⟨by simp, by simp [Value.KeysDiffer, Value.same]⟩, ?_⟩
  exact List.forall_mem_cons.mpr
    ⟨trivial, List.forall_mem_singleton.mpr (Numeral.withinLimit_of_lt (n := 1) (by decide))⟩

/-- The third badge is the first one, with its members in another order. The second has another size: one is not
true. -/
theorem repeated_mem_records_badges :
    badges.compile = .ok badgesValidator ∧
      ⟨"", "Array must contain unique items"⟩ ∈
        (badgesValidator.run (.list [badge (.int 1), badge (.bool true), turnedBadge]) "").records ∧
      ⟨"", "Array must contain unique items"⟩ ∉
        (badgesValidator.run (.list [badge (.int 1), badge (.bool true)]) "").records := by
  have honce : badges.Everywhere DeclaresOnce := by
    simp [badges, Everywhere, EverywhereAmong, DeclaresOnce]
  have hone : (badge (.int 1)).IsExactJson := isExactJson_badge (Numeral.withinLimit_of_lt (n := 1) (by decide))
  have htrue : (badge (.bool true)).IsExactJson := isExactJson_badge trivial
  have hpair : ∀ x ∈ [badge (.int 1), badge (.bool true)], x.IsExactJson :=
    List.forall_mem_cons.mpr ⟨hone, List.forall_mem_singleton.mpr htrue⟩
  have hall : ∀ x ∈ [badge (.int 1), badge (.bool true), turnedBadge], x.IsExactJson :=
    List.forall_mem_cons.mpr ⟨hone, List.forall_mem_cons.mpr
      ⟨htrue, List.forall_mem_singleton.mpr isExactJson_turnedBadge⟩⟩
  have hcompile : badges.compileAt "" = .ok badgesValidator := rfl
  obtain ⟨hrecords, -⟩ := repeated_mem_records_iff hcompile honce rfl
  refine ⟨hcompile, ?_, ?_⟩
  · refine (hrecords _ hall "").mpr ⟨⟨by simp, by simp⟩, ?_⟩
    exact ⟨0, 2, badge (.int 1), turnedBadge, by decide, rfl, rfl, by decide⟩
  · intro hmem
    obtain ⟨-, hrepeats⟩ := (hrecords _ hpair "").mp hmem
    refine (not_hasRepeats_iff hpair).mpr ?_ hrepeats
    simp only [List.pairwise_cons, List.forall_mem_singleton, List.Pairwise.nil, and_true]
    decide

/-- Numbers of which there are at least as many as given, all of them different. -/
def crowd (n : Nat) : Schema := .array {} { minItems := some (.int n), uniqueItems := true } (.integer {} {})

theorem errors_crowd {n : Nat} (hmany : 2 < n) (hlong : Numeral.withinLimit n = false) :
    ∃ validator, (crowd n).compile = .ok validator ∧
      validator.trace (.list [.int 1, .int 1]) = failed .digitLimit := by
  refine ⟨.array ⟨some n, none, true⟩ (.number ⟨true, none, none, none, none, none, none⟩), rfl, ?_⟩
  have hmessage : (Violation.tooFewItems n).message = .error .digitLimit := by
    rw [message_tooFewItems, countText, intText_of_not_withinLimit hlong]
    rfl
  have hreport : reportIf (decide (2 < n)) "" (.tooFewItems n) = failed .digitLimit := by
    rw [decide_eq_true hmany, reportIf, if_pos rfl, report, hmessage]
  show (reportIf (decide (2 < n)) "" (.tooFewItems n) ++ _) ++ _ = _
  rw [hreport]
  rfl

/-- Where there are too few items by a count that has no text, nothing is said of repeated ones. -/
theorem not_repeated_mem_records_crowd :
    HasRepeats [.int 1, .int 1] ∧
      ∃ validator, (crowd (Nat.pow 10 Numeral.digitLimit)).compile = .ok validator ∧
        validator.errors (.list [.int 1, .int 1]) = .error .digitLimit ∧
        ⟨"", "Array must contain unique items"⟩ ∉ (validator.trace (.list [.int 1, .int 1])).records := by
  have hmany : 2 < Nat.pow 10 Numeral.digitLimit := Numeral.lt_pow_of_lt (by decide) (by decide)
  obtain ⟨validator, hcompile, htrace⟩ := errors_crowd hmany Numeral.not_withinLimit_pow
  refine ⟨⟨0, 1, .int 1, .int 1, by decide, rfl, rfl, rfl⟩, validator, hcompile, ?_, ?_⟩
  · rw [errors, htrace]
    rfl
  · rw [htrace]
    exact List.not_mem_nil

end Schema
end ApiContract
