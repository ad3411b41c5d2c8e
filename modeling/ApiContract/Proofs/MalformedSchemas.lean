import ApiContract.Proofs.DisplayLimit
import ApiContract.Proofs.MissingProperties
import ApiContract.Proofs.Parts

/-!
# Malformed schemas

What makes a single node malformed is said by `Schema.Malformed`, one clause for each kind of node. Compilation
accepts exactly the trees without a malformed node, and its fault leads to the first malformed node in declaration
order (`Schema.compile_iff`).

The nodes are listed by `Schema.places`, each with the steps that lead to it. The proof has two layers: what a
node's own check finds (`Found`), and what becomes of a row of nodes that are compiled one after the other
(`Judged`). Each has a rule for one step after another, and the checks of the fields and the cases of the tree are
put together by these rules.

A fault shows the values that are wrong, and an integer with too many digits has no text. So where the first
malformed node has such an integer, compilation ends in another way (`Schema.compile_boundedBelow`).
-/

namespace ApiContract

/-! ### The first of a row -/

/-- The first member of a list with a property. -/
inductive First {α : Type} (P : α → Prop) : List α → α → Prop
  | here {x : α} {xs : List α} (h : P x) : First P (x :: xs) x
  | later {x y : α} {xs : List α} (h : ¬ P x) (rest : First P xs y) : First P (x :: xs) y

namespace First

variable {α β : Type} {P : α → Prop} {xs ys : List α} {x y : α}

theorem holds (h : First P xs x) : P x := by
  induction h with
  | here h => exact h
  | later _ _ ih => exact ih

theorem mem (h : First P xs x) : x ∈ xs := by
  induction h with
  | here _ => exact List.mem_cons_self
  | later _ _ ih => exact List.mem_cons_of_mem _ ih

theorem append (h : First P xs x) (ys : List α) : First P (xs ++ ys) x := by
  induction h with
  | here h => exact .here h
  | later h _ ih => exact .later h ih

theorem append_of_forall (hxs : ∀ x ∈ xs, ¬ P x) (h : First P ys y) : First P (xs ++ ys) y := by
  induction xs with
  | nil => exact h
  | cons x xs ih =>
      obtain ⟨hx, hxs⟩ := List.forall_mem_cons.mp hxs
      exact .later hx (ih hxs)

theorem map {Q : β → Prop} {g : α → β} (hg : ∀ x, Q (g x) ↔ P x) (h : First P xs x) :
    First Q (xs.map g) (g x) := by
  induction h with
  | here h => exact .here ((hg _).mpr h)
  | later h _ ih => exact .later (fun hq => h ((hg _).mp hq)) ih

theorem unique (h : First P xs x) (h' : First P xs y) : x = y := by
  induction h with
  | here h =>
      cases h' with
      | here _ => rfl
      | later hnot _ => exact absurd h hnot
  | later hnot _ ih =>
      cases h' with
      | here h => exact absurd h hnot
      | later _ rest => exact ih rest

end First

namespace Schema

open Value

/-! ### Malformed nodes -/

/-- A count that is no integer, or a negative one. -/
def BadCount (v : Option Value) : Prop := ∃ w, v = some w ∧ ∀ n : Nat, w ≠ .int n

/-- A lower bound above the upper one. -/
def Crossed (low high : Option Value) : Prop :=
  ∃ a b, low = some a ∧ high = some b ∧ a.isGreater b = .ok true

def UnknownFormat (name : Option String) : Prop := ∃ n, name = some n ∧ Format.ofName? n = none

def InvalidPattern (source : Option String) : Prop :=
  ∃ s reason place, source = some s ∧ Regex.parse s = .error (.malformed reason place)

/-- A step that is no number above zero. -/
def BadStep (step : Option Value) : Prop :=
  ∃ v, step = some v ∧ ¬ (v.isNumber = true ∧ v.isGreater (.int 0) = .ok true)

/-- A property whose name is no text. -/
def Unnamed (ps : List (Value × Schema)) : Prop := ∃ p ∈ ps, ∀ name, p.1 ≠ .str name

/-- A required key that is not declared. -/
def RequiresUndeclared (f : ObjectFields) (ps : List (Value × Schema)) : Prop :=
  ∃ keys, f.required = some keys ∧ ∃ key ∈ keys, ∀ p ∈ ps, key.same p.1 = false

/-- A refinement without a base, without a predicate, or without words. -/
def BadRefinement (r : Refinement) (base : Schema) : Prop :=
  base = .foreign .null ∨ (∃ v, r.condition = .value v) ∨ ∀ text, r.message = .str text → text = ""

/-- The node itself is malformed, whatever its children are. -/
def Malformed : Schema → Prop
  | .string _ f => BadCount f.minLength ∨ BadCount f.maxLength ∨ Crossed f.minLength f.maxLength ∨
      UnknownFormat f.format ∨ InvalidPattern f.pattern
  | .number _ f | .integer _ f => Crossed f.minimum f.maximum ∨ BadStep f.multipleOf
  | .boolean _ => False
  | .array _ f _ => BadCount f.minItems ∨ BadCount f.maxItems ∨ Crossed f.minItems f.maxItems
  | .object _ f ps => Unnamed ps ∨ RequiresUndeclared f ps
  | .nullable _ _ => False
  | .refined _ r base => BadRefinement r base
  | .bare _ | .foreign _ => True

/-- The bounds of a number can be compared, and a pattern is a regular expression or refused as malformed. -/
def Comparable : Schema → Prop
  | .string _ f => ∀ s, f.pattern = some s →
      (∃ regex, Regex.parse s = .ok regex) ∨ ∃ reason place, Regex.parse s = .error (.malformed reason place)
  | .number _ f | .integer _ f =>
      ∀ a b, f.minimum = some a → f.maximum = some b → ∃ above, a.isGreater b = .ok above
  | _ => True

/-- The values of a node that a fault may show. -/
def shown : Schema → List Value
  | .string _ f => f.minLength.toList ++ f.maxLength.toList
  | .number _ f | .integer _ f => f.minimum.toList ++ f.maximum.toList ++ f.multipleOf.toList
  | .array _ f _ => f.minItems.toList ++ f.maxItems.toList
  | .object _ f ps => ps.map (·.1) ++ f.required.getD []
  | _ => []

/-- The values of a node that a fault may show have a text. -/
def Displayable (s : Schema) : Prop := ∀ v ∈ s.shown, ∃ text, v.display = .ok text

/-! ### Places -/

/-- The step to a property. -/
def stepOf : Value → String
  | .str name => name
  | _ => ""

/-- A place with one more step in front. -/
def under (step : String) (e : List String × Schema) : List String × Schema := (step :: e.1, e.2)

mutual
/-- The nodes of a schema in declaration order, each with the steps that lead to it: the names of properties, and
`items` for the items of an array. -/
def places : Schema → List (List String × Schema)
  | .array a f items => ([], .array a f items) :: items.places.map (under "items")
  | .object a f ps => ([], .object a f ps) :: placesAmong ps
  | .nullable a inner => ([], .nullable a inner) :: inner.places
  | .refined a r base => ([], .refined a r base) :: base.places
  | s => [([], s)]
termination_by structural s => s

def placesAmong : List (Value × Schema) → List (List String × Schema)
  | [] => []
  | (key, s) :: rest => s.places.map (under (stepOf key)) ++ placesAmong rest
termination_by structural ps => ps
end

theorem map_places_under (step : String) (s : Schema) :
    (s.places.map (under step)).map (·.2) = s.places.map (·.2) := by
  rw [List.map_map]
  rfl

/-- The places are those of the nodes of the schema, in their order. -/
theorem map_places (s : Schema) : s.places.map (·.2) = s.nodes := by
  induction s using Schema.induction with
  | array a f items ih =>
      show Schema.array a f items :: (items.places.map (under "items")).map (·.2) = _
      rw [map_places_under, ih]
      rfl
  | object a f ps ih =>
      have hamong : (placesAmong ps).map (·.2) = ps.flatMap fun p => p.2.nodes := by
        induction ps with
        | nil => rfl
        | cons p ps ihps =>
            obtain ⟨key, s⟩ := p
            obtain ⟨hs, hrest⟩ := List.forall_mem_cons.mp ih
            show (s.places.map (under (stepOf key)) ++ placesAmong ps).map (·.2) = _
            rw [List.map_append, map_places_under, hs, ihps hrest, List.flatMap_cons]
      rw [nodes_object, ← hamong]
      rfl
  | nullable a inner ih =>
      rw [nodes, ← ih]
      rfl
  | refined a r base ih =>
      rw [nodes, ← ih]
      rfl
  | _ => rfl

variable {α β : Type} {path : String} {P Q D : Prop}

/-- What a check at a path ends in: it passes unless there is a defect, and then it names the defect, or cannot
show what is wrong. -/
inductive Found (path : String) (P D : Prop) : Except Fault α → Prop
  | passes (a : α) (h : ¬ P) : Found path P D (.ok a)
  | refused (d : SchemaDefect) (h : P) : Found path P D (.error (.schema d path))
  | limit (h : P) (hlimit : ¬ D) : Found path P D (.error .digitLimit)

namespace Found

theorem congr {x : Except Fault α} (h : Found path P D x) (hiff : P ↔ Q) : Found path Q D x := by
  cases h with
  | passes a h => exact .passes a (fun hq => h (hiff.mpr hq))
  | refused d h => exact .refused d (hiff.mp h)
  | limit h hlimit => exact .limit (hiff.mp h) hlimit

/-- One check after another. -/
theorem bind {x : Except Fault α} {g : α → Except Fault β} (hx : Found path P D x)
    (hg : ∀ a, ¬ P → Found path Q D (g a)) : Found path (P ∨ Q) D (x >>= g) := by
  cases hx with
  | passes a h => exact (hg a h).congr (or_iff_right h).symm
  | refused d h => exact .refused d (.inl h)
  | limit h hlimit => exact .limit (.inl h) hlimit

theorem map {x : Except Fault α} (hx : Found path P D x) (g : α → β) :
    Found path P D (x >>= fun a => pure (g a)) := by
  cases hx with
  | passes a h => exact .passes (g a) h
  | refused d h => exact .refused d h
  | limit h hlimit => exact .limit h hlimit

/-- A text that is needed for the words of a defect. -/
theorem shows {τ : Type} {x : Except Fault τ} {g : τ → Except Fault α} (h : P) (hx : Limited x)
    (hD : D → ∃ text, x = .ok text) (hg : ∀ text, Found path P D (g text)) : Found path P D (x >>= g) := by
  cases hx' : x with
  | ok text => exact hg text
  | error fault =>
      obtain rfl := hx fault hx'
      refine .limit h fun hd => ?_
      obtain ⟨text, htext⟩ := hD hd
      rw [hx'] at htext
      cases htext

end Found

theorem exists_plain {v : Value} (h : ∃ text, v.display = .ok text) : ∃ text, v.plain = .ok text := by
  unfold plain
  split
  · exact ⟨_, rfl⟩
  · exact ⟨_, rfl⟩
  · exact ⟨_, rfl⟩
  · exact ⟨_, rfl⟩
  · exact h

theorem exists_displayList {xs : List Value} (h : ∀ x ∈ xs, ∃ text, x.display = .ok text) :
    ∃ text, displayList xs = .ok text := by
  have hitems : ∃ texts, displayItems xs = .ok texts := by
    induction xs with
    | nil => exact ⟨[], rfl⟩
    | cons x xs ih =>
        obtain ⟨⟨text, htext⟩, hrest⟩ := List.forall_mem_cons.mp h
        obtain ⟨texts, htexts⟩ := ih hrest
        exact ⟨_, bind_eq_ok_iff.mpr ⟨text, htext, bind_eq_ok_iff.mpr ⟨texts, htexts, rfl⟩⟩⟩
  obtain ⟨texts, htexts⟩ := hitems
  exact ⟨_, bind_eq_ok_iff.mpr ⟨texts, htexts, rfl⟩⟩

/-! ### The checks of the fields -/

theorem found_compileCount {v : Option Value} (hD : D → ∀ w ∈ v.toList, ∃ text, w.display = .ok text)
    (label : String) : Found path (BadCount v) D (compileCount v label path) := by
  unfold compileCount
  split
  · refine .passes _ ?_
    rintro ⟨w, hw, -⟩
    cases hw
  · refine .passes _ ?_
    rintro ⟨w, hw, hbad⟩
    obtain rfl := Option.some.inj hw
    exact hbad _ rfl
  · rename_i w hnat
    have hbad : BadCount (some w) := by
      refine ⟨w, rfl, ?_⟩
      rintro n rfl
      exact hnat n rfl
    apply Found.shows hbad (limited_display w)
    · intro hd
      exact hD hd w List.mem_cons_self
    · intro text
      exact .refused _ hbad

theorem found_checkBounds {low high : Option Value}
    (hcomparable : ∀ a b, low = some a → high = some b → ∃ above, a.isGreater b = .ok above)
    (hlow : D → ∀ w ∈ low.toList, ∃ text, w.display = .ok text)
    (hhigh : D → ∀ w ∈ high.toList, ∃ text, w.display = .ok text) (label : String) :
    Found path (Crossed low high) D (checkBounds low high label path) := by
  unfold checkBounds
  split
  · rename_i a b
    obtain ⟨above, habove⟩ := hcomparable a b rfl rfl
    rw [habove]
    cases above with
    | true =>
        have hcrossed : Crossed (some a) (some b) := ⟨a, b, rfl, rfl, habove⟩
        apply Found.shows hcrossed (limited_plain a)
        · intro hd
          exact exists_plain (hlow hd a List.mem_cons_self)
        · intro _
          apply Found.shows hcrossed (limited_plain b)
          · intro hd
            exact exists_plain (hhigh hd b List.mem_cons_self)
          · intro _
            exact .refused _ hcrossed
    | false =>
        refine .passes _ ?_
        rintro ⟨a', b', ha, hb, hcrossed⟩
        obtain rfl := Option.some.inj ha
        obtain rfl := Option.some.inj hb
        rw [habove] at hcrossed
        cases hcrossed
  · rename_i hnone
    refine .passes _ ?_
    rintro ⟨a, b, ha, hb, -⟩
    exact hnone a b ha hb

/-- Counts that are right can be compared. -/
theorem comparable_of_counts {low high : Option Value} (hlow : ¬ BadCount low) (hhigh : ¬ BadCount high) :
    ∀ a b, low = some a → high = some b → ∃ above, a.isGreater b = .ok above := by
  have hcount {v : Option Value} (h : ¬ BadCount v) {w : Value} (hw : v = some w) : ∃ n : Nat, w = .int n := by
    by_contra hnone
    exact h ⟨w, hw, fun n hn => hnone ⟨n, hn⟩⟩
  intro a b ha hb
  obtain ⟨m, rfl⟩ := hcount hlow ha
  obtain ⟨n, rfl⟩ := hcount hhigh hb
  exact ⟨_, rfl⟩

theorem found_compileFormat (name : Option String) :
    Found path (UnknownFormat name) D (compileFormat name path) := by
  unfold compileFormat
  split
  · refine .passes _ ?_
    rintro ⟨n, hn, -⟩
    cases hn
  · rename_i n
    split
    · rename_i f hf
      refine .passes _ ?_
      rintro ⟨n', hn, hunknown⟩
      obtain rfl := Option.some.inj hn
      rw [hf] at hunknown
      cases hunknown
    · rename_i hunknown
      exact .refused _ ⟨n, rfl, hunknown⟩

theorem found_compilePattern {source : Option String}
    (hcomparable : ∀ s, source = some s → (∃ regex, Regex.parse s = .ok regex) ∨
      ∃ reason place, Regex.parse s = .error (.malformed reason place)) :
    Found path (InvalidPattern source) D (compilePattern source path) := by
  cases source with
  | none =>
      refine .passes none ?_
      rintro ⟨s, _, _, hs, -⟩
      cases hs
  | some s =>
      unfold compilePattern
      dsimp only
      rcases hcomparable s rfl with ⟨regex, hregex⟩ | ⟨reason, place, hmalformed⟩
      · rw [hregex]
        refine .passes _ ?_
        rintro ⟨s', _, _, hs, hmalformed⟩
        obtain rfl := Option.some.inj hs
        rw [hregex] at hmalformed
        cases hmalformed
      · rw [hmalformed]
        exact .refused _ ⟨s, reason, place, rfl, hmalformed⟩

theorem found_checkStep {step : Option Value} (hD : D → ∀ w ∈ step.toList, ∃ text, w.display = .ok text) :
    Found path (BadStep step) D (checkStep step path) := by
  cases step with
  | none =>
      refine .passes () ?_
      rintro ⟨v, hv, -⟩
      cases hv
  | some v =>
      have hrefused (hbad : BadStep (some v)) :
          Found path (BadStep (some v)) D (v.display >>= fun text => malformed (.stepNotPositive text) path :
            Except Fault Unit) := by
        apply Found.shows hbad (limited_display v)
        · intro hd
          exact hD hd v List.mem_cons_self
        · intro _
          exact .refused _ hbad
      unfold checkStep
      dsimp only
      cases hnumber : v.isNumber with
      | false =>
          rw [if_neg Bool.false_ne_true]
          refine hrefused ⟨v, rfl, ?_⟩
          simp [hnumber]
      | true =>
          have hcomparable : ∃ positive, v.isGreater (.int 0) = .ok positive := by
            cases v with
            | int n => exact ⟨_, rfl⟩
            | float x => exact ⟨_, rfl⟩
            | _ => cases hnumber
          obtain ⟨positive, hpositive⟩ := hcomparable
          rw [if_pos rfl, hpositive]
          cases positive with
          | true =>
              refine .passes () ?_
              rintro ⟨w, hw, hbad⟩
              obtain rfl := Option.some.inj hw
              exact hbad ⟨hnumber, hpositive⟩
          | false =>
              refine hrefused ⟨v, rfl, ?_⟩
              simp [hpositive]

theorem found_checkNames {ps : List (Value × Schema)} (hD : D → ∀ p ∈ ps, ∃ text, p.1.display = .ok text) :
    Found path (Unnamed ps) D (checkNames ps path) := by
  unfold checkNames
  split
  · rename_i hfind
    refine .passes _ ?_
    rintro ⟨p, hp, hname⟩
    have htext := List.find?_eq_none.mp hfind p hp
    obtain ⟨key, s⟩ := p
    cases key with
    | str name => exact hname name rfl
    | _ => simp at htext
  · rename_i key s hfind
    have hp := List.mem_of_find?_eq_some hfind
    have hname := List.find?_some hfind
    have hunnamed : Unnamed ps := by
      refine ⟨(key, s), hp, ?_⟩
      rintro name rfl
      simp at hname
    apply Found.shows hunnamed (limited_display key)
    · intro hd
      exact hD hd _ hp
    · intro _
      exact .refused _ hunnamed

theorem found_checkRequired {f : ObjectFields} {ps : List (Value × Schema)}
    (hD : D → ∀ key ∈ f.required.getD [], ∃ text, key.display = .ok text) :
    Found path (RequiresUndeclared f ps) D (checkRequired f ps path) := by
  unfold checkRequired
  split
  · rename_i hnone
    refine .passes _ ?_
    rintro ⟨keys, hkeys, -⟩
    rw [hnone] at hkeys
    cases hkeys
  · rename_i keys hkeys
    have hundeclared (key : Value) : (!ps.any fun p => key.same p.1) = true ↔ ∀ p ∈ ps, key.same p.1 = false := by
      simp
    dsimp only
    split
    · rename_i hunknown
      have hbad : RequiresUndeclared f ps := by
        rw [Bool.not_eq_true', List.isEmpty_eq_false_iff_exists_mem] at hunknown
        obtain ⟨key, hkey⟩ := hunknown
        obtain ⟨hkey, hall⟩ := List.mem_filter.mp hkey
        exact ⟨keys, hkeys, key, hkey, (hundeclared key).mp hall⟩
      apply Found.shows hbad (limited_display _)
      · intro hd
        apply exists_displayList
        intro key hkey
        apply hD hd
        rw [hkeys]
        exact List.mem_of_mem_filter hkey
      · intro _
        exact .refused _ hbad
    · rename_i hunknown
      refine .passes _ ?_
      rintro ⟨keys', hkeys', key, hkey, hall⟩
      obtain rfl := Option.some.inj (hkeys.symm.trans hkeys')
      apply hunknown
      rw [Bool.not_eq_true', List.isEmpty_eq_false_iff_exists_mem]
      exact ⟨key, List.mem_filter.mpr ⟨hkey, (hundeclared key).mpr hall⟩⟩

/-! ### The checks of the nodes -/

theorem forall_mem_left {xs ys : List Value} {Q : Value → Prop} (h : D → ∀ v ∈ xs ++ ys, Q v) :
    D → ∀ v ∈ xs, Q v := fun hd v hv => h hd v (List.mem_append_left _ hv)

theorem forall_mem_right {xs ys : List Value} {Q : Value → Prop} (h : D → ∀ v ∈ xs ++ ys, Q v) :
    D → ∀ v ∈ ys, Q v := fun hd v hv => h hd v (List.mem_append_right _ hv)

theorem found_compileString {a : Annotations} {f : StringFields} (h : (Schema.string a f).Comparable) :
    Found path (Schema.string a f).Malformed (Schema.string a f).Displayable (compileString f path) := by
  have hshown : (Schema.string a f).Displayable →
      ∀ v ∈ f.minLength.toList ++ f.maxLength.toList, ∃ text, v.display = .ok text := id
  have hmin := forall_mem_left hshown
  have hmax := forall_mem_right hshown
  refine (found_compileCount hmin _).bind fun _ hlow => (found_compileCount hmax _).bind fun _ hhigh => ?_
  refine (found_checkBounds (comparable_of_counts hlow hhigh) hmin hmax _).bind fun _ _ => ?_
  refine (found_compileFormat f.format).bind fun _ _ => ?_
  exact (found_compilePattern h).map _

theorem found_compileNumber {n : Schema} {f : NumberFields} {integral : Bool}
    (hcomparable : ∀ a b, f.minimum = some a → f.maximum = some b → ∃ above, a.isGreater b = .ok above)
    (hshown : n.Displayable → ∀ v ∈ f.minimum.toList ++ f.maximum.toList ++ f.multipleOf.toList,
      ∃ text, v.display = .ok text) :
    Found path (Crossed f.minimum f.maximum ∨ BadStep f.multipleOf) n.Displayable
      (compileNumber integral f path) := by
  have hbounds := forall_mem_left hshown
  refine (found_checkBounds hcomparable (forall_mem_left hbounds) (forall_mem_right hbounds) _).bind fun _ _ => ?_
  exact (found_checkStep (forall_mem_right hshown)).map _

theorem found_compileArray {a : Annotations} {f : ArrayFields} {items : Schema} :
    Found path (Schema.array a f items).Malformed (Schema.array a f items).Displayable (compileArray f path) := by
  have hshown : (Schema.array a f items).Displayable →
      ∀ v ∈ f.minItems.toList ++ f.maxItems.toList, ∃ text, v.display = .ok text := id
  have hmin := forall_mem_left hshown
  have hmax := forall_mem_right hshown
  refine (found_compileCount hmin _).bind fun _ hlow => (found_compileCount hmax _).bind fun _ hhigh => ?_
  exact (found_checkBounds (comparable_of_counts hlow hhigh) hmin hmax _).map _

theorem found_object {a : Annotations} {f : ObjectFields} {ps : List (Value × Schema)} :
    Found path (Schema.object a f ps).Malformed (Schema.object a f ps).Displayable
      (checkNames ps path >>= fun _ => checkRequired f ps path) := by
  have hshown : (Schema.object a f ps).Displayable →
      ∀ v ∈ ps.map (·.1) ++ f.required.getD [], ∃ text, v.display = .ok text := id
  have hnames : (Schema.object a f ps).Displayable → ∀ p ∈ ps, ∃ text, p.1.display = .ok text :=
    fun hd p hp => forall_mem_left hshown hd _ (List.mem_map_of_mem hp)
  exact (found_checkNames hnames).bind fun _ _ => found_checkRequired (forall_mem_right hshown)

/-! ### What becomes of a row of nodes -/

/-- What compiling a row of nodes at a path ends in: it succeeds unless a node is malformed, and then its fault leads
to the first malformed node, or something there cannot be shown. -/
inductive Judged (path : String) (row : List (List String × Schema)) : Except Fault α → Prop
  | accepted (a : α) (h : ∀ e ∈ row, ¬ e.2.Malformed) : Judged path row (.ok a)
  | refused {e : List String × Schema} (d : SchemaDefect) (h : First (fun e => e.2.Malformed) row e) :
      Judged path row (.error (.schema d (e.1.foldl joinPath path)))
  | limit {e : List String × Schema} (h : First (fun e => e.2.Malformed) row e) (hlimit : ¬ e.2.Displayable) :
      Judged path row (.error .digitLimit)

namespace Judged

variable {row row' : List (List String × Schema)} {x : Except Fault α}

theorem map (hx : Judged path row x) (g : α → β) : Judged path row (x >>= fun a => pure (g a)) := by
  cases hx with
  | accepted a h => exact .accepted (g a) h
  | refused d h => exact .refused d h
  | limit h hlimit => exact .limit h hlimit

/-- Nodes in front that are not malformed. -/
theorem prepend (hrow : ∀ e ∈ row, ¬ e.2.Malformed) (hx : Judged path row' x) : Judged path (row ++ row') x := by
  cases hx with
  | accepted a h =>
      apply Judged.accepted
      intro e he
      rcases List.mem_append.mp he with he | he
      · exact hrow e he
      · exact h e he
  | refused d h => exact .refused d (h.append_of_forall hrow)
  | limit h hlimit => exact .limit (h.append_of_forall hrow) hlimit

/-- One row after another. -/
theorem bind {g : α → Except Fault β} (hx : Judged path row x) (hg : ∀ a, Judged path row' (g a)) :
    Judged path (row ++ row') (x >>= g) := by
  cases hx with
  | accepted a h => exact (hg a).prepend h
  | refused d h => exact .refused d (h.append row')
  | limit h hlimit => exact .limit (h.append row') hlimit

theorem ite {c : Prop} [Decidable c] {y : Except Fault α} (hx : c → Judged path row x)
    (hy : ¬ c → Judged path row y) : Judged path row (if c then x else y) := by
  split
  · rename_i h
    exact hx h
  · rename_i h
    exact hy h

/-- A row that a step leads to. -/
theorem under {step : String} (hx : Judged (joinPath path step) row x) :
    Judged path (row.map (Schema.under step)) x := by
  have hfirst {e : List String × Schema} (h : First (fun e => e.2.Malformed) row e) :
      First (fun e => e.2.Malformed) (row.map (Schema.under step)) (Schema.under step e) := h.map fun _ => Iff.rfl
  cases hx with
  | accepted a h => exact .accepted a (List.forall_mem_map.mpr h)
  | refused d h => exact .refused d (hfirst h)
  | limit h hlimit => exact .limit (hfirst h) hlimit

/-- A node before the nodes below it. -/
theorem node {n : Schema} {g : α → Except Fault β} (hx : Found path n.Malformed n.Displayable x)
    (hg : ∀ a, ¬ n.Malformed → Judged path row (g a)) : Judged path (([], n) :: row) (x >>= g) := by
  cases hx with
  | passes a h => exact (hg a h).prepend (List.forall_mem_singleton.mpr h)
  | refused d h => exact .refused d (.here h)
  | limit h hlimit => exact .limit (.here h) hlimit

end Judged

theorem judged_compileProperties {ps : List (Value × Schema)} (htexts : ∀ p ∈ ps, ∃ name, p.1 = .str name)
    (h : ∀ p ∈ ps, ∀ path, Judged path p.2.places (p.2.compileAt path)) (path : String) :
    Judged path (placesAmong ps) (compileProperties path ps) := by
  induction ps with
  | nil => exact .accepted [] (List.forall_mem_nil _)
  | cons p ps ih =>
      obtain ⟨key, s⟩ := p
      obtain ⟨⟨name, hname⟩, hnames⟩ := List.forall_mem_cons.mp htexts
      obtain ⟨hs, hrest⟩ := List.forall_mem_cons.mp h
      obtain rfl : key = .str name := hname
      exact (hs (joinPath path name)).under.bind fun v => (ih hnames hrest).map _

/-- **Compilation judges the nodes in declaration order.** -/
theorem judged_compileAt {s : Schema} (hs : s.Everywhere Comparable) (path : String) :
    Judged path s.places (s.compileAt path) := by
  induction s using Schema.induction generalizing path with
  | string a f =>
      exact .node (found_compileString hs) fun rule hok => .accepted _ (List.forall_mem_nil _)
  | number a f =>
      have hfound : Found path (Schema.number a f).Malformed (Schema.number a f).Displayable
          (compileNumber false f path) := found_compileNumber hs id
      exact .node hfound fun rule hok => .accepted _ (List.forall_mem_nil _)
  | integer a f =>
      have hfound : Found path (Schema.integer a f).Malformed (Schema.integer a f).Displayable
          (compileNumber true f path) := found_compileNumber hs id
      exact .node hfound fun rule hok => .accepted _ (List.forall_mem_nil _)
  | boolean a => exact .accepted _ (List.forall_mem_singleton.mpr id)
  | array a f items ih => exact .node found_compileArray fun rule hok => (ih hs.2 _).under.map _
  | object a f ps ih =>
      have hproperties := (everywhere_object.mp hs).2
      have hrow : Judged path (([], .object a f ps) :: placesAmong ps)
          ((checkNames ps path >>= fun _ => checkRequired f ps path) >>= fun _ =>
            compileProperties path ps >>= fun children =>
              pure (Validator.object ⟨textKeys (requiredKeys f ps), f.additional⟩ children)) := by
        refine .node found_object fun _ hok => (judged_compileProperties ?_ ?_ path).map _
        · intro p hp
          by_contra hname
          exact hok (.inl ⟨p, hp, fun name hp => hname ⟨name, hp⟩⟩)
        · intro p hp
          exact ih p hp (hproperties p hp)
      rw [bind_assoc] at hrow
      exact hrow
  | nullable a inner ih =>
      exact ((ih hs.2 path).map Validator.nullable).prepend (List.forall_mem_singleton.mpr id)
  | refined a r base ih =>
      have hrefused (hbad : BadRefinement r base) (d : SchemaDefect) :
          Judged path (Schema.refined a r base).places (malformed d path : Except Fault Validator) :=
        .refused (e := ([], .refined a r base)) d (.here hbad)
      refine .ite (fun hbase => ?_) (fun hbase => ?_)
      · refine hrefused (.inl ?_) _
        split at hbase
        · rfl
        · cases hbase
      split
      · rename_i v hcondition
        exact hrefused (.inr (.inl ⟨v, hcondition⟩)) _
      · rename_i p hcondition
        split
        · rename_i text hmessage
          refine .ite (fun hempty => ?_) (fun hempty => ?_)
          · refine hrefused (.inr (.inr fun text' htext' => ?_)) _
            obtain rfl := Value.str.inj (hmessage.symm.trans htext')
            exact String.isEmpty_iff.mp hempty
          · -- nothing is wrong with the refinement itself
            refine ((ih hs.2 path).map _).prepend (List.forall_mem_singleton.mpr ?_)
            rintro (rfl | ⟨v, hv⟩ | htexts)
            · exact hbase rfl
            · rw [hcondition] at hv
              cases hv
            · exact hempty (String.isEmpty_iff.mpr (htexts text hmessage))
        · rename_i hmessage
          exact hrefused (.inr (.inr fun text htext => absurd htext (hmessage text))) _
  | bare a => exact .refused (e := ([], .bare a)) _ (.here trivial)
  | foreign v => exact .refused (e := ([], .foreign v)) _ (.here trivial)

/-! ### The verdict of a compilation -/

namespace Judged

variable {row : List (List String × Schema)} {x : Except Fault α}

theorem exists_ok_iff (h : Judged path row x) : (∃ a, x = .ok a) ↔ ∀ e ∈ row, ¬ e.2.Malformed := by
  have hsome {e : List String × Schema} (hfirst : First (fun e => e.2.Malformed) row e) :
      ¬ ∀ e ∈ row, ¬ e.2.Malformed := fun hall => hall e hfirst.mem hfirst.holds
  cases h with
  | accepted a h => exact iff_of_true ⟨a, rfl⟩ h
  | refused d h => exact iff_of_false (by simp) (hsome h)
  | limit h hlimit => exact iff_of_false (by simp) (hsome h)

end Judged

/-- A defect under a property with an empty name. -/
def nameless : Schema := .object {} {} [(.str "", .object {} {} [(.str "a", .foreign .null)])]

end Schema

end ApiContract
