import ApiContract.Proofs.Members
import ApiContract.Proofs.ListLemmas

/-!
# Expanding references

An object that refers to a component stands for the component's document, with the members beside the reference
laid over it: refinements are added to those of the component, other members take the place of the component's
(`Doc.overlay`). Expansion replaces references so wherever schemas stand, and leaves data alone
(`Doc.expandWith`, `Doc.expand`). It goes along with the steps in which documents are built: to set a member and
expand is to expand and set the member (`expandWith_set`), also where the member ends up beside a reference, and
refinements are added before or after (`expandWith_refinements`).
-/

namespace ApiContract.Doc

/-- The component that an object refers to. -/
def target? (doc : Doc) : Option String :=
  match doc.get? "$ref" with
  | some (.reference name) => some name
  | _ => none

/-- The refinements that a document lists. -/
def refinements (doc : Doc) : List Doc :=
  match doc.get? "x-refinements" with
  | some (.array entries) => entries
  | _ => []

/-- What a member becomes when it is laid over a document: refinements are added to those that are there. -/
def merged (doc : Doc) (key : String) : Doc → Doc
  | .array ds => .array (if key = "x-refinements" then doc.refinements ++ ds else ds)
  | d => d

/-- Lays a member over a document. -/
def lay (doc : Doc) (m : Value × Doc) : Doc :=
  match m.1 with
  | .str key => doc.set key (doc.merged key m.2)
  | _ => doc

/-- Lays members over a document, one after the other. -/
def overlay (doc : Doc) (ms : List (Value × Doc)) : Doc := ms.foldl lay doc

mutual
/-- Replaces references by what they are resolved to, with the members beside them laid over it. -/
def expandWith (resolve : String → Doc) : Doc → Doc
  | .object ms =>
    match (Doc.object ms).target? with
    | some name =>
      overlay (resolve name) ((expandAmong resolve ms).filter fun m => !(Value.str "$ref").same m.1)
    | none => .object (expandAmong resolve ms)
  | .array ds => .array (expandIn resolve ds)
  | d => d
termination_by structural d => d

def expandIn (resolve : String → Doc) : List Doc → List Doc
  | [] => []
  | d :: ds => expandWith resolve d :: expandIn resolve ds
termination_by structural ds => ds

def expandAmong (resolve : String → Doc) : List (Value × Doc) → List (Value × Doc)
  | [] => []
  | (k, d) :: ms => (k, expandWith resolve d) :: expandAmong resolve ms
termination_by structural ms => ms
end

/-- Expands references to components, and those in the components, to a depth. -/
def expand (components : List (String × Doc)) : Nat → Doc → Doc
  | 0 => id
  | depth + 1 => expandWith fun name => ((components.lookup name).map (expand components depth)).getD (.referTo name)

theorem expandIn_eq (resolve : String → Doc) (ds : List Doc) :
    expandIn resolve ds = ds.map (expandWith resolve) := by
  induction ds with
  | nil => rfl
  | cons d ds ih => rw [List.map_cons, ← ih, expandIn]

theorem expandAmong_eq (resolve : String → Doc) (ms : List (Value × Doc)) :
    expandAmong resolve ms = ms.map fun m => (m.1, expandWith resolve m.2) := by
  induction ms with
  | nil => rfl
  | cons m ms ih =>
      obtain ⟨k, d⟩ := m
      rw [List.map_cons, ← ih, expandAmong]

variable {resolve : String → Doc} {doc doc' d : Doc} {key : String}

theorem expandWith_array (ds : List Doc) :
    expandWith resolve (.array ds) = .array (ds.map (expandWith resolve)) := by
  rw [← expandIn_eq]
  rfl

/-- An object that refers to nothing is expanded member by member. -/
theorem expandWith_of_target?_eq_none {ms : List (Value × Doc)} (h : (Doc.object ms).target? = none) :
    expandWith resolve (.object ms) = .object (ms.map fun m => (m.1, expandWith resolve m.2)) := by
  rw [expandWith, h, expandAmong_eq]

/-- The members beside a reference, expanded. -/
def siblings (resolve : String → Doc) (ms : List (Value × Doc)) : List (Value × Doc) :=
  (ms.map fun m => (m.1, expandWith resolve m.2)).filter fun m => !(Value.str "$ref").same m.1

theorem expandWith_of_target?_eq_some {ms : List (Value × Doc)} {name : String}
    (h : (Doc.object ms).target? = some name) :
    expandWith resolve (.object ms) = overlay (resolve name) (siblings resolve ms) := by
  rw [expandWith, h, siblings, ← expandAmong_eq]

theorem target?_set_of_ne (doc : Doc) (d : Doc) (hkey : key ≠ "$ref") : (doc.set key d).target? = doc.target? := by
  rw [target?, target?, get?_set_of_ne _ _ hkey.symm]

theorem siblings_append (resolve : String → Doc) (ms ms' : List (Value × Doc)) :
    siblings resolve (ms ++ ms') = siblings resolve ms ++ siblings resolve ms' := by
  rw [siblings, List.map_append, List.filter_append]
  rfl

theorem siblings_cons (resolve : String → Doc) (hkey : key ≠ "$ref") (d : Doc) (ms : List (Value × Doc)) :
    siblings resolve ((.str key, d) :: ms) = (.str key, expandWith resolve d) :: siblings resolve ms := by
  have hother : (Value.str "$ref").same (.str key) = false := by
    rw [← Bool.not_eq_true, Value.same_str_left]
    exact fun h => hkey (Value.str.inj h)
  rw [siblings, List.map_cons, List.filter_cons_of_pos]
  · rfl
  · dsimp only
    rw [hother, Bool.not_false]

theorem key_of_mem_siblings {ms : List (Value × Doc)} {m : Value × Doc} (hm : m ∈ siblings resolve ms) :
    m.1 ∈ ms.map (·.1) := by
  obtain ⟨m', hm', rfl⟩ := List.mem_map.mp (List.mem_of_mem_filter hm)
  exact List.mem_map.mpr ⟨m', hm', rfl⟩

/-! ### Laying members over a document -/

theorem merged_of_ne (doc d : Doc) (hkey : key ≠ "x-refinements") : doc.merged key d = d := by
  cases d with
  | array ds => rw [merged, if_neg hkey]
  | _ => rfl

theorem refinements_set_of_ne (doc d : Doc) (hkey : key ≠ "x-refinements") :
    (doc.set key d).refinements = doc.refinements := by
  rw [refinements, refinements, get?_set_of_ne _ _ hkey.symm]

theorem refinements_set (doc : Doc) (ds : List Doc) : (doc.set "x-refinements" (.array ds)).refinements = ds := by
  rw [refinements, get?_set_self]

theorem merged_set_of_ne {other : String} (hkey : key ≠ "x-refinements" ∨ other ≠ "x-refinements")
    (doc d e : Doc) : (doc.set key d).merged other e = doc.merged other e := by
  by_cases hother : other = "x-refinements"
  · cases e with
    | array ds => rw [merged, merged, refinements_set_of_ne _ _ (hkey.resolve_right (not_not.mpr hother))]
    | _ => rfl
  · rw [merged_of_ne _ _ hother, merged_of_ne _ _ hother]

/-- What is laid over a document leaves the other members. -/
theorem get?_lay_of_ne {m : Value × Doc} (hm : m.1 ≠ .str key) : (doc.lay m).get? key = doc.get? key := by
  obtain ⟨k, d⟩ := m
  cases k with
  | str other => exact get?_set_of_ne _ _ fun h => hm (congrArg Value.str h.symm)
  | _ => rfl

theorem get?_overlay_of_ne {ms : List (Value × Doc)} (hms : ∀ m ∈ ms, m.1 ≠ .str key) :
    (doc.overlay ms).get? key = doc.get? key := by
  induction ms generalizing doc with
  | nil => rfl
  | cons m ms ih =>
      obtain ⟨hm, hms⟩ := List.forall_mem_cons.mp hms
      exact (ih hms).trans (get?_lay_of_ne hm)

/-- A member that is there can be set before or after other members are laid over the document. -/
theorem overlay_set {ms : List (Value × Doc)} (hms : ∀ m ∈ ms, m.1 ≠ .str key)
    (hkey : (doc.get? key).isSome = true) (d : Doc) :
    (doc.overlay ms).set key d = (doc.set key d).overlay ms := by
  induction ms generalizing doc with
  | nil => rfl
  | cons m ms ih =>
      obtain ⟨hm, hms⟩ := List.forall_mem_cons.mp hms
      have hlay : (doc.lay m).set key d = (doc.set key d).lay m := by
        obtain ⟨k, e⟩ := m
        cases k with
        | str other =>
            have hother : other ≠ key := fun h => hm (congrArg Value.str h)
            have hmerged : (doc.set key d).merged other e = doc.merged other e := by
              refine merged_set_of_ne ?_ doc d e
              by_contra! hboth
              exact hother (hboth.2.trans hboth.1.symm)
            show (doc.set other (doc.merged other e)).set key d =
              (doc.set key d).set other ((doc.set key d).merged other e)
            rw [hmerged, set_comm hother hkey]
        | _ => rfl
      show ((doc.lay m).overlay ms).set key d = ((doc.set key d).lay m).overlay ms
      rw [ih hms, hlay]
      rwa [get?_lay_of_ne hm]

theorem overlay_append (doc : Doc) (ms ms' : List (Value × Doc)) :
    doc.overlay (ms ++ ms') = (doc.overlay ms).overlay ms' :=
  List.foldl_append

/-- A member among those that are laid over a document. -/
theorem overlay_middle (doc d : Doc) (before after : List (Value × Doc)) :
    doc.overlay (before ++ (.str key, d) :: after) =
      ((doc.overlay before).set key ((doc.overlay before).merged key d)).overlay after :=
  overlay_append _ _ _

/-! ### Steps in which documents are built -/

theorem setMember_map (f : Doc → Doc) (ms : List (Value × Doc)) (key : Value) (d : Doc) :
    setMember (ms.map fun m => (m.1, f m.2)) key (f d) = (setMember ms key d).map fun m => (m.1, f m.2) := by
  unfold setMember
  have hany : (ms.map fun m => (m.1, f m.2)).any (fun m => key.same m.1) = ms.any fun m => key.same m.1 :=
    List.any_map
  rw [hany]
  split
  · rw [List.map_map, List.map_map]
    refine List.map_congr_left fun m _ => ?_
    rw [Function.comp_apply, Function.comp_apply]
    split <;> rfl
  · rw [List.map_append]
    rfl

theorem get?_map (f : Doc → Doc) (ms : List (Value × Doc)) (key : String) :
    (Doc.object (ms.map fun m => (m.1, f m.2))).get? key = ((Doc.object ms).get? key).map f := by
  rw [get?, get?, members, members, List.find?_map, Option.map_map, Option.map_map]
  rfl

/-- Setting a member beside a reference. What the member is laid over is what it finds when the members beside
the reference are laid over the component. -/
theorem expandWith_set_of_target? (resolve : String → Doc) {ms : List (Value × Doc)} {name : String}
    (h : (Doc.object ms).KeysDiffer) (htarget : (Doc.object ms).target? = some name)
    (hkey : key ≠ "$ref") (d : Doc) :
    ∃ base : Doc, expandWith resolve ((Doc.object ms).set key d) =
        (expandWith resolve (.object ms)).set key (base.merged key (expandWith resolve d)) ∧
      ((Doc.object ms).get? key = none ∧ base = expandWith resolve (.object ms) ∨
        ∃ old, (Doc.object ms).get? key = some old ∧
          (expandWith resolve (.object ms)).get? key = some (base.merged key (expandWith resolve old))) := by
  have hset : expandWith resolve ((Doc.object ms).set key d) =
      overlay (resolve name) (siblings resolve ((Doc.object ms).set key d).members) :=
    expandWith_of_target?_eq_some ((target?_set_of_ne _ _ hkey).trans htarget)
  rw [hset, expandWith_of_target?_eq_some htarget]
  cases hold : (Doc.object ms).get? key with
  | none =>
      refine ⟨_, ?_, .inl ⟨rfl, rfl⟩⟩
      rw [members_set (get?_eq_none_iff.mp hold), siblings_append, siblings_cons _ hkey, overlay_middle]
      rfl
  | some old =>
      obtain ⟨before, after, hmembers, hreplaced⟩ := h.members_set hold d
      have hafter : ∀ m ∈ siblings resolve after, m.1 ≠ .str key := by
        intro m hm hsame
        have hkeys := key_of_mem_siblings hm
        rw [KeysDiffer, hmembers, List.map_append, List.map_cons, List.nodup_middle, List.nodup_cons] at h
        rw [hsame] at hkeys
        exact h.1 (List.mem_append_right _ hkeys)
      have hms : siblings resolve ms =
          siblings resolve before ++ (.str key, expandWith resolve old) :: siblings resolve after := by
        rw [← siblings_cons _ hkey, ← siblings_append, ← hmembers]
        rfl
      refine ⟨overlay (resolve name) (siblings resolve before), ?_, .inr ⟨old, rfl, ?_⟩⟩
      · rw [hreplaced, siblings_append, siblings_cons _ hkey, hms, overlay_middle, overlay_middle,
          overlay_set hafter, set_set]
        rw [get?_set_self]
        rfl
      · rw [hms, overlay_middle, get?_overlay_of_ne hafter, get?_set_self]

theorem expandWith_set {ms : List (Value × Doc)} (h : (Doc.object ms).KeysDiffer) (hkey : key ≠ "$ref")
    (hother : key ≠ "x-refinements") (d : Doc) :
    expandWith resolve ((Doc.object ms).set key d) =
      (expandWith resolve (.object ms)).set key (expandWith resolve d) := by
  cases htarget : (Doc.object ms).target? with
  | none =>
      have htarget' := (target?_set_of_ne (Doc.object ms) d hkey).trans htarget
      rw [expandWith_of_target?_eq_none htarget]
      refine (expandWith_of_target?_eq_none htarget').trans (congrArg Doc.object ?_)
      exact (setMember_map _ _ _ _).symm
  | some name =>
      obtain ⟨base, hset, -⟩ := expandWith_set_of_target? resolve h htarget hkey d
      rw [hset, merged_of_ne _ _ hother]

/-- Refinements that are added to a document are added to what it expands to. -/
theorem expandWith_refinements {ms : List (Value × Doc)} (h : (Doc.object ms).KeysDiffer)
    (hlisted : ∀ d, (Doc.object ms).get? "x-refinements" = some d → ∃ ds, d = .array ds) (entries : List Doc) :
    expandWith resolve ((Doc.object ms).set "x-refinements" (.array ((Doc.object ms).refinements ++ entries))) =
      (expandWith resolve (.object ms)).set "x-refinements"
        (.array ((expandWith resolve (.object ms)).refinements ++ entries.map (expandWith resolve))) := by
  have hkey : "x-refinements" ≠ "$ref" := by decide
  cases htarget : (Doc.object ms).target? with
  | none =>
      have htarget' := (target?_set_of_ne (Doc.object ms)
        (.array ((Doc.object ms).refinements ++ entries)) hkey).trans htarget
      have hrefinements : (expandWith resolve (.object ms)).refinements =
          (Doc.object ms).refinements.map (expandWith resolve) := by
        rw [expandWith_of_target?_eq_none htarget, refinements, refinements, get?_map]
        cases hold : (Doc.object ms).get? "x-refinements" with
        | none => rfl
        | some d =>
            obtain ⟨ds, rfl⟩ := hlisted d hold
            rw [Option.map_some, expandWith_array]
      rw [hrefinements, ← List.map_append, ← expandWith_array, expandWith_of_target?_eq_none htarget]
      refine (expandWith_of_target?_eq_none htarget').trans (congrArg Doc.object ?_)
      exact (setMember_map _ _ _ _).symm
  | some name =>
      obtain ⟨base, hset, hbase⟩ := expandWith_set_of_target? resolve h htarget hkey
        (.array ((Doc.object ms).refinements ++ entries))
      rw [hset, expandWith_array, List.map_append, merged, if_pos rfl]
      congr 2
      rcases hbase with ⟨hnone, rfl⟩ | ⟨old, hold, hexpanded⟩
      · have hearlier : (Doc.object ms).refinements = [] := by rw [refinements, hnone]
        rw [hearlier, List.map_nil, List.nil_append]
      · obtain ⟨ds, rfl⟩ := hlisted old hold
        have hearlier : (Doc.object ms).refinements = ds := by rw [refinements, hold]
        have hlater : (expandWith resolve (.object ms)).refinements =
            base.refinements ++ ds.map (expandWith resolve) := by
          rw [refinements, hexpanded, expandWith_array, merged, if_pos rfl]
        rw [hearlier, hlater, List.append_assoc]

end ApiContract.Doc
