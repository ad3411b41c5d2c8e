import ApiContract.Proofs.EnforcedDefinitions
import ApiContract.Proofs.Mounting
import ApiContract.Proofs.ShownNames

/-!
# Legal names

A component may be referred to if its name is legal (`ComponentName.IsLegal`). Names are given to components at
registration, to schemas in definitions, and to schemas that are put together by hand. The first two are checked, and
what the check accepts is legal up to a line feed at the end (`ComponentName.accepts_iff`); the third are not.
So the names in a document are legal exactly if those are that its documentation comes to (`component_names`).
-/

namespace ApiContract

namespace ComponentName

/-- A legal name: letters, digits, underscores, points and hyphens of ASCII, at least one of them. -/
def IsLegal (name : String) : Prop := name.toList ≠ [] ∧ ∀ c ∈ name.toList, isNameChar c = true

instance (name : String) : Decidable (IsLegal name) :=
  decidable_of_iff (name.toList ≠ [] ∧ name.toList.all isNameChar = true) (by rw [List.all_eq_true]; exact Iff.rfl)

/-- A name that is legal but for a line feed at its end. -/
def IsLegalLine (name : String) : Prop := ∃ line, IsLegal line ∧ name = line ++ "\n"

theorem accepts_of_getLast {name : String} {cs : List Char} (h : name.toList = cs ++ ['\n']) :
    accepts name = true ↔ cs ≠ [] ∧ ∀ c ∈ cs, isNameChar c = true := by
  simp [accepts, h]

theorem accepts_of_getLast_ne {name : String} (h : name.toList.getLast? ≠ some '\n') :
    accepts name = true ↔ IsLegal name := by
  have hlast : (name.toList.getLast? == some '\n') = false := beq_eq_false_iff_ne.mpr h
  simp only [accepts, hlast, IsLegal]
  simp

/-- What is accepted as a name is legal, or it is but for a line feed at the end. -/
theorem accepts_iff {name : String} : accepts name = true ↔ IsLegal name ∨ IsLegalLine name := by
  by_cases hlast : name.toList.getLast? = some '\n'
  · obtain ⟨cs, hcs⟩ := List.getLast?_eq_some_iff.mp hlast
    have hillegal : ¬ IsLegal name := by
      rintro ⟨-, hall⟩
      have hnewline := hall '\n' (by simp [hcs])
      cases hnewline
    rw [accepts_of_getLast hcs, or_iff_right hillegal]
    constructor
    · intro h
      refine ⟨String.ofList cs, ?_, ?_⟩
      · rwa [IsLegal, String.toList_ofList]
      · rw [← String.toList_inj, hcs, String.toList_append, String.toList_ofList]
        rfl
    · rintro ⟨line, hlegal, rfl⟩
      rw [String.toList_append] at hcs
      obtain ⟨rfl, -⟩ := List.append_inj' hcs rfl
      exact hlegal
  · rw [accepts_of_getLast_ne hlast]
    refine (or_iff_left ?_).symm
    rintro ⟨line, -, rfl⟩
    exact hlast (by simp)

theorem ne_empty_of_accepts {name : String} (h : accepts name = true) : name ≠ "" := by
  rintro rfl
  cases h

end ComponentName

open ComponentName (accepts IsLegal IsLegalLine)

/-! ### Names in definitions -/

/-- The name that a definition gives is accepted. -/
theorem Definition.Grammatical.accepts_name {entries : List (Value × Value)} (h : Grammatical (.dict entries))
    {name : String} (hname : text? entries "name" = some name) : accepts name = true := by
  unfold text? at hname
  split at hname
  · rename_i s hget
    obtain rfl := Option.some.inj hname
    exact (h.allows rfl hget).limits .componentName List.mem_cons_self _ rfl
  · cases hname

namespace Schema

/-- The names of a schema and of all nodes below it are accepted. -/
def AcceptedNames (s : Schema) : Prop := ∀ t ∈ s.nodes, ∀ name, t.name? = some name → accepts name = true

theorem acceptedNames_iff {s : Schema} :
    s.AcceptedNames ↔ (∀ name, s.name? = some name → accepts name = true) ∧ ∀ t ∈ s.children, t.AcceptedNames := by
  unfold AcceptedNames
  rw [nodes_eq, List.forall_mem_cons, List.forall_mem_flatMap]

/-- Wrapped or not, a node has the name that its definition gives, and below it there are its own parts. -/
theorem acceptedNames_wrap {entries : List (Value × Value)} (h : Definition.Grammatical (.dict entries))
    {node : Annotations → Schema} (hname : ∀ a, (node a).name? = a.name)
    (hparts : ∀ a, ∀ t ∈ (node a).children, t.AcceptedNames) : (Definition.wrap entries node).AcceptedNames := by
  have hown (name : String) (hname : (Definition.annotations entries).name = some name) : accepts name = true :=
    h.accepts_name hname
  unfold Definition.wrap
  dsimp only
  split
  · refine acceptedNames_iff.mpr ⟨hown, ?_⟩
    refine List.forall_mem_singleton.mpr (acceptedNames_iff.mpr ⟨?_, hparts _⟩)
    intro name hinner
    rw [hname] at hinner
    cases hinner
  · refine acceptedNames_iff.mpr ⟨?_, hparts _⟩
    intro name hnode
    rw [hname] at hnode
    exact hown name hnode

/-- Every name in a schema that is built from a definition is accepted. -/
theorem acceptedNames_of_build {D : Value} {path : String} {s : Schema} (h : Definition.Grammatical D)
    (hbuild : Definition.build path D = .ok s) : s.AcceptedNames := by
  refine Definition.build_induction (motive := fun _ s => s.AcceptedNames) ?string ?number ?integer ?boolean ?array
    ?object h hbuild
  case string | number | integer | boolean =>
    intro entries h _
    exact acceptedNames_wrap h (fun _ => rfl) fun _ => List.forall_mem_nil _
  case array =>
    intro entries d items h _ _ hitems
    exact acceptedNames_wrap h (fun _ => rfl) fun _ => List.forall_mem_singleton.mpr hitems
  case object =>
    intro entries ps h _ hps
    refine acceptedNames_wrap h (fun _ => rfl) fun _ => ?_
    refine List.forall_mem_map.mpr ?_
    intro p hp
    obtain ⟨e, -, -, hnames⟩ := exists_left_of_forall₂ hps hp
    exact hnames

/-- The empty name is not shared. -/
theorem ne_empty_of_sharedName? {s : Schema} {name : String} (h : s.sharedName? = some name) : name ≠ "" := by
  rintro rfl
  have hempty := (Option.filter_eq_some_iff.mp h).2
  cases hempty

/-- A node of a schema that was loaded from a definition. -/
def IsLoaded (s : Schema) : Prop := ∃ D u, ofDefinition D = .ok u ∧ s ∈ u.nodes

theorem IsLoaded.accepts {s : Schema} (h : s.IsLoaded) {name : String} (hname : s.sharedName? = some name) :
    accepts name = true := by
  obtain ⟨D, u, hload, hs⟩ := h
  obtain ⟨hgrammar, hbuild⟩ := ofDefinition_eq_ok.mp hload
  exact acceptedNames_of_build hgrammar hbuild s hs name (Option.filter_eq_some_iff.mp hname).1

end Schema

namespace Documentation

open Routing Schema

/-! ### Names in documents -/

section Generate

variable {r : Registry} {settings : Settings} {doc : Doc}

/-- A name that the documentation comes to is given to a component, or to a node of a shown schema. -/
theorem origin_of_mem_shownNames {name : String} (h : name ∈ shownNames r) :
    name ∈ r.components.map (·.1) ∨ ∃ t ∈ shownIn r, ∃ s ∈ t.nodes, s.sharedName? = some name := by
  rcases List.mem_append.mp h with h | h
  · obtain ⟨c, hc, h⟩ := List.mem_flatMap.mp h
    rcases List.mem_cons.mp h with rfl | h
    · exact .inl (List.mem_map_of_mem hc)
    · obtain ⟨n, hn, rfl⟩ := List.mem_map.mp h
      obtain ⟨child, hchild, hn⟩ := List.mem_flatMap.mp hn
      obtain ⟨hs, hname⟩ := mem_namedNodes.mp hn
      exact .inr ⟨c.2, List.mem_append_left _ (List.mem_map_of_mem hc), n.2, nodes_child_subset hchild hs, hname⟩
  · obtain ⟨t, ht, h⟩ := List.mem_flatMap.mp h
    obtain ⟨n, hn, rfl⟩ := List.mem_map.mp h
    obtain ⟨hs, hname⟩ := mem_namedNodes.mp hn
    exact .inr ⟨t, List.mem_append_right _ ht, n.2, hs, hname⟩

theorem isLegal_of_mem_refusalNames : ∀ name ∈ refusalNames, IsLegal name := by
  have hnames : refusalNames = ["ValidationErrorResponse", "ValidationErrorRecord"] := by with_unfolding_all rfl
  rw [hnames]
  decide

/-- **The names of the components** in the document of a registry. Every reference is to one of them, and none is
empty. Each is legal, or but for a line feed at its end, or it was given to a schema that was not loaded. All are legal
if all names are that the documentation comes to; and only then, if every object declares a property once. -/
theorem component_keys (hr : r.Reachable) (h : generate r settings = .ok doc) :
    ∃ entries, doc.get? "components" = some (.record [("schemas", .record entries)]) ∧
      (∀ name ∈ doc.references, name ∈ entries.map (·.1)) ∧
      (∀ key ∈ entries.map (·.1), key ≠ "" ∧ (IsLegal key ∨ IsLegalLine key ∨
        ∃ t ∈ shownIn r, ∃ s ∈ t.nodes, s.sharedName? = some key ∧ ¬ s.IsLoaded)) ∧
      ((∀ name ∈ shownNames r, IsLegal name) → ∀ key ∈ entries.map (·.1), IsLegal key) ∧
      ((∀ s ∈ shownIn r, s.Named) →
        ((∀ key ∈ entries.map (·.1), IsLegal key) ↔ ∀ name ∈ shownNames r, IsLegal name)) := by
  obtain ⟨entries, hcomponents, hkeys, hshown, hreferences⟩ := components_of_generate h
  have hlegal (hnames : ∀ name ∈ shownNames r, IsLegal name) : ∀ key ∈ entries.map (·.1), IsLegal key := by
    intro key hkey
    rcases hkeys key hkey with hkey | hkey
    · exact hnames key hkey
    · exact isLegal_of_mem_refusalNames key hkey
  refine ⟨entries, hcomponents, hreferences, ?_, hlegal, ?_⟩
  · intro key hkey
    have haccepted (h : accepts key = true) {P : Prop} : key ≠ "" ∧ (IsLegal key ∨ IsLegalLine key ∨ P) :=
      ⟨ComponentName.ne_empty_of_accepts h, or_assoc.mp (.inl (ComponentName.accepts_iff.mp h))⟩
    rcases hkeys key hkey with hkey | hkey
    · rcases origin_of_mem_shownNames hkey with hkey | ⟨t, ht, s, hs, hname⟩
      · obtain ⟨c, hc, rfl⟩ := List.mem_map.mp hkey
        exact haccepted (hr.registrable.components c hc).1
      · -- the grammar of definitions has the same check as the registry, the builders have none
        by_cases hloaded : s.IsLoaded
        · exact haccepted (hloaded.accepts hname)
        · exact ⟨ne_empty_of_sharedName? hname, .inr (.inr ⟨t, ht, s, hs, hname, hloaded⟩)⟩
    · exact haccepted (ComponentName.accepts_iff.mpr (.inl (isLegal_of_mem_refusalNames key hkey)))
  · intro hnamed
    exact ⟨fun hall name hname => hall name (hshown hnamed name hname), hlegal⟩

end Generate

/-- A note, under some name. -/
def note (name : String) : Schema := .string { name := some name } {}

/-- A note is shown. -/
def showNote (name : String) : RouteDescription where
  responses := [(.str "200", [(.str "content", .content [(.str "application/json", [(.str "schema",
    .schema (note name))])])])]

/-- Notes are shown, and nothing else. -/
def notebook (name : String) : Registry where
  routes := [
    { method := "GET"
      path := "/note"
      stages := [.description (showNote name)]
      handler := .function "note" fun _ => ⟨[], .ok (.value .null)⟩
      name := none
      validators := []
      description := some (showNote name) }]

theorem reachable_notebook (name : String) : (notebook name).Reachable := by
  have hadd : ({} : Registry).addRoute "get" "/note" [.description (showNote name)]
      (.function "note" fun _ => ⟨[], .ok (.value .null)⟩) none = .ok (notebook name, ⟨0, "GET", "/note"⟩) := rfl
  exact .addRoute .empty hadd

/-- The name of the notes is legal. -/
theorem component_keys_notebook :
    (notebook "Note").Reachable ∧ shownNames (notebook "Note") = ["Note"] ∧
      ∃ doc entries, generate (notebook "Note") {} = .ok doc ∧ doc.references = ["Note"] ∧
        doc.get? "components" = some (.record [("schemas", .record entries)]) ∧
        (∀ name ∈ doc.references, name ∈ entries.map (·.1)) ∧ ∀ key ∈ entries.map (·.1), IsLegal key := by
  have hshown : shownNames (notebook "Note") = ["Note"] := by with_unfolding_all rfl
  obtain ⟨doc, hdoc, hnote⟩ : ∃ doc, generate (notebook "Note") {} = .ok doc ∧ doc.references = ["Note"] :=
    ⟨_, rfl, by with_unfolding_all rfl⟩
  obtain ⟨entries, hcomponents, hreferences, -, hlegal, -⟩ := component_keys (reachable_notebook _) hdoc
  refine ⟨reachable_notebook _, hshown, doc, entries, hdoc, hnote, hcomponents, hreferences, hlegal ?_⟩
  rw [hshown]
  decide

/-- A line feed at the end of a name passes in a definition and at registration, and any name does in a schema that is
put together by hand: there are documents with names that are not legal, and with references to them. -/
theorem component_keys_illegal :
    ofDefinition (.record [("type", .str "string"), ("name", .str "Note\n")]) = .ok (note "Note\n") ∧
      ((notebook "Note\n").Reachable ∧ ∃ doc d, generate (notebook "Note\n") {} = .ok doc ∧
        doc.references = ["Note\n"] ∧
        doc.get? "components" = some (.record [("schemas", .record [("Note\n", d)])])) ∧
      ((notebook "a b/c").Reachable ∧ ∃ doc d, generate (notebook "a b/c") {} = .ok doc ∧
        doc.references = ["a b/c"] ∧
        doc.get? "components" = some (.record [("schemas", .record [("a b/c", d)])])) ∧
      (∃ r doc d, r.Reachable ∧ r.components = [("Note\n", .string {} {})] ∧ generate r {} = .ok doc ∧
        doc.get? "components" = some (.record [("schemas", .record [("Note\n", d)])])) ∧
      ¬ IsLegal "Note\n" ∧ ¬ IsLegal "a b/c" := by
  have hadd : ({} : Registry).addComponent "Note\n" (.string {} {}) =
      .ok { components := [("Note\n", .string {} {})] } := by with_unfolding_all rfl
  refine ⟨by with_unfolding_all rfl, ⟨reachable_notebook _, ?_⟩, ⟨reachable_notebook _, ?_⟩, ?_, by decide, by decide⟩
  · exact ⟨_, _, rfl, by with_unfolding_all rfl, by with_unfolding_all rfl⟩
  · exact ⟨_, _, rfl, by with_unfolding_all rfl, by with_unfolding_all rfl⟩
  · exact ⟨_, _, _, .addComponent .empty hadd, rfl, rfl, by with_unfolding_all rfl⟩

end Documentation

end ApiContract
