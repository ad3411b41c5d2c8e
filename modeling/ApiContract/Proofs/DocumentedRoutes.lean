import ApiContract.Documentation.OpenApi
import ApiContract.Proofs.Independence
import ApiContract.Proofs.Members
import ApiContract.Proofs.Registration
import Mathlib.Data.List.Induction

/-!
# Which routes are described

The operations of a document are kept under a path without convertors and a method in lower case. The last
route with both is the one that is described there (`operationAt_describe`), so there are as many operations
as there are different places (`operationCount_describe`). No route is lost exactly if no two routes that are
described have a place in common (`described_iff`): a registry keeps paths apart that differ in their
convertors only, and the document does not.
-/

namespace ApiContract.Documentation

open Routing

/-! ### Operations under their places -/

/-- The operation under a path and a method. -/
def operationAt (paths : Doc) (place : String × String) : Option Doc :=
  (paths.get? place.1).bind (·.get? place.2)

/-- How many operations there are. -/
def operationCount (paths : Doc) : Nat := (paths.members.flatMap fun m => m.2.members).length

/-- Adds operations under their places, one after the other. -/
def describe (paths : Doc) (operations : List ((String × String) × Doc)) : Doc :=
  operations.foldl (fun paths o => addOperation paths o.1.1 o.1.2 o.2) paths

/-- An operation is found under its place, and the others stay where they are. -/
theorem operationAt_addOperation (paths : Doc) (path method : String) (doc : Doc)
    (place : String × String) :
    operationAt (addOperation paths path method doc) place =
      if place = (path, method) then some doc else operationAt paths place := by
  obtain ⟨path', method'⟩ := place
  rw [operationAt, addOperation]
  by_cases hpath : path' = path
  · subst hpath
    rw [Doc.get?_set_self, Option.bind_some]
    by_cases hmethod : method' = method
    · subst hmethod
      rw [Doc.get?_set_self, if_pos rfl]
    · rw [Doc.get?_set_of_ne _ _ hmethod, if_neg fun h => hmethod (Prod.mk.inj h).2, operationAt]
      cases paths.get? path' with
      | none => rfl
      | some operations => rfl
  · rw [Doc.get?_set_of_ne _ _ hpath, if_neg fun h => hpath (Prod.mk.inj h).1]
    rfl

/-- A new place adds an operation. -/
theorem operationCount_addOperation (h : paths.KeysDiffer) (path method : String) (doc : Doc) :
    operationCount (addOperation paths path method doc) =
      operationCount paths + if (operationAt paths (path, method)).isSome then 0 else 1 := by
  rw [operationCount, operationCount, addOperation, operationAt]
  cases hold : paths.get? path with
  | none =>
      rw [Doc.members_set (Doc.get?_eq_none_iff.mp hold), List.flatMap_append, List.length_append]
      rfl
  | some operations =>
      obtain ⟨before, after, hmembers, hset⟩ := h.members_set hold (operations.set method doc)
      rw [Option.getD_some, hset, hmembers]
      simp only [List.flatMap_append, List.flatMap_cons, List.length_append, Doc.length_members_set,
        Option.bind_some]
      omega

/-- The last operation that was added under a place is found there. -/
theorem operationAt_describe (paths : Doc) (operations : List ((String × String) × Doc))
    (place : String × String) :
    operationAt (describe paths operations) place =
      (operations.reverse.lookup place).or (operationAt paths place) := by
  induction operations generalizing paths with
  | nil => rfl
  | cons o operations ih =>
      obtain ⟨⟨path, method⟩, doc⟩ := o
      show operationAt (describe (addOperation paths path method doc) operations) place = _
      rw [ih, operationAt_addOperation, List.reverse_cons, List.lookup_append, Option.or_assoc]
      congr 1
      by_cases hplace : place = (path, method)
      · rw [if_pos hplace, hplace, List.lookup_cons, beq_self_eq_true]
        rfl
      · rw [if_neg hplace, List.lookup_cons, beq_false_of_ne hplace]
        rfl

theorem isSome_operationAt_describe (operations : List ((String × String) × Doc)) (place : String × String) :
    (operationAt (describe (.record []) operations) place).isSome = true ↔ place ∈ operations.map (·.1) := by
  have hnothing : operationAt (.record []) place = none := rfl
  rw [operationAt_describe, hnothing, Option.or_none, ← Option.ne_none_iff_isSome, ne_eq,
    List.lookup_eq_none_iff, List.mem_map]
  simp only [List.mem_reverse, bne_iff_ne, ne_eq, not_forall, not_not]
  exact ⟨fun ⟨o, ho, hplace⟩ => ⟨o, ho, hplace.symm⟩, fun ⟨o, ho, hplace⟩ => ⟨o, ho, hplace.symm⟩⟩

/-- There are as many operations as there are different places. -/
theorem operationCount_describe (operations : List ((String × String) × Doc)) :
    operationCount (describe (.record []) operations) = (operations.map (·.1)).eraseDups.length := by
  have hdiffer : (describe (.record []) operations).KeysDiffer ∧
      operationCount (describe (.record []) operations) = (operations.map (·.1)).eraseDups.length := by
    induction operations using List.reverseRecOn with
    | nil => exact ⟨List.nodup_nil, rfl⟩
    | append_singleton operations o ih =>
        obtain ⟨hdiffer, hcount⟩ := ih
        have hstep : describe (.record []) (operations ++ [o]) =
            addOperation (describe (.record []) operations) o.1.1 o.1.2 o.2 := List.foldl_concat ..
        rw [hstep, operationCount_addOperation hdiffer, hcount, List.map_append, List.map_singleton,
          eraseDups_concat]
        refine ⟨hdiffer.set _ _, ?_⟩
        by_cases hplace : o.1 ∈ operations.map (·.1)
        · rw [if_pos ((isSome_operationAt_describe ..).mpr hplace), if_pos hplace]
          rfl
        · rw [if_neg fun h => hplace ((isSome_operationAt_describe ..).mp h), if_neg hplace, List.length_append]
          rfl
  exact hdiffer.2

/-! ### Documents -/

/-- The place of a route in a document. -/
def placeOf (route : Route) : String × String :=
  (PathPattern.documented route.path, Text.toLower route.method)

/-- A document is the operation of a route, whatever has been collected. -/
structure IsOperation (settings : Settings) (route : Route) (doc : Doc) : Prop where
  built : ∃ c c', (operation settings route).run c = (.ok doc, c')
  only : ∀ c c' doc', (operation settings route).run c = (.ok doc', c') → doc' = doc

theorem isOperation_of_run {settings : Settings} {route : Route} {doc : Doc} {c c' : Collector}
    (h : (operation settings route).run c = (.ok doc, c')) : IsOperation settings route doc where
  built := ⟨c, c', h⟩
  only := fun _ _ _ h' => determined_operation settings route h' h

/-- Routes and their operations under their places, in order. -/
def Described (settings : Settings) (routes : List Route) (operations : List ((String × String) × Doc)) : Prop :=
  List.Forall₂ (fun route o => placeOf route = o.1 ∧ IsOperation settings route o.2) routes operations

theorem Described.places {settings : Settings} {routes : List Route}
    {operations : List ((String × String) × Doc)} (h : Described settings routes operations) :
    operations.map (·.1) = routes.map placeOf := by
  induction h with
  | nil => rfl
  | cons hhead _ ih => rw [List.map_cons, List.map_cons, ih, hhead.1]

/-- The operations of routes are described under the places of the routes, one after the other. -/
theorem foldlM_addOperation_eq_ok {settings : Settings} {routes : List Route} {start paths : Doc}
    {c c' : Collector}
    (h : (routes.foldlM (fun paths route => do
      let doc ← operation settings route
      return addOperation paths (PathPattern.documented route.path) (Text.toLower route.method) doc)
      start : Build Doc).run c = (.ok paths, c')) :
    ∃ operations, Described settings routes operations ∧ paths = describe start operations := by
  induction routes generalizing start c with
  | nil =>
      obtain ⟨rfl, -⟩ := build_pure_eq_ok h
      exact ⟨[], .nil, rfl⟩
  | cons route routes ih =>
      rw [List.foldlM_cons] at h
      obtain ⟨next, c₁, hstep, h⟩ := build_bind_eq_ok h
      obtain ⟨doc, c₂, hdoc, hstep⟩ := build_bind_eq_ok hstep
      obtain ⟨rfl, -⟩ := build_pure_eq_ok hstep
      obtain ⟨operations, hoperations, rfl⟩ := ih h
      exact ⟨(placeOf route, doc) :: operations, .cons ⟨rfl, isOperation_of_run hdoc⟩ hoperations, rfl⟩

/-- A document describes the visible routes of a registry. -/
theorem generate_eq_ok {r : Registry} {settings : Settings} {doc : Doc} (h : generate r settings = .ok doc) :
    ∃ operations, Described settings (r.routes.filter isVisible) operations ∧
      doc.get? "paths" = some (describe (.record []) operations) := by
  have hbuild : (build r settings).run {} = (.ok doc, ((build r settings).run {}).2) := Prod.ext h rfl
  obtain ⟨_, c₁, -, hbuild⟩ := build_bind_eq_ok hbuild
  obtain ⟨paths, c₂, hpaths, hbuild⟩ := build_bind_eq_ok hbuild
  obtain ⟨operations, hoperations, rfl⟩ := foldlM_addOperation_eq_ok hpaths
  obtain ⟨collector, c₃, -, hbuild⟩ := build_bind_eq_ok hbuild
  obtain ⟨rfl, -⟩ := build_pure_eq_ok hbuild
  refine ⟨operations, hoperations, ?_⟩
  rw [Doc.get?_set_of_ne _ _ (by decide), Doc.get?_set_self]

/-! ### Lost routes -/

/-- No two visible routes of a registry have both a method and a path without convertors in common. -/
def PlacesDiffer (r : Registry) : Prop :=
  (r.routes.filter isVisible).Pairwise fun a b =>
    ¬ (a.method = b.method ∧ PathPattern.documented a.path = PathPattern.documented b.path)

instance (r : Registry) : Decidable (PlacesDiffer r) :=
  inferInstanceAs (Decidable (List.Pairwise _ _))

theorem toLower_inj_of_mem_httpMethods : ∀ a ∈ httpMethods, ∀ b ∈ httpMethods,
    Text.toLower a = Text.toLower b → a = b := by
  decide

/-- In a registry that registration reaches, routes whose places differ have different places in a document as
well: the methods of routes are told apart in lower case. -/
theorem placesDiffer_iff {r : Registry} (hr : r.Reachable) :
    PlacesDiffer r ↔ ((r.routes.filter isVisible).map placeOf).Nodup := by
  have hmethod {a : Route} (ha : a ∈ r.routes.filter isVisible) : a.method ∈ httpMethods :=
    (hr.sound.routes a (List.mem_of_mem_filter ha)).method
  rw [PlacesDiffer, List.Nodup, List.pairwise_map]
  constructor
  · refine List.Pairwise.imp_of_mem fun {a b} ha hb hdiffer hplace => hdiffer ?_
    obtain ⟨hpath, hlower⟩ := Prod.mk.inj hplace
    exact ⟨toLower_inj_of_mem_httpMethods _ (hmethod ha) _ (hmethod hb) hlower, hpath⟩
  · refine List.Pairwise.imp fun {a b} hdiffer hsame => hdiffer ?_
    rw [placeOf, placeOf, hsame.1, hsame.2]

/-- Among operations with different places, each is found under its own. -/
theorem operationAt_describe_of_mem {operations : List ((String × String) × Doc)}
    (h : (operations.map (·.1)).Nodup) {o : (String × String) × Doc} (ho : o ∈ operations) :
    operationAt (describe (.record []) operations) o.1 = some o.2 := by
  obtain ⟨before, after, hsplit⟩ := List.append_of_mem (List.mem_reverse.mpr ho)
  rw [← List.nodup_reverse, ← List.map_reverse, hsplit, List.map_append, List.map_cons, List.nodup_middle,
    List.nodup_cons] at h
  have hlookup : operations.reverse.lookup o.1 = some o.2 := by
    refine List.lookup_eq_some_iff.mpr ⟨before, after, hsplit, fun p hp => bne_iff_ne.mpr fun hsame => ?_⟩
    exact h.1 (List.mem_append_left _ (List.mem_map.mpr ⟨p, hp, hsame.symm⟩))
  rw [operationAt_describe, hlookup]
  rfl

/-- **No visible route is lost from the document exactly if the places of the visible routes differ**, and then
each of them is described under its place. -/
theorem described_iff {r : Registry} (hr : r.Reachable) {settings : Settings} {doc : Doc}
    (h : generate r settings = .ok doc) :
    ∃ paths, doc.get? "paths" = some paths ∧
      (operationCount paths = (r.routes.filter isVisible).length ↔ PlacesDiffer r) ∧
      (PlacesDiffer r → ∀ route ∈ r.routes, isVisible route = true →
        ∃ op, operationAt paths (placeOf route) = some op ∧ IsOperation settings route op) := by
  obtain ⟨operations, hoperations, hpaths⟩ := generate_eq_ok h
  refine ⟨_, hpaths, ?_, fun hdiffer route hroute hvisible => ?_⟩
  · rw [operationCount_describe, hoperations.places, placesDiffer_iff hr, ← length_eraseDups_eq_iff,
      List.length_map]
  · rw [placesDiffer_iff hr, ← hoperations.places] at hdiffer
    obtain ⟨o, ho, hplace, hoperation⟩ :=
      exists_right_of_forall₂ hoperations (List.mem_filter.mpr ⟨hroute, hvisible⟩)
    rw [hplace]
    exact ⟨o.2, operationAt_describe_of_mem hdiffer ho, hoperation⟩

/-- A handler that answers with nothing. -/
def answerNothing : Handler := .function "nothing" fun _ => ⟨[], .ok (.value .null)⟩

/-- A route that is described in a few words. -/
def wordedRoute (method path summary : String) : Route where
  method := method
  path := path
  stages := [.description { summary := some summary }]
  handler := answerNothing
  name := none
  validators := []
  description := some { summary := some summary }

/-- Items are shown and stored under one path. -/
def items : Registry where
  routes := [wordedRoute "GET" "/items/\x7bid:int\x7d" "Show an item",
    wordedRoute "PUT" "/items/\x7bid:int\x7d" "Store an item"]

/-- Items are shown by number and by name, under paths that differ in a convertor. -/
def numberedAndNamed : Registry where
  routes := [wordedRoute "GET" "/items/\x7bid:int\x7d" "Show an item by number",
    wordedRoute "GET" "/items/\x7bid\x7d" "Show an item by name"]

theorem reachable_items : items.Reachable := by
  have hget : ({} : Registry).addRoute "get" "/items/\x7bid:int\x7d"
      [.description { summary := some "Show an item" }] answerNothing none =
      .ok ({ routes := [wordedRoute "GET" "/items/\x7bid:int\x7d" "Show an item"] }, ⟨0, "GET", _⟩) := rfl
  have hput : ({ routes := [wordedRoute "GET" "/items/\x7bid:int\x7d" "Show an item"] } : Registry).addRoute
      "put" "/items/\x7bid:int\x7d" [.description { summary := some "Store an item" }] answerNothing none =
      .ok (items, ⟨1, "PUT", _⟩) := rfl
  exact .addRoute (.addRoute .empty hget) hput

theorem reachable_numberedAndNamed : numberedAndNamed.Reachable := by
  have hnumber : ({} : Registry).addRoute "get" "/items/\x7bid:int\x7d"
      [.description { summary := some "Show an item by number" }] answerNothing none =
      .ok ({ routes := [wordedRoute "GET" "/items/\x7bid:int\x7d" "Show an item by number"] },
        ⟨0, "GET", _⟩) := rfl
  have hname : ({ routes := [wordedRoute "GET" "/items/\x7bid:int\x7d" "Show an item by number"] } :
      Registry).addRoute "get" "/items/\x7bid\x7d" [.description { summary := some "Show an item by name" }]
      answerNothing none = .ok (numberedAndNamed, ⟨1, "GET", _⟩) := rfl
  exact .addRoute (.addRoute .empty hnumber) hname

/-- Both routes of items are described. -/
theorem described_items :
    ∃ doc paths, generate items {} = .ok doc ∧ doc.get? "paths" = some paths ∧ operationCount paths = 2 ∧
      ∀ route ∈ items.routes, ∃ op, operationAt paths (placeOf route) = some op ∧ IsOperation {} route op := by
  have hdoc : ∃ doc, generate items {} = .ok doc := ⟨_, rfl⟩
  obtain ⟨doc, hdoc⟩ := hdoc
  have hdiffer : PlacesDiffer items := by decide
  obtain ⟨paths, hpaths, hcount, hdescribed⟩ := described_iff reachable_items hdoc
  refine ⟨doc, paths, hdoc, hpaths, hcount.mpr hdiffer, fun route hroute => ?_⟩
  refine hdescribed hdiffer route hroute ?_
  rcases List.mem_cons.mp hroute with rfl | hroute
  · rfl
  · rw [List.mem_singleton.mp hroute]
    rfl

/-- The route by number is lost: its place holds the operation of the route by name. -/
theorem lost_numbered :
    numberedAndNamed.Reachable ∧
      ∃ doc paths op, generate numberedAndNamed {} = .ok doc ∧ doc.get? "paths" = some paths ∧
      operationCount paths = 1 ∧ (numberedAndNamed.routes.filter isVisible).length = 2 ∧
      operationAt paths ("/items/\x7bid\x7d", "get") = some op ∧
      op.get? "summary" = some (.text "Show an item by name") := by
  exact ⟨reachable_numberedAndNamed, _, _, _, rfl, rfl, rfl, rfl, rfl, rfl⟩

end ApiContract.Documentation
