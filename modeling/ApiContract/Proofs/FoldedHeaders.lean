import ApiContract.Proofs.MissingProperties
import ApiContract.Proofs.UndeclaredInput

/-!
# Header names in two spellings

A header counts by its folded name and its value alone: a closed object keeps of it the item of the declared name
that it is matched with (`keptHeader`). So headers that differ only in the case of their names are normalized to
the same result, and a property whose name no other one equals ignoring case takes its item from the last header
of this name (`Pipeline.apply_header_of_folded`).
-/

namespace ApiContract

namespace Schema

/-- No other declared name equals the name ignoring case. -/
def FoldedAlone (ps : List (Value × Schema)) (name : String) : Prop :=
  ∀ q ∈ ps, ∀ other, q.1 = .str other → Text.toLower other = Text.toLower name → other = name

/-- What a closed object keeps of a header: its cleaned item, under the declared name that it is matched with. -/
def keptHeader (names : List (String × Value)) (ps : List (Value × Schema)) (folded : String) (v : Value) :
    Option (Value × Value) := do
  let key ← names.lookup folded
  let child ← property? key ps
  return (key, child.clean v)

/-- A header that is matched with no declared name is not declared. -/
theorem property?_of_lookup_eq_none {ps : List (Value × Schema)} (hs : Names ps) {names : List (String × Value)}
    (hnames : foldedNames ps = .ok names) {name : String} (h : names.lookup (Text.toLower name) = none) :
    property? (.str name) ps = none := by
  refine property?_of_no_match hs rfl fun p hp other hother hfolded => ?_
  have hne := List.lookup_eq_none_iff.mp h _ ((foldedNames_eq_ok hnames _).mpr ⟨p, hp, other, hother, rfl⟩)
  rw [hfolded, bne_self_eq_false] at hne
  cases hne

section Closed

variable {a : Annotations} {f : ObjectFields} {ps : List (Value × Schema)} {names : List (String × Value)}

/-- Of headers a closed object keeps what it keeps of each, bound one after the other. -/
theorem cleanHeaders_record (hs : Names ps) (hnames : foldedNames ps = .ok names) (hclosed : f.additional = false)
    (raw : List (String × Value)) :
    (Schema.object a f ps).cleanHeaders (.record raw) =
      .ok (.dict (Value.ofEntries (raw.filterMap fun m => keptHeader names ps (Text.toLower m.1) m.2))) := by
  have hrenamed : (raw.map fun m => (Value.str m.1, m.2)).mapM (renamedHeader names) =
      .ok (raw.map fun m => ((names.lookup (Text.toLower m.1)).getD (.str m.1), m.2)) := by
    rw [mapM_eq_ok_iff, List.forall₂_map_left_iff, List.forall₂_map_right_iff, List.forall₂_same]
    exact fun m _ => renamedHeader_eq rfl m.2
  rw [Value.record, cleanHeaders_dict hs.texts hnames, hrenamed]
  show Except.ok _ = .ok _
  rw [Value.select, List.filterMap_map]
  refine congrArg (fun es => Except.ok (Value.dict (Value.ofEntries es))) (List.filterMap_congr fun m _ => ?_)
  simp only [Function.comp_apply, keptHeader]
  cases hfound : names.lookup (Text.toLower m.1) with
  | some key =>
      simp [cleaningRule]
      cases property? key ps <;> simp [hclosed]
  | none => simp [cleaningRule, property?_of_lookup_eq_none hs hnames hfound, hclosed]

/-- What is kept of a header is kept for a declared name. -/
theorem of_keptHeader {folded : String} {v : Value} {e : Value × Value}
    (h : keptHeader names ps folded v = some e) (hnames : foldedNames ps = .ok names) :
    ∃ p ∈ ps, ∃ name, p.1 = .str name ∧ folded = Text.toLower name ∧ e.1 = .str name := by
  obtain ⟨key, hkey, h⟩ := Option.bind_eq_some_iff.mp h
  obtain ⟨child, -, h⟩ := Option.bind_eq_some_iff.mp h
  obtain rfl := Option.some.inj h
  exact of_lookup_foldedNames hnames hkey

/-- The header of a name that stands alone is kept under this name. -/
theorem keptHeader_of_foldedAlone (hs : Names ps) (hnames : foldedNames ps = .ok names) {name : String} {t : Schema}
    (ht : (.str name, t) ∈ ps) (halone : FoldedAlone ps name) (v : Value) :
    keptHeader names ps (Text.toLower name) v = some (.str name, t.clean v) := by
  have hfound : names.lookup (Text.toLower name) = some (.str name) := by
    cases hlookup : names.lookup (Text.toLower name) with
    | none =>
        have hmissing := property?_of_lookup_eq_none hs hnames hlookup
        rw [property?_of_mem hs ht] at hmissing
        cases hmissing
    | some key =>
        obtain ⟨q, hq, other, hother, hfolded, rfl⟩ := of_lookup_foldedNames hnames hlookup
        rw [halone q hq other hother hfolded.symm]
  simp [keptHeader, hfound, property?_of_mem hs ht]

/-- The headers that are kept under a name that stands alone are those that equal it ignoring case. -/
theorem filter_keptHeaders (hs : Names ps) (hnames : foldedNames ps = .ok names) {name : String} {t : Schema}
    (ht : (.str name, t) ∈ ps) (halone : FoldedAlone ps name) (raw : List (String × Value)) :
    (raw.filterMap fun m => keptHeader names ps (Text.toLower m.1) m.2).filter
        (fun e => (Value.str name).same e.1) =
      (raw.filter fun m => Text.toLower m.1 == Text.toLower name).map fun m => (.str name, t.clean m.2) := by
  rw [List.filter_filterMap, ← List.filterMap_eq_map, List.filterMap_filter]
  refine List.filterMap_congr fun m _ => ?_
  by_cases hfolded : Text.toLower m.1 = Text.toLower name
  · rw [hfolded, keptHeader_of_foldedAlone hs hnames ht halone]
    simp
  · cases hkept : keptHeader names ps (Text.toLower m.1) m.2 with
    | none => simp [hfolded]
    | some e =>
        obtain ⟨p, hp, other, hother, hsame, hkey⟩ := of_keptHeader hkept hnames
        have hne : other ≠ name := fun heq => hfolded (heq ▸ hsame)
        simp [hfolded, hkey, hne]

end Closed

end Schema

namespace Pipeline

open Schema

/-- **Header names are matched without regard to case.** The object at the root, behind refinements, is closed. Two
rows of headers with the same values under names that differ in case have the same result, and what a property
whose name stands alone receives from cleaning is the cleaned value of the last header with its name. -/
theorem apply_header_of_folded {s : Schema} {p : Pipeline} {a : Annotations} {f : ObjectFields}
    {ps : List (Value × Schema)} (hp : ofSchema s = .ok p) (honce : s.Everywhere DeclaresOnce)
    (hroot : s.unwrap = .object a f ps) (hclosed : f.additional = false) :
    (∀ first second : List (String × Value),
        List.Forall₂ (fun m n => Text.toLower m.1 = Text.toLower n.1 ∧ m.2 = n.2) first second →
        p.apply .header (.record first) = p.apply .header (.record second)) ∧
      ∀ raw : List (String × Value), ∃ cleaned, s.cleanFor (some .header) (.record raw) = .ok (.dict cleaned) ∧
        (∀ e ∈ cleaned, ∃ q ∈ ps, e.1 = q.1) ∧
        ∀ name t, (.str name, t) ∈ ps → FoldedAlone ps name →
          Value.lookup? (.str name) cleaned =
            ((raw.filter fun m => Text.toLower m.1 == Text.toLower name).getLast?).map fun m => t.clean m.2 := by
  obtain ⟨rfl, hcompile⟩ := ofSchema_eq_ok hp
  have hs : Names ps := by
    have hnamed := (named_of_compileAt hcompile honce).unwrap
    rw [hroot] at hnamed
    exact hnamed.names
  obtain ⟨names, hnames⟩ := exists_foldedNames hs
  have hclean (raw : List (String × Value)) : p.schema.cleanFor (some .header) (.record raw) =
      .ok (.dict (Value.ofEntries (raw.filterMap fun m => keptHeader names ps (Text.toLower m.1) m.2))) := by
    rw [← cleanHeaders_record (a := a) hs hnames hclosed raw, ← hroot, cleanHeaders_unwrap]
    rfl
  refine ⟨fun first second h => apply_congr ?_, fun raw => ⟨_, hclean raw, ?_, fun name t ht halone => ?_⟩⟩
  · rw [hclean, hclean]
    refine congrArg (fun es => Except.ok (Value.dict (Value.ofEntries es))) ?_
    induction h with
    | nil => rfl
    | cons hhead _ ih => rw [List.filterMap_cons, List.filterMap_cons, hhead.1, hhead.2, ih]
  · refine fun e he => (Value.forall_ofEntries (P := fun key => ∃ q ∈ ps, key = q.1) (Q := fun _ => True)
      (fun e he => ⟨?_, trivial⟩) e he).1
    obtain ⟨m, -, hkept⟩ := List.mem_filterMap.mp he
    obtain ⟨q, hq, name, hname, -, hkey⟩ := of_keptHeader hkept hnames
    exact ⟨q, hq, hkey.trans hname.symm⟩
  · rw [Value.lookup?_ofEntries, filter_keptHeaders hs hnames ht halone, List.getLast?_map, Option.map_map]
    rfl

/-- Headers that must name what is accepted. Two of the declared names are one ignoring case. -/
def negotiation : Schema :=
  .refined {} ⟨.predicate ⟨"filled", "filled", .null, fun v => .ok v.truthy⟩, .str "no headers", none⟩ <|
    .object {} { required := some [.str "Accept"] }
      [(.str "Accept", .string {} {}), (.str "X-Id", .integer {} {}), (.str "x-id", .integer {} {})]

/-- A client that names what it accepts twice, and a header that is not declared. -/
def firstSpelling : List (String × Value) :=
  [("ACCEPT", .str "text"), ("X-ID", .str "7"), ("accept", .str "json"), ("Host", .str "here")]

/-- The same headers in another spelling. -/
def secondSpelling : List (String × Value) :=
  [("accept", .str "text"), ("x-id", .str "7"), ("Accept", .str "json"), ("HOST", .str "here")]

/-- The last name of what is accepted counts, and of the two names that are one the one that is declared last. -/
theorem apply_negotiation :
    ∃ p cleaned, ofSchema negotiation = .ok p ∧ negotiation.Everywhere DeclaresOnce ∧
      p.apply .header (.record firstSpelling) = p.apply .header (.record secondSpelling) ∧
      p.apply .header (.record firstSpelling) =
        .ok (.success (.record [("Accept", .str "json"), ("x-id", .int 7)])) ∧
      negotiation.cleanFor (some .header) (.record secondSpelling) = .ok (.dict cleaned) ∧
      Value.lookup? (.str "Accept") cleaned = some (.str "json") := by
  obtain ⟨p, hp, happly⟩ : ∃ p, ofSchema negotiation = .ok p ∧ p.apply .header (.record firstSpelling) =
      .ok (.success (.record [("Accept", .str "json"), ("x-id", .int 7)])) := ⟨_, rfl, rfl⟩
  have honce : negotiation.Everywhere DeclaresOnce := by
    simp [negotiation, Everywhere, EverywhereAmong, DeclaresOnce, Value.same]
  have hspelled : List.Forall₂ (fun m n => Text.toLower m.1 = Text.toLower n.1 ∧ m.2 = n.2) firstSpelling
      secondSpelling := by
    refine .cons ⟨?_, rfl⟩ (.cons ⟨?_, rfl⟩ (.cons ⟨?_, rfl⟩ (.cons ⟨?_, rfl⟩ .nil))) <;> decide +kernel
  have halone : FoldedAlone [(.str "Accept", .string {} {}), (.str "X-Id", .integer {} {}),
      (.str "x-id", .integer {} {})] "Accept" := by
    intro q hq other hother hfolded
    simp only [List.mem_cons, List.not_mem_nil, or_false] at hq
    obtain rfl | rfl | rfl := hq
    all_goals
      obtain rfl := Value.str.inj hother
    · rfl
    · exact absurd hfolded (by decide +kernel)
    · exact absurd hfolded (by decide +kernel)
  obtain ⟨hsame, hcleaned⟩ := apply_header_of_folded hp honce rfl rfl
  obtain ⟨cleaned, hcleaned, -, hlookup⟩ := hcleaned secondSpelling
  refine ⟨p, cleaned, hp, honce, hsame _ _ hspelled, happly, hcleaned, ?_⟩
  rw [hlookup "Accept" _ List.mem_cons_self halone]
  rfl

end Pipeline

end ApiContract
