import ApiContract.Proofs.Children

/-!
# What annotations add to a document

Annotating a document sets its description, its default and its examples, and fails exactly if the default
or the examples cannot be written as JSON (`annotate_eq_ok`). So what is built for a node is its body, made of
the documents of its children, with what the annotations add to it (`exists_body_of_run`).
-/

namespace ApiContract

/-- The default and the examples can be written as JSON. -/
structure Annotations.Serializable (a : Annotations) : Prop where
  default : ∀ v ∈ a.default, Json.isSerializable v = true
  examples : ∀ vs ∈ a.examples, Json.isSerializable (.list vs) = true

namespace Schema

/-- A document with what the annotations add to it. -/
def annotated (a : Annotations) (doc : Doc) : Doc :=
  ((doc.setSome "description" (a.description.map .text)).setSome "default" (dataOf a.default)).setSome
    "examples" (enumOf a.examples)

theorem serializable_eq_ok {v : Value} {what : String} {d : Doc} :
    serializable v what = .ok d ↔ Json.isSerializable v = true ∧ d = .data v := by
  unfold serializable
  split
  · rename_i hv
    rw [hv]
    exact ⟨fun h => ⟨rfl, (Except.ok.inj h).symm⟩, fun h => h.2 ▸ rfl⟩
  · rename_i hv
    refine ⟨fun h => ?_, fun h => absurd h.1 hv⟩
    obtain ⟨_, -, h⟩ := bind_eq_ok_iff.mp h
    cases h

theorem set_serializable_eq_ok {doc d : Doc} {key what : String} {v : Value} :
    (do return doc.set key (← serializable v what)) = Except.ok d ↔
      Json.isSerializable v = true ∧ d = doc.set key (.data v) := by
  rw [bind_eq_ok_iff]
  constructor
  · rintro ⟨w, hw, hd⟩
    obtain ⟨hv, rfl⟩ := serializable_eq_ok.mp hw
    exact ⟨hv, (Except.ok.inj hd).symm⟩
  · rintro ⟨hv, rfl⟩
    exact ⟨_, serializable_eq_ok.mpr ⟨hv, rfl⟩, rfl⟩

/-- A document can be annotated exactly if the default and the examples can be written. -/
theorem annotate_eq_ok {a : Annotations} {doc d : Doc} :
    annotate a doc = .ok d ↔ a.Serializable ∧ d = annotated a doc := by
  obtain ⟨description, default, examples, name⟩ := a
  have hserializable : Annotations.Serializable ⟨description, default, examples, name⟩ ↔
      (∀ v ∈ default, Json.isSerializable v = true) ∧
        ∀ vs ∈ examples, Json.isSerializable (.list vs) = true :=
    ⟨fun h => ⟨h.default, h.examples⟩, fun h => ⟨h.1, h.2⟩⟩
  rw [hserializable]
  cases default with
  | none =>
      cases examples with
      | none =>
          constructor
          · intro h
            cases h
            exact ⟨⟨by simp, by simp⟩, rfl⟩
          · rintro ⟨-, rfl⟩
            rfl
      | some vs =>
          refine set_serializable_eq_ok.trans (and_congr_left fun _ => ?_)
          simp
  | some v =>
      cases examples with
      | none =>
          refine set_serializable_eq_ok.trans (and_congr_left fun _ => ?_)
          simp
      | some vs =>
          constructor
          · intro h
            obtain ⟨w, hw, h⟩ := bind_eq_ok_iff.mp h
            obtain ⟨hv, rfl⟩ := serializable_eq_ok.mp hw
            obtain ⟨hvs, rfl⟩ := set_serializable_eq_ok.mp h
            exact ⟨⟨by simpa using hv, by simpa using hvs⟩, rfl⟩
          · rintro ⟨⟨hv, hvs⟩, rfl⟩
            refine bind_eq_ok_iff.mpr ⟨.data v, serializable_eq_ok.mpr ⟨hv v rfl, rfl⟩, ?_⟩
            exact set_serializable_eq_ok.mpr ⟨hvs vs rfl, rfl⟩

/-- What is built for a node: the documents of its children, and the annotated body that is made of them. -/
theorem exists_body_of_run {s : Schema} {collecting : Bool} {c c' : Collector} {doc : Doc}
    (h : (s.inlineDoc collecting).run c = (.ok doc, c')) :
    ∃ docs a body,
      List.Forall₂ (fun t d => ∃ c₁ c₂, (t.document collecting).run c₁ = (.ok d, c₂)) s.children docs ∧
        s.annotations? = some a ∧ s.body docs = some body ∧ a.Serializable ∧ doc = annotated a body := by
  rw [inlineDoc_eq] at h
  obtain ⟨docs, c₁, hdocs, h⟩ := build_bind_eq_ok h
  obtain ⟨a, body, ha, hbody, hannotate⟩ := assemble_eq_ok.mp (build_lift_eq_ok h).1
  obtain ⟨hserializable, rfl⟩ := annotate_eq_ok.mp hannotate
  exact ⟨docs, a, body, build_mapM_eq_ok hdocs, ha, hbody, hserializable, rfl⟩

end Schema

end ApiContract
