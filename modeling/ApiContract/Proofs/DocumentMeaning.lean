import ApiContract.Proofs.Annotated
import ApiContract.Proofs.JsonSchema
import ApiContract.Proofs.Members

/-!
# What a document asks for

A document is built keyword by keyword, so what it asks of an instance is what its first keyword asks for
and what each further one does (`Doc.Means.setSome`). Annotations ask for nothing (`exists_annotate`).
-/

namespace ApiContract

namespace Doc

open JsonSchema

/-- The names of the properties that a document declares. -/
def propertyNames (doc : Doc) : List Value := JsonSchema.propertyNames (membersToValues doc.members)

/-- The keywords of a document are among the given ones, and for an instance they hold together exactly
if a condition holds. -/
structure Means (doc : Doc) (declared : List Value) (v : Value) (keywords : List String) (P : Prop) :
    Prop where
  object : ∃ ms, doc = .object ms
  keywords : ∀ m ∈ doc.members, ∃ k ∈ keywords, m.1 = .str k
  asks : (∀ m ∈ doc.members, holds declared m.1 m.2.toValue v = true) ↔ P

variable {doc : Doc} {declared : List Value} {v : Value} {keywords : List String} {P Q : Prop}

/-- An instance is valid against a document exactly if it meets what the document asks for. -/
theorem Means.valid_iff (h : doc.Means doc.propertyNames v keywords P) :
    valid doc.toValue v = true ↔ P := by
  obtain ⟨ms, rfl⟩ := h.object
  rw [← h.asks]
  show valid (.dict (membersToValues ms)) v = true ↔ _
  rw [valid_dict, List.all_eq_true]
  show (∀ m ∈ membersToValues ms, holds (propertyNames (.object ms)) m.1 m.2 v = true) ↔
    ∀ m ∈ ms, holds (propertyNames (.object ms)) m.1 m.2.toValue v = true
  rw [membersToValues_eq, List.forall_mem_map]

theorem Means.congr (h : doc.Means declared v keywords P) (hPQ : P ↔ Q) :
    doc.Means declared v keywords Q :=
  ⟨h.object, h.keywords, h.asks.trans hPQ⟩

theorem means_record (declared : List Value) (v : Value) (key : String) (d : Doc) :
    (record [(key, d)]).Means declared v [key] (holds declared (.str key) d.toValue v = true) where
  object := ⟨_, rfl⟩
  keywords := by simp [record, members]
  asks := by simp [record, members]

theorem Means.fresh (h : doc.Means declared v keywords P) {key : String} (hkey : key ∉ keywords) :
    ∀ m ∈ doc.members, m.1 ≠ .str key := by
  intro m hm heq
  obtain ⟨k, hk, hname⟩ := h.keywords m hm
  obtain rfl : k = key := Value.str.inj (hname.symm.trans heq)
  exact hkey hk

/-- A further keyword adds what it asks for. -/
theorem Means.set (h : doc.Means declared v keywords P) (key : String) (hkey : key ∉ keywords) (d : Doc) :
    (doc.set key d).Means declared v (key :: keywords)
      (P ∧ holds declared (.str key) d.toValue v = true) where
  object := ⟨_, rfl⟩
  keywords := by
    rw [members_set (h.fresh hkey), List.forall_mem_append, List.forall_mem_singleton]
    refine ⟨fun m hm => ?_, key, List.mem_cons_self, rfl⟩
    obtain ⟨k, hk, hname⟩ := h.keywords m hm
    exact ⟨k, List.mem_cons_of_mem _ hk, hname⟩
  asks := by
    rw [members_set (h.fresh hkey), List.forall_mem_append, List.forall_mem_singleton, h.asks]

/-- An optional keyword adds what it asks for if it is there. -/
theorem Means.setSome (h : doc.Means declared v keywords P) (key : String) (hkey : key ∉ keywords)
    (d : Option Doc) :
    (doc.setSome key d).Means declared v (key :: keywords)
      (P ∧ ∀ argument, d = some argument → holds declared (.str key) argument.toValue v = true) := by
  cases d with
  | none =>
      refine ⟨h.object, fun m hm => ?_, h.asks.trans (by simp)⟩
      obtain ⟨k, hk, hname⟩ := h.keywords m hm
      exact ⟨k, List.mem_cons_of_mem _ hk, hname⟩
  | some d => exact (h.set key hkey d).congr (by simp)

/-- A keyword that stands under a condition adds what it asks for where the condition holds. -/
theorem Means.setIf (h : doc.Means declared v keywords P) (key : String) (hkey : key ∉ keywords)
    (c : Bool) (d : Doc) :
    (if c then doc.set key d else doc).Means declared v (key :: keywords)
      (P ∧ (c = true → holds declared (.str key) d.toValue v = true)) := by
  cases c with
  | true => exact (h.set key hkey d).congr (by simp)
  | false => exact (h.setSome key hkey none).congr (by simp)

/-- A keyword that stands unless a condition holds adds what it asks for where it does not. -/
theorem Means.setUnless (h : doc.Means declared v keywords P) (key : String) (hkey : key ∉ keywords)
    (c : Bool) (d : Doc) :
    (if c then doc else doc.set key d).Means declared v (key :: keywords)
      (P ∧ (c = false → holds declared (.str key) d.toValue v = true)) := by
  cases c with
  | true => exact (h.setSome key hkey none).congr (by simp)
  | false => exact (h.set key hkey d).congr (by simp)

end Doc

namespace Schema

/-- Annotations without a default can be added where their examples are JSON, and they ask for nothing. -/
theorem exists_annotate {a : Annotations} (hdefault : a.default = none)
    (hexamples : ∀ vs, a.examples = some vs → Json.isSerializable (.list vs) = true) (doc : Doc) :
    ∃ annotated, annotate a doc = .ok annotated ∧
      ∀ {v : Value} {keywords : List String} {P : Prop}, (∀ declared, doc.Means declared v keywords P) →
        "description" ∉ keywords → "examples" ∉ "description" :: keywords →
          (JsonSchema.valid annotated.toValue v = true ↔ P) := by
  have hserializable : a.Serializable := ⟨by simp [hdefault], hexamples⟩
  have hannotated : annotated a doc = (doc.setSome "description" (a.description.map .text)).setSome
      "examples" (enumOf a.examples) := by
    rw [annotated, hdefault]
    rfl
  refine ⟨_, annotate_eq_ok.mpr ⟨hserializable, hannotated.symm⟩, fun hmeans hdescription hexample => ?_⟩
  refine (((hmeans _).setSome "description" hdescription _).setSome "examples" hexample _).valid_iff.trans ?_
  -- neither keyword is an assertion
  have hdescription {declared : List Value} {argument v : Value} :
      JsonSchema.holds declared (.str "description") argument v = true := rfl
  have hexamples {declared : List Value} {argument v : Value} :
      JsonSchema.holds declared (.str "examples") argument v = true := rfl
  simp [hdescription, hexamples]

end Schema

end ApiContract
