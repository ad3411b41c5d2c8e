import ApiContract.Documentation.Doc
import ApiContract.Proofs.Entries
import Mathlib.Data.List.Nodup

/-!
# Members of a document

Setting a member makes its document the one that is found under its key (`Doc.get?_set_self`) and leaves what
is found under any other key (`Doc.get?_set_of_ne`). A new member goes to the end, and one that is there is
replaced where it stands, so the keys of members stay pairwise different (`Doc.KeysDiffer.set`).
-/

namespace ApiContract.Doc

theorem membersToValues_eq (ms : List (Value × Doc)) :
    membersToValues ms = ms.map fun m => (m.1, m.2.toValue) := by
  induction ms with
  | nil => rfl
  | cons m ms ih =>
      obtain ⟨key, d⟩ := m
      rw [List.map_cons, ← ih]
      rfl

theorem itemsToValues_eq (ds : List Doc) : itemsToValues ds = ds.map toValue := by
  induction ds with
  | nil => rfl
  | cons d ds ih =>
      rw [List.map_cons, ← ih]
      rfl

variable {doc : Doc} {key other : String}

/-- A record has the members that it lists. -/
theorem get?_record (members : List (String × Doc)) (key : String) :
    (record members).get? key = members.lookup key := by
  induction members with
  | nil => rfl
  | cons m members ih =>
      obtain ⟨k, d⟩ := m
      show (List.find? _ ((Value.str k, d) :: members.map fun m => (Value.str m.1, m.2))).map _ = _
      rw [List.find?_cons, List.lookup_cons]
      by_cases hkey : key = k
      · have hsame : (Value.str key).same (.str k) = true := Value.same_str_left.mpr (hkey ▸ rfl)
        rw [hsame, hkey, beq_self_eq_true]
        rfl
      · have hsame : (Value.str key).same (.str k) = false := by
          rw [← Bool.not_eq_true, Value.same_str_left]
          exact fun heq => hkey (Value.str.inj heq).symm
        rw [hsame, beq_false_of_ne hkey]
        exact ih

/-- A member that gets a new document is still found under its key. -/
theorem find?_map_replace (ms : List (Value × Doc)) (key other : Value) (d : Doc) :
    (ms.map fun m => if key.same m.1 then (m.1, d) else m).find? (fun m => other.same m.1) =
      (ms.find? fun m => other.same m.1).map fun m => if key.same m.1 then (m.1, d) else m := by
  rw [List.find?_map]
  congr 2
  funext m
  rw [Function.comp_apply]
  split <;> rfl

/-- What is set is found. -/
@[simp] theorem get?_set_self (doc : Doc) (key : String) (d : Doc) :
    (doc.set key d).get? key = some d := by
  show ((setMember doc.members (.str key) d).find? _).map _ = _
  rw [setMember]
  split
  · rename_i hany
    rw [find?_map_replace]
    obtain ⟨m, hm⟩ := Option.isSome_iff_exists.mp (List.isSome_find?.trans hany)
    rw [hm, Option.map_some, if_pos (List.find?_some hm :)]
    rfl
  · rename_i hany
    rw [List.find?_append, List.find?_eq_none.mpr]
    · simp
    · exact fun m hm hsame => hany (List.any_eq_true.mpr ⟨m, hm, hsame⟩)

/-- The other members stay. -/
theorem get?_set_of_ne (doc : Doc) (d : Doc) (h : other ≠ key) :
    (doc.set key d).get? other = doc.get? other := by
  show ((setMember doc.members (.str key) d).find? _).map _ = _
  rw [setMember]
  split
  · rw [find?_map_replace, get?, Option.map_map]
    cases hfind : doc.members.find? fun m => (Value.str other).same m.1 with
    | none => rfl
    | some m =>
        have hm : m.1 = .str other := Value.same_str_left.mp (List.find?_some hfind :)
        rw [Option.map_some, Function.comp_apply, if_neg]
        · rfl
        · rw [hm, Value.same_str_left]
          exact fun heq => h (Value.str.inj heq)
  · have hdiffer : ¬ (Value.str other).same (.str key) = true := by
      rw [Value.same_str_left]
      exact fun heq => h (Value.str.inj heq).symm
    rw [List.find?_append, List.find?_singleton, if_neg hdiffer, Option.or_none]
    rfl

theorem get?_setSome_self (doc : Doc) (key : String) (d : Option Doc) :
    (doc.setSome key d).get? key = d.or (doc.get? key) := by
  cases d with
  | none => rfl
  | some d => exact get?_set_self doc key d

theorem get?_setSome_of_ne (doc : Doc) (d : Option Doc) (h : other ≠ key) :
    (doc.setSome key d).get? other = doc.get? other := by
  cases d with
  | none => rfl
  | some d => exact get?_set_of_ne doc d h

/-- Replacing what stands under a key keeps the keys. -/
theorem any_map_replace (ms : List (Value × Doc)) (key other : Value) (d : Doc) :
    (ms.map fun m => if key.same m.1 then (m.1, d) else m).any (fun m => other.same m.1) =
      ms.any fun m => other.same m.1 := by
  rw [List.any_map]
  congr 1
  funext m
  rw [Function.comp_apply]
  split <;> rfl

/-- What is set last stays. -/
theorem set_set (doc : Doc) (key : String) (d e : Doc) : (doc.set key d).set key e = doc.set key e := by
  show Doc.object (setMember (setMember doc.members (.str key) d) (.str key) e) =
    .object (setMember doc.members (.str key) e)
  unfold setMember
  by_cases hany : (doc.members.any fun m => (Value.str key).same m.1) = true
  · rw [if_pos hany, any_map_replace, if_pos hany, if_pos hany, List.map_map]
    congr 1
    refine List.map_congr_left fun m _ => ?_
    rw [Function.comp_apply]
    split_ifs <;> rfl
  · have hself : (Value.str key).same (.str key) = true := Value.same_str_left.mpr rfl
    rw [if_neg hany, if_neg hany, if_pos, List.map_append, List.map_singleton, if_pos hself]
    · congr 2
      refine (List.map_congr_left fun m hm => ?_).trans (List.map_id _)
      exact if_neg fun hsame => hany (List.any_eq_true.mpr ⟨m, hm, hsame⟩)
    · exact List.any_eq_true.mpr ⟨_, List.mem_append_right _ List.mem_cons_self, hself⟩

/-- Two members are set in any order once there is a member for one of them. -/
theorem set_comm (h : other ≠ key) (hkey : (doc.get? key).isSome = true) (d e : Doc) :
    (doc.set other e).set key d = (doc.set key d).set other e := by
  have hdiffer {k : Value} (hk : (Value.str key).same k = true) : ¬ (Value.str other).same k = true := by
    rw [Value.same_str_left] at hk ⊢
    exact fun hk' => h (Value.str.inj (hk'.symm.trans hk))
  have hany : (doc.members.any fun m => (Value.str key).same m.1) = true := by
    rwa [get?, Option.isSome_map, List.isSome_find?] at hkey
  show Doc.object (setMember (setMember doc.members (.str other) e) (.str key) d) =
    .object (setMember (setMember doc.members (.str key) d) (.str other) e)
  unfold setMember
  rw [if_pos hany, any_map_replace]
  by_cases hother : (doc.members.any fun m => (Value.str other).same m.1) = true
  · rw [if_pos hother, any_map_replace, if_pos hany, if_pos hother, List.map_map, List.map_map]
    congr 1
    refine List.map_congr_left fun m _ => ?_
    rw [Function.comp_apply, Function.comp_apply]
    by_cases hm : (Value.str key).same m.1 = true
    · rw [if_neg (hdiffer hm), if_pos hm, if_neg (hdiffer hm)]
    · rw [if_neg hm]
      split_ifs <;> rfl
  · rw [if_neg hother, if_neg hother, if_pos, List.map_append, List.map_singleton,
      if_neg fun hsame => hdiffer hsame (Value.same_str_left.mpr rfl)]
    rw [List.any_append, hany, Bool.true_or]

/-! ### Members in their order -/

/-- A new key goes to the end. -/
theorem members_set (hkey : ∀ m ∈ doc.members, m.1 ≠ .str key) (d : Doc) :
    (doc.set key d).members = doc.members ++ [(.str key, d)] := by
  show setMember doc.members (.str key) d = _
  rw [setMember, if_neg]
  rw [List.any_eq_true]
  rintro ⟨m, hm, hsame⟩
  exact hkey m hm (Value.same_str_left.mp hsame)

theorem get?_eq_none_iff : doc.get? key = none ↔ ∀ m ∈ doc.members, m.1 ≠ .str key := by
  rw [get?, Option.map_eq_none_iff, List.find?_eq_none]
  exact forall₂_congr fun m _ => not_congr Value.same_str_left

/-- No two members have the same key. -/
def KeysDiffer (doc : Doc) : Prop := (doc.members.map (·.1)).Nodup

/-- What is set under a key that is there takes the place of what was there. -/
theorem KeysDiffer.members_set (h : doc.KeysDiffer) {old : Doc} (hold : doc.get? key = some old) (d : Doc) :
    ∃ before after, doc.members = before ++ (.str key, old) :: after ∧
      (doc.set key d).members = before ++ (.str key, d) :: after := by
  obtain ⟨⟨k, d'⟩, hfind, rfl⟩ := Option.map_eq_some_iff.mp hold
  obtain ⟨hsame, before, after, hmembers, hbefore⟩ := List.find?_eq_some_iff_append.mp hfind
  obtain rfl : k = .str key := Value.same_str_left.mp hsame
  refine ⟨before, after, hmembers, ?_⟩
  have hother {ms : List (Value × Doc)} (hms : ∀ m ∈ ms, m.1 ≠ .str key) :
      ms.map (fun m => if (Value.str key).same m.1 then (m.1, d) else m) = ms := by
    refine (List.map_congr_left fun m hm => ?_).trans (List.map_id ms)
    exact if_neg fun hsame => hms m hm (Value.same_str_left.mp hsame)
  have hkeys : ∀ m ∈ before ++ after, m.1 ≠ .str key := by
    rw [KeysDiffer, hmembers, List.map_append, List.map_cons, List.nodup_middle, List.nodup_cons,
      ← List.map_append] at h
    exact fun m hm hkey => h.1 (List.mem_map.mpr ⟨m, hm, hkey⟩)
  obtain ⟨hbefore, hafter⟩ := List.forall_mem_append.mp hkeys
  show setMember doc.members (.str key) d = _
  have hany : (doc.members.any fun m => (Value.str key).same m.1) = true :=
    List.any_eq_true.mpr ⟨_, hmembers ▸ List.mem_append_right _ List.mem_cons_self, hsame⟩
  rw [setMember, if_pos hany, hmembers, List.map_append, List.map_cons, hother hbefore, hother hafter,
    if_pos hsame]

theorem KeysDiffer.set (h : doc.KeysDiffer) (key : String) (d : Doc) : (doc.set key d).KeysDiffer := by
  cases hold : doc.get? key with
  | none =>
      rw [get?_eq_none_iff] at hold
      rw [KeysDiffer, Doc.members_set hold, List.map_append, List.nodup_append]
      refine ⟨h, List.nodup_singleton _, fun k hk k' hk' hsame => ?_⟩
      obtain ⟨m, hm, rfl⟩ := List.mem_map.mp hk
      exact hold m hm (hsame.trans (List.mem_singleton.mp hk'))
  | some old =>
      obtain ⟨before, after, hmembers, hset⟩ := h.members_set hold d
      rw [KeysDiffer, hmembers] at h
      rw [KeysDiffer, hset]
      simpa using h

/-- Setting a member adds one if there is none with its key. -/
theorem length_members_set (doc : Doc) (key : String) (d : Doc) :
    (doc.set key d).members.length = doc.members.length + if (doc.get? key).isSome then 0 else 1 := by
  show (setMember doc.members (.str key) d).length = _
  rw [setMember, get?, Option.isSome_map, List.isSome_find?]
  split
  · exact List.length_map _
  · rw [List.length_append]
    rfl

end ApiContract.Doc
