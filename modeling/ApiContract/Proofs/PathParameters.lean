import ApiContract.Proofs.CollectorCalls
import ApiContract.Routing.PathPattern

/-!
# What a path spells

The parameters of a path as a grammar: a brace, a name, perhaps a colon and the name of a convertor, and the
closing brace (`Opens`); a brace that opens no parameter is a character like any other (`Spells`). Every path
spells one row of parameters (`exists_spells`), and it is read as a pattern exactly if all their convertors are
known and no name comes twice (`exists_read_iff`).
-/

namespace ApiContract.PathPattern

/-- An identifier. -/
def IsName (s : String) : Prop :=
  (∃ c cs, s.toList = c :: cs ∧ isNameStart c = true) ∧ ∀ c ∈ s.toList, isNameChar c = true

/-- The part of a parameter behind its name. -/
def convertorText : Option String → List Char
  | none => []
  | some convertor => ':' :: convertor.toList

/-- A text that starts with a parameter, but for its opening brace, and what is behind it. -/
def Opens (cs : List Char) (name : String) (convertor : Option String) (rest : List Char) : Prop :=
  IsName name ∧ (∀ k, convertor = some k → IsName k) ∧
    cs = name.toList ++ (convertorText convertor ++ '}' :: rest)

/-- The parameters that a text spells, from left to right. -/
inductive Spells : List Char → List (String × Option String) → Prop
  | nil : Spells [] []
  | literal {c : Char} {cs : List Char} {ps : List (String × Option String)}
      (hc : c = '{' → ∀ name convertor rest, ¬ Opens cs name convertor rest) :
      Spells cs ps → Spells (c :: cs) ps
  | parameter {cs rest : List Char} {name : String} {convertor : Option String}
      {ps : List (String × Option String)} (hopens : Opens cs name convertor rest) :
      Spells rest ps → Spells ('{' :: cs) ((name, convertor) :: ps)

section Names

variable {cs rest : List Char} {name : String}

theorem isNameChar_of_isNameStart {c : Char} (h : isNameStart c = true) : isNameChar c = true := by
  unfold isNameStart at h
  unfold isNameChar Char.isAlphanum
  rw [Bool.or_eq_true] at h
  rcases h with h | h
  · simp [h]
  · simp [h]

/-- A name ends where the text goes on with another character. -/
theorem takeName?_append (hname : IsName name) (hrest : ∀ c ∈ rest.head?, isNameChar c = false) :
    takeName? (name.toList ++ rest) = some (name, rest) := by
  obtain ⟨⟨c, cs, hcons, hstart⟩, hchars⟩ := hname
  have hshape : takeName? (name.toList ++ rest) =
      some (String.ofList ((name.toList ++ rest).takeWhile isNameChar),
        (name.toList ++ rest).dropWhile isNameChar) := by
    rw [hcons, List.cons_append]
    exact if_pos hstart
  have hnone : rest.takeWhile isNameChar = [] ∧ rest.dropWhile isNameChar = rest := by
    cases rest with
    | nil => exact ⟨rfl, rfl⟩
    | cons d ds =>
        have hd := hrest d rfl
        exact ⟨List.takeWhile_cons_of_neg (by simp [hd]), List.dropWhile_cons_of_neg (by simp [hd])⟩
  rw [hshape, List.takeWhile_append_of_pos hchars, List.dropWhile_append_of_pos hchars, hnone.1, hnone.2,
    List.append_nil, String.ofList_toList]

theorem of_takeName? (h : takeName? cs = some (name, rest)) : IsName name ∧ cs = name.toList ++ rest := by
  unfold takeName? at h
  split at h
  · rename_i c tail
    split_ifs at h with hstart
    obtain ⟨rfl, rfl⟩ := Prod.mk.inj (Option.some.inj h)
    refine ⟨⟨⟨c, tail.takeWhile isNameChar, ?_, hstart⟩, ?_⟩, ?_⟩
    · rw [String.toList_ofList, List.takeWhile_cons_of_pos (isNameChar_of_isNameStart hstart)]
    · rw [String.toList_ofList]
      intro d hd
      exact List.all_eq_true.mp List.all_takeWhile d hd
    · rw [String.toList_ofList, List.takeWhile_append_dropWhile]
  · cases h

theorem head_convertorText (convertor : Option String) (rest : List Char) :
    ∀ c ∈ (convertorText convertor ++ '}' :: rest).head?, isNameChar c = false := by
  intro c hc
  cases convertor with
  | none =>
      obtain rfl := Option.some.inj hc
      decide
  | some k =>
      obtain rfl := Option.some.inj hc
      decide

/-- What is taken behind a brace is the parameter that opens there. -/
theorem takeParameter?_eq_some_iff {convertor : Option String} {size : Nat} :
    takeParameter? cs = some (name, convertor, size) ↔
      ∃ rest, Opens cs name convertor rest ∧ size = cs.length - rest.length := by
  constructor
  · intro h
    obtain ⟨⟨name', behind⟩, hname, hbehind⟩ := Option.bind_eq_some_iff.mp h
    obtain ⟨hisName, rfl⟩ := of_takeName? hname
    dsimp only at hbehind
    split at hbehind
    · -- the name is followed by the closing brace
      rename_i after
      obtain ⟨rfl, hrest⟩ := Prod.mk.inj (Option.some.inj hbehind)
      obtain ⟨rfl, rfl⟩ := Prod.mk.inj hrest
      exact ⟨after, ⟨hisName, by simp, rfl⟩, rfl⟩
    · -- a colon and a convertor stand between them
      obtain ⟨⟨k, behind'⟩, hk, hbehind'⟩ := Option.bind_eq_some_iff.mp hbehind
      obtain ⟨hisName', rfl⟩ := of_takeName? hk
      dsimp only at hbehind'
      split at hbehind'
      · rename_i after
        obtain ⟨rfl, hrest⟩ := Prod.mk.inj (Option.some.inj hbehind')
        obtain ⟨rfl, rfl⟩ := Prod.mk.inj hrest
        refine ⟨after, ⟨hisName, ?_, rfl⟩, rfl⟩
        intro k' hk'
        obtain rfl := Option.some.inj hk'
        exact hisName'
      · cases hbehind'
    · cases hbehind
  · rintro ⟨rest, ⟨hname, hconvertor, rfl⟩, rfl⟩
    apply Option.bind_eq_some_iff.mpr
    refine ⟨_, takeName?_append hname (head_convertorText convertor rest), ?_⟩
    cases convertor with
    | none => rfl
    | some k =>
        apply Option.bind_eq_some_iff.mpr
        refine ⟨_, takeName?_append (hconvertor k rfl) (head_convertorText none rest), ?_⟩
        rfl

theorem Opens.drop_eq {convertor : Option String} (h : Opens cs name convertor rest) :
    cs.drop (cs.length - rest.length) = rest := by
  obtain ⟨-, -, rfl⟩ := h
  have hlength : (name.toList ++ (convertorText convertor ++ '}' :: rest)).length - rest.length =
      (name.toList ++ (convertorText convertor ++ ['}'])).length := by
    simp
    omega
  have hsplit : name.toList ++ (convertorText convertor ++ '}' :: rest) =
      name.toList ++ (convertorText convertor ++ ['}']) ++ rest := by simp
  rw [hlength, hsplit, List.drop_left]

theorem takeParameter?_eq_none_iff :
    takeParameter? cs = none ↔ ∀ name convertor rest, ¬ Opens cs name convertor rest := by
  constructor
  · intro h name convertor rest hopens
    have hsome := takeParameter?_eq_some_iff.mpr ⟨rest, hopens, rfl⟩
    rw [h] at hsome
    cases hsome
  · intro h
    cases hp : takeParameter? cs with
    | none => rfl
    | some found =>
        obtain ⟨rest, hopens, -⟩ := takeParameter?_eq_some_iff.mp hp
        exact absurd hopens (h _ _ _)

end Names

/-! ### The parameters of a text -/

/-- Every text spells a row of parameters. -/
theorem exists_spells (cs : List Char) : ∃ ps, Spells cs ps := by
  -- not by the recursion of the list: a parameter is left behind as a whole
  induction hlength : cs.length using Nat.strongRecOn generalizing cs with
  | _ n ih =>
    cases cs with
    | nil => exact ⟨[], .nil⟩
    | cons c cs =>
        subst hlength
        by_cases hopens : c = '{' ∧ ∃ name convertor rest, Opens cs name convertor rest
        · obtain ⟨rfl, name, convertor, rest, hopens⟩ := hopens
          have hshorter : rest.length < ('{' :: cs).length := by
            rw [hopens.2.2]
            simp
            omega
          obtain ⟨ps, hps⟩ := ih _ hshorter rest rfl
          exact ⟨_, .parameter hopens hps⟩
        · obtain ⟨ps, hps⟩ := ih _ (Nat.lt_succ_self _) cs rfl
          refine ⟨ps, .literal ?_ hps⟩
          intro hc name convertor rest h
          exact hopens ⟨hc, name, convertor, rest, h⟩

/-- The convertor of a parameter has a kind. -/
def IsKnown (p : String × Option String) : Prop := ∃ k, Convertor.ofName? (p.2.getD "str") = some k

theorem readParts_eq (skip : Nat) (cs : List Char) : readParts skip cs = readParts 0 (cs.drop skip) := by
  induction skip generalizing cs with
  | zero => rfl
  | succ skip ih =>
      cases cs with
      | nil => rfl
      | cons c cs => exact ih cs

theorem readParts_literal {c : Char} {cs : List Char}
    (hc : c = '{' → ∀ name convertor rest, ¬ Opens cs name convertor rest) :
    readParts 0 (c :: cs) = (readParts 0 cs).map (.literal c :: ·) := by
  have hnone : (if c == '{' then takeParameter? cs else none) = none := by
    split_ifs with hbrace
    · exact takeParameter?_eq_none_iff.mpr (hc (beq_iff_eq.mp hbrace))
    · rfl
  rw [readParts, hnone]
  cases readParts 0 cs <;> rfl

theorem readParts_parameter {cs rest : List Char} {name : String} {convertor : Option String}
    (h : Opens cs name convertor rest) :
    readParts 0 ('{' :: cs) =
      match Convertor.ofName? (convertor.getD "str") with
      | some k => (readParts 0 rest).map (.parameter name k :: ·)
      | none => .error .pathPattern := by
  have hsome := takeParameter?_eq_some_iff.mpr ⟨rest, h, rfl⟩
  rw [readParts, if_pos (by decide), hsome]
  dsimp only
  cases Convertor.ofName? (convertor.getD "str") with
  | none => rfl
  | some k =>
      dsimp only
      rw [readParts_eq, h.drop_eq]
      cases readParts 0 rest <;> rfl

/-- A text is a row of parts exactly if the convertors of its parameters are known, and the parts have the names
of the parameters. -/
theorem readParts_of_spells {cs : List Char} {ps : List (String × Option String)} (h : Spells cs ps) :
    ((∀ p ∈ ps, IsKnown p) → ∃ parts, readParts 0 cs = .ok parts ∧ parameters parts = ps.map Prod.fst) ∧
      ((∃ p ∈ ps, ¬ IsKnown p) → readParts 0 cs = .error .pathPattern) := by
  induction h with
  | nil => exact ⟨fun _ => ⟨[], rfl, rfl⟩, by simp⟩
  | literal hc _ ih =>
      rw [readParts_literal hc]
      constructor
      · intro hknown
        obtain ⟨parts, hparts, hnames⟩ := ih.1 hknown
        rw [hparts]
        exact ⟨_, rfl, hnames⟩
      · intro hunknown
        rw [ih.2 hunknown]
        rfl
  | @parameter cs rest name convertor ps hopens _ ih =>
      rw [readParts_parameter hopens]
      constructor
      · intro hknown
        obtain ⟨⟨k, hk⟩, hrest⟩ := List.forall_mem_cons.mp hknown
        obtain ⟨parts, hparts, hnames⟩ := ih.1 hrest
        rw [hk, hparts]
        refine ⟨_, rfl, ?_⟩
        rw [List.map_cons, ← hnames]
        rfl
      · rintro ⟨p, hp, hunknown⟩
        cases hk : Convertor.ofName? (convertor.getD "str") with
        | none => rfl
        | some k =>
            rcases List.mem_cons.mp hp with rfl | hp
            · exact absurd ⟨k, hk⟩ hunknown
            · dsimp only
              rw [ih.2 ⟨p, hp, hunknown⟩]
              rfl

/-! ### Reading a path -/

theorem repeated_eq_nil_iff {parts : PathPattern} : parts.repeated = [] ↔ parts.parameters.Nodup := by
  rw [List.nodup_iff_count_le_one]
  constructor
  · intro h name
    by_contra hcount
    rw [Nat.not_le] at hcount
    have hmem : name ∈ parts.repeated := by
      apply Collector.mem_sortTexts.mpr
      rw [List.mem_filter, List.mem_eraseDups, decide_eq_true_eq]
      exact ⟨List.count_pos_iff.mp (by omega), hcount⟩
    rw [h] at hmem
    cases hmem
  · intro h
    apply List.eq_nil_iff_forall_not_mem.mpr
    intro name hname
    have := (List.mem_filter.mp (Collector.mem_sortTexts.mp hname)).2
    rw [decide_eq_true_eq] at this
    exact absurd (h name) (by omega)

/-- A path whose parameters have known convertors and different names. -/
def IsReadable (path : String) : Prop :=
  ∃ ps, Spells path.toList ps ∧ (∀ p ∈ ps, IsKnown p) ∧ (ps.map Prod.fst).Nodup

theorem read_of_readParts {path : String} {parts : PathPattern} (h : readParts 0 path.toList = .ok parts) :
    (parts.repeated = [] → read path = .ok parts) ∧
      (parts.repeated ≠ [] → ∃ names, read path = .error (.refused (.duplicateParameter names path))) := by
  unfold read
  rw [h]
  dsimp only [bind, Except.bind]
  constructor
  · intro hnil
    rw [hnil]
    rfl
  · intro hne
    split
    · rename_i hnil
      exact absurd hnil hne
    · exact ⟨_, rfl⟩
    · exact ⟨_, rfl⟩

/-- The outcome of reading a path, by the parameters that it spells. -/
theorem read_of_spells {path : String} {ps : List (String × Option String)} (h : Spells path.toList ps) :
    ((∃ p ∈ ps, ¬ IsKnown p) → read path = .error .pathPattern) ∧
      ((∀ p ∈ ps, IsKnown p) → ¬ (ps.map Prod.fst).Nodup →
        ∃ names, read path = .error (.refused (.duplicateParameter names path))) ∧
      ((∀ p ∈ ps, IsKnown p) → (ps.map Prod.fst).Nodup → ∃ parts, read path = .ok parts) := by
  obtain ⟨hparts, hunknown⟩ := readParts_of_spells h
  refine ⟨?_, ?_, ?_⟩
  · intro hp
    unfold read
    rw [hunknown hp]
    rfl
  · intro hknown hnodup
    obtain ⟨parts, hok, hnames⟩ := hparts hknown
    rw [← hnames, ← repeated_eq_nil_iff] at hnodup
    exact (read_of_readParts hok).2 hnodup
  · intro hknown hnodup
    obtain ⟨parts, hok, hnames⟩ := hparts hknown
    rw [← hnames, ← repeated_eq_nil_iff] at hnodup
    exact ⟨parts, (read_of_readParts hok).1 hnodup⟩

theorem exists_read_iff {path : String} : (∃ parts, read path = .ok parts) ↔ IsReadable path := by
  constructor
  · rintro ⟨parts, hparts⟩
    obtain ⟨ps, hps⟩ := exists_spells path.toList
    obtain ⟨hunknown, hrepeated, -⟩ := read_of_spells hps
    have hknown : ∀ p ∈ ps, IsKnown p := by
      intro p hp
      by_contra hp'
      rw [hunknown ⟨p, hp, hp'⟩] at hparts
      cases hparts
    refine ⟨ps, hps, hknown, ?_⟩
    by_contra hnodup
    obtain ⟨names, herror⟩ := hrepeated hknown hnodup
    rw [herror] at hparts
    cases hparts
  · rintro ⟨ps, hps, hknown, hnodup⟩
    exact (read_of_spells hps).2.2 hknown hnodup

end ApiContract.PathPattern
