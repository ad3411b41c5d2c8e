import ApiContract.Regex.Matcher
import ApiContract.Proofs.ListLemmas

/-!
# What a regular expression takes from a text

The matcher runs a node with what follows it as a continuation. Whether the run succeeds is told by a relation
between what is left of the text before and behind the node (`Node.Takes`), with a rule for each kind of node:
characters, sequences, alternatives, groups, ends of the text and greedy loops. The rule of loops (`takes_loop`)
asks for rounds that take a character, so that the fuel outlasts the text. Main statement: an expression that is
bound to the two ends of a text matches the texts that its body takes, and these with a line feed behind them
(`search_bound`).
-/

namespace ApiContract.Regex

variable {flags : Flags}

/-- What is left of a text before and behind a part of an expression. -/
abbrev Taking := List Char → List Char → Prop

/-- Behind a part that takes `R` from position `p`, whether the continuation succeeds is a question of the
rest of the text alone. -/
def Continuation.DependsOnRest (k : Continuation) (R : Taking) (p : Position) (K : List Char → Prop) : Prop :=
  ∀ q, q.place + q.rest.length = p.place + p.rest.length → R p.rest q.rest →
    ((k q).isSome = true ↔ K q.rest)

/-- Running a part succeeds where it takes something behind which the continuation succeeds. -/
def Runs (run : Position → Continuation → Option Position) (R : Taking) : Prop :=
  ∀ p k K, Continuation.DependsOnRest k R p K → ((run p k).isSome = true ↔ ∃ r, R p.rest r ∧ K r)

/-- What a node takes under flags. -/
def Node.Takes (flags : Flags) (n : Node) (R : Taking) : Prop := Runs (n.run flags) R

/-! ### Texts -/

/-- One of the texts with a property. -/
def texts (P : List Char → Prop) : Taking := fun cs r => ∃ t, P t ∧ cs = t ++ r

/-- A text of one character for which a test holds. -/
def single (test : Char → Bool) (t : List Char) : Prop := ∃ c, test c = true ∧ t = [c]

theorem length_lt_of_texts {P : List Char → Prop} (hP : ∀ t, P t → t ≠ []) (cs r : List Char)
    (h : texts P cs r) : r.length < cs.length := by
  obtain ⟨t, ht, rfl⟩ := h
  have hpos := List.length_pos_iff.mpr (hP t ht)
  rw [List.length_append]
  omega

theorem single_ne_nil {test : Char → Bool} (t : List Char) (h : single test t) : t ≠ [] := by
  obtain ⟨c, -, rfl⟩ := h
  exact List.cons_ne_nil c []

theorem runs_step (test : Char → Bool) : Runs (step test) (texts (single test)) := by
  intro p k K hk
  rcases p with ⟨place, before, rest, groups⟩
  unfold step
  dsimp only
  cases rest with
  | nil => simp [texts, single]
  | cons c cs =>
      by_cases hc : test c = true
      · have hnext := hk ⟨place + 1, c :: before, cs, groups⟩ (by simp; omega) ⟨[c], ⟨c, hc, rfl⟩, rfl⟩
        simp [texts, single, hc, Position.advance, hnext]
      · simp [texts, single, hc]

theorem Node.Takes.of_iff {n : Node} {P Q : List Char → Prop} (h : n.Takes flags (texts P))
    (hPQ : ∀ t, P t ↔ Q t) : n.Takes flags (texts Q) := by
  rwa [show P = Q from funext fun t => propext (hPQ t)] at h

theorem takes_char (negated : Bool) (code : Nat) :
    (Node.char negated code).Takes flags (texts (single fun c => isCode flags code c != negated)) :=
  runs_step _

theorem takes_set (negated : Bool) (items : List SetItem) :
    (Node.set negated items).Takes flags
      (texts (single fun c => items.any (·.holds flags c (variants flags c)) != negated)) :=
  runs_step _

/-! ### Parts put together -/

/-- One text after the other. -/
def followed (R S : Taking) : Taking := fun cs r => ∃ m, R cs m ∧ S m r

/-- One text or the other. -/
def either (R S : Taking) : Taking := fun cs r => R cs r ∨ S cs r

theorem exists_followed {R S : Taking} {cs : List Char} {K : List Char → Prop} :
    (∃ r, followed R S cs r ∧ K r) ↔ ∃ m, R cs m ∧ ∃ r, S m r ∧ K r := by
  constructor
  · rintro ⟨r, ⟨m, hm, hr⟩, hK⟩
    exact ⟨m, hm, r, hr, hK⟩
  · rintro ⟨m, hm, r, hr, hK⟩
    exact ⟨r, ⟨m, hm, hr⟩, hK⟩

theorem exists_either {R S : Taking} {cs : List Char} {K : List Char → Prop} :
    (∃ r, either R S cs r ∧ K r) ↔ (∃ r, R cs r ∧ K r) ∨ ∃ r, S cs r ∧ K r := by
  simp only [either, or_and_right, exists_or]

theorem takes_seq {a b : Node} {R S : Taking} (ha : a.Takes flags R) (hb : b.Takes flags S) :
    (Node.seq a b).Takes flags (followed R S) := by
  intro p k K hk
  have hrest : Continuation.DependsOnRest (fun q => b.run flags q k) R p fun m => ∃ r, S m r ∧ K r := by
    intro q hq hR
    exact hb q k K fun q' hq' hS => hk q' (hq'.trans hq) ⟨q.rest, hR, hS⟩
  exact (ha p _ _ hrest).trans exists_followed.symm

theorem takes_alt {a b : Node} {R S : Taking} (ha : a.Takes flags R) (hb : b.Takes flags S) :
    (Node.alt a b).Takes flags (either R S) := by
  intro p k K hk
  show ((a.run flags p k).orElse fun _ => b.run flags p k).isSome = true ↔ _
  rw [Option.orElse_eq_or, Option.isSome_or, Bool.or_eq_true, ha p k K fun q hq hR => hk q hq (.inl hR),
    hb p k K fun q hq hS => hk q hq (.inr hS), exists_either]

theorem followed_assoc (R S T : Taking) : followed R (followed S T) = followed (followed R S) T := by
  funext cs r
  refine propext ⟨?_, ?_⟩
  · rintro ⟨m, hm, l, hl, hr⟩
    exact ⟨l, ⟨m, hm, hl⟩, hr⟩
  · rintro ⟨l, ⟨m, hm, hl⟩, hr⟩
    exact ⟨m, hm, l, hl, hr⟩

theorem followed_texts (P Q : List Char → Prop) :
    followed (texts P) (texts Q) = texts fun t => ∃ a b, P a ∧ Q b ∧ t = a ++ b := by
  funext cs r
  refine propext ⟨?_, ?_⟩
  · rintro ⟨_, ⟨a, ha, rfl⟩, b, hb, rfl⟩
    exact ⟨a ++ b, ⟨a, b, ha, hb, rfl⟩, (List.append_assoc a b r).symm⟩
  · rintro ⟨_, ⟨a, b, ha, hb, rfl⟩, rfl⟩
    exact ⟨b ++ r, ⟨a, ha, List.append_assoc a b r⟩, b, hb, rfl⟩

theorem either_texts (P Q : List Char → Prop) : either (texts P) (texts Q) = texts fun t => P t ∨ Q t := by
  funext cs r
  simp only [either, texts, or_and_right, exists_or]

/-- What a group remembers does not change the rest of the text. -/
theorem takes_group (index : Nat) {b : Node} {R : Taking} (hb : b.Takes flags R) :
    (Node.group index b).Takes flags R := by
  intro p k K hk
  exact hb p _ K fun q hq hR => hk (q.capture index p.place) hq hR

/-- Nothing, at the end of the text or before the line feed that ends it. -/
def atEnd : Taking := fun cs r => (cs = [] ∨ cs = ['\n']) ∧ r = cs

theorem takes_lineEnd (hflags : flags.multiline = false) : (Node.anchor .lineEnd).Takes flags atEnd := by
  intro p k K hk
  show (if Anchor.lineEnd.holds flags p then k p else none).isSome = true ↔ _
  have hend : Anchor.lineEnd.holds flags p = true ↔ p.rest = [] ∨ p.rest = ['\n'] := by
    unfold Anchor.holds
    simp [hflags]
  by_cases hp : p.rest = [] ∨ p.rest = ['\n']
  · rw [if_pos (hend.mpr hp), hk p rfl ⟨hp, rfl⟩]
    constructor
    · intro hK
      exact ⟨p.rest, ⟨hp, rfl⟩, hK⟩
    · rintro ⟨r, ⟨-, rfl⟩, hK⟩
      exact hK
  · rw [if_neg fun h => hp (hend.mp h)]
    refine iff_of_false Bool.false_ne_true ?_
    rintro ⟨r, ⟨hr, -⟩, -⟩
    exact hp hr

/-! ### Repetition -/

/-- So many rounds, one after the other. -/
inductive Rounds (R : Taking) : Nat → Taking
  | zero {cs : List Char} : Rounds R 0 cs cs
  | succ {n : Nat} {cs m r : List Char} (hfirst : R cs m) (hrest : Rounds R n m r) : Rounds R (n + 1) cs r

/-- At least and at most so many rounds. -/
def repeated (R : Taking) (least : Nat) (most : Option Nat) : Taking :=
  fun cs r => ∃ n, least ≤ n ∧ (∀ m, most = some m → n ≤ m) ∧ Rounds R n cs r

theorem repeated_of_pos {R : Taking} {least : Nat} {most : Option Nat} (hleast : 0 < least)
    (hmost : ∀ m, most = some m → least ≤ m) :
    repeated R least most = followed R (repeated R (least - 1) (most.map (· - 1))) := by
  funext cs r
  refine propext ⟨?_, ?_⟩
  · rintro ⟨n, hlow, hhigh, hrounds⟩
    cases hrounds with
    | zero => omega
    | @succ n _ m _ hfirst hrest =>
        refine ⟨m, hfirst, n, by omega, ?_, hrest⟩
        intro k hk
        obtain ⟨l, hl, rfl⟩ := Option.map_eq_some_iff.mp hk
        have hbound := hhigh l hl
        omega
  · rintro ⟨m, hfirst, n, hlow, hhigh, hrest⟩
    refine ⟨n + 1, by omega, ?_, .succ hfirst hrest⟩
    intro k hk
    have hbound := hhigh (k - 1) (by rw [hk]; rfl)
    have hleastk := hmost k hk
    omega

theorem repeated_zero {R : Taking} {most : Option Nat} :
    repeated R 0 most = either (fun cs r => r = cs)
      fun cs r => most ≠ some 0 ∧ followed R (repeated R 0 (most.map (· - 1))) cs r := by
  funext cs r
  refine propext ⟨?_, ?_⟩
  · rintro ⟨n, -, hhigh, hrounds⟩
    cases hrounds with
    | zero => exact .inl rfl
    | @succ n _ m _ hfirst hrest =>
        refine .inr ⟨?_, m, hfirst, n, Nat.zero_le n, ?_, hrest⟩
        · intro hzero
          have hbound := hhigh 0 hzero
          omega
        · intro k hk
          obtain ⟨l, hl, rfl⟩ := Option.map_eq_some_iff.mp hk
          have hbound := hhigh l hl
          omega
  · rintro (rfl | ⟨hzero, m, hfirst, n, -, hhigh, hrest⟩)
    · exact ⟨0, Nat.le_refl 0, fun _ _ => Nat.zero_le _, .zero⟩
    · refine ⟨n + 1, Nat.zero_le _, ?_, .succ hfirst hrest⟩
      intro k hk
      have hbound := hhigh (k - 1) (by rw [hk]; rfl)
      have hpos : k ≠ 0 := by
        rintro rfl
        exact hzero hk
      omega

theorem rounds_single {test : Char → Bool} {n : Nat} {cs r : List Char} :
    Rounds (texts (single test)) n cs r ↔ ∃ t, t.length = n ∧ (∀ c ∈ t, test c = true) ∧ cs = t ++ r := by
  constructor
  · intro h
    induction h with
    | zero => exact ⟨[], rfl, by simp, rfl⟩
    | succ hfirst _ ih =>
        obtain ⟨_, ⟨c, hc, rfl⟩, rfl⟩ := hfirst
        obtain ⟨t, rfl, ht, rfl⟩ := ih
        exact ⟨c :: t, rfl, by simpa using ⟨hc, ht⟩, rfl⟩
  · rintro ⟨t, rfl, ht, rfl⟩
    induction t with
    | nil => exact .zero
    | cons c t ih =>
        refine .succ ⟨[c], ⟨c, ht c List.mem_cons_self, rfl⟩, rfl⟩ ?_
        exact ih fun d hd => ht d (List.mem_cons_of_mem c hd)

/-- A row of characters for which a test holds. -/
theorem repeated_single (test : Char → Bool) (least : Nat) :
    repeated (texts (single test)) least none =
      texts fun t => (∀ c ∈ t, test c = true) ∧ least ≤ t.length := by
  funext cs r
  refine propext ⟨?_, ?_⟩
  · rintro ⟨n, hleast, -, hrounds⟩
    obtain ⟨t, rfl, ht, hcs⟩ := rounds_single.mp hrounds
    exact ⟨t, ⟨ht, hleast⟩, hcs⟩
  · rintro ⟨t, ⟨ht, hleast⟩, hcs⟩
    exact ⟨t.length, hleast, by simp, rounds_single.mpr ⟨t, rfl, ht, hcs⟩⟩

/-- A text that need not be there. -/
theorem repeated_optional (P : List Char → Prop) :
    repeated (texts P) 0 (some 1) = texts fun t => t = [] ∨ P t := by
  have hnone : repeated (texts P) 0 (some 0) = fun cs r => r = cs := by
    funext cs r
    rw [repeated_zero]
    simp [either]
  rw [repeated_zero]
  show either _ (fun cs r => _ ∧ followed (texts P) (repeated (texts P) 0 (some 0)) cs r) = _
  rw [hnone]
  funext cs r
  refine propext ⟨?_, ?_⟩
  · rintro (rfl | ⟨-, m, ⟨t, ht, hcs⟩, rfl⟩)
    · exact ⟨[], .inl rfl, rfl⟩
    · exact ⟨t, .inr ht, hcs⟩
  · rintro ⟨t, rfl | ht, hcs⟩
    · exact .inl hcs.symm
    · exact .inr ⟨by simp, r, ⟨t, ht, hcs⟩, rfl⟩

/-- The rounds of a greedy loop, each of which takes a character at least. There is more fuel than text, and
the place where the round before this one began is behind. -/
theorem isSome_runLoop {round : Position → Continuation → Option Position} {R : Taking} (hround : Runs round R)
    (hprogress : ∀ cs r, R cs r → r.length < cs.length) {k : Continuation} {K : List Char → Prop}
    {fuel need : Nat} {more last : Option Nat} {p : Position}
    (hk : k.DependsOnRest (repeated R need more) p K) (hfuel : p.rest.length < fuel)
    (hlast : ∀ l, last = some l → l < p.place) (hmore : ∀ m, more = some m → need ≤ m) :
    (runLoop round false k fuel need more last p).isSome = true ↔
      ∃ r, repeated R need more p.rest r ∧ K r := by
  induction fuel generalizing need more last p with
  | zero => exact absurd hfuel (Nat.not_lt_zero _)
  | succ fuel ih =>
      -- after a round that took a character, both hold again, so the induction hypothesis speaks of the
      -- rounds that are left
      have hnext {need' : Nat} {last' : Option Nat} {q : Position}
          (hfirst : R p.rest q.rest) (hq : q.place + q.rest.length = p.place + p.rest.length)
          (hneed' : need' = need - 1) (hlast' : ∀ l, last' = some l → l ≤ p.place)
          (hrest : ∀ r, repeated R need' (more.map (· - 1)) q.rest r → repeated R need more p.rest r) :
          (runLoop round false k fuel need' (more.map (· - 1)) last' q).isSome = true ↔
            ∃ r, repeated R need' (more.map (· - 1)) q.rest r ∧ K r := by
        have hshorter := hprogress _ _ hfirst
        refine ih (fun q' hq' hR => hk q' (hq'.trans hq) (hrest _ hR)) (by omega) ?_ ?_
        · intro l hl
          have hle := hlast' l hl
          omega
        · intro m hm
          obtain ⟨l, hl, rfl⟩ := Option.map_eq_some_iff.mp hm
          have hle := hmore l hl
          omega
      rw [runLoop]
      dsimp only
      by_cases hneed : 0 < need
      · rw [if_pos hneed, repeated_of_pos hneed hmore, exists_followed]
        refine hround p _ _ fun q hq hfirst => ?_
        have hshorter := hprogress _ _ hfirst
        rw [if_neg (by simp; omega)]
        refine hnext hfirst hq rfl (fun l hl => Nat.le_of_lt (hlast l hl)) fun r hr => ?_
        rw [repeated_of_pos hneed hmore]
        exact ⟨q.rest, hfirst, hr⟩
      · -- another round or none: only a round that began here could have ended here
        obtain rfl : need = 0 := by omega
        have hstop : (k p).isSome = true ↔ ∃ r, r = p.rest ∧ K r := by
          rw [hk p rfl (by rw [repeated_zero]; exact .inl rfl), exists_eq_left]
        have hfresh : (last == some p.place) = false := by
          rw [beq_eq_false_iff_ne]
          intro h
          exact Nat.lt_irrefl _ (hlast p.place h)
        rw [if_neg hneed, if_neg Bool.false_ne_true, Option.orElse_eq_or, Option.isSome_or, Bool.or_eq_true,
          hfresh, Bool.or_false, hstop, repeated_zero, exists_either, or_comm]
        refine or_congr_right ?_
        by_cases hzero : more = some 0
        · rw [if_pos (by simpa using hzero)]
          simp [hzero]
        · rw [if_neg (by simpa using hzero)]
          simp only [ne_eq, hzero, not_false_eq_true, true_and, exists_followed]
          refine hround p _ _ fun q hq hfirst => ?_
          refine hnext hfirst hq rfl (fun l hl => Nat.le_of_eq (Option.some.inj hl).symm) fun r hr => ?_
          rw [repeated_zero]
          exact .inr ⟨hzero, q.rest, hfirst, hr⟩

/-- A greedy loop over a node that takes a character at least. -/
theorem takes_loop {b : Node} {R : Taking} (hb : b.Takes flags R)
    (hprogress : ∀ cs r, R cs r → r.length < cs.length) {least : Nat} {most : Option Nat}
    (hmost : ∀ m, most = some m → least ≤ m) :
    (Node.loop .greedy least most b).Takes flags (repeated R least most) := by
  intro p k K hk
  exact isSome_runLoop hb hprogress hk (by omega) (by simp) hmost

/-! ### Sets of texts -/

theorem takes_seq_texts {a b : Node} {P Q : List Char → Prop} (ha : a.Takes flags (texts P))
    (hb : b.Takes flags (texts Q)) :
    (Node.seq a b).Takes flags (texts fun t => ∃ x y, P x ∧ Q y ∧ t = x ++ y) := by
  rw [← followed_texts]
  exact takes_seq ha hb

theorem takes_alt_texts {a b : Node} {P Q : List Char → Prop} (ha : a.Takes flags (texts P))
    (hb : b.Takes flags (texts Q)) : (Node.alt a b).Takes flags (texts fun t => P t ∨ Q t) := by
  rw [← either_texts]
  exact takes_alt ha hb

theorem takes_optional {b : Node} {P : List Char → Prop} (hb : b.Takes flags (texts P))
    (hP : ∀ t, P t → t ≠ []) :
    (Node.loop .greedy 0 (some 1) b).Takes flags (texts fun t => t = [] ∨ P t) := by
  rw [← repeated_optional]
  exact takes_loop hb (length_lt_of_texts hP) (by simp)

theorem takes_row {b : Node} {test : Char → Bool} (hb : b.Takes flags (texts (single test))) (least : Nat) :
    (Node.loop .greedy least none b).Takes flags
      (texts fun t => (∀ c ∈ t, test c = true) ∧ least ≤ t.length) := by
  rw [← repeated_single]
  exact takes_loop hb (length_lt_of_texts single_ne_nil) (by simp)

/-- What is taken up to the end is the text, or the text without the line feed that ends it. -/
theorem exists_followed_atEnd {P : List Char → Prop} {cs : List Char} :
    (∃ r, followed (texts P) atEnd cs r) ↔ ∃ t, P t ∧ (cs = t ∨ cs = t ++ ['\n']) := by
  constructor
  · rintro ⟨_, m, ⟨t, ht, rfl⟩, rfl | rfl, -⟩
    · exact ⟨t, ht, .inl (List.append_nil t)⟩
    · exact ⟨t, ht, .inr rfl⟩
  · rintro ⟨t, ht, rfl | rfl⟩
    · exact ⟨[], [], ⟨cs, ht, (List.append_nil cs).symm⟩, .inl rfl, rfl⟩
    · exact ⟨['\n'], ['\n'], ⟨t, ht, rfl⟩, .inr rfl, rfl⟩

/-! ### Whole expressions -/

section LineStart

variable {n : Node} (hflags : flags.multiline = false)

include hflags

/-- Behind its first character a text has no place where its start is. -/
theorem searchFrom_lineStart {place : Nat} {before : List Char} (hbefore : before ≠ []) (rest : List Char) :
    Pattern.searchFrom ⟨.seq (.anchor .lineStart) n, flags⟩ place before rest = false := by
  have hrun {p : Position} (hp : p.before ≠ []) : Node.run flags (.seq (.anchor .lineStart) n) p some = none := by
    show (if Anchor.lineStart.holds flags p then n.run flags p some else none) = none
    refine if_neg ?_
    unfold Anchor.holds
    simp [hp, hflags]
  induction rest generalizing place before with
  | nil =>
      unfold Pattern.searchFrom
      rw [hrun hbefore]
      rfl
  | cons c rest ih =>
      unfold Pattern.searchFrom
      rw [hrun hbefore, ih (List.cons_ne_nil c before)]
      rfl

/-- An expression that is bound to the two ends of a text matches the texts that it takes, and these with a
line feed behind them. -/
theorem search_bound {P : List Char → Prop} (hn : n.Takes flags (followed (texts P) atEnd)) (s : String) :
    Pattern.search ⟨.seq (.anchor .lineStart) n, flags⟩ s = true ↔
      ∃ t, P t ∧ (s.toList = t ∨ s.toList = t ++ ['\n']) := by
  rw [← exists_followed_atEnd]
  have hstart (rest : List Char) :
      (Node.run flags (.seq (.anchor .lineStart) n) ⟨0, [], rest, []⟩ some).isSome = true ↔
        ∃ r, followed (texts P) atEnd rest r := by
    show (n.run flags ⟨0, [], rest, []⟩ some).isSome = true ↔ _
    rw [hn _ _ (fun _ => True) fun q _ _ => iff_of_true rfl trivial]
    simp only [and_true]
  unfold Pattern.search
  cases hchars : s.toList with
  | nil => exact hstart []
  | cons c rest =>
      unfold Pattern.searchFrom
      rw [searchFrom_lineStart hflags (List.cons_ne_nil c []), Bool.or_false]
      exact hstart (c :: rest)

end LineStart

end ApiContract.Regex
