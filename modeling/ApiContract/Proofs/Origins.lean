import ApiContract.Proofs.Compilation
import ApiContract.Proofs.Induction

/-!
# The path at which a schema is compiled

A path is given to compilation only for the sake of its faults. A schema that compiles at one path compiles
at every other path to the same validator (`Schema.compileAt_of_compileAt`); in particular each node of a
schema that compiles is a schema that compiles by itself.
-/

namespace ApiContract.Schema

/-- What the one computation results in the other results in as well. -/
def Carries {α : Type} (x y : Except Fault α) : Prop := ∀ a, x = .ok a → y = .ok a

namespace Carries

variable {α β : Type}

theorem refl (x : Except Fault α) : Carries x x := fun _ h => h

theorem malformed (d : SchemaDefect) (path : String) (y : Except Fault α) :
    Carries (Schema.malformed d path) y := by
  intro a h
  cases h

theorem bind {x y : Except Fault α} {f g : α → Except Fault β} (h : Carries x y)
    (hfg : ∀ a, Carries (f a) (g a)) : Carries (x >>= f) (y >>= g) := by
  intro b hb
  obtain ⟨a, ha, hb⟩ := bind_eq_ok_iff.mp hb
  exact bind_eq_ok_iff.mpr ⟨a, h a ha, hfg a b hb⟩

theorem ite {c : Prop} [Decidable c] {x x' y y' : Except Fault α} (h : Carries x x') (h' : Carries y y') :
    Carries (if c then x else y) (if c then x' else y') := by
  split
  · exact h
  · exact h'

end Carries

/-! ### Fields -/

variable (path path' : String)

theorem carries_compileCount (v : Option Value) (label : String) :
    Carries (compileCount v label path) (compileCount v label path') := by
  unfold compileCount
  split
  · exact .refl _
  · exact .refl _
  · exact .bind (.refl _) fun _ => .malformed _ _ _

theorem carries_checkBounds (low high : Option Value) (label : String) :
    Carries (checkBounds low high label path) (checkBounds low high label path') := by
  unfold checkBounds
  split
  · exact .bind (.refl _) fun crossed =>
      .ite (.bind (.refl _) fun _ => .bind (.refl _) fun _ => .malformed _ _ _) (.refl _)
  · exact .refl _

theorem carries_compileFormat (name : Option String) :
    Carries (compileFormat name path) (compileFormat name path') := by
  unfold compileFormat
  split
  · exact .refl _
  · split
    · exact .refl _
    · exact .malformed _ _ _

theorem carries_compilePattern (source : Option String) :
    Carries (compilePattern source path) (compilePattern source path') := by
  unfold compilePattern
  split
  · exact .refl _
  · split
    · exact .refl _
    · exact .malformed _ _ _
    all_goals exact .refl _

theorem carries_compileString (f : StringFields) :
    Carries (compileString f path) (compileString f path') :=
  .bind (carries_compileCount path path' _ _) fun _ =>
    .bind (carries_compileCount path path' _ _) fun _ =>
      .bind (carries_checkBounds path path' _ _ _) fun _ =>
        .bind (carries_compileFormat path path' _) fun _ =>
          .bind (carries_compilePattern path path' _) fun _ => .refl _

theorem carries_checkStep (step : Option Value) :
    Carries (checkStep step path) (checkStep step path') := by
  unfold checkStep
  split
  · exact .refl _
  · refine .ite (.bind (.refl _) fun positive => ?_) (.bind (.refl _) fun positive => ?_)
    all_goals exact .ite (.bind (.refl _) fun _ => .malformed _ _ _) (.refl _)

theorem carries_compileNumber (integral : Bool) (f : NumberFields) :
    Carries (compileNumber integral f path) (compileNumber integral f path') :=
  .bind (carries_checkBounds path path' _ _ _) fun _ =>
    .bind (carries_checkStep path path' _) fun _ => .refl _

theorem carries_compileArray (f : ArrayFields) :
    Carries (compileArray f path) (compileArray f path') :=
  .bind (carries_compileCount path path' _ _) fun _ =>
    .bind (carries_compileCount path path' _ _) fun _ =>
      .bind (carries_checkBounds path path' _ _ _) fun _ => .refl _

theorem carries_checkNames (ps : List (Value × Schema)) :
    Carries (checkNames ps path) (checkNames ps path') := by
  unfold checkNames
  split
  · exact .refl _
  · exact .bind (.refl _) fun _ => .malformed _ _ _

theorem carries_checkRequired (f : ObjectFields) (ps : List (Value × Schema)) :
    Carries (checkRequired f ps path) (checkRequired f ps path') := by
  unfold checkRequired
  split
  · exact .refl _
  · exact .ite (.bind (.refl _) fun _ => .malformed _ _ _) (.refl _)

/-! ### Nodes -/

theorem carries_compileProperties {ps : List (Value × Schema)}
    (h : ∀ p ∈ ps, ∀ path path', Carries (p.2.compileAt path) (p.2.compileAt path')) :
    Carries (compileProperties path ps) (compileProperties path' ps) := by
  induction ps with
  | nil => exact .refl _
  | cons p ps ih =>
      obtain ⟨key, s⟩ := p
      obtain ⟨hs, hrest⟩ := List.forall_mem_cons.mp h
      exact .bind (hs _ _) fun _ => .bind (ih hrest) fun _ => .refl _

/-- **The path of a compilation does not matter to its result.** -/
theorem carries_compileAt (s : Schema) (path path' : String) :
    Carries (s.compileAt path) (s.compileAt path') := by
  induction s using Schema.induction generalizing path path' with
  | string a f => exact .bind (carries_compileString path path' f) fun _ => .refl _
  | number a f => exact .bind (carries_compileNumber path path' false f) fun _ => .refl _
  | integer a f => exact .bind (carries_compileNumber path path' true f) fun _ => .refl _
  | boolean a => exact .refl _
  | array a f items ih =>
      exact .bind (carries_compileArray path path' f) fun _ => .bind (ih _ _) fun _ => .refl _
  | object a f ps ih =>
      exact .bind (carries_checkNames path path' ps) fun _ =>
        .bind (carries_checkRequired path path' f ps) fun _ =>
          .bind (carries_compileProperties path path' ih) fun _ => .refl _
  | nullable a inner ih => exact .bind (ih _ _) fun _ => .refl _
  | refined a r base ih =>
      refine .ite (.malformed _ _ _) ?_
      split
      · exact .malformed _ _ _
      · split
        · exact .ite (.malformed _ _ _) (.bind (ih _ _) fun _ => .refl _)
        · exact .malformed _ _ _
  | bare a => exact .malformed _ _ _
  | foreign v => exact .malformed _ _ _

theorem compileAt_of_compileAt {s : Schema} {path : String} {validator : Validator}
    (h : s.compileAt path = .ok validator) (path' : String) : s.compileAt path' = .ok validator :=
  carries_compileAt s path path' validator h

end ApiContract.Schema
