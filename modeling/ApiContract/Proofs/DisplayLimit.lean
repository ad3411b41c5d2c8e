import ApiContract.Proofs.Induction
import ApiContract.Proofs.IntegerText
import ApiContract.Value.Display

/-!
# Values without a text

Every value has a display text, except where an integer in it has more digits than the limit
(`Value.limited_display`).
-/

namespace ApiContract

namespace Value

/-- A step fails only where an integer is beyond the limit. -/
def Limited {α : Type} (x : Except Fault α) : Prop := ∀ f, x = .error f → f = .digitLimit

theorem limited_ok {α : Type} (a : α) : Limited (Except.ok a : Except Fault α) := by
  intro f h
  cases h

theorem Limited.bind {α β : Type} {x : Except Fault α} {g : α → Except Fault β} (hx : Limited x)
    (hg : ∀ a, Limited (g a)) : Limited (x >>= g) := by
  intro f h
  cases x with
  | error f' =>
      obtain rfl := Except.error.inj h
      exact hx f' rfl
  | ok a => exact hg a f h

theorem limited_intText (n : Int) : Limited (intText n) := by
  intro f h
  unfold intText at h
  split_ifs at h
  exact (Except.error.inj h).symm

theorem limited_displayItems {xs : List Value} (h : ∀ x ∈ xs, Limited x.display) : Limited (displayItems xs) := by
  induction xs with
  | nil => exact limited_ok _
  | cons x xs ih =>
      refine (h x List.mem_cons_self).bind fun t => ?_
      exact (ih fun x hx => h x (List.mem_cons_of_mem _ hx)).bind fun ts => limited_ok _

theorem limited_displayEntries {es : List (Value × Value)}
    (h : ∀ e ∈ es, Limited e.1.display ∧ Limited e.2.display) : Limited (displayEntries es) := by
  induction es with
  | nil => exact limited_ok _
  | cons e es ih =>
      obtain ⟨k, v⟩ := e
      obtain ⟨hk, hv⟩ := h _ List.mem_cons_self
      refine hk.bind fun key => hv.bind fun value => ?_
      exact (ih fun e he => h e (List.mem_cons_of_mem _ he)).bind fun ts => limited_ok _

theorem limited_display (v : Value) : Limited v.display := by
  induction v using Value.induction with
  | int n => exact limited_intText n
  | list xs ih => exact (limited_displayItems ih).bind fun _ => limited_ok _
  | tuple xs ih =>
      refine (limited_displayItems ih).bind fun texts => ?_
      split
      · exact limited_ok _
      · exact limited_ok _
  | dict es ih => exact (limited_displayEntries ih).bind fun _ => limited_ok _
  | set xs ih =>
      refine (limited_displayItems ih).bind fun texts => ?_
      split
      · exact limited_ok _
      · exact limited_ok _
  | _ => exact limited_ok _

theorem limited_plain (v : Value) : Limited v.plain := by
  unfold plain
  split
  · exact limited_ok _
  · exact limited_ok _
  · exact limited_ok _
  · exact limited_ok _
  · exact limited_display _

end Value

end ApiContract
