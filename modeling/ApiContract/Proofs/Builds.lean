import ApiContract.Documentation.Convert
import ApiContract.Proofs.ListLemmas

/-!
# Running a build

A step of a documentation build takes a collector to a result and the collector it leaves. A row of steps
has a result only if each of them has (`build_bind_eq_ok`), and a result that is there already leaves the
collector as it was (`build_lift`). Where nothing is shared, a build leaves the collector alone altogether
(`Builds`). Where something is, what a build makes can still be independent of it (`Determined`).
-/

namespace ApiContract

variable {α β : Type}

/-- A build is what it does with each collector. -/
theorem build_ext {b b' : Build α} (h : ∀ c, b.run c = b'.run c) : b = b' := funext h

theorem build_bind (b : Build α) (f : α → Build β) (c : Collector) :
    (b >>= f).run c =
      match b.run c with
      | (.ok a, c') => (f a).run c'
      | (.error fault, c') => (.error fault, c') := by
  show ExceptT.bindCont f (b.run c).1 (b.run c).2 = _
  rcases b.run c with ⟨fault | a, c'⟩
  · rfl
  · rfl

theorem build_bind_ok {b : Build α} {c c' : Collector} {a : α} (h : b.run c = (.ok a, c'))
    (f : α → Build β) : (b >>= f).run c = (f a).run c' := by
  rw [build_bind, h]

/-- A row of steps has a result only if each of them has. -/
theorem build_bind_eq_ok {b : Build α} {f : α → Build β} {c c' : Collector} {y : β}
    (h : (b >>= f).run c = (.ok y, c')) :
    ∃ a c₁, b.run c = (.ok a, c₁) ∧ (f a).run c₁ = (.ok y, c') := by
  rw [build_bind] at h
  rcases hb : b.run c with ⟨fault | a, c₁⟩
  · rw [hb] at h
    cases h
  · rw [hb] at h
    exact ⟨a, c₁, rfl, h⟩

/-- A result that is already there leaves the collector as it is. -/
theorem build_lift (x : Except Fault α) (c : Collector) : (x : Build α).run c = (x, c) := by
  cases x <;> rfl

theorem build_lift_eq_ok {x : Except Fault α} {c c' : Collector} {a : α}
    (h : (x : Build α).run c = (.ok a, c')) : x = .ok a ∧ c' = c := by
  rw [build_lift] at h
  obtain ⟨hx, hc⟩ := Prod.mk.inj h
  exact ⟨hx, hc.symm⟩

theorem build_pure_eq_ok {a y : α} {c c' : Collector} (h : (pure a : Build α).run c = (.ok y, c')) :
    y = a ∧ c' = c := by
  obtain ⟨hy, hc⟩ := Prod.mk.inj h
  exact ⟨(Except.ok.inj hy).symm, hc.symm⟩

/-- A build has a result if it can be seen to end without a fault. -/
theorem exists_run_of_isOk {b : Build α} {c : Collector} (h : (b.run c).1.isOk = true) :
    ∃ a c', b.run c = (.ok a, c') := by
  rcases hb : b.run c with ⟨fault | a, c'⟩
  · rw [hb] at h
    cases h
  · exact ⟨a, c', rfl⟩

/-- A row of builds has its results one by one. -/
theorem build_mapM_eq_ok {f : α → Build β} {xs : List α} {ys : List β} {c c' : Collector}
    (h : (xs.mapM f).run c = (.ok ys, c')) :
    List.Forall₂ (fun x y => ∃ c₁ c₂, (f x).run c₁ = (.ok y, c₂)) xs ys := by
  induction xs generalizing ys c c' with
  | nil =>
      obtain ⟨rfl, -⟩ := build_pure_eq_ok h
      exact .nil
  | cons x xs ih =>
      rw [List.mapM_cons] at h
      obtain ⟨y, c₁, hy, h⟩ := build_bind_eq_ok h
      obtain ⟨ys', c₂, hys, h⟩ := build_bind_eq_ok h
      obtain ⟨rfl, -⟩ := build_pure_eq_ok h
      exact .cons ⟨c, c₁, hy⟩ (ih hys)

/-- Builds that go on from one another have a result only if each of them has. -/
theorem build_foldlM_eq_ok {f : β → α → Build β} {xs : List α} {y y' : β} {c c' : Collector}
    (h : (xs.foldlM f y).run c = (.ok y', c')) :
    ∀ x ∈ xs, ∃ z z' c₁ c₂, (f z x).run c₁ = (.ok z', c₂) := by
  induction xs generalizing y c with
  | nil => exact List.forall_mem_nil _
  | cons x xs ih =>
      rw [List.foldlM_cons] at h
      obtain ⟨z, c₁, hz, h⟩ := build_bind_eq_ok h
      exact List.forall_mem_cons.mpr ⟨⟨y, z, c, c₁, hz⟩, ih h⟩

/-- A row of builds none of which changes the collector. -/
theorem exists_build_mapM {f : α → Build β} {xs : List α} {c : Collector}
    (h : ∀ x ∈ xs, ∃ y, (f x).run c = (.ok y, c)) :
    ∃ ys, (xs.mapM f).run c = (.ok ys, c) ∧ xs.length = ys.length := by
  induction xs with
  | nil => exact ⟨[], rfl, rfl⟩
  | cons x xs ih =>
      obtain ⟨y, hy⟩ := h x List.mem_cons_self
      obtain ⟨ys, hys, hlength⟩ := ih fun x hx => h x (List.mem_cons_of_mem _ hx)
      refine ⟨y :: ys, ?_, congrArg (· + 1) hlength⟩
      rw [List.mapM_cons, build_bind_ok hy, build_bind_ok hys]
      rfl

/-- A build makes something and leaves the collector as it was. -/
def Builds (b : Build α) (a : α) : Prop := ∀ c, b.run c = (.ok a, c)

theorem builds_pure (a : α) : Builds (pure a) a := by
  intro c
  rfl

theorem builds_lift {x : Except Fault α} {a : α} (h : x = .ok a) : Builds (x : Build α) a := by
  intro c
  rw [build_lift, h]

theorem Builds.bind {b : Build α} {a : α} (h : Builds b a) {f : α → Build β} {a' : β}
    (h' : Builds (f a) a') : Builds (b >>= f) a' := by
  intro c
  rw [build_bind_ok (h c)]
  exact h' c

/-- A row of builds makes what the single ones make. -/
theorem builds_mapM {f : α → Build β} {xs : List α} {ys : List β}
    (h : List.Forall₂ (fun x y => Builds (f x) y) xs ys) : Builds (xs.mapM f) ys := by
  induction h with
  | nil => exact builds_pure []
  | cons hx _ ih =>
      rw [List.mapM_cons]
      exact hx.bind (ih.bind (builds_pure _))

/-- What a build makes does not depend on what has been collected. -/
def Determined (b : Build α) : Prop :=
  ∀ ⦃c₁ c₂ c₁' c₂' : Collector⦄ ⦃a₁ a₂ : α⦄,
    b.run c₁ = (.ok a₁, c₁') → b.run c₂ = (.ok a₂, c₂') → a₁ = a₂

theorem Builds.determined {b : Build α} {a : α} (h : Builds b a) : Determined b := by
  intro c₁ c₂ c₁' c₂' a₁ a₂ h₁ h₂
  have e₁ := (h c₁).symm.trans h₁
  have e₂ := (h c₂).symm.trans h₂
  exact (Except.ok.inj (Prod.mk.inj e₁).1).symm.trans (Except.ok.inj (Prod.mk.inj e₂).1)

theorem determined_lift (x : Except Fault α) : Determined (x : Build α) := by
  intro c₁ c₂ c₁' c₂' a₁ a₂ h₁ h₂
  exact Except.ok.inj ((build_lift_eq_ok h₁).1.symm.trans (build_lift_eq_ok h₂).1)

theorem Determined.bind {b : Build α} {f : α → Build β} (hb : Determined b) (hf : ∀ a, Determined (f a)) :
    Determined (b >>= f) := by
  intro c₁ c₂ c₁' c₂' y₁ y₂ h₁ h₂
  obtain ⟨a₁, d₁, ha₁, h₁⟩ := build_bind_eq_ok h₁
  obtain ⟨a₂, d₂, ha₂, h₂⟩ := build_bind_eq_ok h₂
  obtain rfl := hb ha₁ ha₂
  exact hf a₁ h₁ h₂

theorem determined_pure (a : α) : Determined (pure a) := (builds_pure a).determined

theorem determined_throw (f : Fault) : Determined (throw f : Build α) := determined_lift (.error f)

theorem determined_mapM {f : α → Build β} {xs : List α} (h : ∀ x ∈ xs, Determined (f x)) :
    Determined (xs.mapM f) := by
  induction xs with
  | nil => exact determined_pure []
  | cons x xs ih =>
      rw [List.mapM_cons]
      exact (h x List.mem_cons_self).bind fun y =>
        (ih fun x hx => h x (List.mem_cons_of_mem _ hx)).bind fun ys => determined_pure _

theorem determined_foldlM {f : β → α → Build β} {xs : List α} (h : ∀ y, ∀ x ∈ xs, Determined (f y x))
    (y : β) : Determined (xs.foldlM f y) := by
  induction xs generalizing y with
  | nil => exact determined_pure y
  | cons x xs ih =>
      rw [List.foldlM_cons]
      exact (h y x List.mem_cons_self).bind fun y' => ih (fun y x hx => h y x (List.mem_cons_of_mem _ hx)) y'

end ApiContract
