import ApiContract.Routing.Router
import Mathlib.Data.List.DropRight

/-!
# Joined paths

The routes of a registry that is taken over stand behind a base path, which has lost the slashes at its end.
Different paths stay different behind it (`joinBase_injective`), and what stands behind one base behind another
stands behind the two in a row (`dropSlashes_append`, `joinBase_joinBase`).
-/

namespace ApiContract.Routing.Router

variable {p q base path path' : String}

/-- A base path is empty or begins with a slash. -/
def IsBase (base : String) : Prop := base = "" ∨ base.toList.head? = some '/'

theorem not_isBase_iff : (!base.isEmpty && base.toList.head? != some '/') = true ↔ ¬ IsBase base := by
  rw [IsBase, not_or, Bool.and_eq_true, Bool.not_eq_true', bne_iff_ne, ← Bool.not_eq_true, String.isEmpty_iff]

theorem IsBase.append (hp : IsBase p) (hq : IsBase q) : IsBase (p ++ q) := by
  rcases hp with rfl | hp
  · rwa [String.empty_append]
  · right
    rw [String.toList_append, List.head?_append, hp, Option.some_or]

/-! ### Slashes at the end -/

theorem toList_dropSlashes (s : String) : (dropSlashes s).toList = s.toList.rdropWhile (· == '/') := by
  rw [dropSlashes, String.toList_ofList, List.rdropWhile]

theorem dropSlashes_ne_slash (s : String) : dropSlashes s ≠ "/" := by
  intro h
  have hlast : (dropSlashes s).toList.rdropWhile (· == '/') = (dropSlashes s).toList := by
    rw [toList_dropSlashes, List.rdropWhile_idempotent]
  rw [h] at hlast
  cases hlast

/-- A base path stays one without the slashes at its end. -/
theorem IsBase.dropSlashes (h : IsBase base) : IsBase (dropSlashes base) := by
  obtain ⟨rest, hrest⟩ := List.rdropWhile_prefix (· == '/') base.toList
  rw [← toList_dropSlashes] at hrest
  rcases h with rfl | hslash
  · exact .inl rfl
  · by_cases hempty : (Router.dropSlashes base).toList = []
    · exact .inl (String.toList_eq_nil_iff.mp hempty)
    · right
      rwa [← hrest, List.head?_append_of_ne_nil _ hempty] at hslash

/-- Slashes at the end of a row of two texts are dropped from the second one, as long as the first has none. -/
theorem dropSlashes_append (p q : String) : dropSlashes (dropSlashes p ++ q) = dropSlashes p ++ dropSlashes q := by
  refine String.toList_inj.mp ?_
  have hidempotent := List.rdropWhile_idempotent (· == '/') p.toList
  rw [toList_dropSlashes, String.toList_append, String.toList_append, toList_dropSlashes, toList_dropSlashes,
    List.rdropWhile, List.reverse_append, List.dropWhile_append]
  split_ifs with hq
  · have hdropped : q.toList.rdropWhile (· == '/') = [] := by
      rw [List.rdropWhile, List.isEmpty_iff.mp hq, List.reverse_nil]
    rw [hdropped, List.append_nil]
    exact hidempotent
  · rw [List.reverse_append, List.reverse_reverse]
    rfl

/-! ### Paths behind a base -/

theorem joinBase_of_ne (h : path ≠ "/") : joinBase base path = base ++ path := by
  rw [joinBase, bne_iff_ne.mpr h, Bool.true_or, if_pos rfl]

theorem joinBase_root (h : base ≠ "") : joinBase base "/" = base := by
  rw [joinBase, bne_self_eq_false, Bool.false_or, if_neg (mt String.isEmpty_iff.mp h)]

theorem joinBase_empty (path : String) : joinBase "" path = path := by
  have hempty : "".isEmpty = true := rfl
  rw [joinBase, hempty, Bool.or_true, if_pos rfl, String.empty_append]

/-- Behind a base path a path begins with a slash as before. -/
theorem head?_joinBase (hbase : IsBase base) (hpath : path.toList.head? = some '/') :
    (joinBase base path).toList.head? = some '/' := by
  rcases hbase with rfl | hbase
  · rwa [joinBase_empty]
  · by_cases hroot : path = "/"
    · subst hroot
      rwa [joinBase_root]
      rintro rfl
      cases hbase
    · rw [joinBase_of_ne hroot, String.toList_append, List.head?_append, hbase, Option.some_or]

/-- Different paths stay different behind a base, unless one of them is empty. -/
theorem joinBase_injective (hpath : path ≠ "") (hpath' : path' ≠ "") (h : joinBase base path = joinBase base path') :
    path = path' := by
  by_cases hbase : base = ""
  · subst hbase
    rwa [joinBase_empty, joinBase_empty] at h
  · have hlonger {x : String} (hx : x ≠ "") : base ++ x ≠ base := fun heq => hx (String.append_eq_left_iff.mp heq)
    by_cases hroot : path = "/"
    · by_cases hroot' : path' = "/"
      · rw [hroot, hroot']
      · rw [hroot, joinBase_root hbase, joinBase_of_ne hroot'] at h
        exact absurd h.symm (hlonger hpath')
    · by_cases hroot' : path' = "/"
      · rw [hroot', joinBase_root hbase, joinBase_of_ne hroot] at h
        exact absurd h (hlonger hpath)
      · rw [joinBase_of_ne hroot, joinBase_of_ne hroot'] at h
        exact (String.append_right_inj base).mp h

/-- What stands behind a base behind another one stands behind the two in a row. -/
theorem joinBase_joinBase (hq : q ≠ "/") (hpath : path ≠ "") :
    joinBase p (joinBase q path) = joinBase (p ++ q) path := by
  by_cases hempty : q = ""
  · rw [hempty, joinBase_empty, String.append_empty]
  · by_cases hroot : path = "/"
    · have hne : p ++ q ≠ "" := fun h => hempty (String.append_eq_empty_iff.mp h).2
      rw [hroot, joinBase_root hempty, joinBase_of_ne hq, joinBase_root hne]
    · -- two texts in a row that are not empty are no single slash
      have hne : q ++ path ≠ "/" := by
        intro h
        have hlength := congrArg String.length h
        rw [String.length_append] at hlength
        have hfirst : q.length ≠ 0 := mt String.length_eq_zero_iff.mp hempty
        have hsecond : path.length ≠ 0 := mt String.length_eq_zero_iff.mp hpath
        have hone : "/".length = 1 := rfl
        omega
      rw [joinBase_of_ne hroot, joinBase_of_ne hne, joinBase_of_ne hroot, String.append_assoc]

end ApiContract.Routing.Router
