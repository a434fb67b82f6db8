import Mathlib.Data.List.AList
import Mathlib.Data.List.Lattice
import Mathlib.Data.List.Perm.Basic
import Mathlib.Data.List.Sort

/-!
# Things that are handed over

A component keeps things in several places, and hands them over from one place to another.
If all that the places hold, one after the other, is a list without repetition, each thing
in it is in exactly one place (`existsUnique_place`). Handing over permutes this list
(`perm_cons_eraseIdx`), and losing a thing shortens it.

Maps are places, too. Here a map loses the entries of some of its keys
(`perm_foldl_erase`).
-/

namespace Ethiso

section Places

variable {ι κ : Type*} {places : List κ} {holds : κ → List ι} {x : ι}

/-- **Exactly one place** has a thing, if the places have no two things in common. -/
theorem existsUnique_place (h_nodup : (places.flatMap holds).Nodup)
    (h : x ∈ places.flatMap holds) : ∃! p, p ∈ places ∧ x ∈ holds p := by
  obtain ⟨p, h_p, h_x⟩ := List.mem_flatMap.mp h
  refine ⟨p, ⟨h_p, h_x⟩, ?_⟩
  rintro q ⟨h_q, h_x'⟩
  by_contra h_ne
  have h_apart := (List.nodup_flatMap.mp h_nodup).2
  -- two different places have nothing in common, in whatever order they come
  have h_symm : Std.Symm (Function.onFun List.Disjoint holds) := ⟨fun _ _ => List.Disjoint.symm⟩
  have h_disjoint : List.Disjoint (holds q) (holds p) := h_apart.forall h_q h_p h_ne
  exact h_disjoint h_x' h_x

end Places

section Lists

variable {ι : Type*} {l l' : List ι}

/-- A thing that is taken out of a list, and what is left of it. -/
theorem perm_cons_eraseIdx {i : ℕ} {a : ι} (h : l[i]? = some a) : l.Perm (a :: l.eraseIdx i) := by
  obtain ⟨h_i, rfl⟩ := List.getElem?_eq_some_iff.mp h
  exact (List.getElem_cons_eraseIdx_perm h_i).symm

/-- Nothing comes twice if some things are lost and the others permuted. -/
theorem nodup_of_subperm (h : l'.Nodup) (h_sub : l.Subperm l') : l.Nodup := by
  obtain ⟨l₀, h_perm, h_sublist⟩ := h_sub
  exact h_perm.nodup_iff.mp (h.sublist h_sublist)

end Lists

section Maps

variable {κ : Type*} {β : κ → Type*} [DecidableEq κ]

/-- A map without some of its entries has the others. -/
theorem perm_foldl_erase {removed rest : List (Sigma β)} {map : AList β}
    (h : map.entries.Perm (removed ++ rest)) :
    (removed.foldl (fun map e => map.erase e.1) map).entries.Perm rest := by
  induction removed generalizing map with
  | nil => exact h
  | cons e removed ih =>
    apply @ih (map.erase e.1)
    have h_erase := List.Perm.kerase (a := e.1) map.nodupKeys h
    rwa [List.cons_append, List.kerase_cons_eq rfl] at h_erase

end Maps

end Ethiso
