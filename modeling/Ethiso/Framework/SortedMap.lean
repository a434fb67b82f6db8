import Mathlib.Order.Defs.LinearOrder
import Mathlib.Order.Lattice
import Mathlib.Data.List.Pairwise

/-!
# Maps sorted by their keys

A finite map is the list of its entries in increasing order of the keys. The
order is a field of the structure, so a map that is not sorted, or has a key
twice, cannot be built.

Everything is said through `get?`: an entry is in the list exactly if `get?`
finds it (`mem_entries`), so the entries below a key (`headMap`), what is left
when they are cleared (`tailMap`) and the greatest key (`lastKey?`) are all
described by what `get?` returns.
-/

namespace Ethiso

/-- A finite map as the list of its entries, in increasing order of the keys. -/
structure SortedMap (κ β : Type*) [LinearOrder κ] where
  entries : List (κ × β)
  sorted : entries.Pairwise (fun d e => d.1 < e.1)

namespace SortedMap

variable {κ β : Type*} [LinearOrder κ]

/-- The map with no entry. -/
def empty : SortedMap κ β := ⟨[], List.Pairwise.nil⟩

/-- The value at key `k` in a list of entries. -/
def getEntry (k : κ) : List (κ × β) → Option β
  | [] => none
  | e :: es => if e.1 = k then some e.2 else getEntry k es

/-- `get` -/
def get? (m : SortedMap κ β) (k : κ) : Option β := getEntry k m.entries

/-- The greatest key, if there is one. -/
def lastKey? (m : SortedMap κ β) : Option κ := m.entries.getLast?.map Prod.fst

/-- The entries whose key is below `b`, in increasing order. -/
def headMap (m : SortedMap κ β) (b : κ) : List (κ × β) :=
  m.entries.filter fun e => e.1 < b

/-- What is left of the map when the entries below `b` are cleared. -/
def tailMap (m : SortedMap κ β) (b : κ) : SortedMap κ β where
  entries := m.entries.filter fun e => ¬ e.1 < b
  sorted := m.sorted.filter _

/-- Sets the entry of `k` to what `f` makes of the value there, if any. -/
def setEntry (k : κ) (f : Option β → β) : List (κ × β) → List (κ × β)
  | [] => [(k, f none)]
  | e :: es =>
    if k < e.1 then (k, f none) :: e :: es
    else if e.1 = k then (k, f (some e.2)) :: es
    else e :: setEntry k f es

/-- The keys stay above. -/
theorem setEntry_keys {k j : κ} {f : Option β → β} {es : List (κ × β)}
    (h : ∀ e ∈ es, j < e.1) (h_k : j < k) : ∀ e ∈ setEntry k f es, j < e.1 := by
  induction es with
  | nil => simpa [setEntry] using h_k
  | cons e es ih =>
    unfold setEntry
    split_ifs with h1 h2
    · simpa [h_k] using h
    · simp only [List.mem_cons, forall_eq_or_imp] at h ⊢
      exact ⟨h_k, h.2⟩
    · simp only [List.mem_cons, forall_eq_or_imp] at h ⊢
      exact ⟨h.1, ih h.2⟩

/-- Setting keeps the keys sorted. By induction on the entries. -/
theorem setEntry_sorted (k : κ) (f : Option β → β) {es : List (κ × β)}
    (h : es.Pairwise (fun d e => d.1 < e.1)) :
    (setEntry k f es).Pairwise (fun d e => d.1 < e.1) := by
  induction es with
  | nil => exact List.pairwise_singleton _ _
  | cons e es ih =>
    obtain ⟨h_e, h_es⟩ := List.pairwise_cons.mp h
    unfold setEntry
    split_ifs with h1 h2
    -- before the first entry, at it, or behind it
    · refine List.pairwise_cons.mpr ⟨fun d h_d => ?_, h⟩
      rcases List.mem_cons.mp h_d with rfl | h_d
      · exact h1
      · exact lt_trans h1 (h_e d h_d)
    · exact List.pairwise_cons.mpr ⟨fun d h_d => h2 ▸ h_e d h_d, h_es⟩
    · have h_lt : e.1 < k := lt_of_le_of_ne (not_lt.mp h1) h2
      exact List.pairwise_cons.mpr ⟨setEntry_keys h_e h_lt, ih h_es⟩

/-- Sets the value at `k` to what `f` makes of the value there, if any. -/
def upsert (m : SortedMap κ β) (k : κ) (f : Option β → β) : SortedMap κ β where
  entries := setEntry k f m.entries
  sorted := setEntry_sorted k f m.sorted

/-! ### What `get?` returns -/

/-- A key that is not there has no value. -/
theorem getEntry_eq_none {k : κ} {es : List (κ × β)} (h : ∀ e ∈ es, e.1 ≠ k) :
    getEntry k es = none := by
  induction es with
  | nil => rfl
  | cons e es ih =>
    simp only [List.mem_cons, forall_eq_or_imp] at h
    unfold getEntry
    rw [if_neg h.1, ih h.2]

/-- The entries are the pairs that `get?` finds. -/
theorem mem_entries {m : SortedMap κ β} {k : κ} {v : β} :
    (k, v) ∈ m.entries ↔ m.get? k = some v := by
  obtain ⟨es, h⟩ := m
  unfold get?
  induction es with
  | nil => simp [getEntry]
  | cons e es ih =>
    obtain ⟨h_e, h_es⟩ := List.pairwise_cons.mp h
    unfold getEntry
    -- the entries after one with the key have greater keys
    by_cases h_k : e.1 = k
    · have h_out : (k, v) ∉ es := fun h_mem => absurd (h_e _ h_mem) (by simp [h_k])
      rw [if_pos h_k, Option.some.injEq, List.mem_cons, or_iff_left h_out]
      refine ⟨?_, ?_⟩
      · rintro rfl
        rfl
      · rintro rfl
        rw [← h_k]
    · have h_ne : (k, v) ≠ e := fun h_eq => h_k (by rw [← h_eq])
      rw [if_neg h_k, List.mem_cons, or_iff_right h_ne]
      exact ih h_es

/-- What is found after setting. -/
theorem getEntry_setEntry (k j : κ) (f : Option β → β) {es : List (κ × β)}
    (h : es.Pairwise (fun d e => d.1 < e.1)) :
    getEntry j (setEntry k f es) = if j = k then some (f (getEntry k es)) else getEntry j es := by
  induction es with
  | nil => simp only [setEntry, getEntry, eq_comm]
  | cons e es ih =>
    obtain ⟨h_e, h_es⟩ := List.pairwise_cons.mp h
    unfold setEntry
    split_ifs with h_new h_j h_here h_j h_j
    -- a new entry, below all the others: none of them is at `k`
    · have h_none : getEntry k (e :: es) = none := by
        apply getEntry_eq_none
        intro d h_d
        rcases List.mem_cons.mp h_d with rfl | h_d
        · exact h_new.ne'
        · exact (lt_trans h_new (h_e d h_d)).ne'
      rw [h_none, getEntry, if_pos h_j.symm]
    · rw [getEntry, if_neg (Ne.symm h_j)]
    · simp [getEntry, h_j, h_here]
    · simp [getEntry, Ne.symm h_j, h_here]
    · have h_ej : e.1 ≠ j := h_j ▸ h_here
      rw [getEntry, if_neg h_ej, ih h_es, if_pos h_j, getEntry, if_neg h_here]
    · rw [getEntry, getEntry, ih h_es, if_neg h_j]

theorem get?_upsert (m : SortedMap κ β) (k j : κ) (f : Option β → β) :
    (m.upsert k f).get? j = if j = k then some (f (m.get? k)) else m.get? j :=
  getEntry_setEntry k j f m.sorted

/-- `headMap` has the keys below the bound. -/
theorem mem_headMap {m : SortedMap κ β} {b k : κ} {v : β} :
    (k, v) ∈ m.headMap b ↔ m.get? k = some v ∧ k < b := by
  unfold headMap
  rw [List.mem_filter, mem_entries]
  simp

theorem headMap_sorted (m : SortedMap κ β) (b : κ) :
    (m.headMap b).Pairwise (fun d e => d.1 < e.1) :=
  m.sorted.filter _

/-- `tailMap` has the others. -/
theorem get?_tailMap (m : SortedMap κ β) (b k : κ) :
    (m.tailMap b).get? k = if k < b then none else m.get? k := by
  apply Option.ext
  intro v
  rw [← mem_entries]
  unfold tailMap
  rw [List.mem_filter, mem_entries]
  by_cases h : k < b <;> simp [h]

/-- Clearing what is below `b` changes nothing if there is nothing. -/
theorem tailMap_eq_self {m : SortedMap κ β} {b : κ} (h : m.headMap b = []) : m.tailMap b = m := by
  obtain ⟨es, h_sorted⟩ := m
  unfold headMap at h
  unfold tailMap
  congr
  rw [List.filter_eq_self]
  intro e h_e
  simpa using List.filter_eq_nil_iff.mp h e h_e

/-- The greatest key is a key, and no key is above it. -/
theorem lastKey?_eq_some {m : SortedMap κ β} {k : κ} :
    m.lastKey? = some k ↔ m.get? k ≠ none ∧ ∀ j, m.get? j ≠ none → j ≤ k := by
  have h_key : ∀ j, m.get? j ≠ none ↔ ∃ v, (j, v) ∈ m.entries := by
    intro j
    simp only [mem_entries, Option.ne_none_iff_exists']
  simp only [h_key]
  obtain ⟨es, h⟩ := m
  unfold lastKey?
  dsimp only
  -- the greatest key is that of the last entry
  rcases List.eq_nil_or_concat es with rfl | ⟨es, e, rfl⟩
  · simp
  · rw [List.concat_eq_append] at h ⊢
    have h_below : ∀ d ∈ es, d.1 < e.1 := by
      intro d h_d
      exact (List.pairwise_append.mp h).2.2 d h_d e (List.mem_singleton.mpr rfl)
    have h_le : ∀ j, (∃ v, (j, v) ∈ es ++ [e]) → j ≤ e.1 := by
      rintro j ⟨v, h_v⟩
      rcases List.mem_append.mp h_v with h_v | h_v
      · exact (h_below _ h_v).le
      · obtain rfl := List.mem_singleton.mp h_v
        exact le_refl _
    have h_e : ∃ v, (e.1, v) ∈ es ++ [e] := ⟨e.2, by simp⟩
    rw [List.getLast?_concat, Option.map_some, Option.some.injEq]
    refine ⟨?_, ?_⟩
    · rintro rfl
      exact ⟨h_e, h_le⟩
    · rintro ⟨h_k, h_max⟩
      exact le_antisymm (h_max _ h_e) (h_le _ h_k)

/-- Without a last key there is none. -/
theorem lastKey?_eq_none {m : SortedMap κ β} : m.lastKey? = none ↔ ∀ k, m.get? k = none := by
  unfold lastKey?
  rw [Option.map_eq_none_iff, List.getLast?_eq_none_iff]
  refine ⟨?_, ?_⟩
  · intro h k
    unfold get?
    rw [h, getEntry]
  · intro h
    apply List.eq_nil_iff_forall_not_mem.mpr
    intro e h_e
    have h_some : m.get? e.1 = some e.2 := mem_entries.mp h_e
    rw [h] at h_some
    cases h_some

end SortedMap

end Ethiso
