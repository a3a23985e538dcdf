import Mathlib.Data.List.Nodup

/-!
# First occurrences

The captures of a query and the nodes of a document are numbered in the order in which they occur
first: the number of one is its place in the list of all that occurred, without repetitions
(`List.eraseDups`). The list grows at its end, so a number once given stays
(`idxOf_eraseDups_append`).
-/

namespace Reparse

section Occurrence

variable {α : Type} [BEq α] [LawfulBEq α] {seen more : List α} {entry : α}

theorem nodup_eraseDups : (entries : List α) → entries.eraseDups.Nodup
  | [] => by simp
  | entry :: entries => by
    rw [List.eraseDups_cons, List.nodup_cons]
    refine ⟨?_, nodup_eraseDups _⟩
    simp [List.mem_eraseDups]
termination_by entries => entries.length
decreasing_by exact Nat.lt_succ_of_le (List.length_filter_le _ _)

theorem eraseDups_snoc_of_mem (known : entry ∈ seen) :
    (seen ++ [entry]).eraseDups = seen.eraseDups := by
  simp [List.eraseDups_append, List.removeAll, known]

theorem eraseDups_snoc_of_notMem (new : entry ∉ seen) :
    (seen ++ [entry]).eraseDups = seen.eraseDups ++ [entry] := by
  simp [List.eraseDups_append, List.removeAll, List.eraseDups_cons, new]

/-- A number once given stays. -/
theorem idxOf_eraseDups_append (known : entry ∈ seen) :
    (seen ++ more).eraseDups.idxOf entry = seen.eraseDups.idxOf entry := by
  rw [List.eraseDups_append, List.idxOf_append_of_mem (List.mem_eraseDups.mpr known)]

/-- The number of what is new is behind all others. -/
theorem idxOf_eraseDups_snoc (new : entry ∉ seen) :
    (seen ++ [entry]).eraseDups.idxOf entry = seen.eraseDups.length := by
  rw [eraseDups_snoc_of_notMem new, List.idxOf_append_of_notMem fun known =>
    new (List.mem_eraseDups.mp known)]
  simp

end Occurrence

end Reparse
