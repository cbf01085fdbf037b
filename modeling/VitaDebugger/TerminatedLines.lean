import Mathlib.Data.List.Basic

/-! Texts made of lines, each ended by a separator: what splitting at the separators gives. -/

namespace VitaDebugger.TerminatedLines
open List
variable {α : Type} {sep : α} {lines : List (List α)} {text : List α}

def unlines (sep : α) (lines : List (List α)) : List α := lines.flatMap fun line => line ++ [sep]

theorem unlines_cons (line : List α) (lines : List (List α)) :
    unlines sep (line :: lines) = line ++ sep :: unlines sep lines := by
  simp [unlines]

theorem unlines_eq_intercalate (hn : lines ≠ []) :
    unlines sep lines = [sep].intercalate lines ++ [sep] := by
  induction lines with
  | nil => exact absurd rfl hn
  | cons line rest ih =>
    rw [unlines_cons]
    cases rest with
    | nil => simp [unlines]
    | cons next rest =>
      rw [ih (cons_ne_nil _ _), intercalate_cons_cons]
      simp

theorem getLast?_unlines (hn : lines ≠ []) : (unlines sep lines).getLast? = some sep := by
  rw [unlines_eq_intercalate hn, List.getLast?_concat]

variable [DecidableEq α]

theorem not_mem_of_mem_splitOn {part : List α} (hm : part ∈ text.splitOn sep) : sep ∉ part := by
  induction text generalizing part with
  | nil =>
    rw [splitOn_nil, mem_singleton] at hm
    rw [hm]
    exact not_mem_nil
  | cons c text ih =>
    rw [splitOn_cons_eq_if_modifyHead] at hm
    split at hm
    · rcases mem_cons.mp hm with rfl | hm
      · exact not_mem_nil
      · exact ih hm
    rename_i ho
    obtain ⟨first, rest, hp⟩ := exists_cons_of_ne_nil (splitOn_ne_nil sep text)
    rw [hp] at hm ih
    rcases mem_cons.mp hm with rfl | hm
    · rw [mem_cons, not_or]
      exact ⟨fun hs => ho (by rw [hs, beq_self_eq_true]), ih mem_cons_self⟩
    · exact ih (mem_cons_of_mem _ hm)

theorem splitOn_dropLast_unlines (hn : lines ≠ []) (hp : ∀ line ∈ lines, sep ∉ line) :
    (unlines sep lines).dropLast.splitOn sep = lines := by
  rw [unlines_eq_intercalate hn, dropLast_concat]
  exact splitOn_intercalate sep hp hn

theorem unlines_splitOn (hl : text.getLast? = some sep) :
    unlines sep (text.dropLast.splitOn sep) = text := by
  obtain ⟨front, rfl⟩ := List.getLast?_eq_some_iff.mp hl
  rw [unlines_eq_intercalate (splitOn_ne_nil _ _), dropLast_concat, intercalate_splitOn]

end VitaDebugger.TerminatedLines
