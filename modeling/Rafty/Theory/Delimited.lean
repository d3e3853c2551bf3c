/-
# Rafty.Theory.Delimited — rows of fields in one text

Two writers and one reader of a table.  `joinRows` puts `outer` between the rows and
`inner` between the fields of a row; `endRows` puts `outer` after every row; `splitRows`
splits at every `outer`, then each row at every `inner`.

* `splitRows_joinRows`: rows whose fields hold neither separator are read back;
* `dropLast_endRows`: without its last separator, `endRows` is `joinRows`.
-/
import Mathlib.Data.List.Basic
import Mathlib.Tactic.Common

namespace Rafty.Theory

set_option autoImplicit false

universe u

variable {α : Type u} {outer inner : α}

/-! ## Separators after, and between -/

/-- Every piece with `sep` after it. -/
def ended (sep : α) (pieces : List (List α)) : List α := pieces.flatMap (· ++ [sep])

theorem ended_cons (sep : α) (piece : List α) (pieces : List (List α)) :
    ended sep (piece :: pieces) = piece ++ sep :: ended sep pieces := by
  simp [ended]

theorem ended_ne_nil {sep : α} {pieces : List (List α)} (nonempty : pieces ≠ []) :
    ended sep pieces ≠ [] := by
  cases pieces with
  | nil => exact absurd rfl nonempty
  | cons => simp [ended_cons]

/-- The last separator cut off, the others stand between the pieces. -/
theorem dropLast_ended (sep : α) (pieces : List (List α)) :
    (ended sep pieces).dropLast = [sep].intercalate pieces := by
  induction pieces with
  | nil => rfl
  | cons piece rest ih =>
      rw [ended_cons]
      cases rest with
      | nil => simp [ended]
      | cons next rest =>
          have more : ended sep (next :: rest) ≠ [] := ended_ne_nil (List.cons_ne_nil _ _)
          rw [List.dropLast_append_of_ne_nil (List.cons_ne_nil _ _),
            List.dropLast_cons_of_ne_nil more, ih, List.intercalate_cons_cons]
          simp

/-! ## Rows of fields -/

def joinRows (outer inner : α) (rows : List (List (List α))) : List α :=
  [outer].intercalate (rows.map [inner].intercalate)

def endRows (outer inner : α) (rows : List (List (List α))) : List α :=
  ended outer (rows.map [inner].intercalate)

def splitRows [BEq α] (outer inner : α) (text : List α) : List (List (List α)) :=
  (text.splitOn outer).map (List.splitOn inner)

theorem dropLast_endRows (rows : List (List (List α))) :
    (endRows outer inner rows).dropLast = joinRows outer inner rows :=
  dropLast_ended outer _

/-- What is in a joined text is the separator or in one of the pieces. -/
theorem mem_intercalate {sep c : α} {pieces : List (List α)}
    (mem : c ∈ [sep].intercalate pieces) : c = sep ∨ ∃ piece ∈ pieces, c ∈ piece := by
  rw [← dropLast_ended] at mem
  obtain ⟨piece, inPieces, inPiece⟩ := List.mem_flatMap.mp (List.dropLast_subset _ mem)
  rcases List.mem_append.mp inPiece with inside | isSep
  · exact Or.inr ⟨piece, inPieces, inside⟩
  · exact Or.inl (List.mem_singleton.mp isSep)

/-- A field holds neither separator, and a row has a field. -/
structure Plain (outer inner : α) (row : List (List α)) : Prop where
  nonempty : row ≠ []
  noOuter : ∀ field ∈ row, outer ∉ field
  noInner : ∀ field ∈ row, inner ∉ field

theorem Plain.outer_not_mem {row : List (List α)} (plain : Plain outer inner row)
    (distinct : outer ≠ inner) : outer ∉ [inner].intercalate row := by
  intro mem
  rcases mem_intercalate mem with same | ⟨field, inRow, inField⟩
  · exact distinct same
  · exact plain.noOuter field inRow inField

variable [BEq α] [LawfulBEq α]

theorem splitRows_joinRows {rows : List (List (List α))} (nonempty : rows ≠ [])
    (distinct : outer ≠ inner) (plain : ∀ row ∈ rows, Plain outer inner row) :
    splitRows outer inner (joinRows outer inner rows) = rows := by
  unfold splitRows joinRows
  rw [List.splitOn_intercalate, List.map_map]
  · calc rows.map (List.splitOn inner ∘ [inner].intercalate)
        = rows.map id := by
          refine List.map_congr_left fun row inRows => ?_
          exact List.splitOn_intercalate inner (plain row inRows).noInner (plain row inRows).nonempty
      _ = rows := List.map_id rows
  · simp only [List.mem_map, forall_exists_index, and_imp, forall_apply_eq_imp_iff₂]
    exact fun row inRows => (plain row inRows).outer_not_mem distinct
  · simpa using nonempty

end Rafty.Theory
