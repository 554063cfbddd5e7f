import VfsOss.CLib.Text

/-!
# Cutting a sequence into ranges

A range is given by its first and its last position. Ranges that follow each other without a gap cut a
sequence into pieces that are, one behind the other, the sequence.
-/

namespace CLib

/-- Ranges, none of them empty, that follow each other from one position up to another. -/
inductive Tiles : Int → List (Int × Int) → Int → Prop
  | nil (a : Int) : Tiles a [] a
  | cons {a e b : Int} {l : List (Int × Int)} (hle : a ≤ e) (h : Tiles (e + 1) l b) :
      Tiles a ((a, e) :: l) b

variable {a b : Int} {l : List (Int × Int)}

theorem Tiles.le (h : Tiles a l b) : a ≤ b := by
  induction h with
  | nil => exact Int.le_refl _
  | cons hle _ ih => omega

/-- The range from the first position to the last. -/
theorem Tiles.one (h : a < b) : Tiles a [(a, b - 1)] b := by
  have hnil : Tiles (b - 1 + 1) [] b := by
    rw [Int.sub_add_cancel]
    exact .nil b
  exact .cons (by omega) hnil

/-- What a sequence holds in a range. -/
def slice {α : Type} (file : List α) (r : Int × Int) : List α :=
  (file.drop r.1.toNat).take (r.2 - r.1 + 1).toNat

/-- The pieces one behind the other. -/
theorem Tiles.flatMap_slice {α : Type} (file : List α) (h : Tiles a l b) (ha : 0 ≤ a) :
    l.flatMap (slice file) = (file.drop a.toNat).take (b - a).toNat := by
  induction h with
  | nil a => simp
  | cons hle h ih =>
    rename_i a e b l
    have hlt := h.le
    rw [List.flatMap_cons, ih (by omega), slice]
    have hdrop : file.drop (e + 1).toNat = (file.drop a.toNat).drop (e - a + 1).toNat := by
      rw [List.drop_drop]
      congr 1
      omega
    have hsum : (b - a).toNat = (e - a + 1).toNat + (b - (e + 1)).toNat := by omega
    rw [hdrop, hsum, List.take_add]

/-- The pieces of a whole sequence are the sequence. -/
theorem Tiles.flatMap_slice_whole {α : Type} (file : List α) (h : Tiles 0 l file.length) :
    l.flatMap (slice file) = file := by
  rw [h.flatMap_slice file (Int.le_refl 0)]
  simp

end CLib
