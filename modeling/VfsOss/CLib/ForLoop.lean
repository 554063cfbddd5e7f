import VfsOss.CLib.Proofs.DecimalProofs

/-!
# Counted loops over an `int`

`for (idx = 1; idx <= count; idx++)` with an index of 32 bits. The loop runs round by round, so that it can be
said whether it ends and whether its index stays an `int`; the increment wraps, as the compiled one does.
-/

namespace CLib

variable {S : Type}

/-- The index, and the state the body works on. -/
structure ForState (S : Type) where
  idx : Int
  st : S

/-- One round: the body, then the increment. -/
def ForState.round (body : S → Int → S) (f : ForState S) : ForState S :=
  ⟨toInt32 (f.idx + 1), body f.st f.idx⟩

/-- The loop, stopped after `n` rounds if it has not ended by then. -/
def forLoop (body : S → Int → S) (count : Int) : Nat → ForState S → ForState S
  | 0, f => f
  | n + 1, f =>
    let f := forLoop body count n f
    if f.idx ≤ count then f.round body else f

/-- The loop ends after finitely many rounds, and no increment leaves the range of an `int`. -/
structure ForLoopEnds (body : S → Int → S) (count : Int) (f : ForState S) : Prop where
  ends : ∃ n, count < (forLoop body count n f).idx
  inRange : ∀ n, (forLoop body count n f).idx ≤ count → (forLoop body count n f).idx + 1 < 2 ^ 31

/-- The first `n` indices of such a loop. -/
def forIdxs (n : Nat) : List Int := (List.range n).map fun k : Nat => (k : Int) + 1

theorem forIdxs_succ (n : Nat) : forIdxs (n + 1) = forIdxs n ++ [(n : Int) + 1] := by
  rw [forIdxs, List.range_succ, List.map_append]
  rfl

variable {body : S → Int → S} {count : Int}

/-- A loop that has ended does not move. -/
theorem forLoop_stays {f : ForState S} {n : Nat} (h : count < (forLoop body count n f).idx) (m : Nat) :
    forLoop body count (n + m) f = forLoop body count n f := by
  induction m with
  | zero => rfl
  | succ m ih =>
    rw [← Nat.add_assoc, forLoop, ih]
    exact if_neg (not_le.mpr h)

/-- The state while the loop has not ended. -/
theorem forLoop_eq (hcount : count < 2 ^ 31 - 1) (s : S) (n : Nat) (hn : n ≤ count.toNat) :
    forLoop body count n ⟨1, s⟩ = ⟨(n : Int) + 1, (forIdxs n).foldl body s⟩ := by
  induction n with
  | zero => rfl
  | succ n ih =>
    have hround : ForState.round body ⟨(n : Int) + 1, (forIdxs n).foldl body s⟩ =
        ⟨((n + 1 : Nat) : Int) + 1, (forIdxs (n + 1)).foldl body s⟩ := by
      show (⟨toInt32 ((n : Int) + 1 + 1), _⟩ : ForState S) = _
      rw [toInt32_of_range (by omega) (by omega), forIdxs_succ, List.foldl_append]
      rfl
    rw [forLoop, ih (Nat.le_of_succ_le hn)]
    exact (if_pos (show (n : Int) + 1 ≤ count by omega)).trans hround

theorem forLoop_end (hcount : count < 2 ^ 31 - 1) (s : S) :
    count < (forLoop body count count.toNat ⟨1, s⟩).idx := by
  rw [forLoop_eq hcount s _ (Nat.le_refl _)]
  show count < (count.toNat : Int) + 1
  omega

/-- What the loop has done when it has ended. -/
theorem forLoop_ended (hcount : count < 2 ^ 31 - 1) (s : S) (n : Nat)
    (hn : count < (forLoop body count n ⟨1, s⟩).idx) :
    (forLoop body count n ⟨1, s⟩).st = (forIdxs count.toNat).foldl body s := by
  rcases Nat.le_total n count.toNat with hle | hle
  · rw [forLoop_eq hcount s n hle] at hn ⊢
    have hidx : count < (n : Int) + 1 := hn
    rw [show n = count.toNat by omega]
  · obtain ⟨m, rfl⟩ := Nat.exists_eq_add_of_le hle
    rw [forLoop_stays (forLoop_end hcount s), forLoop_eq hcount s _ (Nat.le_refl _)]

/-- At the largest `int` the loop does not end: every `int` is at most the bound. -/
theorem forLoop_le (f : ForState S) (hf : f.idx < 2 ^ 31) (n : Nat) :
    (forLoop body (2 ^ 31 - 1) n f).idx ≤ 2 ^ 31 - 1 := by
  induction n with
  | zero => exact Int.le_sub_one_of_lt hf
  | succ n ih =>
    rw [forLoop, if_pos ih]
    exact Int.le_sub_one_of_lt (toInt32_lt _)

/-- **The loop ends exactly below the largest `int`.** -/
theorem forLoopEnds_iff (hcount : count < 2 ^ 31) (s : S) :
    ForLoopEnds body count ⟨1, s⟩ ↔ count ≠ 2 ^ 31 - 1 := by
  constructor
  · rintro ⟨⟨n, hn⟩, -⟩ rfl
    exact absurd hn (not_lt.mpr (forLoop_le ⟨1, s⟩ (show (1 : Int) < 2 ^ 31 by decide) n))
  · intro hne
    have hlt : count < 2 ^ 31 - 1 := by omega
    exact ⟨⟨_, forLoop_end hlt s⟩, fun n hn => by omega⟩

end CLib
