import VfsOss.Sm.Copy

/-!
# Proofs: when the loop that copies a block ends

As long as the loop goes on, what is left is what `fstat` has reported less what has been read.
-/

namespace VfsOss

variable {io : CopyIo} {k : Nat}

/-- A loop that has not ended knows how much it has read. -/
theorem copyRounds_some {retlen : Int} (h : copyRounds io k = some retlen) :
    retlen = (io.size - io.copied k) % 2 ^ 64 := by
  induction k generalizing retlen with
  | zero =>
    have hr : (io.size : Int) % 2 ^ 64 = retlen := Option.some.inj h
    rw [CopyIo.copied, sub_zero, hr]
  | succ k ih =>
    obtain ⟨r, hr, hround⟩ := Option.bind_eq_some_iff.mp h
    have hr := ih hr
    unfold copyRound at hround
    split at hround
    · dsimp only at hround
      split at hround
      · exact absurd hround (by simp)
      · split at hround
        · exact absurd hround (by simp)
        · rw [← Option.some.inj hround, hr, CopyIo.copied, Int.emod_sub_emod]
          congr 1
          omega
    · exact absurd hround (by simp)

/-- Another round follows unless the reads have added up or a call has failed. -/
theorem copyRounds_succ_none {retlen : Int} (h : copyRounds io k = some retlen) :
    copyRounds io (k + 1) = none ↔
      io.read k < 0 ∨ io.write k ≠ io.read k ∨ (io.size - io.copied k) % 2 ^ 64 = 0 := by
  have hr := copyRounds_some h
  have hpos : 0 ≤ retlen := by
    rw [hr]
    exact Int.emod_nonneg _ (by simp)
  rw [copyRounds, h, Option.bind_some, ← hr]
  unfold copyRound
  by_cases hzero : retlen > 0
  · rw [if_pos hzero]
    dsimp only
    by_cases hread : io.read k < 0
    · rw [if_pos hread]
      exact iff_of_true rfl (Or.inl hread)
    · rw [if_neg hread]
      by_cases hwrite : io.write k = io.read k
      · rw [if_neg (by simpa using hwrite)]
        refine iff_of_false (by simp) ?_
        rintro (hlt | hne | h0)
        · exact hread hlt
        · exact hne hwrite
        · omega
      · rw [if_pos hwrite]
        exact iff_of_true rfl (Or.inr (Or.inl hwrite))
  · rw [if_neg hzero]
    exact iff_of_true rfl (Or.inr (Or.inr (by omega)))

theorem copyEnds_of_readsAddUp (h : ReadsAddUp io) : CopyEnds io := by
  obtain ⟨k, hk⟩ := h
  rcases hr : copyRounds io k with _ | retlen
  · exact ⟨k, hr⟩
  · exact ⟨k + 1, (copyRounds_succ_none hr).mpr hk⟩

/-- **The copy loop ends** exactly if a call fails or the reads add up to the size of the file. -/
theorem copyEnds_iff (io : CopyIo) : CopyEnds io ↔ ReadsAddUp io := by
  refine ⟨?_, copyEnds_of_readsAddUp⟩
  rintro ⟨k, hk⟩
  induction k with
  | zero => exact absurd hk (by simp [copyRounds])
  | succ k ih =>
    rcases hr : copyRounds io k with _ | retlen
    · exact ih hr
    · exact ⟨k, (copyRounds_succ_none hr).mp hk⟩

/-- A file of one byte is truncated between `fstat` and the first `read`. -/
theorem truncated_copy_never_ends : ¬ CopyEnds ⟨1, fun _ => 0, fun _ => 0⟩ := by
  have hsome : ∀ k, copyRounds ⟨1, fun _ => 0, fun _ => 0⟩ k = some 1 := by
    intro k
    induction k with
    | zero => rfl
    | succ k ih =>
      rw [copyRounds, ih]
      rfl
  rintro ⟨k, hk⟩
  rw [hsome k] at hk
  exact absurd hk (by simp)

/-- The loop ends for a file that does not change: as long as there is something to read, `read` fails or
returns some of it. -/
theorem copyEnds_of_unchanged (hread : ∀ k, io.copied k < io.size →
    io.read k < 0 ∨ 0 < io.read k ∧ io.copied k + io.read k ≤ io.size) : CopyEnds io := by
  apply copyEnds_of_readsAddUp
  have key : ∀ n k : Nat, io.copied k ≤ io.size → io.size - io.copied k = n → ReadsAddUp io := by
    intro n
    induction n using Nat.strong_induction_on with
    | _ n ih =>
      intro k hle hn
      rcases Nat.eq_zero_or_pos n with rfl | hpos
      · exact ⟨k, Or.inr (Or.inr (by rw [hn]; rfl))⟩
      · rcases hread k (by omega) with hneg | ⟨h0, hsum⟩
        · exact ⟨k, Or.inl hneg⟩
        · have hnext : io.copied (k + 1) = io.copied k + io.read k := rfl
          exact ih (io.size - io.copied (k + 1)).toNat (by omega) (k + 1) (by omega) (by omega)
  exact key io.size 0 (by simp [CopyIo.copied]) (by simp [CopyIo.copied])

end VfsOss
