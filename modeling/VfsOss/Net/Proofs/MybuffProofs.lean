import VfsOss.CLib.Proofs.TextProofs
import VfsOss.Net.Mybuff

/-!
# Proofs: the live bytes of a buffer

What is received is appended to the live bytes and what is consumed leaves them at the front, in
whatever block they are.
-/

namespace VfsOss

open CLib

variable {n : Nat} {mem : Nat → UInt8} (b : Mybuff) (d : Bytes)

theorem Mybuff.length_live : b.live.length = b.len := by
  have := b.le
  simp only [Mybuff.live, List.length_take]
  omega

@[simp] theorem live_mybuffInit : mybuffInit.live = [] := rfl

/-- Received bytes come behind the live ones. -/
theorem live_mybuffSetdata : (mybuffSetdata n mem b d).live = b.live ++ d := by
  have hlen : (b.live ++ d).length = b.len + d.length := by
    rw [List.length_append, b.length_live]
  change List.take (b.len + d.length) ((b.live ++ d) ++ _) = _
  rw [← hlen, List.take_left]

@[simp] theorem len_mybuffSetdata : (mybuffSetdata n mem b d).len = b.len + d.length := rfl

/-- Consumed bytes leave the live ones at the front. -/
theorem live_mybuffSkipdata (k : Nat) : (mybuffSkipdata b k).live = b.live.drop k := by
  have hlen := b.length_live
  unfold mybuffSkipdata
  split
  · next h => simp [Mybuff.live, h]
  · split
    · next h =>
      rw [List.drop_eq_nil_of_le (by omega)]
      rfl
    · next h =>
      change List.take (b.len - k) (b.live.drop k ++ _) = _
      have hk : (b.live.drop k).length = b.len - k := by rw [List.length_drop, hlen]
      rw [← hk, List.take_left]

@[simp] theorem live_mybuffReinit : (mybuffReinit n mem b).live = [] := by
  unfold mybuffReinit
  split <;> rfl

theorem mybuffGetdata_eq_none : mybuffGetdata b = none ↔ b.live = [] := by
  have hle := b.le
  have hnil : b.live = [] ↔ b.len = 0 := by rw [← List.length_eq_zero_iff, b.length_live]
  rw [hnil]
  unfold mybuffGetdata
  constructor
  · intro h
    by_contra hne
    rw [if_pos ⟨fun hd => by rw [hd] at hle; simp at hle; omega, by omega⟩] at h
    exact absurd h (by simp)
  · intro h
    rw [if_neg (by omega)]

theorem mybuffGetdata_of_live (h : b.live ≠ []) : mybuffGetdata b = some (b.data, b.len) := by
  cases hg : mybuffGetdata b with
  | none => exact absurd ((mybuffGetdata_eq_none b).mp hg) h
  | some p =>
    unfold mybuffGetdata at hg
    split at hg
    · exact hg.symm
    · exact absurd hg (by simp)

/-- The block starts with the live bytes. -/
theorem Mybuff.data_eq : b.data = b.live ++ b.data.drop b.len := (List.take_append_drop _ _).symm

/-- Bytes stored over live ones take their place. -/
theorem Mybuff.live_store (h : d.length ≤ b.len) : (b.store d).live = d ++ b.live.drop d.length := by
  have hle := b.le
  simp only [Mybuff.live, Mybuff.store]
  rw [List.take_append, List.take_of_length_le h, List.drop_take]

/-! ## Blocks that were zero -/

variable {b}

theorem freshMem_zero (hm : ∀ i, mem i = 0) (k : Nat) : ∀ x ∈ freshMem mem k, x = 0 := by
  intro x hx
  obtain ⟨i, -, rfl⟩ := List.mem_map.mp hx
  exact hm i

theorem Mybuff.Blank.reinit (h : b.Blank) (hm : ∀ i, mem i = 0) : (mybuffReinit n mem b).Clear := by
  unfold mybuffReinit
  split
  · exact freshMem_zero hm n
  · exact h

/-- What is received leaves the rest of the block zero. -/
theorem Mybuff.Clear.setdata (h : b.Clear) (hm : ∀ i, mem i = 0) (d : Bytes) : (mybuffSetdata n mem b d).Clear := by
  have hblock : ∀ x ∈ (if b.data = [] then freshMem mem n else b.data).drop b.len, x = 0 := by
    intro x hx
    split at hx
    · exact freshMem_zero hm n x (List.mem_of_mem_drop hx)
    · exact h x hx
  have hlen : (b.live ++ d).length = b.len + d.length := by rw [List.length_append, b.length_live]
  intro x hx
  dsimp only [mybuffSetdata] at hx
  rw [← hlen, List.drop_left, hlen, ← List.drop_drop] at hx
  have hx := List.mem_of_mem_drop hx
  generalize (if b.data = [] then freshMem mem n else b.data) = block at hblock hx
  split at hx
  · exact hblock x hx
  · rw [List.drop_append] at hx
    rcases List.mem_append.mp hx with hx | hx
    · exact hblock x hx
    · exact freshMem_zero hm _ x (List.mem_of_mem_drop hx)

/-- The C string in the block is the one in the live bytes. -/
theorem Mybuff.Clear.cstr_data (h : b.Clear) : cstr b.data = cstr b.live := by
  rw [b.data_eq]
  unfold Mybuff.Clear at h
  generalize b.data.drop b.len = rest at h
  by_cases hz : (0 : UInt8) ∈ b.live
  · exact cstr_append_of_mem hz rest
  · have hnil : cstr b.live = b.live := by
      have hlive := cstr_append_of_not_mem hz []
      rwa [List.append_nil, show cstr [] = [] from rfl, List.append_nil] at hlive
    cases rest with
    | nil => rw [List.append_nil]
    | cons x rest => rw [h x List.mem_cons_self, cstr_append_zero hz rest, hnil]

end VfsOss
