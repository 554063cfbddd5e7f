import VfsOss.Net.MybuffMem
import VfsOss.Net.Proofs.MybuffProofs

/-!
# Proofs: a buffer is a byte queue

A sound buffer has a block of just the size it says, and its length is no more than that. Each call
on a sound buffer either asks for more memory than an object can have or leaves a sound one that holds
the block and the length of the buffer model of the protocol handlers; so the live bytes of that model
are the queue.
-/

namespace VfsOss

open CLib

theorem Mybuff.eq_of {b c : Mybuff} (hdata : b.data = c.data) (hlen : b.len = c.len) : b = c := by
  cases b
  cases c
  subst hdata hlen
  rfl

/-! ## The queue -/

namespace ByteQueue

variable (q : ByteQueue)

@[simp] theorem content_empty : empty.content = [] := rfl

@[simp] theorem content_write (d : Bytes) : (q.write d).content = q.content ++ d :=
  List.drop_append_of_le_length q.le

@[simp] theorem content_skip (n : Nat) : (q.skip n).content = q.content.drop n := by
  unfold content skip
  dsimp only
  rw [List.drop_drop]
  by_cases h : q.skipped + n ≤ q.written.length
  · rw [Nat.min_eq_left h]
  · rw [Nat.min_eq_right (by omega), List.drop_length, List.drop_eq_nil_of_le (by omega)]

end ByteQueue

/-! ## Sound buffers -/

namespace MemBuff

/-- The block has the size the buffer says, and the live bytes are in it. -/
structure Sound (b : MemBuff) : Prop where
  length_block : b.block.length = b.size
  le : b.len ≤ b.size
  small : b.size ≤ ptrdiffMax
  pos : b.data ≠ none → 0 < b.size

/-- The buffer as the protocol handlers see it. -/
def toMybuff (b : MemBuff) (h : b.Sound) : Mybuff := ⟨b.block, b.len, h.length_block.symm ▸ h.le⟩

/-- What a call that asks for at most `size` bytes leaves: a fault of the allocator, which does not have as many, or a
sound buffer of which `P` holds. -/
def Leaves (size : Nat) (P : Mybuff → Prop) (r : Except MemFault MemBuff) : Prop :=
  (ptrdiffMax < size ∧ r = .error .outOfMemory) ∨ ∃ b, r = .ok b ∧ ∃ h : b.Sound, P (b.toMybuff h)

variable {n : Nat} {mem : Nat → UInt8} {b : MemBuff}

theorem sound_init : init.Sound :=
  ⟨rfl, Nat.le_refl _, Nat.zero_le _, fun h => absurd rfl h⟩

/-- Without a block there is nothing in the buffer. -/
theorem Sound.size_of_none (h : b.Sound) (hd : b.data = none) : b.size = 0 := by
  rw [← h.length_block, block, hd]
  rfl

theorem Sound.block_eq_nil (h : b.Sound) : b.block = [] ↔ b.data = none := by
  constructor
  · intro hnil
    by_contra hd
    have hpos := h.pos hd
    rw [← h.length_block, hnil] at hpos
    exact absurd hpos (by simp)
  · intro hd
    rw [block, hd]
    rfl

/-- A buffer has a block when `mybuff_setdata` copies: the one it had or a fresh one. -/
theorem Sound.allocate (h : b.Sound) (hn : 0 < n) :
    (ptrdiffMax < n ∧ allocate n mem b = .error .outOfMemory) ∨ ∃ b', allocate n mem b = .ok b' ∧ b'.Sound ∧
      b'.data ≠ none ∧ b'.len = b.len ∧
      b'.block = if b.block = [] then freshMem mem n else b.block := by
  unfold MemBuff.allocate
  cases hd : b.data with
  | some blk =>
    refine .inr ⟨b, rfl, h, by simp [hd], rfl, ?_⟩
    rw [if_neg (fun hnil => by simp [h.block_eq_nil.mp hnil] at hd)]
  | none =>
    have hlen : b.len = 0 := by
      have := h.le
      have := h.size_of_none hd
      omega
    obtain ⟨hlarge, hm⟩ | ⟨hmax, hm⟩ := malloc_cases mem n
    · exact .inl ⟨hlarge, by rw [hm]; rfl⟩
    refine .inr ⟨{ b with data := some (uninit mem n), size := n }, by rw [hm]; rfl, ?_, by simp,
      rfl, ?_⟩
    · exact ⟨length_uninit, by simp [hlen], hmax, fun _ => hn⟩
    · rw [if_pos (h.block_eq_nil.mpr hd)]
      rfl

/-- Bytes copied behind the live ones of a block that has room for them. -/
theorem sound_copied {tmp data : Bytes} {size len : Nat} (hlen : tmp.length = size)
    (hroom : len + data.length ≤ size) (hsmall : size ≤ ptrdiffMax) (hpos : 0 < size) :
    { b with data := some (tmp.take len ++ data ++ tmp.drop (len + data.length)), size := size,
             len := len + data.length : MemBuff }.Sound := by
  refine ⟨?_, hroom, hsmall, fun _ => hpos⟩
  change (tmp.take len ++ data ++ tmp.drop (len + data.length)).length = size
  rw [List.length_append, List.length_append, List.length_take, List.length_drop]
  omega

/-- The bytes the buffer model finds before `mybuff_setdata` copies are those of the block in use. -/
theorem Sound.live_allocated {b₁ : MemBuff} (h : b.Sound) (hlen : b₁.len = b.len)
    (hblock : b₁.block = if b.block = [] then freshMem mem n else b.block) :
    (b.toMybuff h).live = b₁.block.take b₁.len := by
  have hle := h.le
  rw [hblock, hlen]
  change b.block.take b.len = _
  split
  · next hnil =>
    have hzero : b.len = 0 := by
      have := h.size_of_none (h.block_eq_nil.mp hnil)
      omega
    rw [hzero, List.take_zero, List.take_zero]
  · rfl

/-- `mybuff_setdata` from its comparison on, with the sums and the difference as numbers. -/
theorem Sound.setdata_allocated {b₁ : MemBuff} (h₁ : b₁.Sound) {data : Bytes}
    (hfits : data.length ≤ ptrdiffMax) (ha : MemBuff.allocate n mem b = .ok b₁) :
    b.setdata n mem data =
      if b₁.size - b₁.len > data.length then
        memcpy b₁.block b₁.len data >>= fun block =>
          .ok { b₁ with data := some block, len := b₁.len + data.length }
      else
        realloc mem b₁.block (b₁.len + data.length + 1) >>= fun tmp =>
          memcpy tmp b₁.len data >>= fun block =>
            .ok { b₁ with data := some block, size := b₁.len + data.length + 1,
                          len := b₁.len + data.length } := by
  have hle := h₁.le
  have hsmall := h₁.small
  unfold ptrdiffMax at hsmall hfits
  have hsub : subSize b₁.size b₁.len = b₁.size - b₁.len := subSize_eq (by omega) hle
  have hadd : addSize b₁.len data.length = b₁.len + data.length := addSize_eq (by omega)
  have hadd₁ : addSize (b₁.len + data.length) 1 = b₁.len + data.length + 1 := addSize_eq (by omega)
  have hbind (f : MemBuff → Except MemFault MemBuff) : (Except.ok b₁ >>= f) = f b₁ := rfl
  unfold MemBuff.setdata
  rw [ha, hbind]
  dsimp only
  rw [hsub, hadd, hadd₁]

/-- `mybuff_setdata` is that of the buffer model. -/
theorem Sound.setdata (h : b.Sound) (hn : 0 < n) {data : Bytes} (hfits : data.length ≤ ptrdiffMax) :
    Leaves (max n (b.len + data.length + 1)) (· = mybuffSetdata n mem (b.toMybuff h) data)
      (b.setdata n mem data) := by
  obtain ⟨hlarge, ha⟩ | ⟨b₁, ha, h₁, hd₁, hlen₁, hblock₁⟩ :=
    (h.allocate hn : (ptrdiffMax < n ∧ MemBuff.allocate n mem b = .error .outOfMemory) ∨ _)
  · unfold MemBuff.setdata
    exact .inl ⟨by omega, by rw [ha]; rfl⟩
  rw [h₁.setdata_allocated hfits ha]
  have hle := h₁.le
  have hsmall := h₁.small
  have hlength := h₁.length_block
  have hmodel : (mybuffSetdata n mem (b.toMybuff h) data).data =
      (b₁.block.take b₁.len ++ data) ++
        (if b₁.block.length - b₁.len > data.length then b₁.block
          else b₁.block ++ freshMem mem (b₁.len + data.length + 1 - b₁.block.length)).drop
            (b₁.len + data.length) := by
    rw [← h.live_allocated hlen₁ hblock₁, hblock₁, hlen₁]
    rfl
  have hmodelLen : (mybuffSetdata n mem (b.toMybuff h) data).len = b₁.len + data.length := by
    rw [hlen₁]
    rfl
  by_cases hroom : b₁.size - b₁.len > data.length
  · rw [if_pos hroom, memcpy_eq (by omega)]
    refine .inr ⟨_, rfl, sound_copied hlength (by omega) hsmall (h₁.pos hd₁), ?_⟩
    refine Mybuff.eq_of ?_ hmodelLen.symm
    rw [hmodel, if_pos (by omega)]
    rfl
  · rw [if_neg hroom]
    obtain ⟨hlarge, hr⟩ | ⟨hmax, hr⟩ := realloc_cases (n := b₁.len + data.length + 1) mem
      (show b₁.block.length ≤ b₁.len + data.length + 1 by omega)
    · exact .inl ⟨by omega, by rw [hr]; rfl⟩
    -- the new block is the old one and fresh bytes behind it, just one more than needed
    have htmp : (b₁.block ++ uninit mem (b₁.len + data.length + 1 - b₁.block.length)).length =
        b₁.len + data.length + 1 := by
      rw [List.length_append, length_uninit]
      omega
    have htake : (b₁.block ++ uninit mem (b₁.len + data.length + 1 - b₁.block.length)).take b₁.len =
        b₁.block.take b₁.len := List.take_append_of_le_length (by omega)
    rw [hr]
    change Leaves _ _ (memcpy _ _ _ >>= _)
    rw [memcpy_eq (by omega)]
    refine .inr ⟨_, rfl, sound_copied htmp (by omega) hmax (by omega), ?_⟩
    refine Mybuff.eq_of ?_ hmodelLen.symm
    rw [hmodel, if_neg (by omega), ← htake]
    rfl

/-- `mybuff_skipdata` is that of the buffer model. -/
theorem Sound.skipdata (h : b.Sound) (k : Nat) :
    Leaves 0 (· = mybuffSkipdata (b.toMybuff h) k) (b.skipdata k) := by
  have hle := h.le
  have hsmall := h.small
  have hlength := h.length_block
  unfold MemBuff.skipdata mybuffSkipdata
  cases hd : b.data with
  | none => exact .inr ⟨b, rfl, h, (if_pos (h.block_eq_nil.mpr hd)).symm⟩
  | some blk =>
    have hblk : b.block = blk := by
      rw [block, hd]
      rfl
    have hne : b.block ≠ [] := fun hnil => by simp [h.block_eq_nil.mp hnil] at hd
    have hlive : (b.toMybuff h).live = blk.take b.len := by rw [← hblk]; rfl
    rw [if_neg (show ¬ (b.toMybuff h).data = [] from hne)]
    by_cases hk : k ≥ b.len
    · rw [if_pos (show k ≥ (b.toMybuff h).len from hk)]
      dsimp only
      rw [if_pos hk]
      rw [block, hd] at hlength
      refine .inr ⟨_, rfl, ⟨hlength, Nat.zero_le _, hsmall, fun _ => h.pos (by simp [hd])⟩, ?_⟩
      exact Mybuff.eq_of hblk.symm rfl
    · have hsub : subSize b.len k = b.len - k := by
        unfold ptrdiffMax at hsmall
        exact subSize_eq (by omega) (by omega)
      have hmove : memmove blk 0 k (b.len - k) =
          .ok ((blk.drop k).take (b.len - k) ++ blk.drop (b.len - k)) :=
        memmove_zero (by rw [← hblk]; omega)
      rw [if_neg (show ¬ k ≥ (b.toMybuff h).len from hk)]
      dsimp only
      rw [if_neg hk, hsub, hmove]
      refine .inr ⟨_, rfl, ⟨?_, ?_, hsmall, fun _ => h.pos (by simp [hd])⟩, ?_⟩
      · change ((blk.drop k).take (b.len - k) ++ blk.drop (b.len - k)).length = b.size
        rw [← hblk, List.length_append, List.length_take, List.length_drop, List.length_drop]
        omega
      · change b.len - k ≤ b.size
        omega
      · refine Mybuff.eq_of ?_ rfl
        change (blk.drop k).take (b.len - k) ++ blk.drop (b.len - k) =
          (b.toMybuff h).live.drop k ++ b.block.drop (b.len - k)
        rw [hlive, List.drop_take, hblk]

theorem sound_dropFile (h : b.Sound) : b.dropFile.1.Sound := by
  unfold dropFile
  split
  · exact ⟨h.length_block, h.le, h.small, h.pos⟩
  · exact h

/-- `mybuff_reinit` leaves nothing live. -/
theorem Sound.reinit (h : b.Sound) (hn : 0 < n) :
    Leaves n (fun c => c.live = []) (b.reinit n mem) := by
  have hdrop := sound_dropFile h
  unfold MemBuff.reinit shrink
  split
  · obtain ⟨hlarge, hm⟩ | ⟨hmax, hm⟩ := malloc_cases mem n
    · exact .inl ⟨hlarge, by rw [hm]; rfl⟩
    rw [hm]
    exact .inr ⟨_, rfl, ⟨length_uninit, Nat.zero_le _, hmax, fun _ => hn⟩, rfl⟩
  · exact .inr ⟨_, rfl, ⟨hdrop.length_block, Nat.zero_le _, hdrop.small, hdrop.pos⟩, rfl⟩

/-! ## Runs -/

variable {q : ByteQueue}

/-- One call whose allocations succeed: the live bytes stay the content of the queue. -/
theorem Sound.call (h : b.Sound) (hn : 0 < n) (hmax : n ≤ ptrdiffMax) (hq : (b.toMybuff h).live = q.content)
    (c : BuffCall) (hc : q.Allocates c) :
    ∃ b', b.call n mem c = .ok b' ∧ ∃ h' : b'.Sound, (b'.toMybuff h').live = (q.call c).content := by
  cases c with
  | setdata data hfits =>
    have hasks : q.content.length + data.length + 1 ≤ ptrdiffMax := hc
    have hlen : q.content.length = b.len := by
      rw [← hq, Mybuff.length_live]
      rfl
    have hleaves : Leaves _ (· = mybuffSetdata n mem (b.toMybuff h) data) (b.setdata n mem data) := h.setdata hn hfits
    obtain ⟨hlarge, -⟩ | ⟨b', hok, h', heq⟩ := hleaves
    · omega
    refine ⟨b', hok, h', ?_⟩
    rw [heq, live_mybuffSetdata, hq]
    exact (q.content_write data).symm
  | skipdata k =>
    obtain ⟨hlarge, -⟩ | ⟨b', hok, h', heq⟩ := h.skipdata k
    · exact absurd hlarge (Nat.not_lt_zero _)
    refine ⟨b', hok, h', ?_⟩
    rw [heq, live_mybuffSkipdata, hq]
    exact (q.content_skip k).symm
  | getdata => exact ⟨b, rfl, h, hq⟩
  | reinit =>
    have hleaves : Leaves n (fun c => c.live = []) (b.reinit n mem) := h.reinit hn
    obtain ⟨hlarge, -⟩ | hok := hleaves
    · omega
    · exact hok

/-- A sequence of calls. -/
theorem Sound.run (calls : BuffCalls) (h : b.Sound) (hn : 0 < n) (hmax : n ≤ ptrdiffMax)
    (hq : (b.toMybuff h).live = q.content)
    (hc : RunOk (fun (q : ByteQueue) (c : BuffCall × (Nat → UInt8)) => q.call c.1) (fun q c => q.Allocates c.1)
      q calls) :
    ∃ b', b.run n calls = .ok b' ∧ ∃ h' : b'.Sound, (b'.toMybuff h').live = (q.run calls).content := by
  induction calls generalizing b q with
  | nil => exact ⟨b, rfl, h, hq⟩
  | cons c calls ih =>
    obtain ⟨b', hok, h', hq'⟩ : ∃ b', b.call n c.2 c.1 = .ok b' ∧
        ∃ h' : b'.Sound, (b'.toMybuff h').live = (q.call c.1).content := h.call hn hmax hq c.1 hc.1
    unfold MemBuff.run
    rw [List.foldlM_cons, hok]
    exact ih h' hq' hc.2

/-- What `mybuff_getdata` hands out of a sound buffer. -/
theorem Sound.getdata (h : b.Sound) : b.getdata.map (fun p => p.1.take p.2) =
    if (b.toMybuff h).live = [] then none else some (b.toMybuff h).live := by
  have hle := h.le
  have hnil : (b.toMybuff h).live = [] ↔ b.len = 0 := by
    rw [← List.length_eq_zero_iff, Mybuff.length_live]
    rfl
  unfold MemBuff.getdata
  cases hd : b.data with
  | none =>
    have hsize := h.size_of_none hd
    rw [if_pos (hnil.mpr (by omega))]
    rfl
  | some blk =>
    have hlive : (b.toMybuff h).live = blk.take b.len := by
      change b.block.take b.len = _
      rw [block, hd]
      rfl
    dsimp only
    by_cases hz : b.len = 0
    · rw [if_neg (by omega), if_pos (hnil.mpr hz)]
      rfl
    · rw [if_pos (by omega), if_neg (fun he => hz (hnil.mp he)), hlive]
      rfl

end MemBuff

/-- **A buffer is a byte queue.** Any sequence of calls on it whose allocations succeed comes back, so that every
copy is made inside the allocated bytes, and leaves a buffer whose length is at most its size, the size that of
its block, and `mybuff_getdata` then hands out the bytes written since the last `mybuff_reinit`
without the skipped prefix, and fails when there are none. -/
theorem mybuff_queue {n : Nat} (hn : 0 < n) (calls : BuffCalls) (halloc : AllocSucceeds n calls) :
    ∃ b, MemBuff.init.run n calls = .ok b ∧ b.len ≤ b.size ∧ b.block.length = b.size ∧
      b.getdata.map (fun p => p.1.take p.2) =
        if (ByteQueue.empty.run calls).content = [] then none
        else some (ByteQueue.empty.run calls).content := by
  obtain ⟨b, hok, h, hq⟩ := MemBuff.sound_init.run (q := ByteQueue.empty) calls hn halloc.init rfl halloc.calls
  refine ⟨b, hok, h.le, h.length_block, ?_⟩
  rw [← hq]
  exact h.getdata

/-- Two writes, the second of which makes the block grow, and a skip. -/
def growCalls : BuffCalls :=
  [(.setdata [1, 2, 3] (by decide), fun _ => 0), (.setdata [4, 5, 6] (by decide), fun _ => 0),
    (.skipdata 2, fun _ => 0)]

theorem mybuff_queue_growCalls : ∃ b, MemBuff.init.run 4 growCalls = .ok b ∧
    b.getdata.map (fun p => p.1.take p.2) = some [3, 4, 5, 6] := by
  have halloc : AllocSucceeds 4 growCalls := ⟨by decide, by decide⟩
  obtain ⟨b, hok, -, -, hget⟩ := mybuff_queue (by decide : 0 < 4) growCalls halloc
  exact ⟨b, hok, hget⟩

end VfsOss
