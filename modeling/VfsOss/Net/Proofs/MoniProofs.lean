import VfsOss.Net.Moni

/-!
# Proofs: the traffic throttle

Below `min_pass_size` bytes the ratio doubles; from there on it is a function of the load alone, in
five regions from a step up to halving. That function is antitone in the load, the load is monotone
in the bytes, and doubling is at least the step up.
-/

namespace VfsOss

open CLib

variable {r intLimit : Int} {two one : UInt64} {d : Nat}

/-! ## The load as a number -/

theorem toNat_ofInt64 {n : Int} (h0 : 0 ≤ n) (h : n < 2 ^ 64) :
    (UInt64.ofInt n).toNat = n.toNat := by
  obtain ⟨k, rfl⟩ := Int.eq_ofNat_of_zero_le h0
  unfold UInt64.ofInt
  simp
  omega

theorem Sampled.toNat_sub (h : Sampled two one d) : (two - one).toNat = d := by
  have htwo := h.two_eq
  have hle : one ≤ two := by rw [UInt64.le_iff_toNat_le]; omega
  rw [UInt64.toNat_sub_of_le _ _ hle]
  omega

theorem Sampled.toNat_curSpeed (h : Sampled two one d) :
    (curSpeed two one).toNat = 8 * d / intvalSec.toNat := by
  have hsmall := h.small
  unfold curSpeed
  rw [UInt64.toNat_div, UInt64.toNat_mul, h.toNat_sub]
  rw [Nat.mod_eq_of_lt (show (8 : UInt64).toNat * d < 2 ^ 64 by simp only [UInt64.toNat_ofNat]; omega)]
  rfl

/-- No product wraps, so the ratio computed is the load. -/
theorem Sampled.toNat_curPassRatio (h : Sampled two one d) (hpos : 0 < intLimit)
    (hint : intLimit < 2 ^ 31) :
    (curPassRatio two one intLimit).toNat = measuredLoad d intLimit := by
  have hsmall := h.small
  have hmax : (UInt64.ofInt maxPendValue).toNat = maxPendValue.toNat := rfl
  have hspeed : 8 * d / intvalSec.toNat ≤ 8 * d := Nat.div_le_self _ _
  unfold curPassRatio measuredLoad
  rw [UInt64.toNat_div, UInt64.toNat_mul, h.toNat_curSpeed, hmax,
    toNat_ofInt64 (by omega) (by omega)]
  rw [Nat.mod_eq_of_lt]
  change 255 * _ < _
  omega

/-- More bytes, more load. -/
theorem measuredLoad_mono {d' : Nat} (h : d ≤ d') :
    measuredLoad d intLimit ≤ measuredLoad d' intLimit := by
  unfold measuredLoad
  gcongr

/-! ## The ratio as a function of the load -/

/-- What `cal_limit` makes of the ratio from `min_pass_size` bytes on. -/
def ratioFor (r : Int) (load : Nat) : Int :=
  if load ≤ 160 then min (r + 3) 255
  else if load ≤ 240 then r
  else if load ≤ 300 then max (r - 3) 5
  else if load ≤ 400 then max (r - 6) 5
  else max (r / 2) 5

theorem clampUp_eq (n : Int) : (if n > maxPendValue then maxPendValue else n) = min n 255 := by
  unfold maxPendValue
  split <;> omega

theorem clampDown_eq (n : Int) : (if n < 5 then 5 else n) = max n 5 := by
  split <;> omega

/-- `cal_limit` on any two samples. -/
theorem calLimit_eq : calLimit r two one intLimit =
    if (two - one).toNat < 1024 then max (min (r * 2) 255) 5
    else ratioFor r (curPassRatio two one intLimit).toNat := by
  have hlt : two - one < minPassSize ↔ (two - one).toNat < 1024 := UInt64.lt_iff_toNat_lt
  have hdown : curPassRatio two one intLimit ≤ passDownValue ↔
      (curPassRatio two one intLimit).toNat ≤ 160 := UInt64.le_iff_toNat_le
  have hup : curPassRatio two one intLimit ≤ passUpValue ↔
      (curPassRatio two one intLimit).toNat ≤ 240 := UInt64.le_iff_toNat_le
  have hmaxUp : curPassRatio two one intLimit ≤ maxPassUpValue ↔
      (curPassRatio two one intLimit).toNat ≤ 300 := UInt64.le_iff_toNat_le
  have hmaxUp2 : curPassRatio two one intLimit ≤ maxPassUpValue2 ↔
      (curPassRatio two one intLimit).toNat ≤ 400 := UInt64.le_iff_toNat_le
  have hshift : r >>> (1 : Nat) = r / 2 := Int.shiftRight_eq_div_pow r 1
  unfold calLimit ratioFor
  simp only [hlt, hdown, hup, hmaxUp, hmaxUp2, clampUp_eq, clampDown_eq, hshift]
  split_ifs <;> rfl

theorem ratioFor_mem (h5 : 5 ≤ r) (hmax : r ≤ 255) (load : Nat) :
    5 ≤ ratioFor r load ∧ ratioFor r load ≤ 255 := by
  unfold ratioFor
  split_ifs <;> omega

/-- The regions in order: a higher load never gives a larger ratio. -/
theorem ratioFor_antitone (h5 : 5 ≤ r) (hmax : r ≤ 255) {load load' : Nat} (h : load ≤ load') :
    ratioFor r load' ≤ ratioFor r load := by
  unfold ratioFor
  split_ifs <;> omega

/-- Doubling is never less than what any load gives. -/
theorem ratioFor_le_doubled (h5 : 5 ≤ r) (hmax : r ≤ 255) (load : Nat) :
    ratioFor r load ≤ max (min (r * 2) 255) 5 := by
  unfold ratioFor
  split_ifs <;> omega

theorem ratioFor_le_of_high {load : Nat} (h5 : 5 ≤ r) (h : 160 < load) : ratioFor r load ≤ r := by
  unfold ratioFor
  split_ifs <;> omega

theorem le_ratioFor_of_low {load : Nat} (hmax : r ≤ 255) (h : load ≤ 240) :
    r ≤ ratioFor r load := by
  unfold ratioFor
  split_ifs <;> omega

/-! ## The throttle -/

/-- Any two samples, counters that went backwards included, leave the ratio in its range. -/
theorem calLimit_mem (h5 : 5 ≤ r) (hmax : r ≤ maxPendValue) (two one : UInt64) (intLimit : Int) :
    5 ≤ calLimit r two one intLimit ∧ calLimit r two one intLimit ≤ maxPendValue := by
  have hmem := ratioFor_mem h5 hmax (curPassRatio two one intLimit).toNat
  rw [calLimit_eq]
  split
  · change _ ∧ _ ≤ (255 : Int)
    omega
  · exact hmem

/-- `cal_limit` on samples of a counter that grew. -/
theorem Sampled.calLimit_eq (h : Sampled two one d) (hpos : 0 < intLimit)
    (hint : intLimit < 2 ^ 31) : calLimit r two one intLimit =
      if d < 1024 then max (min (r * 2) 255) 5 else ratioFor r (measuredLoad d intLimit) := by
  rw [VfsOss.calLimit_eq, h.toNat_sub, h.toNat_curPassRatio hpos hint]

/-- The traffic throttle: the ratio stays in its range for all samples; for counters that grew, more
bytes never give a larger ratio, a load above `pass_down_value` never raises it and one up to
`pass_up_value` never lowers it. -/
theorem calLimit_throttle (h5 : 5 ≤ r) (hmax : r ≤ maxPendValue) (hpos : 0 < intLimit)
    (hint : intLimit < 2 ^ 31) :
    (∀ two one, 5 ≤ calLimit r two one intLimit ∧ calLimit r two one intLimit ≤ maxPendValue) ∧
    (∀ two one two' one' d d', Sampled two one d → Sampled two' one' d' → d ≤ d' →
      calLimit r two' one' intLimit ≤ calLimit r two one intLimit) ∧
    ∀ two one d, Sampled two one d → minPassSize.toNat ≤ d →
      (passDownValue.toNat < measuredLoad d intLimit → calLimit r two one intLimit ≤ r) ∧
      (measuredLoad d intLimit ≤ passUpValue.toNat → r ≤ calLimit r two one intLimit) := by
  refine ⟨fun two one => calLimit_mem h5 hmax two one intLimit, ?_, ?_⟩
  · intro two one two' one' d d' h h' hle
    have hload : measuredLoad d intLimit ≤ measuredLoad d' intLimit := measuredLoad_mono hle
    rw [h.calLimit_eq hpos hint, h'.calLimit_eq hpos hint]
    by_cases hd' : d' < 1024
    · rw [if_pos hd', if_pos (by omega)]
    · rw [if_neg hd']
      by_cases hd : d < 1024
      · rw [if_pos hd]
        exact ratioFor_le_doubled h5 hmax _
      · rw [if_neg hd]
        exact ratioFor_antitone h5 hmax hload
  · intro two one d h hmin
    have hge : ¬ d < 1024 := Nat.not_lt.mpr hmin
    rw [h.calLimit_eq hpos hint, if_neg hge]
    exact ⟨fun hhigh => ratioFor_le_of_high h5 hhigh, fun hlow => le_ratioFor_of_low hmax hlow⟩

theorem calLimit_throttle_closed :
    calLimit 100 1500000 500000 1000000 ≤ calLimit 100 502000 500000 1000000 ∧
    calLimit 100 1500000 500000 1000000 ≤ 100 ∧ 100 ≤ calLimit 100 502000 500000 1000000 := by
  have many : Sampled 1500000 500000 1000000 := ⟨by decide, by decide⟩
  have few : Sampled 502000 500000 2000 := ⟨by decide, by decide⟩
  have h := @calLimit_throttle 100 1000000 (by decide) (by decide) (by decide)
    (by decide)
  exact ⟨h.2.1 _ _ _ _ _ _ few many (by decide), (h.2.2 _ _ _ many (by decide)).1 (by decide),
    (h.2.2 _ _ _ few (by decide)).2 (by decide)⟩

/-- A megabyte in one interval at a limit of a megabit: the ratio is halved. -/
example : calLimit 100 1500000 500000 1000000 = 50 := by decide

/-! ## Over a run of the monitor -/

/-- Both ratios are in their range. -/
structure Moni.InRange (m : Moni) : Prop where
  recv : 5 ≤ m.recvPassRatio ∧ m.recvPassRatio ≤ maxPendValue
  send : 5 ≤ m.sendPassRatio ∧ m.sendPassRatio ≤ maxPendValue

theorem inRange_maxPendValue : 5 ≤ maxPendValue ∧ maxPendValue ≤ maxPendValue := by decide

theorem inRange_initTc (m : Moni) (faceName : Option Bytes) (recvLimit sendLimit : Int) :
    (initTc m faceName recvLimit sendLimit).InRange := by
  cases faceName with
  | none => exact ⟨inRange_maxPendValue, inRange_maxPendValue⟩
  | some name => exact ⟨inRange_maxPendValue, inRange_maxPendValue⟩

theorem Moni.InRange.getTcRecvSend {m : Moni} (h : m.InRange) (out : Option Bytes) :
    (getTcRecvSend m out).1.InRange := by
  cases out with
  | none => exact ⟨inRange_maxPendValue, inRange_maxPendValue⟩
  | some out =>
    unfold VfsOss.getTcRecvSend
    dsimp only
    split
    · exact ⟨inRange_maxPendValue, inRange_maxPendValue⟩
    · exact h

theorem Moni.InRange.checkTc {m : Moni} (h : m.InRange) (out₁ out₂ : Option Bytes) :
    (checkTc m out₁ out₂).InRange := by
  have h₁ := h.getTcRecvSend out₁
  unfold VfsOss.checkTc
  split
  · exact h
  split
  · next m₁ heq => rwa [heq] at h₁
  next m₁ recvBytes sendBytes heq =>
  rw [heq] at h₁
  have h₂ := Moni.InRange.getTcRecvSend h₁ out₂
  split
  · next m₂ heq₂ => rwa [heq₂] at h₂
  next m₂ recvBytes₂ sendBytes₂ heq₂ =>
  rw [heq₂] at h₂
  have hrecv := calLimit_mem h₂.recv.1 h₂.recv.2 recvBytes₂ recvBytes m₂.recvLimit
  have hsend := calLimit_mem h₂.send.1 h₂.send.2 sendBytes₂ sendBytes m₂.sendLimit
  dsimp only
  by_cases hs : m₂.sendLimit > 0
  · rw [if_pos hs]
    split
    · exact ⟨hrecv, hsend⟩
    · exact ⟨h₂.recv, hsend⟩
  · rw [if_neg hs]
    split
    · exact ⟨hrecv, h₂.send⟩
    · exact h₂

/-- The ratios are in their range after any number of rounds, whatever the pipe delivers. -/
theorem inRange_checkTc_run (m : Moni) (faceName : Option Bytes) (recvLimit sendLimit : Int)
    (outs : List (Option Bytes × Option Bytes)) :
    (outs.foldl (fun m out => checkTc m out.1 out.2)
      (initTc m faceName recvLimit sendLimit)).InRange := by
  have hinit := inRange_initTc m faceName recvLimit sendLimit
  generalize initTc m faceName recvLimit sendLimit = m₀ at hinit
  induction outs generalizing m₀ with
  | nil => exact hinit
  | cons out outs ih => exact ih _ (hinit.checkTc out.1 out.2)

end VfsOss
