import VfsOss.Net.Maintain
import VfsOss.Para.Proofs.CodecProofs

/-!
# What the loop over a value does

`while(--n)` looks at all bytes but the last one. An empty value makes `n` negative at once, and the loop goes on into
whatever follows.
-/

namespace VfsOss

open CLib

/-! ## One value -/

section Values

variable {val rest : Bytes} {p : Nat} {n : Int} {a b : CharArray maxValueLen}

/-- The loop finds the first line end before the last byte. -/
theorem trimLoop_text (hne : val ≠ []) :
    trimLoop val.length p (val ++ rest) = .ok ((val.dropLast.findIdx? isLineEnd).map (· + p)) := by
  induction val generalizing p with
  | nil => exact absurd rfl hne
  | cons c val ih =>
    cases val with
    | nil => rfl
    | cons d val =>
      have hlen : ((c :: d :: val).length : Int) - 1 = (d :: val).length := by
        rw [List.length_cons (a := c)]
        omega
      have hpos : ((d :: val).length : Int) ≠ 0 := by
        rw [List.length_cons]
        omega
      rw [List.cons_append, trimLoop, hlen, if_neg hpos, List.dropLast_cons_cons, List.findIdx?_cons]
      cases hc : isLineEnd c with
      | true => simp
      | false =>
        rw [if_neg Bool.false_ne_true, if_neg Bool.false_ne_true, ih (List.cons_ne_nil d val), Option.map_map]
        refine congrArg Except.ok (congrFun (congrArg Option.map (funext fun i => ?_)) _)
        show i + (p + 1) = i + 1 + p
        omega

/-- Without a line end in the memory nothing stops a counter that is not positive. -/
theorem trimLoop_runs_on (hn : n ≤ 0) (h : ∀ c ∈ rest, isLineEnd c = false) :
    trimLoop n p rest = .error .outOfBounds := by
  induction rest generalizing n p with
  | nil => rw [trimLoop, if_neg (by omega)]
  | cons c rest ih =>
    rw [trimLoop, if_neg (by omega), h c List.mem_cons_self, if_neg Bool.false_ne_true]
    exact ih (by omega) fun d hd => h d (List.mem_cons_of_mem _ hd)

/-- Where a value that is up to the loop is cut off. -/
theorem findIdx?_dropLast (h : Trimmable val) : val.dropLast.findIdx? isLineEnd = val.findIdx? isLineEnd := by
  obtain ⟨hne, hlast⟩ := h
  obtain ⟨init, last, rfl⟩ := (List.eq_nil_or_concat' val).resolve_left hne
  rw [List.dropLast_concat, List.findIdx?_append]
  cases hfind : init.findIdx? isLineEnd with
  | some i => rfl
  | none =>
    have hplain : isLineEnd last = false := by
      by_contra hend
      obtain ⟨c, hc, hcend⟩ := hlast last List.getLast?_concat (by simpa using hend)
      rw [List.dropLast_concat] at hc
      rw [List.findIdx?_eq_none_iff.mp hfind c hc] at hcend
      exact Bool.false_ne_true hcend
    simp [List.findIdx?_cons, hplain]

theorem text_of_eq {n : Nat} {a : CharArray n} {text rest : Bytes} (h0 : (0 : UInt8) ∉ text)
    (ha : a.1 = text ++ 0 :: rest) : a.text = .ok text := by
  unfold CharArray.text
  rw [ha, if_pos (by simp), cstr_append_zero h0]

theorem text_split (ha : a.text = .ok val) : (0 : UInt8) ∉ val ∧ ∃ rest, a.1 = val ++ 0 :: rest := by
  unfold CharArray.text at ha
  split at ha
  · next h0 =>
    obtain rfl := Except.ok.inj ha
    obtain ⟨x, y, hxy, hx⟩ := List.eq_append_cons_of_mem h0
    rw [hxy, cstr_append_zero hx]
    exact ⟨hx, y, rfl⟩
  · exact nomatch ha

theorem trimValue_eq (ha : a.text = .ok val) (hne : val ≠ []) :
    trimValue a = match val.dropLast.findIdx? isLineEnd with
      | none => .ok a
      | some p => a.store p 0 := by
  obtain ⟨-, rest, hmem⟩ := text_split ha
  unfold trimValue
  rw [ha, ok_bind, hmem, trimLoop_text hne, ok_bind]
  cases val.dropLast.findIdx? isLineEnd <;> rfl

theorem trimValue_of_trimmable (ha : a.text = .ok val) (h : Trimmable val) : trimValue a = cutLine a := by
  rw [trimValue_eq ha h.1, findIdx?_dropLast h, cutLine, ha]
  rfl

/-- A value in memory without line ends that is cut off as it should be. -/
theorem trimmable_of_cut {k : Nat} (hval : (0 : UInt8) ∉ val) (ha : a.1 = val ++ 0 :: List.replicate k 1)
    (h : trimValue a = cutLine a) : Trimmable val := by
  have htext := text_of_eq hval ha
  have hcut : cutLine a = match val.findIdx? isLineEnd with
      | none => .ok a
      | some p => a.store p 0 := by
    unfold cutLine
    rw [htext]
    rfl
  have hne : val ≠ [] := by
    rintro rfl
    have hends : ∀ c ∈ (0 : UInt8) :: List.replicate k 1, isLineEnd c = false := by
      intro c hc
      rcases List.mem_cons.mp hc with rfl | hc
      · rfl
      · rw [List.eq_of_mem_replicate hc]
        rfl
    have hloop := trimLoop_runs_on (n := 0) (p := 0) (Int.le_refl 0) hends
    rw [hcut] at h
    unfold trimValue at h
    rw [htext, ok_bind, ha, List.nil_append, List.length_nil, Int.natCast_zero, hloop] at h
    exact nomatch h
  refine ⟨hne, fun last hlast hend => ?_⟩
  by_contra hnone
  have hfirst : val.dropLast.findIdx? isLineEnd = none :=
    List.findIdx?_eq_none_iff.mpr fun c hc => by
      by_contra hcend
      exact hnone ⟨c, hc, by simpa using hcend⟩
  obtain ⟨init, last', rfl⟩ := (List.eq_nil_or_concat' val).resolve_left hne
  obtain rfl : last' = last := Option.some.inj (List.getLast?_concat.symm.trans hlast)
  have hindex : (init ++ [last']).findIdx? isLineEnd = some init.length := by
    rw [List.dropLast_concat] at hfirst
    rw [List.findIdx?_append, hfirst]
    simp [List.findIdx?_cons, hend]
  rw [trimValue_eq htext hne, hfirst, hcut, hindex] at h
  have hset := CharArray.store_eq h.symm
  rw [ha, List.append_assoc, List.singleton_append, List.set_append_right _ _ (Nat.le_refl _), Nat.sub_self,
    List.set_cons_zero] at hset
  have hzero := (List.cons.inj (List.append_cancel_left hset)).1
  exact hval (hzero ▸ List.mem_append_right _ List.mem_cons_self)

end Values

/-! ## A whole command -/

section Commands

variable {σ : Type} {skip : Bytes → Bool} {handle : PairHandler σ} {cmdPairs : List CmdPair} {pairs : List StringPair}
  {s : σ}

theorem HoldCmd.cons {c : CmdPair} (h : HoldCmd (c :: cmdPairs) pairs) : ∃ pair rest, pairs = pair :: rest ∧
    pair.sFirst.text = .ok c.key.1 ∧ pair.sSecond.text = .ok c.val.1 ∧ HoldCmd cmdPairs rest := by
  cases pairs with
  | nil => exact nomatch h
  | cons pair rest =>
    rw [HoldCmd, List.length_cons, List.take_succ_cons, List.forall₂_cons] at h
    exact ⟨pair, rest, rfl, h.1.1, h.1.2, h.2⟩

/-- Two ways to cut values off that agree on the values of a command. -/
theorem eachPair_trimmable (h : HoldCmd cmdPairs pairs)
    (hfit : ∀ c ∈ cmdPairs, skip c.key.1 = false → Trimmable c.val.1) :
    eachPair trimValue skip handle cmdPairs.length pairs s = eachPair cutLine skip handle cmdPairs.length pairs s := by
  induction cmdPairs generalizing pairs s with
  | nil => rfl
  | cons c cmdPairs ih =>
    obtain ⟨pair, rest, rfl, hkey, hval, hrest⟩ := h.cons
    have ih (s : σ) := ih (s := s) hrest fun d hd => hfit d (List.mem_cons_of_mem _ hd)
    rw [List.length_cons, eachPair, eachPair, hkey, ok_bind, ok_bind]
    cases hskip : skip c.key.1 with
    | true => rw [if_pos rfl, if_pos rfl, ih]
    | false =>
      rw [if_neg Bool.false_ne_true, if_neg Bool.false_ne_true,
        trimValue_of_trimmable hval (hfit c List.mem_cons_self hskip)]
      simp only [ih]

/-- Memory that holds a pair, and no line end behind its value. -/
def CmdPair.stored (c : CmdPair) : StringPair where
  sFirst := ⟨c.key.1 ++ 0 :: List.replicate (maxNameLen - 1 - c.key.1.length) 1, by
    have := c.key_fits
    rw [List.length_append, List.length_cons, List.length_replicate]
    omega⟩
  sSecond := ⟨c.val.1 ++ 0 :: List.replicate (maxValueLen - 1 - c.val.1.length) 1, by
    have := c.val_fits
    rw [List.length_append, List.length_cons, List.length_replicate]
    omega⟩

theorem CmdPair.key_stored (c : CmdPair) : c.stored.sFirst.text = .ok c.key.1 := text_of_eq c.key.2 rfl

theorem CmdPair.val_stored (c : CmdPair) : c.stored.sSecond.text = .ok c.val.1 := text_of_eq c.val.2 rfl

theorem holdCmd_stored : HoldCmd cmdPairs (cmdPairs.map CmdPair.stored) := by
  rw [HoldCmd, List.take_of_length_le (Nat.le_of_eq (List.length_map _)), List.forall₂_map_right_iff]
  exact List.forall₂_same.mpr fun c _ => ⟨c.key_stored, c.val_stored⟩

/-- Nothing is done with the pairs. -/
def keepPair : PairHandler Unit := fun pair s => .ok (true, pair, s)

theorem cutLine_ok {a : CharArray maxValueLen} {val : Bytes} (ha : a.text = .ok val) : ∃ b, cutLine a = .ok b := by
  obtain ⟨-, rest, hmem⟩ := text_split ha
  unfold cutLine
  rw [ha, ok_bind]
  cases hfind : val.findIdx? isLineEnd with
  | none => exact ⟨a, rfl⟩
  | some p =>
    have hp : p < val.length := (List.findIdx?_eq_some_iff_findIdx_eq.mp hfind).1
    have hlen := a.2
    rw [hmem, List.length_append] at hlen
    exact CharArray.store_ok_iff.mpr (by omega)

theorem eachPair_keep (trim : Trim) (c : CmdPair) (n : Nat) (pairs : List StringPair) :
    eachPair trim skip keepPair (n + 1) (c.stored :: pairs) () =
      (if skip c.key.1 then .ok c.stored else (fun sSecond => ⟨c.stored.sFirst, sSecond⟩) <$> trim c.stored.sSecond) >>=
        fun pair => (fun r => (pair :: r.1, ())) <$> eachPair trim skip keepPair n pairs () := by
  rw [eachPair, c.key_stored, ok_bind]
  cases skip c.key.1 with
  | true => rfl
  | false =>
    rw [if_neg Bool.false_ne_true, if_neg Bool.false_ne_true]
    cases trim c.stored.sSecond <;> rfl

variable (skip) in
theorem eachPair_cutLine_ok (cmdPairs : List CmdPair) :
    ∃ r, eachPair cutLine skip keepPair cmdPairs.length (cmdPairs.map CmdPair.stored) () = .ok r := by
  induction cmdPairs with
  | nil => exact ⟨_, rfl⟩
  | cons c cmdPairs ih =>
    obtain ⟨r, hr⟩ := ih
    obtain ⟨b, hb⟩ := cutLine_ok c.val_stored
    rw [List.length_cons, List.map_cons, eachPair_keep, hr, hb]
    cases skip c.key.1 <;> exact ⟨_, rfl⟩

/-- Where a function that keeps its pairs leaves them as it should, every value is one the loop is up to. -/
theorem trimmable_of_same (h : eachPair trimValue skip keepPair cmdPairs.length (cmdPairs.map CmdPair.stored) () =
      eachPair cutLine skip keepPair cmdPairs.length (cmdPairs.map CmdPair.stored) ()) :
    ∀ c ∈ cmdPairs, skip c.key.1 = false → Trimmable c.val.1 := by
  induction cmdPairs with
  | nil => exact fun _ hc => absurd hc List.not_mem_nil
  | cons c cmdPairs ih =>
    obtain ⟨r, hr⟩ := eachPair_cutLine_ok skip cmdPairs
    obtain ⟨b, hb⟩ := cutLine_ok c.val_stored
    rw [List.length_cons, List.map_cons, eachPair_keep, eachPair_keep, hr, hb, Except.map_ok] at h
    -- the pairs behind the first one, and the first one
    have hparts : eachPair trimValue skip keepPair cmdPairs.length (cmdPairs.map CmdPair.stored) () = .ok r ∧
        (skip c.key.1 = false → trimValue c.stored.sSecond = .ok b) := by
      cases hskip : skip c.key.1 with
      | true =>
        rw [hskip, if_pos rfl, if_pos rfl, ok_bind, ok_bind, Except.map_ok] at h
        obtain ⟨r', hr', hpairs⟩ := map_ok_iff.mp h
        have hrest := (List.cons.inj (Prod.mk.inj hpairs).1).2
        exact ⟨hr'.trans (congrArg Except.ok (Prod.ext hrest rfl)), fun hf => nomatch hf⟩
      | false =>
        rw [hskip, if_neg Bool.false_ne_true, if_neg Bool.false_ne_true, ok_bind, Except.map_ok] at h
        obtain ⟨pair, hpair, h⟩ := bind_ok_iff.mp h
        obtain ⟨b', hb', rfl⟩ := map_ok_iff.mp hpair
        obtain ⟨r', hr', hpairs⟩ := map_ok_iff.mp h
        obtain ⟨hfirst, hrest⟩ := List.cons.inj (Prod.mk.inj hpairs).1
        exact ⟨hr'.trans (congrArg Except.ok (Prod.ext hrest rfl)),
          fun _ => hb'.trans (congrArg Except.ok (StringPair.mk.inj hfirst).2)⟩
    intro d hd hskip
    rcases List.mem_cons.mp hd with rfl | hd
    · exact trimmable_of_cut d.val.2 rfl ((hparts.2 hskip).trans hb.symm)
    · exact ih (hparts.1.trans hr.symm) d hd hskip

end Commands

/-- The functions cut the values of a command off as they should exactly when the values they look at are not empty
and have no line end as their last byte only. -/
theorem trimsValues_iff (cmd : MaintainCmd) (cmdPairs : List CmdPair) : cmd.TrimsValues cmdPairs ↔
    ∀ c ∈ cmdPairs, cmd.skips c.key.1 = false → Trimmable c.val.1 := by
  constructor
  · intro h
    have h := h Unit keepPair () true (cmdPairs.map CmdPair.stored) holdCmd_stored
    cases cmd <;> exact trimmable_of_same h
  · intro hfit σ handle s cs pairs hpairs
    cases cmd with
    | confupda => exact eachPair_trimmable hpairs hfit
    | syncFile | delFile | syncDir =>
      cases cs with
      | true => exact eachPair_trimmable hpairs hfit
      | false => rfl
    | offOnLine => exact eachPair_trimmable hpairs hfit

/-- A command with a value that is empty. -/
theorem not_trimsValues : ¬ ∀ (cmd : MaintainCmd) (cmdPairs : List CmdPair), cmd.TrimsValues cmdPairs := fun h => by
  have hsame := h .offOnLine [⟨⟨txt "ip", by decide⟩, ⟨[], by decide⟩, by decide, by decide⟩] Unit keepPair () true _
    holdCmd_stored
  exact (trimmable_of_same hsame _ List.mem_cons_self (by decide)).1 rfl

end VfsOss
