import VfsOss.Sm.HandedOver
import VfsOss.Sm.Proofs.ArraysProofs

/-!
# Proofs: the ledger of a process with its arrays

A record is only made where the path of its file fits, so the rounds of `check_fin_task` meet no other, and the
arrays of a whole run hold as soon as those of its calls of `do_recv` do.
-/

namespace VfsOss

open CLib

variable {cfg : Cfg} {s : Sm} {l : Ledger} {a : SmAct}

/-! ## The paths of the records -/

theorem pathFits_ofBlock (cfg : Cfg) : OfBlock (Tasklist.PathFits cfg) := by
  intro t v ht hhost hfile _ _
  unfold Tasklist.PathFits
  rw [hhost, hfile]
  exact ht

theorem Tasklist.MadeFrom.localdir {t : Tasklist} {l : HeaderLines} (h : t.MadeFrom l) (cfg : Cfg) :
    getLocaldir cfg t.base.hostname t.base.filename = l.localdir cfg := by
  rw [h.hostname, h.filename, snprintf_snprintf (by omega), snprintf_snprintf (by omega)]
  rfl

/-- The invariant: the records of all blocks have paths that fit. -/
def PathsHeld (cfg : Cfg) (s : Sm) : Prop := WellSited s ∧ Records (Tasklist.PathFits cfg) s

theorem PathsHeld.step (h : PathsHeld cfg s) (ha : ArraysHold cfg s a) : PathsHeld cfg (smStep cfg s a) := by
  refine ⟨smStep_sited h.1 a, (h.2.smStep cfg (pathFits_ofBlock cfg) h.1 a fun t hlog => ?_).1⟩
  have hpost : .post t ∈ s.since (smStep cfg s a) := by
    rw [Sm.since, hlog, List.drop_left]
    exact List.mem_singleton_self _
  obtain ⟨fd, chunk, io, l, rfl, hl, hmade⟩ := mem_since_post h.1.1 hpost
  show (getLocaldir cfg t.base.hostname t.base.filename).length ≤ 255
  rw [hmade.localdir]
  exact ha.1 l hl

/-- The record of a round waits in `TASK_FIN` before it. -/
theorem PathsHeld.processed (h : PathsHeld cfg s) {t : Tasklist} (ht : t ∈ processed s a) : t.PathFits cfg := by
  obtain ⟨io, k, u, rest, -, -, -, hq, rfl⟩ := mem_processed.mp ht
  exact h.2.fin u (by rw [hq]; exact List.mem_cons_self)

theorem init_pathsHeld (cfg : Cfg) (n : Nat) : PathsHeld cfg (Sm.init n) := by
  refine ⟨init_sited n, fun t ht => ?_, fun t ⟨b, ht⟩ => ?_, fun ht => ?_⟩
  · exact absurd ht (by simp [Sm.init, initTaskInfo])
  · exact absurd ht (by simp [Sm.init, initTaskInfo])
  · exact absurd ht (by simp [Sm.recv, Sm.init, Conn.unused])

/-- **A run goes on** exactly while the arrays of its calls of `do_recv` hold. -/
theorem reached_guarded (cfg : Cfg) (n : Nat) (as : List SmAct) :
    Guarded (RunOk (smStep cfg) (ArraysHold cfg) (Sm.init n) as) (Ledger.reached cfg n as)
      (run (ledgerStep cfg) (Ledger.init n) as) := by
  have hstep : ∀ l a, Guarded _ (ledgerStepInto cfg l a) (ledgerStep cfg l a) :=
    fun l a => (smStepInto_guarded cfg l.sm a).map (l.enter a)
  have hsm : ∀ l a, (ledgerStep cfg l a).sm = smStep cfg l.sm a := ledgerStep_sm
  -- the history beside the machine has no part in the conditions
  have hmap := RunOk.map_iff (fun s a => ArraysHold cfg s a ∧
    ∀ t ∈ processed s a, t.base.overstatus = .ok → t.PathFits cfg) hsm (Ledger.init n) as
  refine (guarded_run hstep (Ledger.init n) as).congr (Iff.trans ?_ hmap.symm)
  constructor
  · intro h
    exact h.of_invariant (PathsHeld cfg) (fun _ _ hinv ha => hinv.step ha)
      (fun _ _ hinv ha => ⟨ha, fun t ht _ => hinv.processed ht⟩) (init_pathsHeld cfg n)
  · exact fun h => h.mono fun _ _ ha => ha.1

/-! ## The ledger -/

theorem Balanced.sound (h : Balanced l) (cfg : Cfg) : l.Sound cfg := by
  refine ⟨h.books, fun fd hclosed => h.closed hclosed, h.received, svcFiniconn_apart h.sited, ?_, ?_⟩
  · intro fd b io r ho hr
    obtain ⟨-, rfl⟩ := (svcRecvInto_guarded Mybuff.data cfg io fd _).eq_of_ok hr
    have hs : WellSited (svcRecv Mybuff.data cfg io fd
        (l.sm.setConn fd { l.sm.acon fd with recvBuff := b })).2 :=
      svcRecv_sited (setBuff_sited h.sited b) (by rw [setConn_acon]; exact ho) io Mybuff.data
    exact ⟨hs.apart, svcFiniconn_apart hs fd⟩
  · intro a s' hc hs'
    obtain ⟨-, rfl⟩ := (smStepInto_guarded cfg l.sm a).eq_of_ok hs'
    exact h.countsEach hc

/-- **A received record is handed over exactly once**, in a run whose calls of `do_recv` find only headers whose
paths fit the arrays and queries whose replies do, and in no other. -/
theorem handed_over_iff (cfg : Cfg) (n : Nat) (as : List SmAct) :
    HandedOver cfg n as ↔ RunOk (smStep cfg) (ArraysHold cfg) (Sm.init n) as := by
  constructor
  · intro h
    obtain ⟨l, hl, -⟩ := h as List.prefix_rfl
    exact ((reached_guarded cfg n as).eq_of_ok hl).1
  · rintro h as' ⟨rest, rfl⟩
    refine ⟨_, (reached_guarded cfg n as').ok (RunOk.append.mp h).1, Balanced.sound ?_ cfg⟩
    exact run_invariant_all Balanced (fun _ a hl => ledgerStep_balanced hl a) (init_balanced n) as'

/-- A new connection on which a request for a file with a name of 254 bytes arrives. -/
def longUpload : List SmAct := [.accept 3 0 fun _ => 0, .recv 3 (requestFor (List.replicate 254 97)) .ok]

/-- `get_localdir` writes 266 bytes into the 256 of `open_tmp_localfile_4_write`. -/
theorem long_path_overruns : ¬ HandedOver .sample 1 longUpload := by
  intro h
  obtain ⟨l, hl, -⟩ := h longUpload List.prefix_rfl
  have hover : (Ledger.reached .sample 1 longUpload).isOk = false := by decide +kernel
  rw [hl] at hover
  exact absurd hover (by simp [Except.isOk, Except.toBool])

end VfsOss
