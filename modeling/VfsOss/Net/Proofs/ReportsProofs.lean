import VfsOss.Net.Reports
import VfsOss.Net.Proofs.MybuffProofs
import VfsOss.Task.Proofs.FifoRunProofs

/-!
# What becomes of the task reports

A round takes the lines of all records in `TASK_CLEAN`, but it drops first what the rounds before could not write, and
a write that failed counts as one that took everything.
-/

namespace VfsOss

open CLib TaskMem

/-! ## The lines of a scan -/

section Scan

variable {m m' : TaskMem} {q : TaskStatus → List Nat} {st : TaskStatus} {a b : Nat}

/-- The lines that are reported for some records. -/
def linesOf (m : TaskMem) (l : List Nat) : Bytes := l.flatMap fun a => dataLine (m.tasks a).base

theorem databuff_vfsSetTask (m : TaskMem) (a : Nat) (st : TaskStatus) : (m.vfsSetTask a st).databuff = m.databuff := by
  unfold TaskMem.vfsSetTask
  split <;> rfl

/-- A record is reported behind the others. -/
theorem databuff_getDataFromTask (initBuffSize : Nat) (mem : Nat → UInt8) (a : Nat) (m : TaskMem) :
    (getDataFromTask initBuffSize mem a m).databuff.live = m.databuff.live ++ dataLine (m.tasks a).base := by
  unfold getDataFromTask
  dsimp only
  rw [databuff_vfsSetTask]
  exact live_mybuffSetdata m.databuff _

theorem tasks_getDataFromTask (initBuffSize : Nat) (mem : Nat → UInt8) (m : TaskMem) (h : b ≠ a) :
    (getDataFromTask initBuffSize mem a m).tasks b = m.tasks b := by
  unfold getDataFromTask TaskMem.vfsSetTask
  rw [if_neg (by simp)]
  show Function.update (Function.update m.tasks a _) a _ b = _
  rw [Function.update_of_ne h, Function.update_of_ne h]

variable (st) in
/-- The scan of the agent reports every record of the queue, in its order. -/
theorem scan_reports (h : Filed m q) (hst : st ≠ .unknown) (hhome : st ≠ .home) (initBuffSize : Nat)
    (mem : Nat → UInt8) :
    ∃ m', m.scanSomeStatusTask st (getDataFromTask initBuffSize mem) = some m' ∧
      m'.databuff.live = m.databuff.live ++ linesOf m (q st) := by
  have hlen : (nodes (q st)).length < m.records.length + 1 := by
    rw [nodes, List.length_map]
    have hsub := (h.nodup hst).subperm fun a ha => h.isRecord hst ha
    exact Nat.lt_succ_of_le hsub.length_le
  have hstart : m.links.next (.head st) = (nodes (q st)).head?.getD (.head st) := (h.ring hst).next_head
  rw [scanSomeStatusTask, if_neg hst, hstart]
  have hloop : ∀ body : Node → TaskMem → Option TaskMem,
      (∀ a m, body (.llist a) m = some (getDataFromTask initBuffSize mem a m)) →
      ∃ m', forEachSafe TaskMem.links (.head st) body (m.records.length + 1)
        ((nodes (q st)).head?.getD (.head st)) (m.links.next ((nodes (q st)).head?.getD (.head st))) m = some m' ∧
        m'.databuff.live = m.databuff.live ++ linesOf m (q st) := by
    intro body hbody
    obtain ⟨m', hm', -, done, hdone, hlive, -⟩ :=
      forEachSafe_spec TaskMem.links (.head st) body
        (fun rest m' => Scanning m q st rest m' ∧ ∃ done, nodes (q st) = nodes done ++ rest ∧
          m'.databuff.live = m.databuff.live ++ linesOf m done ∧ ∀ b, .llist b ∈ rest → m'.tasks b = m.tasks b)
        (fun hinv => Scanning.ring hst hinv.1)
        (fun {x rest m'} hinv => by
          obtain ⟨hscan, done, hdone, hlive, htasks⟩ := hinv
          obtain ⟨a, rfl, hnext⟩ :=
            Scanning.round hst hhome (getDataFromTask_recycles hst hhome initBuffSize mem) hscan
          refine ⟨_, hbody a m', hnext, done ++ [a], ?_, ?_, fun b hb => ?_⟩
          · rw [hdone, nodes, nodes, List.map_append, List.append_assoc]
            rfl
          · rw [databuff_getDataFromTask, hlive, htasks a List.mem_cons_self, linesOf, linesOf, List.flatMap_append,
              List.flatMap_singleton, List.append_assoc]
          · have hne : b ≠ a := by
              rintro rfl
              have hnodup := (List.nodup_cons.mp (h.ring hst).nodup).2
              rw [hdone] at hnodup
              exact (List.nodup_cons.mp (List.nodup_append.mp hnodup).2.1).1 hb
            rw [tasks_getDataFromTask _ _ _ hne, htasks b (List.mem_cons_of_mem _ hb)])
        _ _ m hlen ⟨Scanning.start h, [], rfl, (List.append_nil _).symm, fun _ _ => rfl⟩
    refine ⟨m', hm', ?_⟩
    rw [List.append_nil] at hdone
    have hq : q st = done := (List.map_injective_iff.mpr fun _ _ h => Node.llist.inj h) hdone
    rw [hlive, hq]
  exact hloop _ fun _ _ => rfl

theorem dataLine_ne_nil (base : TaskBase) : dataLine base ≠ [] := by
  intro h
  rw [dataLine, snprintf, List.take_eq_nil_iff] at h
  rcases h with h | h
  · exact absurd h (by decide)
  · exact absurd (List.append_eq_nil_iff.mp h).2 (by decide)

theorem linesOf_eq_nil {l : List Nat} : linesOf m l = [] ↔ l = [] := by
  constructor
  · intro h
    cases l with
    | nil => rfl
    | cons a l =>
      rw [linesOf, List.flatMap_cons] at h
      exact absurd (List.append_eq_nil_iff.mp h).1 (dataLine_ne_nil _)
  · rintro rfl
    rfl

end Scan

/-! ## Calls of other threads -/

section Calls

variable {env : TaskEnv} {c : TaskCalls} {q : TaskStatus → List Nat}

theorem databuff_checkTaskTimeout (taskTimeout cur : Int) (a : Nat) (m : TaskMem) :
    (m.checkTaskTimeout taskTimeout cur a).databuff = m.databuff := by
  unfold checkTaskTimeout
  split
  · exact databuff_vfsSetTask ..
  · rfl

theorem databuff_vfsGetTask {mallocOk : Nat → Bool} {m : TaskMem} {st : TaskStatus} {r : GotTask × TaskMem}
    (h : m.vfsGetTask mallocOk st = some r) : r.2.databuff = m.databuff := by
  unfold TaskMem.vfsGetTask at h
  split at h
  · exact Option.some.inj h ▸ rfl
  split at h
  · split at h
    · split at h <;> exact Option.some.inj h ▸ rfl
    · exact Option.some.inj h ▸ rfl
  · split at h
    · exact Option.some.inj h ▸ rfl
    · exact nomatch h

/-- A scan whose callback does not write to `databuff`. -/
theorem databuff_scan {m m' : TaskMem} {st : TaskStatus} {cb : Nat → TaskMem → TaskMem}
    (hcb : ∀ a m, (cb a m).databuff = m.databuff) (h : m.scanSomeStatusTask st cb = some m') :
    m'.databuff = m.databuff := by
  unfold scanSomeStatusTask at h
  split at h
  · exact Option.some.inj h ▸ rfl
  · refine forEachSafe_keeps (fun s => s.databuff = m.databuff) (fun {node s s'} hround hs => ?_) h rfl
    cases node with
    | llist a => exact Option.some.inj hround ▸ (hcb a s).trans hs
    | head _ => cases hround
    | hlist _ => cases hround
    | userlist _ => cases hround

/-- Only the agent writes to `databuff`. -/
theorem databuff_call {op : TaskOp} (h : ∀ st, op ≠ .scanData st) :
    (taskStep env c op).mem.databuff = c.mem.databuff := by
  unfold taskStep
  cases hexec : op.exec env c with
  | none => rfl
  | some r =>
    show r.1.databuff = c.mem.databuff
    cases op with
    | get st =>
      obtain ⟨⟨got, m⟩, hget, hr⟩ := Option.map_eq_some_iff.mp hexec
      have hmem : r.1 = m := by
        rw [← hr]
        cases got <;> rfl
      rw [hmem]
      exact databuff_vfsGetTask hget
    | set a base sub st =>
      obtain rfl := Option.some.inj hexec
      exact databuff_vfsSetTask _ a st
    | scanTimeout st cur =>
      obtain ⟨m, hscan, rfl⟩ := Option.map_eq_some_iff.mp hexec
      exact databuff_scan (fun a m => databuff_checkTaskTimeout ..) hscan
    | scanData st => exact absurd rfl (h st)

/-- The store does not depend on `databuff`. -/
theorem FifoRun.setDatabuff (h : FifoRun c q) (d : Mybuff) :
    FifoRun { c with mem := { c.mem with databuff := d } } q where
  filed := h.filed.congr rfl (fun _ => rfl) rfl rfl (Nat.le_refl _)
  held := h.held
  isRecord := h.isRecord
  past := h.past
  order := h.order

end Calls

/-! ## A round -/

section Round

variable {env : TaskEnv} {a : Agent} {q : TaskStatus → List Nat} {r : RoundIn} {tmpdir : Bytes}

/-- What holds between the steps. -/
structure AgentRun (a : Agent) (q : TaskStatus → List Nat) : Prop where
  fifo : FifoRun a.calls q
  databuff : a.calls.mem.databuff.live = []

/-- The lines of a round: those of the records in `TASK_CLEAN`. -/
def roundLines (a : Agent) (q : TaskStatus → List Nat) : Bytes := linesOf a.calls.mem (q .clean)

/-- No line means no record. -/
theorem AgentRun.lines_iff (h : AgentRun a q) : roundLines a q = [] ↔ a.calls.mem.getTaskCount .clean = 0 := by
  have hcount : a.calls.mem.getTaskCount .clean = (q .clean).length := by
    unfold TaskMem.getTaskCount
    rw [if_neg (by simp), h.fifo.filed.count (by simp) (by simp)]
  rw [roundLines, linesOf_eq_nil, hcount, Int.natCast_eq_zero, List.length_eq_zero_iff]

/-- The lines go through `databuff` into `send_buff`. -/
theorem AgentRun.doScan (h : AgentRun a q) (env : TaskEnv) :
    (∃ q', AgentRun (doScan env a).1 q') ∧ (doScan env a).1.produced = a.produced ++ roundLines a q ∧
      (doScan env a).1.dumped = a.dumped ∧ (doScan env a).1.sendBuff.live = a.sendBuff.live ++ roundLines a q ∧
      ((doScan env a).2 = true ↔ roundLines a q ≠ []) := by
  obtain ⟨m', hscan, hlive⟩ := scan_reports .clean h.fifo.filed (by simp) (by simp) env.initBuffSize env.mem
  have hallowed : Allowed a.calls (.scanData .clean) := by simp [Allowed]
  obtain ⟨q', hfifo⟩ : ∃ q', FifoRun (taskStep env a.calls (.scanData .clean)) q' := (h.fifo.step hallowed).2
  have hmem : (taskStep env a.calls (.scanData .clean)).mem = m' := by
    unfold taskStep TaskOp.exec
    dsimp only
    rw [hscan]
    rfl
  have hlines : (taskStep env a.calls (.scanData .clean)).mem.databuff.live = roundLines a q := by
    rw [hmem, hlive, h.databuff]
    rfl
  have hproduced : (taskStep env a.calls (.scanData .clean)).mem.databuff.live.drop a.calls.mem.databuff.live.length =
      roundLines a q := by
    rw [hlines, h.databuff]
    rfl
  unfold VfsOss.doScan
  dsimp only
  rw [hproduced]
  by_cases hnone : roundLines a q = []
  · rw [(mybuffGetdata_eq_none _).mpr (hlines.trans hnone)]
    exact ⟨⟨q', hfifo, hlines.trans hnone⟩, rfl, rfl, by rw [hnone]; exact (List.append_nil _).symm, by simp [hnone]⟩
  · rw [mybuffGetdata_of_live _ (hlines ▸ hnone)]
    refine ⟨⟨q', hfifo.setDatabuff _, ?_⟩, rfl, rfl, ?_, by simp [hnone]⟩
    · show (mybuffSkipdata _ _).live = []
      rw [live_mybuffSkipdata, List.drop_eq_nil_of_le (Nat.le_of_eq (Mybuff.length_live _))]
    · show (mybuffSetdata _ _ _ _).live = _
      rw [live_mybuffSetdata, ← hlines]
      rfl

theorem dumpToFile_idle (h : r.opens = false ∨ a.sendBuff.live = []) : dumpToFile r tmpdir a = a := by
  unfold dumpToFile
  rcases h with h | h
  · rw [h]
    rfl
  · rw [(mybuffGetdata_eq_none _).mpr h]
    exact ite_self _

variable (tmpdir) in
/-- What one call of `write` makes of the buffer. -/
theorem dumpToFile_writes (hopens : r.opens = true) (hlive : a.sendBuff.live ≠ []) :
    (dumpToFile r tmpdir a).written = a.written ++ a.sendBuff.live.take (r.wrote.getD 0) ∧
      (dumpToFile r tmpdir a).sendBuff.live = a.sendBuff.live.drop (writeResult r.wrote a.sendBuff.live.length) := by
  unfold dumpToFile
  rw [hopens, mybuffGetdata_of_live _ hlive, Mybuff.length_live]
  refine ⟨?_, ?_⟩
  · show ((a.dumped ++ [(dumpName tmpdir r.day, _)]).map Prod.snd).flatten = _
    rw [List.map_append, List.flatten_append]
    exact congrArg (a.written ++ ·) (List.append_nil _)
  · show Mybuff.live (if writeResult r.wrote a.sendBuff.len > 0 then _ else _) = _
    split
    · exact live_mybuffSkipdata _ _
    · next h =>
      rw [show writeResult r.wrote a.sendBuff.len = 0 by omega]
      rfl

/-- What is written and what is left are what was there, unless a write fails with something to write. -/
theorem dumpToFile_keeps (hok : r.opens = true → r.wrote ≠ none) :
    (dumpToFile r tmpdir a).written ++ (dumpToFile r tmpdir a).sendBuff.live = a.written ++ a.sendBuff.live := by
  by_cases hidle : r.opens = false ∨ a.sendBuff.live = []
  · rw [dumpToFile_idle hidle]
  · obtain ⟨hopens, hlive⟩ := not_or.mp hidle
    have hopens : r.opens = true := by simpa using hopens
    obtain ⟨n, hn⟩ := Option.ne_none_iff_exists'.mp (hok hopens)
    obtain ⟨hwritten, hrest⟩ := dumpToFile_writes tmpdir hopens hlive
    rw [hwritten, hrest, hn, List.append_assoc]
    congr 1
    show a.sendBuff.live.take n ++ a.sendBuff.live.drop (min n _) = _
    rw [List.take_eq_take_min, List.take_append_drop]

variable (tmpdir) in
/-- A write that fails drops what it did not write. -/
theorem dumpToFile_fails (hopens : r.opens = true) (hwrote : r.wrote = none) (hlive : a.sendBuff.live ≠ []) :
    ((dumpToFile r tmpdir a).written ++ (dumpToFile r tmpdir a).sendBuff.live).length <
      (a.written ++ a.sendBuff.live).length := by
  obtain ⟨hwritten, hrest⟩ := dumpToFile_writes tmpdir hopens hlive
  have hpos : 0 < a.sendBuff.live.length := List.length_pos_iff.mpr hlive
  rw [hwritten, hrest, hwrote, List.length_append, List.length_append, List.length_append, List.length_drop]
  show _ + ([] : Bytes).length + (_ - (2 ^ 64 - 1)) < _
  rw [List.length_nil]
  omega

variable (a r tmpdir) in
theorem dumpToFile_rest : (dumpToFile r tmpdir a).calls = a.calls ∧ (dumpToFile r tmpdir a).produced = a.produced := by
  unfold dumpToFile
  split
  · exact ⟨rfl, rfl⟩
  · split <;> exact ⟨rfl, rfl⟩

theorem accounted_iff (h : a.calls.mem.databuff.live = []) :
    a.Accounted ↔ a.produced = a.written ++ a.sendBuff.live := by
  rw [Agent.Accounted, h, List.append_nil]

/-- **One round.** The lines are accounted for exactly when none were left from before and no write fails that has
something to write. -/
theorem AgentRun.doRun (h : AgentRun a q) (hacc : a.Accounted) (env : TaskEnv) (r : RoundIn) :
    (∃ q', AgentRun (doRun env r a) q') ∧ ((doRun env r a).Accounted ↔ LosesNothing a (.round r)) := by
  rw [accounted_iff h.databuff] at hacc
  have hbase : AgentRun { a with
      sendBuff := mybuffReinit env.initBuffSize env.mem a.sendBuff
      recvBuff := mybuffReinit env.initBuffSize env.mem a.recvBuff } q := ⟨h.fifo, h.databuff⟩
  obtain ⟨⟨q', hrun⟩, hproduced, hdumped, hlive, hout⟩ := hbase.doScan env
  rw [live_mybuffReinit, List.nil_append] at hlive
  unfold VfsOss.doRun
  dsimp only
  generalize VfsOss.doScan env _ = scanned at *
  obtain ⟨a', outdata⟩ := scanned
  replace hproduced : a'.produced = a.produced ++ roundLines a q := hproduced
  replace hlive : a'.sendBuff.live = roundLines a q := hlive
  replace hout : outdata = true ↔ roundLines a q ≠ [] := hout
  have hwritten : a'.written = a.written := congrArg (fun l => (l.map Prod.snd).flatten) hdumped
  have hleft : a.produced = a.written ↔ a.sendBuff.live = [] := by
    rw [hacc, List.append_right_eq_self]
  have hcount := h.lines_iff
  dsimp only
  cases outdata with
  | false =>
    have hnone : roundLines a q = [] := by simpa using hout
    rw [hnone, List.append_nil] at hproduced
    rw [if_neg Bool.false_ne_true, accounted_iff hrun.databuff, hproduced, hwritten, hlive, hnone, List.append_nil,
      hleft]
    exact ⟨⟨q', hrun⟩, fun hs => ⟨hs, fun _ _ => hcount.mp hnone⟩, fun hs => hs.1⟩
  | true =>
    have hsome : roundLines a q ≠ [] := hout.mp rfl
    obtain ⟨hcalls, hsame⟩ := dumpToFile_rest a' r (r.tmpdir.getD (txt "../path/tmpdir"))
    have hrun' : AgentRun (dumpToFile r (r.tmpdir.getD (txt "../path/tmpdir")) a') q' :=
      ⟨hcalls ▸ hrun.fifo, hcalls ▸ hrun.databuff⟩
    rw [if_pos rfl, accounted_iff hrun'.databuff, hsame, hproduced]
    refine ⟨⟨q', hrun'⟩, ?_⟩
    by_cases hfails : r.opens = true ∧ r.wrote = none
    · have hless := dumpToFile_fails (r.tmpdir.getD (txt "../path/tmpdir")) hfails.1 hfails.2 (hlive ▸ hsome)
      refine iff_of_false (fun heq => ?_) fun hs => hsome (hcount.mpr (hs.2 hfails.1 hfails.2))
      rw [← heq, hwritten, hlive, hacc, List.length_append, List.length_append, List.length_append] at hless
      omega
    · rw [dumpToFile_keeps fun hopens hwrote => hfails ⟨hopens, hwrote⟩, hwritten, hlive, List.append_cancel_right_eq,
        hleft]
      exact ⟨fun hs => ⟨hs, fun hopens hwrote => absurd ⟨hopens, hwrote⟩ hfails⟩, fun hs => hs.1⟩

theorem AgentRun.step {op : AgentOp} (h : AgentRun a q) (hacc : a.Accounted) (hop : AgentAllowed a op)
    (env : TaskEnv) :
    (∃ q', AgentRun (agentStep env a op) q') ∧ ((agentStep env a op).Accounted ↔ LosesNothing a op) := by
  cases op with
  | round r => exact h.doRun hacc env r
  | call op =>
    have hother : ∀ st, op ≠ .scanData st := by
      rintro st rfl
      exact hop
    have hallowed : Allowed a.calls op := by
      cases op with
      | scanData st => exact absurd rfl (hother st)
      | get | set | scanTimeout => exact hop
    have hsame : (taskStep env a.calls op).mem.databuff = a.calls.mem.databuff := databuff_call hother
    obtain ⟨q', hfifo⟩ : ∃ q', FifoRun (taskStep env a.calls op) q' := (h.fifo.step hallowed).2
    have hdata : (agentStep env a (.call op)).calls.mem.databuff.live = [] :=
      (congrArg Mybuff.live hsame).trans h.databuff
    refine ⟨⟨q', hfifo, hdata⟩, iff_of_true ?_ trivial⟩
    rw [accounted_iff hdata]
    exact (accounted_iff h.databuff).mp hacc

/-- **Runs.** From a state in which everything is accounted for, everything stays so exactly when no step loses
anything. -/
theorem AgentRun.keepsReports (h : AgentRun a q) (hacc : a.Accounted) (env : TaskEnv) {ops : List AgentOp}
    (hops : RunOk (agentStep env) AgentAllowed a ops) :
    KeepsReports env a ops ↔ RunOk (agentStep env) LosesNothing a ops := by
  induction ops generalizing a q with
  | nil =>
    refine iff_of_true (fun done hdone => ?_) trivial
    rw [List.prefix_nil.mp hdone]
    exact hacc
  | cons op ops ih =>
    obtain ⟨⟨q', hrun⟩, hiff⟩ := h.step hacc hops.1 env
    have hsplit : KeepsReports env a (op :: ops) ↔
        (agentStep env a op).Accounted ∧ KeepsReports env (agentStep env a op) ops := by
      constructor
      · intro hkeeps
        have hrest : KeepsReports env (agentStep env a op) ops := fun done hdone =>
          hkeeps (op :: done) (List.cons_prefix_cons.mpr ⟨rfl, hdone⟩)
        exact ⟨hrest [] List.nil_prefix, hrest⟩
      · rintro ⟨-, hrest⟩ done hdone
        cases done with
        | nil => exact hacc
        | cons op' done =>
          obtain ⟨rfl, hrestDone⟩ := List.cons_prefix_cons.mp hdone
          exact hrest done hrestDone
    rw [hsplit]
    constructor
    · rintro ⟨hstep, hrest⟩
      exact ⟨hiff.mp hstep, (ih hrun hstep hops.2).mp hrest⟩
    · rintro ⟨hstep, hrest⟩
      exact ⟨hiff.mpr hstep, (ih hrun (hiff.mpr hstep) hops.2).mpr hrest⟩

end Round

theorem databuff_init (links : ListHeads Node) (n : Nat) : (TaskCalls.init links n).mem.databuff = mybuffInit := by
  have hfold (l : List Nat) (m : TaskMem) : (l.foldl linkHome m).databuff = m.databuff := by
    induction l generalizing m with
    | nil => rfl
    | cons a l ih => exact ih (m.linkHome a)
  exact hfold _ _

theorem AgentRun.init (links : ListHeads Node) (n : Nat) : AgentRun (Agent.init links n) (startQueues n) :=
  ⟨FifoRun.init links n, congrArg Mybuff.live (databuff_init links n)⟩

theorem accounted_init (links : ListHeads Node) (n : Nat) : (Agent.init links n).Accounted :=
  (accounted_iff (AgentRun.init links n).databuff).mpr rfl

/-- The reports survive exactly the runs in which no round finds bytes that an earlier round could not write, and no
write fails when there is a record to report. -/
theorem reports_kept_iff (env : TaskEnv) (links : ListHeads Node) (n : Nat) (ops : List AgentOp)
    (h : RunOk (agentStep env) AgentAllowed (Agent.init links n) ops) :
    KeepsReports env (Agent.init links n) ops ↔ RunOk (agentStep env) LosesNothing (Agent.init links n) ops :=
  (AgentRun.init links n).keepsReports (accounted_init links n) env h

/-- A record that was clean is reported, and the file cannot be opened; then a round that finds nothing new. -/
def unopened : List AgentOp :=
  [.call (.get .home), .call (.set 1 .zero .zero .clean), .round ⟨none, txt "20240101", false, none⟩,
    .round ⟨none, txt "20240101", true, some 100⟩]

theorem reports_kept_iff_unopened : KeepsReports fullEnv (Agent.init ⟨id, id⟩ 2) (unopened.take 3) :=
  (reports_kept_iff fullEnv ⟨id, id⟩ 2 (unopened.take 3) (by decide)).mpr
    ⟨trivial, trivial, ⟨by decide, fun h => nomatch h⟩, trivial⟩

/-- The line is dropped. -/
theorem reports_not_kept : ¬ ∀ (env : TaskEnv) (links : ListHeads Node) (n : Nat) (ops : List AgentOp),
    RunOk (agentStep env) AgentAllowed (Agent.init links n) ops →
      KeepsReports env (Agent.init links n) ops := fun h => by
  have hops : RunOk (agentStep fullEnv) AgentAllowed (Agent.init ⟨id, id⟩ 2) unopened := by decide
  have hkeeps := ((AgentRun.init ⟨id, id⟩ 2).keepsReports (accounted_init ⟨id, id⟩ 2) fullEnv hops).mp
    (h fullEnv ⟨id, id⟩ 2 unopened hops)
  obtain ⟨-, -, -, ⟨hleft, -⟩, -⟩ := hkeeps
  exact absurd hleft (by decide)

end VfsOss
