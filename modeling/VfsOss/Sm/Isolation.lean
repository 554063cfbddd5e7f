import VfsOss.Sm.Machine

/-!
# Hosts

Blocks are looked for in the hash table by file name, index and count; the host is not part of the
key. This file says what it means that hosts are kept apart, and when the searches find the right
host's blocks.
-/

namespace VfsOss

/-- A search for block `i` of `t`'s file finds no block of another host. -/
def FindsOwn (t : Tasklist) (st : TaskStore) (i : Int) : Prop :=
  ∀ r, findTask st t.base.filename i t.sub.count = some r → r.base.hostname = t.base.hostname

/-- The searches made while `t` is processed find no block of another host: those for the blocks that
are given up with a block that has failed, those for the blocks that have no temporary file, and those
for the other blocks when all of them are there. -/
structure SearchesOwn (cfg : Cfg) (t : Tasklist) (s : Sm) : Prop where
  failed : t.base.overstatus ≠ .ok → ¬ (cfg.retry ≠ 0 ∧ t.base.retry < cfg.retry) →
    ∀ i ∈ idxs t.sub.count, FindsOwn t s.store i
  lack : t.base.overstatus = .ok →
    s.fs.content (checkfile (getLocaldir cfg t.base.hostname t.base.filename)) = none →
    ∀ i ∈ idxs t.sub.count, s.fs.content
      (subfile (getLocaldir cfg t.base.hostname t.base.filename) i t.sub.count) = none →
    FindsOwn t s.store i
  merge : t.base.overstatus = .ok →
    (∀ i ∈ idxs t.sub.count, i ≠ t.sub.idx →
      checkTaskFromAlltask s.store t.base.filename i t.sub.count 0 = true) →
    ∀ i ∈ idxs t.sub.count, i ≠ t.sub.idx → FindsOwn t s.store i

/-- The condition on a step. -/
def StepSearchesOwn (cfg : Cfg) (s : Sm) (a : SmAct) : Prop :=
  ∀ t ∈ processed s a, SearchesOwn cfg t s

instance (t : Tasklist) (st : TaskStore) (i : Int) : Decidable (FindsOwn t st i) :=
  inferInstanceAs (Decidable (∀ r ∈ findTask st t.base.filename i t.sub.count, r.base.hostname = t.base.hostname))

theorem searchesOwn_iff {cfg : Cfg} {t : Tasklist} {s : Sm} : SearchesOwn cfg t s ↔
    (t.base.overstatus ≠ .ok → ¬ (cfg.retry ≠ 0 ∧ t.base.retry < cfg.retry) →
      ∀ i ∈ idxs t.sub.count, FindsOwn t s.store i) ∧
    (t.base.overstatus = .ok →
      s.fs.content (checkfile (getLocaldir cfg t.base.hostname t.base.filename)) = none →
      ∀ i ∈ idxs t.sub.count, s.fs.content
        (subfile (getLocaldir cfg t.base.hostname t.base.filename) i t.sub.count) = none →
      FindsOwn t s.store i) ∧
    (t.base.overstatus = .ok →
      (∀ i ∈ idxs t.sub.count, i ≠ t.sub.idx →
        checkTaskFromAlltask s.store t.base.filename i t.sub.count 0 = true) →
      ∀ i ∈ idxs t.sub.count, i ≠ t.sub.idx → FindsOwn t s.store i) :=
  ⟨fun h => ⟨h.failed, h.lack, h.merge⟩, fun ⟨h1, h2, h3⟩ => ⟨h1, h2, h3⟩⟩

instance (cfg : Cfg) (t : Tasklist) (s : Sm) : Decidable (SearchesOwn cfg t s) :=
  decidable_of_iff' _ searchesOwn_iff

instance (cfg : Cfg) (s : Sm) (a : SmAct) : Decidable (StepSearchesOwn cfg s a) :=
  inferInstanceAs (Decidable (∀ t ∈ processed s a, SearchesOwn cfg t s))

/-- A step that processes a block of one host leaves the other hosts' blocks in the table as they
are: none is marked expired, removed or merged. -/
def StepKeepsOthers (cfg : Cfg) (s : Sm) (a : SmAct) : Prop :=
  ∀ t ∈ processed s a, ∀ r, InAlltask s.store r → r.base.hostname ≠ t.base.hostname →
    InAlltask (smStep cfg s a).store r

/-- The block of the record was uploaded: some accepted upload named its host, its file and its
position in the file. -/
def Uploaded (log : List Event) (t : Tasklist) : Prop :=
  ∃ p, .post p ∈ log ∧ p.base.hostname = t.base.hostname ∧ p.base.filename = t.base.filename ∧
    p.sub = t.sub

/-- Every block that has gone into a merged file of a host was uploaded by that host. -/
def MergedOwn (log : List Event) : Prop :=
  ∀ hostname filename t, .concat hostname filename t ∈ log →
    t.base.hostname = hostname ∧ Uploaded log t

end VfsOss
