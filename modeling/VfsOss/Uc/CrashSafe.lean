import VfsOss.Uc.DirSync
import VfsOss.Uc.Blocks

/-!
# Killing the process while it synchronises a directory

The process is killed after some number of changes to the `.sync_time` files and the queue; what was
queued is lost with it, the `.sync_time` files stay. A restart has to queue every file that was due and
had not been queued.
-/

namespace VfsOss

open CLib

/-- Names that start with a dot are skipped. -/
def Hidden (name : Bytes) : Prop := name.head? = some 46

instance (name : Bytes) : Decidable (Hidden name) := inferInstanceAs (Decidable (_ = _))

/-- A directory, entered from `indir`, has a file with this name; hidden directories are not entered. -/
def FileAt (indir : Bytes) : Listing → Bytes → Bytes → Stat → Prop
  | .done, _, _, _ => False
  | .file n st rest, dir, name, st' =>
    (dir = indir ∧ name = n ∧ st' = st) ∨ FileAt indir rest dir name st'
  | .dir n sub rest, dir, name, st' =>
    (¬ Hidden n ∧ FileAt (entryPath indir n) sub dir name st') ∨ FileAt indir rest dir name st'

/-- A file has to be queued: it is not hidden or empty and has changed since the time `last`. -/
def Due (last : Int) (name : Bytes) (st : Stat) : Prop := ¬ Hidden name ∧ st.size ≠ 0 ∧ last ≤ st.ctime

instance (last : Int) (name : Bytes) (st : Stat) : Decidable (Due last name st) :=
  inferInstanceAs (Decidable (_ ∧ _ ∧ _))

/-- Every block of the file waits to be sent. -/
def Queued (cfg : UcCfg) (s : Uc) (file : Bytes) (st : Stat) : Prop :=
  ∀ p ∈ pieces cfg file taskAddfile st.size, p ∈ s.queued

instance (cfg : UcCfg) (s : Uc) (file : Bytes) (st : Stat) : Decidable (Queued cfg s file st) :=
  inferInstanceAs (Decidable (∀ p ∈ pieces cfg file taskAddfile st.size, p ∈ s.queued))

/-- The names in a directory. -/
def Listing.names : Listing → List Bytes
  | .done => []
  | .file n _ rest => n :: rest.names
  | .dir n _ rest => n :: rest.names

/-- A name in a directory: not empty and without a slash. -/
def EntryName (name : Bytes) : Prop := name ≠ [] ∧ (47 : UInt8) ∉ name

instance (name : Bytes) : Decidable (EntryName name) := inferInstanceAs (Decidable (_ ∧ _))

/-- What is in a directory fits the program's buffers and counters: the paths of the files and of the
`.sync_time` files are at most 255 bytes long, and an `int` counts the blocks of a file. The names in one
directory differ. -/
def Fits (cfg : UcCfg) (indir : Bytes) : Listing → Prop
  | .done => True
  | .file n st rest => EntryName n ∧ n ∉ rest.names ∧
      (¬ Hidden n → indir.length + 1 + n.length ≤ 255 ∧ blockCount cfg st.size < 2 ^ 31 - 1) ∧
      Fits cfg indir rest
  | .dir n sub rest => EntryName n ∧ n ∉ rest.names ∧
      (¬ Hidden n → indir.length + 1 + n.length ≤ 244 ∧ Fits cfg (entryPath indir n) sub) ∧
      Fits cfg indir rest

instance Fits.decidable (cfg : UcCfg) : ∀ (indir : Bytes) (l : Listing), Decidable (Fits cfg indir l)
  | _, .done => .isTrue trivial
  | indir, .file _ _ rest =>
    have : Decidable (Fits cfg indir rest) := Fits.decidable cfg indir rest
    inferInstanceAs (Decidable (_ ∧ _ ∧ (_ → _) ∧ _))
  | indir, .dir n sub rest =>
    have : Decidable (Fits cfg (entryPath indir n) sub) := Fits.decidable cfg (entryPath indir n) sub
    have : Decidable (Fits cfg indir rest) := Fits.decidable cfg indir rest
    inferInstanceAs (Decidable (_ ∧ _ ∧ (_ → _) ∧ _))

/-- The directory that is synchronised, with what is in it, fits. -/
def RootFits (cfg : UcCfg) (indir : Bytes) (l : Listing) : Prop :=
  indir ≠ [] ∧ indir.length ≤ 244 ∧ Fits cfg indir l

/-- The same files in the same directories, in whatever order. -/
def SameFiles (indir : Bytes) (l l' : Listing) : Prop :=
  ∀ dir name st, FileAt indir l dir name st ↔ FileAt indir l' dir name st

/-- **Crash safety.** For every point at which the process is killed and every order in which a restart
finds the files, each file that was due and not queued is queued by the restart. -/
def CrashSafe (cfg : UcCfg) (indir : Bytes) (l : Listing) (sync : List Bytes → Option Bytes) : Prop :=
  ∀ (k n n' : Nat) (time time' : Bytes → Int → Int) (l' : Listing), Fits cfg indir l' →
    SameFiles indir l l' →
    let killed := doSyncDir cfg time indir l (Uc.init n sync (some k))
    let restarted := doSyncDir cfg time' indir l' (Uc.init n' killed.sync none)
    ∀ dir name st, FileAt indir l dir name st → Due (getSyncTime sync dir) name st →
      ¬ Queued cfg killed (entryPath dir name) st → Queued cfg restarted (entryPath dir name) st

/-- What `get_sync_time` reads back of a time that `update_sync_time` has written: 15 bytes of its
text. -/
def storedTime (ctime : Int) : Int := atol (fgets 16 (fmtInt ctime))

/-- The times of the due files in a directory, in its order. -/
def dueTimes (last : Int) : Listing → List Int
  | .done => []
  | .file n st rest => if Due last n st then st.ctime :: dueTimes last rest else dueTimes last rest
  | .dir _ _ rest => dueTimes last rest

/-- In every directory the due files come in the order of their times, and these are not negative: no
due file is older than the time that is stored for one at or before it. -/
def InOrder (sync : List Bytes → Option Bytes) (indir : Bytes) : Listing → Prop
  | .done => True
  | .file n st rest =>
    (Due (getSyncTime sync indir) n st →
      ∀ t ∈ st.ctime :: dueTimes (getSyncTime sync indir) rest, storedTime st.ctime ≤ t ∧ 0 ≤ t) ∧
    InOrder sync indir rest
  | .dir n sub rest => (¬ Hidden n → InOrder sync (entryPath indir n) sub) ∧ InOrder sync indir rest

instance InOrder.decidable (sync : List Bytes → Option Bytes) :
    ∀ (indir : Bytes) (l : Listing), Decidable (InOrder sync indir l)
  | _, .done => .isTrue trivial
  | indir, .file _ _ rest =>
    have : Decidable (InOrder sync indir rest) := InOrder.decidable sync indir rest
    inferInstanceAs (Decidable ((_ → _) ∧ _))
  | indir, .dir n sub rest =>
    have : Decidable (InOrder sync (entryPath indir n) sub) :=
      InOrder.decidable sync (entryPath indir n) sub
    have : Decidable (InOrder sync indir rest) := InOrder.decidable sync indir rest
    inferInstanceAs (Decidable ((_ → _) ∧ _))

end VfsOss
