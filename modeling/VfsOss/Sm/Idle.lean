import VfsOss.CLib.Run
import Mathlib.Logic.Function.Basic

/-!
# Idle connections

`activelist` of `sm_client`, which `svc_timeout` goes through from its front up to the first peer that is not idle. A
peer is moved to the end of the list when its `hbtime` is set, but not in `svc_send_once`.
-/

namespace VfsOss

/-- The peers in `activelist`, in order, `hbtime` of each, and what `time` returned last. -/
structure ActiveList where
  activelist : List Nat
  hbtime : Nat → Int
  now : Int

/-- The list after `svc_init`. -/
def ActiveList.init (now : Int) : ActiveList := ⟨[], fun _ => 0, now⟩

/-- The calls of the plugin. A `svc_recv` that goes round its loop is one event for each round. -/
inductive PeerEvent where
  | initconn (fd : Nat)
  | recv (fd : Nat)
  | send (fd : Nat)
  | sendOnce (fd : Nat)
  | finiconn (fd : Nat)
  | timeout

/-- `hbtime` is set to the present and the peer moved to the end of the list. -/
def ActiveList.touch (fd : Nat) (s : ActiveList) : ActiveList :=
  { s with
    activelist := s.activelist.erase fd ++ [fd]
    hbtime := Function.update s.hbtime fd s.now }

/-- A peer has been idle for too long: `to` is ten times `g_config.timeout`. -/
def TimedOut (timeout : Nat) (now hbtime : Int) : Prop := ¬ now - hbtime < timeout * 10

instance (timeout : Nat) (now hbtime : Int) : Decidable (TimedOut timeout now hbtime) :=
  inferInstanceAs (Decidable (¬ _))

/-- The loop of `svc_timeout` over the peers in the list, and the peers it leaves there: `do_close` unlinks the
peer. -/
def timeoutLoop (timeout : Nat) (s : ActiveList) : List Nat → List Nat
  | [] => []
  | fd :: rest => if TimedOut timeout s.now (s.hbtime fd) then timeoutLoop timeout s rest else fd :: rest

/-- An event `dt` seconds after the one before. The plugin is only called for connections that are set up, and a
descriptor is only set up again after it has been closed. -/
def activeStep (timeout : Nat) (s : ActiveList) (a : Nat × PeerEvent) : ActiveList :=
  let s := { s with now := s.now + a.1 }
  match a.2 with
  | .initconn fd => if fd ∈ s.activelist then s else s.touch fd
  | .recv fd => if fd ∈ s.activelist then s.touch fd else s
  | .send fd => if fd ∈ s.activelist then s.touch fd else s
  | .sendOnce fd => if fd ∈ s.activelist then { s with hbtime := Function.update s.hbtime fd s.now } else s
  | .finiconn fd => { s with activelist := s.activelist.erase fd }
  | .timeout => { s with activelist := timeoutLoop timeout s s.activelist }

/-- The list is ordered from the oldest `hbtime` to the newest. -/
def ActiveList.Ordered (s : ActiveList) : Prop := s.activelist.Pairwise fun a b => s.hbtime a ≤ s.hbtime b

/-- The peers behind one in the list. -/
def behind (fd : Nat) (l : List Nat) : List Nat := (l.dropWhile fun g => g ≠ fd).tail

end VfsOss
