import RCoreOS.KernelGuard.Guards
import RCoreOS.Lib.Exclusive
import RCoreOS.Lib.Transition

/-! Spin locks with the guards that they hold, as the code runs: one atomic access or one call of
the guard after the other, on any number of threads with their interrupt handlers.
-/

namespace RCoreOS.Spinlock

open KernelGuard

variable {L : Type} {kind : L → BaseGuard}

-----------------------------------------------------------------------------------------
-- Critical sections
-----------------------------------------------------------------------------------------

/-- The data of a spin lock, or a section that only has a guard of its own. -/
inductive Region (L : Type) where
  | lock (l : L)
  | guard (g : BaseGuard)
  deriving DecidableEq

/-- A value that ends its section when it is dropped: a `BaseSpinLockGuard`, or a guard that
`new` returned.
-/
structure Guard (L : Type) where
  region : Region L
  irqState : BitVec 64
  deriving DecidableEq

/-- The calls that enter a section. -/
inductive Call (L : Type) where
  | lock (l : L)
  | tryLock (l : L)
  | new (g : BaseGuard)
  deriving DecidableEq

def Call.region : Call L → Region L
  | .lock l | .tryLock l => .lock l
  | .new g => .guard g

/-- The guard of a region, where `kind` is the type parameter `G` of each lock. -/
def Region.guardOf (kind : L → BaseGuard) : Region L → BaseGuard
  | .lock l => kind l
  | .guard g => g

/-- Where a context is in the code of the locks and guards. -/
inductive At (L : Type) where
  | running
  /-- In `G::acquire`, with the calls that are left, and then at the exchange of the lock. -/
  | acquiring (call : Call L) (todo : List Op) (irqState : BitVec 64)
  /-- In the loop that waits until the lock looks unlocked. -/
  | waiting (l : L) (irqState : BitVec 64)
  /-- In `G::release`, with the calls that are left. -/
  | releasing (todo : List Op)
  deriving DecidableEq

/-- A task or an interrupt handler, with the guards it has, of which the last entered is first. -/
structure Context (L : Type) where
  pc : At L
  guards : List (Guard L)
  deriving DecidableEq

/-- A task with the contexts that are interrupted by handlers, each with the status in its trap
frame. Tasks are switched with IRQs disabled, so a task finds the status that it has left. The
tries that were refused are recorded with the states that they have saved.
-/
structure Thread (L : Type) where
  cpu : Cpu
  current : Context L
  interrupted : List (BitVec 64 × Context L)
  refused : List (Guard L)

namespace Thread

/-- The thread at another place of the code. -/
def goTo (th : Thread L) (pc : At L) : Thread L :=
  { th with current := { th.current with pc } }

/-- The guard is returned to the caller. -/
def grant (th : Thread L) (guard : Guard L) : Thread L :=
  { th with current := ⟨.running, guard :: th.current.guards⟩ }

/-- `None` is returned to the caller, and `G::release` is not called. -/
def refuse (th : Thread L) (guard : Guard L) : Thread L :=
  { th with current := { th.current with pc := .running }, refused := guard :: th.refused }

/-- One of the guards is dropped. -/
def drop (th : Thread L) (left : List (Guard L)) (todo : List Op) : Thread L :=
  { th with current := ⟨.releasing todo, left⟩ }

/-- A handler begins with IRQs disabled. -/
def interrupt (th : Thread L) : Thread L where
  cpu := { th.cpu with sstatus := (localIrqSaveAndDisable th.cpu.sstatus).2 }
  current := ⟨.running, []⟩
  interrupted := (th.cpu.sstatus, th.current) :: th.interrupted
  refused := th.refused

/-- A handler returns, and the status is restored from the trap frame. -/
def sret (th : Thread L) (sstatus : BitVec 64) (context : Context L)
    (interrupted : List (BitVec 64 × Context L))
    : Thread L where
  cpu := { th.cpu with sstatus }
  current := context
  interrupted := interrupted
  refused := th.refused

end Thread

-----------------------------------------------------------------------------------------
-- Steps
-----------------------------------------------------------------------------------------

/-- What a step does with the word of a lock. -/
inductive Label (L : Type) where
  | silent
  /-- An exchange succeeds. -/
  | takes (l : L)
  | frees (l : L)
  /-- A weak exchange fails, which it may do even if the lock is not locked. -/
  | fails (l : L)
  | sees (l : L) (locked : Bool)

/-- What the drop of a guard does with the word. -/
def Region.freed : Region L → Label L
  | .lock l => .frees l
  | .guard _ => .silent

/-- How the code uses the locks: which calls it makes, and which of the guards that were entered
last it keeps when it drops one.
-/
structure Discipline (L : Type) where
  mayCall : Thread L → Call L → Prop
  mayKeep : List (Guard L) → Prop

/-- Any calls, and drops in any order. -/
def anyhow : Discipline L :=
  ⟨fun _ _ => True, fun _ => True⟩

/-- One step of a thread. -/
inductive Thread.Step (kind : L → BaseGuard) (d : Discipline L)
    : Thread L → Label L → Thread L → Prop
  | calls {th : Thread L} (call : Call L) (idle : th.current.pc = .running)
    (may : d.mayCall th call)
    : Step kind d th .silent
      (th.goTo (.acquiring call (call.region.guardOf kind).acquire 0))
  | acquires {th : Thread L} {call : Call L} {op : Op} {todo : List Op} {irqState : BitVec 64}
    (pc : th.current.pc = .acquiring call (op :: todo) irqState)
    : Step kind d th .silent
      ({ th with cpu := (op.perform th.cpu irqState).1 }.goTo
        (.acquiring call todo (op.perform th.cpu irqState).2))
  | exchanges {th : Thread L} {l : L} {irqState : BitVec 64}
    (pc : th.current.pc = .acquiring (.lock l) [] irqState)
    : Step kind d th (.takes l) (th.grant ⟨.lock l, irqState⟩)
  | contends {th : Thread L} {l : L} {irqState : BitVec 64}
    (pc : th.current.pc = .acquiring (.lock l) [] irqState)
    : Step kind d th (.fails l) (th.goTo (.waiting l irqState))
  | looks {th : Thread L} {l : L} {irqState : BitVec 64} (locked : Bool)
    (pc : th.current.pc = .waiting l irqState)
    : Step kind d th (.sees l locked)
      (th.goTo (if locked then .waiting l irqState else .acquiring (.lock l) [] irqState))
  | tries {th : Thread L} {l : L} {irqState : BitVec 64}
    (pc : th.current.pc = .acquiring (.tryLock l) [] irqState)
    : Step kind d th (.takes l) (th.grant ⟨.lock l, irqState⟩)
  | refuses {th : Thread L} {l : L} {irqState : BitVec 64}
    (pc : th.current.pc = .acquiring (.tryLock l) [] irqState)
    : Step kind d th (.sees l true) (th.refuse ⟨.lock l, irqState⟩)
  | enters {th : Thread L} {g : BaseGuard} {irqState : BitVec 64}
    (pc : th.current.pc = .acquiring (.new g) [] irqState)
    : Step kind d th .silent (th.grant ⟨.guard g, irqState⟩)
  | drops {th : Thread L} {before after : List (Guard L)} {guard : Guard L}
    (idle : th.current.pc = .running) (has : th.current.guards = before ++ guard :: after)
    (may : d.mayKeep before)
    : Step kind d th guard.region.freed
      (th.drop (before ++ after) ((guard.region.guardOf kind).release guard.irqState))
  | releases {th : Thread L} {op : Op} {todo : List Op}
    (pc : th.current.pc = .releasing (op :: todo))
    : Step kind d th .silent
      ({ th with cpu := (op.perform th.cpu 0).1 }.goTo (.releasing todo))
  | released {th : Thread L} (pc : th.current.pc = .releasing [])
    : Step kind d th .silent (th.goTo .running)
  | interrupted {th : Thread L} (enabled : irqsEnabled th.cpu.sstatus = true)
    : Step kind d th .silent th.interrupt
  | returns {th : Thread L} {sstatus : BitVec 64} {context : Context L}
    {interrupted : List (BitVec 64 × Context L)} (done : th.current = ⟨.running, []⟩)
    (frames : th.interrupted = (sstatus, context) :: interrupted)
    : Step kind d th .silent (th.sret sstatus context interrupted)

section Words

variable [DecidableEq L]

/-- The words of the locks after a step, if they let it happen. -/
def Label.apply (locked : L → Bool) : Label L → Option (L → Bool)
  | .silent => some locked
  | .takes l => if locked l then none else some (Function.update locked l true)
  | .frees l => some (Function.update locked l false)
  | .fails _ => some locked
  | .sees l seen => if locked l = seen then some locked else none

/-- The words of all locks, and all threads. -/
structure Machine (T L : Type) where
  locked : L → Bool
  threads : T → Thread L

namespace Machine

variable {T : Type} [DecidableEq T]

/-- The threads take steps in any order. -/
inductive Step (kind : L → BaseGuard) (d : Discipline L) : Machine T L → Machine T L → Prop
  | acts {m : Machine T L} {t : T} {label : Label L} {th : Thread L} {locked : L → Bool}
    (stepped : (m.threads t).Step kind d label th)
    (applied : label.apply m.locked = some locked)
    : Step kind d m ⟨locked, Function.update m.threads t th⟩

/-- A thread in no section. -/
def fresh (sstatus : BitVec 64) : Thread L :=
  ⟨⟨sstatus, 0⟩, ⟨.running, []⟩, [], []⟩

/-- No lock is locked, and each thread has a status to begin with. -/
def Started (base : T → BitVec 64) (m : Machine T L) : Prop :=
  m = ⟨fun _ => false, fun t => fresh (base t)⟩

def Reachable (kind : L → BaseGuard) (d : Discipline L) (base : T → BitVec 64)
    : Machine T L → Prop :=
  Transition.Reachable (Started base) (Step kind d)

end Machine

end Words

-----------------------------------------------------------------------------------------
-- What contexts have taken
-----------------------------------------------------------------------------------------

/-- How often a guard disables preemption. -/
def Guard.preempts (kind : L → BaseGuard) (guard : Guard L) : Nat :=
  (guard.region.guardOf kind).preempts

/-- The state of the IRQs that a guard restores. -/
def Guard.saved (kind : L → BaseGuard) (guard : Guard L) : List (BitVec 64) :=
  (guard.region.guardOf kind).savedSoFar [] guard.irqState

/-- How often preemption is disabled for the code at a place. -/
def At.preempts (kind : L → BaseGuard) : At L → Nat
  | .running => 0
  | .acquiring call todo _ => (call.region.guardOf kind).preemptsSoFar todo
  | .waiting l _ => (kind l).preempts
  | .releasing todo => todo.count .enablePreempt

/-- The states that are saved by the code at a place. -/
def At.saved (kind : L → BaseGuard) : At L → List (BitVec 64)
  | .running => []
  | .acquiring call todo irqState => (call.region.guardOf kind).savedSoFar todo irqState
  | .waiting l irqState => (kind l).savedSoFar [] irqState
  | .releasing todo => todo.flatMap Op.restores

/-- What is left of `acquire` or `release` is a suffix of it. -/
def At.WellFormed (kind : L → BaseGuard) : At L → Prop
  | .acquiring call todo _ => todo <:+ (call.region.guardOf kind).acquire
  | .releasing todo => ∃ (g : BaseGuard) (irqState : BitVec 64), todo <:+ g.release irqState
  | _ => True

namespace Context

def preempts (kind : L → BaseGuard) (context : Context L) : Nat :=
  context.pc.preempts kind + (context.guards.map (Guard.preempts kind)).sum

/-- The states that the context has saved, the last first. -/
def saved (kind : L → BaseGuard) (context : Context L) : List (BitVec 64) :=
  context.pc.saved kind ++ context.guards.flatMap (Guard.saved kind)

/-- How many guards of a lock the context has. -/
def holds [DecidableEq L] (context : Context L) (l : L) : Nat :=
  context.guards.countP fun guard => decide (guard.region = .lock l)

@[simp] theorem preempts_idle : (⟨.running, []⟩ : Context L).preempts kind = 0 :=
  rfl

@[simp] theorem saved_idle : (⟨.running, []⟩ : Context L).saved kind = [] :=
  rfl

end Context

namespace Thread

/-- How often preemption is disabled by sections, and by tries that were refused. -/
def preempts (kind : L → BaseGuard) (th : Thread L) : Nat :=
  th.current.preempts kind + (th.interrupted.map fun frame => frame.2.preempts kind).sum
    + (th.refused.map (Guard.preempts kind)).sum

/-- The states of the IRQs that are saved by sections, and by tries that were refused. -/
def saved (kind : L → BaseGuard) (th : Thread L) : List (BitVec 64) :=
  th.current.saved kind ++ (th.interrupted.flatMap fun frame => frame.2.saved kind)
    ++ th.refused.flatMap (Guard.saved kind)

/-- Where IRQs are enabled: in the status, in a saved state or in a trap frame. -/
def tokens (kind : L → BaseGuard) (th : Thread L) : Nat :=
  (irqsEnabled th.cpu.sstatus).toNat + (th.saved kind).countP irqsEnabled
    + th.interrupted.countP fun frame => irqsEnabled frame.1

/-- How many guards of a lock the thread has. -/
def holds [DecidableEq L] (th : Thread L) (l : L) : Nat :=
  th.current.holds l + (th.interrupted.map fun frame => frame.2.holds l).sum

end Thread

end RCoreOS.Spinlock
