import RCoreOS.Spinlock.Accounts
import RCoreOS.Lib.LockOrder

/-! Spin locks that are used by the rules: contexts wait only upwards, handlers share only locks
whose sections have IRQs disabled, and guards go out of scope in order. Then IRQs stay disabled in
these sections, and nobody waits in a cycle.
-/

namespace RCoreOS.Spinlock

open KernelGuard

variable {L : Type} {kind : L → BaseGuard}

-----------------------------------------------------------------------------------------
-- The rules
-----------------------------------------------------------------------------------------

/-- In which order a context may wait for the locks, and which of them handlers use too. The locks
that handlers do not use come first.
-/
structure Rules (L : Type) where
  rank : L → Nat
  shared : L → Prop
  sharedAbove : ∀ l l', ¬ shared l → shared l' → rank l < rank l'

namespace Rules

variable {r : Rules L}

/-- A shared lock disables IRQs, or they are disabled already; any other lock is never used in
handlers; and a context waits only for locks above those it has.
-/
def MayCall (r : Rules L) (kind : L → BaseGuard) (th : Thread L) (call : Call L) : Prop :=
  ∀ l, call.region = .lock l
    → (r.shared l → (kind l).savesIrq = true ∨ irqsEnabled th.cpu.sstatus = false)
      ∧ (th.interrupted ≠ [] → r.shared l)
      ∧ (call = .lock l → ∀ guard ∈ th.current.guards, ∀ l', guard.region = .lock l'
        → r.rank l' < r.rank l)

/-- Calls by the rules, and guards that go out of scope, the last entered first. -/
def orderly (r : Rules L) (kind : L → BaseGuard) : Discipline L :=
  ⟨r.MayCall kind, (· = [])⟩

end Rules

-----------------------------------------------------------------------------------------
-- Sections with IRQs disabled
-----------------------------------------------------------------------------------------

/-- IRQs have to be disabled in the section. -/
def Guard.Masks (r : Rules L) (kind : L → BaseGuard) (guard : Guard L) : Prop :=
  (guard.region.guardOf kind).savesIrq = true ∨ ∃ l, guard.region = .lock l ∧ r.shared l

/-- Whether IRQs were enabled before the section was entered, if they are now as given. -/
def Guard.before (kind : L → BaseGuard) (guard : Guard L) (now : Bool) : Bool :=
  if (guard.region.guardOf kind).savesIrq then irqsEnabled guard.irqState else now

/-- Each section that needs it was entered with IRQs disabled, where IRQs are now as given. -/
def Layered (r : Rules L) (kind : L → BaseGuard) : Bool → List (Guard L) → Prop
  | _, [] => True
  | now, guard :: outer =>
    (guard.Masks r kind → now = false) ∧ Layered r kind (guard.before kind now) outer

/-- IRQs can be disabled in addition. -/
theorem Layered.mono {r : Rules L} {now : Bool} {guards : List (Guard L)}
    (layered : Layered r kind now guards)
    : Layered r kind false guards := by
  induction guards generalizing now with
  | nil => trivial
  | cons guard outer ih =>
      refine ⟨fun _ => rfl, ?_⟩
      have inner := layered.2
      rw [Guard.before] at inner ⊢
      cases saves : (guard.region.guardOf kind).savesIrq with
      | true =>
          rw [saves] at inner
          exact inner
      | false => exact ih inner

/-- With IRQs enabled no section is entered that needs them disabled. -/
theorem Layered.unmasked {r : Rules L} {guards : List (Guard L)}
    (layered : Layered r kind true guards)
    : ∀ guard ∈ guards, ¬ guard.Masks r kind := by
  induction guards with
  | nil => exact fun _ none => absurd none List.not_mem_nil
  | cons guard outer ih =>
      have unmasked : ¬ guard.Masks r kind := fun masks =>
        absurd (layered.1 masks) (by decide)
      have saves : ¬ (guard.region.guardOf kind).savesIrq = true := fun saves =>
        unmasked (.inl saves)
      have inner := layered.2
      rw [Guard.before, if_neg saves] at inner
      intro other member
      rcases List.mem_cons.mp member with rfl | older
      · exact unmasked
      · exact ih inner other older

/-- The call that a context makes. -/
def At.call : At L → Option (Call L)
  | .acquiring call _ _ => some call
  | .waiting l _ => some (.lock l)
  | _ => none

/-- Whether IRQs were enabled before the call that enters or leaves a section. -/
def At.before (kind : L → BaseGuard) (pc : At L) (now : Bool) : Bool :=
  match pc.saved kind with
  | [] => now
  | flags :: _ => irqsEnabled flags

/-- A context that is used by the rules, where IRQs are now as given. -/
structure Context.Orderly (r : Rules L) (kind : L → BaseGuard) (now : Bool) (c : Context L) : Prop
    where
  masked : c.pc.saved kind ≠ [] → now = false
  shared : ∀ call l, c.pc.call = some call → call.region = .lock l → r.shared l
    → (kind l).savesIrq = true ∨ now = false
  layered : Layered r kind (c.pc.before kind now) c.guards
  upwards : ∀ l, c.pc.call = some (.lock l) → ∀ guard ∈ c.guards, ∀ l', guard.region = .lock l'
    → r.rank l' < r.rank l

/-- The contexts of a thread are used by the rules, and handlers use shared locks. -/
structure Thread.Orderly (r : Rules L) (kind : L → BaseGuard) (th : Thread L) : Prop where
  current : th.current.Orderly r kind (irqsEnabled th.cpu.sstatus)
  interrupted : ∀ frame ∈ th.interrupted, frame.2.Orderly r kind (irqsEnabled frame.1)
  handler : th.interrupted ≠ [] → ∀ call l, th.current.pc.call = some call
    → call.region = .lock l → r.shared l


-----------------------------------------------------------------------------------------
-- One step
-----------------------------------------------------------------------------------------

theorem At.before_nil {pc : At L} (none : pc.saved kind = []) (now : Bool)
    : pc.before kind now = now := by
  rw [At.before, none]

theorem At.before_cons {pc : At L} {flags : BitVec 64} {rest : List (BitVec 64)}
    (some : pc.saved kind = flags :: rest) (now : Bool)
    : pc.before kind now = irqsEnabled flags := by
  rw [At.before, some]

theorem Layered.atNil {r : Rules L} {pc : At L} {now : Bool} {guards : List (Guard L)}
    (none : pc.saved kind = []) (layered : Layered r kind now guards)
    : Layered r kind (pc.before kind now) guards :=
  (At.before_nil none now).symm ▸ layered

theorem Layered.atCons {r : Rules L} {pc : At L} {flags : BitVec 64} {rest : List (BitVec 64)}
    {now : Bool} {guards : List (Guard L)} (some : pc.saved kind = flags :: rest)
    (layered : Layered r kind (irqsEnabled flags) guards)
    : Layered r kind (pc.before kind now) guards :=
  (At.before_cons some now).symm ▸ layered

/-- What a guard has saved decides whether IRQs were enabled before. -/
theorem Guard.before_eq (guard : Guard L) (pc : At L) (same : pc.saved kind = guard.saved kind)
    (now : Bool)
    : pc.before kind now = guard.before kind now := by
  rw [At.before, same, Guard.saved, BaseGuard.savedSoFar, Guard.before]
  cases (guard.region.guardOf kind).savesIrq <;> rfl

theorem Guard.saved_ne_nil {guard : Guard L} (saves : (guard.region.guardOf kind).savesIrq = true)
    : guard.saved kind ≠ [] := by
  rw [Guard.saved, BaseGuard.savedSoFar, saves]
  exact List.cons_ne_nil _ _

namespace Context.Orderly

variable {r : Rules L} {now : Bool} {guards : List (Guard L)}

/-- A context that is in no call. -/
theorem running (layered : Layered r kind now guards)
    : (⟨.running, guards⟩ : Context L).Orderly r kind now where
  masked none := absurd rfl none
  shared call l none := by cases none
  layered := layered
  upwards l none := by cases none

/-- The section of a call is entered. -/
theorem grant {c : Context L} (orderly : c.Orderly r kind now) {call : Call L} (guard : Guard L)
    (isCall : c.pc.call = some call) (region : call.region = guard.region)
    (same : c.pc.saved kind = guard.saved kind)
    : (⟨.running, guard :: c.guards⟩ : Context L).Orderly r kind now := by
  refine running ⟨fun masks => ?_, ?_⟩
  · by_cases saves : (guard.region.guardOf kind).savesIrq = true
    · exact orderly.masked (same ▸ Guard.saved_ne_nil saves)
    · obtain ⟨l, isLock, isShared⟩ := masks.resolve_left saves
      rw [isLock] at saves region
      exact (orderly.shared call l isCall region isShared).resolve_left saves
  · rw [← guard.before_eq c.pc same]
    exact orderly.layered

/-- A try is refused, and IRQs stay as they are. -/
theorem refuse {c : Context L} (orderly : c.Orderly r kind now)
    : (⟨.running, c.guards⟩ : Context L).Orderly r kind now := by
  refine running ?_
  have layered := orderly.layered
  cases saved : c.pc.saved kind with
  | nil =>
      rw [At.before_nil saved] at layered
      exact layered
  | cons flags rest =>
      have disabled : now = false := orderly.masked (saved ▸ List.cons_ne_nil _ _)
      exact disabled ▸ layered.mono

/-- Nothing but the place in the code changes. -/
theorem move {c : Context L} (orderly : c.Orderly r kind now) {pc : At L}
    (same : pc.saved kind = c.pc.saved kind) (sameCall : pc.call = c.pc.call)
    : (⟨pc, c.guards⟩ : Context L).Orderly r kind now where
  masked some := orderly.masked (same ▸ some)
  shared call l isCall := orderly.shared call l (sameCall ▸ isCall)
  layered := by
    rw [At.before, same]
    exact orderly.layered
  upwards l isCall := orderly.upwards l (sameCall ▸ isCall)

/-- With IRQs enabled a context is in no section that needs them disabled. -/
theorem unmasked {c : Context L} (orderly : c.Orderly r kind true)
    : ∀ guard ∈ c.guards, ¬ guard.Masks r kind := by
  refine Layered.unmasked ?_
  have layered := orderly.layered
  cases saved : c.pc.saved kind with
  | nil =>
      rw [At.before_nil saved] at layered
      exact layered
  | cons flags rest => exact absurd (orderly.masked (saved ▸ List.cons_ne_nil _ _)) (by decide)

end Context.Orderly

namespace Thread

variable {th th' : Thread L} {label : Label L} {r : Rules L} {base : BitVec 64}

/-- Every step by the rules keeps the contexts in order, by cases on the step. -/
theorem Orderly.step (orderly : th.Orderly r kind) (sound : th.Sound kind base)
    (stepped : th.Step kind (r.orderly kind) label th')
    : th'.Orderly r kind := by
  obtain ⟨current, interrupted, handler⟩ := orderly
  have wellFormed := sound.wellFormed.1
  cases stepped with
  | calls call idle may =>
      refine ⟨?_, interrupted, fun inside call' l isCall isLock => ?_⟩
      · have nothing : At.saved kind (.acquiring call (call.region.guardOf kind).acquire 0) = [] :=
          ((call.region.guardOf kind).notYet 0).2
        have layered := current.layered
        rw [idle, At.before_nil rfl] at layered
        exact {
          masked := fun some => absurd nothing some
          shared := fun call' l isCall isLock => by
            cases isCall
            exact (may l isLock).1
          layered := .atNil nothing layered
          upwards := fun l isCall => by
            cases isCall
            exact (may l rfl).2.2 rfl
        }
      · cases isCall
        exact (may l isLock).2.1 inside
  | @acquires call op todo irqState pc =>
      rw [pc] at wellFormed
      have sameCall : At.call (.acquiring call todo (op.perform th.cpu irqState).2)
          = th.current.pc.call := by
        rw [pc]
        rfl
      have handler' := sameCall ▸ handler
      rcases BaseGuard.acquire_cases wellFormed with
        ⟨rfl, -, -, nothing⟩ | ⟨rfl, -, states⟩
      · refine ⟨current.move ?_ sameCall, interrupted, handler'⟩
        rw [pc]
        exact (nothing 0 irqState).2.trans (nothing irqState 0).1.symm
      · have none : th.current.pc.saved kind = [] := by
          rw [pc]
          exact (states irqState 0).1
        have some : At.saved kind (.acquiring call todo (localIrqSaveAndDisable th.cpu.sstatus).1)
            = [(localIrqSaveAndDisable th.cpu.sstatus).1] :=
          (states 0 _).2
        have layered := current.layered
        rw [At.before_nil none] at layered
        refine ⟨?_, interrupted, handler'⟩
        exact {
          masked := fun _ => irqsEnabled_disabled _
          shared := fun _ _ _ _ _ => .inr (irqsEnabled_disabled _)
          layered := .atCons some (irqsEnabled_saved th.cpu.sstatus ▸ layered)
          upwards := fun l isCall => current.upwards l (sameCall ▸ isCall)
        }
  | @exchanges l irqState pc | @tries l irqState pc =>
      refine ⟨?_, interrupted, fun _ call l none => by cases none⟩
      exact current.grant ⟨.lock l, irqState⟩ (by rw [pc]; rfl) rfl (by rw [pc]; rfl)
  | @enters g irqState pc =>
      refine ⟨?_, interrupted, fun _ call l none => by cases none⟩
      exact current.grant ⟨.guard g, irqState⟩ (by rw [pc]; rfl) rfl (by rw [pc]; rfl)
  | @contends l irqState pc =>
      have sameCall : At.call (.waiting l irqState) = th.current.pc.call := by
        rw [pc]
        rfl
      exact ⟨current.move (by rw [pc]; rfl) sameCall, interrupted, sameCall ▸ handler⟩
  | @looks l irqState locked pc =>
      have sameCall : At.call (if locked then .waiting l irqState
          else .acquiring (.lock l) [] irqState) = th.current.pc.call := by
        rw [pc]
        cases locked <;> rfl
      exact ⟨current.move (by rw [pc]; cases locked <;> rfl) sameCall, interrupted,
        sameCall ▸ handler⟩
  | refuses pc =>
      exact ⟨current.refuse, interrupted, fun _ call l none => by cases none⟩
  | @drops before after guard idle has may =>
      refine ⟨?_, interrupted, fun _ call l none => by cases none⟩
      have layered := current.layered
      cases (may : before = [])
      rw [idle, At.before_nil rfl, has] at layered
      have same : At.saved kind (.releasing ((guard.region.guardOf kind).release guard.irqState))
          = guard.saved kind :=
        ((guard.region.guardOf kind).release_returns guard.irqState).2
      exact {
        masked := by
          intro some
          refine layered.1 (.inl ?_)
          by_contra saves
          refine some (same.trans ?_)
          rw [Guard.saved, BaseGuard.savedSoFar, Bool.eq_false_of_not_eq_true saves]
          rfl
        shared := fun call l none => by cases none
        layered := (guard.before_eq _ same _).symm ▸ layered.2
        upwards := fun l none => by cases none
      }
  | @releases op todo pc =>
      refine ⟨?_, interrupted, fun _ call l none => by cases none⟩
      rw [pc] at wellFormed
      obtain ⟨g, irqState, suffix⟩ := wellFormed
      obtain ⟨nothing, rfl | rfl⟩ := BaseGuard.release_cases suffix
      · have saved : th.current.pc.saved kind = irqState :: At.saved kind (.releasing todo) := by
          rw [pc]
          rfl
        have disabled := current.masked (saved ▸ List.cons_ne_nil _ _)
        have layered := current.layered
        rw [At.before_cons saved] at layered
        have restored : irqsEnabled (localIrqRestore irqState th.cpu.sstatus)
            = irqsEnabled irqState := by
          rw [irqsEnabled_restore, disabled, Bool.false_or]
        exact {
          masked := fun some => absurd nothing some
          shared := fun call l none => by cases none
          layered := .atNil nothing (restored.symm ▸ layered)
          upwards := fun l none => by cases none
        }
      · exact current.move (by rw [pc]; rfl) (by rw [pc]; rfl)
  | released pc =>
      exact ⟨current.move (by rw [pc]; rfl) (by rw [pc]; rfl), interrupted,
        fun _ call l none => by cases none⟩
  | interrupted enabled =>
      refine ⟨.running trivial, fun frame member => ?_, fun _ call l none => by cases none⟩
      rcases List.mem_cons.mp member with rfl | older
      · exact current
      · exact interrupted frame older
  | @returns sstatus context older done frames =>
      obtain ⟨-, -, rfl⟩ := sound.disabled_of_interrupted frames
      rw [frames] at interrupted
      exact ⟨interrupted _ (List.mem_cons_self ..), fun _ none => absurd none List.not_mem_nil,
        fun inside => absurd rfl inside⟩

theorem Orderly.fresh (r : Rules L) (base : BitVec 64)
    : (Machine.fresh base : Thread L).Orderly r kind where
  current := .running trivial
  interrupted _ none := absurd none List.not_mem_nil
  handler inside := absurd rfl inside

/-- Where IRQs have to be disabled they are, and a handler does not interrupt such a section. -/
structure Uninterrupted (r : Rules L) (kind : L → BaseGuard) (th : Thread L) : Prop where
  disabled : ∀ guard ∈ th.current.guards, guard.Masks r kind → irqsEnabled th.cpu.sstatus = false
  unmasked : ∀ frame ∈ th.interrupted, ∀ guard ∈ frame.2.guards, ¬ guard.Masks r kind

theorem Orderly.uninterrupted (orderly : th.Orderly r kind) (sound : th.Sound kind base)
    : th.Uninterrupted r kind where
  disabled guard member masks := by
    by_contra enabled
    rw [Bool.not_eq_false] at enabled
    exact Context.Orderly.unmasked (enabled ▸ orderly.current) guard member masks
  unmasked frame member :=
    Context.Orderly.unmasked ((sound.trapped frame member).1 ▸ orderly.interrupted frame member)

-----------------------------------------------------------------------------------------
-- Waiting
-----------------------------------------------------------------------------------------

/-- The locks that a thread has guards of. -/
def heldLocks (th : Thread L) : List L :=
  (th.current.guards ++ th.interrupted.flatMap fun frame => frame.2.guards).filterMap
    fun guard => match guard.region with
      | .lock l => some l
      | .guard _ => none

/-- The lock that a thread is about to take, if it is in `lock`. -/
def wanted (th : Thread L) : Option L :=
  match th.current.pc.call with
  | some (.lock l) => some l
  | _ => none

theorem mem_heldLocks {l : L}
    : l ∈ th.heldLocks ↔ (∃ guard ∈ th.current.guards, guard.region = .lock l)
      ∨ ∃ frame ∈ th.interrupted, ∃ guard ∈ frame.2.guards, guard.region = .lock l := by
  have ofRegion (guard : Guard L) : (match guard.region with
      | .lock l => some l
      | .guard _ => none) = some l ↔ guard.region = .lock l := by
    cases guard.region <;> simp
  simp only [heldLocks, List.mem_filterMap, List.mem_append, List.mem_flatMap, ofRegion]
  constructor
  · rintro ⟨guard, member | ⟨frame, isFrame, member⟩, isLock⟩
    · exact .inl ⟨guard, member, isLock⟩
    · exact .inr ⟨frame, isFrame, guard, member, isLock⟩
  · rintro (⟨guard, member, isLock⟩ | ⟨frame, isFrame, guard, member, isLock⟩)
    · exact ⟨guard, .inl member, isLock⟩
    · exact ⟨guard, .inr ⟨frame, isFrame, member⟩, isLock⟩

theorem call_of_wanted {l : L} (wants : th.wanted = some l)
    : th.current.pc.call = some (.lock l) := by
  rw [wanted] at wants
  split at wants
  · next isLock =>
      cases wants
      exact isLock
  · cases wants

/-- A thread waits for a lock above all those it has, also in the contexts that its handler has
interrupted.
-/
theorem Orderly.upwards (orderly : th.Orderly r kind) (sound : th.Sound kind base) {l l' : L}
    (wants : th.wanted = some l) (holds : l' ∈ th.heldLocks)
    : r.rank l' < r.rank l := by
  have isCall := call_of_wanted wants
  rcases mem_heldLocks.mp holds with
    ⟨guard, member, isLock⟩ | ⟨frame, isFrame, guard, member, isLock⟩
  · exact orderly.current.upwards l isCall guard member l' isLock
  · have inside : th.interrupted ≠ [] := List.ne_nil_of_mem isFrame
    have isShared : r.shared l := orderly.handler inside (.lock l) l isCall rfl
    have unmasked := (orderly.uninterrupted sound).unmasked frame isFrame guard member
    exact r.sharedAbove l' l (fun shared => unmasked (.inr ⟨l', isLock, shared⟩)) isShared

theorem holds_pos_iff [DecidableEq L] {l : L} : 0 < th.holds l ↔ l ∈ th.heldLocks := by
  simp only [mem_heldLocks, holds, Context.holds, Nat.add_pos_iff_pos_or_pos, List.countP_pos_iff,
    decide_eq_true_eq, List.sum_pos_iff_exists_pos_nat, List.mem_map]
  constructor
  · rintro (current | ⟨_, ⟨frame, isFrame, rfl⟩, positive⟩)
    · exact .inl current
    · exact .inr ⟨frame, isFrame, List.countP_pos_iff.mp positive |>.imp fun _ => by simp⟩
  · rintro (current | ⟨frame, isFrame, guard, member, isLock⟩)
    · exact .inl current
    · exact .inr ⟨_, ⟨frame, isFrame, rfl⟩,
        List.countP_pos_iff.mpr ⟨guard, member, decide_eq_true isLock⟩⟩

end Thread

-----------------------------------------------------------------------------------------
-- Whole runs
-----------------------------------------------------------------------------------------

namespace Machine

variable [DecidableEq L] {T : Type} [DecidableEq T] {m : Machine T L} {base : T → BitVec 64}
  {r : Rules L}

/-- Who has which locks, and who waits for which. -/
def locks (m : Machine T L) : LockOrder.Locks T L where
  held t := (m.threads t).heldLocks
  waiting t := (m.threads t).wanted
  left _ := []

theorem orderly_reachable (reachable : m.Reachable kind (r.orderly kind) base)
    : (∀ l, Exclusive (m.locked l) fun t => (m.threads t).holds l)
      ∧ ∀ t, (m.threads t).Sound kind (base t) ∧ (m.threads t).Orderly r kind := by
  refine Transition.Reachable.invariant
    (fun m => (∀ l, Exclusive (m.locked l) fun t => (m.threads t).holds l)
      ∧ ∀ t, (m.threads t).Sound kind (base t) ∧ (m.threads t).Orderly r kind)
    (fun m started => ?_) (fun m m' kept stepped => ?_) reachable
  · cases started
    exact ⟨fun l t => rfl, fun t => ⟨.fresh (base t), .fresh r (base t)⟩⟩
  · refine ⟨stepped.exclusive kept.1, ?_⟩
    obtain @⟨actor, label, th, locked, stepped, applied⟩ := stepped
    obtain ⟨sound, orderly⟩ := kept.2 actor
    exact (Function.forall_update_iff m.threads fun t th =>
      th.Sound kind (base t) ∧ th.Orderly r kind).mpr
      ⟨⟨sound.step stepped, orderly.step sound stepped⟩, fun t _ => kept.2 t⟩

/-- Nobody waits in a cycle: of those who wait for each other some can go on. IRQs are disabled in
every section that is shared with handlers.
-/
theorem never_deadlocked [Finite T] (reachable : m.Reachable kind (r.orderly kind) base)
    : ¬ m.locks.Deadlocked
      ∧ (∀ t l, m.locks.waiting t = some l → m.locked l = true
        → ∃ last, Relation.TransGen m.locks.WaitsFor t last
          ∧ ∀ l', m.locks.waiting last = some l' → m.locked l' = false)
      ∧ ∀ t, (m.threads t).Uninterrupted r kind := by
  obtain ⟨exclusive, threads⟩ := orderly_reachable reachable
  have upwards : m.locks.Upwards r.rank := fun t l wants l' holds =>
    (threads t).2.upwards (threads t).1 wants holds
  have heldBy {l : L} : m.locked l = true ↔ ∃ t, l ∈ m.locks.held t := by
    have sole := exclusive l
    constructor
    · intro isLocked
      rw [isLocked] at sole
      obtain ⟨t, once, -⟩ := sole
      exact ⟨t, Thread.holds_pos_iff.mp (Nat.lt_of_lt_of_eq Nat.one_pos once.symm)⟩
    · rintro ⟨t, holds⟩
      exact sole.taken_of_held t (Thread.holds_pos_iff.mpr holds)
  refine ⟨upwards.not_deadlocked, fun t l wants isLocked => ?_,
    fun t => (threads t).2.uninterrupted (threads t).1⟩
  obtain ⟨owner, holds⟩ := heldBy.mp isLocked
  obtain ⟨last, path, unblocked⟩ := upwards.exists_unblocked ⟨l, wants, holds⟩
  refine ⟨last, path, fun l' wants' => ?_⟩
  by_contra isLocked'
  obtain ⟨owner', holds'⟩ := heldBy.mp (Bool.eq_true_of_not_eq_false isLocked')
  exact unblocked l' wants' owner' holds'

/-- The lock `true` is shared with handlers, and the lock `false` is below it. -/
def sharedOne : Rules Bool where
  rank := Bool.toNat
  shared l := l = true
  sharedAbove := by decide

/-- A handler waits for the lock that the other thread has, and it has interrupted a section of
the lock that is not shared.
-/
theorem never_deadlocked_handlerWaits
    : ∃ m : Machine Bool Bool, m.locks.waiting false = some true ∧ m.locks.held false = [false]
      ∧ m.locked true = true ∧ ¬ m.locks.Deadlocked
      ∧ (m.threads true).Uninterrupted sharedOne
        fun l => if l then .noPreemptIrqSave else .noPreempt := by
  have start : Machine.Reachable (fun l => if l then .noPreemptIrqSave else .noPreempt)
      (sharedOne.orderly fun l => if l then .noPreemptIrqSave else .noPreempt)
      (fun _ : Bool => SIE_BIT) ⟨fun _ : Bool => false, fun _ => fresh SIE_BIT⟩ :=
    .start rfl
  have locked := (((start.acts true (.calls (.lock true) rfl (by
    intro l isLock
    cases isLock
    exact ⟨fun _ => .inl rfl, fun inside => absurd rfl inside,
      fun _ guard none => absurd none List.not_mem_nil⟩)) rfl).acts
    true (.acquires rfl) rfl).acts true (.acquires rfl) rfl).acts true (.exchanges rfl) rfl
  have inside := (((locked.acts false (.calls (.lock false) rfl (by
    intro l isLock
    cases isLock
    exact ⟨fun isTrue => absurd isTrue Bool.false_ne_true, fun inside => absurd rfl inside,
      fun _ guard none => absurd none List.not_mem_nil⟩)) rfl).acts
    false (.acquires rfl) rfl).acts false (.exchanges rfl) rfl).acts false (.interrupted rfl) rfl
  have waits := (((inside.acts false (.calls (.lock true) rfl (by
    intro l isLock
    cases isLock
    exact ⟨fun _ => .inl rfl, fun _ => rfl,
      fun _ guard none => absurd none List.not_mem_nil⟩)) rfl).acts
    false (.acquires rfl) rfl).acts false (.acquires rfl) rfl).acts false (.contends rfl) rfl
  obtain ⟨free, -, uninterrupted⟩ := never_deadlocked waits
  exact ⟨_, rfl, rfl, rfl, free, uninterrupted true⟩

end Machine

end RCoreOS.Spinlock
