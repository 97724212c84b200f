import RCoreOS.Spinlock.Deadlock

/-! The build for a single core, in which spin locks have no word. If the locks are used by the
rules, each of its runs is a run of the build for many cores, in which every exchange succeeds.
-/

namespace RCoreOS.Spinlock

open KernelGuard

variable {L : Type} {kind : L → BaseGuard}

-----------------------------------------------------------------------------------------
-- Steps
-----------------------------------------------------------------------------------------

/-- Without words, `lock` and `try_lock` always get the lock, and it never looks locked. -/
def Label.Certain : Label L → Prop
  | .silent | .takes _ | .frees _ => True
  | .fails _ | .sees .. => False

/-- By the rules, and a lock is only taken with preemption disabled and by a context that does not
have it.
-/
def Rules.MayCallAlone (r : Rules L) (kind : L → BaseGuard) (th : Thread L) (call : Call L)
    : Prop :=
  r.MayCall kind th call ∧ ∀ l, call.region = .lock l
    → (0 < (kind l).preempts ∨ 0 < th.cpu.preemptDisableCount)
      ∧ ∀ guard ∈ th.current.guards, guard.region ≠ .lock l

def Rules.alone (r : Rules L) (kind : L → BaseGuard) : Discipline L :=
  ⟨r.MayCallAlone kind, (· = [])⟩

/-- The threads, one of which runs. -/
structure Core (T L : Type) where
  running : T
  threads : T → Thread L

namespace Core

variable {T : Type} [DecidableEq T]

/-- The running thread takes a step, or it is switched when preemption is not disabled. -/
inductive Step (kind : L → BaseGuard) (d : Discipline L) : Core T L → Core T L → Prop
  | acts {c : Core T L} {label : Label L} {th : Thread L}
    (stepped : (c.threads c.running).Step kind d label th) (certain : label.Certain)
    : Step kind d c ⟨c.running, Function.update c.threads c.running th⟩
  | switches {c : Core T L} (t : T)
    (enabled : (c.threads c.running).cpu.preemptDisableCount = 0)
    : Step kind d c ⟨t, c.threads⟩

def Started (base : T → BitVec 64) (c : Core T L) : Prop :=
  c.threads = fun t => Machine.fresh (base t)

def Reachable (kind : L → BaseGuard) (d : Discipline L) (base : T → BitVec 64)
    : Core T L → Prop :=
  Transition.Reachable (Started base) (Step kind d)

end Core

-----------------------------------------------------------------------------------------
-- Preemption
-----------------------------------------------------------------------------------------

/-- Preemption is disabled in each section of a lock, where the contexts below it disable it as
often as given.
-/
def Covered (kind : L → BaseGuard) (below : Nat) : List (Guard L) → Prop
  | [] => True
  | guard :: outer =>
    (∀ l, guard.region = .lock l
      → 0 < guard.preempts kind + (outer.map (Guard.preempts kind)).sum + below)
    ∧ Covered kind below outer

/-- Sections in which preemption is not disabled are of no lock. -/
theorem Covered.not_lock {below : Nat} {guards : List (Guard L)}
    (covered : Covered kind below guards)
    (enabled : (guards.map (Guard.preempts kind)).sum + below = 0) (l : L)
    : ∀ guard ∈ guards, guard.region ≠ .lock l := by
  induction guards with
  | nil => exact fun _ none => absurd none List.not_mem_nil
  | cons guard outer ih =>
      rw [List.map_cons, List.sum_cons] at enabled
      intro other member
      rcases List.mem_cons.mp member with rfl | older
      · intro isLock
        exact Nat.ne_of_gt (covered.1 l isLock) enabled
      · exact ih covered.2 (by omega) other older

/-- A context that takes locks only with preemption disabled, and none that it has. -/
structure Context.Alone (kind : L → BaseGuard) (below : Nat) (c : Context L) : Prop where
  covered : Covered kind below c.guards
  preempts : ∀ call l, c.pc.call = some call → call.region = .lock l
    → 0 < (kind l).preempts + (c.guards.map (Guard.preempts kind)).sum + below
  once : ∀ call l, c.pc.call = some call → call.region = .lock l
    → ∀ guard ∈ c.guards, guard.region ≠ .lock l

namespace Context.Alone

variable {below : Nat} {guards : List (Guard L)} {c : Context L}

theorem running (covered : Covered kind below guards)
    : (⟨.running, guards⟩ : Context L).Alone kind below where
  covered := covered
  preempts call l none := by cases none
  once call l none := by cases none

theorem grant (alone : c.Alone kind below) {call : Call L} (guard : Guard L)
    (isCall : c.pc.call = some call) (region : call.region = guard.region)
    : (⟨.running, guard :: c.guards⟩ : Context L).Alone kind below := by
  refine running ⟨fun l isLock => ?_, alone.covered⟩
  have positive := alone.preempts call l isCall (region.trans isLock)
  rw [Guard.preempts, isLock]
  exact positive

theorem move (alone : c.Alone kind below) {pc : At L}
    (sameCall : pc.call = none ∨ pc.call = c.pc.call)
    : (⟨pc, c.guards⟩ : Context L).Alone kind below where
  covered := alone.covered
  preempts call l isCall := by
    rcases sameCall with none | same
    · rw [none] at isCall
      cases isCall
    · exact alone.preempts call l (same ▸ isCall)
  once call l isCall := by
    rcases sameCall with none | same
    · rw [none] at isCall
      cases isCall
    · exact alone.once call l (same ▸ isCall)

end Context.Alone

namespace Thread

variable {th th' : Thread L} {label : Label L} {r : Rules L} {base : BitVec 64}

/-- How often preemption is disabled by tries that were refused. -/
def preemptsRefused (kind : L → BaseGuard) (th : Thread L) : Nat :=
  (th.refused.map (Guard.preempts kind)).sum

/-- The contexts of a thread take locks only with preemption disabled. -/
structure Alone (kind : L → BaseGuard) (th : Thread L) : Prop where
  current : th.current.Alone kind
    ((th.interrupted.map fun frame => frame.2.preempts kind).sum + th.preemptsRefused kind)
  interrupted : ∀ frame ∈ th.interrupted, frame.2.Alone kind (th.preemptsRefused kind)

/-- A step by stricter rules. -/
theorem Step.weaken {d d' : Discipline L} (stepped : th.Step kind d label th')
    (calls : ∀ th call, d.mayCall th call → d'.mayCall th call)
    (keeps : ∀ guards, d.mayKeep guards → d'.mayKeep guards)
    : th.Step kind d' label th' := by
  cases stepped with
  | calls call idle may => exact .calls call idle (calls _ _ may)
  | acquires pc => exact .acquires pc
  | exchanges pc => exact .exchanges pc
  | contends pc => exact .contends pc
  | looks locked pc => exact .looks locked pc
  | tries pc => exact .tries pc
  | refuses pc => exact .refuses pc
  | enters pc => exact .enters pc
  | drops idle has may => exact .drops idle has (keeps _ may)
  | releases pc => exact .releases pc
  | released pc => exact .released pc
  | interrupted enabled => exact .interrupted enabled
  | returns done frames => exact .returns done frames

theorem Step.orderly (stepped : th.Step kind (r.alone kind) label th')
    : th.Step kind (r.orderly kind) label th' :=
  stepped.weaken (fun _ _ may => may.1) fun _ keeps => keeps

theorem Alone.step (alone : th.Alone kind) (sound : th.Sound kind base)
    (stepped : th.Step kind (r.alone kind) label th') (certain : label.Certain)
    : th'.Alone kind := by
  obtain ⟨current, interrupted⟩ := alone
  cases stepped with
  | calls call idle may =>
      refine ⟨⟨current.covered, fun call' l isCall isLock => ?_, fun call' l isCall isLock => ?_⟩,
        interrupted⟩
      · cases isCall
        rcases (may.2 l isLock).1 with disables | disabled
        · exact Nat.lt_of_lt_of_le disables ((Nat.le_add_right ..).trans (Nat.le_add_right ..))
        · rw [sound.counted, Thread.preempts, Context.preempts, idle] at disabled
          simp only [At.preempts, Nat.zero_add] at disabled
          simp only [goTo, preemptsRefused]
          omega
      · cases isCall
        exact (may.2 l isLock).2
  | acquires pc => exact ⟨current.move (.inr (by rw [pc]; rfl)), interrupted⟩
  | @exchanges l irqState pc | @tries l irqState pc =>
      exact ⟨current.grant ⟨.lock l, irqState⟩ (by rw [pc]; rfl) rfl, interrupted⟩
  | @enters g irqState pc =>
      exact ⟨current.grant ⟨.guard g, irqState⟩ (by rw [pc]; rfl) rfl, interrupted⟩
  | contends | looks | refuses => exact certain.elim
  | @drops before after guard idle has may =>
      cases (may : before = [])
      have covered := current.covered
      rw [has] at covered
      exact ⟨(Context.Alone.running covered.2).move (.inl rfl), interrupted⟩
  | releases pc => exact ⟨current.move (.inl rfl), interrupted⟩
  | released pc => exact ⟨current.move (.inl rfl), interrupted⟩
  | interrupted enabled =>
      have frames : th.interrupted = [] := by
        cases frames : th.interrupted with
        | nil => rfl
        | cons frame rest =>
            have disabled := (sound.disabled_of_interrupted frames).1
            exact absurd (enabled.symm.trans disabled) (by decide)
      refine ⟨.running trivial, fun frame member => ?_⟩
      rw [interrupt, frames] at member
      cases List.mem_singleton.mp member
      rw [frames, List.map_nil, List.sum_nil, Nat.zero_add] at current
      exact current
  | @returns sstatus context older done frames =>
      obtain ⟨-, -, rfl⟩ := sound.disabled_of_interrupted frames
      rw [frames] at interrupted
      have top := interrupted _ (List.mem_cons_self ..)
      rw [← Nat.zero_add (th.preemptsRefused kind)] at top
      exact ⟨top, fun _ none => absurd none List.not_mem_nil⟩

/-- With preemption enabled a thread has no lock. -/
theorem Alone.not_held (alone : th.Alone kind) (enabled : th.preempts kind = 0) (l : L)
    : l ∉ th.heldLocks := by
  have frames : ∀ frame ∈ th.interrupted, frame.2.preempts kind = 0 := by
    intro frame member
    rw [Thread.preempts] at enabled
    have none : (th.interrupted.map fun frame => frame.2.preempts kind).sum = 0 := by omega
    exact List.sum_eq_zero_iff_forall_eq_nat.mp none _ (List.mem_map_of_mem member)
  intro holds
  rcases mem_heldLocks.mp holds with
    ⟨guard, member, isLock⟩ | ⟨frame, isFrame, guard, member, isLock⟩
  · refine alone.current.covered.not_lock ?_ l guard member isLock
    simp only [Thread.preempts, Context.preempts, preemptsRefused] at enabled ⊢
    omega
  · refine (alone.interrupted frame isFrame).covered.not_lock ?_ l guard member isLock
    have none := frames frame isFrame
    simp only [Thread.preempts, Context.preempts, preemptsRefused] at enabled none ⊢
    omega

/-- A thread that takes a lock does not have it yet, neither in the context that calls nor in one
that is interrupted.
-/
theorem Alone.takes (alone : th.Alone kind) (orderly : th.Orderly r kind)
    (sound : th.Sound kind base) {d : Discipline L} {l : L}
    (stepped : th.Step kind d (.takes l) th')
    : l ∉ th.heldLocks := by
  have isCall : ∃ call, th.current.pc.call = some call ∧ call.region = .lock l := by
    generalize takes : Label.takes l = label at stepped
    cases stepped with
    | exchanges pc | tries pc =>
        cases takes
        rw [pc]
        exact ⟨_, rfl, rfl⟩
    | @drops before after guard idle has may =>
        cases region : guard.region <;> rw [region] at takes <;> cases takes
    | _ => cases takes
  obtain ⟨call, calls, region⟩ := isCall
  intro holds
  rcases mem_heldLocks.mp holds with
    ⟨guard, member, isLock⟩ | ⟨frame, isFrame, guard, member, isLock⟩
  · exact alone.current.once call l calls region guard member isLock
  · have isShared := orderly.handler (List.ne_nil_of_mem isFrame) call l calls region
    exact (orderly.uninterrupted sound).unmasked frame isFrame guard member
      (.inr ⟨l, isLock, isShared⟩)

end Thread

-----------------------------------------------------------------------------------------
-- Whole runs
-----------------------------------------------------------------------------------------

section Words

variable [DecidableEq L]

/-- The words follow the locks that a thread has, if it takes no lock that it has already. -/
theorem Label.apply_words {label : Label L} {before after : L → Nat} (certain : label.Certain)
    (holds : ∀ l, after l + label.freed l = before l + label.taken l)
    (once : ∀ l, before l ≤ 1) (takes : ∀ l, label = .takes l → before l = 0)
    : label.apply (fun l => decide (0 < before l)) = some fun l => decide (0 < after l) := by
  cases label with
  | silent =>
      refine congrArg some (funext fun l => ?_)
      rw [show after l = before l from holds l]
  | takes l =>
      rw [Label.apply, takes l rfl, if_neg (by simp)]
      refine congrArg some (funext fun l' => ?_)
      have holds := holds l'
      simp only [Label.freed, Label.taken] at holds
      by_cases same : l = l'
      · subst same
        rw [Function.update_self, eq_comm, decide_eq_true_eq]
        rw [if_pos rfl] at holds
        omega
      · rw [if_neg same] at holds
        rw [Function.update_of_ne (Ne.symm same), show after l' = before l' from holds]
  | frees l =>
      refine congrArg some (funext fun l' => ?_)
      have holds := holds l'
      simp only [Label.freed, Label.taken] at holds
      by_cases same : l = l'
      · subst same
        have once := once l
        rw [Function.update_self, eq_comm, decide_eq_false_iff_not]
        rw [if_pos rfl] at holds
        omega
      · rw [if_neg same] at holds
        rw [Function.update_of_ne (Ne.symm same), show after l' = before l' from holds]
  | fails | sees => exact certain.elim

end Words

namespace Core

variable [DecidableEq L] {T : Type} [DecidableEq T] {c c' : Core T L} {base : T → BitVec 64}
  {r : Rules L}

/-- The locks as the words would have it: those of the running thread. -/
def words (c : Core T L) (l : L) : Bool :=
  decide (0 < (c.threads c.running).holds l)

/-- The run is one of the build with words, and only the running thread has locks. -/
structure Simulated (r : Rules L) (kind : L → BaseGuard) (base : T → BitVec 64) (c : Core T L)
    : Prop where
  reachable : Machine.Reachable kind (r.orderly kind) base ⟨c.words, c.threads⟩
  alone : ∀ t, (c.threads t).Alone kind
  others : ∀ t, t ≠ c.running → (c.threads t).preempts kind = 0

theorem Simulated.holds_eq_zero (simulated : c.Simulated r kind base) {t : T}
    (enabled : (c.threads t).preempts kind = 0) (l : L)
    : (c.threads t).holds l = 0 := by
  by_contra holds
  exact (simulated.alone t).not_held enabled l
    (Thread.holds_pos_iff.mp (Nat.pos_of_ne_zero holds))

/-- Every step is one of the build with words. -/
theorem Simulated.step (simulated : c.Simulated r kind base)
    (stepped : Step kind (r.alone kind) c c')
    : c'.Simulated r kind base := by
  obtain ⟨exclusive, threads⟩ := Machine.orderly_reachable simulated.reachable
  cases stepped with
  | @acts label th stepped certain =>
      obtain ⟨sound, orderly⟩ := threads c.running
      have alone := simulated.alone c.running
      have applied := Label.apply_words certain (fun l => stepped.holds l)
        (fun l => (exclusive l).le_one c.running) fun l takes =>
          Nat.eq_zero_of_not_pos fun positive => alone.takes orderly sound (takes ▸ stepped)
            (Thread.holds_pos_iff.mp positive)
      have now : words ⟨c.running, Function.update c.threads c.running th⟩
          = fun l => decide (0 < th.holds l) := by
        funext l
        simp only [words, Function.update_self]
      exact {
        reachable := now ▸ simulated.reachable.acts c.running stepped.orderly applied
        alone := (Function.forall_update_iff c.threads fun _ th => th.Alone kind).mpr
          ⟨alone.step sound stepped certain, fun t _ => simulated.alone t⟩
        others := fun t other => by
          simp only [Function.update_of_ne other]
          exact simulated.others t other
      }
  | switches t enabled =>
      rw [(threads c.running).1.counted] at enabled
      have all (t : T) : (c.threads t).preempts kind = 0 := by
        by_cases isRunning : t = c.running
        · exact isRunning ▸ enabled
        · exact simulated.others t isRunning
      have same : words ⟨t, c.threads⟩ = c.words := by
        funext l
        simp only [words, simulated.holds_eq_zero (all _)]
      exact ⟨same ▸ simulated.reachable, simulated.alone, fun t _ => all t⟩

theorem simulated_reachable (reachable : c.Reachable kind (r.alone kind) base)
    : c.Simulated r kind base := by
  refine Transition.Reachable.invariant (Simulated r kind base) (fun c started => ?_)
    (fun _ _ simulated stepped => simulated.step stepped) reachable
  obtain ⟨running, threads⟩ := c
  cases (started : threads = _)
  exact {
    reachable := .start rfl
    alone := fun t => ⟨.running trivial, fun _ none => absurd none List.not_mem_nil⟩
    others := fun t other => rfl
  }

/-- Without words, a lock has at most one guard, and a thread that runs neither waits nor takes a
lock that any thread has: the build with words does the same, and each exchange succeeds.
-/
theorem single_core_agrees (reachable : c.Reachable kind (r.alone kind) base)
    : Machine.Reachable kind (r.orderly kind) base ⟨c.words, c.threads⟩
      ∧ (∀ l, Exclusive (c.words l) fun t => (c.threads t).holds l)
      ∧ (∀ l th, (c.threads c.running).Step kind (r.alone kind) (.takes l) th
        → ∀ t, (c.threads t).holds l = 0)
      ∧ ∀ t, t ≠ c.running → (c.threads t).cpu.preemptDisableCount = 0 := by
  have simulated := simulated_reachable reachable
  obtain ⟨exclusive, threads⟩ := Machine.orderly_reachable simulated.reachable
  refine ⟨simulated.reachable, exclusive, fun l th stepped t => ?_, fun t other => ?_⟩
  · by_cases isRunning : t = c.running
    · subst isRunning
      have free := (simulated.alone _).takes (threads _).2 (threads _).1 stepped
      exact Nat.eq_zero_of_not_pos fun positive => free (Thread.holds_pos_iff.mp positive)
    · exact simulated.holds_eq_zero (simulated.others t isRunning) l
  · exact (threads t).1.counted.trans (simulated.others t other)

omit [DecidableEq L] in
theorem Reachable.acts {d : Discipline L} (reachable : c.Reachable kind d base)
    {label : Label L} {th : Thread L} (stepped : (c.threads c.running).Step kind d label th)
    (certain : label.Certain)
    : Core.Reachable kind d base ⟨c.running, Function.update c.threads c.running th⟩ :=
  Transition.Reachable.next reachable (.acts stepped certain)

/-- Handlers may use all locks. -/
def allShared : Rules Unit :=
  ⟨fun _ => 0, fun _ => True, fun _ _ notShared => absurd trivial notShared⟩

/-- A thread takes the lock and drops its guard, and after a switch another thread takes it. -/
theorem single_core_agrees_switched
    : ∃ c : Core Bool Unit, c.running = true ∧ c.words () = true
      ∧ Machine.Reachable (fun _ => .noPreemptIrqSave)
        (allShared.orderly fun _ => .noPreemptIrqSave) (fun _ => SIE_BIT) ⟨c.words, c.threads⟩ := by
  have start : Core.Reachable (fun _ => .noPreemptIrqSave)
      (allShared.alone fun _ => .noPreemptIrqSave) (fun _ : Bool => SIE_BIT)
      ⟨false, fun _ => Machine.fresh SIE_BIT⟩ :=
    .start rfl
  have may {th : Thread Unit} (none : th.current.guards = []) (call : Call Unit)
      : (allShared.alone fun _ => .noPreemptIrqSave).mayCall th call :=
    ⟨fun l isLock => ⟨fun _ => .inl rfl, fun _ => trivial, fun _ guard member =>
        absurd (none ▸ member) List.not_mem_nil⟩,
      fun l isLock => ⟨.inl Nat.one_pos, fun guard member =>
        absurd (none ▸ member) List.not_mem_nil⟩⟩
  have locked := (((start.acts (.calls (.lock ()) rfl (may rfl _)) trivial).acts
    (.acquires rfl) trivial).acts (.acquires rfl) trivial).acts (.exchanges rfl) trivial
  have dropped := (((locked.acts (@Thread.Step.drops _ _ _ _ [] _ _ rfl rfl rfl) trivial).acts
    (.releases rfl) trivial).acts (.releases rfl) trivial).acts (.released rfl) trivial
  have switched : Core.Reachable _ _ _ _ :=
    Transition.Reachable.next dropped (.switches true rfl)
  have again := (((switched.acts (.calls (.lock ()) rfl (may rfl _)) trivial).acts
    (.acquires rfl) trivial).acts (.acquires rfl) trivial).acts (.exchanges rfl) trivial
  exact ⟨_, rfl, rfl, (single_core_agrees again).1⟩

end Core

end RCoreOS.Spinlock
