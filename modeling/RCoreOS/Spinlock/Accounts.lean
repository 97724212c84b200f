import RCoreOS.Spinlock.Base

/-! What the locks and guards account for over whole runs: who has each lock, how often preemption
is disabled, and where the state of the IRQs is saved.
-/

namespace RCoreOS.Spinlock

open KernelGuard

variable {L : Type} {kind : L → BaseGuard} {d : Discipline L}

-----------------------------------------------------------------------------------------
-- One step
-----------------------------------------------------------------------------------------

/-- What a step does to what a thread has taken. -/
inductive Effect (kind : L → BaseGuard) (th th' : Thread L) : Prop
  | keeps (cpu : th'.cpu = th.cpu) (preempts : th'.preempts kind = th.preempts kind)
    (saved : (th'.saved kind).Perm (th.saved kind)) (frames : th'.interrupted = th.interrupted)
  | disables
    (cpu : th'.cpu = { th.cpu with preemptDisableCount := th.cpu.preemptDisableCount + 1 })
    (preempts : th'.preempts kind = th.preempts kind + 1)
    (saved : th'.saved kind = th.saved kind) (frames : th'.interrupted = th.interrupted)
  | enables
    (cpu : th'.cpu = { th.cpu with preemptDisableCount := th.cpu.preemptDisableCount - 1 })
    (preempts : th'.preempts kind + 1 = th.preempts kind)
    (saved : th'.saved kind = th.saved kind) (frames : th'.interrupted = th.interrupted)
  | saves
    (cpu : th'.cpu = { th.cpu with sstatus := (localIrqSaveAndDisable th.cpu.sstatus).2 })
    (preempts : th'.preempts kind = th.preempts kind)
    (saved : th'.saved kind = (localIrqSaveAndDisable th.cpu.sstatus).1 :: th.saved kind)
    (frames : th'.interrupted = th.interrupted)
  | restores {flags : BitVec 64}
    (cpu : th'.cpu = { th.cpu with sstatus := localIrqRestore flags th.cpu.sstatus })
    (preempts : th'.preempts kind = th.preempts kind)
    (saved : th.saved kind = flags :: th'.saved kind) (frames : th'.interrupted = th.interrupted)
  | interrupts (enabled : irqsEnabled th.cpu.sstatus = true) (handler : th' = th.interrupt)
  | returns {sstatus : BitVec 64} {context : Context L}
    {interrupted : List (BitVec 64 × Context L)} (done : th.current = ⟨.running, []⟩)
    (frames : th.interrupted = (sstatus, context) :: interrupted)
    (back : th' = th.sret sstatus context interrupted)

namespace Thread

variable {th th' : Thread L} {label : Label L}

theorem preempts_goTo (pc : At L)
    : (th.goTo pc).preempts kind = pc.preempts kind + (th.goTo .running).preempts kind := by
  simp [preempts, goTo, Context.preempts, At.preempts, Nat.add_assoc]

theorem saved_goTo (pc : At L)
    : (th.goTo pc).saved kind = pc.saved kind ++ (th.goTo .running).saved kind := by
  simp [saved, goTo, Context.saved, At.saved]

theorem preempts_eq
    : th.preempts kind = th.current.pc.preempts kind + (th.goTo .running).preempts kind :=
  @preempts_goTo _ _ th th.current.pc

theorem saved_eq
    : th.saved kind = th.current.pc.saved kind ++ (th.goTo .running).saved kind :=
  @saved_goTo _ _ th th.current.pc

theorem preempts_grant (guard : Guard L)
    : (th.grant guard).preempts kind = guard.preempts kind + (th.goTo .running).preempts kind := by
  simp [preempts, grant, goTo, Context.preempts, At.preempts, Nat.add_assoc]

theorem saved_grant (guard : Guard L)
    : (th.grant guard).saved kind = guard.saved kind ++ (th.goTo .running).saved kind := by
  simp [saved, grant, goTo, Context.saved, At.saved]

theorem preempts_refuse (guard : Guard L)
    : (th.refuse guard).preempts kind
      = guard.preempts kind + (th.goTo .running).preempts kind := by
  simp only [preempts, refuse, goTo, Context.preempts, List.map_cons, List.sum_cons]
  omega

theorem saved_refuse (guard : Guard L)
    : ((th.refuse guard).saved kind).Perm
      (guard.saved kind ++ (th.goTo .running).saved kind) := by
  simp only [saved, refuse, goTo, List.flatMap_cons]
  exact List.perm_append_comm_assoc ..

theorem preempts_drop {before after : List (Guard L)} {guard : Guard L} {irqState : BitVec 64}
    {g : BaseGuard} (has : th.current.guards = before ++ guard :: after)
    (same : g.preempts = guard.preempts kind)
    : (th.drop (before ++ after) (g.release irqState)).preempts kind
      = (th.goTo .running).preempts kind := by
  simp only [preempts, drop, goTo, Context.preempts, At.preempts, has, List.map_append,
    List.map_cons, List.sum_append, List.sum_cons, (g.release_returns irqState).1, same]
  omega

theorem saved_drop {before after : List (Guard L)} {guard : Guard L} {irqState : BitVec 64}
    {g : BaseGuard} (has : th.current.guards = before ++ guard :: after)
    (same : g.savedSoFar [] irqState = guard.saved kind)
    : ((th.drop (before ++ after) (g.release irqState)).saved kind).Perm
      ((th.goTo .running).saved kind) := by
  simp only [saved, drop, goTo, Context.saved, At.saved, has, List.flatMap_append,
    List.flatMap_cons, (g.release_returns irqState).2, same, List.append_assoc, List.nil_append]
  exact List.perm_append_comm_assoc ..

theorem preempts_interrupt : th.interrupt.preempts kind = th.preempts kind := by
  simp [preempts, interrupt]

theorem saved_interrupt : th.interrupt.saved kind = th.saved kind := by
  simp [saved, interrupt]

section Sret

variable {sstatus : BitVec 64} {context : Context L} {interrupted : List (BitVec 64 × Context L)}

theorem preempts_sret (done : th.current = ⟨.running, []⟩)
    (frames : th.interrupted = (sstatus, context) :: interrupted)
    : (th.sret sstatus context interrupted).preempts kind = th.preempts kind := by
  simp [preempts, sret, done, frames]

theorem saved_sret (done : th.current = ⟨.running, []⟩)
    (frames : th.interrupted = (sstatus, context) :: interrupted)
    : (th.sret sstatus context interrupted).saved kind = th.saved kind := by
  simp [saved, sret, done, frames]

end Sret

/-- Every step keeps what a thread has taken, or it takes or gives back one thing, by cases on the
step.
-/
theorem Step.effect (stepped : th.Step kind d label th')
    (wellFormed : th.current.pc.WellFormed kind)
    : Effect kind th th' := by
  have preempts : th.preempts kind = _ := preempts_eq
  have saved : th.saved kind = _ := saved_eq
  cases stepped with
  | calls call idle may =>
      obtain ⟨none, nothing⟩ := (call.region.guardOf kind).notYet 0
      rw [idle] at preempts saved
      refine .keeps rfl ?_ (.of_eq ?_) rfl
      · rw [preempts_goTo, preempts]
        exact congrArg (· + _) none
      · rw [saved_goTo, saved]
        exact congrArg (· ++ _) nothing
  | @acquires call op todo irqState pc =>
      rw [pc] at preempts saved wellFormed
      rcases BaseGuard.acquire_cases wellFormed with
        ⟨rfl, none, once, nothing⟩ | ⟨rfl, same, states⟩
      · refine .disables rfl ?_ ?_ rfl
        · have before : th.preempts kind = (th.goTo .running).preempts kind :=
            preempts.trans ((congrArg (· + _) none).trans (Nat.zero_add _))
          rw [preempts_goTo, before, Nat.add_comm]
          exact congrArg (_ + ·) once
        · rw [saved_goTo, saved]
          exact congrArg (· ++ _) ((nothing 0 _).2.trans (nothing irqState 0).1.symm)
      · refine .saves rfl ?_ ?_ rfl
        · rw [preempts_goTo, preempts]
          exact congrArg (· + _) same.symm
        · rw [saved_goTo, saved]
          exact (congrArg (· ++ _) (states 0 _).2).trans
            (congrArg (_ :: · ++ _) (states irqState 0).1.symm)
  | exchanges pc | contends pc | tries pc | enters pc =>
      rw [pc] at preempts saved
      first
        | exact .keeps rfl (preempts ▸ preempts_grant _) (.of_eq (saved ▸ saved_grant _)) rfl
        | exact .keeps rfl (preempts ▸ preempts_goTo _) (.of_eq (saved ▸ saved_goTo _)) rfl
  | looks locked pc =>
      rw [pc] at preempts saved
      cases locked <;>
        exact .keeps rfl (preempts ▸ preempts_goTo _) (.of_eq (saved ▸ saved_goTo _)) rfl
  | refuses pc =>
      rw [pc] at preempts saved
      exact .keeps rfl (preempts ▸ preempts_refuse _) (saved ▸ saved_refuse _) rfl
  | drops idle has may =>
      rw [idle] at preempts saved
      refine .keeps rfl ?_ ?_ rfl
      · rw [preempts, preempts_drop has rfl]
        exact (Nat.zero_add _).symm
      · rw [saved]
        exact saved_drop has rfl
  | releases pc =>
      rw [pc] at preempts saved wellFormed
      obtain ⟨g, irqState, suffix⟩ := wellFormed
      obtain ⟨-, rfl | rfl⟩ := BaseGuard.release_cases suffix
      · refine .restores rfl (preempts ▸ preempts_goTo _) ?_ rfl
        rw [saved_goTo, saved]
        rfl
      · refine .enables rfl ?_ (saved ▸ saved_goTo _) rfl
        rw [preempts_goTo, preempts, At.preempts, At.preempts, List.count_cons_self]
        exact Nat.add_right_comm _ _ _
  | released pc =>
      rw [pc] at preempts saved
      exact .keeps rfl (preempts ▸ preempts_goTo _) (.of_eq (saved ▸ saved_goTo _)) rfl
  | interrupted enabled => exact .interrupts enabled rfl
  | returns done frames => exact .returns done frames rfl

/-- Every context of a thread is in a suffix of the code of its guard. -/
def WellFormed (kind : L → BaseGuard) (th : Thread L) : Prop :=
  th.current.pc.WellFormed kind ∧ ∀ frame ∈ th.interrupted, frame.2.pc.WellFormed kind

theorem Step.wellFormed (stepped : th.Step kind d label th')
    (wellFormed : th.WellFormed kind)
    : th'.WellFormed kind := by
  obtain ⟨current, below⟩ := wellFormed
  cases stepped with
  | calls call idle may => exact ⟨List.suffix_rfl, below⟩
  | acquires pc =>
      rw [pc] at current
      exact ⟨(List.suffix_cons _ _).trans current, below⟩
  | contends pc => exact ⟨trivial, below⟩
  | looks locked pc =>
      cases locked
      · exact ⟨List.nil_suffix, below⟩
      · exact ⟨trivial, below⟩
  | exchanges pc | tries pc | refuses pc | enters pc | released pc => exact ⟨trivial, below⟩
  | drops idle has may => exact ⟨⟨_, _, List.suffix_rfl⟩, below⟩
  | releases pc =>
      rw [pc] at current
      obtain ⟨g, irqState, suffix⟩ := current
      exact ⟨⟨g, irqState, (List.suffix_cons _ _).trans suffix⟩, below⟩
  | interrupted enabled =>
      refine ⟨trivial, fun frame member => ?_⟩
      rcases List.mem_cons.mp member with rfl | older
      · exact current
      · exact below frame older
  | returns done frames =>
      rw [frames] at below
      exact ⟨below _ (List.mem_cons_self ..), fun frame older =>
        below frame (List.mem_cons_of_mem _ older)⟩

-----------------------------------------------------------------------------------------
-- Whole runs
-----------------------------------------------------------------------------------------

/-- The counter of the thread and the state of its IRQs are what its sections account for, where
`base` is the status with which it has begun.
-/
structure Sound (kind : L → BaseGuard) (base : BitVec 64) (th : Thread L) : Prop where
  wellFormed : th.WellFormed kind
  counted : th.cpu.preemptDisableCount = th.preempts kind
  conserved : th.tokens kind = (irqsEnabled base).toNat
  flags : ∀ flags ∈ th.saved kind, SameElse flags 0
  status : SameElse th.cpu.sstatus base
  trapped : ∀ frame ∈ th.interrupted, irqsEnabled frame.1 = true ∧ SameElse frame.1 base

variable {base : BitVec 64}

/-- The IRQs are disabled in a handler, since its trap frame has them enabled. -/
theorem Sound.disabled_of_interrupted (sound : th.Sound kind base)
    {frame : BitVec 64 × Context L} {interrupted : List (BitVec 64 × Context L)}
    (frames : th.interrupted = frame :: interrupted)
    : irqsEnabled th.cpu.sstatus = false ∧ (th.saved kind).countP irqsEnabled = 0
      ∧ interrupted = [] := by
  have total := sound.conserved
  have most := Bool.toNat_le (irqsEnabled base)
  have trapped := sound.trapped
  rw [frames] at trapped
  simp only [tokens, frames, List.countP_cons, (trapped frame (List.mem_cons_self ..)).1, if_true]
    at total
  refine ⟨Bool.toNat_eq_zero.mp (by omega), by omega, ?_⟩
  cases interrupted with
  | nil => rfl
  | cons older rest =>
      have olderTrapped := (trapped older (List.mem_cons_of_mem _ (List.mem_cons_self ..))).1
      simp only [List.countP_cons, olderTrapped, if_true] at total
      omega

/-- Every step keeps the accounts, by cases on what it takes or gives back. -/
theorem Sound.step (sound : th.Sound kind base) (stepped : th.Step kind d label th')
    : th'.Sound kind base := by
  have wellFormed := stepped.wellFormed sound.wellFormed
  have total := sound.conserved
  rw [tokens] at total
  cases stepped.effect sound.wellFormed.1 with
  | keeps cpu preempts saved frames =>
      exact {
        wellFormed
        counted := by rw [cpu, preempts, sound.counted]
        conserved := by rw [tokens, cpu, frames, saved.countP_eq, total]
        flags := fun flags member => sound.flags flags (saved.mem_iff.mp member)
        status := cpu ▸ sound.status
        trapped := frames ▸ sound.trapped
      }
  | disables cpu preempts saved frames =>
      exact {
        wellFormed
        counted := by rw [cpu, preempts, sound.counted]
        conserved := by rw [tokens, cpu, frames, saved, total]
        flags := saved ▸ sound.flags
        status := cpu ▸ sound.status
        trapped := frames ▸ sound.trapped
      }
  | enables cpu preempts saved frames =>
      exact {
        wellFormed
        counted := by
          rw [cpu, sound.counted, ← preempts]
          rfl
        conserved := by rw [tokens, cpu, frames, saved, total]
        flags := saved ▸ sound.flags
        status := cpu ▸ sound.status
        trapped := frames ▸ sound.trapped
      }
  | saves cpu preempts saved frames =>
      exact {
        wellFormed
        counted := by rw [cpu, preempts, sound.counted]
        conserved := by
          rw [tokens, cpu, frames, saved, List.countP_cons, irqsEnabled_disabled,
            irqsEnabled_saved, ← total]
          cases irqsEnabled th.cpu.sstatus <;> simp [Nat.add_comm]
        flags := by
          intro flags member
          rw [saved] at member
          rcases List.mem_cons.mp member with rfl | older
          · exact sameElse_saved _
          · exact sound.flags flags older
        status := cpu ▸ sameElse_disabled sound.status
        trapped := frames ▸ sound.trapped
      }
  | @restores flags cpu preempts saved frames =>
      have mine : SameElse flags 0 := sound.flags flags (saved ▸ List.mem_cons_self ..)
      have most := Bool.toNat_le (irqsEnabled base)
      rw [saved, List.countP_cons] at total
      exact {
        wellFormed
        counted := by rw [cpu, preempts, sound.counted]
        conserved := by
          rw [tokens, cpu, frames, irqsEnabled_restore]
          cases enabled : irqsEnabled th.cpu.sstatus <;> cases restored : irqsEnabled flags
          all_goals
            simp only [enabled, restored, Bool.toNat_true, Bool.toNat_false, if_true,
              Bool.false_eq_true, if_false, Bool.or_true, Bool.or_false] at total ⊢
            omega
        flags := fun flags member =>
          sound.flags flags (saved ▸ List.mem_cons_of_mem _ member)
        status := cpu ▸ sameElse_restore mine sound.status
        trapped := frames ▸ sound.trapped
      }
  | interrupts enabled handler =>
      subst handler
      exact {
        wellFormed
        counted := sound.counted.trans preempts_interrupt.symm
        conserved := by
          rw [← total, tokens, saved_interrupt]
          simp only [interrupt, irqsEnabled_disabled, enabled, List.countP_cons, if_true,
            Bool.toNat_true, Bool.toNat_false]
          omega
        flags := fun flags member => sound.flags flags (saved_interrupt ▸ member)
        status := sameElse_disabled sound.status
        trapped := by
          intro frame member
          rcases List.mem_cons.mp member with rfl | older
          · exact ⟨enabled, sound.status⟩
          · exact sound.trapped frame older
      }
  | @returns sstatus context interrupted done frames back =>
      subst back
      have disabled := sound.disabled_of_interrupted frames
      have trapped := sound.trapped
      rw [frames] at trapped
      obtain ⟨enabled, same⟩ := trapped _ (List.mem_cons_self ..)
      exact {
        wellFormed
        counted := sound.counted.trans (preempts_sret done frames).symm
        conserved := by
          rw [← total, tokens, saved_sret done frames]
          simp only [sret, frames, disabled.1, enabled, List.countP_cons, if_true,
            Bool.toNat_true, Bool.toNat_false]
          omega
        flags := fun flags member => sound.flags flags (saved_sret done frames ▸ member)
        status := same
        trapped := fun frame older => trapped frame (List.mem_cons_of_mem _ older)
      }

theorem Sound.fresh (base : BitVec 64) : (Machine.fresh base : Thread L).Sound kind base where
  wellFormed := ⟨trivial, fun _ none => absurd none (List.not_mem_nil)⟩
  counted := rfl
  conserved := rfl
  flags := fun _ none => absurd none (List.not_mem_nil)
  status := fun _ _ => rfl
  trapped := fun _ none => absurd none (List.not_mem_nil)

/-- What a thread can tell from its counter and its status. A thread that has left all sections, and
whose tries have not been refused, has the status that it has begun with; and a handler is never
interrupted.
-/
structure Accounted (kind : L → BaseGuard) (base : BitVec 64) (th : Thread L) : Prop where
  counted : th.cpu.preemptDisableCount = th.preempts kind
  conserved : th.tokens kind = (irqsEnabled base).toNat
  rested : th.current = ⟨.running, []⟩ → th.interrupted = [] → th.refused = []
    → th.cpu = ⟨base, 0⟩
  handler : ∀ frame ∈ th.interrupted,
    th.interrupted = [frame] ∧ irqsEnabled th.cpu.sstatus = false

theorem Sound.accounted (sound : th.Sound kind base) : th.Accounted kind base where
  counted := sound.counted
  conserved := sound.conserved
  rested := by
    intro idle back never
    have total := sound.conserved
    have count := sound.counted
    simp only [tokens, saved, preempts, idle, back, never, Context.saved_idle,
      Context.preempts_idle, List.flatMap_nil, List.append_nil, List.countP_nil, List.map_nil,
      List.sum_nil, Nat.add_zero] at total count
    have enabled : irqsEnabled th.cpu.sstatus = irqsEnabled base := by
      revert total
      cases irqsEnabled th.cpu.sstatus <;> cases irqsEnabled base <;> simp
    rw [← sound.status.eq enabled, ← count]
  handler := by
    intro frame member
    cases frames : th.interrupted with
    | nil => exact absurd (frames ▸ member) List.not_mem_nil
    | cons last rest =>
        obtain ⟨disabled, -, rfl⟩ := sound.disabled_of_interrupted frames
        rw [frames] at member
        exact ⟨congrArg ([·]) (List.mem_singleton.mp member).symm, disabled⟩

end Thread

-----------------------------------------------------------------------------------------
-- The words of the locks
-----------------------------------------------------------------------------------------

section Words

variable [DecidableEq L] {T : Type} [DecidableEq T]

/-- How many guards of a lock a step makes, and how many it ends. -/
def Label.taken (l : L) : Label L → Nat
  | .takes l' => if l' = l then 1 else 0
  | _ => 0

def Label.freed (l : L) : Label L → Nat
  | .frees l' => if l' = l then 1 else 0
  | _ => 0

namespace Thread

variable {th th' : Thread L} {label : Label L}

theorem holds_grant (guard : Guard L) (l : L)
    : (th.grant guard).holds l = th.holds l + if guard.region = .lock l then 1 else 0 := by
  simp only [holds, grant, Context.holds, List.countP_cons, decide_eq_true_eq]
  exact Nat.add_right_comm ..

theorem holds_drop {before after : List (Guard L)} {guard : Guard L}
    (has : th.current.guards = before ++ guard :: after) (todo : List Op) (l : L)
    : (th.drop (before ++ after) todo).holds l + (if guard.region = .lock l then 1 else 0)
      = th.holds l := by
  simp only [holds, drop, Context.holds, has, List.countP_append, List.countP_cons,
    decide_eq_true_eq]
  omega

/-- A thread gets a guard of a lock exactly when it takes the word, by cases on the step. -/
theorem Step.holds (stepped : th.Step kind d label th') (l : L)
    : th'.holds l + label.freed l = th.holds l + label.taken l := by
  cases stepped with
  | exchanges pc | tries pc => simp [holds_grant, Label.freed, Label.taken]
  | enters pc => simp [holds_grant, Label.freed, Label.taken]
  | @drops before after guard idle has may =>
      rw [← holds_drop has ((guard.region.guardOf kind).release guard.irqState) l]
      cases guard.region <;> simp [Region.freed, Label.freed, Label.taken]
  | interrupted enabled => simp [Thread.holds, interrupt, Context.holds, Label.freed, Label.taken]
  | returns done frames =>
      simp [Thread.holds, sret, done, frames, Context.holds, Label.freed, Label.taken]
  | calls | acquires | contends | looks | refuses | releases | released => rfl

end Thread

namespace Machine

variable {m m' : Machine T L} {base : T → BitVec 64}

theorem holds_update (threads : T → Thread L) (t : T) (th : Thread L) (l : L)
    : (fun u => (Function.update threads t th u).holds l)
      = Function.update (fun u => (threads u).holds l) t (th.holds l) :=
  Function.comp_update (Thread.holds · l) threads t th

/-- Every step keeps that the word of a lock is set exactly if there is a guard. -/
theorem Step.exclusive (stepped : Step kind d m m')
    (exclusive : ∀ l, Exclusive (m.locked l) fun t => (m.threads t).holds l) (l : L)
    : Exclusive (m'.locked l) fun t => (m'.threads t).holds l := by
  obtain @⟨t, label, th, locked, stepped, applied⟩ := stepped
  have holds := stepped.holds l
  simp only [holds_update]
  cases label with
  | silent | fails =>
      cases applied
      exact (exclusive l).keep holds
  | sees l' seen =>
      rw [Label.apply, Option.ite_none_right_eq_some] at applied
      cases applied.2
      exact (exclusive l).keep holds
  | takes l' =>
      rw [Label.apply, Option.ite_none_left_eq_some] at applied
      obtain ⟨free, same⟩ := applied
      cases same
      by_cases isSame : l' = l
      · subst isSame
        have wasFree := exclusive l'
        rw [Bool.not_eq_true] at free
        rw [free] at wasFree
        rw [Function.update_self]
        simp only [Label.freed, Label.taken, if_true, Nat.add_zero] at holds
        exact holds ▸ wasFree.take t
      · rw [Function.update_of_ne (Ne.symm isSame)]
        simp only [Label.freed, Label.taken, if_neg isSame, Nat.add_zero] at holds
        exact (exclusive l).keep holds
  | frees l' =>
      cases applied
      by_cases isSame : l' = l
      · subst isSame
        rw [Function.update_self]
        simp only [Label.freed, Label.taken, if_true, Nat.add_zero] at holds
        exact (exclusive l').release holds.symm
      · rw [Function.update_of_ne (Ne.symm isSame)]
        simp only [Label.freed, Label.taken, if_neg isSame, Nat.add_zero] at holds
        exact (exclusive l).keep holds

theorem Step.sound (stepped : Step kind d m m')
    (sound : ∀ t, (m.threads t).Sound kind (base t)) (t : T)
    : (m'.threads t).Sound kind (base t) := by
  obtain @⟨actor, label, th, locked, stepped, applied⟩ := stepped
  exact (Function.forall_update_iff m.threads fun t th => th.Sound kind (base t)).mpr
    ⟨(sound actor).step stepped, fun t _ => sound t⟩ t

theorem Reachable.acts (reachable : m.Reachable kind d base) (t : T) {label : Label L}
    {th : Thread L} {locked : L → Bool} (stepped : (m.threads t).Step kind d label th)
    (applied : label.apply m.locked = some locked)
    : Reachable kind d base ⟨locked, Function.update m.threads t th⟩ :=
  Transition.Reachable.next reachable (.acts stepped applied)

/-- In every interleaving no two guards of a lock exist, and each thread's counter and IRQs are as
its sections account for.
-/
theorem locks_accounted (reachable : m.Reachable kind d base)
    : (∀ l, Exclusive (m.locked l) fun t => (m.threads t).holds l)
      ∧ ∀ t, (m.threads t).Accounted kind (base t) := by
  have kept := Transition.Reachable.invariant
    (fun m => (∀ l, Exclusive (m.locked l) fun t => (m.threads t).holds l)
      ∧ ∀ t, (m.threads t).Sound kind (base t))
    (fun m started => ?_)
    (fun m m' kept stepped => ⟨stepped.exclusive kept.1, stepped.sound kept.2⟩) reachable
  · exact ⟨kept.1, fun t => (kept.2 t).accounted⟩
  · cases started
    exact ⟨fun l t => rfl, fun t => .fresh (base t)⟩

/-- One thread has the lock, and the other was refused, which leaves its IRQs disabled. -/
theorem locks_accounted_refused
    : ∃ m : Machine Bool Unit, (m.threads true).holds () = 1
      ∧ (m.threads false).cpu = ⟨0, 1⟩ ∧ (m.threads false).current = ⟨.running, []⟩
      ∧ (∀ l, Exclusive (m.locked l) fun t => (m.threads t).holds l)
      ∧ ∀ t, (m.threads t).Accounted (fun _ => .noPreemptIrqSave) SIE_BIT := by
  have start : Machine.Reachable (fun _ => .noPreemptIrqSave) anyhow (fun _ : Bool => SIE_BIT)
      ⟨fun _ : Unit => false, fun _ => fresh SIE_BIT⟩ :=
    .start rfl
  have locked := (((start.acts true (.calls (.lock ()) rfl trivial) rfl).acts
    true (.acquires rfl) rfl).acts true (.acquires rfl) rfl).acts true (.exchanges rfl) rfl
  have refused := (((locked.acts false (.calls (.tryLock ()) rfl trivial) rfl).acts false
    (.acquires rfl) rfl).acts false (.acquires rfl) rfl).acts false (.refuses rfl) rfl
  exact ⟨_, rfl, rfl, rfl, locks_accounted refused⟩

end Machine

end Words

end RCoreOS.Spinlock
