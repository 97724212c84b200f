import RCoreOS.Sync.TaskSystem

/-! The references to tasks over whole runs: the strong counts are right, every task that has not
exited has a place that keeps it alive, and a pass of the collector frees every exited task to
which nobody else has a reference.
-/

namespace RCoreOS.Sync.TaskSystem

open Scheduler (TaskState)
open SharedOwnership (Counted)

variable {Task : Type} (k : KernelTasks Task)

/-- The places in which a blocked task waits. -/
def waiting (s : TaskSystem Task) : List Task :=
  s.waitQueues.map Prod.snd ++ s.timerList.map Prod.snd ++ s.expired.map Prod.snd

/-- All references to tasks that are not in the hands of an operation; the first is that of
`IDLE_TASK`.
-/
def held (s : TaskSystem Task) : List Task :=
  k.idle :: s.current
    :: (s.readyQueue ++ s.waiting ++ s.exitedTasks ++ s.collected.toList ++ s.handles)

variable [DecidableEq Task]

/-- What holds while an operation has references in its hands, if tasks are switched or not. -/
structure Sound (s : TaskSystem Task) (loose : List Task) : Prop where
  counted : Counted s.strongCount (loose ++ s.held k)
  running : ∀ t, s.state t = .running → t = s.current
  ready : ∀ t, t ∈ s.readyQueue ↔ s.state t = .ready ∧ t ≠ k.idle
  once : s.readyQueue.Nodup
  idle : s.state k.idle = .ready ∨ s.state k.idle = .running
  blocked : ∀ t, s.state t = .blocked → t ∈ loose ++ s.waiting
  exited : ∀ t ∈ s.exitedTasks ++ s.collected.toList, s.state t = .exited
  buried : (s.exitedTasks ++ s.collected.toList).Nodup

variable {k} {s s' : TaskSystem Task} {loose : List Task} {t : Task}

/-- An assertion that holds is passed. -/
theorem guard_bind {α : Type} {p : Prop} [Decidable p] (holds : p) (rest : Option α)
    : (guard p >>= fun _ => rest) = rest := by
  rw [guard, if_pos holds]
  rfl

-----------------------------------------------------------------------------------------
-- References and queues
-----------------------------------------------------------------------------------------

theorem Sound.clone (sound : s.Sound k loose) (t : Task) : (s.clone t).Sound k (t :: loose) :=
  { sound with
    counted := sound.counted.clone t
    blocked := fun u isBlocked => List.mem_cons_of_mem _ (sound.blocked u isBlocked) }

theorem Sound.drop (sound : s.Sound k (t :: loose)) (awake : s.state t ≠ .blocked)
    : (s.drop t).Sound k loose :=
  { sound with
    counted := Counted.drop sound.counted
    blocked := fun u isBlocked => by
      rcases List.mem_cons.mp (sound.blocked u isBlocked) with same | waits
      · exact absurd (same ▸ isBlocked) awake
      · exact waits }

/-- Only the state of one task changes, and what it is in follows. -/
theorem Sound.change {loose' : List Task} (sound : s.Sound k loose) (t : Task)
    (state : TaskState)
    (changed : s'.state = Function.update s.state t state)
    (counted : Counted s'.strongCount (loose' ++ s'.held k))
    (running : state = .running → t = s'.current)
    (others : ∀ u, u ≠ t → u = s.current → s.state u = .running → u = s'.current)
    (ready : t ∈ s'.readyQueue ↔ state = .ready ∧ t ≠ k.idle)
    (queue : ∀ u, u ≠ t → (u ∈ s'.readyQueue ↔ u ∈ s.readyQueue)) (once : s'.readyQueue.Nodup)
    (idle : t = k.idle → state = .ready ∨ state = .running)
    (blocked : state = .blocked → t ∈ loose' ++ s'.waiting)
    (waits : ∀ u, u ≠ t → u ∈ loose ++ s.waiting → u ∈ loose' ++ s'.waiting)
    (exited : state = .exited ∨ t ∉ s'.exitedTasks ++ s'.collected.toList)
    (dead : ∀ u, u ≠ t → u ∈ s'.exitedTasks ++ s'.collected.toList
      → u ∈ s.exitedTasks ++ s.collected.toList)
    (buried : (s'.exitedTasks ++ s'.collected.toList).Nodup)
    : s'.Sound k loose' := by
  have atT : s'.state t = state := by simp [changed]
  have off : ∀ u, u ≠ t → s'.state u = s.state u := fun u other => by simp [changed, other]
  refine ⟨counted, fun u isRunning => ?_, fun u => ?_, once, ?_, fun u isBlocked => ?_,
    fun u isDead => ?_, buried⟩
  · by_cases same : u = t
    · subst same
      exact running (atT.symm.trans isRunning)
    · rw [off u same] at isRunning
      exact others u same (sound.running u isRunning) isRunning
  · by_cases same : u = t
    · subst same
      rw [atT]
      exact ready
    · rw [off u same, queue u same]
      exact sound.ready u
  · by_cases same : k.idle = t
    · rw [same, atT]
      exact idle same.symm
    · rw [off _ same]
      exact sound.idle
  · by_cases same : u = t
    · subst same
      exact blocked (atT.symm.trans isBlocked)
    · rw [off u same] at isBlocked
      exact waits u same (sound.blocked u isBlocked)
  · by_cases same : u = t
    · subst same
      exact atT.trans (exited.resolve_right fun absent => absent isDead)
    · rw [off u same]
      exact sound.exited u (dead u same isDead)

theorem Sound.not_ready (sound : s.Sound k loose) (unready : s.state t ≠ .ready)
    : t ∉ s.readyQueue :=
  fun member => unready ((sound.ready t).mp member).1

theorem Sound.not_idle (sound : s.Sound k loose) (unready : s.state t ≠ .ready)
    (notRunning : s.state t ≠ .running)
    : t ≠ k.idle := by
  rintro rfl
  exact sound.idle.elim unready notRunning

theorem Sound.not_exited (sound : s.Sound k loose) (alive : s.state t ≠ .exited)
    : t ∉ s.exitedTasks ++ s.collected.toList :=
  fun member => alive (sound.exited t member)

theorem Sound.once_append (sound : s.Sound k loose) (unready : s.state t ≠ .ready)
    : (s.readyQueue ++ [t]).Nodup := by
  refine List.nodup_append.mpr ⟨sound.once, List.nodup_singleton t, ?_⟩
  intro u member v last same
  rw [List.mem_singleton] at last
  subst last same
  exact sound.not_ready unready member

/-- A blocked task whose place is given up becomes ready. -/
theorem Sound.unblockTask (sound : s.Sound k (t :: loose)) : (s.unblockTask t).Sound k loose := by
  unfold TaskSystem.unblockTask
  split
  · rename_i isBlocked
    have unready : s.state t ≠ .ready := by simp [isBlocked]
    have notIdle := sound.not_idle unready (by simp [isBlocked])
    refine sound.change t .ready rfl
      (sound.counted.move (List.perm_iff_count.mpr fun a => ?_)) (by simp)
      (fun _ _ isCurrent _ => isCurrent) (by simp [notIdle]) (fun u other => by simp [other])
      (sound.once_append unready) (fun same => absurd same notIdle) (by simp)
      (fun u other waits => ?_) (.inr (sound.not_exited (by simp [isBlocked])))
      (fun _ _ dead => dead) sound.buried
    · simp [held, waiting, List.count_append, List.count_cons, setState]
      omega
    · exact (List.mem_cons.mp waits).resolve_left other
  · exact sound.drop ‹_›

/-- The references in a list of entries are given up one after the other. -/
theorem Sound.unblockAll {refs : List Task} (sound : s.Sound k (refs ++ loose))
    : (refs.foldl TaskSystem.unblockTask s).Sound k loose := by
  induction refs generalizing s with
  | nil => exact sound
  | cons t rest ih => exact ih (Sound.unblockTask sound)

theorem Sound.dropAll {refs : List Task} (sound : s.Sound k (refs ++ loose))
    (awake : ∀ t ∈ refs, s.state t ≠ .blocked)
    : (s.dropAll refs).Sound k loose :=
  { sound with
    counted := Counted.dropAll (List.append_assoc .. ▸ sound.counted)
    blocked := fun u isBlocked => by
      have waits := sound.blocked u isBlocked
      rw [List.append_assoc] at waits
      exact (List.mem_append.mp waits).resolve_left fun given => awake u given isBlocked }

-----------------------------------------------------------------------------------------
-- Wait queues and timers
-----------------------------------------------------------------------------------------

/-- References move between the hands of an operation and the places in which tasks wait. -/
theorem Sound.move {loose' : List Task} (sound : s.Sound k loose) (state : s'.state = s.state)
    (strong : s'.strongCount = s.strongCount) (current : s'.current = s.current)
    (queue : s'.readyQueue = s.readyQueue) (exited : s'.exitedTasks = s.exitedTasks)
    (collected : s'.collected = s.collected) (handles : s'.handles = s.handles)
    (moved : (loose ++ s.waiting).Perm (loose' ++ s'.waiting))
    : s'.Sound k loose' := by
  refine ⟨strong ▸ sound.counted.move (List.perm_iff_count.mpr fun a => ?_), ?_, ?_, ?_, ?_,
    fun u isBlocked => ?_, ?_, ?_⟩
  · have := List.perm_iff_count.mp moved a
    simp only [List.count_append] at this
    simp only [held, List.count_append, List.count_cons, current, queue, exited, collected,
      handles]
    omega
  · rw [state, current]
    exact sound.running
  · rw [state, queue]
    exact sound.ready
  · rw [queue]
    exact sound.once
  · rw [state]
    exact sound.idle
  · rw [state] at isBlocked
    exact moved.mem_iff.mp (sound.blocked u isBlocked)
  · rw [state, exited, collected]
    exact sound.exited
  · rw [exited, collected]
    exact sound.buried

/-- Entries are taken out of the wait queues. -/
theorem Sound.takeEntries {rest : List (QueueId Task × Task)} (sound : s.Sound k loose)
    (taken : List (QueueId Task × Task)) (split : s.waitQueues.Perm (taken ++ rest))
    : { s with waitQueues := rest }.Sound k (taken.map Prod.snd ++ loose) := by
  refine sound.move rfl rfl rfl rfl rfl rfl rfl (List.perm_iff_count.mpr fun a => ?_)
  have := List.perm_iff_count.mp (split.map Prod.snd) a
  simp only [List.map_append, List.count_append] at this
  simp only [waiting, List.count_append]
  omega

/-- Events are taken out of the timer list. -/
theorem Sound.takeAlarms {rest : List (Nat × Task)} (sound : s.Sound k loose)
    (taken : List (Nat × Task)) (split : s.timerList.Perm (taken ++ rest))
    : { s with timerList := rest }.Sound k (taken.map Prod.snd ++ loose) := by
  refine sound.move rfl rfl rfl rfl rfl rfl rfl (List.perm_iff_count.mpr fun a => ?_)
  have := List.perm_iff_count.mp (split.map Prod.snd) a
  simp only [List.map_append, List.count_append] at this
  simp only [waiting, List.count_append]
  omega

theorem perm_filter {α : Type} (p : α → Prop) [DecidablePred p] (l : List α)
    : l.Perm (l.filter (fun a => decide (p a)) ++ l.filter fun a => decide (¬ p a)) := by
  have := (List.filter_append_perm (fun a => decide (p a)) l).symm
  simpa only [decide_not] using this

theorem Sound.notifyOneLocked (sound : s.Sound k loose) (queue : QueueId Task)
    : (s.notifyOneLocked queue).Sound k loose := by
  unfold TaskSystem.notifyOneLocked popFront
  cases found : s.waitQueues.find? (·.1 = queue) with
  | none => exact sound
  | some entry =>
      exact (sound.takeEntries [entry]
        (List.perm_cons_erase (List.mem_of_find?_eq_some found))).unblockTask

theorem Sound.notifyAllLocked (sound : s.Sound k loose) (queue : QueueId Task)
    : (s.notifyAllLocked queue).Sound k loose :=
  (sound.takeEntries _ (perm_filter (fun entry : QueueId Task × Task => entry.1 = queue)
    s.waitQueues)).unblockAll

theorem Sound.notifyTask (sound : s.Sound k loose) (queue : QueueId Task) (t : Task)
    : (s.notifyTask queue t).Sound k loose := by
  unfold TaskSystem.notifyTask
  split
  · rename_i there
    exact (sound.takeEntries [(queue, t)] (List.perm_cons_erase there)).unblockTask
  · exact sound

theorem Sound.notifyWaitForExit (sound : s.Sound k loose) (t : Task)
    : (s.notifyWaitForExit t).Sound k loose := by
  unfold TaskSystem.notifyWaitForExit
  split
  · have removed : Sound k { s with waitForTaskExits := Function.update s.waitForTaskExits t false }
        loose :=
      sound.move rfl rfl rfl rfl rfl rfl rfl (.refl _)
    exact removed.notifyAllLocked _
  · exact sound

theorem Sound.leaveQueue (sound : s.Sound k loose) (awake : s.state s.current ≠ .blocked)
    (queue : QueueId Task)
    : (s.leaveQueue queue).Sound k loose := by
  refine (sound.takeEntries _
    (perm_filter (fun entry => entry = (queue, s.current)) s.waitQueues)).dropAll ?_
  intro t mine
  obtain ⟨entry, listed, rfl⟩ := List.mem_map.mp mine
  have isMine := of_decide_eq_true (List.mem_filter.mp listed).2
  rw [isMine]
  exact awake

theorem Sound.cancelAlarm (sound : s.Sound k loose) (awake : s.state s.current ≠ .blocked)
    : s.cancelAlarm.Sound k loose := by
  refine (sound.takeAlarms _
    (perm_filter (fun event => event.2 = s.current) s.timerList)).dropAll ?_
  intro t mine
  obtain ⟨event, listed, rfl⟩ := List.mem_map.mp mine
  have isMine := of_decide_eq_true (List.mem_filter.mp listed).2
  rw [isMine]
  exact awake

theorem Sound.setAlarmWakeup (sound : s.Sound k (t :: loose)) (deadline : Nat)
    : (s.setAlarmWakeup deadline t).Sound k loose :=
  sound.move rfl rfl rfl rfl rfl rfl rfl (List.perm_iff_count.mpr fun a => by
    simp only [waiting, TaskSystem.setAlarmWakeup, List.map_cons, List.cons_append,
      List.count_append, List.count_cons]
    omega)

theorem Sound.expire (sound : s.Sound k loose) {event : Nat × Task} (there : event ∈ s.timerList)
    : { s with timerList := s.timerList.erase event
               expired := event :: s.expired }.Sound k loose := by
  refine (sound.takeAlarms [event] (List.perm_cons_erase there)).move
    rfl rfl rfl rfl rfl rfl rfl (List.perm_iff_count.mpr fun a => ?_)
  simp only [waiting, List.map_cons, List.map_nil, List.cons_append, List.nil_append,
    List.count_append, List.count_cons]
  omega

theorem Sound.callback (sound : s.Sound k loose) {event : Nat × Task} (there : event ∈ s.expired)
    : (s.callback event).Sound k loose := by
  refine Sound.unblockTask (sound.move rfl rfl rfl rfl rfl rfl rfl
    (List.perm_iff_count.mpr fun a => ?_))
  have := List.perm_iff_count.mp ((List.perm_cons_erase there).map Prod.snd) a
  simp only [List.map_cons, List.count_cons] at this
  simp only [waiting, List.cons_append, List.count_append, List.count_cons]
  omega

-----------------------------------------------------------------------------------------
-- Handles and the collector
-----------------------------------------------------------------------------------------

theorem Sound.cloneRef (sound : s.Sound k []) (t : Task)
    : { s.clone t with handles := t :: s.handles }.Sound k [] :=
  { sound with
    counted := (sound.counted.clone t).move (List.perm_iff_count.mpr fun a => by
      simp only [held, waiting, TaskSystem.clone, List.nil_append, List.count_append,
        List.count_cons]
      omega) }

/-- A handle is given up. -/
theorem Sound.takeHandle (sound : s.Sound k []) (there : t ∈ s.handles)
    : { s with handles := s.handles.erase t }.Sound k [t] :=
  { sound with
    counted := sound.counted.move (List.perm_iff_count.mpr fun a => by
      have := List.perm_iff_count.mp (List.perm_cons_erase there) a
      simp only [List.count_cons] at this
      simp only [held, waiting, List.nil_append, List.cons_append, List.count_append,
        List.count_cons]
      omega)
    blocked := fun u isBlocked => List.mem_cons_of_mem _ (sound.blocked u isBlocked) }

theorem Sound.dropRef (sound : s.Sound k []) (there : t ∈ s.handles)
    : { s.drop t with handles := s.handles.erase t }.Sound k [] :=
  { sound with counted := Counted.drop (sound.takeHandle there).counted }

/-- Exited tasks move between `EXITED_TASKS`, the hands of the collector and those of an operation.
-/
theorem Sound.bury (sound : s.Sound k [])
    (same : s' = { s with exitedTasks := s'.exitedTasks, collected := s'.collected })
    (moved : (s.exitedTasks ++ s.collected.toList).Perm
      (loose ++ (s'.exitedTasks ++ s'.collected.toList)))
    : s'.Sound k loose := by
  rw [same]
  refine { sound with
    counted := sound.counted.move (List.perm_iff_count.mpr fun a => ?_)
    blocked := fun u isBlocked => List.mem_append_right _ (sound.blocked u isBlocked)
    exited := fun u member => sound.exited u (moved.mem_iff.mpr (List.mem_append_right _ member))
    buried := (List.nodup_append.mp (moved.nodup_iff.mp sound.buried)).2.1 }
  have := List.perm_iff_count.mp moved a
  simp only [List.count_append] at this
  simp only [held, waiting, List.nil_append, List.count_append, List.count_cons]
  omega

omit [DecidableEq Task] in
theorem collect_keeps (s : TaskSystem Task)
    : s.collect.current = s.current ∧ s.collect.state = s.state := by
  unfold TaskSystem.collect
  split <;> exact ⟨rfl, rfl⟩

theorem release_keeps (s : TaskSystem Task)
    : s.release.current = s.current ∧ s.release.state = s.state := by
  unfold TaskSystem.release
  split
  · exact ⟨rfl, rfl⟩
  · dsimp only
    split <;> exact ⟨rfl, rfl⟩

theorem Sound.collect (sound : s.Sound k []) (free : s.collected = none)
    : s.collect.Sound k [] := by
  unfold TaskSystem.collect
  split
  · exact sound
  · rename_i t rest first
    refine sound.bury rfl ?_
    simpa only [first, free, Option.toList_none, Option.toList_some, List.append_nil,
      List.nil_append] using (List.perm_append_singleton t rest).symm

theorem Sound.release (sound : s.Sound k []) : s.release.Sound k [] := by
  unfold TaskSystem.release
  split
  · exact sound
  · rename_i t collected
    dsimp only
    split
    · have isDead : s.state t = .exited := sound.exited t (by simp [collected])
      have taken : { s with collected := none }.Sound k [t] := by
        refine sound.bury rfl ?_
        simp [collected]
      exact taken.drop (by simp [isDead])
    · refine sound.bury rfl ?_
      simp [collected]

theorem Sound.clearExited (sound : s.Sound k [])
    : { s.dropAll s.exitedTasks with exitedTasks := [] }.Sound k [] := by
  have taken : { s with exitedTasks := [] }.Sound k (s.exitedTasks ++ []) :=
    sound.bury rfl (by simp)
  refine taken.dropAll fun t member => ?_
  simp [sound.exited t (List.mem_append_left _ member)]

-----------------------------------------------------------------------------------------
-- Switching tasks
-----------------------------------------------------------------------------------------

/-- A task in another state than the one that changes keeps its state. -/
theorem setState_kept {u : Task} {state old : TaskState} (is : s.state u = old)
    (other : s.state t ≠ old)
    : (s.setState t state).state u = old := by
  have apart : u ≠ t := fun same => other (same ▸ is)
  simpa [setState, apart] using is

/-- No task runs on the CPU, and the current one has another place than that. -/
structure Stopped (k : KernelTasks Task) (s : TaskSystem Task) : Prop where
  still : ∀ t, s.state t ≠ .running
  placed : s.current ∈ k.idle
    :: (s.readyQueue ++ s.waiting ++ s.exitedTasks ++ s.collected.toList ++ s.handles)

/-- Once the current task has another state, no task runs. -/
theorem Sound.still (sound : s.Sound k loose) {state : TaskState} (stopped : state ≠ .running)
    (t : Task)
    : (s.setState s.current state).state t ≠ .running := by
  by_cases same : t = s.current
  · simpa [setState, same] using stopped
  · intro isRunning
    simp only [setState, Function.update_of_ne same] at isRunning
    exact same (sound.running t isRunning)

theorem Sound.putPrev (sound : s.Sound k [])
    (placed : s.state s.current = .running
      ∨ s.state s.current ≠ .ready ∧ s.current ∈ s.waiting ++ s.exitedTasks)
    : (s.putPrev k).Sound k [] ∧ (s.putPrev k).Stopped k := by
  unfold TaskSystem.putPrev
  dsimp only
  split
  · rename_i isRunning
    have notDead := sound.not_exited (t := s.current) (by simp [isRunning])
    have unready := sound.not_ready (t := s.current) (by simp [isRunning])
    split
    · rename_i isIdle
      refine ⟨?_, sound.still (by simp), by simp [setState, isIdle]⟩
      exact sound.change s.current .ready rfl sound.counted (by simp)
        (fun _ _ isCurrent _ => isCurrent) (by simpa [setState, isIdle] using isIdle ▸ unready)
        (fun _ _ => .rfl) sound.once (fun _ => .inl rfl) (by simp) (fun _ _ waits => waits)
        (.inr notDead) (fun _ _ dead => dead) sound.buried
    · rename_i notIdle
      refine ⟨?_, sound.still (by simp), by simp [setState, TaskSystem.clone]⟩
      refine sound.change s.current .ready rfl
        ((sound.counted.clone s.current).move (List.perm_iff_count.mpr fun a => ?_)) (by simp)
        (fun _ _ isCurrent _ => isCurrent) (by simp [notIdle])
        (fun u other => by simp [setState, other])
        (sound.once_append (by simp [isRunning])) (fun _ => .inl rfl) (by simp)
        (fun _ _ waits => waits) (.inr notDead) (fun _ _ dead => dead) sound.buried
      simp only [held, waiting, TaskSystem.clone, setState, List.nil_append, List.count_append,
        List.count_cons, List.count_nil]
      omega
  · rename_i notRunning
    obtain ⟨unready, elsewhere⟩ := placed.resolve_left notRunning
    refine ⟨sound, fun t isRunning => notRunning (sound.running t isRunning ▸ isRunning), ?_⟩
    rcases List.mem_append.mp elsewhere with waits | dead
    · simp [waits]
    · simp [dead]

/-- An operation that switches tasks goes through: no assertion fails, the task that runs is the
current one, and no exited task comes back.
-/
def Switches (k : KernelTasks Task) (s : TaskSystem Task) (result : Option (TaskSystem Task))
    : Prop :=
  ∃ s', result = some s' ∧ s'.Sound k [] ∧ s'.state s'.current = .running
    ∧ ∀ t, s.state t = .exited → s'.state t = .exited

theorem Switches.after {result : Option (TaskSystem Task)} (switches : s'.Switches k result)
    (kept : ∀ t, s.state t = .exited → s'.state t = .exited)
    : s.Switches k result := by
  obtain ⟨s₁, done, sound, running, dead⟩ := switches
  exact ⟨s₁, done, sound, running, fun t isDead => dead t (kept t isDead)⟩

/-- An assertion that holds does not keep an operation from going through. -/
theorem Switches.guarded {p : Prop} [Decidable p] {result : Option (TaskSystem Task)}
    (switches : s.Switches k result) (holds : p)
    : s.Switches k (guard p >>= fun _ => result) := by
  rwa [guard_bind holds]

theorem putPrev_exited (dead : s.state t = .exited) : (s.putPrev k).state t = .exited := by
  unfold TaskSystem.putPrev
  dsimp only
  split
  · rename_i isRunning
    split <;> exact setState_kept dead (by simp [isRunning])
  · exact dead

/-- The next task has left the ready queue, if it was there, and is current. -/
theorem Sound.run (sound : s.Sound k []) (still : ∀ u, s.state u ≠ .running) {next : Task}
    {strong : Task → Nat} (isReady : s.state next = .ready)
    (counted : Counted strong (held k { s with
      readyQueue := s.readyQueue.erase next
      current := next }))
    : Sound k { s.setState next .running with
      strongCount := strong
      readyQueue := s.readyQueue.erase next
      current := next } [] :=
  sound.change next .running rfl counted (fun _ => rfl)
    (fun u _ _ isRunning => absurd isRunning (still u))
    (by simpa using sound.once.not_mem_erase) (fun u other => List.mem_erase_of_ne other)
    (sound.once.erase next) (fun _ => .inr rfl) (by simp) (fun _ _ waits => waits)
    (.inr (sound.not_exited (by simp [isReady]))) (fun _ _ dead => dead) sound.buried

theorem Sound.switchTo (sound : s.Sound k []) (stopped : s.Stopped k) {next : Task}
    {strong : Task → Nat} (isReady : s.state next = .ready)
    (counted : Counted strong (next :: held k { s with readyQueue := s.readyQueue.erase next }))
    : s.Switches k (TaskSystem.switchTo
      { s with strongCount := strong, readyQueue := s.readyQueue.erase next } next) := by
  have dead : ∀ u, s.state u = .exited → (s.setState next .running).state u = .exited :=
    fun u isDead => setState_kept isDead (by simp [isReady])
  by_cases same : s.current = next
  · subst same
    exact ⟨_, if_pos rfl, sound.run stopped.still isReady (Counted.drop counted),
      by simp [setState, TaskSystem.drop], dead⟩
  · have moved : Counted strong (s.current :: held k { s with
        readyQueue := s.readyQueue.erase next
        current := next }) := by
      refine counted.move (List.perm_iff_count.mpr fun a => ?_)
      simp only [held, waiting, List.count_cons]
      omega
    have shared : 1 < strong s.current := by
      refine moved.shared ?_
      have placed := stopped.placed
      simp only [waiting, List.mem_cons, List.mem_append] at placed
      simp only [held, waiting, List.mem_cons, List.mem_append, List.mem_erase_of_ne same]
      exact placed.imp_right .inr
    have alive : 1 ≤ strong next := counted.pos_iff.mpr (List.mem_cons_self ..)
    exact ⟨_, (if_neg same).trans ((guard_bind shared _).trans (guard_bind alive _)),
      sound.run stopped.still isReady (Counted.drop moved), by simp [setState, TaskSystem.drop],
      dead⟩

omit [DecidableEq Task] in
/-- A task that may run on the CPU is taken from the front of the ready queue. -/
theorem pickNext_eq [DecidableEq Task] {mayRun : Task → Bool} (anywhere : ∀ t, mayRun t = true)
    (readyQueue : List Task)
    : pickNext mayRun readyQueue [] = ⟨readyQueue.head?, none, readyQueue.tail⟩ := by
  cases readyQueue with
  | nil => rfl
  | cons t rest => simp [pickNext, anywhere]

theorem Sound.resched (sound : s.Sound k []) {mayRun : Task → Bool}
    (anywhere : ∀ t, mayRun t = true)
    (placed : s.state s.current = .running
      ∨ s.state s.current ≠ .ready ∧ s.current ∈ s.waiting ++ s.exitedTasks)
    : s.Switches k (s.resched k mayRun) := by
  obtain ⟨put, stopped⟩ := sound.putPrev placed
  have kept : ∀ t, s.state t = .exited → (s.putPrev k).state t = .exited :=
    fun _ => putPrev_exited
  unfold TaskSystem.resched
  generalize s.putPrev k = s₁ at put stopped kept
  dsimp only
  rw [pickNext_eq anywhere]
  cases queue : s₁.readyQueue with
  | cons next rest =>
      have erased : s₁.readyQueue.erase next = rest := by rw [queue, List.erase_cons_head]
      have isReady := ((put.ready next).mp (queue ▸ List.mem_cons_self ..)).1
      have switches := put.switchTo stopped isReady
        (put.counted.move (List.perm_iff_count.mpr fun a => by
          simp only [held, waiting, queue, List.erase_cons_head, List.nil_append,
            List.count_append, List.count_cons]
          omega))
      rw [erased] at switches
      exact switches.after kept
  | nil =>
      have erased : s₁.readyQueue.erase k.idle = [] := by rw [queue, List.erase_nil]
      have isReady := put.idle.resolve_right (stopped.still _)
      have switches := put.switchTo stopped isReady
        ((put.counted.clone k.idle).move (List.perm_iff_count.mpr fun a => by
          simp only [held, waiting, queue, List.erase_nil, List.nil_append, List.count_append,
            List.count_cons]))
      rw [erased] at switches
      exact switches.after kept

-----------------------------------------------------------------------------------------
-- Blocking and exiting
-----------------------------------------------------------------------------------------

/-- The current task is blocked, and the operation has a reference to put it into a place. -/
theorem Sound.suspend (sound : s.Sound k []) (runs : s.state s.current = .running)
    (notIdle : s.current ≠ k.idle)
    : ((s.setState s.current .blocked).clone s.current).Sound k [s.current] :=
  sound.change s.current .blocked rfl (sound.counted.clone s.current) (by simp)
    (fun _ _ isCurrent _ => isCurrent)
    (by simpa [setState, TaskSystem.clone] using sound.not_ready (by simp [runs]))
    (fun _ _ => .rfl) sound.once (fun same => absurd same notIdle) (by simp)
    (fun _ _ waits => List.mem_cons_of_mem _ waits) (.inr (sound.not_exited (by simp [runs])))
    (fun _ _ dead => dead) sound.buried

theorem Sound.blockCurrent (sound : s.Sound k []) {mayRun : Task → Bool}
    (anywhere : ∀ t, mayRun t = true) (runs : s.state s.current = .running)
    (notIdle : s.current ≠ k.idle) (queue : QueueId Task)
    : s.Switches k (s.blockCurrent k mayRun queue) := by
  have pushed : Sound k { (s.setState s.current .blocked).clone s.current with
      waitQueues := s.waitQueues ++ [(queue, s.current)] } [] :=
    (sound.suspend runs notIdle).move rfl rfl rfl rfl rfl rfl rfl
      (List.perm_iff_count.mpr fun a => by
        simp only [waiting, TaskSystem.clone, setState, List.map_append, List.map_cons,
          List.map_nil, List.nil_append, List.cons_append, List.count_append, List.count_cons,
          List.count_nil]
        omega)
  have switched := pushed.resched anywhere
    (.inr (by simp [setState, TaskSystem.clone, waiting]))
  exact ((switched.after fun _ isDead => setState_kept isDead (by simp [runs])).guarded
    notIdle).guarded runs

theorem Sound.sleepUntil (sound : s.Sound k []) {mayRun : Task → Bool}
    (anywhere : ∀ t, mayRun t = true) (runs : s.state s.current = .running)
    (notIdle : s.current ≠ k.idle) (deadline now : Nat)
    : s.Switches k (s.sleepUntil k mayRun deadline now) := by
  refine Switches.guarded (Switches.guarded ?_ notIdle) runs
  split
  · have armed : Sound k (((s.setState s.current .blocked).clone s.current).setAlarmWakeup
        deadline s.current) [] :=
      (sound.suspend runs notIdle).setAlarmWakeup deadline
    have switched := armed.resched anywhere (.inr (by
      simp [setState, TaskSystem.clone, TaskSystem.setAlarmWakeup, waiting]))
    exact switched.after fun _ isDead => setState_kept isDead (by simp [runs])
  · exact ⟨s, rfl, sound, runs, fun _ dead => dead⟩

/-- What waking tasks leaves alone. -/
structure Wakes (s s' : TaskSystem Task) : Prop where
  current : s'.current = s.current
  exitedTasks : s'.exitedTasks = s.exitedTasks
  collected : s'.collected = s.collected
  awake : ∀ t, s.state t ≠ .blocked → s'.state t = s.state t

omit [DecidableEq Task] in
theorem Wakes.refl (s : TaskSystem Task) : s.Wakes s :=
  ⟨rfl, rfl, rfl, fun _ _ => rfl⟩

omit [DecidableEq Task] in
theorem Wakes.trans {s₁ : TaskSystem Task} (first : s.Wakes s₁) (second : s₁.Wakes s')
    : s.Wakes s' where
  current := second.current.trans first.current
  exitedTasks := second.exitedTasks.trans first.exitedTasks
  collected := second.collected.trans first.collected
  awake t isAwake := by
    have same := first.awake t isAwake
    exact (second.awake t (same ▸ isAwake)).trans same

theorem wakes_unblockTask (s : TaskSystem Task) (t : Task) : s.Wakes (s.unblockTask t) := by
  unfold TaskSystem.unblockTask
  split
  · rename_i isBlocked
    refine ⟨rfl, rfl, rfl, fun u isAwake => ?_⟩
    have other : u ≠ t := fun same => isAwake (same ▸ isBlocked)
    simp [setState, other]
  · exact ⟨rfl, rfl, rfl, fun _ _ => rfl⟩

theorem wakes_unblockAll (s : TaskSystem Task) (refs : List Task)
    : s.Wakes (refs.foldl TaskSystem.unblockTask s) := by
  induction refs generalizing s with
  | nil => exact .refl s
  | cons t rest ih => exact (wakes_unblockTask s t).trans (ih _)

omit [DecidableEq Task] in
theorem wakes_setQueues (s : TaskSystem Task) (queues : List (QueueId Task × Task))
    : s.Wakes { s with waitQueues := queues } :=
  ⟨rfl, rfl, rfl, fun _ _ => rfl⟩

theorem wakes_notifyOneLocked (s : TaskSystem Task) (queue : QueueId Task)
    : s.Wakes (s.notifyOneLocked queue) := by
  unfold TaskSystem.notifyOneLocked popFront
  cases s.waitQueues.find? (·.1 = queue) with
  | none => exact .refl s
  | some entry => exact (wakes_setQueues s _).trans (wakes_unblockTask _ entry.2)

theorem wakes_notifyAllLocked (s : TaskSystem Task) (queue : QueueId Task)
    : s.Wakes (s.notifyAllLocked queue) :=
  (wakes_setQueues s _).trans (wakes_unblockAll _ _)

theorem wakes_notifyTask (s : TaskSystem Task) (queue : QueueId Task) (t : Task)
    : s.Wakes (s.notifyTask queue t) := by
  unfold TaskSystem.notifyTask
  split
  · exact (wakes_setQueues s _).trans (wakes_unblockTask _ t)
  · exact .refl s

theorem wakes_notifyWaitForExit (s : TaskSystem Task) (t : Task)
    : s.Wakes (s.notifyWaitForExit t) := by
  unfold TaskSystem.notifyWaitForExit
  split
  · have := wakes_notifyAllLocked
      { s with waitForTaskExits := Function.update s.waitForTaskExits t false } (.exitOf t)
    exact ⟨this.current, this.exitedTasks, this.collected, this.awake⟩
  · exact .refl s

theorem Sound.spawn (sound : s.Sound k []) (runs : s.state s.current = .running)
    (isNew : s.state t = .new)
    : s.Switches k (s.spawn t) := by
  have notIdle := sound.not_idle (t := t) (by simp [isNew]) (by simp [isNew])
  refine Switches.guarded ⟨_, rfl, ?_, setState_kept runs (by simp [isNew]),
    fun u isDead => setState_kept isDead (by simp [isNew])⟩ (Function.update_self ..)
  refine sound.change t .ready rfl
    (((sound.counted.clone t).clone t).move (List.perm_iff_count.mpr fun a => ?_)) (by simp)
    (fun _ _ isCurrent _ => isCurrent) (by simp [TaskSystem.clone, setState, notIdle])
    (fun u other => by simp [TaskSystem.clone, setState, other])
    (sound.once_append (by simp [isNew])) (fun same => absurd same notIdle) (by simp)
    (fun _ _ waits => waits) (.inr (sound.not_exited (by simp [isNew])))
    (fun _ _ dead => dead) sound.buried
  simp only [held, waiting, TaskSystem.clone, setState, List.nil_append, List.count_append,
    List.count_cons, List.count_nil]
  omega

omit [DecidableEq Task] in
theorem dead_append (s : TaskSystem Task) (t : Task)
    : (s.exitedTasks ++ [t] ++ s.collected.toList).Perm
      (t :: (s.exitedTasks ++ s.collected.toList)) := by
  rw [List.append_assoc]
  exact List.perm_middle

theorem Sound.pushExited (sound : s.Sound k []) (isExited : s.state t = .exited)
    (apart : t ∉ s.exitedTasks ++ s.collected.toList)
    : (s.pushExited t).Sound k [] := by
  have moved := dead_append s t
  refine { sound with
    counted := (sound.counted.clone t).move (List.perm_iff_count.mpr fun a => ?_)
    exited := fun u member => ?_
    buried := moved.nodup_iff.mpr (List.nodup_cons.mpr ⟨apart, sound.buried⟩) }
  · simp only [held, waiting, TaskSystem.clone, TaskSystem.pushExited, List.nil_append,
      List.count_append, List.count_cons, List.count_nil]
    omega
  · rcases List.mem_cons.mp (moved.mem_iff.mp member) with isLast | dead
    · exact isLast ▸ isExited
    · exact sound.exited u dead

theorem Sound.exitCurrent (sound : s.Sound k []) {mayRun : Task → Bool}
    (anywhere : ∀ t, mayRun t = true) (runs : s.state s.current = .running)
    (notIdle : s.current ≠ k.idle)
    : s.Switches k (s.exitCurrent k mayRun) := by
  have notDead := sound.not_exited (t := s.current) (by simp [runs])
  have left : (s.setState s.current .exited).Sound k [] :=
    sound.change s.current .exited rfl sound.counted (by simp)
      (fun _ _ isCurrent _ => isCurrent)
      (by simpa [setState] using sound.not_ready (by simp [runs]))
      (fun _ _ => .rfl) sound.once (fun same => absurd same notIdle) (by simp)
      (fun _ _ waits => waits) (.inl rfl) (fun _ _ dead => dead) sound.buried
  have told := left.notifyWaitForExit s.current
  have first := wakes_notifyWaitForExit (s.setState s.current .exited) s.current
  have second := wakes_notifyOneLocked
    (((s.setState s.current .exited).notifyWaitForExit s.current).pushExited s.current) .waitForExit
  -- Waking others leaves the exited tasks alone, the current one among them.
  have dead : ∀ t, (s.setState s.current .exited).state t = .exited
      → ((((s.setState s.current .exited).notifyWaitForExit s.current).pushExited
        s.current).notifyOneLocked .waitForExit).state t = .exited := by
    intro t isDead
    have told := (first.awake t (by simp [isDead])).trans isDead
    exact (second.awake t (by simp [TaskSystem.pushExited, TaskSystem.clone, told])).trans told
  have isExited : (s.setState s.current .exited).state s.current = .exited := by simp [setState]
  have listed := told.pushExited ((first.awake _ (by simp [isExited])).trans isExited)
    (by rw [first.exitedTasks, first.collected]; exact notDead)
  have isCurrent := second.current.trans first.current
  have switched := (listed.notifyOneLocked .waitForExit).resched anywhere (.inr (by
    rw [isCurrent, dead (s.setState s.current .exited).current isExited, second.exitedTasks]
    simp [TaskSystem.pushExited, setState]))
  exact ((switched.after fun t isDead => dead t (setState_kept isDead (by simp [runs]))).guarded
    notIdle).guarded runs

theorem Sound.removeTask (sound : s.Sound k []) (runs : s.state s.current = .running)
    (stopped : s.state t ≠ .running) (notIdle : t ≠ k.idle)
    : s.Switches k (s.removeTask k t) := by
  refine Switches.guarded (Switches.guarded ?_ notIdle) stopped
  split
  · rename_i isReady
    have queued : t ∈ s.readyQueue := (sound.ready t).mpr ⟨isReady, notIdle⟩
    have notDead := sound.not_exited (t := t) (by simp [isReady])
    refine ⟨_, rfl, ?_, setState_kept runs stopped,
      fun u isDead => setState_kept isDead (by simp [isReady])⟩
    refine sound.change t .exited rfl
      (Counted.drop (a := t) ((sound.counted.clone t).move (List.perm_iff_count.mpr fun a => ?_)))
      (by simp) (fun _ _ isCurrent _ => isCurrent) ?_ (fun u other => ?_) ?_
      (fun same => absurd same notIdle) (by simp) (fun _ _ waits => waits) (.inl rfl) ?_ ?_
    · have := List.perm_iff_count.mp (List.perm_cons_erase queued) a
      simp only [List.count_cons] at this
      simp only [held, waiting, TaskSystem.clone, TaskSystem.drop, TaskSystem.pushExited,
        setState, List.nil_append, List.count_append, List.count_cons, List.count_nil]
      omega
    · simpa [TaskSystem.clone, TaskSystem.pushExited, setState] using sound.once.not_mem_erase
    · simp [TaskSystem.clone, TaskSystem.pushExited, setState, List.mem_erase_of_ne other]
    · exact sound.once.erase t
    · exact fun u other member =>
        (List.mem_cons.mp ((dead_append s t).mem_iff.mp member)).resolve_left other
    · exact (dead_append s t).nodup_iff.mpr (List.nodup_cons.mpr ⟨notDead, sound.buried⟩)
  · exact ⟨s, rfl, sound, runs, fun _ isDead => isDead⟩

-----------------------------------------------------------------------------------------
-- Every run
-----------------------------------------------------------------------------------------

/-- An operation that does not switch tasks. -/
theorem Sound.switches (sound : s'.Sound k []) (runs : s.state s.current = .running)
    (current : s'.current = s.current)
    (awake : ∀ t, s.state t ≠ .blocked → s'.state t = s.state t)
    : s.Switches k (some s') := by
  refine ⟨s', rfl, sound, ?_, fun t dead => (awake t (by simp [dead])).trans dead⟩
  rw [current]
  exact (awake _ (by simp [runs])).trans runs

/-- An allowed event goes through. -/
theorem Sound.step (sound : s.Sound k []) {mayRun : Task → Bool} (anywhere : ∀ t, mayRun t = true)
    (runs : s.state s.current = .running) {e : TaskEvent Task} (allowed : s.Allowed k e)
    : s.Switches k (s.step k mayRun e) := by
  have awake : s.state s.current ≠ .blocked := by simp [runs]
  cases e with
  | spawn t => exact sound.spawn runs allowed
  | yieldCurrent => exact (sound.resched anywhere (.inl runs)).guarded runs
  | preemptResched => exact (sound.resched anywhere (.inl runs)).guarded runs
  | exitCurrent => exact sound.exitCurrent anywhere runs allowed.1
  | removeTask t => exact sound.removeTask runs allowed.2.1 allowed.2.2
  | blockCurrent queue => exact sound.blockCurrent anywhere runs allowed queue
  | sleepUntil deadline now => exact sound.sleepUntil anywhere runs allowed deadline now
  | setAlarmWakeup deadline =>
      exact ((sound.clone s.current).setAlarmWakeup deadline).switches runs rfl fun _ _ => rfl
  | leaveQueue queue => exact (sound.leaveQueue awake queue).switches runs rfl fun _ _ => rfl
  | cancelAlarm => exact (sound.cancelAlarm awake).switches runs rfl fun _ _ => rfl
  | notifyOne queue =>
      have wakes := wakes_notifyOneLocked s queue
      exact (sound.notifyOneLocked queue).switches runs wakes.current wakes.awake
  | notifyAll queue =>
      have wakes := wakes_notifyAllLocked s queue
      exact (sound.notifyAllLocked queue).switches runs wakes.current wakes.awake
  | notifyTask queue t =>
      have wakes := wakes_notifyTask s queue t
      exact (sound.notifyTask queue t).switches runs wakes.current wakes.awake
  | expire event now => exact (sound.expire allowed.1).switches runs rfl fun _ _ => rfl
  | callback event =>
      have wakes := wakes_unblockTask { s with expired := s.expired.erase event } event.2
      exact (sound.callback allowed).switches runs wakes.current wakes.awake
  | signal t =>
      have wakes := wakes_unblockTask { s with handles := s.handles.erase t } t
      exact (sound.takeHandle allowed).unblockTask.switches runs wakes.current wakes.awake
  | cloneRef t => exact (sound.cloneRef t).switches runs rfl fun _ _ => rfl
  | dropRef t => exact (sound.dropRef allowed).switches runs rfl fun _ _ => rfl
  | collect =>
      obtain ⟨current, state⟩ := collect_keeps s
      exact (sound.collect allowed.2).switches runs current fun _ _ => congrFun state _
  | release =>
      obtain ⟨current, state⟩ := release_keeps s
      exact sound.release.switches runs current fun _ _ => congrFun state _
  | clearExited => exact sound.clearExited.switches runs rfl fun _ _ => rfl

omit [DecidableEq Task] in
theorem cases_init (k : KernelTasks Task) (t : Task)
    : t = k.idle ∨ t = k.main ∨ t = k.gc ∨ t ≠ k.idle ∧ t ≠ k.main ∧ t ≠ k.gc := by
  tauto

theorem sound_init : (init k).Sound k [] := by
  have apart := k.idle_ne_main
  have apart' := k.idle_ne_gc
  have apart'' := k.main_ne_gc
  refine ⟨fun t => ?_, fun t => ?_, fun t => ?_, by simp [init], by simp [init], fun t => ?_,
    by simp [init], by simp [init]⟩
  all_goals rcases cases_init k t with rfl | rfl | rfl | ⟨notIdle, notMain, notGc⟩
  all_goals simp [init, held, waiting, *, Ne.symm]

/-- One turn of the collector frees the first exited task, or puts it at the end. -/
theorem turn_eq {rest : List Task} (free : s.collected = none) (first : s.exitedTasks = t :: rest)
    : s.collect.release = if s.strongCount t = 1 then { s.drop t with exitedTasks := rest }
      else { s with exitedTasks := rest ++ [t] } := by
  have collected : s.collect = { s with exitedTasks := rest, collected := some t } := by
    unfold TaskSystem.collect
    rw [first]
  rw [collected]
  unfold TaskSystem.release
  dsimp only
  rw [← free]
  rfl

/-- The turns over a part of the exited tasks, by induction on it. -/
theorem turns_eq {todo done : List Task} (free : s.collected = none)
    (whole : s.exitedTasks = todo ++ done) (once : todo.Nodup)
    : ((fun s => s.collect.release)^[todo.length] s).exitedTasks
        = done ++ todo.filter (s.strongCount · ≠ 1)
      ∧ ∀ t, ((fun s => s.collect.release)^[todo.length] s).strongCount t
        = if t ∈ todo ∧ s.strongCount t = 1 then 0 else s.strongCount t := by
  induction todo generalizing s done with
  | nil => simp [whole]
  | cons t rest ih =>
      obtain ⟨apart, once⟩ := List.nodup_cons.mp once
      have turn := turn_eq free (whole.trans rfl)
      rw [List.length_cons, Function.iterate_succ_apply, turn]
      by_cases alone : s.strongCount t = 1
      · have kept : ∀ u ∈ rest, SharedOwnership.drop s.strongCount t u = s.strongCount u :=
          fun u later => Function.update_of_ne (fun same : u = t => apart (same ▸ later)) ..
        rw [if_pos alone]
        obtain ⟨exited, counts⟩ :=
          ih (s := { s.drop t with exitedTasks := rest ++ done }) free rfl once
        have filtered : rest.filter (fun u => SharedOwnership.drop s.strongCount t u ≠ 1)
            = rest.filter (s.strongCount · ≠ 1) :=
          List.filter_congr fun u later => by rw [kept u later]
        refine ⟨exited.trans ?_, fun u => (counts u).trans ?_⟩
        · rw [List.filter_cons_of_neg (by simp [alone])]
          exact congrArg (done ++ ·) filtered
        · by_cases same : u = t
          · subst same
            simp [apart, alone, TaskSystem.drop, SharedOwnership.drop]
          · simp [same, TaskSystem.drop, SharedOwnership.drop]
      · rw [if_neg alone]
        obtain ⟨exited, counts⟩ :=
          ih (s := { s with exitedTasks := rest ++ done ++ [t] }) free (List.append_assoc ..) once
        refine ⟨exited.trans (by simp [alone]), fun u => (counts u).trans ?_⟩
        by_cases same : u = t
        · simp [same, alone]
        · simp [same]

/-- What every reachable state guarantees. -/
structure Accounted (k : KernelTasks Task) (mayRun : Task → Bool) (s : TaskSystem Task) : Prop where
  counts : ∀ t, s.strongCount t = (s.held k).count t
  running : ∀ t, s.state t = .running ↔ t = s.current
  ready : ∀ t, t ∈ s.readyQueue ↔ s.state t = .ready ∧ t ≠ k.idle
  once : s.readyQueue.Nodup
  blocked : ∀ t, s.state t = .blocked → t ∈ s.waiting
  /-- No assertion fails, and no exited task comes back. -/
  passes : ∀ e, s.Allowed k e → ∃ s', s.step k mayRun e = some s'
    ∧ ∀ t, s.state t = .exited → s'.state t = .exited
  freed : ∀ t, s.strongCount t = 0 → s.state t = .new ∨ s.state t = .exited
  /-- A pass of the collector frees the exited tasks to which there is no other reference. -/
  collects : s.collected = none
    → s.gcPass.exitedTasks = s.exitedTasks.filter (1 < s.strongCount ·)
      ∧ ∀ t, s.gcPass.strongCount t
        = if t ∈ s.exitedTasks ∧ (s.held k).count t = 1 then 0 else s.strongCount t

theorem Sound.accounted (sound : s.Sound k []) {mayRun : Task → Bool}
    (anywhere : ∀ t, mayRun t = true) (runs : s.state s.current = .running)
    : s.Accounted k mayRun := by
  have counts : ∀ t, s.strongCount t = (s.held k).count t := sound.counted
  refine ⟨counts, fun t => ⟨sound.running t, fun same => same ▸ runs⟩, sound.ready, sound.once,
    sound.blocked, fun e allowed => ?_, fun t none => ?_, fun free => ?_⟩
  · obtain ⟨s', done, -, -, dead⟩ := sound.step anywhere runs allowed
    exact ⟨s', done, dead⟩
  · have absent : t ∉ s.held k := (Counted.eq_zero_iff sound.counted).mp none
    simp only [held, List.mem_cons, List.mem_append, not_or] at absent
    obtain ⟨notIdle, notCurrent, ⟨⟨⟨unqueued, unplaced⟩, -⟩, -⟩, -⟩ := absent
    cases state : s.state t with
    | new => exact .inl rfl
    | exited => exact .inr rfl
    | running => exact absurd (sound.running t state) notCurrent
    | ready => exact absurd ((sound.ready t).mpr ⟨state, notIdle⟩) unqueued
    | blocked => exact absurd (sound.blocked t state) unplaced
  · have once := (List.nodup_append.mp sound.buried).1
    obtain ⟨exited, freed⟩ := turns_eq free (List.append_nil _).symm once
    refine ⟨exited.trans ?_, fun t => (freed t).trans (by rw [counts t])⟩
    rw [List.nil_append]
    refine List.filter_congr fun t member => ?_
    have alive : 0 < s.strongCount t :=
      (Counted.pos_iff sound.counted).mpr (by simp [held, member])
    simp only [decide_eq_decide]
    omega

variable {mayRun : Task → Bool}

/-- In every run in which the tasks may run on the CPU, references are counted right, a task is
freed only after it has exited, and no assertion of the run queue fails.
-/
theorem Reachable.tasks_accounted (anywhere : ∀ t, mayRun t = true)
    (reachable : s.Reachable k mayRun)
    : s.Accounted k mayRun := by
  have kept := Transition.Reachable.invariant
    (fun s => s.Sound k [] ∧ s.state s.current = .running)
    (fun s start => ?_) (fun s s' kept stepped => ?_) reachable
  · exact kept.1.accounted anywhere kept.2
  · cases start
    exact ⟨sound_init, by simp [init, k.idle_ne_main.symm]⟩
  · obtain ⟨e, allowed, done⟩ := stepped
    obtain ⟨s₁, done', sound, runs, -⟩ := kept.1.step anywhere kept.2 allowed
    cases done.symm.trans done'
    exact ⟨sound, runs⟩

/-- A run is a list of allowed events that go through. -/
theorem Reachable.run {events : List (TaskEvent Task)} (reachable : s.Reachable k mayRun)
    (allowed : Transition.Along (step k mayRun) (Allowed k) s events)
    (done : events.foldlM (step k mayRun) s = some s')
    : s'.Reachable k mayRun :=
  allowed.invariant (Reachable k mayRun)
    (fun _ e _ reachable allowed stepped => reachable.next ⟨e, allowed, stepped⟩) reachable done

/-- The idle task, the main task and the collector. -/
def threeTasks : KernelTasks Nat :=
  ⟨0, 1, 2, by simp, by simp, by simp⟩

/-- A task is spawned and exits while the collector waits, and is freed. -/
def oneExit : List (TaskEvent Nat) :=
  [.spawn 3, .yieldCurrent, .blockCurrent .waitForExit, .dropRef 3, .exitCurrent, .yieldCurrent,
    .collect, .release]

theorem tasks_accounted_oneExit
    : ∃ s, oneExit.foldlM (step threeTasks fun _ => true) (init threeTasks) = some s
      ∧ s.state 3 = .exited ∧ s.strongCount 3 = 0 ∧ s.Accounted threeTasks fun _ => true := by
  have ends : (oneExit.foldlM (step threeTasks fun _ => true) (init threeTasks)).map
      (fun s => (s.state 3, s.strongCount 3)) = some (.exited, 0) := by decide +kernel
  obtain ⟨s, done, fields⟩ := Option.map_eq_some_iff.mp ends
  obtain ⟨isExited, isFreed⟩ := Prod.mk.inj fields
  have allowed : Transition.Along (step threeTasks fun _ => true) (Allowed threeTasks)
      (init threeTasks) oneExit := by decide +kernel
  have reachable : s.Reachable threeTasks fun _ => true := Reachable.run (.start rfl) allowed done
  exact ⟨s, done, isExited, isFreed, reachable.tasks_accounted fun _ => rfl⟩

/-- A ready task that may not run on the CPU is dropped by `resched`, here the collector. -/
theorem ready_task_freed
    : ∃ s, (init threeTasks).yieldCurrent threeTasks (fun _ => false) = some s
      ∧ s.state threeTasks.gc = .ready ∧ s.strongCount threeTasks.gc = 0 :=
  ⟨_, rfl, rfl, rfl⟩

end RCoreOS.Sync.TaskSystem
