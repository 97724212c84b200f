import RCoreOS.Scheduler.Cfs
import Mathlib.Data.List.Nodup

/-! The round-robin scheduler: a task that gives up the CPU with time left goes to the front of
the queue, and any other one goes to the back. The time slice is reset by `put_prev_task`
only, not by `add_task`, through which an unblocked task comes back.
-/

namespace RCoreOS.Scheduler

open Transition

/-- `MAX_TIME_SLICE as isize`. -/
structure MaxTimeSlice where
  ticks : Int64
  positive : 0 < ticks

/-- The scheduler with the time slices of all task objects, and the states in which the run
queue keeps them. A task that was picked is running until it is put back, blocks or exits.
-/
structure RRScheduler (Task : Type) where
  readyQueue : List Task
  timeSlice : Task → Int64
  state : Task → TaskState

namespace RRScheduler

variable {Task : Type} [DecidableEq Task] (max : MaxTimeSlice)

/-- The empty scheduler and task objects that are not yet added. -/
def new : RRScheduler Task where
  readyQueue := []
  timeSlice _ := max.ticks
  state _ := .new

def resetTimeSlice (s : RRScheduler Task) (t : Task) : RRScheduler Task :=
  { s with timeSlice := Function.update s.timeSlice t max.ticks }

def addTask (s : RRScheduler Task) (t : Task) : RRScheduler Task :=
  { s with readyQueue := s.readyQueue ++ [t] }

def removeTask (s : RRScheduler Task) (t : Task) : Option Task × RRScheduler Task :=
  if t ∈ s.readyQueue then (some t, { s with readyQueue := s.readyQueue.erase t })
  else (none, s)

def pickNextTask (s : RRScheduler Task) : Option (Task × RRScheduler Task) :=
  match s.readyQueue with
  | [] => none
  | t :: rest => some (t, { s with readyQueue := rest })

def putPrevTask (s : RRScheduler Task) (prev : Task) (preempt : Bool) : RRScheduler Task :=
  if 0 < s.timeSlice prev ∧ preempt then { s with readyQueue := prev :: s.readyQueue }
  else
    let s := s.resetTimeSlice max prev
    { s with readyQueue := s.readyQueue ++ [prev] }

def taskTick (s : RRScheduler Task) (current : Task) : Bool × RRScheduler Task :=
  let oldSlice := s.timeSlice current
  (oldSlice ≤ 1, { s with timeSlice := Function.update s.timeSlice current (oldSlice - 1) })

/-- What the run queue does with its scheduler; a pick names the task that was returned. -/
inductive Event (Task : Type) where
  | add (t : Task)
  | unblock (t : Task)
  | pick (t : Task)
  | tick (t : Task)
  | putPrev (t : Task) (preempt : Bool)
  | block (t : Task)
  | exit (t : Task)
  | remove (t : Task)
deriving DecidableEq, Repr

def setState (s : RRScheduler Task) (t : Task) (state : TaskState) : RRScheduler Task :=
  { s with state := Function.update s.state t state }

/-- The run queue adds new tasks and blocked ones, ticks and puts back running ones, and
removes ready ones.
-/
def step (s : RRScheduler Task) : Event Task → Option (RRScheduler Task)
  | .add t => if s.state t = .new then some ((s.setState t .ready).addTask t) else none
  | .unblock t => if s.state t = .blocked then some ((s.setState t .ready).addTask t) else none
  | .pick t =>
      match s.pickNextTask with
      | some (next, s) => if next = t then some (s.setState t .running) else none
      | none => none
  | .tick t => if s.state t = .running then some (s.taskTick t).2 else none
  | .putPrev t preempt =>
      if s.state t = .running then some ((s.setState t .ready).putPrevTask max t preempt)
      else none
  | .block t => if s.state t = .running then some (s.setState t .blocked) else none
  | .exit t => if s.state t = .running then some (s.setState t .exited) else none
  | .remove t =>
      if s.state t = .ready then some ((s.setState t .exited).removeTask t).2 else none

/-- The state after a list of events. -/
def run (s : RRScheduler Task) (events : List (Event Task)) : Option (RRScheduler Task) :=
  events.foldlM (step max) s

-----------------------------------------------------------------------------------------
-- What one step does
-----------------------------------------------------------------------------------------

/-- The ways a step can go, with the queue, the slices and the states it leaves. -/
inductive Moves (s : RRScheduler Task) : Event Task → RRScheduler Task → Prop
  | add (t : Task) : s.state t = .new
    → Moves s (.add t) ⟨s.readyQueue ++ [t], s.timeSlice, Function.update s.state t .ready⟩
  | unblock (t : Task) : s.state t = .blocked
    → Moves s (.unblock t) ⟨s.readyQueue ++ [t], s.timeSlice, Function.update s.state t .ready⟩
  | pick (t : Task) (rest : List Task) : s.readyQueue = t :: rest
    → Moves s (.pick t) ⟨rest, s.timeSlice, Function.update s.state t .running⟩
  | tick (t : Task) : s.state t = .running
    → Moves s (.tick t)
        ⟨s.readyQueue, Function.update s.timeSlice t (s.timeSlice t - 1), s.state⟩
  | front (t : Task) : s.state t = .running → 0 < s.timeSlice t
    → Moves s (.putPrev t true)
        ⟨t :: s.readyQueue, s.timeSlice, Function.update s.state t .ready⟩
  | back (t : Task) (preempt : Bool) : s.state t = .running
    → ¬ (0 < s.timeSlice t ∧ preempt = true)
    → Moves s (.putPrev t preempt)
        ⟨s.readyQueue ++ [t], Function.update s.timeSlice t max.ticks,
          Function.update s.state t .ready⟩
  | block (t : Task) : s.state t = .running
    → Moves s (.block t) ⟨s.readyQueue, s.timeSlice, Function.update s.state t .blocked⟩
  | exit (t : Task) : s.state t = .running
    → Moves s (.exit t) ⟨s.readyQueue, s.timeSlice, Function.update s.state t .exited⟩
  | remove (t : Task) : s.state t = .ready
    → Moves s (.remove t)
        ⟨s.readyQueue.erase t, s.timeSlice, Function.update s.state t .exited⟩

variable {max} {s s' : RRScheduler Task} {event : Event Task}

theorem moves_of_step (stepped : s.step max event = some s') : s.Moves max event s' := by
  cases event with
  | add t =>
      obtain ⟨new, ⟨⟩⟩ := Option.ite_none_right_eq_some.mp stepped
      exact .add t new
  | unblock t =>
      obtain ⟨blocked, ⟨⟩⟩ := Option.ite_none_right_eq_some.mp stepped
      exact .unblock t blocked
  | pick t =>
      simp only [step, pickNextTask] at stepped
      split at stepped
      · rename_i next left found
        split at found
        · cases found
        · rename_i front rest queue
          cases found
          obtain ⟨rfl, ⟨⟩⟩ := Option.ite_none_right_eq_some.mp stepped
          exact .pick _ rest queue
      · cases stepped
  | tick t =>
      obtain ⟨running, ⟨⟩⟩ := Option.ite_none_right_eq_some.mp stepped
      exact .tick t running
  | putPrev t preempt =>
      obtain ⟨running, ⟨⟩⟩ := Option.ite_none_right_eq_some.mp stepped
      unfold putPrevTask
      split
      · rename_i left
        obtain ⟨positive, rfl⟩ := left
        exact .front t running positive
      · rename_i spent
        exact .back t preempt running spent
  | block t =>
      obtain ⟨running, ⟨⟩⟩ := Option.ite_none_right_eq_some.mp stepped
      exact .block t running
  | exit t =>
      obtain ⟨running, ⟨⟩⟩ := Option.ite_none_right_eq_some.mp stepped
      exact .exit t running
  | remove t =>
      obtain ⟨ready, ⟨⟩⟩ := Option.ite_none_right_eq_some.mp stepped
      unfold removeTask
      split
      · exact .remove t ready
      · rename_i absent
        have kept : s.readyQueue.erase t = s.readyQueue := List.erase_of_not_mem absent
        have moved : s.Moves max (.remove t) _ := .remove t ready
        rw [kept] at moved
        exact moved

-----------------------------------------------------------------------------------------
-- The queue, in every run
-----------------------------------------------------------------------------------------

/-- The queue holds ready tasks, each of them once. -/
structure Queued (s : RRScheduler Task) : Prop where
  ready : ∀ t ∈ s.readyQueue, s.state t = .ready
  nodup : s.readyQueue.Nodup

omit [DecidableEq Task] in
theorem Queued.not_mem (queued : s.Queued) {t : Task} {state : TaskState}
    (other : s.state t = state) (unready : state ≠ .ready)
    : t ∉ s.readyQueue :=
  fun member => unready (other.symm.trans (queued.ready t member))

/-- A task that is not queued becomes ready and is put into the queue. -/
theorem Queued.insert (queued : s.Queued) {t : Task} (absent : t ∉ s.readyQueue)
    (queue : List Task) (perm : queue.Perm (t :: s.readyQueue)) (timeSlice : Task → Int64)
    : Queued ⟨queue, timeSlice, Function.update s.state t .ready⟩ where
  ready := by
    intro u member
    change Function.update s.state t .ready u = .ready
    by_cases same : u = t
    · rw [same, Function.update_self]
    · rw [Function.update_of_ne same]
      exact queued.ready u (List.mem_of_ne_of_mem same (perm.mem_iff.mp member))
  nodup := perm.nodup_iff.mpr (List.nodup_cons.mpr ⟨absent, queued.nodup⟩)

/-- A task that is not in the new queue changes its state. -/
theorem Queued.shrink (queued : s.Queued) {t : Task} {queue : List Task}
    (sub : queue.Sublist s.readyQueue) (absent : t ∉ queue) (state : TaskState)
    : Queued ⟨queue, s.timeSlice, Function.update s.state t state⟩ where
  ready := by
    intro u member
    change Function.update s.state t state u = .ready
    have other : u ≠ t := fun same => absent (same ▸ member)
    rw [Function.update_of_ne other]
    exact queued.ready u (sub.subset member)
  nodup := queued.nodup.sublist sub

theorem Queued.step (queued : s.Queued) (stepped : s.step max event = some s') : s'.Queued := by
  cases moves_of_step stepped with
  | add t new =>
      exact queued.insert (queued.not_mem new (by decide)) _ (List.perm_append_singleton ..) _
  | unblock t blocked =>
      exact queued.insert (queued.not_mem blocked (by decide)) _ (List.perm_append_singleton ..) _
  | pick t rest queue =>
      have nodup := queued.nodup
      rw [queue] at nodup
      exact queued.shrink (queue ▸ List.sublist_cons_self ..) (List.nodup_cons.mp nodup).1 _
  | tick t running => exact ⟨queued.ready, queued.nodup⟩
  | front t running left =>
      exact queued.insert (queued.not_mem running (by decide)) _ (.refl _) _
  | back t preempt running spent =>
      exact queued.insert (queued.not_mem running (by decide)) _ (List.perm_append_singleton ..) _
  | block t running =>
      exact queued.shrink (.refl _) (queued.not_mem running (by decide)) _
  | exit t running =>
      exact queued.shrink (.refl _) (queued.not_mem running (by decide)) _
  | remove t ready =>
      exact queued.shrink List.erase_sublist (queued.nodup.not_mem_erase) _

omit [DecidableEq Task] in
theorem new_queued : (new max : RRScheduler Task).Queued where
  ready := fun _ member => absurd member List.not_mem_nil
  nodup := List.nodup_nil

/-- In every run, by the invariant rule. -/
theorem queued_of_run {events : List (Event Task)} (ran : (new max).run max events = some s)
    : s.Queued := by
  have everywhere : Along (step max) (fun _ _ => True) (new max) events :=
    .of_forall (fun _ _ _ => trivial) _
  exact everywhere.invariant Queued (fun _ _ _ queued _ stepped => queued.step stepped)
    new_queued ran

-----------------------------------------------------------------------------------------
-- Turns
-----------------------------------------------------------------------------------------

/-- `u` stands in the queue before every place of `t`, which is not running. -/
def Ahead (u t : Task) (s : RRScheduler Task) : Prop :=
  s.state t ≠ .running
    ∧ ∃ front back, s.readyQueue = front ++ back ∧ u ∈ front ∧ t ∉ front

/-- A task that does not run does so only when it is the one that is picked. -/
theorem rests {t v : Task} {state : TaskState} (resting : s.state t ≠ .running)
    (quiet : v = t → state ≠ .running)
    : Function.update s.state v state t ≠ .running := by
  by_cases same : v = t
  · subst same
    rw [Function.update_self]
    exact quiet rfl
  · rwa [Function.update_of_ne (Ne.symm same)]

/-- A step that neither picks nor removes `u` leaves it ahead of `t`, and does not pick `t`. -/
theorem Ahead.step {u t : Task} (ahead : Ahead u t s) (picked : event ≠ .pick u)
    (removed : event ≠ .remove u) (stepped : s.step max event = some s')
    : Ahead u t s' ∧ event ≠ .pick t := by
  obtain ⟨resting, front, back, queue, member, absent⟩ := ahead
  cases moves_of_step stepped with
  | add v new =>
      exact ⟨⟨rests resting fun _ => by decide, front, back ++ [v],
        by rw [queue, List.append_assoc], member, absent⟩, by simp⟩
  | unblock v blocked =>
      exact ⟨⟨rests resting fun _ => by decide, front, back ++ [v],
        by rw [queue, List.append_assoc], member, absent⟩, by simp⟩
  | pick v rest head =>
      cases front with
      | nil => exact absurd member List.not_mem_nil
      | cons first front =>
          rw [queue, List.cons_append, List.cons.injEq] at head
          obtain ⟨rfl, rfl⟩ := head
          have other : first ≠ t := fun same => absent (same ▸ List.mem_cons_self ..)
          refine ⟨⟨rests resting fun same => absurd same other, front, back, rfl, ?_, ?_⟩, ?_⟩
          · exact List.mem_of_ne_of_mem (fun same => picked (same ▸ rfl)) member
          · exact fun later => absent (List.mem_cons_of_mem _ later)
          · exact fun same => other (Event.pick.inj same)
  | tick v running => exact ⟨⟨resting, front, back, queue, member, absent⟩, by simp⟩
  | front v running left =>
      have other : t ≠ v := fun same => resting (same ▸ running)
      refine ⟨⟨rests resting fun _ => by decide, v :: front, back, by rw [queue, List.cons_append],
        List.mem_cons_of_mem _ member, ?_⟩, by simp⟩
      exact fun found => absent (List.mem_of_ne_of_mem other found)
  | back v preempt running spent =>
      exact ⟨⟨rests resting fun _ => by decide, front, back ++ [v],
        by rw [queue, List.append_assoc], member, absent⟩, by simp⟩
  | block v running =>
      exact ⟨⟨rests resting fun _ => by decide, front, back, queue, member, absent⟩, by simp⟩
  | exit v running =>
      exact ⟨⟨rests resting fun _ => by decide, front, back, queue, member, absent⟩, by simp⟩
  | remove v ready =>
      have kept : u ≠ v := fun same => removed (same ▸ rfl)
      refine ⟨⟨rests resting fun _ => by decide, ?_⟩, by simp⟩
      rw [queue, List.erase_append]
      split
      · exact ⟨front.erase v, back, rfl, (List.mem_erase_of_ne kept).mpr member,
          fun found => absent (List.mem_of_mem_erase found)⟩
      · exact ⟨front, back.erase v, rfl, member, absent⟩

/-- A task at the back is not picked again before every other task that is queued now has been
picked or removed.
-/
def Fair (max : MaxTimeSlice) (s : RRScheduler Task) : Prop :=
  ∀ t u queue, s.readyQueue = queue ++ [t] → u ∈ queue
    → ∀ more s' next, s.run max more = some s' → s'.step max (.pick t) = some next
      → .pick u ∈ more ∨ .remove u ∈ more

theorem Queued.fair (queued : s.Queued) : Fair max s := by
  intro t u queue back member more s' next ran again
  by_contra untouched
  rw [not_or] at untouched
  have nodup := queued.nodup
  rw [back] at nodup
  have last : t ∉ queue := fun found =>
    (List.nodup_append.mp nodup).2.2 t found t (List.mem_singleton_self t) rfl
  have ready := queued.ready t (by simp [back])
  have ahead : Ahead u t s := ⟨by simp [ready], queue, [t], back, member, last⟩
  have others : Along (RRScheduler.step max)
      (fun _ event => event ≠ .pick u ∧ event ≠ .remove u) s more := by
    refine .of_forall (fun event taken _ => ⟨?_, ?_⟩) s
    · rintro rfl
      exact untouched.1 taken
    · rintro rfl
      exact untouched.2 taken
  have still : Ahead u t s' := others.invariant (Ahead u t)
    (fun _ _ _ ahead other stepped => (ahead.step other.1 other.2 stepped).1) ahead ran
  have other : Event.pick t ≠ .pick u := fun same => last (Event.pick.inj same ▸ member)
  exact (still.step other (by simp) again).2 rfl

-----------------------------------------------------------------------------------------
-- Time slices
-----------------------------------------------------------------------------------------

/-- A task that is queued with the slice it has left has some left. An upper bound is lost
only by a slice that has wrapped around.
-/
def Timely (max : MaxTimeSlice) (s : RRScheduler Task) : Event Task → Prop
  | .unblock t => 0 < s.timeSlice t ∧ s.timeSlice t ≤ max.ticks
  | .putPrev t true => s.timeSlice t ≤ max.ticks
  | _ => True

instance (max : MaxTimeSlice) (s : RRScheduler Task) (event : Event Task)
    : Decidable (s.Timely max event) :=
  match event with
  | .unblock t =>
      inferInstanceAs (Decidable (0 < s.timeSlice t ∧ s.timeSlice t ≤ max.ticks))
  | .putPrev t true => inferInstanceAs (Decidable (s.timeSlice t ≤ max.ticks))
  | .putPrev _ false | .add _ | .pick _ | .tick _ | .block _ | .exit _ | .remove _ =>
      isTrue trivial

/-- New and queued tasks have time left. -/
structure Sliced (max : MaxTimeSlice) (s : RRScheduler Task) : Prop extends s.Queued where
  fresh : ∀ t, s.state t = .new → s.timeSlice t = max.ticks
  left : ∀ t ∈ s.readyQueue, 0 < s.timeSlice t ∧ s.timeSlice t ≤ max.ticks

omit [DecidableEq Task] in
theorem new_sliced : (new max : RRScheduler Task).Sliced max where
  toQueued := new_queued
  fresh := fun _ _ => rfl
  left := fun _ member => absurd member List.not_mem_nil

/-- A task whose state changes to another one than new leaves the fresh ones as they are. -/
theorem Sliced.fresh_update (sliced : s.Sliced max) (t : Task) {state : TaskState}
    (old : state ≠ .new) {u : Task} (fresh : Function.update s.state t state u = .new)
    : s.timeSlice u = max.ticks := by
  by_cases same : u = t
  · rw [same, Function.update_self] at fresh
    exact absurd fresh old
  · rw [Function.update_of_ne same] at fresh
    exact sliced.fresh u fresh

theorem Sliced.step (sliced : s.Sliced max) (timely : s.Timely max event)
    (stepped : s.step max event = some s')
    : s'.Sliced max := by
  have queued' := sliced.toQueued.step stepped
  cases moves_of_step stepped with
  | add t new =>
      refine ⟨queued', fun u => sliced.fresh_update t (by decide), fun u member => ?_⟩
      rcases List.mem_append.mp member with older | added
      · exact sliced.left u older
      · rw [List.mem_singleton.mp added, sliced.fresh t new]
        exact ⟨max.positive, Int64.le_refl _⟩
  | unblock t blocked =>
      refine ⟨queued', fun u => sliced.fresh_update t (by decide), fun u member => ?_⟩
      rcases List.mem_append.mp member with older | added
      · exact sliced.left u older
      · rw [List.mem_singleton.mp added]
        exact timely
  | pick t rest queue =>
      refine ⟨queued', fun u => sliced.fresh_update t (by decide), fun u member => ?_⟩
      exact sliced.left u (queue ▸ List.mem_cons_of_mem _ member)
  | tick t running =>
      have others (u : Task) (state : s.state u ≠ .running)
          : Function.update s.timeSlice t (s.timeSlice t - 1) u = s.timeSlice u :=
        Function.update_of_ne (fun same : u = t => state (same ▸ running)) _ _
      refine ⟨queued', fun u fresh => ?_, fun u member => ?_⟩
      · exact (others u (by rw [fresh]; decide)).trans (sliced.fresh u fresh)
      · change 0 < Function.update s.timeSlice t _ u ∧ Function.update s.timeSlice t _ u ≤ _
        rw [others u (by rw [sliced.ready u member]; decide)]
        exact sliced.left u member
  | front t running left =>
      refine ⟨queued', fun u => sliced.fresh_update t (by decide), fun u member => ?_⟩
      rcases List.mem_cons.mp member with rfl | older
      · exact ⟨left, timely⟩
      · exact sliced.left u older
  | back t preempt running spent =>
      refine ⟨queued', fun u fresh => ?_, fun u member => ?_⟩
      · have kept := sliced.fresh_update t (by decide) fresh
        change Function.update s.timeSlice t _ u = _
        by_cases same : u = t
        · rw [same, Function.update_self]
        · rw [Function.update_of_ne same, kept]
      · change 0 < Function.update s.timeSlice t _ u ∧ Function.update s.timeSlice t _ u ≤ _
        by_cases same : u = t
        · rw [same, Function.update_self]
          exact ⟨max.positive, Int64.le_refl _⟩
        · rw [Function.update_of_ne same]
          have older := (List.mem_append.mp member).resolve_right
            (fun added => same (List.mem_singleton.mp added))
          exact sliced.left u older
  | block t running =>
      exact ⟨queued', fun u => sliced.fresh_update t (by decide), sliced.left⟩
  | exit t running =>
      exact ⟨queued', fun u => sliced.fresh_update t (by decide), sliced.left⟩
  | remove t ready =>
      exact ⟨queued', fun u => sliced.fresh_update t (by decide),
        fun u member => sliced.left u (List.mem_of_mem_erase member)⟩

/-- In every timely run, by the invariant rule. -/
theorem sliced_of_run {events : List (Event Task)} (ran : (new max).run max events = some s)
    (timely : Along (step max) (Timely max) (new max) events)
    : s.Sliced max :=
  timely.invariant (Sliced max) (fun _ _ _ sliced timely stepped => sliced.step timely stepped)
    new_sliced ran

-----------------------------------------------------------------------------------------
-- Ticks
-----------------------------------------------------------------------------------------

/-- An event with which a running task gives up the CPU. -/
def Event.GivesUp (t : Task) : Event Task → Prop
  | .putPrev u _ => u = t
  | .block u => u = t
  | .exit u => u = t
  | _ => False

/-- A running task stays so until it gives up the CPU, and only its ticks change its slice. -/
theorem running_step {t : Task} (running : s.state t = .running) (stays : ¬ event.GivesUp t)
    (stepped : s.step max event = some s')
    : s'.state t = .running
      ∧ s'.timeSlice t = if event = .tick t then s.timeSlice t - 1 else s.timeSlice t := by
  have other {u : Task} {state : TaskState} (is : s.state u = state) (differs : state ≠ .running)
      : t ≠ u :=
    fun same => differs (is.symm.trans (same ▸ running))
  cases moves_of_step stepped with
  | add u new => simp [Function.update_of_ne (other new (by decide)), running]
  | unblock u blocked => simp [Function.update_of_ne (other blocked (by decide)), running]
  | pick u rest queue =>
      by_cases same : t = u
      · simp [same]
      · simp [Function.update_of_ne same, running]
  | tick u ticked =>
      by_cases same : u = t
      · simp [same, running]
      · simp [Function.update_of_ne (Ne.symm same), running, same]
  | front u ran left => simp [Function.update_of_ne (Ne.symm stays), running]
  | back u preempt ran spent => simp [Function.update_of_ne (Ne.symm stays), running]
  | block u ran => simp [Function.update_of_ne (Ne.symm stays), running]
  | exit u ran => simp [Function.update_of_ne (Ne.symm stays), running]
  | remove u ready => simp [Function.update_of_ne (other ready (by decide)), running]

theorem pred_toInt {slice : Int64} (positive : 0 < slice.toInt)
    : (slice - 1).toInt = slice.toInt - 1 := by
  have upper := slice.toInt_lt
  rw [Int64.toInt_sub, Int64.toInt_one, Int.bmod_eq_of_le (by omega) (by omega)]

/-- As long as a task runs, its slice is what it had, less the ticks so far, by induction on
the events.
-/
theorem ticked {t : Task} {events : List (Event Task)} (running : s.state t = .running)
    (stays : ∀ event ∈ events, ¬ event.GivesUp t)
    (few : (events.count (.tick t) : Int) ≤ (s.timeSlice t).toInt)
    (ran : s.run max events = some s')
    : (s'.timeSlice t).toInt = (s.timeSlice t).toInt - events.count (.tick t) := by
  induction events generalizing s with
  | nil =>
      cases ran
      simp
  | cons event rest ih =>
      rw [run, List.foldlM_cons] at ran
      obtain ⟨next, first, more⟩ := Option.bind_eq_some_iff.mp ran
      obtain ⟨running', slice⟩ := running_step running (stays event (List.mem_cons_self ..)) first
      have stays' : ∀ event ∈ rest, ¬ event.GivesUp t :=
        fun event later => stays event (List.mem_cons_of_mem _ later)
      by_cases tick : event = .tick t
      · rw [if_pos tick] at slice
        rw [tick, List.count_cons_self] at few ⊢
        have left := pred_toInt (show 0 < (s.timeSlice t).toInt by omega)
        rw [← slice] at left
        rw [ih running' stays' (by omega) more]
        omega
      · rw [if_neg tick] at slice
        rw [List.count_cons_of_ne tick] at few ⊢
        rw [ih running' stays' (by rw [slice]; exact few) more, slice]

/-- A picked task has between 1 and the maximal number of ticks left, and while it runs, the
tick that uses up this number is the first one to ask for preemption.
-/
def Timed (max : MaxTimeSlice) (s : RRScheduler Task) : Prop :=
  ∀ t next, s.step max (.pick t) = some next →
    1 ≤ (next.timeSlice t).toInt ∧ (next.timeSlice t).toInt ≤ max.ticks.toInt
      ∧ ∀ more s', next.run max more = some s' → (∀ event ∈ more, ¬ event.GivesUp t)
        → (more.count (.tick t) : Int) < (next.timeSlice t).toInt
        → ((s'.taskTick t).1 = true
          ↔ (more.count (.tick t) : Int) + 1 = (next.timeSlice t).toInt)

theorem Sliced.timed (sliced : s.Sliced max) : s.Timed max := by
  intro t next picked
  cases moves_of_step picked with
  | pick t rest queue =>
      obtain ⟨positive, small⟩ := sliced.left t (by simp [queue])
      rw [Int64.lt_iff_toInt_lt, Int64.toInt_zero] at positive
      rw [Int64.le_iff_toInt_le] at small
      refine ⟨by change 1 ≤ (s.timeSlice t).toInt; omega, small, ?_⟩
      intro more s' ran stays few
      have left := ticked (by simp) stays (Int.le_of_lt few) ran
      change _ = (s.timeSlice t).toInt - _ at left
      change _ < (s.timeSlice t).toInt at few
      simp only [taskTick, decide_eq_true_eq, Int64.le_iff_toInt_le, left, Int64.toInt_one]
      omega

/-- In every run in which the tasks that are queued with the slice they have left have some
left, picked tasks have their ticks. In every run the turns are fair.
-/
theorem timed_and_fair {events : List (Event Task)} (ran : (new max).run max events = some s)
    : (Along (step max) (Timely max) (new max) events → s.Timed max) ∧ Fair max s :=
  ⟨fun timely => (sliced_of_run ran timely).timed, (queued_of_run ran).fair⟩

def fiveTicks : MaxTimeSlice where
  ticks := 5
  positive := by decide

/-- Two tasks, of which the first blocks with two ticks left and comes back. -/
def timelyEvents : List (Event Nat) :=
  [.add 0, .add 1, .pick 0, .tick 0, .tick 0, .tick 0, .block 0, .pick 1, .unblock 0,
    .putPrev 1 false]

theorem timed_and_fair_timelyEvents
    : ∃ s, (new fiveTicks).run fiveTicks timelyEvents = some s ∧ s.Timed fiveTicks
      ∧ Fair fiveTicks s := by
  have ran : (new fiveTicks).run fiveTicks timelyEvents = some _ := rfl
  obtain ⟨timed, fair⟩ := timed_and_fair ran
  exact ⟨_, ran, timed (by decide), fair⟩

/-- A task that uses up its slice of five ticks, blocks and comes back. -/
def spentEvents : List (Event Nat) :=
  [.add 0, .pick 0, .tick 0, .tick 0, .tick 0, .tick 0, .tick 0, .block 0, .unblock 0]

/-- It is picked with no tick left. -/
theorem spentEvents_untimed
    : ∃ s next, (new fiveTicks).run fiveTicks spentEvents = some s
      ∧ s.step fiveTicks (.pick 0) = some next ∧ next.timeSlice 0 = 0 ∧ ¬ s.Timed fiveTicks := by
  refine ⟨_, _, rfl, rfl, by decide, fun timed => ?_⟩
  have positive := (timed 0 _ rfl).1
  revert positive
  decide

end RRScheduler
end RCoreOS.Scheduler
