import RCoreOS.Axtask.SwitchTo
import RCoreOS.Lib.BTreeMap

/-! Preemption by priority: `preempt_yield` asks the task table for the greatest priority and
requests that task from the selection loop, which only knows the queue. Kernel tasks that are
selected have nothing to run and select again.
-/

namespace RCoreOS.Axtask

namespace Kernel

variable {Ref : Type}

/-- One turn of the loop over `TID2TASK`, with `max_pri` and `max_pri_task`. -/
def maxPriTurn (k : Kernel Ref) (pri : Ref → Nat) (cid : Nat) (best : Nat × Nat)
    (entry : Nat × Ref) : Nat × Nat :=
  if pri entry.2 > best.1 ∧ k.tid entry.2 ≠ cid then (pri entry.2, entry.1) else best

def getMaxPriTaskId (k : Kernel Ref) (pri : Ref → Nat) (tid2task : BTreeMap Nat Ref) (cid : Nat)
    : Nat :=
  (tid2task.entries.foldl (k.maxPriTurn pri cid) (0, 0)).2

/-- A caller that was switched back to has its mark taken away, and does not switch again. -/
def preemptYield [DecidableEq Ref] (turns : Nat) (k : Kernel Ref) (pri : Ref → Nat)
    (tid2task : BTreeMap Nat Ref) (cid : Nat) : Control × Kernel Ref :=
  let maxPriTid := k.getMaxPriTaskId pri tid2task cid
  if maxPriTid ≠ 0 then
    if (k.tasks k.current).hasBeenPreempted then k.resched turns true maxPriTid
    else (.returned, k)
  else (.returned, k)

-----------------------------------------------------------------------------------------
-- Sound preemption
-----------------------------------------------------------------------------------------

/-- A ready task that this CPU may run and that has a greater priority than the current one. -/
def Higher (k : Kernel Ref) (pri : Ref → Nat) (t : Ref) : Prop :=
  (k.tasks t).state = .ready ∧ k.runsHere t = true ∧ pri k.current < pri t

/-- Whether it is sound to make a task current: another one than the caller is ready and has a
greater priority, and if there are tasks above the caller it has the greatest priority of them.
-/
structure SoundChoice (k : Kernel Ref) (pri : Ref → Nat) (next : Ref) : Prop where
  above : next ≠ k.current → (k.tasks next).state = .ready ∧ pri k.current < pri next
  greatest : (∃ t, k.Higher pri t) → k.Higher pri next ∧ ∀ t, k.Higher pri t → pri t ≤ pri next

/-- Every call that ends without a panic makes a sound choice. -/
def PreemptsSoundly [DecidableEq Ref] (k : Kernel Ref) (pri : Ref → Nat)
    (tid2task : BTreeMap Nat Ref) (cid : Nat) : Prop :=
  ∀ turns control k', k.preemptYield turns pri tid2task cid = (control, k')
    → control = .returned ∨ control = .switched
    → k.SoundChoice pri k'.current

/-- A user task that the selection loop does not drop and that this CPU may run. -/
def runnable (k : Kernel Ref) (t : Ref) : Bool :=
  k.tid t != 3 && k.runsHere t && !(k.tasks t).isKernelTask

/-- The task `cid` runs, has started and is marked; the queued tasks are ready; the table knows
the caller and the tasks above it by their ids, where only the idle task is stored under an id
of another task.
-/
structure Preemptible (k : Kernel Ref) (pri : Ref → Nat) (tid2task : BTreeMap Nat Ref)
    (cid : Nat) : Prop where
  caller : k.tid k.current = cid
  running : (k.tasks k.current).state = .running
  started : (k.tasks k.current).isStarted = true
  notIdle : (k.tasks k.current).isIdle = false
  runs : k.runnable k.current = true
  marked : (k.tasks k.current).hasBeenPreempted = true
  idle : k.tid k.idleTask = 3 ∧ (k.tasks k.idleTask).isKernelTask = true
  ready : ∀ t ∈ k.readyQueue, (k.tasks t).state = .ready
  distinct : ((k.current :: k.readyQueue).map k.tid).Nodup
  positive : ∀ entry ∈ tid2task.entries, entry.1 ≠ 0
  own : ∀ entry ∈ tid2task.entries, entry.2 ≠ k.idleTask → entry.1 = k.tid entry.2
  listedCaller : (cid, k.current) ∈ tid2task.entries
  listed : ∀ t, k.Higher pri t → (k.tid t, t) ∈ tid2task.entries

/-- The entry whose key `get_max_pri_task_id` returns: of the tasks with other ids than `cid`
it has the greatest priority, and it comes first among those with that priority.
-/
structure Topmost (k : Kernel Ref) (pri : Ref → Nat) (tid2task : BTreeMap Nat Ref) (cid : Nat)
    (entry : Nat × Ref) : Prop where
  member : entry ∈ tid2task.entries
  other : k.tid entry.2 ≠ cid
  positive : 0 < pri entry.2
  greatest : ∀ e ∈ tid2task.entries, k.tid e.2 ≠ cid → pri e.2 ≤ pri entry.2
  first : ∀ e ∈ tid2task.entries, k.tid e.2 ≠ cid → pri e.2 = pri entry.2 → entry.1 ≤ e.1

-----------------------------------------------------------------------------------------
-- The greatest priority
-----------------------------------------------------------------------------------------

section MaxPri

variable {k : Kernel Ref} {pri : Ref → Nat} {cid : Nat}

/-- The loop keeps its best task, or ends with the first one that has the greatest priority,
by induction on the entries.
-/
theorem maxPriTurn_foldl (k : Kernel Ref) (pri : Ref → Nat) (cid : Nat)
    (entries : List (Nat × Ref)) (best : Nat × Nat)
    : (entries.foldl (k.maxPriTurn pri cid) best = best
        ∧ ∀ e ∈ entries, k.tid e.2 ≠ cid → pri e.2 ≤ best.1)
      ∨ ∃ pre entry post, entries = pre ++ entry :: post
        ∧ entries.foldl (k.maxPriTurn pri cid) best = (pri entry.2, entry.1)
        ∧ k.tid entry.2 ≠ cid ∧ best.1 < pri entry.2
        ∧ (∀ e ∈ pre, k.tid e.2 ≠ cid → pri e.2 < pri entry.2)
        ∧ ∀ e ∈ post, k.tid e.2 ≠ cid → pri e.2 ≤ pri entry.2 := by
  induction entries generalizing best with
  | nil => exact .inl ⟨rfl, by simp⟩
  | cons head rest ih =>
      rw [List.foldl_cons]
      by_cases better : pri head.2 > best.1 ∧ k.tid head.2 ≠ cid
      · have turn : k.maxPriTurn pri cid best head = (pri head.2, head.1) := if_pos better
        rw [turn]
        rcases ih (pri head.2, head.1) with ⟨kept, bound⟩
          | ⟨pre, entry, post, split, found, other, above, before, after⟩
        · exact .inr ⟨[], head, rest, rfl, kept, better.2, better.1, by simp, bound⟩
        · refine .inr ⟨head :: pre, entry, post, by rw [split]; rfl, found, other,
            better.1.trans above, ?_, after⟩
          intro e member otherE
          rcases List.mem_cons.mp member with rfl | later
          · exact above
          · exact before e later otherE
      · have turn : k.maxPriTurn pri cid best head = best := if_neg better
        have below (otherHead : k.tid head.2 ≠ cid) : pri head.2 ≤ best.1 := by
          by_contra above
          exact better ⟨by omega, otherHead⟩
        rw [turn]
        rcases ih best with ⟨kept, bound⟩
          | ⟨pre, entry, post, split, found, other, above, before, after⟩
        · refine .inl ⟨kept, fun e member otherE => ?_⟩
          rcases List.mem_cons.mp member with rfl | later
          · exact below otherE
          · exact bound e later otherE
        · refine .inr ⟨head :: pre, entry, post, by rw [split]; rfl, found, other, above, ?_, after⟩
          intro e member otherE
          rcases List.mem_cons.mp member with rfl | later
          · exact (below otherE).trans_lt above
          · exact before e later otherE

variable {tid2task : BTreeMap Nat Ref}

/-- The function returns the key of a topmost entry, or 0 when no other task has a priority. -/
theorem getMaxPriTaskId_topmost (k : Kernel Ref) (pri : Ref → Nat)
    (tid2task : BTreeMap Nat Ref) (cid : Nat)
    : (k.getMaxPriTaskId pri tid2task cid = 0
        ∧ ∀ e ∈ tid2task.entries, k.tid e.2 ≠ cid → pri e.2 = 0)
      ∨ ∃ entry, k.Topmost pri tid2task cid entry
        ∧ k.getMaxPriTaskId pri tid2task cid = entry.1 := by
  unfold getMaxPriTaskId
  rcases k.maxPriTurn_foldl pri cid tid2task.entries (0, 0) with
    ⟨kept, bound⟩ | ⟨pre, entry, post, split, found, other, above, before, after⟩
  · exact .inl ⟨by rw [kept], fun e member otherE => Nat.le_zero.mp (bound e member otherE)⟩
  · have sorted := tid2task.sorted
    rw [split, List.pairwise_append, List.pairwise_cons] at sorted
    have position (e : Nat × Ref) (member : e ∈ tid2task.entries)
        : e ∈ pre ∨ e = entry ∨ e ∈ post := by
      rw [split] at member
      simpa using member
    refine .inr ⟨entry, ⟨by simp [split], other, above, ?_, ?_⟩, by rw [found]⟩
    · intro e member otherE
      rcases position e member with early | rfl | late
      · exact (before e early otherE).le
      · exact le_rfl
      · exact after e late otherE
    · intro e member otherE same
      rcases position e member with early | rfl | late
      · exact absurd same (before e early otherE).ne
      · exact le_rfl
      · exact (sorted.2.1.1 e late).le

/-- Topmost entries have one key. -/
theorem Topmost.key_unique {entry entry' : Nat × Ref}
    (top : k.Topmost pri tid2task cid entry) (top' : k.Topmost pri tid2task cid entry')
    : entry.1 = entry'.1 := by
  have same : pri entry'.2 = pri entry.2 :=
    le_antisymm (top.greatest _ top'.member top'.other) (top'.greatest _ top.member top.other)
  exact le_antisymm (top.first _ top'.member top'.other same)
    (top'.first _ top.member top.other same.symm)

/-- The table has one entry for each key. -/
theorem entry_unique {key : Nat} {t u : Ref} (left : (key, t) ∈ tid2task.entries)
    (right : (key, u) ∈ tid2task.entries)
    : t = u := by
  have found := BTreeMap.get_eq_some.mpr left
  rw [BTreeMap.get_eq_some.mpr right] at found
  exact (Option.some.inj found).symm

end MaxPri

-----------------------------------------------------------------------------------------
-- The selection loop without task 3
-----------------------------------------------------------------------------------------

/-- The loop drops task 3, which is the idle task. -/
def withoutIdle (k : Kernel Ref) (queue : List Ref) : List Ref :=
  queue.filter (fun t => k.tid t != 3)

section WithoutIdle

variable {k k' : Kernel Ref} {queue : List Ref} {tid : Nat} {t : Ref}

@[simp]
theorem mem_withoutIdle : t ∈ k.withoutIdle queue ↔ t ∈ queue ∧ k.tid t ≠ 3 := by
  simp [withoutIdle]

theorem withoutIdle_append (left right : List Ref)
    : k.withoutIdle (left ++ right) = k.withoutIdle left ++ k.withoutIdle right :=
  List.filter_append ..

theorem withoutIdle_cons_three (three : k.tid t = 3)
    : k.withoutIdle (t :: queue) = k.withoutIdle queue :=
  List.filter_cons_of_neg (by simp [three])

theorem withoutIdle_cons (notThree : k.tid t ≠ 3)
    : k.withoutIdle (t :: queue) = t :: k.withoutIdle queue :=
  List.filter_cons_of_pos (by simp [notThree])

theorem withoutIdle_congr (tids : ∀ t, k'.tid t = k.tid t)
    : k'.withoutIdle queue = k.withoutIdle queue := by
  simp only [withoutIdle, tids]

/-- The loop chooses the same task without the tasks it drops, by its own recursion. -/
theorem selectNext_withoutIdle (k : Kernel Ref) (tid : Nat) (queue : List Ref) (seen : List Nat)
    : k.selectNext tid (k.withoutIdle queue) seen
      = ((k.selectNext tid queue seen).1, k.withoutIdle (k.selectNext tid queue seen).2) := by
  fun_induction selectNext k tid queue seen with
  | case1 => simp [withoutIdle, selectNext]
  | case2 seen task rest three ih => rw [withoutIdle_cons_three three, ih]
  | case3 seen task rest notThree again started =>
      rw [withoutIdle_cons notThree, selectNext, if_neg notThree, if_pos again, if_pos started]
  | case4 seen task rest notThree again fresh =>
      rw [withoutIdle_cons notThree, selectNext, if_neg notThree, if_pos again, if_neg fresh]
  | case5 seen task rest notThree unseen chosen =>
      rw [withoutIdle_cons notThree, selectNext, if_neg notThree, if_neg unseen, if_pos chosen]
  | case6 seen task rest notThree unseen refused ih =>
      rw [withoutIdle_cons notThree, selectNext, if_neg notThree, if_neg unseen, if_neg refused,
        ← ih, withoutIdle_append, withoutIdle_cons notThree]
      rfl

end WithoutIdle

section Candidates

variable [DecidableEq Ref] {k : Kernel Ref} {tid : Nat} {preempt : Bool} {t : Ref}
  {pre post : List Ref}

/-- The tasks that the loop may choose, in the order of the queue. -/
def candidates (k : Kernel Ref) : List Ref :=
  k.withoutIdle k.tasksToKeep

/-- The state after the selection loop, which leaves the queue. -/
def requeued (k : Kernel Ref) (preempt : Bool) (queue : List Ref) : Kernel Ref :=
  { k.putCurrent preempt with readyQueue := queue }

/-- What the loop does with the candidates it does with the whole queue. -/
theorem selected_of_loop {chosen : Option Ref} {left : List Ref}
    (loop : (k.putCurrent preempt).selectNext tid k.candidates [] = (chosen, left))
    : ∃ queue, k.selected preempt tid = (k.requeued preempt queue, chosen.getD k.idleTask)
        ∧ k.withoutIdle queue = left := by
  have kept := k.putCurrent_tasks preempt
  have whole := selectNext_withoutIdle (k.putCurrent preempt) tid k.tasksToKeep []
  rw [withoutIdle_congr (fun v => (kept v).1), withoutIdle_congr (fun v => (kept v).1)] at whole
  obtain ⟨same, rest⟩ := Prod.mk.inj (loop.symm.trans whole)
  refine ⟨_, ?_, rest.symm⟩
  rw [same, ← k.putCurrent_readyQueue preempt, ← k.putCurrent_idleTask preempt]
  rfl

/-- The first eligible candidate is selected, and the candidates before it are put behind. -/
theorem selected_eligible (preempt : Bool) (split : k.candidates = pre ++ t :: post)
    (distinct : (k.candidates.map k.tid).Nodup)
    (refused : ∀ v ∈ pre, k.eligible tid v = false) (eligible : k.eligible tid t = true)
    : ∃ queue, k.selected preempt tid = (k.requeued preempt queue, t)
        ∧ k.withoutIdle queue = post ++ pre := by
  have kept := k.putCurrent_tasks preempt
  have kind (v : Ref) (member : v ∈ pre ++ t :: post) : k.tid v ≠ 3 := by
    rw [← split] at member
    exact (mem_withoutIdle.mp member).2
  rw [split, List.map_append, List.nodup_append] at distinct
  have passed : k.Passed tid pre :=
    ⟨fun v member => kind v (List.mem_append_left _ member), refused, distinct.1⟩
  obtain ⟨seen, sameIds, run⟩ := selectNext_pass (k := k.putCurrent preempt) [] pre
    (t :: post) [] (putCurrent_passed.mpr passed) (by simp)
  have unseen : (k.putCurrent preempt).tid t ∉ seen := by
    rw [sameIds]
    intro again
    exact distinct.2.2 (k.tid t) (by simpa [(kept _).1] using again) (k.tid t) (by simp) rfl
  rw [List.append_nil, List.nil_append, ← split, List.cons_append, selectNext,
    if_neg (by rw [(kept t).1]; exact kind t (by simp)), if_neg unseen,
    if_pos (by rwa [(kept t).2.2])] at run
  exact selected_of_loop run

/-- When no candidate is eligible, the first one is met again and selected if it has started;
otherwise it is dropped for the idle task.
-/
theorem selected_refused (preempt : Bool) (split : k.candidates = t :: post)
    (distinct : (k.candidates.map k.tid).Nodup)
    (refused : ∀ v ∈ k.candidates, k.eligible tid v = false)
    : ∃ queue, k.selected preempt tid
          = (k.requeued preempt queue, if (k.tasks t).isStarted then t else k.idleTask)
        ∧ k.withoutIdle queue = post := by
  have kept := k.putCurrent_tasks preempt
  have passed : k.Passed tid k.candidates :=
    ⟨fun v member => (mem_withoutIdle.mp member).2, refused, distinct⟩
  obtain ⟨seen, sameIds, run⟩ := selectNext_pass (k := k.putCurrent preempt) []
    k.candidates [] [] (putCurrent_passed.mpr passed) (by simp)
  have notThree : (k.putCurrent preempt).tid t ≠ 3 := by
    rw [(kept t).1]
    exact passed.kept t (by simp [split])
  have again : (k.putCurrent preempt).tid t ∈ seen := (sameIds _).mpr (by simp [split])
  rw [List.append_nil, List.append_nil, List.nil_append, List.nil_append] at run
  nth_rewrite 2 [split] at run
  rw [selectNext, if_neg notThree, if_pos again, (kept t).2.1] at run
  cases started : (k.tasks t).isStarted with
  | true =>
      rw [started, if_pos rfl] at run
      exact selected_of_loop run
  | false =>
      rw [started, if_neg (by decide)] at run
      exact selected_of_loop run

end Candidates

-----------------------------------------------------------------------------------------
-- Where a call ends
-----------------------------------------------------------------------------------------

/-- The task has not started and there is no stack for it. -/
def Starved (k : Kernel Ref) (t : Ref) : Prop :=
  (k.tasks t).isStarted = false ∧ k.allocStack = none

/-- The call made the task current, or panicked because it found no stack for it. -/
structure EndsAt (k : Kernel Ref) (t : Ref) (result : Control × Kernel Ref) : Prop where
  starved : k.Starved t → result.1 = .panicked .noStack
  current : ¬ k.Starved t → (result.1 = .returned ∨ result.1 = .switched) ∧ result.2.current = t

/-- What the operations of a reschedule leave as it is. -/
structure Alike (k k' : Kernel Ref) : Prop where
  tids : ∀ t, k'.tid t = k.tid t
  runsHere : ∀ t, k'.runsHere t = k.runsHere t
  kernelTask : ∀ t, (k'.tasks t).isKernelTask = (k.tasks t).isKernelTask
  started : ∀ t, (k'.tasks t).isStarted = (k.tasks t).isStarted
  pool : k'.kstackState = k.kstackState

section Chain

variable [DecidableEq Ref] {k k' : Kernel Ref} {tid : Nat} {preempt : Bool} {t v : Ref}
  {pre post queue : List Ref}

/-- With enough turns the call ends at the task. -/
def Reaches (k : Kernel Ref) (preempt : Bool) (tid : Nat) (t : Ref) : Prop :=
  ∃ bound, ∀ turns,
    (turns < bound → (k.resched turns preempt tid).1 = .unfinished)
      ∧ (bound ≤ turns → k.EndsAt t (k.resched turns preempt tid))

/-- The state in which a kernel task that was switched to selects again. -/
def dispatched (k : Kernel Ref) (preempt : Bool) (queue : List Ref) (next : Ref) : Kernel Ref :=
  { (k.requeued preempt queue).setState next .running with current := next }

omit [DecidableEq Ref] in
theorem Alike.runnable (alike : Alike k k') (t : Ref) : k'.runnable t = k.runnable t := by
  simp only [Kernel.runnable, alike.tids, alike.runsHere, alike.kernelTask]

omit [DecidableEq Ref] in
theorem Alike.starved (alike : Alike k k') (t : Ref) : k'.Starved t ↔ k.Starved t := by
  simp only [Starved, alike.started, allocStack_none, alike.pool]

theorem setState_alike (k : Kernel Ref) (t : Ref) (state : TaskState)
    : Alike k (k.setState t state) := by
  constructor <;> intros <;>
    simp only [Kernel.tid, Kernel.runsHere, setState, modify, Task.isKernelTask] <;>
    split <;> rfl

theorem requeued_alike (k : Kernel Ref) (preempt : Bool) (queue : List Ref)
    : Alike k (k.requeued preempt queue) := by
  have ready := k.setState_alike k.current .ready
  unfold requeued putCurrent
  split_ifs
  · exact ⟨ready.tids, ready.runsHere, ready.kernelTask, ready.started, rfl⟩
  · exact ⟨ready.tids, ready.runsHere, ready.kernelTask, ready.started, rfl⟩
  · exact ⟨fun _ => rfl, fun _ => rfl, fun _ => rfl, fun _ => rfl, rfl⟩

theorem requeued_current (k : Kernel Ref) (preempt : Bool) (queue : List Ref)
    : (k.requeued preempt queue).current = k.current := by
  unfold requeued putCurrent
  split_ifs <;> rfl

theorem dispatched_alike (k : Kernel Ref) (preempt : Bool) (queue : List Ref) (next : Ref)
    : Alike k (k.dispatched preempt queue next) := by
  have before := k.requeued_alike preempt queue
  have after := (k.requeued preempt queue).setState_alike next .running
  exact {
    tids := fun t => (after.tids t).trans (before.tids t)
    runsHere := fun t => (after.runsHere t).trans (before.runsHere t)
    kernelTask := fun t => (after.kernelTask t).trans (before.kernelTask t)
    started := fun t => (after.started t).trans (before.started t)
    pool := before.pool }

/-- A kernel task that selects again finds the queue that was left, and itself behind it. -/
theorem dispatched_candidates {mid rest : List Ref} (preempt : Bool)
    (left : k.withoutIdle queue = mid ++ t :: rest)
    (distinct : ((mid ++ t :: (rest ++ k.withoutIdle [v])).map k.tid).Nodup)
    : ∃ rest', (k.dispatched preempt queue v).candidates = mid ++ t :: rest'
        ∧ ((k.dispatched preempt queue v).candidates.map
            (k.dispatched preempt queue v).tid).Nodup := by
  have alike := k.dispatched_alike preempt queue v
  have kept : ∃ tail, (k.dispatched preempt queue v).tasksToKeep = queue ++ tail
      ∧ tail.Sublist [v] := by
    unfold tasksToKeep
    refine ⟨_, rfl, ?_⟩
    split
    · exact .refl _
    · exact List.nil_sublist _
  obtain ⟨tail, kept, part⟩ := kept
  have moved : (k.dispatched preempt queue v).candidates
      = mid ++ t :: (rest ++ k.withoutIdle tail) := by
    rw [candidates, withoutIdle_congr alike.tids, kept, withoutIdle_append, left]
    simp
  refine ⟨rest ++ k.withoutIdle tail, moved, ?_⟩
  rw [moved, funext alike.tids]
  have sub := ((part.filter (fun w => k.tid w != 3)).append_left rest).cons_cons t
  exact ((sub.append_left mid).map k.tid).nodup distinct

omit [DecidableEq Ref] in
theorem eligible_zero (k : Kernel Ref) (t : Ref) : k.eligible 0 t = k.runsHere t := by
  simp [eligible]

/-- A switch to another user task that has started makes it current. -/
theorem switchTo_started {next : Ref} (again : Kernel Ref → Control × Kernel Ref) (other : t ≠ next)
    (user : (k.tasks next).isKernelTask = false) (started : (k.tasks next).isStarted = true)
    : (switchTo again k t next).1 = .switched
      ∧ (switchTo again k t next).2.current = next := by
  have alike := k.setState_alike next .running
  have user' := (alike.kernelTask next).trans user
  have started' := (alike.started next).trans started
  simp [switchTo, other, user', started']

/-- A selected user task is where the call ends. -/
theorem reaches_user (selected : k.selected preempt tid = (k.requeued preempt queue, t))
    (user : (k.tasks t).isKernelTask = false)
    (active : t = k.current → (k.tasks t).isStarted = true)
    : k.Reaches preempt tid t := by
  have alike := k.requeued_alike preempt queue
  refine ⟨1, fun turns => ⟨fun none => ?_, fun some => ?_⟩⟩
  · rw [Nat.lt_one_iff.mp none, resched]
  obtain ⟨turns, rfl⟩ := Nat.exists_eq_add_of_le' some
  by_cases same : t = k.current
  · have started := active same
    subst same
    rw [resched_of_same turns selected]
    constructor
    · rintro ⟨fresh, -⟩
      simp [started] at fresh
    · exact fun _ => ⟨.inl rfl, k.requeued_current preempt queue⟩
  have other : k.current ≠ t := fun eq => same eq.symm
  have user' := (alike.kernelTask t).trans user
  cases started : (k.tasks t).isStarted with
  | true =>
      have ended := switchTo_started (fun k => k.resched turns false 0) other user'
        ((alike.started t).trans started)
      rw [resched, selected]
      constructor
      · rintro ⟨fresh, -⟩
        simp [started] at fresh
      · exact fun _ => ⟨.inr ended.1, ended.2⟩
  | false =>
      rw [resched_of_fresh turns selected other user' ((alike.started t).trans started)]
      have pool : ((k.requeued preempt queue).setState t .running).allocStack = none
          ↔ k.allocStack = none := by
        rw [allocStack_none, allocStack_none, ← alike.pool]
        rfl
      constructor
      · rintro ⟨-, exhausted⟩
        rw [pool.mpr exhausted]
      · intro fed
        cases stack : ((k.requeued preempt queue).setState t .running).allocStack with
        | none => exact absurd ⟨started, pool.mp stack⟩ fed
        | some found => exact ⟨.inl rfl, rfl⟩

/-- A selected kernel task ends where its own selection ends. -/
theorem reaches_kernel
    (selected : k.selected preempt tid = (k.requeued preempt queue, v))
    (other : k.current ≠ v) (kernel : (k.tasks v).isKernelTask = true)
    (later : (k.dispatched preempt queue v).Reaches false 0 t)
    : k.Reaches preempt tid t := by
  obtain ⟨bound, ends⟩ := later
  have starved := (k.dispatched_alike preempt queue v).starved t
  have kernel' := ((k.requeued_alike preempt queue).kernelTask v).trans kernel
  refine ⟨bound + 1, fun turns => ?_⟩
  cases turns with
  | zero => exact ⟨fun _ => rfl, fun enough => absurd enough (by omega)⟩
  | succ turns =>
      rw [resched_of_kernel selected other kernel']
      refine ⟨fun few => (ends turns).1 (by omega), fun enough => ?_⟩
      obtain ⟨panics, ended⟩ := (ends turns).2 (by omega)
      exact ⟨fun hungry => panics (starved.mpr hungry),
        fun fed => ended (fun hungry => fed (starved.mp hungry))⟩

/-- Kernel tasks hand the CPU on to the first runnable candidate, by induction on the
candidates before it: each kernel task among them selects again and is put behind.
-/
theorem reaches_next {k : Kernel Ref} (split : k.candidates = pre ++ t :: post)
    (distinct : (k.candidates.map k.tid).Nodup)
    (busy : (k.tasks k.current).isKernelTask = true) (away : k.current ∉ pre)
    (skipped : ∀ v ∈ pre, k.runnable v = false) (runs : k.runnable t = true)
    : k.Reaches false 0 t := by
  induction shape : pre.length using Nat.strong_induction_on generalizing k pre post with
  | _ n ih =>
  have known (v : Ref) (member : v ∈ pre ++ t :: post) : k.tid v ≠ 3 := by
    rw [← split] at member
    exact (mem_withoutIdle.mp member).2
  have traits := runs
  simp only [Kernel.runnable, Bool.and_eq_true, bne_iff_ne, Bool.not_eq_true'] at traits
  cases found : pre.find? (fun v => k.runsHere v) with
  | none =>
      have refused (v : Ref) (member : v ∈ pre) : k.eligible 0 v = false := by
        rw [eligible_zero]
        simpa using List.find?_eq_none.mp found v member
      obtain ⟨queue, selected, -⟩ := selected_eligible false split distinct refused
        (by rw [eligible_zero]; exact traits.1.2)
      refine reaches_user selected traits.2 (fun same => ?_)
      rw [← same, traits.2] at busy
      cases busy
  | some v =>
      obtain ⟨here, before, after, rfl, refused⟩ := List.find?_eq_some_iff_append.mp found
      have notThree := known v (by simp)
      have kernel : (k.tasks v).isKernelTask = true := by
        have := skipped v (by simp)
        simpa [Kernel.runnable, notThree, here] using this
      rw [List.append_assoc, List.cons_append] at split
      obtain ⟨queue, selected, left⟩ := selected_eligible false split distinct
        (fun w member => by rw [eligible_zero]; simpa using refused w member)
        (by rw [eligible_zero]; exact here)
      have ids : ((after ++ t :: (post ++ before ++ k.withoutIdle [v])).map k.tid).Nodup := by
        have perm : (after ++ t :: (post ++ before ++ [v])).Perm k.candidates := by
          rw [split, ← List.cons_append, ← List.cons_append, ← List.append_assoc,
            ← List.append_assoc, List.append_assoc _ before]
          exact List.perm_append_comm.trans (by simp)
        rw [withoutIdle_cons notThree]
        exact (perm.map k.tid).nodup_iff.mpr distinct
      obtain ⟨rest, moved, distinct'⟩ := dispatched_candidates false
        (left.trans (by simp)) ids
      have alike := k.dispatched_alike false queue v
      have apart : v ∉ after := by
        have objects := List.Nodup.of_map _ distinct
        rw [split, List.nodup_append, List.nodup_cons] at objects
        exact fun again => objects.2.1.1 (List.mem_append_left _ again)
      refine reaches_kernel selected (fun same => away (by simp [same])) kernel
        (ih after.length ?_ moved distinct' ?_ apart ?_ ?_ rfl)
      · rw [← shape, List.length_append, List.length_cons]
        omega
      · exact (alike.kernelTask v).trans kernel
      · intro w member
        rw [alike.runnable]
        exact skipped w (by simp [member])
      · rw [alike.runnable]
        exact runs

end Chain

-----------------------------------------------------------------------------------------
-- When preemption is sound
-----------------------------------------------------------------------------------------

section Soundness

variable {k : Kernel Ref} {pri : Ref → Nat} {tid2task : BTreeMap Nat Ref} {cid tid : Nat}
  {t u : Ref}

/-- Where the call ends when no user task with the requested id can be chosen: behind a kernel
task with that id; without one in the queue, at the first candidate when that is a user task
that has started, and behind it otherwise.
-/
inductive FallsBack (k : Kernel Ref) (tid : Nat) : Ref → Prop where
  | behindRequested {pre post : List Ref} {t u : Ref}
      (split : k.candidates = pre ++ t :: post) (eligible : k.eligible tid t = true)
      (kernel : (k.tasks t).isKernelTask = true) (next : post.find? k.runnable = some u)
      : FallsBack k tid u
  | first {post : List Ref} {t : Ref} (split : k.candidates = t :: post)
      (missing : ∀ v ∈ k.candidates, k.eligible tid v = false)
      (user : (k.tasks t).isKernelTask = false) (started : (k.tasks t).isStarted = true)
      : FallsBack k tid t
  | behindFirst {post : List Ref} {t u : Ref} (split : k.candidates = t :: post)
      (missing : ∀ v ∈ k.candidates, k.eligible tid v = false)
      (passed : (k.tasks t).isKernelTask = true ∨ (k.tasks t).isStarted = false)
      (next : post.find? k.runnable = some u)
      : FallsBack k tid u

/-- The task is the caller and no ready task is above it, or it is above the caller and no ready
task is above it.
-/
def Fits (k : Kernel Ref) (pri : Ref → Nat) (u : Ref) : Prop :=
  (u = k.current ∧ ∀ t, ¬ k.Higher pri t)
    ∨ (pri k.current < pri u ∧ ∀ t, k.Higher pri t → k.runsHere u = true ∧ pri t ≤ pri u)

namespace Preemptible

/-- The queue ends with the caller. -/
theorem candidates_eq (call : k.Preemptible pri tid2task cid)
    : k.candidates = k.withoutIdle k.readyQueue ++ [k.current] := by
  have runs := call.runs
  simp only [runnable, Bool.and_eq_true, bne_iff_ne] at runs
  rw [candidates, tasksToKeep, if_pos ⟨call.running, call.notIdle⟩, withoutIdle_append,
    withoutIdle_cons runs.1.1]
  rfl

theorem distinct_candidates (call : k.Preemptible pri tid2task cid)
    : (k.candidates.map k.tid).Nodup := by
  rw [call.candidates_eq]
  have perm : (k.withoutIdle k.readyQueue ++ [k.current]).Perm
      (k.current :: k.withoutIdle k.readyQueue) := List.perm_append_singleton _ _
  exact (perm.map k.tid).nodup_iff.mpr
    (((List.filter_sublist ..).cons_cons k.current).map k.tid |>.nodup call.distinct)

/-- A candidate is the caller, or ready. -/
theorem ready_candidate (call : k.Preemptible pri tid2task cid) (member : t ∈ k.candidates)
    (other : t ≠ k.current)
    : (k.tasks t).state = .ready := by
  rw [call.candidates_eq] at member
  rcases List.mem_append.mp member with queued | caller
  · exact call.ready t (mem_withoutIdle.mp queued).1
  · exact absurd (List.mem_singleton.mp caller) other

theorem user (call : k.Preemptible pri tid2task cid)
    : (k.tasks k.current).isKernelTask = false := by
  have runs := call.runs
  simp only [runnable, Bool.and_eq_true, Bool.not_eq_true'] at runs
  exact runs.2

/-- Behind any other candidate there is a runnable one: the caller is. -/
theorem runnable_behind (pre : List Ref) {post : List Ref}
    (call : k.Preemptible pri tid2task cid) (split : k.candidates = pre ++ t :: post)
    (other : t ≠ k.current)
    : ∃ u, post.find? k.runnable = some u := by
  have last : (pre ++ t :: post).getLast? = some k.current := by
    rw [← split, call.candidates_eq, List.getLast?_concat]
  have member : k.current ∈ post := by
    cases post with
    | nil =>
        rw [List.getLast?_concat] at last
        exact absurd (Option.some.inj last) other
    | cons next rest =>
        rw [List.getLast?_append_cons, List.getLast?_cons_cons] at last
        exact List.mem_of_getLast? last
  cases found : post.find? k.runnable with
  | some u => exact ⟨u, rfl⟩
  | none => exact absurd call.runs (List.find?_eq_none.mp found _ member)

/-- A ready task above the caller is listed under an id that is not the caller's. -/
theorem higher_listed (call : k.Preemptible pri tid2task cid) (higher : k.Higher pri t)
    : (k.tid t, t) ∈ tid2task.entries ∧ k.tid t ≠ cid := by
  have listed := call.listed t higher
  refine ⟨listed, fun same => ?_⟩
  rw [same] at listed
  have ready := higher.1
  rw [entry_unique listed call.listedCaller, call.running] at ready
  cases ready

/-- The key of a topmost entry is not the caller's id. -/
theorem key_ne {entry : Nat × Ref} (call : k.Preemptible pri tid2task cid)
    (top : k.Topmost pri tid2task cid entry)
    : entry.1 ≠ cid := by
  intro same
  have member : (cid, entry.2) ∈ tid2task.entries := same ▸ top.member
  have other := top.other
  rw [entry_unique member call.listedCaller] at other
  exact other call.caller

/-- A requested task is eligible by its id, which no candidate before it has. -/
theorem requested_first {pre post : List Ref} (call : k.Preemptible pri tid2task cid)
    (valid : tid ≠ 0) (split : k.candidates = pre ++ t :: post)
    (eligible : k.eligible tid t = true)
    : ∀ v ∈ pre, k.eligible tid v = false := by
  have named {v : Ref} (eligible : k.eligible tid v = true) : tid = k.tid v := by
    simp only [Kernel.eligible, Bool.and_eq_true, Bool.or_eq_true, beq_iff_eq] at eligible
    exact eligible.2.resolve_right valid
  have distinct := call.distinct_candidates
  rw [split, List.map_append, List.nodup_append] at distinct
  intro v member
  cases again : k.eligible tid v with
  | false => rfl
  | true =>
      have same := (named again).symm.trans (named eligible)
      exact absurd same (distinct.2.2 _ (List.mem_map_of_mem member) _ (by simp))

/-- The call ends at a user task that is requested, or falls back. -/
theorem requested_or_fallsBack (call : k.Preemptible pri tid2task cid) (tid : Nat)
    : (∃ t ∈ k.candidates, k.eligible tid t = true ∧ (k.tasks t).isKernelTask = false)
      ∨ ∃ u, k.FallsBack tid u := by
  by_cases requested : ∃ t ∈ k.candidates, k.eligible tid t = true
  · obtain ⟨t, member, eligible⟩ := requested
    cases kernel : (k.tasks t).isKernelTask with
    | false => exact .inl ⟨t, member, eligible, kernel⟩
    | true =>
        obtain ⟨pre, post, split⟩ := List.append_of_mem member
        obtain ⟨u, next⟩ := runnable_behind pre call split (by
          rintro rfl
          rw [call.user] at kernel
          cases kernel)
        exact .inr ⟨u, .behindRequested split eligible kernel next⟩
  · have missing (v : Ref) (member : v ∈ k.candidates) : k.eligible tid v = false := by
      cases eligible : k.eligible tid v with
      | false => rfl
      | true => exact absurd ⟨v, member, eligible⟩ requested
    right
    cases split : k.candidates with
    | nil =>
        have whole := call.candidates_eq
        rw [split] at whole
        simp at whole
    | cons t post =>
        by_cases run : (k.tasks t).isKernelTask = false ∧ (k.tasks t).isStarted = true
        · exact ⟨t, .first split missing run.1 run.2⟩
        · obtain ⟨u, next⟩ := runnable_behind [] call split (by
            rintro rfl
            exact run ⟨call.user, call.started⟩)
          refine ⟨u, .behindFirst split missing ?_ next⟩
          by_contra neither
          simp only [not_or, Bool.not_eq_true, Bool.not_eq_false] at neither
          exact run neither

section Runs

variable [DecidableEq Ref]

/-- A kernel task hands the CPU on to the first runnable task of the queue that is left. -/
theorem handed_on {queue left : List Ref} {v : Ref} (call : k.Preemptible pri tid2task cid)
    (selected : k.selected true tid = (k.requeued true queue, v))
    (kernel : (k.tasks v).isKernelTask = true) (rest : k.withoutIdle queue = left)
    (distinct : ((left ++ k.withoutIdle [v]).map k.tid).Nodup)
    (next : left.find? k.runnable = some u)
    : k.Reaches true tid u := by
  obtain ⟨runs, mid, post, rfl, skipped⟩ := List.find?_eq_some_iff_append.mp next
  have alike := k.dispatched_alike true queue v
  obtain ⟨post', moved, distinct'⟩ := dispatched_candidates true rest (by
    simpa using distinct)
  have apart : v ∉ mid := by
    intro again
    have queued : v ∈ k.withoutIdle queue := by
      rw [rest]
      exact List.mem_append_left _ again
    have objects := List.Nodup.of_map _ distinct
    rw [withoutIdle_cons (mem_withoutIdle.mp queued).2, List.nodup_append] at objects
    exact objects.2.2 v (List.mem_append_left _ again) v (by simp) rfl
  refine reaches_kernel selected (fun same => ?_) kernel
    (reaches_next moved distinct' ((alike.kernelTask v).trans kernel) apart ?_ ?_)
  · rw [← same, call.user] at kernel
    cases kernel
  · intro w member
    rw [alike.runnable]
    simpa using skipped w member
  · rw [alike.runnable]
    exact runs

/-- A user task that is requested is where the call ends. -/
theorem requested_reaches (call : k.Preemptible pri tid2task cid) (valid : tid ≠ 0)
    (member : t ∈ k.candidates) (eligible : k.eligible tid t = true)
    (user : (k.tasks t).isKernelTask = false)
    : k.Reaches true tid t := by
  obtain ⟨pre, post, split⟩ := List.append_of_mem member
  obtain ⟨queue, selected, -⟩ := selected_eligible true split call.distinct_candidates
    (call.requested_first valid split eligible) eligible
  refine reaches_user selected user ?_
  rintro rfl
  exact call.started

/-- The fallback is where the call ends. -/
theorem fallsBack_reaches (call : k.Preemptible pri tid2task cid) (valid : tid ≠ 0)
    (falls : k.FallsBack tid u)
    : k.Reaches true tid u := by
  have distinct := call.distinct_candidates
  cases falls with
  | @behindRequested pre post t _ split eligible kernel next =>
      obtain ⟨queue, selected, left⟩ := selected_eligible true split distinct
        (call.requested_first valid split eligible) eligible
      have notThree : k.tid t ≠ 3 := by
        have member : t ∈ k.candidates := by simp [split]
        exact (mem_withoutIdle.mp member).2
      refine call.handed_on selected kernel left ?_ ?_
      · have perm : (post ++ pre ++ [t]).Perm k.candidates := by
          rw [split, List.append_assoc]
          exact List.perm_append_comm.trans (by simp)
        rw [withoutIdle_cons notThree]
        exact (perm.map k.tid).nodup_iff.mpr distinct
      · rw [List.find?_append, next]
        rfl
  | @first post _ split missing user started =>
      obtain ⟨queue, selected, -⟩ := selected_refused true split distinct missing
      rw [if_pos started] at selected
      exact reaches_user selected user (fun _ => started)
  | @behindFirst post t _ split missing passed next =>
      obtain ⟨queue, selected, left⟩ := selected_refused true split distinct missing
      cases started : (k.tasks t).isStarted with
      | true =>
          have kernel := passed.resolve_right (by simp [started])
          have notThree : k.tid t ≠ 3 := by
            have member : t ∈ k.candidates := by simp [split]
            exact (mem_withoutIdle.mp member).2
          rw [if_pos started] at selected
          refine call.handed_on selected kernel left ?_ next
          rw [withoutIdle_cons notThree]
          rw [split] at distinct
          exact ((List.perm_append_singleton t post).map k.tid).nodup_iff.mpr distinct
      | false =>
          rw [started, if_neg (by decide)] at selected
          refine call.handed_on selected call.idle.2 left ?_ next
          rw [split, List.map_cons, List.nodup_cons] at distinct
          rw [withoutIdle_cons_three call.idle.1]
          simpa [withoutIdle] using distinct.2

end Runs

end Preemptible

/-- A candidate is a sound choice exactly when it fits. -/
theorem Preemptible.sound_iff_fits (call : k.Preemptible pri tid2task cid)
    (member : u ∈ k.candidates)
    : k.SoundChoice pri u ↔ k.Fits pri u := by
  constructor
  · intro sound
    by_cases same : u = k.current
    · refine .inl ⟨same, fun t higher => ?_⟩
      have above := (sound.greatest ⟨t, higher⟩).1.2.2
      rw [same] at above
      exact absurd above (lt_irrefl _)
    · refine .inr ⟨(sound.above same).2, fun t higher => ?_⟩
      obtain ⟨reached, greatest⟩ := sound.greatest ⟨t, higher⟩
      exact ⟨reached.2.1, greatest t higher⟩
  · rintro (⟨same, none⟩ | ⟨above, greatest⟩)
    · exact ⟨fun other => absurd same other, fun ⟨t, higher⟩ => absurd higher (none t)⟩
    · have other : u ≠ k.current := by
        rintro rfl
        exact lt_irrefl _ above
      have ready := call.ready_candidate member other
      refine ⟨fun _ => ⟨ready, above⟩, fun ⟨t, higher⟩ => ?_⟩
      exact ⟨⟨ready, (greatest t higher).1, above⟩, fun v higher => (greatest v higher).2⟩

/-- The requested task has the greatest priority of the table, so it is a sound choice exactly
when its priority is greater than the caller's.
-/
theorem Preemptible.requested_sound_iff {entry : Nat × Ref}
    (call : k.Preemptible pri tid2task cid) (top : k.Topmost pri tid2task cid entry)
    (valid : entry.1 ≠ 0) (member : t ∈ k.candidates)
    (eligible : k.eligible entry.1 t = true)
    : k.SoundChoice pri t ↔ pri k.current < pri t := by
  have traits := eligible
  simp only [Kernel.eligible, Bool.and_eq_true, Bool.or_eq_true, beq_iff_eq] at traits
  have named := traits.2.resolve_right valid
  have other : t ≠ k.current := by
    rintro rfl
    exact call.key_ne top (named.trans call.caller)
  refine ⟨fun sound => (sound.above other).2, fun above => ?_⟩
  rw [call.sound_iff_fits member]
  refine .inr ⟨above, fun u higher => ⟨traits.1, ?_⟩⟩
  have listed := (call.higher_listed ⟨call.ready_candidate member other, traits.1, above⟩).1
  rw [← named] at listed
  obtain ⟨listedHigher, otherId⟩ := call.higher_listed higher
  rw [entry_unique listed top.member]
  exact top.greatest _ listedHigher otherId

/-- A call that reaches a task is sound exactly when that is a sound choice, or it panics. -/
theorem reaches_sound_iff [DecidableEq Ref] (reach : k.Reaches true tid u)
    : (∀ turns control k', k.resched turns true tid = (control, k')
        → control = .returned ∨ control = .switched → k.SoundChoice pri k'.current)
      ↔ k.SoundChoice pri u ∨ k.Starved u := by
  obtain ⟨bound, ends⟩ := reach
  constructor
  · intro sound
    by_cases starved : k.Starved u
    · exact .inr starved
    · obtain ⟨ended, current⟩ := ((ends bound).2 le_rfl).current starved
      exact .inl (current ▸ sound bound _ _ rfl ended)
  · rintro choice turns control k' result ended
    by_cases few : turns < bound
    · have unfinished := (ends turns).1 few
      rw [result] at unfinished
      rcases ended with rfl | rfl <;> cases unfinished
    · have reached := (ends turns).2 (not_lt.mp few)
      rw [result] at reached
      by_cases starved : k.Starved u
      · have panicked := reached.starved starved
        rcases ended with rfl | rfl <;> cases panicked
      · rw [(reached.current starved).2]
        exact choice.resolve_right starved

theorem FallsBack.member (falls : k.FallsBack tid u) : u ∈ k.candidates := by
  cases falls with
  | behindRequested split _ _ next => simp [split, List.mem_of_find?_eq_some next]
  | first split => simp [split]
  | behindFirst split _ _ next => simp [split, List.mem_of_find?_eq_some next]

/-- A call by a marked task is sound exactly when no other task has a priority, or the topmost
entry of the table is an eligible user task of the queue with a greater priority than the
caller, or the task that is chosen instead fits; and when the kernel panics as it has no stack
for the task.
-/
theorem preemptYield_sound_iff [DecidableEq Ref] (call : k.Preemptible pri tid2task cid)
    : k.PreemptsSoundly pri tid2task cid
      ↔ (∀ e ∈ tid2task.entries, k.tid e.2 ≠ cid → pri e.2 = 0)
        ∨ ∃ entry, k.Topmost pri tid2task cid entry
          ∧ ((∃ t ∈ k.candidates, k.eligible entry.1 t = true
                ∧ (k.tasks t).isKernelTask = false ∧ (pri k.current < pri t ∨ k.Starved t))
            ∨ ∃ u, k.FallsBack entry.1 u ∧ (k.Fits pri u ∨ k.Starved u)) := by
  rcases k.getMaxPriTaskId_topmost pri tid2task cid with
    ⟨zero, none⟩ | ⟨entry, top, request⟩
  · refine ⟨fun _ => .inl none, fun _ turns control k' result _ => ?_⟩
    rw [preemptYield, zero] at result
    cases result
    refine ⟨fun other => absurd rfl other, fun ⟨t, higher⟩ => ?_⟩
    obtain ⟨listed, otherId⟩ := call.higher_listed higher
    have above := higher.2.2
    rw [none _ listed otherId] at above
    cases above
  · have valid : entry.1 ≠ 0 := call.positive entry top.member
    have runs (turns : Nat)
        : k.preemptYield turns pri tid2task cid = k.resched turns true entry.1 := by
      rw [preemptYield, request]
      exact (if_pos valid).trans (if_pos call.marked)
    unfold PreemptsSoundly
    simp only [runs]
    constructor
    · intro sound
      refine .inr ⟨entry, top, ?_⟩
      rcases call.requested_or_fallsBack entry.1 with
        ⟨t, member, eligible, user⟩ | ⟨u, falls⟩
      · have choice := (reaches_sound_iff
          (call.requested_reaches valid member eligible user)).mp sound
        rw [call.requested_sound_iff top valid member eligible] at choice
        exact .inl ⟨t, member, eligible, user, choice⟩
      · have choice := (reaches_sound_iff (call.fallsBack_reaches valid falls)).mp sound
        rw [call.sound_iff_fits falls.member] at choice
        exact .inr ⟨u, falls, choice⟩
    · rintro (none | ⟨entry', top', chosen⟩)
      · have positive := top.positive
        rw [none entry top.member top.other] at positive
        cases positive
      · rw [top'.key_unique top] at chosen
        rcases chosen with ⟨t, member, eligible, user, choice⟩ | ⟨u, falls, choice⟩
        · rw [← call.requested_sound_iff top valid member eligible] at choice
          exact (reaches_sound_iff (call.requested_reaches valid member eligible user)).mpr choice
        · rw [← call.sound_iff_fits falls.member] at choice
          exact (reaches_sound_iff (call.fallsBack_reaches valid falls)).mpr choice

end Soundness

/-- A user task that runs and is marked, with another one in the queue. -/
def twoTasks (callerTid waitingTid : Nat) : Kernel (Fin 3) where
  tasks
    | 0 => ⟨callerTid, "caller", false, 1, .running, true, 1, true, false⟩
    | 1 => ⟨waitingTid, "waiting", false, 1, .ready, false, 0, false, false⟩
    | 2 => ⟨3, "idle", true, 1, .ready, false, 0, false, false⟩
  readyQueue := [1]
  kstackState := (· == 1)
  taskNub := 2
  curStack := 1
  current := 0
  idleTask := 2
  thisCpuId := 0

/-- A task's priority is its id and 10. -/
def demoPri (k : Kernel Ref) (t : Ref) : Nat :=
  10 + k.tid t

/-- Task 5 is preempted by task 4 of a lower priority: its own priority does not count. -/
theorem preemptYield_lowers
    : (twoTasks 5 4).Preemptible (twoTasks 5 4).demoPri ⟨[(1, 2), (4, 1), (5, 0)], by decide⟩ 5
      ∧ ¬ (twoTasks 5 4).PreemptsSoundly (twoTasks 5 4).demoPri
        ⟨[(1, 2), (4, 1), (5, 0)], by decide⟩ 5 := by
  have call : (twoTasks 5 4).Preemptible (twoTasks 5 4).demoPri
      ⟨[(1, 2), (4, 1), (5, 0)], by decide⟩ 5 := {
    caller := rfl
    running := rfl
    started := rfl
    notIdle := rfl
    runs := by decide
    marked := rfl
    idle := by decide
    ready := by decide
    distinct := by decide
    positive := by decide
    own := by decide
    listedCaller := by decide
    listed := by unfold Higher; decide }
  refine ⟨call, fun sound => ?_⟩
  have reach : (twoTasks 5 4).Reaches true 4 1 :=
    call.requested_reaches (by decide) (by decide) (by decide) (by decide)
  have request : (twoTasks 5 4).getMaxPriTaskId (twoTasks 5 4).demoPri
      ⟨[(1, 2), (4, 1), (5, 0)], by decide⟩ 5 = 4 := by decide
  unfold PreemptsSoundly preemptYield at sound
  rw [request] at sound
  rcases (reaches_sound_iff reach).mp sound with choice | ⟨-, exhausted⟩
  · exact absurd (choice.above (by decide)).2 (by decide)
  · have stack : (twoTasks 5 4).allocStack ≠ none := by decide
    exact stack exhausted

/-- Task 4 is preempted by task 5. -/
theorem preemptYield_sound_iff_raises
    : (twoTasks 4 5).PreemptsSoundly (twoTasks 4 5).demoPri
      ⟨[(1, 2), (4, 0), (5, 1)], by decide⟩ 4 := by
  have call : (twoTasks 4 5).Preemptible (twoTasks 4 5).demoPri
      ⟨[(1, 2), (4, 0), (5, 1)], by decide⟩ 4 := {
    caller := rfl
    running := rfl
    started := rfl
    notIdle := rfl
    runs := by decide
    marked := rfl
    idle := by decide
    ready := by decide
    distinct := by decide
    positive := by decide
    own := by decide
    listedCaller := by decide
    listed := by unfold Higher; decide }
  refine (preemptYield_sound_iff call).mpr (.inr ⟨(5, 1), ?_, .inl ⟨1, ?_⟩⟩)
  · exact ⟨by decide, by decide, by decide, by decide, by decide⟩
  · exact ⟨by decide, by decide, by decide, .inl (by decide)⟩

end Kernel

end RCoreOS.Axtask
