import RCoreOS.Lib.PriorityQueue
import RCoreOS.Lib.Transition

/-! The timer list, and the loop over it in which a timer interrupt fires the events that are due.
-/

namespace RCoreOS.Timers

open Transition

/-- A duration in nanoseconds. -/
abbrev TimeValue := Nat

structure TimerEventWrapper (E : Type) where
  deadline : TimeValue
  event : E
deriving DecidableEq, Repr

/-- `events` is a binary heap in which the earliest deadline is the greatest item. -/
structure TimerList (Q : Type) where
  events : Q

namespace TimerList

variable {Q E : Type} (heap : PriorityQueue Q (TimerEventWrapper E))

def new : TimerList Q :=
  ⟨heap.new⟩

def isEmpty (l : TimerList Q) : Bool :=
  (heap.peek l.events).isNone

def set (l : TimerList Q) (deadline : TimeValue) (event : E) : TimerList Q :=
  ⟨heap.push l.events { deadline, event }⟩

/-- Cancels all events that meet the condition. -/
def cancel (l : TimerList Q) (condition : E → Bool) : TimerList Q :=
  ⟨heap.retain (fun e => !condition e.event) l.events⟩

def nextDeadline (l : TimerList Q) : Option TimeValue :=
  (heap.peek l.events).map TimerEventWrapper.deadline

def expireOne (l : TimerList Q) (now : TimeValue) : Option ((TimeValue × E) × TimerList Q) :=
  match heap.peek l.events with
  | none => none
  | some e =>
      if e.deadline ≤ now then
        (heap.pop l.events).map fun (e, events) => ((e.deadline, e.event), ⟨events⟩)
      else none

/-- The loop of `check_events` from turn `i` on, with what the clock shows in each turn, in at most
so many turns: the calls of the callbacks, with the time they get and the deadline.
-/
def checkEvents (clock : Nat → TimeValue)
    : Nat → Nat → TimerList Q → Option (List (TimeValue × TimeValue × E) × TimerList Q)
  | 0, _, _ => none
  | turns + 1, i, l =>
      let now := clock i
      match l.expireOne heap now with
      | some ((deadline, event), l) => do
          let (rest, l) ← checkEvents clock turns (i + 1) l
          some ((now, deadline, event) :: rest, l)
      | none => some ([], l)

-----------------------------------------------------------------------------------------
-- One loop
-----------------------------------------------------------------------------------------

/-- The calls of the callbacks for some events, in the turns from `i` on. -/
def calls (clock : Nat → TimeValue) (i : Nat) (events : List (TimerEventWrapper E))
    : List (TimeValue × TimeValue × E) :=
  events.mapIdx fun j e => (clock (i + j), e.deadline, e.event)

theorem calls_cons (clock : Nat → TimeValue) (i : Nat) (e : TimerEventWrapper E)
    (events : List (TimerEventWrapper E))
    : calls clock i (e :: events)
      = (clock i, e.deadline, e.event) :: calls clock (i + 1) events := by
  simp [calls, List.mapIdx_cons, Nat.add_comm, Nat.add_left_comm]

variable {heap}

/-- An expired event is what the heap gives out up to now. -/
theorem expireOne_eq (l : TimerList Q) (now : TimeValue)
    : l.expireOne heap now
      = (heap.popUpTo TimerEventWrapper.deadline l.events now).map fun (e, events) =>
          ((e.deadline, e.event), ⟨events⟩) := by
  unfold expireOne PriorityQueue.popUpTo
  cases heap.peek l.events with
  | none => rfl
  | some e =>
      dsimp only
      split <;> rfl

/-- The loop calls back for what the heap gives out, by induction on the turns. -/
theorem checkEvents_eq (clock : Nat → TimeValue) (turns i : Nat) (l : TimerList Q)
    : l.checkEvents heap clock turns i
      = (heap.takeUpTo TimerEventWrapper.deadline clock turns i l.events).map
          fun (events, rest) => (calls clock i events, ⟨rest⟩) := by
  induction turns generalizing i l with
  | zero => rfl
  | succ turns ih =>
      rw [checkEvents, PriorityQueue.takeUpTo, expireOne_eq]
      cases heap.popUpTo TimerEventWrapper.deadline l.events (clock i) with
      | none => rfl
      | some found =>
          obtain ⟨e, events⟩ := found
          simp only [Option.map_some, ih]
          cases heap.takeUpTo TimerEventWrapper.deadline clock turns (i + 1) events with
          | none => rfl
          | some rest => simp [calls_cons]

end TimerList

/-- A timer list and what has become of all events that were set. -/
structure History (Q E : Type) where
  timers : TimerList Q
  added : List (TimerEventWrapper E)
  cancelled : List (TimerEventWrapper E)
  fired : List (TimeValue × TimeValue × E)

namespace History

variable {Q E : Type} {heap : PriorityQueue Q (TimerEventWrapper E)}
  (lawful : heap.Lawful TimerEventWrapper.deadline)

def Started (heap : PriorityQueue Q (TimerEventWrapper E)) (h : History Q E) : Prop :=
  h = ⟨.new heap, [], [], []⟩

/-- Any CPU sets or cancels events, or runs a turn of its loop. -/
inductive Step (h : History Q E) : History Q E → Prop
  | set (deadline : TimeValue) (event : E)
    : Step h { h with
        timers := h.timers.set heap deadline event
        added := ⟨deadline, event⟩ :: h.added }
  | cancel (condition : E → Bool)
    : Step h { h with
        timers := h.timers.cancel heap condition
        cancelled := (lawful.items h.timers.events).filter (condition ·.event) ++ h.cancelled }
  | turn (now deadline : TimeValue) (event : E) (timers : TimerList Q)
    : h.timers.expireOne heap now = some ((deadline, event), timers)
      → Step h { h with timers, fired := (now, deadline, event) :: h.fired }

abbrev Reachable (h : History Q E) : Prop :=
  Transition.Reachable (Started heap) (Step lawful) h

/-- The events of the calls that were made. -/
def firedEvents (h : History Q E) : List (TimerEventWrapper E) :=
  h.fired.map fun (_, deadline, event) => ⟨deadline, event⟩

/-- Every event that was set has been fired, has been cancelled or is pending, and those that were
fired were due.
-/
structure Accounted (h : History Q E) : Prop where
  events : h.added.Perm (h.firedEvents ++ h.cancelled ++ lawful.items h.timers.events)
  due : ∀ call ∈ h.fired, call.2.1 ≤ call.1

variable {lawful} {h : History Q E}

theorem Accounted.step {h' : History Q E} (accounted : h.Accounted lawful)
    (stepped : h.Step lawful h')
    : h'.Accounted lawful := by
  cases stepped with
  | set deadline event =>
      refine ⟨?_, accounted.due⟩
      refine (accounted.events.cons _).trans ?_
      refine List.perm_middle.symm.trans (.append_left _ ?_)
      exact (lawful.items_push ..).symm
  | cancel condition =>
      refine ⟨accounted.events.trans ?_, accounted.due⟩
      have parted : (lawful.items h.timers.events).Perm
          ((lawful.items h.timers.events).filter (condition ·.event)
            ++ lawful.items (h.timers.cancel heap condition).events) :=
        (List.filter_append_perm (condition ·.event) _).symm.trans
          (.append_left _ (lawful.items_retain ..).symm)
      simp only [firedEvents, List.append_assoc]
      refine .append_left _ ((parted.append_left h.cancelled).trans ?_)
      rw [← List.append_assoc, ← List.append_assoc]
      exact .append_right _ List.perm_append_comm
  | turn now deadline event timers expired =>
      rw [TimerList.expireOne_eq] at expired
      obtain ⟨⟨e, events⟩, taken, made⟩ := Option.map_eq_some_iff.mp expired
      cases made
      obtain ⟨perm, -, due⟩ := PriorityQueue.popUpTo_some lawful taken
      refine ⟨accounted.events.trans ((perm.append_left _).trans List.perm_middle), ?_⟩
      exact List.forall_mem_cons.mpr ⟨due, accounted.due⟩

theorem accounted_reachable (reachable : h.Reachable lawful) : h.Accounted lawful := by
  refine reachable.invariant (Accounted lawful) ?_ fun _ _ accounted stepped => accounted.step stepped
  rintro _ rfl
  refine ⟨?_, by simp⟩
  simp [firedEvents, TimerList.new, lawful.items_new]

/-- In every history, every event that was set has been fired, has been cancelled or is pending, and
none was fired before its deadline. A loop that no other call interrupts ends after no more turns
than there are pending events and one; it fires events in the order of their deadlines, and leaves
those only that come later than the last time that it has read. If the clock does not go backwards,
the fired ones are exactly those that are due then.
-/
theorem timers_fire (reachable : h.Reachable lawful) (clock : Nat → TimeValue)
    : h.added.Perm (h.firedEvents ++ h.cancelled ++ lawful.items h.timers.events)
      ∧ (∀ call ∈ h.fired, call.2.1 ≤ call.1)
      ∧ ∃ events timers,
        (∀ turns, (lawful.items h.timers.events).length < turns
          → h.timers.checkEvents heap clock turns 0
            = some (TimerList.calls clock 0 events, timers))
        ∧ events.Pairwise (fun a b => a.deadline ≤ b.deadline)
        ∧ (∀ call ∈ TimerList.calls clock 0 events, call.2.1 ≤ call.1)
        ∧ (∀ e ∈ lawful.items timers.events, clock events.length < e.deadline)
        ∧ (lawful.items h.timers.events).Perm (events ++ lawful.items timers.events)
        ∧ (Monotone clock → ∀ e ∈ events, e.deadline ≤ clock events.length) := by
  obtain ⟨perm, due⟩ := accounted_reachable reachable
  obtain ⟨events, rest, run, parted, sorted, dues, later⟩ :=
    PriorityQueue.takeUpTo_ends lawful clock 0 h.timers.events
  simp only [Nat.zero_add] at dues later
  refine ⟨perm, due, events, ⟨rest⟩, fun turns enough => ?_, sorted, ?_, later, parted, ?_⟩
  · rw [TimerList.checkEvents_eq, run turns enough]
    rfl
  · intro call member
    obtain ⟨j, under, rfl⟩ := List.mem_mapIdx.mp member
    rw [Nat.zero_add]
    exact dues j under
  · intro forward e member
    obtain ⟨j, under, rfl⟩ := List.getElem_of_mem member
    exact (dues j under).trans (forward (Nat.le_of_lt under))

/-- Two events of which one is due, and one that was cancelled. -/
def oneDue : History (List (TimerEventWrapper Nat)) Nat where
  timers := ⟨[⟨9, 2⟩, ⟨5, 1⟩]⟩
  added := [⟨9, 2⟩, ⟨7, 3⟩, ⟨5, 1⟩]
  cancelled := [⟨7, 3⟩]
  fired := []

def byDeadline : PriorityQueue (List (TimerEventWrapper Nat)) (TimerEventWrapper Nat) :=
  .searched TimerEventWrapper.deadline

theorem timers_fire_oneDue
    : ∃ events timers,
      (∀ turns, 2 < turns → oneDue.timers.checkEvents byDeadline (6 + ·) turns 0
        = some (TimerList.calls (6 + ·) 0 events, timers))
      ∧ ∀ e ∈ timers.events, 6 + events.length < e.deadline := by
  have reachable : oneDue.Reachable (PriorityQueue.searchedLawful TimerEventWrapper.deadline) :=
    .next (.next (.next (.next (.start rfl) (.set 5 1)) (.set 7 3)) (.cancel (· == 3))) (.set 9 2)
  obtain ⟨-, -, events, timers, run, -, -, later, -⟩ := timers_fire reachable (6 + ·)
  exact ⟨events, timers, run, later⟩

end History

end RCoreOS.Timers
