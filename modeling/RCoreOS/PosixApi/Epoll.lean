import RCoreOS.FlattenObjects.Slots
import RCoreOS.Lib.BTreeMap
import Mathlib.Data.List.TakeWhile

/-! An epoll instance over the descriptor table. Its interest list is keyed by descriptor
numbers, and both `epoll_ctl` and `epoll_wait` look a number up in the table first.
-/

namespace RCoreOS.PosixApi.IoMpx

open FlattenObjects (IdBitmap)

/-- `LinuxError`, as far as these calls return it themselves. -/
inductive LinuxError where
  | EBADF
  | EEXIST
  | EINVAL
  | EMFILE
  | ENOENT
  | ENOSYS
deriving DecidableEq, Repr

abbrev LinuxResult := Except LinuxError

def AX_FILE_LIMIT : Nat := 1024

def EPOLLIN : BitVec 32 := 1
def EPOLLOUT : BitVec 32 := 4
def EPOLLERR : BitVec 32 := 8

@[match_pattern] def EPOLL_CTL_ADD : BitVec 32 := 1#32
@[match_pattern] def EPOLL_CTL_DEL : BitVec 32 := 2#32
@[match_pattern] def EPOLL_CTL_MOD : BitVec 32 := 3#32

structure EpollEvent where
  events : BitVec 32
  data : BitVec 64
deriving DecidableEq, Repr

structure PollState where
  readable : Bool
  writable : Bool
deriving DecidableEq, Repr

/-- What a descriptor refers to: the epoll instance, or a file of any other kind. -/
inductive FileLike (F : Type) where
  | epoll
  | file (file : F)
deriving DecidableEq

/-- `c_int`. -/
abbrev CInt := BitVec 32

/-- `as usize`. -/
def asUsize (fd : CInt) : Nat :=
  (fd.signExtend 64).toNat

/-- `as c_int`. -/
def asCInt (n : Nat) : CInt :=
  BitVec.ofNat 32 n

/-- The descriptor table with the log of its changes, the interest list of the instance, and
what polling a file returns at the time.
-/
structure Epoll (Bits F : Type) where
  fdTable : SlotTable Bits (FileLike F) AX_FILE_LIMIT
  events : BTreeMap Nat EpollEvent
  pollFile : F → LinuxResult PollState

namespace Epoll

variable {Bits F : Type} (bm : IdBitmap Bits)

-----------------------------------------------------------------------------------------
-- Descriptors
-----------------------------------------------------------------------------------------

/-- A call on the descriptor table; `none` is a crash, here and below. -/
def callTable (s : Epoll Bits F) (call : FlattenObjects.Call (FileLike F))
    : Option (FlattenObjects.Answer (FileLike F) × Epoll Bits F) :=
  (s.fdTable.objects.run bm call).map fun (answer, objects) =>
    (answer, { s with
      fdTable := {
        objects := objects
        log := s.fdTable.log ++ FlattenObjects.changes call answer } })

def getFileLike (s : Epoll Bits F) (fd : CInt) : Option (LinuxResult (FileLike F)) :=
  (s.fdTable.objects.get bm (asUsize fd)).map fun found =>
    match found with
    | some f => .ok f
    | none => .error .EBADF

def addFileLike (s : Epoll Bits F) (f : FileLike F) : Option (LinuxResult Nat × Epoll Bits F) :=
  (s.callTable bm (.add f)).map fun (answer, s) =>
    match answer with
    | .id (some fd) => (.ok fd, s)
    | _ => (.error .EMFILE, s)

def closeFileLike (s : Epoll Bits F) (fd : CInt) : Option (LinuxResult Unit × Epoll Bits F) :=
  (s.callTable bm (.remove (asUsize fd))).map fun (answer, s) =>
    match answer with
    | .object (some _) => (.ok (), s)
    | _ => (.error .EBADF, s)

/-- Closing stdin, stdout or stderr does nothing. -/
def sysClose (s : Epoll Bits F) (fd : CInt) : Option (LinuxResult Unit × Epoll Bits F) :=
  if 0 ≤ fd.toInt ∧ fd.toInt ≤ 2 then some (.ok (), s) else s.closeFileLike bm fd

-----------------------------------------------------------------------------------------
-- The instance
-----------------------------------------------------------------------------------------

def fromFd (s : Epoll Bits F) (epfd : CInt) : Option (LinuxResult Unit) :=
  (s.getFileLike bm epfd).map fun found =>
    match found with
    | .ok .epoll => .ok ()
    | .ok (.file _) => .error .EINVAL
    | .error e => .error e

/-- What `control` does once the descriptor is known to be open. -/
def register (s : Epoll Bits F) (op : BitVec 32) (fd : Nat) (event : EpollEvent)
    : LinuxResult Nat × Epoll Bits F :=
  match op with
  | EPOLL_CTL_ADD =>
      match s.events.get fd with
      | none => (.ok 0, { s with events := (s.events.insert fd event).2 })
      | some _ => (.error .EEXIST, s)
  | EPOLL_CTL_MOD =>
      match s.events.get fd with
      | some _ => (.ok 0, { s with events := (s.events.insert fd event).2 })
      | none => (.error .ENOENT, s)
  | EPOLL_CTL_DEL =>
      match s.events.get fd with
      | some _ => (.ok 0, { s with events := (s.events.remove fd).2 })
      | none => (.error .ENOENT, s)
  | _ => (.error .EINVAL, s)

def control (s : Epoll Bits F) (op fd : Nat) (event : EpollEvent)
    : Option (LinuxResult Nat × Epoll Bits F) :=
  (s.getFileLike bm (asCInt fd)).map fun found =>
    match found with
    | .ok _ => s.register (BitVec.ofNat 32 op) fd event
    | .error e => (.error e, s)

/-- Polling the epoll instance itself is not supported. -/
def poll (s : Epoll Bits F) : FileLike F → LinuxResult PollState
  | .epoll => .error .ENOSYS
  | .file f => s.pollFile f

/-- The events that a registration is told of when its file polls as given. -/
def readyOf (polled : LinuxResult PollState) (ev : EpollEvent) : List EpollEvent :=
  match polled with
  | .error _ =>
      if ev.events &&& EPOLLERR ≠ 0 then [{ events := EPOLLERR, data := ev.data }] else []
  | .ok state =>
      (if state.readable ∧ ev.events &&& EPOLLIN ≠ 0
        then [{ events := EPOLLIN, data := ev.data }] else [])
      ++ (if state.writable ∧ ev.events &&& EPOLLOUT ≠ 0
        then [{ events := EPOLLOUT, data := ev.data }] else [])

/-- The loop of `poll_all` over the registrations, with the events stored so far in a buffer of
length `len`. Storing behind its end is an index out of bounds.
-/
def pollEntries (s : Epoll Bits F) (len : Nat)
    : List (Nat × EpollEvent) → List EpollEvent → Option (LinuxResult (List EpollEvent))
  | [], stored => some (.ok stored)
  | (infd, ev) :: rest, stored =>
      match s.getFileLike bm (asCInt infd) with
      | none => none
      | some (.error e) => some (.error e)
      | some (.ok f) =>
          let stored := stored ++ readyOf (s.poll f) ev
          if stored.length ≤ len then s.pollEntries len rest stored else none

def pollAll (s : Epoll Bits F) (len : Nat) : Option (LinuxResult (List EpollEvent)) :=
  s.pollEntries bm len s.events.entries []

def sysEpollCtl (s : Epoll Bits F) (epfd op fd : CInt) (event : EpollEvent)
    : Option (LinuxResult Nat × Epoll Bits F) :=
  match s.fromFd bm epfd with
  | none => none
  | some (.error e) => some (.error e, s)
  | some (.ok _) => s.control bm (asUsize op) (asUsize fd) event

/-- One turn of the loop in `sys_epoll_wait`, with the events that it returns. Without an event it
returns none when the deadline has passed, and yields for another turn otherwise.
-/
def sysEpollWait (s : Epoll Bits F) (epfd maxevents : CInt) (expired : Bool)
    : Option (LinuxResult (Option (List EpollEvent))) :=
  if maxevents.toInt ≤ 0 then some (.error .EINVAL)
  else
    match s.fromFd bm epfd with
    | none => none
    | some (.error e) => some (.error e)
    | some (.ok _) =>
        (s.pollAll bm (asUsize maxevents)).map fun polled =>
          polled.map fun events =>
            if 0 < events.length then some events else if expired then some [] else none

-----------------------------------------------------------------------------------------
-- Runs
-----------------------------------------------------------------------------------------

/-- What user programs do. A file is stored in the table by whatever opens or duplicates
descriptors, and may become ready or stop to be at any time.
-/
inductive Action (F : Type) where
  | ctl (epfd op fd : CInt) (event : EpollEvent)
  | close (fd : CInt)
  | opens (f : FileLike F)
  | opensAt (fd : Nat) (f : FileLike F)
  | changes (pollFile : F → LinuxResult PollState)

def run (s : Epoll Bits F) : Action F → Option (Epoll Bits F)
  | .ctl epfd op fd event => (s.sysEpollCtl bm epfd op fd event).map Prod.snd
  | .close fd => (s.sysClose bm fd).map Prod.snd
  | .opens f => (s.addFileLike bm f).map Prod.snd
  | .opensAt fd f =>
      if fd < AX_FILE_LIMIT then (s.callTable bm (.addAt fd f)).map Prod.snd else none
  | .changes pollFile => some { s with pollFile := pollFile }

/-- The instance was created, over a table in any state. -/
def Started (s : Epoll Bits F) : Prop :=
  SlotTable.Reachable bm (FlattenObjects.Call.InRange AX_FILE_LIMIT) s.fdTable
    ∧ s.events = BTreeMap.empty

/-- A descriptor has an entry in the interest list. -/
def Registered (s : Epoll Bits F) (fd : Nat) : Prop :=
  (s.events.get fd).isSome

/-- Closing the descriptor leaves the interest list alone: it is not registered, or closing it does
nothing.
-/
def Spares (s : Epoll Bits F) (fd : CInt) : Prop :=
  (0 ≤ fd.toInt ∧ fd.toInt ≤ 2) ∨ ¬ s.Registered (asUsize fd)

/-- The states of all runs. -/
abbrev Reached (s : Epoll Bits F) : Prop :=
  Transition.Reachable (Started bm) (fun s s' => ∃ action, s.run bm action = some s') s

/-- The states of the runs in which every descriptor is spared when it is closed. -/
abbrev Sparing (s : Epoll Bits F) : Prop :=
  Transition.Reachable (Started bm)
    (fun s s' => ∃ action, s.run bm action = some s' ∧ ∀ fd, action = .close fd → s.Spares fd) s

/-- The events of a registration whose descriptor is open. -/
def readyFrom (s : Epoll Bits F) (entry : Nat × EpollEvent) : List EpollEvent :=
  match s.fdTable.held entry.1 with
  | some f => readyOf (s.poll f) entry.2
  | none => []

/-- The events of the registrations whose descriptors are open. -/
def readyAmong (s : Epoll Bits F) (entries : List (Nat × EpollEvent)) : List EpollEvent :=
  entries.flatMap s.readyFrom

/-- The registrations in front of the first one whose descriptor was closed. -/
def opened (s : Epoll Bits F) (entries : List (Nat × EpollEvent)) : List (Nat × EpollEvent) :=
  entries.takeWhile fun entry => (s.fdTable.held entry.1).isSome

/-- A wait returns the events of all registrations whose descriptors are open, whenever its
buffer has room for them.
-/
def Waits (s : Epoll Bits F) (epfd : CInt) : Prop :=
  ∀ maxevents expired, 0 < maxevents.toInt →
    (s.sysEpollWait bm epfd maxevents expired
      = some (.ok (
          if 0 < (s.readyAmong s.events.entries).length then
            some (s.readyAmong s.events.entries)
          else if expired then some [] else none))
      ↔ (s.readyAmong s.events.entries).length ≤ asUsize maxevents)

/-- A registration whose descriptor was closed can be taken out. -/
def Removable (s : Epoll Bits F) (epfd : CInt) : Prop :=
  ∀ fd event, s.Registered (asUsize fd) → s.fdTable.held (asUsize fd) = none →
    ∃ s', s.sysEpollCtl bm epfd EPOLL_CTL_DEL fd event = some (.ok 0, s')
      ∧ ¬ s'.Registered (asUsize fd)

/-- The table is as it should be, and what is registered has a number below its limit. -/
structure Sound (s : Epoll Bits F) : Prop where
  table : s.fdTable.Exact bm
  registered : ∀ fd, s.Registered fd → fd < AX_FILE_LIMIT

/-- No descriptor was closed behind a registration. -/
def Fresh (s : Epoll Bits F) : Prop :=
  ∀ fd, s.Registered fd → (s.fdTable.held fd).isSome

variable {bm} {s s' : Epoll Bits F}

-----------------------------------------------------------------------------------------
-- Numbers
-----------------------------------------------------------------------------------------

@[simp]
theorem asCInt_asUsize (fd : CInt) : asCInt (asUsize fd) = fd := by
  unfold asCInt asUsize
  rw [BitVec.ofNat_toNat]
  ext i inside
  rw [BitVec.getElem_setWidth, BitVec.getLsbD_signExtend, if_pos inside,
    decide_eq_true (by omega), Bool.true_and]
  exact BitVec.getLsbD_eq_getElem inside

theorem asUsize_asCInt {n : Nat} (below : n < AX_FILE_LIMIT) : asUsize (asCInt n) = n := by
  have small : n < 1024 := below
  have positive : (BitVec.ofNat 32 n).msb = false := by
    rw [BitVec.msb_eq_false_iff_two_mul_lt, BitVec.toNat_ofNat]
    omega
  rw [asUsize, asCInt, BitVec.signExtend_eq_setWidth_of_msb_false positive,
    BitVec.toNat_setWidth, BitVec.toNat_ofNat]
  omega

-----------------------------------------------------------------------------------------
-- The table
-----------------------------------------------------------------------------------------

theorem limit_fits : AX_FILE_LIMIT ≤ 1024 :=
  Nat.le_refl 1024

theorem getFileLike_open (exact : s.fdTable.Exact bm) {fd : CInt} {f : FileLike F}
    (opened : s.fdTable.held (asUsize fd) = some f)
    : s.getFileLike bm fd = some (.ok f) := by
  rw [getFileLike, exact.slots, opened]
  rfl

theorem getFileLike_closed (exact : s.fdTable.Exact bm) {fd : CInt}
    (closed : s.fdTable.held (asUsize fd) = none)
    : s.getFileLike bm fd = some (.error .EBADF) := by
  rw [getFileLike, exact.slots, closed]
  rfl

/-- A call on the table changes nothing else, and logs what it stored or took out. -/
theorem callTable_eq (lawful : bm.Lawful) (exact : s.fdTable.Exact bm)
    {call : FlattenObjects.Call (FileLike F)} (inRange : call.InRange AX_FILE_LIMIT)
    {answer : FlattenObjects.Answer (FileLike F)} (done : s.callTable bm call = some (answer, s'))
    : s'.events = s.events
      ∧ s'.pollFile = s.pollFile
      ∧ s.fdTable.Answers bm call answer s'.fdTable
      ∧ s.fdTable.Right bm call answer s'.fdTable := by
  obtain ⟨answer', table, answers, right⟩ :=
    (exact.call lawful limit_fits call).mpr inRange
  obtain ⟨run, log⟩ := answers
  rw [callTable, run] at done
  cases done
  have same : table = { objects := table.objects
                        log := s.fdTable.log ++ FlattenObjects.changes call answer } := by
    cases table
    rw [SlotTable.mk.injEq]
    exact ⟨rfl, log⟩
  exact ⟨rfl, rfl, ⟨run, rfl⟩, same ▸ right⟩

/-- Storing a file keeps the descriptors that are open. -/
theorem held_of_stored (lawful : bm.Lawful) (exact : s.fdTable.Exact bm)
    {call : FlattenObjects.Call (FileLike F)} (inRange : call.InRange AX_FILE_LIMIT)
    (stores : ∀ fd, call ≠ .remove fd) {answer : FlattenObjects.Answer (FileLike F)}
    (done : s.callTable bm call = some (answer, s')) {fd : Nat}
    (opened : (s.fdTable.held fd).isSome)
    : (s'.fdTable.held fd).isSome := by
  obtain ⟨-, -, ⟨-, log⟩, -⟩ := callTable_eq lawful exact inRange done
  rw [SlotTable.held, log]
  refine KeyLog.current_isSome opened ?_
  cases call with
  | remove id => exact absurd rfl (stores id)
  | add f => rcases answer with ⟨_ | id⟩ | _ <;> simp [FlattenObjects.changes]
  | addAt id f => rcases answer with ⟨_ | id⟩ | _ <;> simp [FlattenObjects.changes]
  | get id => simp [FlattenObjects.changes]

/-- Closing a descriptor leaves the others as they are, and closes this one. -/
theorem held_of_closed (lawful : bm.Lawful) (exact : s.fdTable.Exact bm) {id : Nat}
    {answer : FlattenObjects.Answer (FileLike F)}
    (done : s.callTable bm (.remove id) = some (answer, s')) (fd : Nat)
    : s'.fdTable.held fd = if id = fd then none else s.fdTable.held fd := by
  have inRange : (FlattenObjects.Call.remove (T := FileLike F) id).InRange AX_FILE_LIMIT := trivial
  obtain ⟨-, -, ⟨-, log⟩, right⟩ := callTable_eq lawful exact inRange done
  have taken := right.taken id (.inl rfl)
  cases holds : s.fdTable.held id with
  | none =>
      rw [taken, holds] at log
      have same : s'.fdTable.held fd = s.fdTable.held fd := by
        rw [SlotTable.held, log, SlotTable.held]
        exact congrArg (KeyLog.current · fd) (List.append_nil _)
      rw [same]
      split
      next here => exact here ▸ holds
      next => rfl
  | some f =>
      rw [taken, holds] at log
      rw [SlotTable.held, log]
      exact KeyLog.current_snoc _ (.removed id) fd

-----------------------------------------------------------------------------------------
-- Every step
-----------------------------------------------------------------------------------------

variable (bm) in
/-- What a step can do: it registers descriptors that are open, and only a close that is not of
stdin, stdout or stderr closes a descriptor.
-/
structure Effect (s : Epoll Bits F) (action : Action F) (s' : Epoll Bits F) : Prop where
  table : s'.fdTable.Exact bm
  registered : ∀ fd, s'.Registered fd →
    s.Registered fd ∨ (s.fdTable.held fd).isSome ∧ ∀ closed, action ≠ .close closed
  opened : ∀ fd, (s.fdTable.held fd).isSome →
    (s'.fdTable.held fd).isSome
      ∨ ∃ closed, action = .close closed ∧ asUsize closed = fd
        ∧ ¬ (0 ≤ closed.toInt ∧ closed.toInt ≤ 2)

/-- Only the descriptor that is added may become registered. -/
theorem register_registered (op : BitVec 32) (fd : Nat) (event : EpollEvent) {other : Nat}
    (registered : (s.register op fd event).2.Registered other)
    : s.Registered other ∨ other = fd := by
  by_cases here : other = fd
  · exact .inr here
  · left
    unfold register at registered
    have inserted : (((s.events.insert fd event).2).get other).isSome → s.Registered other := by
      rw [BTreeMap.get_insert, if_neg here]
      exact id
    have removed : (((s.events.remove fd).2).get other).isSome → s.Registered other := by
      rw [BTreeMap.get_remove, if_neg here]
      exact id
    split at registered
    · split at registered
      · exact inserted registered
      · exact registered
    · split at registered
      · exact inserted registered
      · exact registered
    · split at registered
      · exact removed registered
      · exact registered
    · exact registered

@[simp]
theorem register_fdTable (op : BitVec 32) (fd : Nat) (event : EpollEvent)
    : (s.register op fd event).2.fdTable = s.fdTable := by
  unfold register
  split
  all_goals first | rfl | (split <;> rfl)

theorem ctl_effect (exact : s.fdTable.Exact bm) {epfd op fd : CInt} {event : EpollEvent}
    {answer : LinuxResult Nat} (done : s.sysEpollCtl bm epfd op fd event = some (answer, s'))
    : s'.fdTable = s.fdTable
      ∧ ∀ other, s'.Registered other →
        s.Registered other ∨ (s.fdTable.held other).isSome := by
  unfold sysEpollCtl control at done
  split at done
  · cases done
  · cases done
    exact ⟨rfl, fun _ => .inl⟩
  · rw [asCInt_asUsize] at done
    cases holds : s.fdTable.held (asUsize fd) with
    | none =>
        rw [getFileLike_closed exact holds] at done
        cases done
        exact ⟨rfl, fun _ => .inl⟩
    | some f =>
        rw [getFileLike_open exact holds] at done
        obtain ⟨-, rfl⟩ := Prod.mk.inj (Option.some.inj done)
        refine ⟨register_fdTable .., fun other registered => ?_⟩
        rcases register_registered _ _ _ registered with before | rfl
        · exact .inl before
        · exact .inr (by rw [holds]; rfl)

/-- A close does nothing, or it is a removal from the table. -/
theorem close_effect {fd : CInt} {answer : LinuxResult Unit}
    (done : s.sysClose bm fd = some (answer, s'))
    : (0 ≤ fd.toInt ∧ fd.toInt ≤ 2) ∧ s' = s
      ∨ ¬ (0 ≤ fd.toInt ∧ fd.toInt ≤ 2)
        ∧ ∃ answer, s.callTable bm (.remove (asUsize fd)) = some (answer, s') := by
  unfold sysClose at done
  split at done
  next std =>
    cases done
    exact .inl ⟨std, rfl⟩
  next other =>
    obtain ⟨⟨answer', after⟩, removed, result⟩ := Option.map_eq_some_iff.mp done
    refine .inr ⟨other, answer', ?_⟩
    dsimp only at result
    split at result
    · cases result
      exact removed
    · cases result
      exact removed

theorem addFileLike_effect {f : FileLike F} {answer : LinuxResult Nat}
    (done : s.addFileLike bm f = some (answer, s'))
    : ∃ answer, s.callTable bm (.add f) = some (answer, s') := by
  obtain ⟨⟨answer', after⟩, added, result⟩ := Option.map_eq_some_iff.mp done
  refine ⟨answer', ?_⟩
  dsimp only at result
  split at result
  · cases result
    exact added
  · cases result
    exact added

/-- Storing a file has the effect of a step that is not a close. -/
theorem stored_effect (lawful : bm.Lawful) (exact : s.fdTable.Exact bm)
    {call : FlattenObjects.Call (FileLike F)} (inRange : call.InRange AX_FILE_LIMIT)
    (stores : ∀ fd, call ≠ .remove fd) {answer : FlattenObjects.Answer (FileLike F)}
    (done : s.callTable bm call = some (answer, s')) (action : Action F)
    : Effect bm s action s' := by
  obtain ⟨events, -, -, right⟩ := callTable_eq lawful exact inRange done
  refine ⟨right.exact, fun fd registered => .inl ?_, fun fd opened => .inl ?_⟩
  · rwa [Registered, events] at registered
  · exact held_of_stored lawful exact inRange stores done opened

/-- The effect of a step, by cases on what it does. -/
theorem run_effect (lawful : bm.Lawful) (exact : s.fdTable.Exact bm) {action : Action F}
    (done : s.run bm action = some s')
    : Effect bm s action s' := by
  cases action with
  | ctl epfd op fd event =>
      obtain ⟨⟨answer, after⟩, ctl, rfl⟩ := Option.map_eq_some_iff.mp done
      obtain ⟨table, registered⟩ := ctl_effect exact ctl
      refine ⟨table ▸ exact, fun fd member => ?_, fun fd opened => .inl (table ▸ opened)⟩
      exact (registered fd member).imp_right fun opened => ⟨opened, nofun⟩
  | close fd =>
      obtain ⟨⟨answer, after⟩, closed, rfl⟩ := Option.map_eq_some_iff.mp done
      rcases close_effect closed with ⟨-, rfl⟩ | ⟨other, answer', removed⟩
      · exact ⟨exact, fun _ => .inl, fun _ => .inl⟩
      · obtain ⟨events, -, -, right⟩ := callTable_eq lawful exact (by trivial) removed
        refine ⟨right.exact, fun id registered => .inl ?_, fun id opened => ?_⟩
        · rwa [Registered, events] at registered
        · rw [held_of_closed lawful exact removed]
          by_cases here : asUsize fd = id
          · exact .inr ⟨fd, rfl, here, other⟩
          · rw [if_neg here]
            exact .inl opened
  | opens f =>
      obtain ⟨⟨answer, after⟩, opens, rfl⟩ := Option.map_eq_some_iff.mp done
      obtain ⟨answer', added⟩ := addFileLike_effect opens
      exact stored_effect lawful exact (by trivial) (by nofun) added _
  | opensAt fd f =>
      simp only [run] at done
      split at done
      next below =>
        obtain ⟨⟨answer, after⟩, stored, rfl⟩ := Option.map_eq_some_iff.mp done
        have inRange : (FlattenObjects.Call.addAt fd f).InRange AX_FILE_LIMIT := below
        exact stored_effect lawful exact inRange (by nofun) stored _
      next => cases done
  | changes pollFile =>
      cases done
      exact ⟨exact, fun _ => .inl, fun _ => .inl⟩

/-- Every step keeps the table right, and the registrations below its limit. -/
theorem Sound.run (lawful : bm.Lawful) (sound : s.Sound bm) {action : Action F}
    (done : s.run bm action = some s')
    : s'.Sound bm := by
  have effect := run_effect lawful sound.table done
  refine ⟨effect.table, fun fd registered => ?_⟩
  rcases effect.registered fd registered with before | ⟨opened, -⟩
  · exact sound.registered fd before
  · by_contra beyond
    rw [sound.table.held_none beyond] at opened
    cases opened

/-- As long as registered descriptors are spared, no registration is left behind. -/
theorem Fresh.run (lawful : bm.Lawful) (sound : s.Sound bm) (fresh : s.Fresh)
    {action : Action F} (done : s.run bm action = some s')
    (spares : ∀ fd, action = .close fd → s.Spares fd)
    : s'.Fresh := by
  have effect := run_effect lawful sound.table done
  intro fd registered
  have opened : (s.fdTable.held fd).isSome := by
    rcases effect.registered fd registered with before | ⟨opened, -⟩
    · exact fresh fd before
    · exact opened
  rcases effect.opened fd opened with still | ⟨closed, rfl, rfl, other⟩
  · exact still
  · rcases effect.registered _ registered with before | ⟨-, kept⟩
    · rcases spares closed rfl with std | unregistered
      · exact absurd std other
      · exact absurd before unregistered
    · exact absurd rfl (kept closed)

-----------------------------------------------------------------------------------------
-- Waiting
-----------------------------------------------------------------------------------------

theorem opened_of_open (entry : Nat × EpollEvent) (rest : List (Nat × EpollEvent))
    (opened : (s.fdTable.held entry.1).isSome)
    : s.opened (entry :: rest) = entry :: s.opened rest :=
  List.takeWhile_cons_of_pos opened

theorem opened_of_closed (entry : Nat × EpollEvent) (rest : List (Nat × EpollEvent))
    (closed : s.fdTable.held entry.1 = none)
    : s.opened (entry :: rest) = [] :=
  List.takeWhile_cons_of_neg (by simp [closed])

theorem opened_eq_self {entries : List (Nat × EpollEvent)}
    : s.opened entries = entries ↔ ∀ entry ∈ entries, (s.fdTable.held entry.1).isSome :=
  List.takeWhile_eq_self_iff

/-- The loop stores the events of the registrations up to the first closed descriptor, with
which it fails, and overruns a buffer that has no room for them; by induction on the
registrations.
-/
theorem pollEntries_eq (exact : s.fdTable.Exact bm) (len : Nat)
    {entries : List (Nat × EpollEvent)} (below : ∀ entry ∈ entries, entry.1 < AX_FILE_LIMIT)
    (stored : List EpollEvent) (room : stored.length ≤ len)
    : s.pollEntries bm len entries stored
      = if (stored ++ s.readyAmong (s.opened entries)).length ≤ len then
          if s.opened entries = entries then some (.ok (stored ++ s.readyAmong entries))
          else some (.error .EBADF)
        else none := by
  induction entries generalizing stored with
  | nil =>
      have nothing : s.readyAmong [] = [] := rfl
      rw [opened, List.takeWhile_nil, nothing, List.append_nil, if_pos room, if_pos rfl]
      rfl
  | cons entry rest ih =>
      obtain ⟨infd, ev⟩ := entry
      have small : infd < AX_FILE_LIMIT := below (infd, ev) (List.mem_cons_self ..)
      cases holds : s.fdTable.held infd with
      | none =>
          have looked : s.getFileLike bm (asCInt infd) = some (.error .EBADF) :=
            getFileLike_closed exact (by rw [asUsize_asCInt small, holds])
          have nothing : s.readyAmong [] = [] := rfl
          rw [pollEntries, looked, opened_of_closed (infd, ev) rest holds, nothing,
            List.append_nil, if_pos room, if_neg (List.cons_ne_nil _ _).symm]
      | some f =>
          have looked : s.getFileLike bm (asCInt infd) = some (.ok f) :=
            getFileLike_open exact (by rw [asUsize_asCInt small, holds])
          have ready (others : List (Nat × EpollEvent)) : s.readyAmong ((infd, ev) :: others)
              = readyOf (s.poll f) ev ++ s.readyAmong others := by
            rw [readyAmong, List.flatMap_cons, readyFrom, holds]
            rfl
          rw [pollEntries, looked, opened_of_open (infd, ev) rest (by rw [holds]; rfl),
            ready, ready, ← List.append_assoc, ← List.append_assoc]
          dsimp only
          by_cases fits : (stored ++ readyOf (s.poll f) ev).length ≤ len
          · rw [if_pos fits, ih (fun entry member => below entry (List.mem_cons_of_mem _ member))
              _ fits]
            simp only [List.cons.injEq, true_and]
          · rw [if_neg fits, if_neg]
            rw [List.length_append]
            omega

/-- At most two events for a registration. -/
theorem readyOf_length (polled : LinuxResult PollState) (ev : EpollEvent)
    : (readyOf polled ev).length ≤ 2 := by
  unfold readyOf
  split
  · split <;> simp
  · rw [List.length_append]
    have one (p : Prop) [Decidable p] (event : EpollEvent)
        : (if p then [event] else []).length ≤ 1 := by
      split <;> simp
    exact Nat.add_le_add (one _ _) (one _ _)

/-- The events of a table full of registrations, by induction on the registrations. -/
theorem readyAmong_length (s : Epoll Bits F) (entries : List (Nat × EpollEvent))
    : (s.readyAmong entries).length ≤ 2 * entries.length := by
  unfold readyAmong
  induction entries with
  | nil => exact Nat.zero_le _
  | cons entry rest ih =>
      rw [List.flatMap_cons, List.length_append, List.length_cons]
      have few : (s.readyFrom entry).length ≤ 2 := by
        unfold readyFrom
        split
        · exact readyOf_length ..
        · exact Nat.zero_le 2
      omega

theorem registered_of_entry {entry : Nat × EpollEvent} (member : entry ∈ s.events.entries)
    : s.Registered entry.1 := by
  rw [Registered, BTreeMap.get_eq_some.mpr member]
  rfl

theorem Sound.entries_below (sound : s.Sound bm)
    : ∀ entry ∈ s.events.entries, entry.1 < AX_FILE_LIMIT :=
  fun _ member => sound.registered _ (registered_of_entry member)

/-- No more registrations than the table has descriptors. -/
theorem Sound.entries_length (sound : s.Sound bm) : s.events.entries.length ≤ AX_FILE_LIMIT := by
  have inside : s.events.entries.map Prod.fst ⊆ List.range AX_FILE_LIMIT := by
    intro fd member
    obtain ⟨entry, found, rfl⟩ := List.mem_map.mp member
    exact List.mem_range.mpr (sound.entries_below entry found)
  have few := (List.subperm_of_subset s.events.keys_nodup inside).length_le
  rwa [List.length_map, List.length_range] at few

/-- What is registered has an entry in the interest list. -/
theorem Registered.entry {fd : Nat} (registered : s.Registered fd)
    : ∃ ev, (fd, ev) ∈ s.events.entries := by
  obtain ⟨ev, found⟩ := Option.isSome_iff_exists.mp registered
  exact ⟨ev, BTreeMap.get_eq_some.mp found⟩

theorem sysEpollWait_eq {epfd maxevents : CInt} (created : s.fromFd bm epfd = some (.ok ()))
    (positive : 0 < maxevents.toInt) (expired : Bool)
    : s.sysEpollWait bm epfd maxevents expired
      = (s.pollAll bm (asUsize maxevents)).map fun polled =>
          polled.map fun events =>
            if 0 < events.length then some events else if expired then some [] else none := by
  unfold sysEpollWait
  rw [if_neg (by omega), created]

/-- A wait delivers the events exactly when no descriptor was closed behind a registration. -/
theorem waits_iff (sound : s.Sound bm) {epfd : CInt}
    (created : s.fromFd bm epfd = some (.ok ()))
    : s.Waits bm epfd ↔ s.Fresh := by
  constructor
  · intro waits fd registered
    by_contra closed
    obtain ⟨ev, member⟩ := registered.entry
    -- a buffer with room for the events of a full table
    have fits : (s.readyAmong s.events.entries).length ≤ asUsize 2048#32 := by
      have few := s.readyAmong_length s.events.entries
      have entries : s.events.entries.length ≤ 1024 := sound.entries_length
      have room : asUsize 2048#32 = 2048 := by decide
      omega
    have returned := (waits 2048#32 true (by decide)).mpr fits
    rw [sysEpollWait_eq created (by decide)] at returned
    obtain ⟨polled, all, result⟩ := Option.map_eq_some_iff.mp returned
    cases polled with
    | error e => cases result
    | ok events =>
        rw [pollAll, pollEntries_eq sound.table _ sound.entries_below [] (Nat.zero_le _),
          if_neg fun same => closed (opened_eq_self.mp same _ member)] at all
        split at all <;> cases all
  · intro fresh maxevents expired positive
    have all : s.opened s.events.entries = s.events.entries :=
      opened_eq_self.mpr fun entry member => fresh _ (registered_of_entry member)
    rw [sysEpollWait_eq created positive, pollAll,
      pollEntries_eq sound.table _ sound.entries_below [] (Nat.zero_le _), all, if_pos rfl,
      List.nil_append]
    by_cases fits : (s.readyAmong s.events.entries).length ≤ asUsize maxevents
    · rw [if_pos fits]
      exact iff_of_true rfl fits
    · rw [if_neg fits]
      exact iff_of_false (by nofun) fits

theorem sysEpollCtl_del (exact : s.fdTable.Exact bm) {epfd fd : CInt} {event : EpollEvent}
    (closed : s.fdTable.held (asUsize fd) = none)
    (created : s.fromFd bm epfd = some (.ok ()))
    : s.sysEpollCtl bm epfd EPOLL_CTL_DEL fd event = some (.error .EBADF, s) := by
  unfold sysEpollCtl control
  rw [created]
  dsimp only
  rw [asCInt_asUsize, getFileLike_closed exact closed]
  rfl

/-- A stale registration cannot be removed, so that removal is possible exactly when there
is none.
-/
theorem removable_iff (sound : s.Sound bm) {epfd : CInt}
    (created : s.fromFd bm epfd = some (.ok ()))
    : s.Removable bm epfd ↔ s.Fresh := by
  constructor
  · intro removable fd registered
    by_contra closed
    have same := asUsize_asCInt (sound.registered fd registered)
    have free : s.fdTable.held (asUsize (asCInt fd)) = none := by
      rw [same]
      exact Option.not_isSome_iff_eq_none.mp closed
    obtain ⟨s', removed, -⟩ := removable (asCInt fd) ⟨0, 0⟩ (same.symm ▸ registered) free
    rw [sysEpollCtl_del sound.table free created] at removed
    cases removed
  · intro fresh fd event registered closed
    have opened := fresh _ registered
    rw [closed] at opened
    cases opened

-----------------------------------------------------------------------------------------
-- Every run
-----------------------------------------------------------------------------------------

theorem Started.sound (lawful : bm.Lawful) (started : s.Started bm) : s.Sound bm ∧ s.Fresh := by
  obtain ⟨reachable, created⟩ := started
  have unregistered (fd : Nat) : ¬ s.Registered fd := by
    rw [Registered, created]
    exact Bool.false_ne_true
  exact ⟨⟨(SlotTable.slots_exact lawful limit_fits reachable).1,
      fun fd registered => absurd registered (unregistered fd)⟩,
    fun fd registered => absurd registered (unregistered fd)⟩

/-- The invariant of all runs. -/
theorem Reached.sound (lawful : bm.Lawful) (reached : s.Reached bm) : s.Sound bm := by
  refine reached.invariant (Sound bm) (fun s started => (started.sound lawful).1) ?_
  rintro s s' sound ⟨action, done⟩
  exact sound.run lawful done

/-- The invariant of the runs that spare registered descriptors. -/
theorem Sparing.fresh (lawful : bm.Lawful) (sparing : s.Sparing bm) : s.Fresh := by
  refine (sparing.invariant (fun s => s.Sound bm ∧ s.Fresh)
    (fun s started => started.sound lawful) ?_).2
  rintro s s' ⟨sound, fresh⟩ ⟨action, done, spares⟩
  exact ⟨sound.run lawful done, fresh.run lawful sound done spares⟩

/-- A close leaves no registration behind exactly when it spares the registered descriptors. -/
theorem close_fresh_iff (lawful : bm.Lawful) (sound : s.Sound bm) (fresh : s.Fresh) {fd : CInt}
    {answer : LinuxResult Unit} (done : s.sysClose bm fd = some (answer, s'))
    : s'.Fresh ↔ s.Spares fd := by
  have run : s.run bm (.close fd) = some s' := by
    rw [Epoll.run, done]
    rfl
  refine ⟨fun after => ?_, fun spares => fresh.run lawful sound run (by rintro _ ⟨⟩; exact spares)⟩
  rcases close_effect done with ⟨std, -⟩ | ⟨-, answer', removed⟩
  · exact .inl std
  · refine .inr fun registered => ?_
    obtain ⟨events, -⟩ := callTable_eq lawful sound.table (by trivial) removed
    have still : s'.Registered (asUsize fd) := by
      rwa [Registered, events]
    have opened := after _ still
    rw [held_of_closed lawful sound.table removed, if_pos rfl] at opened
    cases opened

/-- In every run, a wait delivers the events of the open descriptors, and what was closed can be
taken out of the interest list, exactly as long as every registered number is open. This is so
in the runs that close no registered descriptor, and ends with the first such close.
-/
theorem survives_closing (lawful : bm.Lawful) (reached : s.Reached bm) {epfd : CInt}
    (created : s.fromFd bm epfd = some (.ok ()))
    : (s.Waits bm epfd ↔ s.Fresh)
      ∧ (s.Removable bm epfd ↔ s.Fresh)
      ∧ (s.Sparing bm → s.Fresh)
      ∧ ∀ fd answer s', s.Fresh → s.sysClose bm fd = some (answer, s') →
        (s'.Fresh ↔ s.Spares fd) := by
  have sound := reached.sound lawful
  exact ⟨waits_iff sound created, removable_iff sound created, fun sparing => sparing.fresh lawful,
    fun fd answer s' fresh done => close_fresh_iff lawful sound fresh done⟩

-----------------------------------------------------------------------------------------
-- An instance with two registrations
-----------------------------------------------------------------------------------------

/-- An empty table, with files that can all be read. -/
def unused : Epoll (List Nat) Nat where
  fdTable := {
    objects := { objects := Vector.replicate AX_FILE_LIMIT none, idBitmap := [], count := 0 }
    log := [] }
  events := BTreeMap.empty
  pollFile _ := .ok { readable := true, writable := false }

theorem unused_started : unused.Started SlotTable.listed :=
  ⟨.start ⟨rfl, rfl⟩, rfl⟩

def readable (data : BitVec 64) : EpollEvent where
  events := EPOLLIN
  data := data

/-- Stdin, stdout, stderr, the instance and two files are opened, and the files registered. -/
def registering : List (Action Nat) :=
  [.opens (.file 0), .opens (.file 1), .opens (.file 1), .opens .epoll, .opens (.file 2),
    .opens (.file 3), .ctl 3 1 4 (readable 40), .ctl 3 1 5 (readable 50)]

def after (actions : List (Action Nat)) : Option (Epoll (List Nat) Nat) :=
  actions.foldlM (run SlotTable.listed) unused

/-- After descriptor 4 was closed, a wait fails although descriptor 5 is open and ready. -/
theorem close_stops_waits
    : ¬ ∀ s : Epoll (List Nat) Nat, s.Reached SlotTable.listed →
        ∀ epfd, s.fromFd SlotTable.listed epfd = some (.ok ()) →
          s.Waits SlotTable.listed epfd ∧ s.Removable SlotTable.listed epfd := by
  intro survives
  have closes : (after (registering ++ [.close 4])).isSome := by decide +kernel
  obtain ⟨s, closed⟩ := Option.isSome_iff_exists.mp closes
  have reached : s.Reached SlotTable.listed :=
    Transition.Reachable.actions (fun action _ _ _ done => ⟨action, done⟩)
      (.start unused_started) closed
  have seen : (after (registering ++ [.close 4])).map (fun s =>
        (s.fromFd SlotTable.listed 3, s.readyAmong s.events.entries,
          s.sysEpollWait SlotTable.listed 3 8 true))
      = some (some (.ok ()), [readable 50], some (.error .EBADF)) := by
    decide +kernel
  rw [closed] at seen
  simp only [Option.map_some, Option.some.injEq, Prod.mk.injEq] at seen
  obtain ⟨created, ready, waited⟩ := seen
  have waits := ((survives s reached 3 created).1 8 true (by decide)).mpr (by rw [ready]; decide)
  rw [waited] at waits
  cases waits

/-- Witness: with both descriptors open, the events of both are delivered. -/
theorem survives_closing_two
    : ∃ s : Epoll (List Nat) Nat,
        after registering = some s
        ∧ s.Waits SlotTable.listed 3
        ∧ s.readyAmong s.events.entries = [readable 40, readable 50] := by
  have registers : (after registering).isSome := by decide +kernel
  obtain ⟨s, run⟩ := Option.isSome_iff_exists.mp registers
  have seen : (after registering).map (fun s =>
        (s.fromFd SlotTable.listed 3, s.readyAmong s.events.entries))
      = some (some (.ok ()), [readable 40, readable 50]) := by
    decide +kernel
  rw [run] at seen
  simp only [Option.map_some, Option.some.injEq, Prod.mk.injEq] at seen
  have reached : s.Reached SlotTable.listed :=
    Transition.Reachable.actions (fun action _ _ _ done => ⟨action, done⟩)
      (.start unused_started) run
  have sparing : s.Sparing SlotTable.listed := by
    refine Transition.Reachable.actions (fun action member s s' done => ⟨action, done, ?_⟩)
      (.start unused_started) run
    rintro fd rfl
    simp [registering] at member
  have survives := survives_closing SlotTable.listed_lawful reached seen.1
  exact ⟨s, run, survives.1.mpr (survives.2.2.1 sparing), seen.2⟩

end Epoll

end RCoreOS.PosixApi.IoMpx
