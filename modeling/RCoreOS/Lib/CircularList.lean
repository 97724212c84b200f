import Mathlib.Logic.Function.Basic
import Mathlib.Data.List.Nodup

/-! Circular doubly linked lists threaded through a memory of links. A list is given by its nodes
in order, from any of them on: the one after the last is the first again.
-/

namespace CircularList

/-- The neighbours of a node. -/
structure Links (Node : Type) where
  next : Node
  prev : Node
deriving DecidableEq, Repr

/-- The links of the nodes; those of a node that is in no list are not initialised. -/
abbrev Memory (Node : Type) :=
  Node → Option (Links Node)

section Definitions

variable {Node : Type} (m : Memory Node)

def nextOf (node : Node) : Option Node :=
  (m node).map Links.next

def prevOf (node : Node) : Option Node :=
  (m node).map Links.prev

/-- Two nodes that follow each other. -/
def Linked (a b : Node) : Prop :=
  nextOf m a = some b ∧ prevOf m b = some a

/-- The way from one node to another one through the given ones. -/
def Path : Node → List Node → Node → Prop
  | start, [], stop => Linked m start stop
  | start, node :: rest, stop => Linked m start node ∧ Path node rest stop

/-- The nodes lead back to the first of them. -/
def Circular : List Node → Prop
  | [] => True
  | first :: rest => Path m first rest first

end Definitions

variable {Node : Type} {m m' : Memory Node} {a b node start stop first next : Node}
  {nodes pre post rest : List Node}

-----------------------------------------------------------------------------------------
-- Paths
-----------------------------------------------------------------------------------------

theorem path_append
    : Path m start (pre ++ node :: post) stop
      ↔ Path m start pre node ∧ Path m node post stop := by
  induction pre generalizing start with
  | nil => exact Iff.rfl
  | cons head tail ih => rw [List.cons_append, Path, Path, ih, and_assoc]

/-- A path stays when the links it goes along do: those to the next node up to its last one and
those back from the first one on.
-/
theorem Path.frame (path : Path m start nodes stop)
    (nexts : ∀ node ∈ start :: nodes, nextOf m' node = nextOf m node)
    (prevs : ∀ node ∈ nodes ++ [stop], prevOf m' node = prevOf m node)
    : Path m' start nodes stop := by
  induction nodes generalizing start with
  | nil =>
      refine ⟨?_, ?_⟩
      · rw [nexts start (by simp)]
        exact path.1
      · rw [prevs stop (by simp)]
        exact path.2
  | cons head tail ih =>
      refine ⟨⟨?_, ?_⟩, ih path.2 ?_ ?_⟩
      · rw [nexts start (by simp)]
        exact path.1.1
      · rw [prevs head (by simp)]
        exact path.1.2
      · exact fun node member => nexts node (List.mem_cons_of_mem _ member)
      · exact fun node member => prevs node (List.mem_cons_of_mem _ member)

/-- The second node of a path. -/
theorem Path.next_start (path : Path m start nodes stop)
    : nextOf m start = some (nodes.head?.getD stop) := by
  cases nodes with
  | nil => exact path.1
  | cons head tail => exact path.1.1

/-- The last node of a path but one. -/
theorem Path.prev_stop (path : Path m start nodes stop)
    : prevOf m stop = some (nodes.getLast?.getD start) := by
  rcases List.eq_nil_or_concat nodes with rfl | ⟨init, last, rfl⟩
  · exact path.2
  · rw [List.concat_eq_append] at path ⊢
    rw [List.getLast?_concat]
    exact (path_append.mp path).2.2

-----------------------------------------------------------------------------------------
-- Circular lists
-----------------------------------------------------------------------------------------

/-- A circular list can be read from any of its nodes on. -/
theorem Circular.rotate (circular : Circular m (pre ++ post)) : Circular m (post ++ pre) := by
  cases pre with
  | nil => rwa [List.append_nil]
  | cons first pre =>
      cases post with
      | nil => rwa [List.append_nil] at circular
      | cons node post =>
          obtain ⟨before, behind⟩ := path_append.mp circular
          exact path_append.mpr ⟨behind, before⟩

/-- A circular list stays when the links of all of its nodes do. -/
theorem Circular.frame (circular : Circular m nodes)
    (same : ∀ node ∈ nodes, m' node = m node)
    : Circular m' nodes := by
  cases nodes with
  | nil => exact trivial
  | cons first rest =>
      refine Path.frame circular (fun node member => ?_) (fun node member => ?_)
      · exact congrArg _ (same node member)
      · exact congrArg _ (same node (List.perm_append_singleton first rest |>.mem_iff.mp member))

/-- Every node of a circular list has its links. -/
theorem Circular.initialised (circular : Circular m nodes) (member : node ∈ nodes)
    : (m node).isSome = true := by
  obtain ⟨pre, post, rfl⟩ := List.append_of_mem member
  have next := Path.next_start circular.rotate
  rw [nextOf] at next
  obtain ⟨links, here, -⟩ := Option.map_eq_some_iff.mp next
  rw [here, Option.isSome_some]

/-- The node behind a given one; behind the last one comes the first. -/
theorem Circular.next_eq (circular : Circular m (pre ++ node :: post))
    : nextOf m node = some ((post ++ pre).head?.getD node) :=
  Path.next_start circular.rotate

/-- The node before a given one; before the first one comes the last. -/
theorem Circular.prev_eq (circular : Circular m (pre ++ node :: post))
    : prevOf m node = some ((post ++ pre).getLast?.getD node) :=
  Path.prev_stop circular.rotate

-----------------------------------------------------------------------------------------
-- Writes
-----------------------------------------------------------------------------------------

section Writes

variable [DecidableEq Node]

def write (m : Memory Node) (node : Node) (links : Links Node) : Memory Node :=
  Function.update m node (some links)

/-- A node that is taken out of its list gives its links up. -/
def erase (m : Memory Node) (node : Node) : Memory Node :=
  Function.update m node none

def setNext (m : Memory Node) (node next : Node) : Memory Node :=
  Function.update m node ((m node).map fun links => { links with next })

def setPrev (m : Memory Node) (node prev : Node) : Memory Node :=
  Function.update m node ((m node).map fun links => { links with prev })

@[simp]
theorem nextOf_write (links : Links Node)
    : nextOf (write m a links) b = if b = a then some links.next else nextOf m b := by
  unfold nextOf write
  split <;> simp_all

@[simp]
theorem prevOf_write (links : Links Node)
    : prevOf (write m a links) b = if b = a then some links.prev else prevOf m b := by
  unfold prevOf write
  split <;> simp_all

@[simp]
theorem nextOf_erase : nextOf (erase m a) b = if b = a then none else nextOf m b := by
  unfold nextOf erase
  split <;> simp_all

@[simp]
theorem prevOf_erase : prevOf (erase m a) b = if b = a then none else prevOf m b := by
  unfold prevOf erase
  split <;> simp_all

@[simp]
theorem nextOf_setNext
    : nextOf (setNext m a next) b
      = if b = a then (nextOf m a).map fun _ => next else nextOf m b := by
  unfold nextOf setNext
  split <;> simp_all [Function.comp_def]

@[simp]
theorem prevOf_setNext : prevOf (setNext m a next) b = prevOf m b := by
  unfold prevOf setNext
  by_cases same : b = a
  · subst same
    simp [Function.comp_def]
  · simp [same]

@[simp]
theorem prevOf_setPrev
    : prevOf (setPrev m a next) b
      = if b = a then (prevOf m a).map fun _ => next else prevOf m b := by
  unfold prevOf setPrev
  split <;> simp_all [Function.comp_def]

@[simp]
theorem nextOf_setPrev : nextOf (setPrev m a next) b = nextOf m b := by
  unfold nextOf setPrev
  by_cases same : b = a
  · subst same
    simp [Function.comp_def]
  · simp [same]

@[simp]
theorem isSome_write (links : Links Node)
    : (write m a links b).isSome = (b = a || (m b).isSome) := by
  by_cases same : b = a <;> simp [write, same]

@[simp]
theorem isSome_erase : (erase m a b).isSome = (b ≠ a && (m b).isSome) := by
  by_cases same : b = a <;> simp [erase, same]

@[simp]
theorem isSome_setNext : (setNext m a next b).isSome = (m b).isSome := by
  by_cases same : b = a
  · subst same
    simp [setNext]
  · simp [setNext, same]

@[simp]
theorem isSome_setPrev : (setPrev m a next b).isSome = (m b).isSome := by
  by_cases same : b = a
  · subst same
    simp [setPrev]
  · simp [setPrev, same]

/-- A new node between a node and the next one. -/
def linkAfter (m : Memory Node) (existing next new : Node) : Memory Node :=
  setPrev (setNext (write m new ⟨next, existing⟩) existing new) next new

/-- A node is taken out from between its neighbours. -/
def unlink (m : Memory Node) (node prev next : Node) : Memory Node :=
  setPrev (setNext (erase m node) prev next) next prev

/-- Writes at other nodes only. -/
theorem linkAfter_of_ne {existing new : Node} (notExisting : b ≠ existing) (notNext : b ≠ next)
    (notNew : b ≠ new)
    : linkAfter m existing next new b = m b := by
  simp [linkAfter, setPrev, setNext, write, notExisting, notNext, notNew]

theorem unlink_of_ne {prev : Node} (notNode : b ≠ node) (notPrev : b ≠ prev)
    (notNext : b ≠ next)
    : unlink m node prev next b = m b := by
  simp [unlink, setPrev, setNext, erase, notNode, notPrev, notNext]

theorem unlink_self {prev : Node} (prevOther : node ≠ prev) (nextOther : node ≠ next)
    : unlink m node prev next node = none := by
  simp [unlink, setPrev, setNext, erase, prevOther, nextOther]

/-- A new node behind the first one. Behind a single node comes that node itself. -/
theorem Circular.linkAfter_first {new : Node} (circular : Circular m (first :: rest))
    (distinct : (new :: first :: rest).Nodup)
    : Circular (linkAfter m first (rest.head?.getD first) new) (first :: new :: rest) := by
  have newFirst : new ≠ first := fun same => by simp [same] at distinct
  cases rest with
  | nil =>
      obtain ⟨forward, backward⟩ := circular
      refine ⟨⟨?_, ?_⟩, ?_, ?_⟩ <;>
        simp [linkAfter, newFirst, newFirst.symm, forward, backward]
  | cons second tail =>
      obtain ⟨⟨forward, backward⟩, onward⟩ := circular
      simp only [List.nodup_cons, List.mem_cons, not_or] at distinct
      obtain ⟨⟨-, newSecond, newTail⟩, ⟨firstSecond, firstTail⟩, secondTail, -⟩ := distinct
      have secondNew : second ≠ new := Ne.symm newSecond
      refine ⟨⟨?_, ?_⟩, ⟨?_, ?_⟩, Path.frame onward ?_ ?_⟩
      · simp [linkAfter, newFirst.symm, forward]
      · simp [linkAfter, newSecond]
      · simp [linkAfter, newFirst]
      · simp [linkAfter, secondNew, backward]
      · intro other member
        have notNew : other ≠ new := by
          rintro rfl
          simp_all
        have notFirst : other ≠ first := by
          rintro rfl
          simp_all
        simp [linkAfter, notNew, notFirst]
      · intro other member
        have notNew : other ≠ new := by
          rintro rfl
          simp_all
        have notSecond : other ≠ second := by
          rintro rfl
          simp_all
        simp [linkAfter, notNew, notSecond]

/-- The first of several nodes is taken out. -/
theorem Circular.unlink_first (circular : Circular m (node :: first :: rest))
    (distinct : (node :: first :: rest).Nodup)
    : Circular (unlink m node (rest.getLast?.getD first) first) (first :: rest) := by
  obtain ⟨⟨-, backward⟩, onward⟩ := circular
  simp only [List.nodup_cons, List.mem_cons, not_or] at distinct
  obtain ⟨⟨nodeFirst, nodeRest⟩, firstRest, restDistinct⟩ := distinct
  have firstNode : first ≠ node := Ne.symm nodeFirst
  rcases List.eq_nil_or_concat rest with rfl | ⟨init, last, rfl⟩
  · refine ⟨?_, ?_⟩
    · simp [unlink, firstNode, onward.1]
    · simp [unlink, firstNode, backward]
  · rw [List.concat_eq_append] at *
    obtain ⟨along, forward, -⟩ := path_append.mp onward
    have lastNode : last ≠ node := fun same => nodeRest (by simp [same])
    have lastFirst : last ≠ first := fun same => firstRest (by simp [same])
    rw [List.getLast?_concat, Option.getD_some]
    refine path_append.mpr ⟨Path.frame along ?_ ?_, ?_, ?_⟩
    · intro other member
      have notNode : other ≠ node := by
        rintro rfl
        simp_all
      have notLast : other ≠ last := by
        rintro rfl
        rcases List.mem_cons.mp member with isFirst | inInit
        · exact lastFirst isFirst
        · exact (List.nodup_append.mp restDistinct).2.2 _ inInit _ (List.mem_singleton_self _) rfl
      simp [unlink, notNode, notLast]
    · intro other member
      have notNode : other ≠ node := by
        rintro rfl
        simp_all
      have notFirst : other ≠ first := by
        rintro rfl
        simp_all
      simp [unlink, notNode, notFirst]
    · simp [unlink, lastNode, forward]
    · simp [unlink, firstNode, backward]

/-- A new node behind any node. -/
theorem Circular.linkAfter {new : Node} (circular : Circular m (pre ++ node :: post))
    (distinct : (pre ++ node :: post).Nodup) (fresh : new ∉ pre ++ node :: post)
    : Circular (linkAfter m node ((post ++ pre).head?.getD node) new)
        (pre ++ node :: new :: post) := by
  have turned : (pre ++ node :: post).Perm (node :: (post ++ pre)) := List.perm_append_comm
  have first := Circular.linkAfter_first circular.rotate
    (List.nodup_cons.mpr ⟨fun member => fresh (turned.mem_iff.mpr member),
      turned.nodup_iff.mp distinct⟩)
  exact (show Circular _ ((node :: new :: post) ++ pre) from first).rotate

/-- Any node is taken out if there are others. -/
theorem Circular.unlink (circular : Circular m (pre ++ node :: post))
    (distinct : (pre ++ node :: post).Nodup) (others : post ++ pre ≠ [])
    : Circular
        (unlink m node ((post ++ pre).getLast?.getD node) ((post ++ pre).head?.getD node))
        (pre ++ post) := by
  have turned : (pre ++ node :: post).Perm (node :: (post ++ pre)) := List.perm_append_comm
  have fromNode : Circular m (node :: (post ++ pre)) := circular.rotate
  have apart := turned.nodup_iff.mp distinct
  suffices behind : Circular _ (post ++ pre) from behind.rotate
  cases around : post ++ pre with
  | nil => exact absurd around others
  | cons first rest =>
      rw [around] at fromNode apart
      rw [List.getLast?_cons, Option.getD_some]
      exact fromNode.unlink_first apart

end Writes

end CircularList
