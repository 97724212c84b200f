import Mathlib.Logic.Function.Basic
import Mathlib.Data.List.Nodup

/-! Singly linked lists threaded through a memory of link words. -/

/-- The nodes of a list in the order of their links, the last of which is empty. -/
def Chain (link : Nat → Option Nat) : Option Nat → List Nat → Prop
  | head, [] => head = none
  | head, node :: rest => head = some node ∧ Chain link (link node) rest

namespace Chain

variable {link link' : Nat → Option Nat} {head : Option Nat} {node : Nat} {nodes : List Nat}

/-- A memory with the same links in the nodes has the same list, by induction on the nodes. -/
theorem frame (chain : Chain link head nodes) (same : ∀ node ∈ nodes, link' node = link node)
    : Chain link' head nodes := by
  induction nodes generalizing head with
  | nil => exact chain
  | cons node rest ih =>
      refine ⟨chain.1, ?_⟩
      rw [same node (List.mem_cons_self ..)]
      exact ih chain.2 fun other member => same other (List.mem_cons_of_mem _ member)

/-- Writes outside of the nodes leave the list alone. -/
theorem update (chain : Chain link head nodes) (outside : node ∉ nodes) (next : Option Nat)
    : Chain (Function.update link node next) head nodes := by
  refine chain.frame fun other member => Function.update_of_ne ?_ ..
  exact ne_of_mem_of_not_mem member outside

/-- A new node in front, whose link is the old head. -/
theorem push (chain : Chain link head nodes) (fresh : node ∉ nodes)
    : Chain (Function.update link node head) (some node) (node :: nodes) := by
  refine ⟨rfl, ?_⟩
  rw [Function.update_self]
  exact chain.update fresh head

theorem head_eq (chain : Chain link head nodes) : head = nodes.head? := by
  cases nodes with
  | nil => exact chain
  | cons node rest => exact chain.1

end Chain
