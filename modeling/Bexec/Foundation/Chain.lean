import Mathlib

/-!
# Singly linked lists

The nodes reached from a head pointer through a table of successor fields.
-/

namespace Bexec.Foundation

variable {Node : Type*}

/-- The pointer leads through exactly these nodes to null. -/
def Chain (next : Node → Option Node) : Option Node → List Node → Prop
  | head, [] => head = none
  | head, node :: rest => head = some node ∧ Chain next (next node) rest

namespace Chain

variable {next : Node → Option Node} {head : Option Node} {nodes : List Node}

theorem nil_iff (hchain : Chain next none nodes) : nodes = [] := by
  cases nodes with
  | nil => rfl
  | cons node rest => cases hchain.1

theorem cons_of_some {node : Node} (hchain : Chain next (some node) nodes) :
    ∃ rest, nodes = node :: rest ∧ Chain next (next node) rest := by
  cases nodes with
  | nil => cases hchain
  | cons first rest =>
      obtain ⟨hfirst, hrest⟩ := hchain
      cases hfirst
      exact ⟨rest, rfl, hrest⟩

variable [DecidableEq Node] {node : Node}

/-- The field of a node off the chain does not matter. -/
theorem update (hchain : Chain next head nodes) (hnode : node ∉ nodes) (target : Option Node) :
    Chain (Function.update next node target) head nodes := by
  induction nodes generalizing head with
  | nil => exact hchain
  | cons first rest ih =>
      obtain ⟨hfirst, hrest⟩ := hchain
      have hne : first ≠ node := fun heq => hnode (heq ▸ List.mem_cons_self)
      refine ⟨hfirst, ?_⟩
      rw [Function.update_of_ne hne]
      exact ih hrest (fun hmem => hnode (List.mem_cons_of_mem _ hmem))

theorem push (hchain : Chain next head nodes) (hnode : node ∉ nodes) :
    Chain (Function.update next node head) (some node) (node :: nodes) := by
  refine ⟨rfl, ?_⟩
  rw [Function.update_self]
  exact hchain.update hnode head

end Chain

end Bexec.Foundation
