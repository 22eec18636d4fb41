import Mathlib

/-!
# Intrusive lists with slot back-pointers

A slot is a place that may point at a node: the list head, or the `next` field
of a node. Every linked node stores the address of the slot pointing at it, so
a node is unlinked without a special case for the head.
-/

namespace Bexec.Foundation

/-- A place holding a link. -/
inductive Slot (Node : Type*)
  | head
  | next (node : Node)
  deriving DecidableEq, Repr

/-- The head and the two link fields of every node. `prev` is the address of
the slot pointing at the node, or null. -/
structure Links (Node : Type*) where
  head : Option Node
  next : Node → Option Node
  prev : Node → Option (Slot Node)

namespace Links

variable {Node : Type*}

/-- No node is linked and every field is null. -/
def empty : Links Node := ⟨none, fun _ => none, fun _ => none⟩

def read (l : Links Node) : Slot Node → Option Node
  | .head => l.head
  | .next node => l.next node

/-- The nodes reached from a slot, each pointing back at the slot before it. -/
def Segment (l : Links Node) : Slot Node → List Node → Prop
  | slot, [] => l.read slot = none
  | slot, node :: rest =>
      l.read slot = some node ∧ l.prev node = some slot ∧ l.Segment (.next node) rest

theorem Segment.read_eq_head {l : Links Node} {slot : Slot Node} {nodes : List Node}
    (hseg : l.Segment slot nodes) : l.read slot = nodes.head? := by
  cases nodes with
  | nil => exact hseg
  | cons node rest => exact hseg.1

/-- A segment only depends on the slots it passes through and on the
back-pointers of its nodes. -/
theorem Segment.congr {l l' : Links Node} {slot : Slot Node} {nodes : List Node}
    (hseg : l.Segment slot nodes) (hslot : l'.read slot = l.read slot)
    (hnext : ∀ node ∈ nodes, l'.read (.next node) = l.read (.next node))
    (hprev : ∀ node ∈ nodes, l'.prev node = l.prev node) : l'.Segment slot nodes := by
  induction nodes generalizing slot with
  | nil => exact hslot.trans hseg
  | cons node rest ih =>
      obtain ⟨hread, hback, htail⟩ := hseg
      refine ⟨hslot.trans hread, (hprev node List.mem_cons_self).trans hback, ?_⟩
      exact ih htail (hnext node List.mem_cons_self)
        (fun other hother => hnext other (List.mem_cons_of_mem _ hother))
        (fun other hother => hprev other (List.mem_cons_of_mem _ hother))

theorem Segment.prev_ne_none {l : Links Node} {slot : Slot Node} {nodes : List Node}
    (hseg : l.Segment slot nodes) {node : Node} (hnode : node ∈ nodes) : l.prev node ≠ none := by
  induction nodes generalizing slot with
  | nil => simp at hnode
  | cons first rest ih =>
      obtain ⟨_, hback, htail⟩ := hseg
      rcases List.mem_cons.mp hnode with rfl | hnode
      · simp [hback]
      · exact ih htail hnode

/-- The slot a linked node points back at is the head or belongs to a node
linked before it, and it points at the node. -/
theorem Segment.prev_spec {l : Links Node} {slot : Slot Node} {nodes : List Node}
    (hseg : l.Segment slot nodes) {node : Node} (hnode : node ∈ nodes) :
    ∃ place, l.prev node = some place ∧ l.read place = some node ∧
      (place = slot ∨ ∃ before ∈ nodes, place = .next before) := by
  induction nodes generalizing slot with
  | nil => simp at hnode
  | cons first rest ih =>
      obtain ⟨hread, hback, htail⟩ := hseg
      rcases List.mem_cons.mp hnode with rfl | hnode
      · exact ⟨slot, hback, hread, Or.inl rfl⟩
      · obtain ⟨place, hplace, hpoints, hwhere⟩ := ih htail hnode
        refine ⟨place, hplace, hpoints, Or.inr ?_⟩
        rcases hwhere with rfl | ⟨before, hbefore, rfl⟩
        · exact ⟨first, List.mem_cons_self, rfl⟩
        · exact ⟨before, List.mem_cons_of_mem _ hbefore, rfl⟩

theorem Segment.next_mem {l : Links Node} {slot : Slot Node} {nodes : List Node}
    (hseg : l.Segment slot nodes) {node after : Node} (hnode : node ∈ nodes)
    (hafter : l.next node = some after) : after ∈ nodes := by
  induction nodes generalizing slot with
  | nil => simp at hnode
  | cons first rest ih =>
      obtain ⟨_, _, htail⟩ := hseg
      rcases List.mem_cons.mp hnode with rfl | hnode
      · have hhead : rest.head? = some after := htail.read_eq_head ▸ hafter
        exact List.mem_cons_of_mem _ (List.mem_of_mem_head? hhead)
      · exact List.mem_cons_of_mem _ (ih htail hnode)

theorem Segment.next_ne_self {l : Links Node} {slot : Slot Node} {nodes : List Node}
    (hseg : l.Segment slot nodes) (hnodup : nodes.Nodup) {node : Node} (hnode : node ∈ nodes) :
    l.next node ≠ some node := by
  induction nodes generalizing slot with
  | nil => simp at hnode
  | cons first rest ih =>
      obtain ⟨hfirst, hrest⟩ := List.nodup_cons.mp hnodup
      obtain ⟨_, _, htail⟩ := hseg
      rcases List.mem_cons.mp hnode with rfl | hnode
      · intro hself
        have hhead : rest.head? = some node := htail.read_eq_head ▸ hself
        exact hfirst (List.mem_of_mem_head? hhead)
      · exact ih htail hrest hnode

/-- The links represent a list without repetition starting at the head. -/
structure Represents (l : Links Node) (nodes : List Node) : Prop where
  nodup : nodes.Nodup
  segment : l.Segment .head nodes

/-- The nodes reached from the head by `next`. -/
inductive Reached (l : Links Node) : Node → Prop
  | head {node : Node} (hhead : l.head = some node) : Reached l node
  | next {before node : Node} (hbefore : Reached l before) (hnext : l.next before = some node) :
      Reached l node

theorem Segment.reached {l : Links Node} {slot : Slot Node} {nodes : List Node}
    (hseg : l.Segment slot nodes) (hslot : ∀ node, l.read slot = some node → l.Reached node)
    {node : Node} (hnode : node ∈ nodes) : l.Reached node := by
  induction nodes generalizing slot with
  | nil => simp at hnode
  | cons first rest ih =>
      obtain ⟨hread, -, htail⟩ := hseg
      have hfirst := hslot first hread
      rcases List.mem_cons.mp hnode with rfl | hnode
      · exact hfirst
      · exact ih htail (fun after hafter => .next hfirst hafter) hnode

theorem Represents.reached_iff {l : Links Node} {nodes : List Node} (hrep : l.Represents nodes)
    {node : Node} : l.Reached node ↔ node ∈ nodes := by
  constructor
  · intro hreached
    induction hreached with
    | head hhead =>
        have hfirst := hrep.segment.read_eq_head
        exact List.mem_of_mem_head? (hfirst.symm.trans hhead)
    | next _ hnext ih => exact hrep.segment.next_mem ih hnext
  · exact hrep.segment.reached fun node hhead => .head hhead

/-- A slot starts only one list. -/
theorem Segment.unique {l : Links Node} {slot : Slot Node} {nodes nodes' : List Node}
    (hseg : l.Segment slot nodes) (hseg' : l.Segment slot nodes') : nodes = nodes' := by
  induction nodes generalizing slot nodes' with
  | nil =>
      cases nodes' with
      | nil => rfl
      | cons first rest => cases hseg.symm.trans hseg'.1
  | cons first rest ih =>
      cases nodes' with
      | nil => cases hseg'.symm.trans hseg.1
      | cons first' rest' =>
          obtain rfl : first = first' := Option.some.inj (hseg.1.symm.trans hseg'.1)
          rw [ih hseg.2.2 hseg'.2.2]

theorem represents_empty : (empty : Links Node).Represents [] :=
  ⟨List.nodup_nil, rfl⟩

section Operations

variable [DecidableEq Node]

def write (l : Links Node) : Slot Node → Option Node → Links Node
  | .head, target => { l with head := target }
  | .next node, target => { l with next := Function.update l.next node target }

def setPrev (l : Links Node) (node : Node) (slot : Option (Slot Node)) : Links Node :=
  { l with prev := Function.update l.prev node slot }

@[simp] theorem read_write_self (l : Links Node) (slot : Slot Node) (target : Option Node) :
    (l.write slot target).read slot = target := by
  cases slot <;> simp [read, write]

@[simp] theorem read_write_of_ne (l : Links Node) {slot other : Slot Node}
    (target : Option Node) (hne : other ≠ slot) :
    (l.write slot target).read other = l.read other := by
  cases slot <;> cases other <;> simp_all [read, write]

@[simp] theorem read_setPrev (l : Links Node) (node : Node) (slot : Option (Slot Node))
    (other : Slot Node) : (l.setPrev node slot).read other = l.read other := by
  cases other <;> rfl

@[simp] theorem prev_write (l : Links Node) (slot : Slot Node) (target : Option Node) :
    (l.write slot target).prev = l.prev := by
  cases slot <;> rfl

@[simp] theorem prev_setPrev_self (l : Links Node) (node : Node) (slot : Option (Slot Node)) :
    (l.setPrev node slot).prev node = slot := by
  simp [setPrev]

@[simp] theorem prev_setPrev_of_ne (l : Links Node) {node other : Node}
    (slot : Option (Slot Node)) (hne : other ≠ node) :
    (l.setPrev node slot).prev other = l.prev other := by
  simp [setPrev, hne]

/-- Redirecting the slot before a node leaves the successor of the node alone. -/
theorem Represents.next_write_slot {l : Links Node} {nodes : List Node}
    (hrep : l.Represents nodes) {node : Node} {slot : Slot Node} (hnode : node ∈ nodes)
    (hslot : l.prev node = some slot) (target : Option Node) :
    (l.write slot target).next node = l.next node := by
  obtain ⟨place, hplace, hread, _⟩ := hrep.segment.prev_spec hnode
  obtain rfl : slot = place := Option.some.inj (hslot.symm.trans hplace)
  have hne : Slot.next node ≠ slot := by
    rintro rfl
    exact hrep.segment.next_ne_self hrep.nodup hnode hread
  exact read_write_of_ne l target hne

/-- Point the successor of a freshly written slot back at that slot. -/
def relink (l : Links Node) (target : Option Node) (slot : Slot Node) : Links Node :=
  match target with
  | none => l
  | some node => l.setPrev node (some slot)

@[simp] theorem read_relink (l : Links Node) (target : Option Node) (slot other : Slot Node) :
    (l.relink target slot).read other = l.read other := by
  cases target <;> simp [relink]

@[simp] theorem prev_relink_self (l : Links Node) (node : Node) (slot : Slot Node) :
    (l.relink (some node) slot).prev node = some slot := by
  simp [relink]

theorem prev_relink_of_ne (l : Links Node) {target : Option Node} (slot : Slot Node)
    {node : Node} (hne : target ≠ some node) : (l.relink target slot).prev node = l.prev node := by
  cases target with
  | none => rfl
  | some target =>
      have hnode : node ≠ target := fun heq => hne (heq ▸ rfl)
      simp [relink, hnode]

/-- Link a node in front of the head. -/
def push (l : Links Node) (node : Node) : Links Node :=
  ((((l.write (.next node) l.head).setPrev node (some .head)).relink l.head (.next node)).write
    .head (some node))

/-- Unlink a node: its slot takes over its successor. -/
def unlink (l : Links Node) (node : Node) (slot : Slot Node) : Links Node :=
  (l.write slot (l.next node)).relink (l.next node) slot

/-- Take the first node out of the list and null its back-pointer. -/
def pop (l : Links Node) (node : Node) : Links Node :=
  ((l.setPrev node none).write .head (l.next node)).relink (l.next node) .head

theorem Represents.push {l : Links Node} {nodes : List Node} (hrep : l.Represents nodes)
    {node : Node} (hnode : node ∉ nodes) : (l.push node).Represents (node :: nodes) := by
  refine ⟨List.nodup_cons.mpr ⟨hnode, hrep.nodup⟩, ?_, ?_, ?_⟩
  · exact read_write_self _ _ _
  · have hhead : l.head ≠ some node := by
      intro heq
      have hfirst := hrep.segment.read_eq_head
      exact hnode (List.mem_of_mem_head? (hfirst ▸ heq))
    simp only [Links.push, prev_write]
    rw [prev_relink_of_ne _ _ hhead, prev_setPrev_self]
  · -- the old head hangs off the new node, the rest of the list is untouched
    cases nodes with
    | nil =>
        have hempty : l.head = none := hrep.segment
        simp [Segment, Links.push, hempty]
    | cons first rest =>
        have hfirst : l.head = some first := hrep.segment.1
        obtain ⟨hne, hrest⟩ : node ≠ first ∧ node ∉ rest := by simpa using hnode
        refine ⟨?_, ?_, ?_⟩
        · simp [Links.push, hfirst]
        · simp [Links.push, hfirst]
        · apply hrep.segment.2.2.congr
          · simp [Links.push, Ne.symm hne]
          · intro other hother
            have hother' : other ≠ node := fun heq => hrest (heq ▸ hother)
            simp [Links.push, hother']
          · intro other hother
            have hother' : other ≠ node := fun heq => hrest (heq ▸ hother)
            have hfirst' : other ≠ first :=
              fun heq => (List.nodup_cons.mp hrep.nodup).1 (heq ▸ hother)
            simp only [Links.push, prev_write]
            rw [prev_relink_of_ne _ _ (by simp [hfirst, Ne.symm hfirst']),
              prev_setPrev_of_ne _ _ hother', prev_write]

theorem Represents.pop {l : Links Node} {node : Node} {rest : List Node}
    (hrep : l.Represents (node :: rest)) : (l.pop node).Represents rest := by
  obtain ⟨hnode, hnodup⟩ := List.nodup_cons.mp hrep.nodup
  refine ⟨hnodup, ?_⟩
  have htail := hrep.segment.2.2
  cases rest with
  | nil =>
      have hnext : l.next node = none := htail
      simp [Segment, Links.pop, hnext]
  | cons first rest =>
      have hnext : l.next node = some first := htail.1
      refine ⟨by simp [Links.pop, hnext], by simp [Links.pop, hnext], ?_⟩
      apply htail.2.2.congr
      · simp [Links.pop]
      · intro other _
        simp [Links.pop]
      · intro other hother
        have hne : other ≠ node := fun heq => hnode (heq ▸ List.mem_cons_of_mem _ hother)
        have hfirst : other ≠ first := fun heq => (List.nodup_cons.mp hnodup).1 (heq ▸ hother)
        simp only [Links.pop]
        rw [prev_relink_of_ne _ _ (by simp [hnext, Ne.symm hfirst]), prev_write,
          prev_setPrev_of_ne _ _ hne]

theorem Segment.unlink {l : Links Node} {slot place : Slot Node} {front back : List Node}
    {node : Node} (hseg : l.Segment slot (front ++ node :: back))
    (hnodup : (front ++ node :: back).Nodup) (hslot : ∀ other ∈ front ++ node :: back,
      slot ≠ .next other) (hplace : l.prev node = some place) :
    (l.unlink node place).Segment slot (front ++ back) := by
  induction front generalizing slot with
  | nil =>
      obtain ⟨_, hback, htail⟩ := hseg
      obtain rfl : slot = place := Option.some.inj (hback.symm.trans hplace)
      obtain ⟨hnode, hnodup⟩ := List.nodup_cons.mp hnodup
      cases back with
      | nil =>
          have hnext : l.next node = none := htail
          simp [Segment, Links.unlink, hnext]
      | cons first rest =>
          have hnext : l.next node = some first := htail.1
          refine ⟨by simp [Links.unlink, hnext], by simp [Links.unlink, hnext], ?_⟩
          apply htail.2.2.congr
          · simp [Links.unlink, Ne.symm (hslot first (by simp))]
          · intro other hother
            simp [Links.unlink, Ne.symm (hslot other (by simp [hother]))]
          · intro other hother
            have hfirst : other ≠ first :=
              fun heq => (List.nodup_cons.mp hnodup).1 (heq ▸ hother)
            simp only [Links.unlink]
            rw [prev_relink_of_ne _ _ (by simp [hnext, Ne.symm hfirst]), prev_write]
  | cons first rest ih =>
      obtain ⟨hread, hback, htail⟩ := hseg
      obtain ⟨hfirst, hrest⟩ := List.nodup_cons.mp hnodup
      have hunlinked := ih htail hrest
        (fun other hother heq => hfirst ((Slot.next.inj heq) ▸ hother))
      -- the slot written to lies behind `first`, so the way to it is untouched
      obtain ⟨place', hplace', _, hwhere⟩ := htail.prev_spec (List.mem_append_right rest
        (List.mem_cons_self (a := node) (l := back)))
      obtain rfl : place' = place := Option.some.inj (hplace'.symm.trans hplace)
      have hne : slot ≠ place' := by
        rcases hwhere with rfl | ⟨before, hbefore, rfl⟩
        · exact hslot first (by simp)
        · exact hslot before (List.mem_cons_of_mem _ hbefore)
      refine ⟨by simp [Links.unlink, hne, hread], ?_, hunlinked⟩
      have hnext : l.next node ≠ some first := by
        intro heq
        have hmem := htail.next_mem (List.mem_append_right rest List.mem_cons_self) heq
        exact hfirst hmem
      simp only [Links.unlink]
      rw [prev_relink_of_ne _ _ hnext, prev_write, hback]

/-- Unlinking a linked node through its stored slot removes exactly that node
and keeps the order of the others. -/
theorem Represents.unlink {l : Links Node} {nodes : List Node} (hrep : l.Represents nodes)
    {node : Node} {place : Slot Node} (hnode : node ∈ nodes) (hplace : l.prev node = some place) :
    (l.unlink node place).Represents (nodes.erase node) := by
  obtain ⟨front, back, rfl⟩ := List.append_of_mem hnode
  have hnot : node ∉ front := by
    intro hmem
    have hdisjoint := (List.nodup_append.mp hrep.nodup).2.2
    exact hdisjoint node hmem node List.mem_cons_self rfl
  refine ⟨hrep.nodup.erase _, ?_⟩
  rw [List.erase_append_right _ hnot, List.erase_cons_head]
  exact hrep.segment.unlink hrep.nodup (by simp) hplace

theorem prev_push_of_ne {l : Links Node} {node other : Node} (hne : other ≠ node)
    (hhead : l.head ≠ some other) : (l.push node).prev other = l.prev other := by
  simp only [Links.push, prev_write]
  rw [prev_relink_of_ne _ _ hhead, prev_setPrev_of_ne _ _ hne, prev_write]

theorem prev_unlink_of_ne {l : Links Node} {node other : Node} {slot : Slot Node}
    (hnext : l.next node ≠ some other) : (l.unlink node slot).prev other = l.prev other := by
  simp only [Links.unlink]
  rw [prev_relink_of_ne _ _ hnext, prev_write]

theorem prev_pop_self {l : Links Node} {node : Node} (hnext : l.next node ≠ some node) :
    (l.pop node).prev node = none := by
  simp only [Links.pop]
  rw [prev_relink_of_ne _ _ hnext, prev_write, prev_setPrev_self]

theorem prev_pop_of_ne {l : Links Node} {node other : Node} (hne : other ≠ node)
    (hnext : l.next node ≠ some other) : (l.pop node).prev other = l.prev other := by
  simp only [Links.pop]
  rw [prev_relink_of_ne _ _ hnext, prev_write, prev_setPrev_of_ne _ _ hne]

end Operations

end Links

end Bexec.Foundation
