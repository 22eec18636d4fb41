import Mathlib

/-!
# A place for one object

Raw storage and the objects that are constructed in it. A destructor or another
function of a type may be run on the storage at any time; whether an object of
that type was there is recorded.
-/

namespace Bexec.Foundation

/-- The objects of a place, numbered in the order of their construction. -/
structure Place (T : Type*) where
  /-- Those alive, the last one first. -/
  alive : List (Nat × T)
  constructed : Nat
  /-- Those destroyed, the last one first. -/
  destroyed : List Nat
  /-- Those on which a function was run, the last one first. -/
  used : List Nat
  /-- A destructor or a function was run without an object of its type. -/
  misused : Bool
  deriving DecidableEq

namespace Place

variable {T : Type*}

def empty : Place T := ⟨[], 0, [], [], false⟩

/-- Construct an object of the type. -/
def construct (p : Place T) (type : T) : Place T :=
  { p with alive := (p.constructed, type) :: p.alive, constructed := p.constructed + 1 }

section Run

variable [DecidableEq T]

/-- Run the destructor of the type. -/
def destroyAs (p : Place T) (type : T) : Place T :=
  match p.alive with
  | (object, type') :: rest =>
      if type' = type then { p with alive := rest, destroyed := object :: p.destroyed }
      else { p with misused := true }
  | [] => { p with misused := true }

/-- Run a function of the type. -/
def useAs (p : Place T) (type : T) : Place T :=
  match p.alive with
  | (object, type') :: _ =>
      if type' = type then { p with used := object :: p.used } else { p with misused := true }
  | [] => { p with misused := true }

end Run

/-- The place holds no object, or only the last one constructed, and that is of the
type that its owner has noted. -/
inductive Holds (p : Place T) : Option T → Prop
  | vacant (halive : p.alive = []) : Holds p none
  | occupied {object : Nat} {type : T} (halive : p.alive = [(object, type)])
      (hlast : p.constructed = object + 1) : Holds p (some type)

/-- Every object constructed is either alive or was destroyed, once; nothing was
run without an object. -/
structure Accounted (p : Place T) : Prop where
  total : ∀ object, object < p.constructed ↔
    object ∈ p.destroyed ∨ ∃ type, (object, type) ∈ p.alive
  once : p.destroyed.Nodup
  apart : ∀ object type, (object, type) ∈ p.alive → object ∉ p.destroyed
  sound : p.misused = false

variable {p : Place T} {type : T} {noted : Option T}

theorem holds_empty : (empty : Place T).Holds none := .vacant rfl

theorem accounted_empty : (empty : Place T).Accounted where
  total := by simp [empty]
  once := List.nodup_nil
  apart := by simp [empty]
  sound := rfl

theorem Holds.alive_none (h : p.Holds none) : p.alive = [] := by
  cases h with
  | vacant halive => exact halive

@[simp] theorem construct_alive (p : Place T) (type : T) :
    (p.construct type).alive = (p.constructed, type) :: p.alive := rfl

theorem Holds.construct (h : p.Holds none) (type : T) : (p.construct type).Holds (some type) :=
  .occupied (by simp [Place.construct, h.alive_none]) rfl

theorem Accounted.construct (h : p.Accounted) (type : T) : (p.construct type).Accounted where
  total := by
    intro object
    have hbefore := h.total object
    simp only [Place.construct, List.mem_cons, Prod.mk.injEq]
    constructor
    · intro hlt
      rcases Nat.lt_succ_iff_lt_or_eq.mp hlt with hlt | rfl
      · refine (hbefore.mp hlt).imp_right ?_
        rintro ⟨type', hmem⟩
        exact ⟨type', .inr hmem⟩
      · exact .inr ⟨type, .inl ⟨rfl, rfl⟩⟩
    · rintro (hdestroyed | ⟨type', ⟨rfl, -⟩ | hmem⟩)
      · exact Nat.lt_succ_of_lt (hbefore.mpr (.inl hdestroyed))
      · exact Nat.lt_succ_self _
      · exact Nat.lt_succ_of_lt (hbefore.mpr (.inr ⟨type', hmem⟩))
  once := h.once
  apart := by
    intro object type' hmem hdestroyed
    rcases List.mem_cons.mp hmem with heq | hmem
    · obtain ⟨rfl, -⟩ := Prod.mk.inj heq
      exact lt_irrefl _ ((h.total p.constructed).mpr (.inl hdestroyed))
    · exact h.apart object type' hmem hdestroyed
  sound := h.sound

section Run

variable [DecidableEq T]

@[simp] theorem destroyAs_constructed (p : Place T) (type : T) :
    (p.destroyAs type).constructed = p.constructed := by
  unfold Place.destroyAs
  split
  · split <;> rfl
  · rfl

theorem Holds.destroyAs (h : p.Holds (some type)) : (p.destroyAs type).Holds none := by
  cases h with
  | occupied halive hlast =>
      refine .vacant ?_
      simp [Place.destroyAs, halive]

theorem Accounted.destroyAs (h : p.Accounted) (hholds : p.Holds (some type)) :
    (p.destroyAs type).Accounted := by
  cases hholds with
  | @occupied object _ halive hlast =>
      have hdestroy : p.destroyAs type =
          { p with alive := [], destroyed := object :: p.destroyed } := by
        simp [Place.destroyAs, halive]
      have hnot : object ∉ p.destroyed := h.apart object type (by simp [halive])
      rw [hdestroy]
      constructor
      · intro other
        have hbefore := h.total other
        simp only [halive, List.mem_singleton, Prod.mk.injEq] at hbefore
        simp only [List.mem_cons, List.not_mem_nil, exists_false, or_false, hbefore]
        constructor
        · rintro (hdestroyed | ⟨_, rfl, -⟩)
          · exact .inr hdestroyed
          · exact .inl rfl
        · rintro (rfl | hdestroyed)
          · exact .inr ⟨type, rfl, rfl⟩
          · exact .inl hdestroyed
      · exact List.nodup_cons.mpr ⟨hnot, h.once⟩
      · simp
      · exact h.sound

/-- A function is run on the object that is alive. -/
theorem Holds.useAs_eq (h : p.Holds (some type)) :
    ∃ object, p.alive = [(object, type)] ∧ p.useAs type = { p with used := object :: p.used } := by
  cases h with
  | occupied halive hlast => exact ⟨_, halive, by simp [Place.useAs, halive]⟩

theorem Holds.useAs (h : p.Holds (some type)) : (p.useAs type).Holds (some type) := by
  obtain ⟨object, -, heq⟩ := h.useAs_eq
  rw [heq]
  cases h with
  | occupied halive hlast => exact .occupied halive hlast

theorem Accounted.useAs (h : p.Accounted) (hholds : p.Holds (some type)) :
    (p.useAs type).Accounted := by
  obtain ⟨object, -, heq⟩ := hholds.useAs_eq
  rw [heq]
  exact ⟨h.total, h.once, h.apart, h.sound⟩

end Run

end Place

end Bexec.Foundation
