import Mathlib.Logic.Function.Basic
import Mathlib.Data.List.Basic
import Mathlib.Tactic.Common

/-!
A heap of mutable objects. References are never reused, so an object allocated
later is distinct from every live one. `Extends` is the frame relation of code
that only allocates; `modify` writes one object in place and is seen through all
of its references.
-/
namespace MiraclesAdmin.ObjectHeap

abbrev Ref := ℕ

structure Heap (α : Type*) where
  next : Ref
  cell : Ref → α

variable {α : Type*}

namespace Heap

def alloc (h : Heap α) (a : α) : Heap α × Ref :=
  (⟨h.next + 1, Function.update h.cell h.next a⟩, h.next)

def modify (h : Heap α) (r : Ref) (f : α → α) : Heap α :=
  ⟨h.next, Function.update h.cell r (f (h.cell r))⟩

def Live (h : Heap α) (r : Ref) : Prop := r < h.next

def values (h : Heap α) (rs : List Ref) : List α := rs.map h.cell

/-- Every object of the first heap is in the second, unchanged. -/
def Extends (h k : Heap α) : Prop :=
  h.next ≤ k.next ∧ ∀ r, h.Live r → k.cell r = h.cell r

@[simp] theorem alloc_ref (h : Heap α) (a : α) : (h.alloc a).2 = h.next := rfl

@[simp] theorem alloc_cell_new (h : Heap α) (a : α) : (h.alloc a).1.cell h.next = a := by
  simp [alloc]

theorem alloc_cell_old (h : Heap α) (a : α) {r : Ref} (hr : h.Live r) :
    (h.alloc a).1.cell r = h.cell r := by
  have hne : r ≠ h.next := Nat.ne_of_lt hr
  simp [alloc, hne]

theorem alloc_live_new (h : Heap α) (a : α) : (h.alloc a).1.Live h.next :=
  Nat.lt_succ_self h.next

@[simp] theorem modify_cell_self (h : Heap α) (r : Ref) (f : α → α) :
    (h.modify r f).cell r = f (h.cell r) := by
  simp [modify]

theorem modify_cell_of_ne (h : Heap α) {r q : Ref} (f : α → α) (hne : q ≠ r) :
    (h.modify r f).cell q = h.cell q := by
  simp [modify, hne]

theorem Extends.refl (h : Heap α) : h.Extends h := ⟨Nat.le_refl _, fun _ _ => rfl⟩

theorem Extends.live {h k : Heap α} (hk : h.Extends k) {r : Ref} (hr : h.Live r) : k.Live r :=
  Nat.lt_of_lt_of_le hr hk.1

theorem Extends.trans {h k l : Heap α} (hk : h.Extends k) (kl : k.Extends l) : h.Extends l :=
  ⟨Nat.le_trans hk.1 kl.1, fun r hr => (kl.2 r (hk.live hr)).trans (hk.2 r hr)⟩

theorem extends_alloc (h : Heap α) (a : α) : h.Extends (h.alloc a).1 :=
  ⟨Nat.le_succ h.next, fun _ hr => alloc_cell_old h a hr⟩

/-- Lists of live references read the same values in an extended heap. -/
theorem Extends.values {h k : Heap α} (hk : h.Extends k) {rs : List Ref}
    (hrs : ∀ r ∈ rs, h.Live r) : k.values rs = h.values rs :=
  List.map_congr_left (fun r hr => hk.2 r (hrs r hr))

/-- The heap with a function applied to every object. -/
def map (f : α → α) (h : Heap α) : Heap α := ⟨h.next, fun r => f (h.cell r)⟩

@[simp] theorem values_nil (h : Heap α) : h.values [] = [] := rfl

@[simp] theorem values_eq_nil (h : Heap α) (rs : List Ref) : h.values rs = [] ↔ rs = [] :=
  List.map_eq_nil_iff

end Heap

end MiraclesAdmin.ObjectHeap
