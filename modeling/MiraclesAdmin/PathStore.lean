import Mathlib.Data.List.Infix
import Mathlib.Tactic.Common

/-!
Hierarchical data as a partial map from paths to leaves. A location is read as the
store below its path. Writing a location replaces what is at it and below it, and
what a location that is neither above nor below reads is left alone; seen from a
location above, it is a write of the store that is read there.
-/
namespace MiraclesAdmin.PathStore

variable {K V : Type*} [DecidableEq K]

abbrev Store (K V : Type*) := List K → Option V

/-- The store below a location. -/
def read (s : Store K V) (path : List K) : Store K V := fun p => s (path ++ p)

/-- A leaf above the location gives way to the path that leads there. -/
def put (s : Store K V) (path : List K) (value : Store K V) : Store K V := fun p =>
  if path <+: p then value (p.drop path.length)
  else if p <+: path then none
  else s p

def remove (s : Store K V) (path : List K) : Store K V := fun p =>
  if path <+: p then none else s p

/-- Neither location is above the other. -/
def Apart (path other : List K) : Prop := ¬ path <+: other ∧ ¬ other <+: path

variable {path other : List K}

omit [DecidableEq K] in
theorem Apart.of_ne {a b : K} (hne : a ≠ b) (path rest other : List K) :
    Apart (path ++ a :: rest) (path ++ b :: other) := by
  constructor
  · intro h
    exact hne (List.cons_prefix_cons.mp ((List.prefix_append_right_inj path).mp h)).1
  · intro h
    exact hne (List.cons_prefix_cons.mp ((List.prefix_append_right_inj path).mp h)).1.symm

omit [DecidableEq K] in
/-- What lies below one of two locations apart lies apart from the other. -/
theorem Apart.below (h : Apart path other) (p : List K) : Apart (path ++ p) other := by
  constructor
  · intro hprefix
    exact h.1 ((List.prefix_append path p).trans hprefix)
  · intro hprefix
    rcases List.prefix_or_prefix_of_prefix hprefix (List.prefix_append path p) with hle | hle
    · exact h.2 hle
    · exact h.1 hle

/-- Seen from above, a write is a write of the store that is read there. -/
theorem read_put_below (s : Store K V) (path other : List K) (value : Store K V) :
    read (put s (path ++ other) value) path = put (read s path) other value := by
  funext p
  simp only [read, put, List.prefix_append_right_inj, List.length_append, List.drop_append,
    List.drop_eq_nil_of_le (Nat.le_add_right _ _), Nat.add_sub_cancel_left, List.nil_append]

theorem read_put_apart (h : Apart path other) (s : Store K V) (value : Store K V) :
    read (put s other value) path = read s path := by
  funext p
  have hp := h.below p
  simp only [read, put, if_neg hp.2, if_neg hp.1]

theorem read_remove_below (s : Store K V) (path other : List K) :
    read (remove s (path ++ other)) path = remove (read s path) other := by
  funext p
  simp only [read, remove, List.prefix_append_right_inj]

theorem read_remove_apart (h : Apart path other) (s : Store K V) :
    read (remove s other) path = read s path := by
  funext p
  simp only [read, remove, if_neg (h.below p).2]

end MiraclesAdmin.PathStore
