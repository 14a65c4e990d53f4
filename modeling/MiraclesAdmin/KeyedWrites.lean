import Mathlib.Data.List.Induction
import Mathlib.Logic.Function.Basic

/-!
Writes to a map from keys to values, each at one key. After a sequence of writes a
key holds what the last write to it left, or its first value if there was none.
-/
namespace MiraclesAdmin.KeyedWrites

variable {K V O : Type*} [DecidableEq K] (key : O → K) (written : O → V)

def write (c : K → V) (o : O) : K → V := Function.update c (key o) (written o)

def writeAll (c : K → V) (os : List O) : K → V := os.foldl (write key written) c

variable {key written} {c : K → V} {k : K}

theorem write_self (c : K → V) (o : O) : write key written c o (key o) = written o :=
  Function.update_self _ _ _

theorem write_of_ne {o : O} (h : key o ≠ k) : write key written c o k = c k :=
  Function.update_of_ne (Ne.symm h) _ _

theorem writeAll_append (os qs : List O) :
    writeAll key written c (os ++ qs) = writeAll key written (writeAll key written c os) qs :=
  List.foldl_append

theorem writeAll_of_untouched {os : List O} (h : ∀ o ∈ os, key o ≠ k) :
    writeAll key written c os k = c k := by
  induction os generalizing c with
  | nil => rfl
  | cons o os ih =>
    calc
      _ = write key written c o k := ih (fun o' ho' => h o' (by simp [ho']))
      _ = c k := write_of_ne (h o (by simp))

/-- A sequence of writes leaves a key alone or has a last write to it. -/
theorem exists_last (key : O → K) (k : K) (os : List O) :
    (∀ o ∈ os, key o ≠ k) ∨
      ∃ pre o post, os = pre ++ o :: post ∧ key o = k ∧ ∀ o' ∈ post, key o' ≠ k := by
  induction os with
  | nil => exact Or.inl (by simp)
  | cons o os ih =>
    rcases ih with huntouched | ⟨pre, o', post, rfl, hkey, hpost⟩
    · by_cases hkey : key o = k
      · exact Or.inr ⟨[], o, os, rfl, hkey, huntouched⟩
      · exact Or.inl (List.forall_mem_cons.mpr ⟨hkey, huntouched⟩)
    · exact Or.inr ⟨o :: pre, o', post, rfl, hkey, hpost⟩

theorem writeAll_last {pre post : List O} {o : O} (h : ∀ o' ∈ post, key o' ≠ key o) :
    writeAll key written c (pre ++ o :: post) (key o) = written o := by
  rw [writeAll_append]
  calc
    _ = write key written (writeAll key written c pre) o (key o) := writeAll_of_untouched h
    _ = written o := write_self _ o

end MiraclesAdmin.KeyedWrites
