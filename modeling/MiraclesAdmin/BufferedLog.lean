import Mathlib.Data.List.Basic

/-!
A log with a buffer. An appended entry is buffered; a flush that succeeds makes the
buffer durable, one that fails changes nothing, and a crash loses the buffer. In the end
those entries are durable, in the order they were appended in, that were flushed
successfully before a crash.
-/
namespace MiraclesAdmin.BufferedLog

variable {A : Type*}

structure Log (A : Type*) where
  durable : List A
  buffer : List A

inductive Op (A : Type*)
  | append (a : A)
  | flush (success : Bool)
  | crash

def exec (l : Log A) : Op A → Log A
  | .append a => ⟨l.durable, l.buffer ++ [a]⟩
  | .flush true => ⟨l.durable ++ l.buffer, []⟩
  | .flush false => l
  | .crash => ⟨l.durable, []⟩

/-- What is buffered is flushed successfully before a crash. -/
def kept : List (Op A) → Bool
  | [] => false
  | .flush true :: _ => true
  | .crash :: _ => false
  | _ :: ops => kept ops

/-- The entries appended that are kept. -/
def survivors : List (Op A) → List A
  | [] => []
  | .append a :: ops => if kept ops then a :: survivors ops else survivors ops
  | _ :: ops => survivors ops

/-- The durable entries are the initial ones, the buffered ones if they are kept, and
the survivors among the appended ones. -/
theorem durable_foldl (l : Log A) (ops : List (Op A)) :
    (ops.foldl exec l).durable =
      l.durable ++ (if kept ops then l.buffer else []) ++ survivors ops := by
  induction ops generalizing l with
  | nil => simp [kept, survivors]
  | cons op ops ih =>
    rw [List.foldl_cons, ih]
    cases op with
    | append a => by_cases hkept : kept ops <;> simp [exec, kept, survivors, hkept]
    | crash => simp [exec, kept, survivors]
    | flush success =>
      cases success with
      | true => simp [exec, kept, survivors]
      | false => rfl

/-- From an empty buffer the survivors follow the initial entries. -/
theorem durable_of_empty (durable : List A) (ops : List (Op A)) :
    (ops.foldl exec ⟨durable, []⟩).durable = durable ++ survivors ops := by
  rw [durable_foldl, ite_self, List.append_nil]

end MiraclesAdmin.BufferedLog
