import MiraclesAdmin.StoredRecords

/-!
Observers decode with forced casts, so a record outside the format ends the process of
every client that observes its category, on the screen or from a screen it has left. If
the empty key names the category itself, this comes from saves under it only: the writer
is the first to see it, with the next value event after the press.
-/
namespace MiraclesAdmin.ObserverSurvival

open SwiftText Transition ObjectHeap ProductRecords ProductForm CategoryStore CategoryWrites
open ProductList hiding step
open ProductsScreen hiding Event step launch
open AdminNetwork NetworkSteps StoredRecords

variable {C : Type*} [DecidableEq C] {F : Foundation} {B : Firebase} {s t : Network C}
  {e : Event C}

/-- Everything that is held can be decoded, and no save under the empty key waits. -/
structure AllReadable (s : Network C) : Prop where
  formatted : Formatted s
  held : AllHeld (fun _ key record => (readProduct key record).isSome) s
  waiting : ∀ c, ∀ q ∈ (s.clients c).outgoing, ¬ IsUnkeyedSave q.write

omit [DecidableEq C] in
theorem AllReadable.view (hB : B.Local) (hs : AllReadable s) (c : C) (category : String) :
    Readable ((s.clients c).view B category) :=
  view_forall hB hs.held (fun q hq _ _ hputs =>
    readable_of_puts (hs.formatted c q hq) (hs.waiting c q hq) hputs) category

end MiraclesAdmin.ObserverSurvival
