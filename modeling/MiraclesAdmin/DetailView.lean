import MiraclesAdmin.ProductForm

/-!
The form of one product: `ProductDetailViewController` without its globals. The
handlers take the current category and the contents of `selectedProduct` as they
are when the handler runs; which object that is, is the screen's business. `none`
is a trap.
-/
namespace MiraclesAdmin.DetailView

open SwiftText ProductRecords ProductForm

/-- The defaults are those of the storyboard. -/
structure ProductDetailView where
  productHeaderHidden : Bool := false
  productEditViewHidden : Bool := false
  productImageLink : Option String := none
  productName : Label := { text := "Label" }
  editButton : Button := { title := "Edit" }
  saveButton : Button := {}
  emptyLabel : Label := { text := "Choose a product shown in the left" }
  requiredLabel : Label := { text := "* Product name is required" }
  productTypeField : TextField := {}
  productNameField : TextField := {}
  productPriceField : TextField := {}
  productDiscountField : TextField := {}
  productDescriptionField : TextView := { text := "Description" }
  productAvailabilityField : Switch := {}
  editState : Bool := false

namespace ProductDetailView

def fillForm (v : ProductDetailView) (currentCategory : String) (selectedProduct : Product) :
    ProductDetailView :=
  { v with
    productTypeField := { v.productTypeField with text := currentCategory }
    productNameField := { v.productNameField with text := selectedProduct.name }
    productPriceField := { v.productPriceField with text := stringOfInt selectedProduct.price }
    productDiscountField := { v.productDiscountField with text := "" }
    productDescriptionField :=
      { v.productDescriptionField with text := selectedProduct.description }
    productAvailabilityField :=
      { v.productAvailabilityField with isOn := selectedProduct.availability } }

def toggleEditState (v : ProductDetailView) (enable : Bool) : ProductDetailView :=
  { v with
    productTypeField := { v.productTypeField with isEnabled := false }
    productNameField := { v.productNameField with isEnabled := enable }
    productPriceField := { v.productPriceField with isEnabled := enable }
    productDiscountField := { v.productDiscountField with isEnabled := enable }
    productDescriptionField :=
      { v.productDescriptionField with isEditable := enable, isWhite := enable }
    productAvailabilityField := { v.productAvailabilityField with isEnabled := enable } }

def draw (v : ProductDetailView) (currentCategory : String) (selectedProduct : Product) :
    ProductDetailView :=
  let hidden := { v with
    productHeaderHidden := true
    productEditViewHidden := true
    emptyLabel := { v.emptyLabel with isHidden := false }
    requiredLabel := { v.requiredLabel with isHidden := true }
    saveButton := { v.saveButton with isEnabled := false } }
  let toggled := hidden.toggleEditState v.editState
  if selectedProduct.name ≠ "" then
    { toggled.fillForm currentCategory selectedProduct with
      emptyLabel := { toggled.emptyLabel with isHidden := true }
      productName := { toggled.productName with text := selectedProduct.name }
      productImageLink := some selectedProduct.displayPicture
      productHeaderHidden := false
      productEditViewHidden := false }
  else toggled

def editPressed (v : ProductDetailView) (currentCategory : String) (selectedProduct : Product) :
    ProductDetailView :=
  let editState := !v.editState
  if editState = true then
    { v with
      editState := editState
      saveButton := { v.saveButton with isEnabled := true }
      editButton := { v.editButton with title := "Cancel" } }.toggleEditState editState
  else
    { v.fillForm currentCategory selectedProduct with
      editState := editState
      saveButton := { v.saveButton with isEnabled := false }
      editButton := { v.editButton with title := "Edit" }
      requiredLabel := { v.requiredLabel with isHidden := true } }.toggleEditState editState

def failedGuard (v : ProductDetailView) : Option String :=
  ProductForm.failedGuard v.productNameField.text v.productPriceField.text
    v.productDescriptionField.text

def newProductDictionary (v : ProductDetailView) (currentCategory : String)
    (selectedProduct : Product) : Option FirebaseValue :=
  productDictionary v.productNameField.text selectedProduct.displayPicture
    v.productDescriptionField.text v.productPriceField.text v.productAvailabilityField.isOn
    currentCategory

/-- The view after `savePressed`, and the value it writes at `selectedProduct.key`. -/
def savePressed (v : ProductDetailView) (currentCategory : String) (selectedProduct : Product) :
    Option (ProductDetailView × Option FirebaseValue) :=
  (ProductForm.savePressed v.requiredLabel v.failedGuard
    (v.newProductDictionary currentCategory selectedProduct)).map
      (fun (label, value) => ({ v with requiredLabel := label }, value))

/-- The view and the selected product after `updateSelectedValues`. -/
def updateSelectedValues (v : ProductDetailView) (selectedProduct : Product) :
    Option (ProductDetailView × Product) := do
  let price ← intOfString v.productPriceField.text
  return ({ v with productName := { v.productName with text := v.productNameField.text } },
    { selectedProduct with
      name := v.productNameField.text
      price := price
      description := v.productDescriptionField.text
      availability := v.productAvailabilityField.isOn })

/-- The success branch of the completion closure of `savePressed`. -/
def saveSucceeded (v : ProductDetailView) (selectedProduct : Product) :
    Option (ProductDetailView × Product) :=
  let edited := { v with
    saveButton := { v.saveButton with isEnabled := false }
    editButton := { v.editButton with title := "Edit" } }.toggleEditState false
  edited.updateSelectedValues selectedProduct

/-- What `resetForm` does to the view, once `selectedProduct` is a blank product. -/
def resetForm (v : ProductDetailView) : ProductDetailView :=
  { v with
    emptyLabel := { v.emptyLabel with isHidden := false }
    productHeaderHidden := true
    productEditViewHidden := true }

/-- The values the inputs denote. -/
def formValues (v : ProductDetailView) : Option FormValues :=
  ProductForm.formValues v.productNameField.text v.productPriceField.text
    v.productDescriptionField.text v.productAvailabilityField.isOn

theorem newProductDictionary_eq (v : ProductDetailView) (currentCategory : String)
    (selectedProduct : Product) :
    v.newProductDictionary currentCategory selectedProduct = v.formValues.map (fun w =>
      productRecord w selectedProduct.displayPicture currentCategory) :=
  productDictionary_eq _ _ _ _ _ _

theorem updateSelectedValues_eq (v : ProductDetailView) (selectedProduct : Product) :
    v.updateSelectedValues selectedProduct = v.formValues.map (fun w =>
      ({ v with productName := { v.productName with text := v.productNameField.text } },
        setValues selectedProduct w)) := by
  simp only [updateSelectedValues, formValues, ProductForm.formValues, Option.map_map]
  cases intOfString v.productPriceField.text <;> rfl

/-- The view that begins to edit. -/
def editing (v : ProductDetailView) : ProductDetailView :=
  { v with
    editState := true
    saveButton := { v.saveButton with isEnabled := true }
    editButton := { v.editButton with title := "Cancel" } }.toggleEditState true

/-- The view that shows the product again. -/
def cancelled (v : ProductDetailView) (currentCategory : String) (selectedProduct : Product) :
    ProductDetailView :=
  { v.fillForm currentCategory selectedProduct with
    editState := false
    saveButton := { v.saveButton with isEnabled := false }
    editButton := { v.editButton with title := "Edit" }
    requiredLabel := { v.requiredLabel with isHidden := true } }.toggleEditState false

theorem editPressed_of_not_editing {v : ProductDetailView} (h : v.editState = false)
    (currentCategory : String) (selectedProduct : Product) :
    v.editPressed currentCategory selectedProduct = v.editing := by
  unfold editPressed editing
  rw [h]
  rfl

theorem editPressed_of_editing {v : ProductDetailView} (h : v.editState = true)
    (currentCategory : String) (selectedProduct : Product) :
    v.editPressed currentCategory selectedProduct =
      v.cancelled currentCategory selectedProduct := by
  unfold editPressed cancelled
  rw [h]
  rfl

/-- The view whose save has succeeded. -/
def saved (v : ProductDetailView) : ProductDetailView :=
  { { v with
      saveButton := { v.saveButton with isEnabled := false }
      editButton := { v.editButton with title := "Edit" } }.toggleEditState false with
    productName := { v.productName with text := v.productNameField.text } }

/-- All that the success of a save does, unless the price is not a number: it copies
what the inputs denote when it arrives. -/
theorem saveSucceeded_eq (v : ProductDetailView) (selectedProduct : Product) :
    v.saveSucceeded selectedProduct =
      v.formValues.map (fun x => (v.saved, setValues selectedProduct x)) := by
  unfold saveSucceeded
  rw [updateSelectedValues_eq]
  rfl

theorem saveSucceeded_inv {v w : ProductDetailView} {p q : Product}
    (h : v.saveSucceeded p = some (w, q)) :
    ∃ x, v.formValues = some x ∧ w = v.saved ∧ q = setValues p x := by
  rw [saveSucceeded_eq] at h
  obtain ⟨x, hx, heq⟩ := Option.map_eq_some_iff.mp h
  cases heq
  exact ⟨x, hx, rfl, rfl⟩

/-- Pressing Save changes only the label, whether a guard rejects the form or not. -/
theorem savePressed_label {v w : ProductDetailView} {currentCategory : String}
    {selectedProduct : Product} {value : Option FirebaseValue}
    (h : v.savePressed currentCategory selectedProduct = some (w, value)) :
    ∃ label, w = { v with requiredLabel := label } := by
  obtain ⟨⟨label, sent⟩, _, hw⟩ := Option.map_eq_some_iff.mp h
  cases hw
  exact ⟨label, rfl⟩

theorem savePressed_sent {v w : ProductDetailView} {currentCategory : String}
    {selectedProduct : Product} {value : FirebaseValue}
    (h : v.savePressed currentCategory selectedProduct = some (w, some value)) :
    v.failedGuard = none ∧ ∃ x, v.formValues = some x ∧
      value = productRecord x selectedProduct.displayPicture currentCategory := by
  obtain ⟨⟨label, sent⟩, hsent, hw⟩ := Option.map_eq_some_iff.mp h
  cases hw
  obtain ⟨hguard, hvalue⟩ := ProductForm.savePressed_sent hsent
  rw [newProductDictionary_eq] at hvalue
  obtain ⟨x, hx, rfl⟩ := Option.map_eq_some_iff.mp hvalue
  exact ⟨hguard, x, hx, rfl⟩

end ProductDetailView

end MiraclesAdmin.DetailView
