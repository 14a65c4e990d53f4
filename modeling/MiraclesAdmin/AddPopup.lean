import MiraclesAdmin.Transition
import MiraclesAdmin.CategoryStore
import MiraclesAdmin.ProductForm

/-!
One session of the popup that adds a product. Every accepted Save press sends a write
under a fresh key; each write that succeeds creates its record and dismisses the
popup, and Cancel dismisses it whatever is pending.
-/
namespace MiraclesAdmin.AddPopup

open SwiftText Transition ProductRecords ProductForm CategoryStore

/-- The defaults are those of the storyboard. -/
structure AddProductView where
  requiredLabel : Label := { text := "* Product name is required" }
  productTypeField : TextField := {}
  productNameField : TextField := {}
  productPriceField : TextField := {}
  productDiscountField : TextField := {}
  productDescriptionField : TextView := {}
  productAvailabilityField : Switch := {}

namespace AddProductView

def viewDidLoad (v : AddProductView) (currentCategory : String) : AddProductView :=
  { v with
    requiredLabel := { v.requiredLabel with isHidden := true }
    productTypeField := { text := currentCategory, isEnabled := false } }

def failedGuard (v : AddProductView) : Option String :=
  ProductForm.failedGuard v.productNameField.text v.productPriceField.text
    v.productDescriptionField.text

/-- The picture of every new product. -/
def placeholder : String :=
  "https://dl.dropboxusercontent.com/s/cgoeku9q7akbxb5/placeholder.png?dl=0"

def newProductDictionary (v : AddProductView) (currentCategory : String) :
    Option FirebaseValue :=
  productDictionary v.productNameField.text placeholder v.productDescriptionField.text
    v.productPriceField.text v.productAvailabilityField.isOn currentCategory

/-- The values the inputs denote. -/
def formValues (v : AddProductView) : Option FormValues :=
  ProductForm.formValues v.productNameField.text v.productPriceField.text
    v.productDescriptionField.text v.productAvailabilityField.isOn

/-- The popup after `savePressed`, and the value it writes. -/
def savePressed (v : AddProductView) (currentCategory : String) :
    Option (AddProductView × Option FirebaseValue) :=
  (ProductForm.savePressed v.requiredLabel v.failedGuard
    (v.newProductDictionary currentCategory)).map
      (fun (label, value) => ({ v with requiredLabel := label }, value))

theorem newProductDictionary_eq (v : AddProductView) (currentCategory : String) :
    v.newProductDictionary currentCategory =
      v.formValues.map (fun w => productRecord w placeholder currentCategory) :=
  productDictionary_eq _ _ _ _ _ _

theorem savePressed_sent {v w : AddProductView} {currentCategory : String}
    {value : FirebaseValue} (h : v.savePressed currentCategory = some (w, some value)) :
    v.failedGuard = none ∧ ∃ x, v.formValues = some x ∧
      value = productRecord x placeholder currentCategory := by
  obtain ⟨⟨label, sent⟩, hsent, hw⟩ := Option.map_eq_some_iff.mp h
  cases hw
  obtain ⟨hguard, hvalue⟩ := ProductForm.savePressed_sent hsent
  rw [newProductDictionary_eq] at hvalue
  obtain ⟨x, hx, rfl⟩ := Option.map_eq_some_iff.mp hvalue
  exact ⟨hguard, x, hx, rfl⟩

end AddProductView

/-- The popup, the writes that are not completed, and the records of the category. -/
structure Session where
  popup : AddProductView
  currentCategory : String
  isPresented : Bool
  pending : List (String × FirebaseValue)
  records : Records

inductive Event
  | editName (text : String)
  | editPrice (location length : ℕ) (string : String)
  | editDiscount (location length : ℕ) (string : String)
  | editDescription (text : String)
  | switchAvailability (isOn : Bool)
  | savePressed (autoId : String)
  | closePopup
  | writeCompleted (i : ℕ) (success : Bool)

namespace Session

def savePressed (s : Session) (autoId : String) : Option Session :=
  match s.popup.savePressed s.currentCategory with
  | none => none
  | some (popup, none) => some { s with popup := popup }
  | some (popup, some value) =>
    some { s with popup := popup, pending := s.pending ++ [(autoId, value)] }

/-- The database stores the record of a successful write; its completion dismisses
the popup. -/
def writeCompleted (s : Session) (write : String × FirebaseValue) (success : Bool) : Session :=
  if success then
    { s with records := s.records.setValue write.1 write.2, isPresented := false }
  else s

/-- A key that no record and no pending write has. -/
def IsFresh (s : Session) (autoId : String) : Prop :=
  autoId ≠ "" ∧ autoId ∉ s.pending.map Prod.fst ++ s.records.keys

instance (s : Session) (autoId : String) : Decidable (s.IsFresh autoId) :=
  inferInstanceAs (Decidable (autoId ≠ "" ∧ autoId ∉ s.pending.map Prod.fst ++ s.records.keys))

end Session

/-- Touches reach the popup while it is presented; each write completes once. -/
def step (s : Session) : Event → Option Session
  | .editName text => guarded (s.isPresented = true)
      (some { s with popup := { s.popup with
        productNameField := { s.popup.productNameField with text := text } } })
  | .editPrice location length string =>
      guarded (s.isPresented = true ∧ shouldChangeCharacters string = true)
        (some { s with popup := { s.popup with
          productPriceField := { s.popup.productPriceField with
            text := replaceCharacters s.popup.productPriceField.text location length string } } })
  | .editDiscount location length string =>
      guarded (s.isPresented = true ∧ shouldChangeCharacters string = true)
        (some { s with popup := { s.popup with
          productDiscountField := { s.popup.productDiscountField with
            text := replaceCharacters s.popup.productDiscountField.text location length
              string } } })
  | .editDescription text => guarded (s.isPresented = true)
      (some { s with popup := { s.popup with
        productDescriptionField := { s.popup.productDescriptionField with text := text } } })
  | .switchAvailability isOn => guarded (s.isPresented = true)
      (some { s with popup := { s.popup with
        productAvailabilityField := { s.popup.productAvailabilityField with isOn := isOn } } })
  | .savePressed autoId => guarded (s.isPresented = true ∧ s.IsFresh autoId) (s.savePressed autoId)
  | .closePopup => guarded (s.isPresented = true) (some { s with isPresented := false })
  | .writeCompleted i success =>
    (s.pending[i]?).map (fun write =>
      { s with pending := s.pending.eraseIdx i }.writeCompleted write success)

/-- The popup after it loads, over the records of its category. -/
def opened (currentCategory : String) (stored : Records) : Session where
  popup := AddProductView.viewDidLoad {} currentCategory
  currentCategory := currentCategory
  isPresented := true
  pending := []
  records := stored

/-- What made the popup go away. -/
inductive Closing
  | cancelled
  | saved
deriving DecidableEq

/-- The closing an event asks for. -/
def Event.closes : Event → Option Closing
  | .closePopup => some .cancelled
  | .writeCompleted _ true => some .saved
  | _ => none

/-- The outcomes of a step: the popup is edited or rejects the form, a write is sent,
the popup is cancelled, or a write completes. -/
inductive Effect (s : Session) : Event → Session → Prop
  | popup {e : Event} {popup : AddProductView} (he : e.closes = none) :
      Effect s e { s with popup := popup }
  | sent {autoId : String} {popup : AddProductView} {value : FirebaseValue}
      (hfresh : s.IsFresh autoId) (h : s.popup.savePressed s.currentCategory =
        some (popup, some value)) :
      Effect s (.savePressed autoId)
        { s with popup := popup, pending := s.pending ++ [(autoId, value)] }
  | cancelled (hopen : s.isPresented = true) : Effect s .closePopup { s with isPresented := false }
  | failed {i : ℕ} : Effect s (.writeCompleted i false) { s with pending := s.pending.eraseIdx i }
  | created {i : ℕ} {write : String × FirebaseValue} (hwrite : s.pending[i]? = some write) :
      Effect s (.writeCompleted i true)
        { s with
          pending := s.pending.eraseIdx i
          records := s.records.setValue write.1 write.2
          isPresented := false }

theorem step_effect {s t : Session} {e : Event} (h : step s e = some t) : Effect s e t := by
  cases e with
  | savePressed autoId =>
    obtain ⟨⟨_, hfresh⟩, h⟩ := guarded_eq_some.mp h
    unfold Session.savePressed at h
    cases hsave : s.popup.savePressed s.currentCategory with
    | none => simp [hsave] at h
    | some result =>
      obtain ⟨popup, value⟩ := result
      rw [hsave] at h
      cases value with
      | none =>
        cases h
        exact .popup rfl
      | some value =>
        cases h
        exact .sent hfresh hsave
  | closePopup =>
    obtain ⟨hopen, h⟩ := guarded_eq_some.mp h
    cases h
    exact .cancelled hopen
  | writeCompleted i success =>
    obtain ⟨write, hwrite, rfl⟩ := Option.map_eq_some_iff.mp h
    cases success with
    | true => exact .created hwrite
    | false => exact .failed
  | _ =>
    obtain ⟨_, h⟩ := guarded_eq_some.mp h
    cases h
    exact .popup rfl

end MiraclesAdmin.AddPopup
