import MiraclesAdmin.SwiftText
import MiraclesAdmin.ProductRecords

/-!
What the two forms of a product share: the controls, modelled by the properties the
handlers read or write, the three guards of `savePressed`, and the dictionary it
sends. The guards look at texts only, so the forced conversion of the price can
still trap.
-/
namespace MiraclesAdmin.ProductForm

open SwiftText ProductRecords

structure TextField where
  text : String := ""
  isEnabled : Bool := true
deriving DecidableEq

structure TextView where
  text : String := ""
  isEditable : Bool := true
  isWhite : Bool := true
deriving DecidableEq

structure Switch where
  isOn : Bool := true
  isEnabled : Bool := true
deriving DecidableEq

structure Button where
  title : String := ""
  isEnabled : Bool := true
deriving DecidableEq

structure Label where
  text : String := ""
  isHidden : Bool := false
deriving DecidableEq

/-- The four values a save writes. -/
structure FormValues where
  name : String
  description : String
  price : ℤ
  availability : Bool
deriving DecidableEq

/-- The text of the first guard of `savePressed` that fails. -/
def failedGuard (name price description : String) : Option String :=
  if name = "" then some "* Product name is required"
  else if price = "" then some "* Product price is required"
  else if description = "" then some "* Product description is required"
  else none

/-- The values the inputs denote; none if the price is not a number. -/
def formValues (name price description : String) (availability : Bool) : Option FormValues :=
  (intOfString price).map (fun n => ⟨name, description, n, availability⟩)

/-- The dictionary literal of `savePressed`, with the forced conversion of the price. -/
def productDictionary (name displayPicture description price : String) (availability : Bool)
    (currentCategory : String) : Option FirebaseValue := do
  let n ← intOfString price
  return .dictionary [("name", .string name),
    ("displayPicture", .string displayPicture),
    ("smallDescription", .string description),
    ("price", .number n),
    ("availability", .bool availability),
    ("type", .string currentCategory)]

def showErrorToast (requiredLabel : Label) (text : String) : Label :=
  { requiredLabel with text := text, isHidden := false }

/-- `savePressed` of both forms: the label it leaves, and the dictionary it sends
unless a guard rejects the form. -/
def savePressed (requiredLabel : Label) (failed : Option String)
    (newProductDictionary : Option FirebaseValue) : Option (Label × Option FirebaseValue) :=
  match failed with
  | some text => some (showErrorToast requiredLabel text, none)
  | none => do
    let value ← newProductDictionary
    return ({ requiredLabel with isHidden := true }, some value)

/-- The values a product fills the form with. -/
def valuesOf (p : Product) : FormValues := ⟨p.name, p.description, p.price, p.availability⟩

/-- The product with the four values replaced. -/
def setValues (p : Product) (v : FormValues) : Product :=
  { p with name := v.name, description := v.description, price := v.price,
           availability := v.availability }

/-- The record that is written for these values. -/
def productRecord (v : FormValues) (displayPicture currentCategory : String) : FirebaseValue :=
  .dictionary [("name", .string v.name), ("displayPicture", .string displayPicture),
    ("smallDescription", .string v.description), ("price", .number v.price),
    ("availability", .bool v.availability), ("type", .string currentCategory)]

theorem productDictionary_eq (name displayPicture description price : String)
    (availability : Bool) (currentCategory : String) :
    productDictionary name displayPicture description price availability currentCategory =
      (formValues name price description availability).map (fun v =>
        productRecord v displayPicture currentCategory) := by
  simp only [productDictionary, formValues, Option.map_map]
  cases intOfString price <;> rfl

theorem savePressed_sent {requiredLabel label : Label} {failed : Option String}
    {newProductDictionary : Option FirebaseValue} {value : FirebaseValue}
    (h : savePressed requiredLabel failed newProductDictionary = some (label, some value)) :
    failed = none ∧ newProductDictionary = some value := by
  cases failed with
  | some text => simp [savePressed] at h
  | none =>
    obtain ⟨sent, hsent, h⟩ := Option.bind_eq_some_iff.mp h
    cases h
    exact ⟨rfl, hsent⟩

theorem setValues_injective (p : Product) : Function.Injective (setValues p) := by
  intro v w h
  simp only [setValues, Product.mk.injEq] at h
  obtain ⟨_, hname, hdescription, hprice, _, havailability⟩ := h
  cases v
  cases w
  simp_all

/-- Both forms write the record format of a product with these values. -/
theorem describes_productRecord (p : Product) (v : FormValues) (currentCategory : String) :
    Describes (productRecord v p.displayPicture currentCategory) (setValues p v) :=
  ⟨rfl, rfl, rfl, rfl, rfl⟩

end MiraclesAdmin.ProductForm
