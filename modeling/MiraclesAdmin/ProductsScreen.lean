import MiraclesAdmin.ProductList
import MiraclesAdmin.DetailView

/-!
The products screen: the globals `selectedProduct` and `currentCategory`, the list,
the detail views drawn so far and the requests sent. A completion closure captures
only its view; everything else it uses is read when it runs. Touches reach the view
on the screen, an alert that is open, or the list; they are not blocked by the HUD,
and an alert is not assumed to block the screen below it.
-/
namespace MiraclesAdmin.ProductsScreen

open SwiftText Transition ObjectHeap ProductRecords ProductList ProductForm DetailView

inductive Write
  | updateChildValues (value : FirebaseValue)
  | removeValue

/-- A write below `products/category`, and the view whose closure completes it. -/
structure Request where
  view : Ref
  category : String
  key : String
  write : Write

structure App where
  list : ListScreen
  isPresented : Bool
  selectedProduct : Ref
  currentCategory : String
  views : Heap ProductDetailView
  detail : Ref
  alerts : List Ref
  requests : List Request
  pending : List ℕ

/-- After launch `selectedProduct` is a blank product and no screen was opened. -/
def launch : App where
  list := ⟨⟨1, fun _ => Product.blank⟩, false, {}⟩
  isPresented := false
  selectedProduct := 0
  currentCategory := ""
  views := ⟨0, fun _ => {}⟩
  detail := 0
  alerts := []
  requests := []
  pending := []

inductive Event
  | openCategory (myString : String)
  | list (e : ListEvent)
  | selectRow (row : ℕ)
  | exitPressed
  | editName (text : String)
  | editPrice (location length : ℕ) (string : String)
  | editDiscount (location length : ℕ) (string : String)
  | editDescription (text : String)
  | switchAvailability (isOn : Bool)
  | editPressed
  | savePressed
  | deletePressed
  | alertCancel (view : Ref)
  | alertDelete (view : Ref)
  | saveCompleted (request : ℕ) (success : Bool)
  | deleteCompleted (request : ℕ) (success : Bool)

namespace App

/-- The contents of the object `selectedProduct` refers to. -/
def selected (s : App) : Product := s.list.heap.cell s.selectedProduct

/-- The contents of the detail view on the screen. -/
def detailView (s : App) : ProductDetailView := s.views.cell s.detail

/-- The detail view is shown with its form. -/
def FormShown (s : App) : Prop :=
  s.isPresented = true ∧ s.detailView.productHeaderHidden = false

instance (s : App) : Decidable s.FormShown :=
  inferInstanceAs (Decidable (s.isPresented = true ∧ s.detailView.productHeaderHidden = false))

def updateDetail (s : App) (f : ProductDetailView → ProductDetailView) : App :=
  { s with views := s.views.modify s.detail f }

/-- A new detail view is drawn from the globals. -/
def drawDetail (s : App) : App :=
  let (views, view) := s.views.alloc
    (ProductDetailView.draw {} s.currentCategory s.selected)
  { s with views := views, detail := view }

def openCategory (F : Foundation) (s : App) (myString : String) : App :=
  { s with
    currentCategory := F.capitalized myString
    list := ListScreen.viewDidLoad s.list.heap
    isPresented := true }.drawDetail

/-- `prepare(for:)` of the show-detail segue, and the view it shows. -/
def selectRow (s : App) (row : ℕ) : Option App :=
  (s.list.prepare row).map (fun r => { s with selectedProduct := r }.drawDetail)

/-- `selectedProduct = Product()`. -/
def blankSelected (s : App) : App :=
  let (heap, r) := s.list.heap.alloc Product.blank
  { s with list := { s.list with heap := heap }, selectedProduct := r }

def didClickOnExitButton (s : App) : App := { s.blankSelected with isPresented := false }

def send (s : App) (q : Request) : App :=
  { s with requests := s.requests ++ [q], pending := s.pending ++ [s.requests.length] }

def savePressed (s : App) : Option App :=
  match s.detailView.savePressed s.currentCategory s.selected with
  | none => none
  | some (view, none) => some (s.updateDetail (fun _ => view))
  | some (view, some value) =>
    let shown := { s.updateDetail (fun _ => view) with list := { s.list with hudShown := true } }
    some (shown.send ⟨s.detail, s.currentCategory, s.selected.key, .updateChildValues value⟩)

/-- The Delete action of the alert. -/
def alertDelete (s : App) (view : Ref) : App :=
  { s with alerts := s.alerts.erase view }.send
    ⟨view, s.currentCategory, s.selected.key, .removeValue⟩

/-- The completion closure of a save of this view. -/
def saveCompleted (s : App) (view : Ref) (success : Bool) : Option App :=
  let dismissed := { s with list := { s.list with hudShown := false } }
  if success then
    ((s.views.cell view).saveSucceeded s.selected).map (fun (v, p) =>
      { dismissed with
        views := s.views.modify view (fun _ => v)
        list := { dismissed.list with
          heap := s.list.heap.modify s.selectedProduct (fun _ => p) } })
  else some dismissed

/-- The completion closure of a delete of this view. -/
def deleteCompleted (s : App) (view : Ref) (success : Bool) : App :=
  if success then
    { s.blankSelected with views := s.views.modify view ProductDetailView.resetForm }
  else s

end App

/-- Each write completes once: its number is pending until then. -/
def step (F : Foundation) (s : App) : Event → Option App
  | .openCategory myString => guarded (s.isPresented = false) (some (s.openCategory F myString))
  | .list e => guarded (s.isPresented = true)
      ((ProductList.step F s.list e).map (fun l => { s with list := l }))
  | .selectRow row => guarded (s.isPresented = true ∧ row < s.list.table.loadedRows.length)
      (s.selectRow row)
  | .exitPressed => guarded (s.isPresented = true) (some s.didClickOnExitButton)
  | .editName text =>
      guarded (s.isPresented = true ∧ s.detailView.productNameField.isEnabled = true)
        (some (s.updateDetail (fun v =>
          { v with productNameField := { v.productNameField with text := text } })))
  | .editPrice location length string =>
      guarded (s.isPresented = true ∧ s.detailView.productPriceField.isEnabled = true ∧
          shouldChangeCharacters string = true)
        (some (s.updateDetail (fun v =>
          { v with productPriceField := { v.productPriceField with
              text := replaceCharacters v.productPriceField.text location length string } })))
  | .editDiscount location length string =>
      guarded (s.isPresented = true ∧ s.detailView.productDiscountField.isEnabled = true ∧
          shouldChangeCharacters string = true)
        (some (s.updateDetail (fun v =>
          { v with productDiscountField := { v.productDiscountField with
              text := replaceCharacters v.productDiscountField.text location length string } })))
  | .editDescription text =>
      guarded (s.isPresented = true ∧ s.detailView.productDescriptionField.isEditable = true)
        (some (s.updateDetail (fun v =>
          { v with productDescriptionField := { v.productDescriptionField with text := text } })))
  | .switchAvailability isOn =>
      guarded (s.isPresented = true ∧ s.detailView.productAvailabilityField.isEnabled = true)
        (some (s.updateDetail (fun v =>
          { v with productAvailabilityField := { v.productAvailabilityField with isOn := isOn } })))
  | .editPressed => guarded s.FormShown
      (some (s.updateDetail (fun v => v.editPressed s.currentCategory s.selected)))
  | .savePressed => guarded (s.FormShown ∧ s.detailView.saveButton.isEnabled = true) s.savePressed
  | .deletePressed => guarded s.FormShown (some { s with alerts := s.alerts ++ [s.detail] })
  | .alertCancel view => guarded (view ∈ s.alerts)
      (some { s with alerts := s.alerts.erase view })
  | .alertDelete view => guarded (view ∈ s.alerts) (some (s.alertDelete view))
  | .saveCompleted n success =>
    match s.requests[n]? with
    | some ⟨view, _, _, .updateChildValues _⟩ => guarded (n ∈ s.pending)
        ({ s with pending := s.pending.erase n }.saveCompleted view success)
    | _ => none
  | .deleteCompleted n success =>
    match s.requests[n]? with
    | some ⟨view, _, _, .removeValue⟩ => guarded (n ∈ s.pending)
        (some ({ s with pending := s.pending.erase n }.deleteCompleted view success))
    | _ => none

/-- The concrete runs start by opening a category with two products. -/
def openRings : List Event :=
  [.openCategory "rings", .list (.valueObserved (plainSnapshot
    [{ key := "-L1", name := "Silver Ring", description := "thin", price := 40 },
      { key := "-L2", name := "Gold Ring", description := "wide", price := 90 }]))]

end MiraclesAdmin.ProductsScreen
