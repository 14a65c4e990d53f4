import MiraclesAdmin.SwiftText
import MiraclesAdmin.Transition
import MiraclesAdmin.ProductRecords

/-!
The list screen: `SampleTableViewController` with the objects it allocates and the
shared progress HUD. The table view counts its rows when it is reloaded; what the
data source answered then is kept as `loadedRows`, and every later row access is
made with a row below that count. A trapped handler has no successor state.
-/
namespace MiraclesAdmin.ProductList

open SwiftText Transition ObjectHeap ProductRecords

structure SampleTable where
  productsArray : List Ref := []
  filteredSearch : List Ref := []
  searchActive : Bool := false
  searchBarText : String := ""
  loadedRows : List Ref := []

structure ListScreen where
  heap : Heap Product
  hudShown : Bool
  table : SampleTable

/-- The texts of a row and the link its picture is loaded from. -/
structure ProductTableCell where
  productName : String
  productDescription : String
  productImage : String
deriving DecidableEq

namespace SampleTable

/-- The array `numberOfRowsInSection` counts. -/
def dataSource (t : SampleTable) : List Ref :=
  if t.searchActive then t.filteredSearch else t.productsArray

def numberOfRowsInSection (t : SampleTable) : ℕ :=
  if t.searchActive then t.filteredSearch.length else t.productsArray.length

def reloadData (t : SampleTable) : SampleTable := { t with loadedRows := t.dataSource }

theorem numberOfRows_eq (t : SampleTable) : t.numberOfRowsInSection = t.dataSource.length := by
  unfold numberOfRowsInSection dataSource
  split <;> rfl

end SampleTable

namespace ListScreen

/-- A fresh controller: the observer is registered and the HUD shown. -/
def viewDidLoad (h : Heap Product) : ListScreen := ⟨h, true, {}⟩

/-- The value observer's closure. -/
def valueObserved (s : ListScreen) (snapshot : FirebaseValue) : Option ListScreen :=
  match snapshot.asDictionary with
  | none => some s
  | some allProducts => do
    let (heap, productsArray) ← readProducts s.heap [] allProducts
    return ⟨heap, false, { s.table with productsArray := productsArray }.reloadData⟩

def searchBarTextDidBeginEditing (s : ListScreen) : ListScreen :=
  { s with table := { s.table with searchActive := true } }

def searchBarTextDidEndEditing (s : ListScreen) : ListScreen :=
  { s with table := { s.table with searchActive := false } }

def searchBarCancelButtonClicked (s : ListScreen) : ListScreen :=
  { s with table := { s.table with searchActive := false } }

def searchBarSearchButtonClicked (s : ListScreen) : ListScreen :=
  { s with table := { s.table with searchActive := false } }

/-- `range.location != NSNotFound` for the product's name. -/
def nameContains (F : Foundation) (searchText : String) (product : Product) : Bool :=
  (F.caseInsensitiveRange product.name searchText).isSome

def textDidChange (F : Foundation) (s : ListScreen) (searchText : String) : ListScreen :=
  let filteredSearch :=
    s.table.productsArray.filter (fun r => nameContains F searchText (s.heap.cell r))
  let searchActive := if filteredSearch.length = 0 then false else true
  { s with table := { s.table with
      filteredSearch := filteredSearch
      searchActive := searchActive
      searchBarText := searchText }.reloadData }

def fillCell (product : Product) : ProductTableCell :=
  ⟨product.name, product.description, product.displayPicture⟩

/-- `cellForRowAt`; `none` is an index out of range. -/
def cellForRowAt (s : ListScreen) (row : ℕ) : Option ProductTableCell :=
  if s.table.searchActive then
    s.table.filteredSearch[row]?.map (fun r => fillCell (s.heap.cell r))
  else
    s.table.productsArray[row]?.map (fun r => fillCell (s.heap.cell r))

/-- The object `prepare(for:sender:)` assigns to `selectedProduct`; `none` is an
index out of range. -/
def prepare (s : ListScreen) (row : ℕ) : Option Ref :=
  if s.table.searchActive then s.table.filteredSearch[row]? else s.table.productsArray[row]?

theorem prepare_eq (s : ListScreen) (row : ℕ) : s.prepare row = s.table.dataSource[row]? := by
  unfold prepare SampleTable.dataSource
  split <;> rfl

theorem cellForRowAt_eq (s : ListScreen) (row : ℕ) :
    s.cellForRowAt row = s.table.dataSource[row]?.map (fun r => fillCell (s.heap.cell r)) := by
  unfold cellForRowAt SampleTable.dataSource
  split <;> rfl

/-- The two outcomes of the observer: a null snapshot is ignored, a dictionary is
decoded into new objects, listed and loaded. -/
theorem valueObserved_cases {s t : ListScreen} {snapshot : FirebaseValue}
    (h : s.valueObserved snapshot = some t) :
    (snapshot.asDictionary = none ∧ t = s) ∨
    ∃ allProducts heap refs, snapshot.asDictionary = some allProducts ∧
      readProducts s.heap [] allProducts = some (heap, refs) ∧
      t = ⟨heap, false, { s.table with productsArray := refs }.reloadData⟩ := by
  unfold valueObserved at h
  split at h
  · rename_i hnone
    exact Or.inl ⟨hnone, (Option.some.inj h).symm⟩
  · rename_i allProducts hsome
    obtain ⟨⟨heap, refs⟩, hread, hresult⟩ := Option.bind_eq_some_iff.mp h
    exact Or.inr ⟨allProducts, heap, refs, hsome, hread, (Option.some.inj hresult).symm⟩

/-- An empty category is delivered as null, which the closure ignores. -/
theorem valueObserved_null (s : ListScreen) : s.valueObserved .null = some s := rfl

/-- A nonempty snapshot of well-formed records is listed as it stands. -/
theorem valueObserved_snapshot (s : ListScreen) (snap : CategorySnapshot)
    (hne : snap.records ≠ []) :
    ∃ heap refs, s.valueObserved snap.value =
        some ⟨heap, false, { s.table with productsArray := refs }.reloadData⟩ ∧
      s.heap.Extends heap ∧ (∀ r ∈ refs, heap.Live r) ∧ heap.values refs = snap.products := by
  obtain ⟨heap, refs, hread, hext, hlive, hvalues⟩ := snap.readProducts_snapshot s.heap
  refine ⟨heap, refs, ?_, hext, hlive, hvalues⟩
  have hdict : snap.value.asDictionary = some snap.records := by
    unfold CategorySnapshot.value
    cases hrec : snap.records with
    | nil => exact absurd hrec hne
    | cons c cs => rfl
  simp only [valueObserved, hdict, hread, Option.bind_eq_bind, Option.bind_some, Option.pure_def]

end ListScreen

inductive ListEvent
  | valueObserved (snapshot : FirebaseValue)
  | searchBarTextDidBeginEditing
  | searchBarTextDidEndEditing
  | searchBarCancelButtonClicked
  | searchBarSearchButtonClicked
  | textDidChange (searchText : String)

def step (F : Foundation) (s : ListScreen) : ListEvent → Option ListScreen
  | .valueObserved snapshot => s.valueObserved snapshot
  | .searchBarTextDidBeginEditing => some s.searchBarTextDidBeginEditing
  | .searchBarTextDidEndEditing => some s.searchBarTextDidEndEditing
  | .searchBarCancelButtonClicked => some s.searchBarCancelButtonClicked
  | .searchBarSearchButtonClicked => some s.searchBarSearchButtonClicked
  | .textDidChange searchText => some (s.textDidChange F searchText)

end MiraclesAdmin.ProductList
