import MiraclesAdmin.ProductList

/-!
Rows of the list screen against the data source. The table was loaded from one of
the two arrays, and both arrays change only together with a reload; the four
callbacks that flip `searchActive` do not reload. So a row access goes wrong exactly
when such a callback switches to an array that does not start with the loaded rows.
-/
namespace MiraclesAdmin.RowAgreement

open SwiftText Transition ObjectHeap ProductRecords ProductList ListScreen

/-- Both row callbacks stay inside their array and use, for every row the table
counted, the product that stood there when it was loaded. -/
def RowsAgree (s : ListScreen) : Prop :=
  ∀ (row : ℕ) (hrow : row < s.table.loadedRows.length),
    s.prepare row = some s.table.loadedRows[row] ∧
    s.cellForRowAt row = some (fillCell (s.heap.cell s.table.loadedRows[row]))

theorem rowsAgree_iff_startsWith (s : ListScreen) :
    RowsAgree s ↔ s.table.loadedRows <+: s.table.dataSource := by
  rw [List.prefix_iff_getElem?]
  constructor
  · intro h row hrow
    rw [← s.prepare_eq]
    exact (h row hrow).1
  · intro h row hrow
    rw [s.prepare_eq, s.cellForRowAt_eq, h row hrow]
    exact ⟨rfl, rfl⟩

theorem rowsAgree_of_reloaded {s : ListScreen}
    (h : s.table.loadedRows = s.table.dataSource) : RowsAgree s := by
  rw [rowsAgree_iff_startsWith, h]

/-- The array a callback without a reload switches to starts with the loaded rows. -/
def KeepsLoadedRows (s : ListScreen) : ListEvent → Prop
  | .searchBarTextDidBeginEditing => s.table.loadedRows <+: s.table.filteredSearch
  | .searchBarTextDidEndEditing => s.table.loadedRows <+: s.table.productsArray
  | .searchBarCancelButtonClicked => s.table.loadedRows <+: s.table.productsArray
  | .searchBarSearchButtonClicked => s.table.loadedRows <+: s.table.productsArray
  | .valueObserved _ => True
  | .textDidChange _ => True

theorem step_rowsAgree_iff (F : Foundation) {s t : ListScreen} {e : ListEvent}
    (hs : RowsAgree s) (h : step F s e = some t) : RowsAgree t ↔ KeepsLoadedRows s e := by
  cases e with
  | valueObserved snapshot =>
    refine iff_of_true ?_ trivial
    rcases valueObserved_cases h with ⟨_, rfl⟩ | ⟨_, heap, refs, _, _, rfl⟩
    · exact hs
    · exact rowsAgree_of_reloaded rfl
  | textDidChange searchText =>
    cases h
    exact iff_of_true (rowsAgree_of_reloaded rfl) trivial
  | searchBarTextDidBeginEditing =>
    cases h
    exact rowsAgree_iff_startsWith _
  | searchBarTextDidEndEditing =>
    cases h
    exact rowsAgree_iff_startsWith _
  | searchBarCancelButtonClicked =>
    cases h
    exact rowsAgree_iff_startsWith _
  | searchBarSearchButtonClicked =>
    cases h
    exact rowsAgree_iff_startsWith _

/-- In a run of the list screen the rows agree in every state reached exactly when
each callback that switches arrays without a reload keeps the loaded rows. -/
theorem rows_agree_iff (F : Foundation) (h : Heap Product) (es : List ListEvent) :
    AtEach (step F) (fun _ => RowsAgree) (viewDidLoad h) es ↔
      EachStep (step F) (fun _ s e _ => KeepsLoadedRows s e) (viewDidLoad h) es :=
  atEach_iff_eachStep (I := fun _ _ => True) (C := fun _ => KeepsLoadedRows)
    (fun _ _ _ _ _ _ => trivial) trivial (rowsAgree_of_reloaded rfl)
    (fun _ _ _ _ _ hs hu => step_rowsAgree_iff F hs hu) es

/-- Before a text is typed the search bar has no matches, and the table shows no row or the
products. -/
def Unsearched (s : ListScreen) : Prop :=
  s.table.filteredSearch = [] ∧
    (s.table.loadedRows = [] ∨ s.table.loadedRows = s.table.productsArray)

theorem step_unsearched {F : Foundation} {s t : ListScreen} {e : ListEvent} (hs : Unsearched s)
    (he : ∀ searchText, e ≠ .textDidChange searchText) (h : step F s e = some t) :
    Unsearched t := by
  cases e with
  | valueObserved snapshot =>
    rcases valueObserved_cases h with ⟨_, rfl⟩ | ⟨_, heap, refs, _, _, rfl⟩
    · exact hs
    · refine ⟨hs.1, ?_⟩
      unfold SampleTable.reloadData SampleTable.dataSource
      cases s.table.searchActive with
      | true => exact Or.inl hs.1
      | false => exact Or.inr rfl
  | textDidChange searchText => exact absurd rfl (he searchText)
  | searchBarTextDidBeginEditing | searchBarTextDidEndEditing | searchBarCancelButtonClicked
  | searchBarSearchButtonClicked =>
    cases h
    exact hs

/-- As long as no text has been typed into the search bar, the one event that breaks the
rows is the beginning of editing over a list with rows; the other callbacks that do not
reload can break them only after a text was typed. -/
theorem breaks_only {F : Foundation} {h : Heap Product} {pre : List ListEvent}
    {s t : ListScreen} {e : ListEvent} (hrun : run (step F) (viewDidLoad h) pre = some s)
    (hs : RowsAgree s) (ht : step F s e = some t) (hbreaks : ¬ RowsAgree t) :
    (e = .searchBarTextDidBeginEditing ∧ s.table.loadedRows ≠ []) ∨
      ∃ searchText, .textDidChange searchText ∈ pre := by
  by_cases htyped : ∃ searchText, .textDidChange searchText ∈ pre
  · exact Or.inr htyped
  · have hunsearched : Unsearched s := by
      refine run_invariant (step F) (P := Unsearched) ⟨rfl, Or.inl rfl⟩ ?_ hrun
      intro u d v hd hu hv
      refine step_unsearched hu ?_ hv
      rintro searchText rfl
      exact htyped ⟨searchText, hd⟩
    have hproducts : s.table.loadedRows <+: s.table.productsArray := by
      rcases hunsearched.2 with hnone | hall
      · rw [hnone]
        exact List.nil_prefix
      · rw [hall]
    rw [step_rowsAgree_iff F hs ht] at hbreaks
    cases e with
    | searchBarTextDidBeginEditing =>
      refine Or.inl ⟨rfl, fun hnone => hbreaks ?_⟩
      change s.table.loadedRows <+: s.table.filteredSearch
      rw [hnone]
      exact List.nil_prefix
    | searchBarTextDidEndEditing | searchBarCancelButtonClicked | searchBarSearchButtonClicked =>
      exact absurd hproducts hbreaks
    | valueObserved | textDidChange => exact absurd trivial hbreaks

/-- One product is loaded and the search bar gets the focus: the first row is now
looked up in the empty array of matches. -/
theorem begin_editing_breaks_rows :
    ¬ AtEach (step asciiFoundation) (fun _ => RowsAgree)
      (viewDidLoad emptyHeap)
      [.valueObserved (plainSnapshot [{ key := "-L1", name := "Silver Ring", price := 40 }]),
        .searchBarTextDidBeginEditing] := by
  intro h
  have hrow := (h.last rfl 0 (by decide)).1
  exact absurd hrow (by decide)

end MiraclesAdmin.RowAgreement
