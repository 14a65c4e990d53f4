import MiraclesAdmin.ProductList

/-!
What the list shows while the search bar has the focus. The matches are computed
when the text changes and kept as a second array; a value event replaces the full
list only. Typing always shows the current matches, and a value event does so
exactly when it brings the matches that are already filtered, or when nothing was
filtered and its products match all or none.
-/
namespace MiraclesAdmin.SearchResults

open SwiftText Transition ObjectHeap ProductRecords ProductList ListScreen

def matching (F : Foundation) (searchText : String) (products : List Product) : List Product :=
  products.filter (nameContains F searchText)

/-- The products to be shown for a text: those whose names contain it, if the text
is not empty and there are any, and else all. -/
def expected (F : Foundation) (searchText : String) (products : List Product) : List Product :=
  if searchText ≠ "" ∧ matching F searchText products ≠ [] then matching F searchText products
  else products

/-- What can happen while the search bar keeps the focus. -/
inductive FocusEvent
  | valueObserved (snap : CategorySnapshot) (nonempty : snap.records ≠ [])
  | textDidChange (searchText : String)

def focusStep (F : Foundation) (s : ListScreen) : FocusEvent → Option ListScreen
  | .valueObserved snap _ => step F s (.valueObserved snap.value)
  | .textDidChange searchText => step F s (.textDidChange searchText)

/-- The products of the latest snapshot, starting from those listed already. -/
def latestProducts (listed : List Product) (es : List FocusEvent) : List Product :=
  es.foldl (fun products e => match e with
    | .valueObserved snap _ => snap.products
    | .textDidChange _ => products) listed

/-- The current search text, starting from the one left in the bar. -/
def currentText (left : String) (es : List FocusEvent) : String :=
  es.foldl (fun searchText e => match e with
    | .valueObserved _ _ => searchText
    | .textDidChange newText => newText) left

/-- The array used by the data source holds what is expected for these inputs. -/
def Shows (F : Foundation) (searchText : String) (products : List Product) (s : ListScreen) :
    Prop :=
  s.heap.values s.table.dataSource = expected F searchText products

/-- The snapshot brings the matches already filtered, or nothing was filtered and
all its products match; and no empty array of matches is in use. -/
def BringsFiltered (F : Foundation) (s : ListScreen) : FocusEvent → Prop
  | .textDidChange _ => True
  | .valueObserved snap _ =>
    ¬ (s.table.searchActive = true ∧ s.table.filteredSearch = []) ∧
    (matching F s.table.searchBarText snap.products = s.heap.values s.table.filteredSearch ∨
      (s.table.filteredSearch = [] ∧
        matching F s.table.searchBarText snap.products = snap.products))

instance (F : Foundation) (searchText : String) (products : List Product) (s : ListScreen) :
    Decidable (Shows F searchText products s) :=
  inferInstanceAs (Decidable (s.heap.values s.table.dataSource = _))

instance (F : Foundation) (s : ListScreen) : (e : FocusEvent) → Decidable (BringsFiltered F s e)
  | .textDidChange _ => isTrue trivial
  | .valueObserved snap _ => inferInstanceAs (Decidable (
      ¬ (s.table.searchActive = true ∧ s.table.filteredSearch = []) ∧
      (matching F s.table.searchBarText snap.products = s.heap.values s.table.filteredSearch ∨
        (s.table.filteredSearch = [] ∧
          matching F s.table.searchBarText snap.products = snap.products))))

theorem matching_empty_text (F : Foundation) (products : List Product) :
    matching F "" products = [] := by
  unfold matching
  rw [List.filter_eq_nil_iff]
  intro p _
  simp [nameContains, F.range_of_empty]

theorem expected_eq (F : Foundation) (searchText : String) (products : List Product) :
    expected F searchText products =
      if matching F searchText products = [] then products
      else matching F searchText products := by
  unfold expected
  by_cases hm : matching F searchText products = []
  · simp [hm]
  · have ht : searchText ≠ "" := by
      rintro rfl
      exact hm (matching_empty_text F products)
    simp [hm, ht]

theorem expected_ne_nil (F : Foundation) (searchText : String) {products : List Product}
    (hne : products ≠ []) : expected F searchText products ≠ [] := by
  rw [expected_eq]
  split
  · exact hne
  · assumption

theorem expected_eq_all_iff (F : Foundation) (searchText : String) (products : List Product) :
    products = expected F searchText products ↔
      matching F searchText products = [] ∨ matching F searchText products = products := by
  rw [expected_eq]
  split
  · rename_i hm
    exact iff_of_true rfl (Or.inl hm)
  · rename_i hm
    exact ⟨fun h => Or.inr h.symm, fun h => (h.resolve_left hm).symm⟩

/-- A nonempty list of matching products is expected only as the list of matches. -/
theorem eq_expected_iff (F : Foundation) (searchText : String) {shown products : List Product}
    (hne : shown ≠ []) (hshown : ∀ p ∈ shown, nameContains F searchText p) :
    shown = expected F searchText products ↔ matching F searchText products = shown := by
  rw [expected_eq]
  split
  · rename_i hm
    refine iff_of_false ?_ (fun h => hne (h.symm.trans hm))
    rintro rfl
    have hall : matching F searchText shown = shown := List.filter_eq_self.mpr hshown
    exact hne (hall.symm.trans hm)
  · exact eq_comm

/-- The filtered objects are live and match the text in the bar. -/
structure Filtered (F : Foundation) (s : ListScreen) : Prop where
  listedLive : ∀ r ∈ s.table.productsArray, s.heap.Live r
  filteredLive : ∀ r ∈ s.table.filteredSearch, s.heap.Live r
  filteredMatch : ∀ p ∈ s.heap.values s.table.filteredSearch,
    nameContains F s.table.searchBarText p

theorem filtered_viewDidLoad (F : Foundation) (h : Heap Product) : Filtered F (viewDidLoad h) :=
  ⟨by simp [viewDidLoad], by simp [viewDidLoad], by simp [viewDidLoad]⟩

theorem filtered_observed {F : Foundation} {s : ListScreen} (hs : Filtered F s)
    {heap : Heap Product} {refs : List Ref} (hext : s.heap.Extends heap)
    (hlive : ∀ r ∈ refs, heap.Live r) :
    Filtered F ⟨heap, false, { s.table with productsArray := refs }.reloadData⟩ where
  listedLive := hlive
  filteredLive r hr := hext.live (hs.filteredLive r hr)
  filteredMatch p hp := by
    have hvalues : heap.values s.table.filteredSearch = s.heap.values s.table.filteredSearch :=
      hext.values hs.filteredLive
    exact hs.filteredMatch p (hvalues ▸ hp)

theorem values_textDidChange (F : Foundation) (s : ListScreen) (searchText : String) :
    (s.textDidChange F searchText).heap.values (s.textDidChange F searchText).table.filteredSearch =
      matching F searchText (s.heap.values s.table.productsArray) := by
  simp only [textDidChange, SampleTable.reloadData, Heap.values, matching, List.filter_map]
  rfl

theorem filtered_textDidChange {F : Foundation} {s : ListScreen} (hs : Filtered F s)
    (searchText : String) : Filtered F (s.textDidChange F searchText) where
  listedLive := hs.listedLive
  filteredLive r hr := hs.listedLive r (List.mem_of_mem_filter hr)
  filteredMatch p hp := by
    rw [values_textDidChange] at hp
    exact List.of_mem_filter hp

theorem step_filtered {F : Foundation} {s t : ListScreen} {e : ListEvent} (hs : Filtered F s)
    (h : step F s e = some t) : Filtered F t := by
  cases e with
  | valueObserved snapshot =>
    rcases valueObserved_cases h with ⟨_, rfl⟩ | ⟨_, heap, refs, _, hread, rfl⟩
    · exact hs
    · obtain ⟨new, hrefs, hext, hfresh, _⟩ := readProducts_spec hread
      rw [List.nil_append] at hrefs
      subst hrefs
      exact filtered_observed hs hext (fun r hr => (hfresh r hr).2)
  | textDidChange searchText =>
    cases h
    exact filtered_textDidChange hs searchText
  | searchBarTextDidBeginEditing => cases h; exact ⟨hs.1, hs.2, hs.3⟩
  | searchBarTextDidEndEditing => cases h; exact ⟨hs.1, hs.2, hs.3⟩
  | searchBarCancelButtonClicked => cases h; exact ⟨hs.1, hs.2, hs.3⟩
  | searchBarSearchButtonClicked => cases h; exact ⟨hs.1, hs.2, hs.3⟩

/-- With the focus the full list is in use only when nothing is filtered; the list
and the text are those of the inputs so far. -/
structure Focused (F : Foundation) (listed : List Product) (left : String)
    (es : List FocusEvent) (s : ListScreen) : Prop where
  filtered : Filtered F s
  inactive : s.table.searchActive = false → s.table.filteredSearch = []
  products : s.heap.values s.table.productsArray = latestProducts listed es
  text : s.table.searchBarText = currentText left es

theorem step_focused {F : Foundation} {listed : List Product} {left : String}
    {pre : List FocusEvent} {s t : ListScreen} {e : FocusEvent}
    (hs : Focused F listed left pre s) (h : focusStep F s e = some t) :
    Focused F listed left (pre ++ [e]) t := by
  cases e with
  | valueObserved snap hne =>
    obtain ⟨heap, refs, hobs, hext, hlive, hvalues⟩ := s.valueObserved_snapshot snap hne
    cases hobs.symm.trans h
    refine ⟨filtered_observed hs.filtered hext hlive, hs.inactive, ?_, ?_⟩
    · simpa [latestProducts, SampleTable.reloadData] using hvalues
    · simpa [currentText, SampleTable.reloadData] using hs.text
  | textDidChange searchText =>
    cases h
    refine ⟨filtered_textDidChange hs.filtered searchText, ?_, ?_, ?_⟩
    · intro hinactive
      simpa [textDidChange, SampleTable.reloadData] using hinactive
    · simpa [latestProducts, textDidChange, SampleTable.reloadData] using hs.products
    · simp [currentText, textDidChange, SampleTable.reloadData]

/-- After a change of the text the current matches are shown. -/
theorem shows_textDidChange (F : Foundation) (s : ListScreen) (searchText : String) :
    Shows F searchText (s.heap.values s.table.productsArray) (s.textDidChange F searchText) := by
  have hvalues := values_textDidChange F s searchText
  unfold Shows
  rw [expected_eq, ← hvalues]
  unfold SampleTable.dataSource
  by_cases hnil : (s.textDidChange F searchText).table.filteredSearch = []
  · have hinactive : (s.textDidChange F searchText).table.searchActive = false := by
      simpa [textDidChange, SampleTable.reloadData] using hnil
    rw [hinactive, hnil]
    rfl
  · have hactive : (s.textDidChange F searchText).table.searchActive = true := by
      simpa [textDidChange, SampleTable.reloadData] using hnil
    rw [hactive]
    simp [hnil]

/-- A value event shows the current matches exactly when it brings the filtered ones. -/
theorem shows_valueObserved_iff {F : Foundation} {listed : List Product} {left : String}
    {pre : List FocusEvent} {s t : ListScreen} (hs : Focused F listed left pre s)
    {snap : CategorySnapshot} (hne : snap.records ≠ [])
    (h : focusStep F s (.valueObserved snap hne) = some t) :
    Shows F s.table.searchBarText snap.products t ↔
      BringsFiltered F s (.valueObserved snap hne) := by
  obtain ⟨heap, refs, hobs, hext, hlive, hvalues⟩ := s.valueObserved_snapshot snap hne
  cases hobs.symm.trans h
  have hold : heap.values s.table.filteredSearch = s.heap.values s.table.filteredSearch :=
    hext.values hs.filtered.filteredLive
  have hproducts : snap.products ≠ [] := fun hnil => hne (snap.products_eq_nil.mp hnil)
  unfold Shows BringsFiltered
  change heap.values (if s.table.searchActive then s.table.filteredSearch else refs) = _ ↔ _
  cases hactive : s.table.searchActive with
  | false =>
    have hnil := hs.inactive hactive
    simp only [Bool.false_eq_true, if_false, false_and, not_false_eq_true, true_and, hnil,
      Heap.values_nil, hvalues]
    exact expected_eq_all_iff F _ _
  | true =>
    simp only [if_true, true_and, hold]
    by_cases hnil : s.table.filteredSearch = []
    · simp only [hnil, Heap.values_nil, not_true_eq_false, false_and, iff_false]
      exact fun hexp => expected_ne_nil F _ hproducts hexp.symm
    · simp only [hnil, not_false_eq_true, true_and, false_and, or_false]
      exact eq_expected_iff F _ (by simpa using hnil) hs.filtered.filteredMatch

/-- Whatever happened before the bar got the focus: while it keeps it, the list shows
what is expected after every event exactly when each value event brings the matches
already filtered. -/
theorem search_shows_current_iff (F : Foundation) (h : Heap Product) (before : List ListEvent)
    (s : ListScreen) (hs : run (step F) (viewDidLoad h) before = some s)
    (es : List FocusEvent) :
    EachStep (focusStep F)
      (fun pre _ e t => Shows F (currentText s.table.searchBarText (pre ++ [e]))
        (latestProducts (s.heap.values s.table.productsArray) (pre ++ [e])) t)
      s.searchBarTextDidBeginEditing es ↔
    EachStep (focusStep F) (fun _ t e _ => BringsFiltered F t e)
      s.searchBarTextDidBeginEditing es := by
  have hfiltered : Filtered F s := run_invariant (step F) (filtered_viewDidLoad F h)
    (fun _ _ _ _ ht hu => step_filtered ht hu) hs
  refine eachStep_iff
    (I := Focused F (s.heap.values s.table.productsArray) s.table.searchBarText)
    (s := s.searchBarTextDidBeginEditing)
    (fun pre t e u ht hu => step_focused ht hu)
    ⟨⟨hfiltered.1, hfiltered.2, hfiltered.3⟩, fun hinactive => Bool.noConfusion hinactive, rfl, rfl⟩
    ?_ es
  intro pre t e u ht hu
  have hnext := step_focused ht hu
  cases e with
  | valueObserved snap hne =>
    have hiff := shows_valueObserved_iff ht hne hu
    rw [ht.text] at hiff
    simpa [currentText, latestProducts] using hiff
  | textDidChange searchText =>
    cases hu
    have hshows := shows_textDidChange F t searchText
    rw [ht.products] at hshows
    simpa [currentText, latestProducts, BringsFiltered] using hshows

def ringAt (price : ℤ) : CategorySnapshot :=
  .ofProducts [{ key := "-L1", name := "Silver Ring", price := price }] (by simp)

/-- A new product that does not match leaves the search result current. -/
theorem search_keeps_match :
    ∃ s, run (step asciiFoundation) (viewDidLoad emptyHeap)
        [.valueObserved (ringAt 40).value] = some s ∧
      EachStep (focusStep asciiFoundation)
        (fun pre _ e t =>
          Shows asciiFoundation (currentText s.table.searchBarText (pre ++ [e]))
            (latestProducts (s.heap.values s.table.productsArray) (pre ++ [e])) t)
        s.searchBarTextDidBeginEditing
        [.textDidChange "ring",
          .valueObserved (.ofProducts [{ key := "-L1", name := "Silver Ring", price := 40 },
            { key := "-L2", name := "Bracelet", price := 9 }] (by decide)) (by decide)] :=
  ⟨_, rfl, (search_shows_current_iff asciiFoundation emptyHeap
    [.valueObserved (ringAt 40).value] _ rfl _).mpr (by decide)⟩

/-- The price of a filtered product changes: the list still shows the old one. -/
theorem stale_match_shown :
    ¬ EachStep (focusStep asciiFoundation)
      (fun pre _ e t => Shows asciiFoundation (currentText "" (pre ++ [e]))
        (latestProducts [] (pre ++ [e])) t)
      (viewDidLoad emptyHeap).searchBarTextDidBeginEditing
      [.textDidChange "", .valueObserved (ringAt 40) (by decide), .textDidChange "ring",
        .valueObserved (ringAt 45) (by decide)] := by
  decide

end MiraclesAdmin.SearchResults
