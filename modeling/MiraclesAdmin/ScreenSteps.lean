import MiraclesAdmin.ProductsScreen

/-!
What one step of the products screen can do. `Effect` lists the outcomes with their
guards; the frame facts below are read off it: which events replace the globals,
what no event changes in an existing product, and how the log of requests grows.
-/
namespace MiraclesAdmin.ScreenSteps

open SwiftText Transition ObjectHeap ProductRecords ProductForm DetailView
open ProductsScreen
open ProductList hiding step

/-- The events that assign `selectedProduct` or `currentCategory`. -/
def Replaces : Event → Prop
  | .openCategory _ => True
  | .selectRow _ => True
  | .exitPressed => True
  | .deleteCompleted _ success => success = true
  | _ => False

/-- The events that edit the form of the detail view on the screen. -/
inductive TouchesForm : Event → Prop
  | editName (text : String) : TouchesForm (.editName text)
  | editPrice (location length : ℕ) (string : String) :
      TouchesForm (.editPrice location length string)
  | editDiscount (location length : ℕ) (string : String) :
      TouchesForm (.editDiscount location length string)
  | editDescription (text : String) : TouchesForm (.editDescription text)
  | switchAvailability (isOn : Bool) : TouchesForm (.switchAvailability isOn)
  | editPressed : TouchesForm .editPressed

/-- The state in which the success branch of a save's completion runs. -/
def dismissedHUD (s : App) (n : ℕ) : App :=
  { s with pending := s.pending.erase n, list := { s.list with hudShown := false } }

inductive Effect (F : Foundation) (s : App) : Event → App → Prop
  | opened (myString : String) (hs : s.isPresented = false) :
      Effect F s (.openCategory myString) (s.openCategory F myString)
  | listed {e : ListEvent} {l : ListScreen} (hs : s.isPresented = true)
      (hl : ProductList.step F s.list e = some l) : Effect F s (.list e) { s with list := l }
  | selected {row : ℕ} {r : Ref} (hs : s.isPresented = true)
      (hrow : row < s.list.table.loadedRows.length) (hr : s.list.prepare row = some r) :
      Effect F s (.selectRow row) { s with selectedProduct := r }.drawDetail
  | exited (hs : s.isPresented = true) : Effect F s .exitPressed s.didClickOnExitButton
  | form {e : Event} (he : TouchesForm e) (hs : s.isPresented = true)
      (f : ProductDetailView → ProductDetailView) : Effect F s e (s.updateDetail f)
  | rejected {v : ProductDetailView} (hs : s.FormShown)
      (hv : s.detailView.savePressed s.currentCategory s.selected = some (v, none)) :
      Effect F s .savePressed (s.updateDetail (fun _ => v))
  | saveSent {v : ProductDetailView} {value : FirebaseValue} (hs : s.FormShown)
      (hv : s.detailView.savePressed s.currentCategory s.selected = some (v, some value)) :
      Effect F s .savePressed
        ({ s.updateDetail (fun _ => v) with list := { s.list with hudShown := true } }.send
          ⟨s.detail, s.currentCategory, s.selected.key, .updateChildValues value⟩)
  | alerted (hs : s.FormShown) :
      Effect F s .deletePressed { s with alerts := s.alerts ++ [s.detail] }
  | cancelled {view : Ref} (hw : view ∈ s.alerts) :
      Effect F s (.alertCancel view) { s with alerts := s.alerts.erase view }
  | deleteSent {view : Ref} (hw : view ∈ s.alerts) :
      Effect F s (.alertDelete view) (s.alertDelete view)
  | saveFailed {n : ℕ} (hn : n ∈ s.pending) :
      Effect F s (.saveCompleted n false) (dismissedHUD s n)
  | saveDone {n : ℕ} {q : Request} {v : ProductDetailView} {p : Product} (hn : n ∈ s.pending)
      (hq : s.requests[n]? = some q)
      (hv : (s.views.cell q.view).saveSucceeded s.selected = some (v, p)) :
      Effect F s (.saveCompleted n true)
        { dismissedHUD s n with
          views := s.views.modify q.view (fun _ => v)
          list := { (dismissedHUD s n).list with
            heap := s.list.heap.modify s.selectedProduct (fun _ => p) } }
  | deleteFailed {n : ℕ} (hn : n ∈ s.pending) :
      Effect F s (.deleteCompleted n false) { s with pending := s.pending.erase n }
  | deleteDone {n : ℕ} {q : Request} (hn : n ∈ s.pending) (hq : s.requests[n]? = some q) :
      Effect F s (.deleteCompleted n true)
        { { s with pending := s.pending.erase n }.blankSelected with
          views := s.views.modify q.view ProductDetailView.resetForm }

variable {F : Foundation} {s t : App} {e : Event}

theorem step_effect (h : step F s e = some t) : Effect F s e t := by
  cases e with
  | openCategory myString =>
    obtain ⟨hs, h⟩ := guarded_eq_some.mp h
    cases h
    exact .opened myString hs
  | list e =>
    obtain ⟨hs, h⟩ := guarded_eq_some.mp h
    obtain ⟨l, hl, rfl⟩ := Option.map_eq_some_iff.mp h
    exact .listed hs hl
  | selectRow row =>
    obtain ⟨⟨hs, hrow⟩, h⟩ := guarded_eq_some.mp h
    obtain ⟨r, hr, rfl⟩ := Option.map_eq_some_iff.mp h
    exact .selected hs hrow hr
  | exitPressed =>
    obtain ⟨hs, h⟩ := guarded_eq_some.mp h
    cases h
    exact .exited hs
  | editName text =>
    obtain ⟨hs, h⟩ := guarded_eq_some.mp h
    cases h
    exact .form (.editName text) hs.1 _
  | editPrice location length string =>
    obtain ⟨hs, h⟩ := guarded_eq_some.mp h
    cases h
    exact .form (.editPrice location length string) hs.1 _
  | editDiscount location length string =>
    obtain ⟨hs, h⟩ := guarded_eq_some.mp h
    cases h
    exact .form (.editDiscount location length string) hs.1 _
  | editDescription text =>
    obtain ⟨hs, h⟩ := guarded_eq_some.mp h
    cases h
    exact .form (.editDescription text) hs.1 _
  | switchAvailability isOn =>
    obtain ⟨hs, h⟩ := guarded_eq_some.mp h
    cases h
    exact .form (.switchAvailability isOn) hs.1 _
  | editPressed =>
    obtain ⟨hs, h⟩ := guarded_eq_some.mp h
    cases h
    exact .form .editPressed hs.1 _
  | savePressed =>
    obtain ⟨⟨hs, _⟩, h⟩ := guarded_eq_some.mp h
    unfold App.savePressed at h
    split at h
    · contradiction
    · rename_i hv
      cases h
      exact .rejected hs hv
    · rename_i hv
      cases h
      exact .saveSent hs hv
  | deletePressed =>
    obtain ⟨hs, h⟩ := guarded_eq_some.mp h
    cases h
    exact .alerted hs
  | alertCancel view =>
    obtain ⟨hw, h⟩ := guarded_eq_some.mp h
    cases h
    exact .cancelled hw
  | alertDelete view =>
    obtain ⟨hw, h⟩ := guarded_eq_some.mp h
    cases h
    exact .deleteSent hw
  | saveCompleted n success =>
    simp only [step] at h
    split at h
    · rename_i hq
      obtain ⟨hn, h⟩ := guarded_eq_some.mp h
      cases success with
      | false =>
        cases h
        exact .saveFailed hn
      | true =>
        obtain ⟨⟨v, p⟩, hv, rfl⟩ := Option.map_eq_some_iff.mp h
        exact .saveDone hn hq hv
    · contradiction
  | deleteCompleted n success =>
    simp only [step] at h
    split at h
    · rename_i hq
      obtain ⟨hn, h⟩ := guarded_eq_some.mp h
      cases success with
      | false =>
        cases h
        exact .deleteFailed hn
      | true =>
        cases h
        exact .deleteDone hn hq
    · contradiction

/-- Only the replacing events assign the globals. -/
theorem step_globals (h : step F s e = some t) (he : ¬ Replaces e) :
    t.selectedProduct = s.selectedProduct ∧ t.currentCategory = s.currentCategory := by
  cases step_effect h with
  | opened => exact absurd trivial he
  | selected => exact absurd trivial he
  | exited => exact absurd trivial he
  | deleteDone => exact absurd rfl he
  | listed | form | rejected | saveSent | alerted | cancelled | deleteSent | saveFailed
  | saveDone | deleteFailed => exact ⟨rfl, rfl⟩

/-- A product object keeps its identity: its key and its picture link. -/
def KeepsIdentity (h k : Heap Product) : Prop :=
  h.next ≤ k.next ∧
  ∀ r, h.Live r → (k.cell r).key = (h.cell r).key ∧
    (k.cell r).displayPicture = (h.cell r).displayPicture

theorem KeepsIdentity.refl (h : Heap Product) : KeepsIdentity h h :=
  ⟨Nat.le_refl _, fun _ _ => ⟨rfl, rfl⟩⟩

theorem keepsIdentity_of_extends {h k : Heap Product} (hk : h.Extends k) : KeepsIdentity h k :=
  ⟨hk.1, fun r hr => by rw [hk.2 r hr]; exact ⟨rfl, rfl⟩⟩

theorem keepsIdentity_modify (h : Heap Product) (r : Ref) {p : Product}
    (hkey : p.key = (h.cell r).key) (hpicture : p.displayPicture = (h.cell r).displayPicture) :
    KeepsIdentity h (h.modify r (fun _ => p)) := by
  refine ⟨Nat.le_refl _, ?_⟩
  intro q _
  by_cases hq : q = r
  · subst hq
    simp [hkey, hpicture]
  · rw [Heap.modify_cell_of_ne h _ hq]
    exact ⟨rfl, rfl⟩

theorem listStep_extends {l m : ListScreen} {e : ListEvent}
    (h : ProductList.step F l e = some m) : l.heap.Extends m.heap := by
  cases e with
  | valueObserved snapshot =>
    rcases ListScreen.valueObserved_cases h with ⟨_, rfl⟩ | ⟨_, heap, refs, _, hread, rfl⟩
    · exact Heap.Extends.refl _
    · obtain ⟨_, _, hext, _, _⟩ := readProducts_spec hread
      exact hext
  | searchBarTextDidBeginEditing | searchBarTextDidEndEditing | searchBarCancelButtonClicked
  | searchBarSearchButtonClicked | textDidChange =>
    cases h
    exact Heap.Extends.refl _

/-- No event changes the key or the picture of an existing product. -/
theorem step_keepsIdentity (h : step F s e = some t) :
    KeepsIdentity s.list.heap t.list.heap := by
  cases step_effect h with
  | listed hs hl => exact keepsIdentity_of_extends (listStep_extends hl)
  | exited => exact keepsIdentity_of_extends (Heap.extends_alloc _ _)
  | deleteDone => exact keepsIdentity_of_extends (Heap.extends_alloc _ _)
  | saveDone hn hq hv =>
    obtain ⟨x, _, _, rfl⟩ := ProductDetailView.saveSucceeded_inv hv
    exact keepsIdentity_modify _ _ rfl rfl
  | opened | selected | form | rejected | saveSent | alerted | cancelled | deleteSent
  | saveFailed | deleteFailed => exact KeepsIdentity.refl _

/-- What a request says about the state it was sent in. -/
structure SentFrom (s : App) (q : Request) : Prop where
  category : q.category = s.currentCategory
  key : q.key = s.selected.key
  value : ∀ value, q.write = .updateChildValues value →
    q.view = s.detail ∧ s.isPresented = true ∧ ∃ v, s.detailView.formValues = some v ∧
      value = productRecord v s.selected.displayPicture s.currentCategory
  alert : q.write = .removeValue → q.view ∈ s.alerts

/-- A step leaves the log of requests alone or appends one sent from its state. -/
theorem step_requests (h : step F s e = some t) :
    t.requests = s.requests ∨ ∃ q, t.requests = s.requests ++ [q] ∧ SentFrom s q := by
  cases step_effect h with
  | saveSent hs hv =>
    obtain ⟨_, x, hx, hvalue⟩ := ProductDetailView.savePressed_sent hv
    refine Or.inr ⟨_, rfl, rfl, rfl, ?_, fun hw => Write.noConfusion hw⟩
    intro value hw
    cases hw
    exact ⟨rfl, hs.1, x, hx, hvalue⟩
  | deleteSent hw =>
    exact Or.inr ⟨_, rfl, rfl, rfl, fun _ hv => Write.noConfusion hv, fun _ => hw⟩
  | opened | listed | selected | exited | form | rejected | alerted | cancelled | saveFailed
  | saveDone | deleteFailed | deleteDone => exact Or.inl rfl

/-- A save that sends a request sends the values the form denotes, at the key of the
selected product. -/
theorem savePressed_request {q : Request} (h : step F s .savePressed = some t)
    (hq : t.requests = s.requests ++ [q]) :
    q.view = s.detail ∧ q.key = s.selected.key ∧ ∃ v, s.detailView.formValues = some v ∧
      q.write = .updateChildValues
        (productRecord v s.selected.displayPicture s.currentCategory) := by
  cases step_effect h with
  | form he => cases he
  | rejected => simp [App.updateDetail] at hq
  | saveSent hs hv =>
    obtain ⟨_, v, hvalues, rfl⟩ := ProductDetailView.savePressed_sent hv
    cases List.singleton_inj.mp (List.append_cancel_left hq)
    exact ⟨rfl, rfl, v, hvalues, rfl⟩

/-- Views are never dropped: closures keep them. -/
theorem step_views_le (h : step F s e = some t) : s.views.next ≤ t.views.next := by
  cases step_effect h with
  | opened => exact Nat.le_succ _
  | selected => exact Nat.le_succ _
  | listed | exited | form | rejected | saveSent | alerted | cancelled | deleteSent
  | saveFailed | saveDone | deleteFailed | deleteDone => exact Nat.le_refl _

theorem requests_appends (F : Foundation) : Appends (step F) App.requests := by
  intro s e t h
  rcases step_requests h with heq | ⟨q, heq, _⟩
  · exact Or.inl heq
  · exact Or.inr ⟨q, heq⟩

end MiraclesAdmin.ScreenSteps
