import MiraclesAdmin.ViewSteps

/-!
Cancelling in a detail view. The form keeps no copy of what it was filled with: the
values that Cancel brings back are those of `selectedProduct`, which only a successful
save changes. Here each save completes before the next act, so they are always the
values saved last, or the drawn ones if nothing was saved.
-/
namespace MiraclesAdmin.CancelUndo

open SwiftText Transition ObjectHeap ProductRecords ProductForm DetailView
open ProductsScreen ScreenSteps ViewSteps
open ProductList hiding step

/-- What the admin does in one view: form events, and saves with their completion. -/
inductive Act
  | form (e : Event) (he : TouchesForm e)
  | save (success : Bool)

/-- A save that a guard rejects sends nothing; one that is sent completes at once. -/
def act (F : Foundation) (s : App) : Act → Option App
  | .form e _ => step F s e
  | .save success =>
    match s.detailView.failedGuard with
    | some _ => step F s .savePressed
    | none => (step F s .savePressed).bind (fun t =>
        step F t (.saveCompleted s.requests.length success))

/-- The values an act saves. -/
def savedBy (s : App) : Act → Option FormValues
  | .save true => if s.detailView.failedGuard = none then s.detailView.formValues else none
  | _ => none

/-- A view that a row selection has drawn with the selected product. -/
structure DrawnView (F : Foundation) where
  opened : App
  row : ℕ
  drawn : App
  step_draw : step F opened (.selectRow row) = some drawn

/-- The values of the last successful save, or those the view was drawn with. -/
def DrawnView.lastSaved {F : Foundation} (f : DrawnView F) (acts : List Act) : FormValues :=
  (outputs (act F) savedBy f.drawn acts).getLast?.getD (valuesOf f.drawn.selected)

/-- The inputs of the view show these values, the price as its decimal numeral. -/
structure ShowsValues (v : ProductDetailView) (x : FormValues) : Prop where
  name : v.productNameField.text = x.name
  price : v.productPriceField.text = stringOfInt x.price
  description : v.productDescriptionField.text = x.description
  availability : v.productAvailabilityField.isOn = x.availability

/-- The same product is selected, and no product object has changed. -/
def SameProduct (s t : App) : Prop :=
  t.selectedProduct = s.selectedProduct ∧ t.list.heap = s.list.heap

/-- The input fields are the same, with their contents and their mode. -/
structure SameInputs (v w : ProductDetailView) : Prop where
  type : w.productTypeField = v.productTypeField
  name : w.productNameField = v.productNameField
  price : w.productPriceField = v.productPriceField
  discount : w.productDiscountField = v.productDiscountField
  description : w.productDescriptionField = v.productDescriptionField
  availability : w.productAvailabilityField = v.productAvailabilityField

/-- Saves that do not succeed change nothing, Cancel restores the values saved last,
and the identity of the selected product never changes. -/
structure Undoes {F : Foundation} (f : DrawnView F) (acts : List Act) : Prop where
  unsaved : EachStep (act F) (fun _ s a t => ∀ success, a = .save success →
    savedBy s a = none → SameProduct s t ∧ SameInputs s.detailView t.detailView) f.drawn acts
  restored : EachStep (act F) (fun pre s _ t => s.detailView.editState = true →
    t.detailView.editState = false → ShowsValues t.detailView (f.lastSaved pre)) f.drawn acts
  identity : AtEach (act F) (fun _ t => t.selected.key = f.drawn.selected.key ∧
    t.selected.displayPicture = f.drawn.selected.displayPicture) f.drawn acts

variable {F : Foundation} {s t : App} {a : Act}

/-- What an act does to the selected product and to its view. -/
inductive ActEffect (s t : App) : Act → Prop
  | typed {e : Event} {he : TouchesForm e} (hproduct : SameProduct s t)
      (hmode : t.detailView.editState = s.detailView.editState) : ActEffect s t (.form e he)
  | toggled {he : TouchesForm .editPressed} (hproduct : SameProduct s t)
      (hview : t.detailView = s.detailView.editPressed s.currentCategory s.selected) :
      ActEffect s t (.form .editPressed he)
  | unsaved {success : Bool} (hsaved : savedBy s (.save success) = none)
      (hproduct : SameProduct s t) (hinputs : SameInputs s.detailView t.detailView)
      (hmode : t.detailView.editState = s.detailView.editState) : ActEffect s t (.save success)
  | saved {x : FormValues} (hsaved : savedBy s (.save true) = some x)
      (hselected : t.selected = setValues s.selected x)
      (hmode : t.detailView.editState = s.detailView.editState) : ActEffect s t (.save true)

theorem updateDetail_detailView (s : App) (f : ProductDetailView → ProductDetailView) :
    (s.updateDetail f).detailView = f s.detailView := Heap.modify_cell_self _ _ _

theorem form_effect {e : Event} (he : TouchesForm e) (h : step F s e = some t) :
    ActEffect s t (.form e he) := by
  cases he with
  | editPressed =>
    obtain ⟨_, h⟩ := guarded_eq_some.mp h
    cases h
    exact .toggled ⟨rfl, rfl⟩ (updateDetail_detailView s _)
  | editName | editPrice | editDiscount | editDescription | switchAvailability =>
    obtain ⟨_, h⟩ := guarded_eq_some.mp h
    cases h
    refine .typed ⟨rfl, rfl⟩ ?_
    rw [updateDetail_detailView]

theorem rejected_effect {text : String} (hguard : s.detailView.failedGuard = some text)
    (success : Bool) (h : step F s .savePressed = some t) : ActEffect s t (.save success) := by
  have hsaved : savedBy s (.save success) = none := by
    cases success <;> simp [savedBy, hguard]
  cases step_effect h with
  | form he => cases he
  | rejected _ hv =>
    obtain ⟨label, rfl⟩ := ProductDetailView.savePressed_label hv
    refine .unsaved hsaved ⟨rfl, rfl⟩ ?_ ?_ <;> rw [updateDetail_detailView]
    exact ⟨rfl, rfl, rfl, rfl, rfl, rfl⟩
  | saveSent _ hv =>
    have hnone := (ProductDetailView.savePressed_sent hv).1
    rw [hguard] at hnone
    cases hnone

/-- A form that passes the guards is not rejected. -/
theorem savePressed_ne_rejected {v w : ProductDetailView} {currentCategory : String} {p : Product}
    (hguard : v.failedGuard = none) : v.savePressed currentCategory p ≠ some (w, none) := by
  intro h
  obtain ⟨⟨label, sent⟩, hpressed, hw⟩ := Option.map_eq_some_iff.mp h
  cases hw
  rw [hguard] at hpressed
  obtain ⟨value, _, hvalue⟩ := Option.bind_eq_some_iff.mp hpressed
  cases hvalue

/-- Sending a save changes the label of the view only. -/
structure Sent (s u : App) (q : Request) : Prop where
  product : SameProduct s u
  detail : u.detail = s.detail
  view : ∃ label, u.detailView = { s.detailView with requiredLabel := label }
  requests : u.requests = s.requests ++ [q]
  issuer : q.view = s.detail

theorem exists_sent {u : App} (hguard : s.detailView.failedGuard = none)
    (h : step F s .savePressed = some u) : ∃ q, Sent s u q := by
  cases step_effect h with
  | form he => cases he
  | rejected _ hv => exact absurd hv (savePressed_ne_rejected hguard)
  | @saveSent v value _ hv =>
    obtain ⟨label, hlabel⟩ := ProductDetailView.savePressed_label hv
    refine ⟨_, ⟨rfl, rfl⟩, rfl, ⟨label, ?_⟩, rfl, rfl⟩
    rw [← hlabel]
    exact Heap.modify_cell_self s.views s.detail (fun _ => v)

/-- A save that is sent finds the form as it was when its completion arrives. -/
theorem sent_effect {success : Bool} {u : App} (hguard : s.detailView.failedGuard = none)
    (hsend : step F s .savePressed = some u)
    (h : step F u (.saveCompleted s.requests.length success) = some t) :
    ActEffect s t (.save success) := by
  obtain ⟨q, hproduct, hdetail, ⟨label, hview⟩, hrequests, hissuer⟩ := exists_sent hguard hsend
  cases step_effect h with
  | form he => cases he
  | saveFailed =>
    have hsame : (dismissedHUD u s.requests.length).detailView = u.detailView := rfl
    refine .unsaved rfl hproduct ?_ ?_
    · rw [hsame, hview]
      exact ⟨rfl, rfl, rfl, rfl, rfl, rfl⟩
    · rw [hsame, hview]
  | @saveDone _ q' v p _ hq hv =>
    have hqq : q' = q := by
      rw [hrequests, List.getElem?_concat_length] at hq
      exact (Option.some.inj hq).symm
    have hissued : u.views.cell q'.view = { s.detailView with requiredLabel := label } := by
      rw [hqq, hissuer, ← hdetail]
      exact hview
    have hselected : u.selected = s.selected := by
      unfold App.selected
      rw [hproduct.1, hproduct.2]
    rw [hissued, hselected] at hv
    obtain ⟨x, hx, rfl, rfl⟩ := ProductDetailView.saveSucceeded_inv hv
    refine .saved (x := x) ?_ ?_ ?_
    · unfold savedBy
      rw [if_pos hguard]
      exact hx
    · exact Heap.modify_cell_self u.list.heap u.selectedProduct (fun _ => setValues s.selected x)
    · have hat : u.detail = q'.view := by rw [hqq, hissuer, hdetail]
      change ((u.views.modify q'.view (fun _ => ProductDetailView.saved _)).cell u.detail).editState
        = s.detailView.editState
      rw [hat, Heap.modify_cell_self]
      rfl

theorem act_effect (h : act F s a = some t) : ActEffect s t a := by
  cases a with
  | form e he => exact form_effect he h
  | save success =>
    cases hguard : s.detailView.failedGuard with
    | some text =>
      simp only [act, hguard] at h
      exact rejected_effect hguard success h
    | none =>
      simp only [act, hguard] at h
      obtain ⟨u, hsend, hcompleted⟩ := Option.bind_eq_some_iff.mp h
      exact sent_effect hguard hsend hcompleted

/-- What holds along the acts: the selected product has the values saved last, and its
identity is the drawn one. -/
structure Committed (f : DrawnView F) (pre : List Act) (s : App) : Prop where
  run_pre : run (act F) f.drawn pre = some s
  values : valuesOf s.selected = f.lastSaved pre
  key : s.selected.key = f.drawn.selected.key
  displayPicture : s.selected.displayPicture = f.drawn.selected.displayPicture

theorem committed_drawn (f : DrawnView F) : Committed f [] f.drawn := ⟨rfl, rfl, rfl, rfl⟩

theorem lastSaved_append (f : DrawnView F) {pre : List Act}
    (hs : run (act F) f.drawn pre = some s) (ht : act F s a = some t) :
    f.lastSaved (pre ++ [a]) = (savedBy s a).getD (f.lastSaved pre) := by
  unfold DrawnView.lastSaved
  rw [outputs_concat hs ht]
  cases savedBy s a <;> simp

theorem SameProduct.selected (h : SameProduct s t) : t.selected = s.selected := by
  unfold App.selected
  rw [h.1, h.2]

/-- An act that saves nothing keeps what is committed. -/
theorem Committed.unsaved {f : DrawnView F} {pre : List Act} (hs : Committed f pre s)
    (ht : act F s a = some t) (hsaved : savedBy s a = none) (hproduct : SameProduct s t) :
    Committed f (pre ++ [a]) t := by
  refine ⟨run_concat (act F) hs.run_pre ht, ?_, ?_, ?_⟩
  · rw [lastSaved_append f hs.run_pre ht, hsaved, hproduct.selected]
    exact hs.values
  · rw [hproduct.selected]
    exact hs.key
  · rw [hproduct.selected]
    exact hs.displayPicture

theorem act_committed {f : DrawnView F} {pre : List Act} (hs : Committed f pre s)
    (ht : act F s a = some t) : Committed f (pre ++ [a]) t := by
  cases act_effect ht with
  | typed hproduct => exact hs.unsaved ht rfl hproduct
  | toggled hproduct => exact hs.unsaved ht rfl hproduct
  | unsaved hsaved hproduct => exact hs.unsaved ht hsaved hproduct
  | saved hsaved hselected =>
    refine ⟨run_concat (act F) hs.run_pre ht, ?_, ?_, ?_⟩
    · rw [lastSaved_append f hs.run_pre ht, hsaved, hselected]
      rfl
    · rw [hselected]
      exact hs.key
    · rw [hselected]
      exact hs.displayPicture

theorem run_committed (f : DrawnView F) {acts : List Act} (h : run (act F) f.drawn acts = some t) :
    Committed f acts t :=
  run_history (act F) (committed_drawn f) (fun _ _ _ _ _ => act_committed) h

/-- The press that ends the edit mode shows the selected product. -/
theorem showsValues_cancelled (v : ProductDetailView) (currentCategory : String) (p : Product) :
    ShowsValues (v.cancelled currentCategory p) (valuesOf p) := ⟨rfl, rfl, rfl, rfl⟩

/-- For every run of acts in one drawn view: saves that do not succeed change nothing,
Cancel shows the values saved last or drawn, and the identity stays. -/
theorem cancel_undoes (F : Foundation) (f : DrawnView F) (acts : List Act) : Undoes f acts := by
  refine ⟨?_, ?_, ?_⟩
  · intro pre s a t _ _ ht success ha hsaved
    subst ha
    cases act_effect ht with
    | unsaved _ hproduct hinputs => exact ⟨hproduct, hinputs⟩
    | saved hsome =>
      rw [hsaved] at hsome
      cases hsome
  · intro pre s a t _ hs ht hon hoff
    have hcommitted := run_committed f hs
    have hkept : t.detailView.editState = s.detailView.editState →
        ShowsValues t.detailView (f.lastSaved pre) := by
      intro hmode
      rw [hmode, hon] at hoff
      cases hoff
    cases act_effect ht with
    | typed _ hmode => exact hkept hmode
    | unsaved _ _ _ hmode => exact hkept hmode
    | saved _ _ hmode => exact hkept hmode
    | toggled _ hview =>
      rw [hview, ProductDetailView.editPressed_of_editing hon, ← hcommitted.values]
      exact showsValues_cancelled _ _ _
  · intro pre t _ ht
    exact ⟨(run_committed f ht).key, (run_committed f ht).displayPicture⟩

/-- The first of two rings is selected. -/
def drawnRing : DrawnView asciiFoundation where
  opened := ((run (step asciiFoundation) launch openRings).getD launch)
  row := 0
  drawn := _
  step_draw := rfl

/-- Its price is saved as 45; the press after that shows 45 again. -/
theorem saved_price_restored : ∃ t, run (act asciiFoundation) drawnRing.drawn
      [.form .editPressed .editPressed, .form (.editPrice 0 2 "45") (.editPrice 0 2 "45"),
        .save true, .form .editPressed .editPressed] = some t ∧
    ShowsValues t.detailView ⟨"Silver Ring", "thin", 45, true⟩ :=
  ⟨_, rfl, (cancel_undoes asciiFoundation drawnRing _).restored
    [.form .editPressed .editPressed, .form (.editPrice 0 2 "45") (.editPrice 0 2 "45"),
      .save true] _ (.form .editPressed .editPressed) _ List.prefix_rfl rfl rfl rfl rfl⟩

end MiraclesAdmin.CancelUndo
