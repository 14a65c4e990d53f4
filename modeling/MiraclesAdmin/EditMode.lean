import MiraclesAdmin.ScreenObjects
import MiraclesAdmin.ViewSteps

/-!
The edit mode of a detail view. It is stored in `editState`, in the Save button, in
the input fields and in the title of the edit button. Pressing the edit button sets
all four; the success of a save sets all but `editState`, so they agree exactly as
long as no save succeeds while its view is being edited.
-/
namespace MiraclesAdmin.EditMode

open SwiftText Transition ObjectHeap ProductRecords ProductForm DetailView
open ProductsScreen ScreenSteps ScreenObjects ViewSteps
open ProductList hiding step

/-- The inputs accept edits or not. The field of the type never does. -/
def InputsEnabled (v : ProductDetailView) (enable : Bool) : Prop :=
  v.productNameField.isEnabled = enable ∧ v.productPriceField.isEnabled = enable ∧
  v.productDiscountField.isEnabled = enable ∧ v.productDescriptionField.isEditable = enable ∧
  v.productAvailabilityField.isEnabled = enable

/-- The four places that store the mode agree. -/
structure ModeAgrees (v : ProductDetailView) : Prop where
  saveButton : v.saveButton.isEnabled = v.editState
  inputs : InputsEnabled v v.editState
  title : v.editButton.title = if v.editState then "Cancel" else "Edit"

/-- The inputs show the values of the product. -/
def Restored (v : ProductDetailView) (currentCategory : String) (selectedProduct : Product) :
    Prop := v.fillForm currentCategory selectedProduct = v

/-- The mode agrees, and the edit button does what its title says. -/
structure ModeCoherent (v : ProductDetailView) : Prop where
  agrees : ModeAgrees v
  edit : v.editButton.title = "Edit" → ∀ currentCategory selectedProduct,
    InputsEnabled (v.editPressed currentCategory selectedProduct) true ∧
      (v.editPressed currentCategory selectedProduct).saveButton.isEnabled = true
  cancel : v.editButton.title = "Cancel" → ∀ currentCategory selectedProduct,
    Restored (v.editPressed currentCategory selectedProduct) currentCategory selectedProduct

/-- The views drawn so far are coherent. -/
def AllCoherent (s : App) : Prop := ∀ r, s.views.Live r → ModeCoherent (s.views.cell r)

/-- A save that succeeds finds its view out of the edit mode. -/
def SucceedsOutsideEditing (s : App) (e : Event) : Prop :=
  ∀ n q, e = .saveCompleted n true → s.requests[n]? = some q →
    (s.views.cell q.view).editState = false

theorem inputsEnabled_toggleEditState (v : ProductDetailView) (enable : Bool) :
    InputsEnabled (v.toggleEditState enable) enable := ⟨rfl, rfl, rfl, rfl, rfl⟩

theorem modeAgrees_editing (v : ProductDetailView) : ModeAgrees v.editing :=
  ⟨rfl, inputsEnabled_toggleEditState _ true, rfl⟩

theorem modeAgrees_cancelled (v : ProductDetailView) (currentCategory : String) (p : Product) :
    ModeAgrees (v.cancelled currentCategory p) :=
  ⟨rfl, inputsEnabled_toggleEditState _ false, rfl⟩

theorem modeAgrees_editPressed (v : ProductDetailView) (currentCategory : String) (p : Product) :
    ModeAgrees (v.editPressed currentCategory p) := by
  cases h : v.editState with
  | false =>
    rw [ProductDetailView.editPressed_of_not_editing h]
    exact modeAgrees_editing v
  | true =>
    rw [ProductDetailView.editPressed_of_editing h]
    exact modeAgrees_cancelled v currentCategory p

theorem modeAgrees_draw (currentCategory : String) (p : Product) :
    ModeAgrees (ProductDetailView.draw {} currentCategory p) := by
  unfold ProductDetailView.draw
  split
  · exact ⟨rfl, ⟨rfl, rfl, rfl, rfl, rfl⟩, rfl⟩
  · exact ⟨rfl, ⟨rfl, rfl, rfl, rfl, rfl⟩, rfl⟩

/-- The success of a save leaves `editState` behind. -/
theorem modeAgrees_saved_iff (v : ProductDetailView) :
    ModeAgrees v.saved ↔ v.editState = false := by
  constructor
  · intro h
    exact h.saveButton.symm
  · intro h
    refine ⟨h.symm, ?_, ?_⟩
    · change InputsEnabled v.saved v.editState
      rw [h]
      exact ⟨rfl, rfl, rfl, rfl, rfl⟩
    · change "Edit" = if v.editState then "Cancel" else "Edit"
      rw [h]
      rfl

/-- Agreement is all that coherence asks: the edit button reads `editState`. -/
theorem modeCoherent_iff (v : ProductDetailView) : ModeCoherent v ↔ ModeAgrees v := by
  constructor
  · intro h
    exact h.agrees
  · intro h
    refine ⟨h, ?_, ?_⟩
    · intro htitle currentCategory p
      have hoff : v.editState = false := by
        by_contra hon
        rw [h.title, if_pos (Bool.eq_true_of_not_eq_false hon)] at htitle
        exact absurd htitle (by decide)
      rw [ProductDetailView.editPressed_of_not_editing hoff]
      exact ⟨inputsEnabled_toggleEditState _ true, rfl⟩
    · intro htitle currentCategory p
      have hon : v.editState = true := by
        by_contra hoff
        rw [h.title, if_neg hoff] at htitle
        exact absurd htitle (by decide)
      rw [ProductDetailView.editPressed_of_editing hon]
      exact rfl

/-- A step keeps the agreement of a view unless a save succeeds while it is edited. -/
theorem modeAgrees_effect {s : App} {r : Ref} {e : Event} {v : ProductDetailView}
    (hs : ModeAgrees (s.views.cell r)) (he : SucceedsOutsideEditing s e)
    (h : ViewEffect s r e v) : ModeAgrees v := by
  cases h with
  | kept => exact hs
  | typed => exact ⟨hs.saveButton, hs.inputs, hs.title⟩
  | toggled => exact modeAgrees_editPressed _ _ _
  | labelled => exact ⟨hs.saveButton, hs.inputs, hs.title⟩
  | reset => exact ⟨hs.saveButton, hs.inputs, hs.title⟩
  | @saved n q v p hq hr hv =>
    obtain ⟨x, _, rfl, _⟩ := ProductDetailView.saveSucceeded_inv hv
    subst hr
    exact (modeAgrees_saved_iff _).mpr (he n q rfl hq)

/-- A success leaves its view as `saved`. -/
theorem step_saved {F : Foundation} {s t : App} {n : ℕ} {q : Request}
    (h : step F s (.saveCompleted n true) = some t) (hq : s.requests[n]? = some q) :
    t.views.cell q.view = (s.views.cell q.view).saved := by
  cases step_effect h with
  | form he => cases he
  | @saveDone _ q' v p _ hq' hv =>
    cases hq'.symm.trans hq
    obtain ⟨x, _, rfl, _⟩ := ProductDetailView.saveSucceeded_inv hv
    exact Heap.modify_cell_self _ _ _

/-- Given that all views are coherent, only a success can break this. -/
theorem step_allCoherent_iff {F : Foundation} {s t : App} {e : Event} (hsound : Sound s)
    (hs : AllCoherent s) (h : step F s e = some t) :
    AllCoherent t ↔ SucceedsOutsideEditing s e := by
  constructor
  · intro ht n q he hq
    subst he
    have hlive : t.views.Live q.view := Nat.lt_of_lt_of_le
      (hsound.requests q (List.mem_of_getElem? hq)) (step_views_le h)
    have hagrees := (ht q.view hlive).agrees
    rw [step_saved h hq] at hagrees
    exact (modeAgrees_saved_iff _).mp hagrees
  · intro he r hr
    rw [modeCoherent_iff]
    rcases step_view h hr with ⟨_, currentCategory, p, hcell⟩ | ⟨hlive, heffect⟩
    · rw [hcell]
      exact modeAgrees_draw currentCategory p
    · exact modeAgrees_effect (hs r hlive).agrees he heffect

/-- In a run of the products screen every drawn view is coherent in every state reached
exactly when each save that succeeds finds its view out of the edit mode. -/
theorem mode_coherent_iff (F : Foundation) (es : List Event) :
    AtEach (step F) (fun _ => AllCoherent) launch es ↔
      EachStep (step F) (fun _ s e _ => SucceedsOutsideEditing s e) launch es :=
  atEach_iff_eachStep (I := fun _ => Sound) (C := fun _ => SucceedsOutsideEditing)
    (fun _ _ _ _ => step_sound) sound_launch (fun r hr => absurd hr (Nat.not_lt_zero r))
    (fun _ _ _ _ => step_allCoherent_iff) es

/-- The first ring is edited and saved: its button is titled Edit again, and a press on
it would not enable the fields. -/
theorem saved_while_editing_incoherent :
    ¬ AtEach (step asciiFoundation) (fun _ => AllCoherent) launch
      (openRings ++ [.selectRow 0, .editPressed, .savePressed, .saveCompleted 0 true]) := by
  intro h
  have hagrees := (h.last rfl 1 (show 1 < 2 by decide)).agrees
  exact absurd (show false = true from hagrees.saveButton) (by decide)

end MiraclesAdmin.EditMode
