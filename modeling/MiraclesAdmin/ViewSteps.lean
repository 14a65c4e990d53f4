import MiraclesAdmin.PriceTexts
import MiraclesAdmin.ScreenSteps

/-!
The detail views of the products screen under its steps. A step draws a new view, or
does one of a few things to an existing one; what holds of a fresh view and is kept
by each of these holds of every view of a run, shown or already left.
-/
namespace MiraclesAdmin.ViewSteps

open SwiftText Transition ObjectHeap ProductRecords PriceTexts ProductForm DetailView
open ProductsScreen ScreenSteps
open ProductList hiding step

variable {F : Foundation} {s t : App} {e : Event}

/-- The view with other contents in its inputs. -/
def withInputs (v : ProductDetailView) (name price discount description : String)
    (isOn : Bool) : ProductDetailView :=
  { v with
    productNameField := { v.productNameField with text := name }
    productPriceField := { v.productPriceField with text := price }
    productDiscountField := { v.productDiscountField with text := discount }
    productDescriptionField := { v.productDescriptionField with text := description }
    productAvailabilityField := { v.productAvailabilityField with isOn := isOn } }

/-- What a step does to a view that exists: the contents it has afterwards. -/
inductive ViewEffect (s : App) (r : Ref) : Event → ProductDetailView → Prop
  | kept {e : Event} : ViewEffect s r e (s.views.cell r)
  | typed {e : Event} (he : TouchesForm e) (name price discount description : String)
      (isOn : Bool) (hprice : EditedFrom (s.views.cell r).productPriceField.text price) :
      ViewEffect s r e (withInputs (s.views.cell r) name price discount description isOn)
  | toggled (hr : r = s.detail) : ViewEffect s r .editPressed
      ((s.views.cell r).editPressed s.currentCategory s.selected)
  | labelled (label : Label) :
      ViewEffect s r .savePressed { s.views.cell r with requiredLabel := label }
  | saved {n : ℕ} {q : Request} {v : ProductDetailView} {p : Product}
      (hq : s.requests[n]? = some q) (hr : r = q.view)
      (hv : (s.views.cell r).saveSucceeded s.selected = some (v, p)) :
      ViewEffect s r (.saveCompleted n true) v
  | reset {n : ℕ} : ViewEffect s r (.deleteCompleted n true) (s.views.cell r).resetForm

/-- A view after a step: one that was just drawn, or an older one. -/
def Shows (s t : App) (r : Ref) (e : Event) : Prop :=
  (¬ s.views.Live r ∧
      ∃ currentCategory p, t.views.cell r = ProductDetailView.draw {} currentCategory p) ∨
    (s.views.Live r ∧ ViewEffect s r e (t.views.cell r))

theorem viewEffect_modify {r : Ref} (q : Ref) (f : ProductDetailView → ProductDetailView)
    (h : r = q → ViewEffect s r e (f (s.views.cell r))) :
    ViewEffect s r e ((s.views.modify q f).cell r) := by
  by_cases hr : r = q
  · have heffect := h hr
    subst hr
    rw [Heap.modify_cell_self]
    exact heffect
  · rw [Heap.modify_cell_of_ne _ _ hr]
    exact .kept

theorem viewEffect_updateDetail {r : Ref} {f : ProductDetailView → ProductDetailView}
    (h : r = s.detail → ViewEffect s r e (f (s.views.cell r))) :
    ViewEffect s r e ((s.updateDetail f).views.cell r) :=
  viewEffect_modify s.detail f h

theorem shows_drawDetail (u : App) (hu : u.views = s.views) {r : Ref}
    (hr : u.drawDetail.views.Live r) : Shows s u.drawDetail r e := by
  rcases Nat.lt_succ_iff_lt_or_eq.mp hr with hold | rfl
  · refine Or.inr ⟨hu ▸ hold, ?_⟩
    have hcell : u.drawDetail.views.cell r = u.views.cell r := Heap.alloc_cell_old _ _ hold
    rw [hcell, hu]
    exact .kept
  · refine Or.inl ⟨?_, u.currentCategory, u.selected, Heap.alloc_cell_new _ _⟩
    rw [hu]
    exact Nat.lt_irrefl _

theorem step_view (h : step F s e = some t) {r : Ref} (hr : t.views.Live r) :
    Shows s t r e := by
  cases step_effect h with
  | opened myString =>
    exact shows_drawDetail (s := s) { s with
      currentCategory := F.capitalized myString
      list := ListScreen.viewDidLoad s.list.heap
      isPresented := true } rfl hr
  | @selected row p => exact shows_drawDetail (s := s) { s with selectedProduct := p } rfl hr
  | listed | exited | alerted | cancelled | deleteSent | saveFailed | deleteFailed =>
    exact Or.inr ⟨hr, .kept⟩
  | @rejected v _ hv =>
    obtain ⟨label, hlabel⟩ := ProductDetailView.savePressed_label hv
    refine Or.inr ⟨hr, viewEffect_modify s.detail (fun _ => v) (fun hd => ?_)⟩
    rw [hlabel, hd]
    exact .labelled label
  | @saveSent v _ _ hv =>
    obtain ⟨label, hlabel⟩ := ProductDetailView.savePressed_label hv
    refine Or.inr ⟨hr, viewEffect_modify s.detail (fun _ => v) (fun hd => ?_)⟩
    rw [hlabel, hd]
    exact .labelled label
  | @saveDone _ q v _ _ hq hv =>
    exact Or.inr ⟨hr, viewEffect_modify q.view (fun _ => v) (fun hd => .saved hq hd (hd ▸ hv))⟩
  | @deleteDone _ q =>
    exact Or.inr ⟨hr, viewEffect_modify q.view ProductDetailView.resetForm (fun _ => .reset)⟩
  | form he =>
    cases he with
    | editPressed =>
      obtain ⟨_, h⟩ := guarded_eq_some.mp h
      rw [← Option.some.inj h]
      exact Or.inr ⟨hr, viewEffect_updateDetail ViewEffect.toggled⟩
    | editName text =>
      obtain ⟨_, h⟩ := guarded_eq_some.mp h
      rw [← Option.some.inj h]
      refine Or.inr ⟨hr, viewEffect_updateDetail (fun _ => ?_)⟩
      exact .typed (.editName text) text _ _ _ _ (.refl _)
    | editPrice location length string =>
      obtain ⟨⟨_, _, hstring⟩, h⟩ := guarded_eq_some.mp h
      rw [← Option.some.inj h]
      refine Or.inr ⟨hr, viewEffect_updateDetail (fun _ => ?_)⟩
      exact .typed (.editPrice location length string) _
        (replaceCharacters _ location length string) _ _ _ (editedFrom_replaceCharacters hstring)
    | editDiscount location length string =>
      obtain ⟨_, h⟩ := guarded_eq_some.mp h
      rw [← Option.some.inj h]
      refine Or.inr ⟨hr, viewEffect_updateDetail (fun _ => ?_)⟩
      exact .typed (.editDiscount location length string) _ _
        (replaceCharacters _ location length string) _ _ (.refl _)
    | editDescription text =>
      obtain ⟨_, h⟩ := guarded_eq_some.mp h
      rw [← Option.some.inj h]
      refine Or.inr ⟨hr, viewEffect_updateDetail (fun _ => ?_)⟩
      exact .typed (.editDescription text) _ _ _ text _ (.refl _)
    | switchAvailability isOn =>
      obtain ⟨_, h⟩ := guarded_eq_some.mp h
      rw [← Option.some.inj h]
      refine Or.inr ⟨hr, viewEffect_updateDetail (fun _ => ?_)⟩
      exact .typed (.switchAvailability isOn) _ _ _ _ isOn (.refl _)

/-- Only form events change what the inputs of an existing view denote. -/
theorem step_formValues (h : step F s e = some t) (he : ¬ TouchesForm e) {r : Ref}
    (hr : s.views.Live r) : (t.views.cell r).formValues = (s.views.cell r).formValues := by
  rcases step_view h (Nat.lt_of_lt_of_le hr (step_views_le h)) with ⟨hnew, _⟩ | ⟨_, heffect⟩
  · exact absurd hr hnew
  · generalize t.views.cell r = v at heffect
    cases heffect with
    | kept => rfl
    | labelled => rfl
    | reset => rfl
    | typed hform => exact absurd hform he
    | toggled => exact absurd .editPressed he
    | saved _ _ hv =>
      obtain ⟨x, _, rfl, _⟩ := ProductDetailView.saveSucceeded_inv hv
      rfl

/-- What every drawn view satisfies and no step breaks holds of the views of a run. -/
theorem run_view {P : ProductDetailView → Prop} {es : List Event}
    (hdraw : ∀ currentCategory p, P (ProductDetailView.draw {} currentCategory p))
    (hstep : ∀ s r e v, P (s.views.cell r) → ViewEffect s r e v → P v)
    (h : run (step F) launch es = some s) {r : Ref} (hr : s.views.Live r) :
    P (s.views.cell r) := by
  refine run_invariant (step F) (P := fun s => ∀ r, s.views.Live r → P (s.views.cell r))
    ?_ ?_ h r hr
  · intro r hr
    exact absurd hr (Nat.not_lt_zero r)
  · intro t e u _ ht hu r hr
    rcases step_view hu hr with ⟨_, currentCategory, p, hcell⟩ | ⟨hlive, heffect⟩
    · rw [hcell]
      exact hdraw currentCategory p
    · exact hstep t r e _ (ht r hlive) heffect

end MiraclesAdmin.ViewSteps
