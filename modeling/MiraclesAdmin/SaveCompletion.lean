import MiraclesAdmin.ScreenObjects
import MiraclesAdmin.ViewSteps

/-!
What the completion of a save writes. The closure keeps only its view: it copies
what the inputs of that view denote when it runs into the product `selectedProduct`
refers to when it runs. Between sending and completion the inputs can be edited and
another product selected, so the effect is exact when neither shows at the end.
-/
namespace MiraclesAdmin.SaveCompletion

open SwiftText Transition ObjectHeap ProductRecords ProductForm DetailView
open ProductsScreen ScreenSteps ScreenObjects ViewSteps
open ProductList hiding step

/-- A save sent in a run from launch, with the run up to the arrival of its
completion. The values are those the form denotes when the save is sent. -/
structure SaveInFlight (F : Foundation) where
  before : List Event
  ready : App
  sent : App
  between : List Event
  arrived : App
  request : Request
  values : FormValues
  run_before : run (step F) launch before = some ready
  step_send : step F ready .savePressed = some sent
  issued : sent.requests = ready.requests ++ [request]
  values_eq : ready.detailView.formValues = some values
  run_between : run (step F) sent between = some arrived
  pending : ready.requests.length ∈ arrived.pending

namespace SaveInFlight

variable {F : Foundation}

/-- The object `selectedProduct` referred to when the save was sent. -/
def product (f : SaveInFlight F) : Ref := f.ready.selectedProduct

/-- The view that sent the save, as it is when the completion arrives. -/
def view (f : SaveInFlight F) : ProductDetailView := f.arrived.views.cell f.ready.detail

/-- The arrival of the success. -/
def completed (f : SaveInFlight F) : Option App :=
  step F f.arrived (.saveCompleted f.ready.requests.length true)

/-- The completion does not trap, sets the four fields of the product to the values
that were sent, and changes no other product object. -/
def CompletesExactly (f : SaveInFlight F) : Prop :=
  ∃ done, f.completed = some done ∧
    done.list.heap.cell f.product = setValues (f.arrived.list.heap.cell f.product) f.values ∧
    ∀ r, r ≠ f.product → done.list.heap.cell r = f.arrived.list.heap.cell r

/-- The product is still selected and its form still denotes the values sent. -/
def StillShown (f : SaveInFlight F) : Prop :=
  f.arrived.selectedProduct = f.product ∧ f.view.formValues = some f.values

/-- Another object is selected, but it already has the values the form denotes, and
the product already has those that were sent. -/
def WritesNothing (f : SaveInFlight F) : Prop :=
  f.arrived.selectedProduct ≠ f.product ∧
  setValues (f.arrived.list.heap.cell f.product) f.values = f.arrived.list.heap.cell f.product ∧
  ∃ x, f.view.formValues = some x ∧ setValues f.arrived.selected x = f.arrived.selected

theorem sentFrom (f : SaveInFlight F) : SentFrom f.ready f.request := by
  rcases step_requests f.step_send with heq | ⟨q, heq, hq⟩
  · have hlength := congrArg List.length (heq.symm.trans f.issued)
    simp at hlength
  · have hsame : q = f.request := by
      simpa using List.append_cancel_left (heq.symm.trans f.issued)
    exact hsame ▸ hq

/-- The save carries the values the form denoted. -/
theorem request_write (f : SaveInFlight F) :
    f.request.view = f.ready.detail ∧ f.request.write = .updateChildValues
      (productRecord f.values f.ready.selected.displayPicture f.ready.currentCategory) := by
  obtain ⟨hview, _, v, hv, hwrite⟩ := savePressed_request f.step_send f.issued
  cases hv.symm.trans f.values_eq
  exact ⟨hview, hwrite⟩

/-- The request stays at its place in the log until the completion arrives. -/
theorem request_logged (f : SaveInFlight F) :
    f.arrived.requests[f.ready.requests.length]? = some f.request := by
  have hprefix : f.sent.requests <+: f.arrived.requests :=
    log_grows (requests_appends F) f.run_between
  have hsent : f.sent.requests[f.ready.requests.length]? = some f.request := by
    rw [f.issued]
    simp
  obtain ⟨later, hlater⟩ := hprefix
  rw [← hlater, List.getElem?_append_left]
  · exact hsent
  · rw [f.issued]
    simp

theorem completed_eq (f : SaveInFlight F) :
    f.completed = ({ f.arrived with
        pending := f.arrived.pending.erase f.ready.requests.length }).saveCompleted
      f.ready.detail true := by
  obtain ⟨hview, hwrite⟩ := f.request_write
  have hrequest : f.request = ⟨f.ready.detail, f.request.category, f.request.key,
      .updateChildValues (productRecord f.values f.ready.selected.displayPicture
        f.ready.currentCategory)⟩ := by
    rw [← hview, ← hwrite]
  unfold completed
  simp only [step]
  rw [f.request_logged, hrequest]
  exact if_pos f.pending

/-- The completion traps exactly when the price is no number any more; otherwise it
writes what the form denotes into the object selected by then. -/
theorem completed_heap (f : SaveInFlight F) :
    f.completed.map (fun done => done.list.heap) =
      f.view.formValues.map (fun x => f.arrived.list.heap.modify f.arrived.selectedProduct
        (fun _ => setValues f.arrived.selected x)) := by
  rw [completed_eq]
  unfold App.saveCompleted
  simp only [if_true, Option.map_map, Function.comp_def]
  change ((f.view.saveSucceeded f.arrived.selected).map fun vp =>
    f.arrived.list.heap.modify f.arrived.selectedProduct (fun _ => vp.2)) = _
  rw [ProductDetailView.saveSucceeded_eq, Option.map_map]
  rfl

theorem not_exact_of_trap (f : SaveInFlight F) (h : f.view.formValues = none) :
    ¬ f.CompletesExactly := by
  intro hexact
  obtain ⟨done, hdone, _⟩ := hexact
  have hheap := f.completed_heap
  rw [hdone, h] at hheap
  simp at hheap

theorem completesExactly_iff_heap (f : SaveInFlight F) {x : FormValues}
    (h : f.view.formValues = some x) :
    f.CompletesExactly ↔
      (f.arrived.list.heap.modify f.arrived.selectedProduct
          (fun _ => setValues f.arrived.selected x)).cell f.product =
        setValues (f.arrived.list.heap.cell f.product) f.values ∧
      ∀ r, r ≠ f.product → (f.arrived.list.heap.modify f.arrived.selectedProduct
          (fun _ => setValues f.arrived.selected x)).cell r = f.arrived.list.heap.cell r := by
  have hheap := f.completed_heap
  rw [h, Option.map_some] at hheap
  obtain ⟨done, hdone, hwritten⟩ := Option.map_eq_some_iff.mp hheap
  rw [← hwritten]
  constructor
  · intro hcompletes
    obtain ⟨done', hdone', hexact⟩ := hcompletes
    cases hdone.symm.trans hdone'
    exact hexact
  · exact fun hexact => ⟨done, hdone, hexact⟩

/-- While the product is still selected, the completion is exact when the form still
denotes the values sent. -/
theorem completesExactly_iff_of_selected (f : SaveInFlight F) {x : FormValues}
    (h : f.view.formValues = some x) (hsel : f.arrived.selectedProduct = f.product) :
    f.CompletesExactly ↔ x = f.values := by
  have hcell : f.arrived.selected = f.arrived.list.heap.cell f.product := by
    unfold App.selected
    rw [hsel]
  rw [f.completesExactly_iff_heap h, hsel, hcell, Heap.modify_cell_self]
  constructor
  · intro hexact
    obtain ⟨hvalues, _⟩ := hexact
    exact setValues_injective _ hvalues
  · rintro rfl
    exact ⟨rfl, fun r hr => Heap.modify_cell_of_ne _ _ hr⟩

/-- Once another object is selected, the completion is exact only when it has nothing
to change. -/
theorem completesExactly_iff_of_replaced (f : SaveInFlight F) {x : FormValues}
    (h : f.view.formValues = some x) (hsel : f.arrived.selectedProduct ≠ f.product) :
    f.CompletesExactly ↔
      setValues (f.arrived.list.heap.cell f.product) f.values =
        f.arrived.list.heap.cell f.product ∧
      setValues f.arrived.selected x = f.arrived.selected := by
  rw [f.completesExactly_iff_heap h, Heap.modify_cell_of_ne _ _ (Ne.symm hsel)]
  constructor
  · intro hexact
    obtain ⟨hproduct, hothers⟩ := hexact
    have hwritten := hothers _ hsel
    rw [Heap.modify_cell_self] at hwritten
    exact ⟨hproduct.symm, hwritten⟩
  · intro hnothing
    obtain ⟨hproduct, hwritten⟩ := hnothing
    refine ⟨hproduct.symm, ?_⟩
    intro r _
    by_cases hr : r = f.arrived.selectedProduct
    · subst hr
      rw [Heap.modify_cell_self, hwritten]
      rfl
    · exact Heap.modify_cell_of_ne _ _ hr

/-- The completion of a save is exact and local exactly when its product is still
selected and the form still denotes the values sent, or when nothing is changed by
what it writes and nothing had to be. -/
theorem completes_exactly_iff (f : SaveInFlight F) :
    f.CompletesExactly ↔ f.StillShown ∨ f.WritesNothing := by
  unfold StillShown WritesNothing
  cases hx : f.view.formValues with
  | none =>
    refine iff_of_false (f.not_exact_of_trap hx) ?_
    rintro (⟨_, h⟩ | ⟨_, _, x, h, _⟩) <;> simp at h
  | some x =>
    by_cases hsel : f.arrived.selectedProduct = f.product
    · rw [f.completesExactly_iff_of_selected hx hsel]
      simp [hsel]
    · rw [f.completesExactly_iff_of_replaced hx hsel]
      simp [hsel]

theorem sound_ready (f : SaveInFlight F) : Sound f.ready := run_sound f.run_before

/-- Pressing Save changes neither the selected object nor the inputs. -/
theorem sent_unchanged (f : SaveInFlight F) :
    f.sent.selectedProduct = f.product ∧ f.sent.views.Live f.ready.detail ∧
      (f.sent.views.cell f.ready.detail).formValues = some f.values := by
  have hpresented : f.ready.isPresented = true :=
    ((f.sentFrom.value _ f.request_write.2).2).1
  have hlive : f.ready.views.Live f.ready.detail := f.sound_ready.detail hpresented
  have hnotForm : ¬ TouchesForm .savePressed := by
    intro h
    cases h
  refine ⟨(step_globals f.step_send id).1, ?_, ?_⟩
  · have hstep := f.step_send
    generalize f.sent = t at hstep
    cases step_effect hstep with
    | form he => cases he
    | rejected => exact hlive
    | saveSent => exact hlive
  · rw [step_formValues f.step_send hnotForm hlive]
    exact f.values_eq

/-- When nothing assigns the globals or edits a form until the completion arrives,
the completion is exact and local. -/
theorem completesExactly_of_untouched (f : SaveInFlight F)
    (h : ∀ e ∈ f.between, ¬ Replaces e ∧ ¬ TouchesForm e) : f.CompletesExactly := by
  obtain ⟨hselected, hlive, hvalues⟩ := f.sent_unchanged
  have hshown : f.StillShown := by
    refine (run_invariant (step F) (P := fun t => t.views.Live f.ready.detail ∧
      t.selectedProduct = f.product ∧ (t.views.cell f.ready.detail).formValues = some f.values)
      ⟨hlive, hselected, hvalues⟩ ?_ f.run_between).2
    intro u e v he hu hv
    obtain ⟨hulive, huselected, huvalues⟩ := hu
    refine ⟨?_, (step_globals hv (h e he).1).1.trans huselected,
      (step_formValues hv (h e he).2 hulive).trans huvalues⟩
    exact Nat.lt_of_lt_of_le hulive (step_views_le hv)
  exact (f.completesExactly_iff_of_selected hshown.2 hshown.1).mpr rfl

/-- The events that neither assign the globals nor edit a form. -/
inductive Harmless : Event → Prop
  | list (e : ListEvent) : Harmless (.list e)
  | savePressed : Harmless .savePressed
  | deletePressed : Harmless .deletePressed
  | alertCancel (view : Ref) : Harmless (.alertCancel view)
  | alertDelete (view : Ref) : Harmless (.alertDelete view)
  | saveCompleted (n : ℕ) (success : Bool) : Harmless (.saveCompleted n success)
  | deleteFailed (n : ℕ) : Harmless (.deleteCompleted n false)

/-- Value events, searches, further presses of Save and Delete, alerts, the completions of
other saves and deletions that fail may come in between. -/
theorem completesExactly_of_harmless (f : SaveInFlight F) (h : ∀ e ∈ f.between, Harmless e) :
    f.CompletesExactly := by
  refine f.completesExactly_of_untouched (fun e he => ?_)
  have hharmless := h e he
  refine ⟨fun hreplaces => ?_, fun htouches => ?_⟩
  · cases hharmless with
    | deleteFailed => exact Bool.noConfusion hreplaces
    | list | savePressed | deletePressed | alertCancel | alertDelete | saveCompleted =>
      exact hreplaces
  · cases hharmless with
    | list | savePressed | deletePressed | alertCancel | alertDelete | saveCompleted
    | deleteFailed => cases htouches

end SaveInFlight

/-- The first ring is edited and saved; before the completion arrives the second
ring is selected. -/
def selectedWhileSaving : SaveInFlight asciiFoundation where
  before := openRings ++ [.selectRow 0, .editPressed]
  ready := _
  sent := _
  between := [.selectRow 1]
  arrived := _
  request := _
  values := ⟨"Silver Ring", "thin", 40, true⟩
  run_before := rfl
  step_send := rfl
  issued := rfl
  values_eq := rfl
  run_between := rfl
  pending := by decide

/-- The second ring takes over the values of the first. -/
theorem selection_while_saving_overwrites :
    ¬ ∀ f : SaveInFlight asciiFoundation, f.CompletesExactly := by
  intro h
  have hexact := (selectedWhileSaving.completesExactly_iff_heap rfl).mp (h selectedWhileSaving)
  have hname := congrArg Product.name (hexact.2 2 (show (2 : ℕ) ≠ 1 by decide))
  exact absurd (show "Silver Ring" = "Gold Ring" from hname) (by decide)

end MiraclesAdmin.SaveCompletion
