import MiraclesAdmin.AddPopup
import MiraclesAdmin.ViewSteps

/-!
Saving what the price filter let through. Both forms pass the text of the price field
to `Int(_:)` and unwrap the result, so a form that passes the guards is saved with the
number its price text denotes exactly when that text is readable.
-/
namespace MiraclesAdmin.PriceFilter

open SwiftText Transition ObjectHeap ProductRecords PriceTexts ProductForm
open AddPopup (AddProductView)
open DetailView (ProductDetailView)

/-- Saving does not trap, and the price it sends is the number the text denotes. -/
def SavesNumber {V : Type} (saved : Option (V × Option FirebaseValue)) (text : String) : Prop :=
  ∃ v value n, saved = some (v, some value) ∧ value.child "price" = some (.number n) ∧
    Denotes text n

/-- A popup whose price field was edited from the empty text and that passes the guards. -/
structure AddForm where
  view : AddProductView
  currentCategory : String
  edited : EditedFrom "" view.productPriceField.text
  guards : view.failedGuard = none

/-- A detail view whose price field was edited from the price of a product and that
passes the guards. -/
structure DetailForm where
  price : ℤ
  view : ProductDetailView
  currentCategory : String
  selectedProduct : Product
  edited : EditedFrom (stringOfInt price) view.productPriceField.text
  guards : view.failedGuard = none

theorem price_ne_empty {name price description : String}
    (h : failedGuard name price description = none) : price ≠ "" := by
  intro hempty
  subst hempty
  unfold failedGuard at h
  split at h <;> simp at h

/-- A form that sends the dictionary of its inputs saves the number of the price text
exactly when that text is readable. -/
theorem savesNumber_iff {V : Type} {saved : Option (V × Option FirebaseValue)}
    {name displayPicture description price : String} {availability : Bool}
    {currentCategory : String} (hsends : saved.map Prod.snd = (productDictionary name
      displayPicture description price availability currentCategory).map some)
    (hchars : PriceCharacters price) (hne : price ≠ "") :
    SavesNumber saved price ↔ Readable price := by
  rw [← reads_number_iff hchars hne]
  unfold SavesNumber
  unfold productDictionary at hsends
  cases hread : intOfString price with
  | none =>
    rw [hread] at hsends
    have hnone : saved = none := Option.map_eq_none_iff.mp hsends
    simp [hnone]
  | some n =>
    rw [hread] at hsends
    obtain ⟨⟨v, sent⟩, hsaved, hsent⟩ := Option.map_eq_some_iff.mp hsends
    cases hsent
    constructor
    · intro hsaves
      obtain ⟨_, _, m, hvalue, hprice, hdenotes⟩ := hsaves
      cases hsaved.symm.trans hvalue
      cases hprice
      exact ⟨n, rfl, hdenotes⟩
    · intro hreads
      obtain ⟨_, hn, hdenotes⟩ := hreads
      cases hn
      exact ⟨v, _, n, hsaved, rfl, hdenotes⟩

theorem AddForm.saves_iff (f : AddForm) :
    SavesNumber (f.view.savePressed f.currentCategory) f.view.productPriceField.text ↔
      Readable f.view.productPriceField.text := by
  have hsends : (f.view.savePressed f.currentCategory).map Prod.snd =
      (f.view.newProductDictionary f.currentCategory).map some := by
    unfold AddProductView.savePressed
    rw [f.guards]
    cases f.view.newProductDictionary f.currentCategory <;> rfl
  exact savesNumber_iff hsends (f.edited.priceCharacters priceCharacters_empty)
    (price_ne_empty f.guards)

theorem DetailForm.saves_iff (f : DetailForm) :
    SavesNumber (f.view.savePressed f.currentCategory f.selectedProduct)
        f.view.productPriceField.text ↔
      Readable f.view.productPriceField.text := by
  have hsends : (f.view.savePressed f.currentCategory f.selectedProduct).map Prod.snd =
      (f.view.newProductDictionary f.currentCategory f.selectedProduct).map some := by
    unfold ProductDetailView.savePressed
    rw [f.guards]
    cases f.view.newProductDictionary f.currentCategory f.selectedProduct <;> rfl
  exact savesNumber_iff hsends
    (f.edited.priceCharacters (priceCharacters_stringOfInt f.price)) (price_ne_empty f.guards)

section Popup
open AddPopup

theorem step_popupEdited {s t : Session} {e : Event} (h : step s e = some t) :
    EditedFrom s.popup.productPriceField.text t.popup.productPriceField.text := by
  cases e with
  | editPrice location length string =>
    obtain ⟨⟨_, hstring⟩, h⟩ := guarded_eq_some.mp h
    cases h
    exact editedFrom_replaceCharacters hstring
  | savePressed autoId =>
    obtain ⟨_, h⟩ := guarded_eq_some.mp h
    unfold Session.savePressed at h
    cases hsave : s.popup.savePressed s.currentCategory with
    | none => simp [hsave] at h
    | some result =>
      obtain ⟨popup, value⟩ := result
      obtain ⟨⟨label, sent⟩, _, hpopup⟩ := Option.map_eq_some_iff.mp hsave
      cases hpopup
      rw [hsave] at h
      cases value <;> cases h <;> exact .refl _
  | writeCompleted i success =>
    obtain ⟨write, _, rfl⟩ := Option.map_eq_some_iff.mp h
    cases success <;> exact .refl _
  | editName | editDiscount | editDescription | switchAvailability | closePopup =>
    obtain ⟨_, h⟩ := guarded_eq_some.mp h
    cases h
    exact .refl _

/-- In every session of the popup its price text is edited from the empty text. -/
theorem run_popupEdited {currentCategory : String} {stored : CategoryStore.Records}
    {es : List Event} {s : Session} (h : run step (opened currentCategory stored) es = some s) :
    EditedFrom "" s.popup.productPriceField.text :=
  run_invariant step (P := fun s => EditedFrom "" s.popup.productPriceField.text)
    (EditedFrom.refl "") (fun _ _ _ _ hs ht => hs.trans (step_popupEdited ht)) h

end Popup

section Screen
open ProductsScreen ViewSteps

/-- The price text of a form that is shown is edited from the price of a product. -/
def ShownEdited (v : ProductDetailView) : Prop :=
  v.productHeaderHidden = false → ∃ price, EditedFrom (stringOfInt price) v.productPriceField.text

theorem shownEdited_draw (currentCategory : String) (p : Product) :
    ShownEdited (ProductDetailView.draw {} currentCategory p) := by
  unfold ProductDetailView.draw
  intro hshown
  split at hshown
  · rename_i hname
    rw [if_pos hname]
    exact ⟨p.price, .refl _⟩
  · cases hshown

theorem shownEdited_effect {s : App} {r : Ref} {e : Event} {v : ProductDetailView}
    (hs : ShownEdited (s.views.cell r)) (h : ViewEffect s r e v) : ShownEdited v := by
  intro hshown
  cases h with
  | kept => exact hs hshown
  | labelled => exact hs hshown
  | reset => cases hshown
  | typed _ _ _ _ _ _ hprice =>
    obtain ⟨price, hedited⟩ := hs hshown
    exact ⟨price, hedited.trans hprice⟩
  | toggled =>
    cases hedit : (s.views.cell r).editState with
    | false =>
      rw [ProductDetailView.editPressed_of_not_editing hedit] at hshown ⊢
      exact hs hshown
    | true =>
      rw [ProductDetailView.editPressed_of_editing hedit]
      exact ⟨s.selected.price, .refl _⟩
  | saved _ _ hv =>
    obtain ⟨x, _, rfl, _⟩ := ProductDetailView.saveSucceeded_inv hv
    exact hs hshown

/-- In every run of the products screen the shown forms have edited prices. -/
theorem run_shownEdited {F : Foundation} {es : List Event} {s : App}
    (h : run (step F) launch es = some s) {r : Ref} (hr : s.views.Live r) :
    ShownEdited (s.views.cell r) :=
  run_view shownEdited_draw (fun _ _ _ _ => shownEdited_effect) h hr

end Screen

/-- So in every session of the popup, and in every run of the products screen for the
forms it shows, a save that passes the guards is of the number its price text denotes
exactly when that text is readable. -/
theorem reached_saves_iff (F : Foundation) :
    (∀ currentCategory stored es s,
      run AddPopup.step (AddPopup.opened currentCategory stored) es = some s →
      s.popup.failedGuard = none →
      (SavesNumber (s.popup.savePressed s.currentCategory) s.popup.productPriceField.text ↔
        Readable s.popup.productPriceField.text)) ∧
    ∀ es s r, run (ProductsScreen.step F) ProductsScreen.launch es = some s → s.views.Live r →
      (s.views.cell r).productHeaderHidden = false → (s.views.cell r).failedGuard = none →
      (SavesNumber ((s.views.cell r).savePressed s.currentCategory s.selected)
          (s.views.cell r).productPriceField.text ↔
        Readable (s.views.cell r).productPriceField.text) := by
  refine ⟨?_, ?_⟩
  · intro currentCategory stored es s h hguards
    exact AddForm.saves_iff ⟨s.popup, s.currentCategory, run_popupEdited h, hguards⟩
  · intro es s r h hr hshown hguards
    obtain ⟨price, hedited⟩ := run_shownEdited h hr hshown
    exact DetailForm.saves_iff
      ⟨price, s.views.cell r, s.currentCategory, s.selected, hedited, hguards⟩

/-- A form of either kind that passes the guards is saved with the number its price text
denotes exactly when the text is readable, whatever edits the filter let through. -/
theorem saves_number_iff (f : AddForm) (g : DetailForm) :
    (SavesNumber (f.view.savePressed f.currentCategory) f.view.productPriceField.text ↔
      Readable f.view.productPriceField.text) ∧
    (SavesNumber (g.view.savePressed g.currentCategory g.selectedProduct)
        g.view.productPriceField.text ↔
      Readable g.view.productPriceField.text) :=
  ⟨f.saves_iff, g.saves_iff⟩

/-- Four in Arabic-Indic digits is typed into the price field of the popup. -/
def arabicFour : AddForm where
  view := {
    productNameField := { text := "Opal Ring" }
    productPriceField := { text := "٤" }
    productDescriptionField := { text := "blue" } }
  currentCategory := "Rings"
  edited := ⟨[⟨0, 0, "٤"⟩], by decide⟩
  guards := rfl

/-- The filter lets the digit through, and saving traps. -/
theorem arabic_four_traps :
    ¬ ((∀ f : AddForm,
        SavesNumber (f.view.savePressed f.currentCategory) f.view.productPriceField.text) ∧
      (∀ f : DetailForm,
        SavesNumber (f.view.savePressed f.currentCategory f.selectedProduct)
          f.view.productPriceField.text)) := by
  intro h
  obtain ⟨_, _, _, hsent, _⟩ := h.1 arabicFour
  cases hsent

end MiraclesAdmin.PriceFilter
