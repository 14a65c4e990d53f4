import MiraclesAdmin.ScreenSteps

/-!
The product objects a screen can use: those it lists, and the selected one. A step
lists nothing new but what was just read from a delivered dictionary, and selects
nothing but a listed object or a blank one. So all of them exist, and a property of
the delivered products that identity decides holds of all of them.
-/
namespace MiraclesAdmin.ScreenObjects

open SwiftText Transition ObjectHeap ProductRecords ProductForm DetailView
open ProductsScreen ScreenSteps
open ProductList hiding step

/-- The records that an event delivers to the screen. -/
def delivered : Event → List (String × FirebaseValue)
  | .list (.valueObserved snapshot) => snapshot.asDictionary.getD []
  | _ => []

/-- The keys of a delivered dictionary are not empty. -/
def KeyedDelivery (e : Event) : Prop := ∀ record ∈ delivered e, record.1 ≠ ""

instance (e : Event) : Decidable (KeyedDelivery e) :=
  inferInstanceAs (Decidable (∀ record ∈ delivered e, record.1 ≠ ""))

variable {F : Foundation} {s t : App} {e : Event}

def Listed (l : ListScreen) (r : Ref) : Prop :=
  r ∈ l.table.productsArray ∨ r ∈ l.table.filteredSearch

/-- What is listed after a step was listed before, or was just read. -/
theorem listStep_listed {l m : ListScreen} {e : ListEvent} (h : ProductList.step F l e = some m)
    {r : Ref} (hr : Listed m r) :
    Listed l r ∨ (m.heap.Live r ∧
      ∃ record ∈ delivered (.list e), readProduct record.1 record.2 = some (m.heap.cell r)) := by
  cases e with
  | valueObserved snapshot =>
    rcases ListScreen.valueObserved_cases h with ⟨_, rfl⟩ | ⟨all, heap, refs, hall, hread, rfl⟩
    · exact Or.inl hr
    · rcases hr with hr | hr
      · obtain ⟨hlive, record, hrecord, hp⟩ := readProducts_origin hread hr
        refine Or.inr ⟨hlive, record, ?_, hp⟩
        change record ∈ snapshot.asDictionary.getD []
        rw [hall]
        exact hrecord
      · exact Or.inl (Or.inr hr)
  | textDidChange searchText =>
    cases h
    rcases hr with hr | hr
    · exact Or.inl (Or.inl hr)
    · exact Or.inl (Or.inl (List.mem_of_mem_filter hr))
  | searchBarTextDidBeginEditing | searchBarTextDidEndEditing | searchBarCancelButtonClicked
  | searchBarSearchButtonClicked =>
    cases h
    exact Or.inl hr

theorem prepare_listed {l : ListScreen} {row : ℕ} {r : Ref} (h : l.prepare row = some r) :
    Listed l r := by
  unfold ListScreen.prepare at h
  split at h
  · exact Or.inr (List.mem_of_getElem? h)
  · exact Or.inl (List.mem_of_getElem? h)

theorem step_listed (h : step F s e = some t) {r : Ref} (hr : Listed t.list r) :
    Listed s.list r ∨ (t.list.heap.Live r ∧
      ∃ record ∈ delivered e, readProduct record.1 record.2 = some (t.list.heap.cell r)) := by
  cases step_effect h with
  | opened => simp [App.openCategory, App.drawDetail, ListScreen.viewDidLoad, Listed] at hr
  | listed _ hl => exact listStep_listed hl hr
  | selected | exited | form | rejected | saveSent | alerted | cancelled | deleteSent | saveFailed
  | saveDone | deleteFailed | deleteDone => exact Or.inl hr

/-- The object selected after a step was selected or listed before, or is blank. -/
theorem step_selected (h : step F s e = some t) :
    t.selectedProduct = s.selectedProduct ∨ Listed s.list t.selectedProduct ∨
      (t.list.heap.Live t.selectedProduct ∧ t.selected = Product.blank) := by
  cases step_effect h with
  | selected _ _ hr => exact Or.inr (Or.inl (prepare_listed hr))
  | exited => exact Or.inr (Or.inr ⟨Heap.alloc_live_new _ _, Heap.alloc_cell_new _ _⟩)
  | deleteDone => exact Or.inr (Or.inr ⟨Heap.alloc_live_new _ _, Heap.alloc_cell_new _ _⟩)
  | opened | listed | form | rejected | saveSent | alerted | cancelled | deleteSent | saveFailed
  | saveDone | deleteFailed => exact Or.inl rfl

/-- The objects the screen refers to exist. -/
structure Sound (s : App) : Prop where
  selected : s.list.heap.Live s.selectedProduct
  listed : ∀ r, Listed s.list r → s.list.heap.Live r
  detail : s.isPresented = true → s.views.Live s.detail
  alerts : ∀ w ∈ s.alerts, s.views.Live w
  requests : ∀ q ∈ s.requests, s.views.Live q.view

theorem sound_launch : Sound launch where
  selected := Nat.zero_lt_one
  listed r hr := by simp [launch, Listed] at hr
  detail h := Bool.noConfusion h
  alerts w hw := by simp [launch] at hw
  requests q hq := by simp [launch] at hq

/-- The detail view of an open screen was on it before, or was just drawn. -/
theorem step_detail (h : step F s e = some t) (hp : t.isPresented = true) :
    (s.isPresented = true ∧ t.detail = s.detail) ∨ t.views.Live t.detail := by
  cases step_effect h with
  | opened => exact Or.inr (Heap.alloc_live_new _ _)
  | selected => exact Or.inr (Heap.alloc_live_new _ _)
  | exited => exact Bool.noConfusion hp
  | listed | form | rejected | saveSent | alerted | cancelled | deleteSent | saveFailed
  | saveDone | deleteFailed | deleteDone => exact Or.inl ⟨hp, rfl⟩

theorem step_alerts (h : step F s e = some t) {w : Ref} (hw : w ∈ t.alerts) :
    w ∈ s.alerts ∨ (s.isPresented = true ∧ w = s.detail) := by
  cases step_effect h with
  | alerted hf =>
    rcases List.mem_append.mp hw with hw | hw
    · exact Or.inl hw
    · exact Or.inr ⟨hf.1, List.mem_singleton.mp hw⟩
  | cancelled | deleteSent => exact Or.inl (List.mem_of_mem_erase hw)
  | opened | listed | selected | exited | form | rejected | saveSent | saveFailed | saveDone
  | deleteFailed | deleteDone => exact Or.inl hw

/-- The view that sends a request exists. -/
theorem view_live_of_sentFrom {q : Request} (hq : SentFrom s q) (hs : Sound s) :
    s.views.Live q.view := by
  cases hw : q.write with
  | updateChildValues value =>
    obtain ⟨hview, hp, _⟩ := hq.value value hw
    rw [hview]
    exact hs.detail hp
  | removeValue => exact hs.alerts _ (hq.alert hw)

theorem step_sound (hs : Sound s) (h : step F s e = some t) : Sound t := by
  have hobjects : s.list.heap.next ≤ t.list.heap.next := (step_keepsIdentity h).1
  have hviews : ∀ w, s.views.Live w → t.views.Live w :=
    fun w hw => Nat.lt_of_lt_of_le hw (step_views_le h)
  refine ⟨?_, ?_, ?_, ?_, ?_⟩
  · rcases step_selected h with hsame | hlisted | ⟨hlive, _⟩
    · rw [hsame]
      exact Nat.lt_of_lt_of_le hs.selected hobjects
    · exact Nat.lt_of_lt_of_le (hs.listed _ hlisted) hobjects
    · exact hlive
  · intro r hr
    rcases step_listed h hr with hold | ⟨hlive, _⟩
    · exact Nat.lt_of_lt_of_le (hs.listed r hold) hobjects
    · exact hlive
  · intro hp
    rcases step_detail h hp with ⟨hopen, hsame⟩ | hlive
    · rw [hsame]
      exact hviews _ (hs.detail hopen)
    · exact hlive
  · intro w hw
    rcases step_alerts h hw with hold | ⟨hopen, rfl⟩
    · exact hviews w (hs.alerts w hold)
    · exact hviews _ (hs.detail hopen)
  · intro q hq
    rcases step_requests h with hsame | ⟨q', hnew, hfrom⟩
    · exact hviews _ (hs.requests q (hsame ▸ hq))
    · rw [hnew] at hq
      rcases List.mem_append.mp hq with hold | hlast
      · exact hviews _ (hs.requests q hold)
      · rw [List.mem_singleton.mp hlast]
        exact hviews _ (view_live_of_sentFrom hfrom hs)

theorem run_sound {es : List Event} (h : run (step F) launch es = some s) : Sound s :=
  run_invariant (step F) sound_launch (fun _ _ _ _ ht hu => step_sound ht hu) h

/-- The objects a screen can still use. -/
def Known (s : App) (r : Ref) : Prop := Listed s.list r ∨ r = s.selectedProduct

theorem Sound.live_known (hs : Sound s) {r : Ref} (hr : Known s r) : s.list.heap.Live r := by
  rcases hr with hr | rfl
  · exact hs.listed r hr
  · exact hs.selected

/-- A property decided by the identity of products, which blank and delivered products
have, passes from the known objects to those known after a step. -/
theorem step_known {P : Product → Prop}
    (hidentity : ∀ p q : Product, q.key = p.key → q.displayPicture = p.displayPicture → P p → P q)
    (hblank : P Product.blank) (hs : Sound s)
    (hdelivered : ∀ record ∈ delivered e, ∀ p, readProduct record.1 record.2 = some p → P p)
    (hknown : ∀ r, Known s r → P (s.list.heap.cell r)) (h : step F s e = some t) :
    ∀ r, Known t r → P (t.list.heap.cell r) := by
  have hkept : ∀ r, Known s r → P (t.list.heap.cell r) := by
    intro r hr
    obtain ⟨hkey, hpicture⟩ := (step_keepsIdentity h).2 r (hs.live_known hr)
    exact hidentity _ _ hkey hpicture (hknown r hr)
  rintro r (hr | rfl)
  · rcases step_listed h hr with hold | ⟨_, record, hrecord, hread⟩
    · exact hkept r (Or.inl hold)
    · exact hdelivered record hrecord _ hread
  · rcases step_selected h with hsame | hlisted | ⟨_, hnew⟩
    · exact hkept _ (Or.inr hsame)
    · exact hkept _ (Or.inl hlisted)
    · have hcell : t.list.heap.cell t.selectedProduct = Product.blank := hnew
      rw [hcell]
      exact hblank

end MiraclesAdmin.ScreenObjects
