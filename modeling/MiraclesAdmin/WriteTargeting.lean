import Mathlib.Data.List.Range
import MiraclesAdmin.ScreenObjects

/-!
Which record a request is aimed at. A request takes category, key and picture from
the globals when it is sent; the form it is sent from was filled when its view was
drawn. The two agree as long as no event in between assigned the globals. A row
selection and the exit button take the view off the screen when they do so, but the
completion of an earlier delete blanks `selectedProduct` below a view that stays.
-/
namespace MiraclesAdmin.WriteTargeting

open SwiftText Transition ObjectHeap ProductRecords ProductForm DetailView
open ProductsScreen ScreenSteps ScreenObjects
open ProductList hiding step

/-- The events that draw a detail view. -/
inductive Draws : Event → Prop
  | openCategory (myString : String) : Draws (.openCategory myString)
  | selectRow (row : ℕ) : Draws (.selectRow row)

/-- The events that take the detail view off the screen. -/
def LeavesDetail : Event → Prop
  | .openCategory _ => True
  | .selectRow _ => True
  | .exitPressed => True
  | _ => False

/-- A request of a run from launch, with the step that drew the view which issued
it and the step that sent it. -/
structure SentRequest (F : Foundation) where
  before : List Event
  opened : App
  draw : Event
  drawn : App
  between : List Event
  ready : App
  send : Event
  sent : App
  request : Request
  keyed : ∀ e ∈ before, KeyedDelivery e
  run_before : run (step F) launch before = some opened
  step_draw : step F opened draw = some drawn
  draws : Draws draw
  run_between : run (step F) drawn between = some ready
  step_send : step F ready send = some sent
  issued : sent.requests = ready.requests ++ [request]
  view_eq : request.view = drawn.detail

namespace SentRequest

variable {F : Foundation}

def IsPartOf (r : SentRequest F) (es : List Event) : Prop :=
  ∃ post, es = r.before ++ r.draw :: (r.between ++ r.send :: post)

/-- The request addresses the record of the product the view was filled from. -/
structure Targeted (r : SentRequest F) : Prop where
  category : r.request.category = r.drawn.currentCategory
  key : r.request.key = r.drawn.selected.key
  nonempty : r.request.key ≠ ""
  picture : ∀ value, r.request.write = .updateChildValues value →
    value.child "displayPicture" = some (.string r.drawn.selected.displayPicture)

/-- The view was drawn by a row selection, and no event since has assigned the
globals: no other selection, no exit, no completion of a successful delete. -/
def Undisturbed (r : SentRequest F) : Prop :=
  (∃ row, r.draw = .selectRow row) ∧ ∀ e ∈ r.between, ¬ Replaces e

/-- The view was on the screen until the request was sent. -/
def Stays (r : SentRequest F) : Prop := ∀ e ∈ r.between, ¬ LeavesDetail e

end SentRequest

variable {F : Foundation} {s t : App} {e : Event}

/-- What the targeting of requests rests on: listed products have keys, and while
no category is open `selectedProduct` is a placeholder. -/
structure Keyed (s : App) : Prop where
  sound : Sound s
  closed : s.isPresented = false → s.selected.key = ""
  listed : ∀ r, Listed s.list r → (s.list.heap.cell r).key ≠ ""

theorem keyed_launch : Keyed launch where
  sound := sound_launch
  closed _ := rfl
  listed r hr := by simp [launch, Listed] at hr

theorem blankSelected_key (s : App) : s.blankSelected.selected.key = "" := by
  have hcell : s.blankSelected.selected = Product.blank := Heap.alloc_cell_new _ _
  rw [hcell]
  rfl

/-- The selected object and its identity outlast every event that does not replace it. -/
theorem step_selected_identity (hs : Sound s) (h : step F s e = some t) (he : ¬ Replaces e) :
    t.selected.key = s.selected.key ∧ t.selected.displayPicture = s.selected.displayPicture := by
  unfold App.selected
  rw [(step_globals h he).1]
  exact (step_keepsIdentity h).2 _ hs.selected

theorem step_keyed (hk : KeyedDelivery e) (hs : Keyed s)
    (h : step F s e = some t) : Keyed t := by
  refine ⟨step_sound hs.sound h, ?_, ?_⟩
  · have hkept : ¬ Replaces e → t.isPresented = s.isPresented →
        t.isPresented = false → t.selected.key = "" := by
      intro he hp hclosed
      rw [(step_selected_identity hs.sound h he).1]
      exact hs.closed (hp ▸ hclosed)
    cases step_effect h with
    | opened => exact fun hclosed => Bool.noConfusion hclosed
    | selected hp => exact fun hclosed => absurd (hp.symm.trans hclosed) (by simp)
    | exited => exact fun _ => blankSelected_key s
    | deleteDone => exact fun _ => blankSelected_key _
    | form he =>
      have hne : ¬ Replaces e := by cases he <;> exact id
      exact hkept hne rfl
    | deleteFailed => exact hkept Bool.noConfusion rfl
    | listed | rejected | saveSent | alerted | cancelled | deleteSent | saveFailed | saveDone =>
      exact hkept id rfl
  · intro r hr
    rcases step_listed h hr with hold | ⟨_, record, hrecord, hread⟩
    · rw [((step_keepsIdentity h).2 r (hs.sound.listed r hold)).1]
      exact hs.listed r hold
    · rw [readProduct_key hread]
      exact hk record hrecord

theorem run_keyed {es : List Event} (hk : ∀ e ∈ es, KeyedDelivery e)
    (h : run (step F) launch es = some s) : Keyed s :=
  run_invariant (step F) keyed_launch
    (fun _ _ _ he ht hu => step_keyed (hk _ he) ht hu) h

/-- Over a run without replacing events the globals still name the same record. -/
theorem run_selected_identity {es : List Event} (hs : Sound s)
    (hes : ∀ e ∈ es, ¬ Replaces e) (h : run (step F) s es = some t) :
    t.currentCategory = s.currentCategory ∧ t.selected.key = s.selected.key ∧
      t.selected.displayPicture = s.selected.displayPicture := by
  refine (run_invariant (step F) (P := fun t => Sound t ∧
    t.currentCategory = s.currentCategory ∧ t.selected.key = s.selected.key ∧
      t.selected.displayPicture = s.selected.displayPicture) ⟨hs, rfl, rfl, rfl⟩ ?_ h).2
  intro u e v he hsame hv
  obtain ⟨hu, hcategory, hkey, hpicture⟩ := hsame
  obtain ⟨hkey', hpicture'⟩ := step_selected_identity hu hv (hes e he)
  exact ⟨step_sound hu hv, (step_globals hv (hes e he)).2.trans hcategory,
    hkey'.trans hkey, hpicture'.trans hpicture⟩

/-- A blank selection stays blank until a row is selected. -/
theorem run_selected_blank {es : List Event} (hs : Sound s) (hkey : s.selected.key = "")
    (hes : ∀ e ∈ es, ¬ LeavesDetail e) (h : run (step F) s es = some t) :
    t.selected.key = "" := by
  refine (run_invariant (step F) (P := fun t => Sound t ∧ t.selected.key = "")
    ⟨hs, hkey⟩ ?_ h).2
  intro u e v he hblank hv
  obtain ⟨hu, hukey⟩ := hblank
  refine ⟨step_sound hu hv, ?_⟩
  by_cases hreplaces : Replaces e
  · cases step_effect hv with
    | deleteDone => exact blankSelected_key _
    | opened => exact absurd trivial (hes _ he)
    | selected => exact absurd trivial (hes _ he)
    | exited => exact absurd trivial (hes _ he)
    | form hform => cases hform <;> exact absurd hreplaces id
    | deleteFailed => exact Bool.noConfusion hreplaces
    | listed | rejected | saveSent | alerted | cancelled | deleteSent | saveFailed | saveDone =>
      exact absurd hreplaces id
  · exact (step_selected_identity hu hv hreplaces).1.trans hukey

theorem step_deleteDone_blank {n : ℕ} (h : step F s (.deleteCompleted n true) = some t) :
    t.selected.key = "" := by
  cases step_effect h with
  | form he => cases he
  | deleteDone => exact blankSelected_key _

namespace SentRequest

theorem keyed_opened (r : SentRequest F) : Keyed r.opened := run_keyed r.keyed r.run_before

theorem sound_drawn (r : SentRequest F) : Sound r.drawn :=
  step_sound r.keyed_opened.sound r.step_draw

theorem sentFrom_ready (r : SentRequest F) : SentFrom r.ready r.request := by
  rcases step_requests r.step_send with heq | ⟨q, heq, hq⟩
  · have hlength := congrArg List.length (heq.symm.trans r.issued)
    simp at hlength
  · have hsame : q = r.request := by
      simpa using List.append_cancel_left (heq.symm.trans r.issued)
    exact hsame ▸ hq

/-- A view drawn by a row selection is filled from a product with a key. -/
theorem drawn_key_of_row (r : SentRequest F) {row : ℕ} (hrow : r.draw = .selectRow row) :
    r.drawn.selected.key ≠ "" := by
  have hstep := r.step_draw
  rw [hrow] at hstep
  generalize r.drawn = d at hstep
  cases step_effect hstep with
  | form he => cases he
  | selected _ _ hr => exact r.keyed_opened.listed _ (prepare_listed hr)

/-- The view drawn when a category is opened is filled from the placeholder. -/
theorem drawn_key_of_open (r : SentRequest F) {myString : String}
    (hopen : r.draw = .openCategory myString) : r.drawn.selected.key = "" := by
  have hstep := r.step_draw
  rw [hopen] at hstep
  generalize r.drawn = d at hstep
  cases step_effect hstep with
  | form he => cases he
  | opened _ hs => exact r.keyed_opened.closed hs

theorem targeted_of_undisturbed (r : SentRequest F) (h : r.Undisturbed) : r.Targeted := by
  obtain ⟨⟨row, hrow⟩, hbetween⟩ := h
  obtain ⟨hcategory, hkey, hpicture⟩ :=
    run_selected_identity r.sound_drawn hbetween r.run_between
  have hsent := r.sentFrom_ready
  refine ⟨hsent.category.trans hcategory, hsent.key.trans hkey, ?_, ?_⟩
  · rw [hsent.key.trans hkey]
    exact r.drawn_key_of_row hrow
  · intro value hvalue
    obtain ⟨_, _, v, _, rfl⟩ := hsent.value value hvalue
    rw [hpicture]
    rfl

/-- A request sent with a blank selection has lost its target. -/
theorem not_targeted_of_blank (r : SentRequest F) (h : r.ready.selected.key = "") :
    ¬ r.Targeted :=
  fun htargeted => htargeted.nonempty (r.sentFrom_ready.key.trans h)

theorem undisturbed_of_targeted (r : SentRequest F) (hstays : r.Stays) (h : r.Targeted) :
    r.Undisturbed := by
  constructor
  · cases hd : r.draw with
    | selectRow row => exact ⟨row, rfl⟩
    | openCategory myString =>
      exact absurd h (r.not_targeted_of_blank (run_selected_blank r.sound_drawn
        (r.drawn_key_of_open hd) hstays r.run_between))
    | _ => exact absurd r.draws (by rw [hd]; intro hdraws; cases hdraws)
  · intro e he hreplaces
    obtain ⟨pre, post, hsplit⟩ := List.append_of_mem he
    have hrun := r.run_between
    rw [hsplit, run_append] at hrun
    obtain ⟨u, hu, hrest⟩ := Option.bind_eq_some_iff.mp hrun
    obtain ⟨v, hv, hpost⟩ := Option.bind_eq_some_iff.mp hrest
    have husound : Sound u :=
      run_invariant (step F) r.sound_drawn (fun _ _ _ _ ht htu => step_sound ht htu) hu
    have hblank : v.selected.key = "" := by
      cases e with
      | deleteCompleted n success =>
        have hsuccess : success = true := hreplaces
        subst hsuccess
        exact step_deleteDone_blank hv
      | openCategory => exact absurd trivial (hstays _ he)
      | selectRow => exact absurd trivial (hstays _ he)
      | exitPressed => exact absurd trivial (hstays _ he)
      | _ => exact absurd hreplaces id
    refine r.not_targeted_of_blank (run_selected_blank (step_sound husound hv) hblank ?_ hpost) h
    exact fun d hd => hstays d (by rw [hsplit]; simp [hd])

end SentRequest

/-- Views are made by drawing events only, one at a time. -/
theorem step_views (h : step F s e = some t) :
    t.views.next = s.views.next ∨
      (Draws e ∧ t.views.next = s.views.next + 1 ∧ t.detail = s.views.next) := by
  cases step_effect h with
  | opened myString => exact Or.inr ⟨.openCategory myString, rfl, rfl⟩
  | selected => exact Or.inr ⟨.selectRow _, rfl, rfl⟩
  | listed | exited | form | rejected | saveSent | alerted | cancelled | deleteSent
  | saveFailed | saveDone | deleteFailed | deleteDone => exact Or.inl rfl

theorem views_appends (F : Foundation) :
    Appends (step F) (fun s => List.range s.views.next) := by
  intro s e t h
  rcases step_views h with heq | ⟨_, heq, _⟩
  · exact Or.inl (congrArg List.range heq)
  · exact Or.inr ⟨s.views.next, (congrArg List.range heq).trans List.range_succ⟩

/-- Every view of a run was drawn by one of its steps. -/
theorem exists_draw {es : List Event} (h : run (step F) launch es = some t) {w : Ref}
    (hw : t.views.Live w) :
    ∃ pre e post u v, es = pre ++ e :: post ∧ run (step F) launch pre = some u ∧
      step F u e = some v ∧ run (step F) v post = some t ∧ Draws e ∧ v.detail = w := by
  obtain ⟨pre, e, post, u, v, hes, hu, hv, hpost, hlog⟩ :=
    log_origin (views_appends F) h (List.mem_range.mpr hw) (by simp [launch])
  refine ⟨pre, e, post, u, v, hes, hu, hv, hpost, ?_⟩
  rcases step_views hv with heq | ⟨hdraws, heq, hdetail⟩
  · rw [heq] at hlog
    simp at hlog
  · rw [heq, List.range_succ] at hlog
    have hlast : u.views.next = w := by simpa using List.append_cancel_left hlog
    exact ⟨hdraws, hdetail.trans hlast⟩

/-- Every request of a run was sent by one of its steps, from a view that an earlier
step drew. -/
theorem exists_sentRequest {es : List Event} (hkeyed : ∀ e ∈ es, KeyedDelivery e)
    (h : run (step F) launch es = some t) {q : Request} (hq : q ∈ t.requests) :
    ∃ r : SentRequest F, r.IsPartOf es ∧ r.request = q := by
  obtain ⟨pre, send, post, ready, sent, rfl, hready, hsent, _, hissued⟩ :=
    log_origin (requests_appends F) h hq (by simp [launch])
  have hfrom : SentFrom ready q := by
    rcases step_requests hsent with heq | ⟨q', heq, hq'⟩
    · rw [heq] at hissued
      simp at hissued
    · have hsame : q' = q := by simpa using List.append_cancel_left (heq.symm.trans hissued)
      exact hsame ▸ hq'
  obtain ⟨before, draw, between, opened, drawn, rfl, hopened, hdrawn, hbetween, hdraws, hview⟩ :=
    exists_draw hready (view_live_of_sentFrom hfrom (run_sound hready))
  exact ⟨⟨before, opened, draw, drawn, between, ready, send, sent, q,
    fun e he => hkeyed e (by simp [he]), hopened, hdrawn, hdraws, hbetween, hsent, hissued,
    hview.symm⟩, ⟨post, by simp⟩, rfl⟩

/-- In every run, every request stems from a drawn view. It addresses the record of
the product that view was filled from if the run is undisturbed between drawing and
sending, and only then if the view was on the screen in between. -/
theorem write_targeting (F : Foundation) (es : List Event) (t : App)
    (hkeyed : ∀ e ∈ es, KeyedDelivery e) (h : run (step F) launch es = some t)
    (q : Request) (hq : q ∈ t.requests) :
    (∃ r : SentRequest F, r.IsPartOf es ∧ r.request = q) ∧
    ∀ r : SentRequest F, r.IsPartOf es → r.request = q →
      (r.Undisturbed → r.Targeted) ∧ (r.Stays → r.Targeted → r.Undisturbed) :=
  ⟨exists_sentRequest hkeyed h hq,
    fun r _ _ => ⟨r.targeted_of_undisturbed, r.undisturbed_of_targeted⟩⟩

/-- The first ring is shown and its price edited and saved. -/
def savedPrice : SentRequest asciiFoundation where
  before := openRings
  opened := _
  draw := .selectRow 0
  drawn := _
  between := [.editPressed, .editPrice 0 2 "45"]
  ready := _
  send := .savePressed
  sent := _
  request := _
  keyed := by decide
  run_before := rfl
  step_draw := rfl
  draws := .selectRow 0
  run_between := rfl
  step_send := rfl
  issued := rfl
  view_eq := rfl

/-- The saved price is written to the ring that was selected. -/
theorem savedPrice_targeted : savedPrice.request.key = "-L1" ∧ savedPrice.Targeted := by
  refine ⟨rfl, ?_⟩
  have htargeting := write_targeting asciiFoundation
    (openRings ++ [.selectRow 0, .editPressed, .editPrice 0 2 "45", .savePressed])
    savedPrice.sent (by decide) rfl savedPrice.request (List.mem_singleton.mpr rfl)
  refine (htargeting.2 savedPrice ⟨[], rfl⟩ rfl).1 ⟨⟨0, rfl⟩, ?_⟩
  simp [savedPrice, Replaces]

/-- The deletion of the first ring completes while the second ring is shown, and the
form of the second ring is saved. -/
def savedAfterDelete : SentRequest asciiFoundation where
  before := openRings ++ [.selectRow 0, .deletePressed, .alertDelete 1]
  opened := _
  draw := .selectRow 1
  drawn := _
  between := [.editPressed, .deleteCompleted 0 true]
  ready := _
  send := .savePressed
  sent := _
  request := _
  keyed := by decide
  run_before := rfl
  step_draw := rfl
  draws := .selectRow 1
  run_between := rfl
  step_send := rfl
  issued := rfl
  view_eq := rfl

/-- That save is written under the empty key. -/
theorem save_after_delete_misses : ¬ ∀ r : SentRequest asciiFoundation, r.Targeted := by
  intro h
  exact (h savedAfterDelete).nonempty rfl

end MiraclesAdmin.WriteTargeting
