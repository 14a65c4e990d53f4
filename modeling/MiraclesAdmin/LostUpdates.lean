import MiraclesAdmin.NetworkSteps

/-!
What a committed save does to the record it addresses. The form keeps the values it
was filled with, and the save sends all of them as one record, which replaces the
stored one. So a save changes no more than its admin did exactly when the record
still has, at the commit, what the form was filled with apart from the fields changed.
-/
namespace MiraclesAdmin.LostUpdates

open SwiftText Transition ObjectHeap ProductRecords ProductForm CategoryStore CategoryWrites
open DetailView (ProductDetailView)
open ScreenSteps hiding Effect step_effect
open ScreenObjects
open ProductsScreen hiding Event step launch
open ProductList hiding step
open AdminNetwork NetworkSteps

/-- The fields of a record that the form can change. -/
inductive Field
  | name
  | smallDescription
  | price
  | availability

def Field.key : Field → String
  | .name => "name"
  | .smallDescription => "smallDescription"
  | .price => "price"
  | .availability => "availability"

/-- A selected row and a pressed Cancel fill the form. -/
def Fills (a : App) : ProductsScreen.Event → Prop
  | .selectRow _ => True
  | .editPressed => a.detailView.editState = true
  | _ => False

instance (a : App) : (e : ProductsScreen.Event) → Decidable (Fills a e)
  | .selectRow _ => isTrue trivial
  | .editPressed => inferInstanceAs (Decidable (a.detailView.editState = true))
  | .openCategory _ | .list _ | .exitPressed | .editName _ | .editPrice _ _ _
  | .editDiscount _ _ _ | .editDescription _ | .switchAvailability _ | .savePressed
  | .deletePressed | .alertCancel _ | .alertDelete _ | .saveCompleted _ _
  | .deleteCompleted _ _ => isFalse id

section steps

variable {C : Type*} [DecidableEq C] {F : Foundation} {B : Firebase} {s t : Network C}
  {e : Event C}

/-- No step of the network but one of the client's own fills its form. -/
def LeavesForm (client : C) (s : Network C) : Event C → Prop
  | .client c e => c = client → ¬ Fills (s.clients client).app e
  | _ => True

instance (client : C) (s : Network C) : (e : Event C) → Decidable (LeavesForm client s e)
  | .client c e => inferInstanceAs (Decidable (c = client → ¬ Fills (s.clients client).app e))
  | .tap _ _ | .valueEvent _ _ | .retainedValueEvent _ _ _ | .openPopup _ | .popup _ _ _
  | .receive _ | .commit _ | .reject _ => isTrue trivial

/-- The step commits a write to the record, or to the empty key of its category. -/
def CommitsAt (category key : String) (s : Network C) (e : Event C) : Prop :=
  ∃ w ∈ committedWrite s e, w.category = category ∧ (w.key = key ∨ w.key = "")

/-- The requests of a client are only appended to. -/
theorem step_requests_grow (h : step F B s e = some t) :
    ∀ c, (s.clients c).app.requests <+: (t.clients c).app.requests := by
  refine step_client (P := fun c k => (s.clients c).app.requests <+: k.app.requests) h
    (fun _ => List.prefix_rfl) ?_ (fun _ _ _ _ _ _ _ _ => List.prefix_rfl) ?_
  · intro c d a _ ha
    rcases requests_appends F _ _ _ ha with hsame | ⟨r, hnew⟩
    · exact hsame ▸ List.prefix_rfl
    · exact hnew ▸ List.prefix_append _ _
  · intro c k happ _
    exact happ ▸ List.prefix_rfl

theorem getElem?_of_grown {A : Type*} {as bs : List A} {n : ℕ} {a : A} (h : as <+: bs)
    (ha : as[n]? = some a) : bs[n]? = some a := by
  obtain ⟨rest, rfl⟩ := h
  exact (List.getElem?_append_left (List.getElem?_eq_some_iff.mp ha).1).trans ha

end steps

/-- A committed save, with its run: a client's form is filled, edited and saved, and
the write is committed. Anything else can happen in between but another fill. -/
structure CommittedSave (F : Foundation) (B : Firebase) (C : Type*) [DecidableEq C] where
  stored : Database
  taken : List String
  client : C
  before : List (Event C)
  unfilled : Network C
  fill : ProductsScreen.Event
  filled : Network C
  editing : List (Event C)
  ready : Network C
  sent : Network C
  request : Request
  values : FormValues
  inFlight : List (Event C)
  arrived : Network C
  final : Network C
  run_before : run (step F B) (launched stored taken) before = some unfilled
  fills : Fills (unfilled.clients client).app fill
  step_fill : step F B unfilled (.client client fill) = some filled
  run_editing : run (step F B) filled editing = some ready
  not_refilled : EachStep (step F B) (fun _ s e _ => LeavesForm client s e) filled editing
  step_send : step F B ready (.client client .savePressed) = some sent
  issued : (sent.clients client).app.requests[(ready.clients client).app.requests.length]? =
    some request
  values_eq : (ready.clients client).app.detailView.formValues = some values
  addressed : request.key ≠ ""
  run_inFlight : run (step F B) sent inFlight = some arrived
  waits_first : ((arrived.clients client).outgoing.head?).map Sent.completion =
    some (.request (ready.clients client).app.requests.length)
  step_commit : step F B arrived (.commit client) = some final

namespace CommittedSave

variable {F : Foundation} {B : Firebase} {C : Type*} [DecidableEq C]

/-- The product at whose key the save is sent. -/
def product (f : CommittedSave F B C) : Product := (f.ready.clients f.client).app.selected

/-- The values the form was filled with. -/
def filledValues (f : CommittedSave F B C) : FormValues :=
  valuesOf (f.filled.clients f.client).app.selected

/-- The record that the save would have sent when the form was filled. -/
def unchanged (f : CommittedSave F B C) : FirebaseValue :=
  productRecord f.filledValues f.product.displayPicture f.request.category

/-- The record that is stored at the key of the save. -/
def recordIn (f : CommittedSave F B C) (s : Network C) : Option FirebaseValue :=
  (s.db f.request.category).lookup f.request.key

/-- The form was filled with what was stored at the key, and no other write to the
key is committed until the save is. -/
def Undisturbed (f : CommittedSave F B C) : Prop :=
  (∃ old, f.recordIn f.filled = some old ∧ ∀ name, old.child name = f.unchanged.child name) ∧
  EachStep (step F B) (fun _ s e _ => ¬ CommitsAt f.request.category f.request.key s e) f.filled
    (f.editing ++ .client f.client .savePressed :: f.inFlight)

/-- The request stays at its place in the log. -/
theorem request_logged (f : CommittedSave F B C) :
    (f.arrived.clients f.client).app.requests[(f.ready.clients f.client).app.requests.length]? =
      some f.request := by
  refine run_invariant (step F B) (P := fun s : Network C =>
    (s.clients f.client).app.requests[(f.ready.clients f.client).app.requests.length]? =
      some f.request) f.issued ?_ f.run_inFlight
  exact fun _ _ _ _ hs ht => getElem?_of_grown (step_requests_grow ht f.client) hs

end CommittedSave

end MiraclesAdmin.LostUpdates
