import MiraclesAdmin.AddPopup
import MiraclesAdmin.CategoryScreen
import MiraclesAdmin.CategoryWrites
import MiraclesAdmin.ScreenObjects

/-!
The whole panel: any number of clients over all categories of one database. A client
taps a category, works on its products screen, opens popups over it, and exits. The
observer of a screen is never removed, so a client keeps the tables of the screens it
left and goes on decoding their categories. A client queues the writes it sends, and sees
them at once on top of the records it has received. The database commits or rejects the
writes of one client in their order, and those of several clients in any; its answer
lets the completion of the write run.
-/
namespace MiraclesAdmin.AdminNetwork

open SwiftText Transition ObjectHeap ProductRecords ProductForm CategoryStore CategoryWrites
open CategoryScreen hiding fillCell
open ScreenSteps hiding Effect step_effect
open ScreenObjects
open ProductList hiding step
open ProductsScreen hiding Event step launch

/-- The form of the keys `childByAutoId` generates: 20 characters of one component. -/
def IsAutoId (id : String) : Prop := id.length = 20 ∧ '/' ∉ id.toList

instance (id : String) : Decidable (IsAutoId id) :=
  inferInstanceAs (Decidable (id.length = 20 ∧ '/' ∉ id.toList))

theorem IsAutoId.ne_empty {id : String} (h : IsAutoId id) : id ≠ "" := by
  intro hid
  rw [hid] at h
  exact absurd h.1 (by decide)

/-- The key a press of the popup's Save would write to. -/
def autoId : AddPopup.Event → Option String
  | .savePressed id => some id
  | _ => none

/-- What completes with a write: a request of the products screen, or the addition of a
popup. -/
inductive Completion
  | request (n : ℕ)
  | addition (popup : ℕ) (key : String)
deriving DecidableEq

/-- A write that waits for the answer of the database. -/
structure Sent where
  completion : Completion
  write : DatabaseWrite

/-- One installation of the panel: its screen, the category and the table of each
screen it has left, its popups, the records it has received, its writes in the order they
were sent, and the answers it got. -/
structure Client where
  app : App
  retained : List (String × SampleTable)
  popups : List AddPopup.Session
  received : Database
  outgoing : List Sent
  answered : List (Completion × Bool)

namespace Client

/-- What an event of the screen leaves behind: the exit button a table that is still
observed. -/
def released (k : Client) : ProductsScreen.Event → List (String × SampleTable)
  | .exitPressed => [(k.app.currentCategory, k.app.list.table)]
  | _ => []

/-- The write of the request that the screen has sent since, if it has. -/
def requested (k : Client) (a : App) : List Sent :=
  (a.requests[k.app.requests.length]?).toList.map (fun q =>
    ⟨.request k.app.requests.length, ⟨q.category, q.key, q.write⟩⟩)

def stepApp (F : Foundation) (k : Client) (e : ProductsScreen.Event) : Option Client :=
  (ProductsScreen.step F k.app e).map (fun a =>
    { k with
      app := a
      retained := k.retained ++ k.released e
      outgoing := k.outgoing ++ k.requested a })

/-- The observer's closure of a screen that was left: its products are new objects of
the process, and the HUD is the one of the application. -/
def observe (k : Client) (i : ℕ) (snapshot : FirebaseValue) : Option Client := do
  let (category, table) ← k.retained[i]?
  let l ← ListScreen.valueObserved ⟨k.app.list.heap, k.app.list.hudShown, table⟩ snapshot
  return { k with
    app := { k.app with list := { k.app.list with heap := l.heap, hudShown := l.hudShown } }
    retained := k.retained.set i (category, l.table) }

/-- A popup covers the screen. -/
def Covered (k : Client) : Prop := ∃ p ∈ k.popups, p.isPresented = true

instance (k : Client) : Decidable k.Covered :=
  inferInstanceAs (Decidable (∃ p ∈ k.popups, p.isPresented = true))

def openPopup (k : Client) : Client :=
  { k with popups := k.popups ++ [AddPopup.opened k.app.currentCategory ∅] }

/-- The write of the product that the popup has added since, if it has. -/
def added (i : ℕ) (p q : AddPopup.Session) : List Sent :=
  (q.pending[p.pending.length]?).toList.map (fun write =>
    ⟨.addition i write.1, ⟨p.currentCategory, write.1, .updateChildValues write.2⟩⟩)

/-- A popup of the network works on no records of its own. -/
def stepPopup (k : Client) (i : ℕ) (p : AddPopup.Session) (e : AddPopup.Event) : Option Client :=
  (AddPopup.step p e).map (fun q =>
    { k with
      popups := k.popups.set i { q with records := ∅ }
      outgoing := k.outgoing ++ added i p q })

/-- The database has answered the first write of the queue; a commit comes with the records
as they stand then. -/
def answer (k : Client) (q : Sent) (rest : List Sent) (received : Database) (success : Bool) :
    Client :=
  { k with
    received := received
    outgoing := rest
    answered := k.answered ++ [(q.completion, success)] }

/-- What the client sees of the database. -/
def view (B : Firebase) (k : Client) : Database :=
  k.received.storeAll B (k.outgoing.map Sent.write)

/-- What an observer of the client at the category is delivered. -/
def snapshot (B : Firebase) (k : Client) (category : String) (order : List String) :
    FirebaseValue :=
  .ofChildren ((k.view B category).inOrder order)

/-- The events of the screen on its own: categories are opened by taps, value events come
from the database, a completion runs with the answer to its write, and touches do not pass
through a popup. Alerts are shown above it. -/
def admits (k : Client) : ProductsScreen.Event → Bool
  | .openCategory _ => false
  | .list (.valueObserved _) => false
  | .saveCompleted n success => decide ((.request n, success) ∈ k.answered)
  | .deleteCompleted n success => decide ((.request n, success) ∈ k.answered)
  | .alertCancel _ => true
  | .alertDelete _ => true
  | _ => decide ¬ k.Covered

/-- The events of a popup: a generated key is new, and a completion runs with the answer to
its write. -/
def AdmitsPopup (k : Client) (autoIds : List String) (i : ℕ) (p : AddPopup.Session) :
    AddPopup.Event → Prop
  | .savePressed id => IsAutoId id ∧ id ∉ autoIds
  | .writeCompleted j success =>
    ∃ write ∈ p.pending[j]?, (.addition i write.1, success) ∈ k.answered
  | _ => True

instance (k : Client) (autoIds : List String) (i : ℕ) (p : AddPopup.Session) :
    (e : AddPopup.Event) → Decidable (k.AdmitsPopup autoIds i p e)
  | .savePressed id => inferInstanceAs (Decidable (IsAutoId id ∧ id ∉ autoIds))
  | .writeCompleted j success =>
    inferInstanceAs
      (Decidable (∃ write ∈ p.pending[j]?, (.addition i write.1, success) ∈ k.answered))
  | .editName _ | .editPrice _ _ _ | .editDiscount _ _ _ | .editDescription _
  | .switchAvailability _ | .closePopup => isTrue trivial

end Client
/-- The database, the clients, and the keys that `childByAutoId` must not give again. -/
structure Network (C : Type*) where
  db : Database
  clients : C → Client
  autoIds : List String

/-- `receive` brings the records of the database to a client; `commit` and `reject` answer
the first write of its queue. -/
inductive Event (C : Type*)
  | tap (c : C) (indexPath : IndexPath)
  | client (c : C) (e : ProductsScreen.Event)
  | valueEvent (c : C) (order : List String)
  | retainedValueEvent (c : C) (i : ℕ) (order : List String)
  | openPopup (c : C)
  | popup (c : C) (i : ℕ) (e : AddPopup.Event)
  | receive (c : C)
  | commit (c : C)
  | reject (c : C)

/-- The client an event happens to. -/
def Event.actor {C : Type*} : Event C → C
  | tap c _ | client c _ | valueEvent c _ | retainedValueEvent c _ _ | openPopup c
  | popup c _ _ | receive c | commit c | reject c => c

variable {C : Type*} [DecidableEq C]

def Network.setClient (s : Network C) (c : C) (k : Client) : Network C :=
  { s with clients := Function.update s.clients c k }

def step (F : Foundation) (B : Firebase) (s : Network C) : Event C → Option (Network C)
  | .tap c indexPath => guarded (Shown indexPath)
      ((CategoryScreen.tap indexPath).bind (fun m =>
        ((s.clients c).stepApp F (.openCategory m)).map (s.setClient c)))
  | .client c e => guarded ((s.clients c).admits e = true)
      (((s.clients c).stepApp F e).map (s.setClient c))
  | .valueEvent c order =>
      guarded (order.Perm ((s.clients c).view B (s.clients c).app.currentCategory).keys)
        (((s.clients c).stepApp F (.list (.valueObserved
          ((s.clients c).snapshot B (s.clients c).app.currentCategory order)))).map
            (s.setClient c))
  | .retainedValueEvent c i order =>
    match (s.clients c).retained[i]? with
    | none => none
    | some (category, _) => guarded (order.Perm ((s.clients c).view B category).keys)
        (((s.clients c).observe i ((s.clients c).snapshot B category order)).map (s.setClient c))
  | .openPopup c => guarded ((s.clients c).app.isPresented = true ∧ ¬ (s.clients c).Covered)
      (some (s.setClient c (s.clients c).openPopup))
  | .popup c i e =>
    match (s.clients c).popups[i]? with
    | none => none
    | some p => guarded ((s.clients c).AdmitsPopup s.autoIds i p e)
        (((s.clients c).stepPopup i p e).map (fun k =>
          { s.setClient c k with autoIds := s.autoIds ++ (autoId e).toList }))
  | .receive c => some (s.setClient c { s.clients c with received := s.db })
  | .commit c =>
    match (s.clients c).outgoing with
    | [] => none
    | q :: rest => some { s.setClient c
        ((s.clients c).answer q rest (s.db.store B q.write) true) with
          db := s.db.store B q.write }
  | .reject c =>
    match (s.clients c).outgoing with
    | [] => none
    | q :: rest => some (s.setClient c
        ((s.clients c).answer q rest (s.clients c).received false))

/-- All clients are launched over a database and have received it; the given keys are
taken. -/
def launched (stored : Database) (taken : List String) : Network C where
  db := stored
  clients _ := ⟨ProductsScreen.launch, [], [], stored, [], []⟩
  autoIds := taken

/-- The write an event commits. -/
def committed (s : Network C) : Event C → Option Sent
  | .commit c => (s.clients c).outgoing.head?
  | _ => none

def committedWrite (s : Network C) (e : Event C) : Option DatabaseWrite :=
  (committed s e).map Sent.write

/-- The writes a step adds to the queue of its client. -/
def sent (s : Network C) (e : Event C) (t : Network C) : List Sent :=
  (t.clients e.actor).outgoing.drop (s.clients e.actor).outgoing.length

/-- A write of a popup. -/
def Sent.IsAddition (q : Sent) : Prop := ∃ i id, q.completion = .addition i id

instance (q : Sent) : Decidable q.IsAddition :=
  match h : q.completion with
  | .addition i id => isTrue ⟨i, id, h⟩
  | .request _ => isFalse (fun hq => by
      obtain ⟨_, _, hid⟩ := hq
      exact Completion.noConfusion (h.symm.trans hid))

/-- The concrete runs take the empty key for the category itself. -/
def namesCategory : Firebase where
  unkeyed _ write := match write with
    | .updateChildValues value => Records.ofDictionary value
    | .removeValue => ∅

theorem namesCategory_spec : namesCategory.NamesCategory := ⟨fun _ _ => rfl, fun _ => rfl⟩

/-- They start over a database with one ring. -/
def oneRing : Database :=
  Function.update (fun _ => ∅) "Rings" ((∅ : Records).setValue "-L1"
    (productRecord ⟨"Silver Ring", "thin", 40, true⟩ "ring.png" "Rings"))

theorem lookup_oneRing {category key : String} {record : FirebaseValue}
    (h : (oneRing category).lookup key = some record) : category = "Rings" ∧ key = "-L1" ∧
      record = productRecord ⟨"Silver Ring", "thin", 40, true⟩ "ring.png" "Rings" := by
  unfold oneRing at h
  by_cases hcategory : category = "Rings"
  · subst hcategory
    rw [Function.update_self, Records.setValue] at h
    by_cases hkey : key = "-L1"
    · subst hkey
      rw [AList.lookup_insert] at h
      cases h
      exact ⟨rfl, rfl, rfl⟩
    · rw [AList.lookup_insert_ne hkey, AList.lookup_empty] at h
      cases h
  · rw [Function.update_of_ne hcategory, AList.lookup_empty] at h
    cases h

theorem eq_of_mem_oneRing {category key : String} (h : key ∈ (oneRing category).keys) :
    key = "-L1" := by
  obtain ⟨record, hlookup⟩ := lookup_of_mem_keys h
  exact (lookup_oneRing hlookup).2.1

/-- The ring is deleted, and the form that shows it again is saved when the deletion
has completed. -/
def savedAfterDeletion : List (Event Unit) :=
  [.tap () ⟨0, 1⟩, .valueEvent () ["-L1"], .client () (.selectRow 0), .client () .deletePressed,
    .client () (.alertDelete 1), .client () (.selectRow 0), .client () .editPressed,
    .commit (), .client () (.deleteCompleted 0 true), .client () .savePressed, .commit ()]

end MiraclesAdmin.AdminNetwork
