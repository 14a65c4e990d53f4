import Mathlib.Data.List.Perm.Basic
import MiraclesAdmin.Transition

/-!
The messages screen and its Core Data context. `saveObject` inserts an object and
then saves the context; a failed save leaves the object pending, and its result is
ignored by `addMessagePressed`, which has appended the text already. The screen and
the store agree with the saved texts in every state exactly when no save fails.
-/
namespace MiraclesAdmin.MessageLog

open Transition

/-- The entity's attribute is optional. -/
structure User where
  message : Option String
deriving DecidableEq

/-- The shared view context: what is in the store, and what is inserted but unsaved. -/
structure ManagedObjectContext where
  committed : List User
  pending : List User

namespace ManagedObjectContext

/-- `context.save()`. A failure commits nothing and keeps the inserted objects. -/
def save (c : ManagedObjectContext) (success : Bool) : ManagedObjectContext :=
  if success then ⟨c.committed ++ c.pending, []⟩ else c

/-- `CoreDataHandler.saveObject`: the object is inserted before the save is tried. -/
def saveObject (c : ManagedObjectContext) (message : String) (success : Bool) :
    ManagedObjectContext × Bool :=
  let inserted : ManagedObjectContext := ⟨c.committed, c.pending ++ [⟨some message⟩]⟩
  (inserted.save success, success)

/-- A fetch request includes pending objects; without sort descriptors their order
is unspecified. -/
def Fetches (c : ManagedObjectContext) (users : List User) : Prop :=
  users.Perm (c.committed ++ c.pending)

instance (c : ManagedObjectContext) (users : List User) : Decidable (c.Fetches users) :=
  inferInstanceAs (Decidable (users.Perm (c.committed ++ c.pending)))

end ManagedObjectContext

structure CoreTable where
  messageList : List String := []
  newMessage : String := ""
  toast : Option String := none

structure MessagesScreen where
  context : ManagedObjectContext
  table : CoreTable

/-- `for i in message! { messageList.append(i.message!) }`. -/
def appendMessages (messageList : List String) : List User → Option (List String)
  | [] => some messageList
  | i :: rest => do
    let text ← i.message
    appendMessages (messageList ++ [text]) rest

namespace MessagesScreen

/-- A new controller loads what `fetchObejct` returned. -/
def viewDidLoad (s : MessagesScreen) (message : List User) : Option MessagesScreen :=
  (appendMessages [] message).map (fun messageList =>
    { s with table := { messageList := messageList } })

def addMessagePressed (s : MessagesScreen) (success : Bool) : MessagesScreen :=
  if s.table.newMessage = "" then
    { s with table := { s.table with toast := some "Plese enter a message" } }
  else
    let messageList := s.table.messageList ++ [s.table.newMessage]
    let (context, _) := s.context.saveObject s.table.newMessage success
    { context := context
      table := { messageList := messageList, newMessage := "", toast := some "Message Added" } }

end MessagesScreen

inductive Event
  | viewDidLoad (message : List User)
  | addMessagePressed (text : String) (success : Bool)
  | relaunched (message : List User)

/-- The text of a press is what the field holds then. A relaunch loses the pending
objects and loads the screen anew. -/
def step (s : MessagesScreen) : Event → Option MessagesScreen
  | .viewDidLoad message => guarded (s.context.Fetches message) (s.viewDidLoad message)
  | .addMessagePressed text success =>
    some ({ s with table := { s.table with newMessage := text } }.addMessagePressed success)
  | .relaunched message =>
    let restarted : MessagesScreen := ⟨⟨s.context.committed, []⟩, {}⟩
    guarded (restarted.context.Fetches message) (restarted.viewDidLoad message)

/-- The screen after its first load from a store with these messages. -/
def loaded (stored : List String) : MessagesScreen :=
  ⟨⟨stored.map (fun text => ⟨some text⟩), []⟩, { messageList := stored }⟩

/-- The texts for which `saveObject` returned true. -/
def savedTexts (es : List Event) : List String :=
  es.filterMap (fun e => match e with
    | .addMessagePressed text success => if text ≠ "" ∧ success = true then some text else none
    | _ => none)

/-- List and store hold the stored and the saved messages, and nothing is pending. -/
structure Matches (stored : List String) (pre : List Event) (s : MessagesScreen) : Prop where
  listed : s.table.messageList.Perm (stored ++ savedTexts pre)
  committed : (s.context.committed.map User.message).Perm ((stored ++ savedTexts pre).map some)
  pending : s.context.pending = []

/-- No save that is tried fails. -/
def SaveSucceeds : Event → Prop
  | .addMessagePressed text success => text = "" ∨ success = true
  | _ => True

theorem appendMessages_eq {users : List User} (h : ∀ u ∈ users, u.message.isSome)
    (messageList : List String) :
    appendMessages messageList users = some (messageList ++ users.filterMap User.message) := by
  induction users generalizing messageList with
  | nil => simp [appendMessages]
  | cons u rest ih =>
    obtain ⟨text, htext⟩ := Option.isSome_iff_exists.mp (h u (by simp))
    have hrest := ih (fun v hv => h v (by simp [hv])) (messageList ++ [text])
    simp only [appendMessages, htext, Option.bind_eq_bind, Option.bind_some, hrest,
      List.filterMap_cons_some htext, List.append_assoc, List.singleton_append]

/-- Loading a matching store lists exactly its messages. -/
theorem viewDidLoad_listed {s t : MessagesScreen} {users : List User} {texts : List String}
    (hmessages : (users.map User.message).Perm (texts.map some))
    (h : s.viewDidLoad users = some t) :
    t.context = s.context ∧ t.table.messageList.Perm texts := by
  have hsome : ∀ u ∈ users, u.message.isSome := by
    intro u hu
    have hmem := hmessages.mem_iff.mp (List.mem_map_of_mem hu)
    obtain ⟨text, _, htext⟩ := List.mem_map.mp hmem
    rw [← htext]
    rfl
  unfold MessagesScreen.viewDidLoad at h
  rw [appendMessages_eq hsome] at h
  cases h
  refine ⟨rfl, ?_⟩
  have hfilter := hmessages.filterMap id
  simpa [List.filterMap_map, Function.comp_def] using hfilter

theorem step_matches_iff {stored : List String} {pre : List Event} {s t : MessagesScreen}
    {e : Event} (hs : Matches stored pre s) (h : step s e = some t) :
    Matches stored (pre ++ [e]) t ↔ SaveSucceeds e := by
  have hload : ∀ (c : ManagedObjectContext) (table : CoreTable) (users : List User),
      c.committed = s.context.committed → c.pending = [] → c.Fetches users →
      MessagesScreen.viewDidLoad ⟨c, table⟩ users = some t →
      savedTexts (pre ++ [e]) = savedTexts pre →
      Matches stored (pre ++ [e]) t := by
    intro c table users hcommitted hpending hfetch hview hsaved
    have hmessages : (users.map User.message).Perm ((stored ++ savedTexts pre).map some) := by
      unfold ManagedObjectContext.Fetches at hfetch
      rw [hpending, List.append_nil, hcommitted] at hfetch
      exact (hfetch.map User.message).trans hs.committed
    obtain ⟨hcontext, hlisted⟩ := viewDidLoad_listed hmessages hview
    refine ⟨?_, ?_, ?_⟩
    · rw [hsaved]
      exact hlisted
    · rw [hsaved, hcontext]
      change (c.committed.map User.message).Perm _
      rw [hcommitted]
      exact hs.committed
    · rw [hcontext]
      exact hpending
  cases e with
  | viewDidLoad message =>
    obtain ⟨hfetch, hview⟩ := guarded_eq_some.mp h
    exact iff_of_true (hload s.context s.table message rfl hs.pending hfetch hview
      (by simp [savedTexts])) trivial
  | relaunched message =>
    obtain ⟨hfetch, hview⟩ := guarded_eq_some.mp h
    exact iff_of_true (hload ⟨s.context.committed, []⟩ {} message rfl rfl hfetch hview
      (by simp [savedTexts])) trivial
  | addMessagePressed text success =>
    cases h
    by_cases htext : text = ""
    · subst htext
      refine iff_of_true ?_ (Or.inl rfl)
      have hsaved : savedTexts (pre ++ [.addMessagePressed "" success]) = savedTexts pre := by
        simp [savedTexts]
      rw [MessagesScreen.addMessagePressed, if_pos rfl]
      refine ⟨?_, ?_, hs.pending⟩
      · rw [hsaved]
        exact hs.listed
      · rw [hsaved]
        exact hs.committed
    · cases success with
      | true =>
        refine iff_of_true ?_ (Or.inr rfl)
        have hsaved : savedTexts (pre ++ [.addMessagePressed text true]) =
            savedTexts pre ++ [text] := by
          simp [savedTexts, htext]
        rw [MessagesScreen.addMessagePressed, if_neg htext]
        refine ⟨?_, ?_, rfl⟩
        · rw [hsaved, ← List.append_assoc]
          exact hs.listed.append_right [text]
        · rw [hsaved, ← List.append_assoc]
          change ((s.context.committed ++ (s.context.pending ++ [(⟨some text⟩ : User)])).map
            User.message).Perm ((stored ++ savedTexts pre ++ [text]).map some)
          rw [hs.pending, List.nil_append, List.map_append, List.map_append (f := some)]
          exact hs.committed.append_right [some text]
      | false =>
        refine iff_of_false ?_ (by simp [SaveSucceeds, htext])
        intro hm
        have hlength := hm.listed.length_eq
        have hbefore := hs.listed.length_eq
        simp [MessagesScreen.addMessagePressed, htext, savedTexts] at hlength hbefore
        omega

theorem matches_loaded (stored : List String) : Matches stored [] (loaded stored) := by
  refine ⟨by simp [loaded, savedTexts], ?_, rfl⟩
  simp [loaded, savedTexts, Function.comp_def]

/-- The message log matches its store in every state of a run exactly when every
save that the run tries succeeds. -/
theorem message_log_matches_iff (stored : List String) (es : List Event) :
    AtEach step (Matches stored) (loaded stored) es ↔
      EachStep step (fun _ _ e _ => SaveSucceeds e) (loaded stored) es :=
  atEach_iff_eachStep (I := fun _ _ => True) (C := fun _ _ => SaveSucceeds)
    (fun _ _ _ _ _ _ => trivial) trivial (matches_loaded stored)
    (fun _ _ _ _ _ hs h => step_matches_iff hs h) es

/-- The first of two saves fails: its text is listed, and the second save commits it. -/
theorem failed_save_listed_and_committed :
    ¬ AtEach step (Matches []) (loaded [])
      [.addMessagePressed "one" false, .addMessagePressed "two" true] := by
  intro h
  exact absurd (h.last rfl).committed (by decide)

end MiraclesAdmin.MessageLog
