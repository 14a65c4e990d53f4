import MiraclesAdmin.BufferedLog
import MiraclesAdmin.MessageLog

/-!
What the message store keeps over the lives of the process. Every accepted press of the
add button inserts a message and saves; a message whose save failed stays in the context
until a later save commits it. The last chance is the save of `applicationWillTerminate`,
which a process that is killed does not make.
-/
namespace MiraclesAdmin.MessageDurability

open Transition BufferedLog
open MessageLog hiding Event step loaded

/-- `AppDelegate.saveContext`. A failure is fatal; it commits nothing. -/
def saveContext (c : ManagedObjectContext) (success : Bool) : ManagedObjectContext :=
  if c.pending ≠ [] then c.save success else c

/-- The application and its messages screen, if the process runs and has loaded it. -/
structure MessagesApp where
  screen : MessagesScreen
  isLoaded : Bool
  isRunning : Bool

/-- What the end of a process leaves: its memory is lost. -/
def ended (c : ManagedObjectContext) : MessagesApp := ⟨⟨⟨c.committed, []⟩, {}⟩, false, false⟩

inductive Event
  | launched
  | viewDidLoad (message : List User)
  | addMessagePressed (text : String) (success : Bool)
  | applicationWillTerminate (success : Bool)
  | killed

def step (s : MessagesApp) : Event → Option MessagesApp
  | .launched => guarded (s.isRunning = false) (some { s with isRunning := true })
  | .viewDidLoad message => guarded (s.isRunning = true ∧ s.screen.context.Fetches message)
      ((s.screen.viewDidLoad message).map (fun screen =>
        { s with screen := screen, isLoaded := true }))
  | .addMessagePressed text success => guarded (s.isLoaded = true)
      (some { s with screen := { s.screen with
        table := { s.screen.table with newMessage := text } }.addMessagePressed success })
  | .applicationWillTerminate success => guarded (s.isRunning = true)
      (some (ended (saveContext s.screen.context success)))
  | .killed => guarded (s.isRunning = true) (some (ended s.screen.context))

/-- The application is installed, with these messages in its store. -/
def installed (stored : List String) : MessagesApp :=
  ended ⟨stored.map (fun text => ⟨some text⟩), []⟩

/-- What an event does to the store and the context. -/
def operations : Event → List (Op String)
  | .addMessagePressed text success => if text = "" then [] else [.append text, .flush success]
  | .applicationWillTerminate success => [.flush success, .crash]
  | .killed => [.crash]
  | _ => []

/-- The context is a log of messages with these texts. -/
structure Keeps (s : MessagesApp) (l : Log String) : Prop where
  committed : s.screen.context.committed.map User.message = l.durable.map some
  pending : s.screen.context.pending.map User.message = l.buffer.map some

/-- Saving the context is flushing the log, also where nothing is pending. -/
theorem save_flushes {c : ManagedObjectContext} {l : Log String}
    (hcommitted : c.committed.map User.message = l.durable.map some)
    (hpending : c.pending.map User.message = l.buffer.map some) (success : Bool) :
    (c.save success).committed.map User.message = (exec l (.flush success)).durable.map some ∧
      (c.save success).pending.map User.message = (exec l (.flush success)).buffer.map some := by
  cases success with
  | true =>
    refine ⟨?_, rfl⟩
    change (c.committed ++ c.pending).map User.message = (l.durable ++ l.buffer).map some
    rw [List.map_append, List.map_append, hcommitted, hpending]
  | false => exact ⟨hcommitted, hpending⟩

theorem saveContext_eq (c : ManagedObjectContext) (success : Bool) :
    saveContext c success = c.save success := by
  unfold saveContext
  split
  · rfl
  · rename_i hpending
    cases success with
    | true =>
      have hnone : c.pending = [] := not_not.mp hpending
      obtain ⟨committed, pending⟩ := c
      change pending = [] at hnone
      subst hnone
      simp [ManagedObjectContext.save]
    | false => rfl

theorem viewDidLoad_context {s t : MessagesScreen} {message : List User}
    (h : s.viewDidLoad message = some t) : t.context = s.context := by
  obtain ⟨_, _, rfl⟩ := Option.map_eq_some_iff.mp h
  rfl

theorem step_keeps {s t : MessagesApp} {l : Log String} {e : Event} (hs : Keeps s l)
    (h : step s e = some t) : Keeps t ((operations e).foldl exec l) := by
  cases e with
  | launched =>
    obtain ⟨_, h⟩ := guarded_eq_some.mp h
    cases h
    exact ⟨hs.committed, hs.pending⟩
  | viewDidLoad message =>
    obtain ⟨_, h⟩ := guarded_eq_some.mp h
    obtain ⟨screen, hscreen, rfl⟩ := Option.map_eq_some_iff.mp h
    have hcontext := viewDidLoad_context hscreen
    refine ⟨?_, ?_⟩
    · rw [hcontext]
      exact hs.committed
    · rw [hcontext]
      exact hs.pending
  | addMessagePressed text success =>
    obtain ⟨_, h⟩ := guarded_eq_some.mp h
    cases h
    by_cases htext : text = ""
    · rw [operations, if_pos htext, MessagesScreen.addMessagePressed, if_pos htext]
      exact ⟨hs.committed, hs.pending⟩
    · rw [operations, if_neg htext, MessagesScreen.addMessagePressed, if_neg htext]
      have hpending : (s.screen.context.pending ++ [(⟨some text⟩ : User)]).map User.message =
          (l.buffer ++ [text]).map some := by
        rw [List.map_append, List.map_append, hs.pending]
        rfl
      have hsaved := save_flushes (c := ⟨s.screen.context.committed,
        s.screen.context.pending ++ [⟨some text⟩]⟩) (l := exec l (.append text)) hs.committed
        hpending success
      exact ⟨hsaved.1, hsaved.2⟩
  | applicationWillTerminate success =>
    obtain ⟨_, h⟩ := guarded_eq_some.mp h
    cases h
    rw [saveContext_eq]
    exact ⟨(save_flushes hs.committed hs.pending success).1, rfl⟩
  | killed =>
    obtain ⟨_, h⟩ := guarded_eq_some.mp h
    cases h
    exact ⟨hs.committed, rfl⟩

/-- Over any number of lives of the process the store holds, in no particular order, the
messages it had and those entered before a save that succeeded in the same life, be it
their own, a later one or the one at termination. -/
theorem stored_messages (stored : List String) (es : List Event) (t : MessagesApp)
    (h : run step (installed stored) es = some t) :
    (t.screen.context.committed.map User.message).Perm
      ((stored ++ survivors (es.flatMap operations)).map some) := by
  have hinstalled : Keeps (installed stored) ⟨stored, []⟩ := by
    refine ⟨?_, rfl⟩
    simp [installed, ended, Function.comp_def]
  have hkeeps : Keeps t (es.foldl (fun l e => (operations e).foldl exec l) ⟨stored, []⟩) :=
    run_refines step (fun s l e t => step_keeps) hinstalled h
  rw [hkeeps.committed, ← List.foldl_flatMap, durable_of_empty]

/-- A failed save is made up for at termination in the first life; in the second the
process is killed. -/
theorem made_up_for_at_termination : ∃ t,
    run step (installed []) [.launched, .viewDidLoad [], .addMessagePressed "one" false,
      .applicationWillTerminate true, .launched, .viewDidLoad [⟨some "one"⟩],
      .addMessagePressed "two" false, .killed] = some t ∧
    (t.screen.context.committed.map User.message).Perm [some "one"] := by
  have hrun : ∃ t, run step (installed []) [.launched, .viewDidLoad [],
      .addMessagePressed "one" false, .applicationWillTerminate true, .launched,
      .viewDidLoad [⟨some "one"⟩], .addMessagePressed "two" false, .killed] = some t := ⟨_, rfl⟩
  obtain ⟨t, ht⟩ := hrun
  exact ⟨t, ht, stored_messages [] _ t ht⟩

end MiraclesAdmin.MessageDurability
