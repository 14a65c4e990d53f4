import MiraclesAdmin.AdminNetwork
import MiraclesAdmin.LoginSession
import MiraclesAdmin.ProgressHUD

/-!
The panel with its progress HUD. The login screen, the products screen and the observers
of the screens that were left share one HUD: each keeps a flag for what it asked for
last, and the HUD gets there through its blocks and fade-outs. When all of them are done,
a HUD on the window is still asked for by one of them. The converse fails in three ways: a
fade-out scheduled before overtakes a show, one part withdraws what another asked for, and
a show that runs while the alert of a deletion has the key window finds no front window.
-/
namespace MiraclesAdmin.PanelHUD

open SwiftText Transition ProductRecords
open ProgressHUD hiding Event step Effect step_effect
open LoginSession hiding Event step launch
open ProductsScreen hiding Event step launch
open ProductList hiding step
open AdminNetwork hiding Event step launched

/-- One process of the panel. -/
structure Process where
  session : Session
  client : Client
  hud : HUD

inductive Event
  | login (e : LoginSession.Event)
  | screen (e : ProductsScreen.Event)
  | left (i : ℕ) (snapshot : FirebaseValue)
  | blockRun (frontWindow : Bool)
  | fadeOutStarted
  | fadeOutEnded

/-- The call the login screen makes. -/
def loginCall (s : Session) : LoginSession.Event → Option Call
  | .loginPressed =>
    if s.emailTextField = "" ∨ s.passwordTextField = "" then none else some .showProgress
  | .signInCompleted _ _ => some .dismiss
  | _ => none

/-- An observer dismisses the HUD when it receives records. -/
def observerCall (snapshot : FirebaseValue) : Option Call :=
  snapshot.asDictionary.map (fun _ => .dismiss)

/-- The call the products screen makes. -/
def screenCall (s : App) : ProductsScreen.Event → Option Call
  | .openCategory _ => some .showProgress
  | .list (.valueObserved snapshot) => observerCall snapshot
  | .savePressed =>
    match s.detailView.savePressed s.currentCategory s.selected with
    | some (_, some _) => some .showProgress
    | _ => none
  | .saveCompleted _ _ => some .dismiss
  | _ => none

/-- What an event is for the HUD. -/
def hudEvent (s : Process) : Event → Option ProgressHUD.Event
  | .login e => (loginCall s.session e).map .called
  | .screen e => (screenCall s.client.app e).map .called
  | .left _ snapshot => (observerCall snapshot).map .called
  | .blockRun frontWindow => some (.blockRun frontWindow)
  | .fadeOutStarted => some .fadeOutStarted
  | .fadeOutEnded => some .fadeOutEnded

def stepParts (F : Foundation) (s : Process) : Event → Option Process
  | .login e => (LoginSession.step s.session e).map (fun session => { s with session := session })
  | .screen e => (s.client.stepApp F e).map (fun client => { s with client := client })
  | .left i snapshot =>
    (s.client.observe i snapshot).map (fun client => { s with client := client })
  | _ => some s

def step (F : Foundation) (s : Process) (e : Event) : Option Process :=
  (stepParts F s e).bind (fun t =>
    match hudEvent s e with
    | none => some t
    | some d => (ProgressHUD.step s.hud d).map (fun hud => { t with hud := hud }))

/-- After launch the login screen has loaded and no category was opened. The snapshots are
given with the events, so the client has received nothing. -/
def launched (session : Session) : Process :=
  ⟨session, ⟨ProductsScreen.launch, [], [], fun _ => ∅, [], []⟩, {}⟩

variable {F : Foundation} {s t : Process} {e : Event}

theorem stepParts_hud (h : stepParts F s e = some t) : t.hud = s.hud := by
  cases e with
  | login | screen | left =>
    obtain ⟨_, _, rfl⟩ := Option.map_eq_some_iff.mp h
    rfl
  | blockRun | fadeOutStarted | fadeOutEnded =>
    cases h
    rfl

theorem step_parts (h : step F s e = some t) :
    ∃ u, stepParts F s e = some u ∧ t.session = u.session ∧ t.client = u.client ∧
      (hudEvent s e = none → t.hud = s.hud) ∧
      ∀ d, hudEvent s e = some d → ProgressHUD.step s.hud d = some t.hud := by
  obtain ⟨u, hu, ht⟩ := Option.bind_eq_some_iff.mp h
  refine ⟨u, hu, ?_⟩
  cases hd : hudEvent s e with
  | none =>
    rw [hd] at ht
    cases ht
    exact ⟨rfl, rfl, fun _ => stepParts_hud hu, nofun⟩
  | some d =>
    rw [hd] at ht
    obtain ⟨hud, hhud, rfl⟩ := Option.map_eq_some_iff.mp ht
    refine ⟨rfl, rfl, nofun, fun d' hd' => ?_⟩
    cases hd'
    exact hhud

theorem component_hud : Component (step F) ProgressHUD.step Process.hud hudEvent := by
  intro s e t h
  obtain ⟨_, _, _, _, hhud⟩ := step_parts h
  exact hhud

/-- A flag after the call, if any, that goes with a step. -/
inductive Follows (flag : Bool) : Option Call → Bool → Prop
  | kept : Follows flag none flag
  | asked : Follows flag (some .showProgress) true
  | withdrawn : Follows flag (some .dismiss) false

theorem login_follows {a b : Session} {d : LoginSession.Event}
    (h : LoginSession.step a d = some b) : Follows a.hud (loginCall a d) b.hud := by
  cases d with
  | emailChanged | passwordChanged =>
    obtain ⟨_, h⟩ := guarded_eq_some.mp h
    cases h
    exact .kept
  | alertDismissed =>
    cases h
    exact .kept
  | loginPressed =>
    obtain ⟨_, h⟩ := guarded_eq_some.mp h
    cases h
    by_cases hempty : a.emailTextField = "" ∨ a.passwordTextField = ""
    · simp only [loginCall, Session.loginPressed, if_pos hempty]
      exact .kept
    · simp only [loginCall, Session.loginPressed, if_neg hempty]
      exact .asked
  | signInCompleted i success =>
    obtain ⟨credentials, _, rfl⟩ := Option.map_eq_some_iff.mp h
    cases success with
    | true | false => exact .withdrawn
  | logoutPressed signOut =>
    obtain ⟨_, h⟩ := guarded_eq_some.mp h
    cases h
    cases signOut with
    | true | false => exact .kept

theorem observer_follows {l m : ListScreen} {snapshot : FirebaseValue}
    (h : l.valueObserved snapshot = some m) :
    Follows l.hudShown (observerCall snapshot) m.hudShown := by
  unfold observerCall
  rcases ListScreen.valueObserved_cases h with ⟨hnone, rfl⟩ | ⟨all, _, _, hall, _, rfl⟩
  · rw [hnone]
    exact .kept
  · rw [hall]
    exact .withdrawn

theorem screen_follows {a b : App} {d : ProductsScreen.Event}
    (h : ProductsScreen.step F a d = some b) :
    Follows a.list.hudShown (screenCall a d) b.list.hudShown := by
  cases ScreenSteps.step_effect h with
  | opened => exact .asked
  | @listed e l _ hl =>
    cases e with
    | valueObserved snapshot => exact observer_follows hl
    | searchBarTextDidBeginEditing | searchBarTextDidEndEditing | searchBarCancelButtonClicked
    | searchBarSearchButtonClicked | textDidChange =>
      cases hl
      exact .kept
  | rejected _ hv =>
    simp only [screenCall, hv]
    exact .kept
  | saveSent _ hv =>
    simp only [screenCall, hv]
    exact .asked
  | form he =>
    cases he with
    | editName | editPrice | editDiscount | editDescription | switchAvailability | editPressed =>
      exact .kept
  | saveFailed | saveDone => exact .withdrawn
  | selected | exited | alerted | cancelled | deleteSent | deleteFailed | deleteDone =>
    exact .kept

/-- A part of the panel has asked for the HUD and not withdrawn it. -/
def Asked (s : Process) : Prop :=
  s.session.hud = true ∨ s.client.app.list.hudShown = true

theorem Follows.asked_of {flag flag' : Bool} {call : Option Call} (h : Follows flag call flag') :
    (call = some .showProgress → flag' = true) ∧ (call = none → flag = true → flag' = true) := by
  cases h with
  | kept => exact ⟨nofun, fun _ hflag => hflag⟩
  | asked => exact ⟨fun _ => rfl, nofun⟩
  | withdrawn => exact ⟨nofun, nofun⟩

theorem bind_called (call : Option Call) :
    (call.map ProgressHUD.Event.called).bind callOf = call := by
  cases call <;> rfl

/-- A show is asked for by the part that calls it; without a call nothing is withdrawn. -/
theorem step_asked (h : step F s e = some t) :
    ((hudEvent s e).bind callOf = some .showProgress → Asked t) ∧
      ((hudEvent s e).bind callOf = none → Asked s → Asked t) := by
  obtain ⟨u, hu, hsession, hclient, _⟩ := step_parts h
  unfold Asked
  rw [hsession, hclient]
  cases e with
  | login d =>
    obtain ⟨session, hstep, rfl⟩ := Option.map_eq_some_iff.mp hu
    obtain ⟨hshow, hnone⟩ := (login_follows hstep).asked_of
    simp only [hudEvent, bind_called]
    exact ⟨fun hcall => Or.inl (hshow hcall), fun hcall => Or.imp_left (hnone hcall)⟩
  | screen d =>
    obtain ⟨client, hstep, rfl⟩ := Option.map_eq_some_iff.mp hu
    obtain ⟨a, ha, rfl⟩ := Option.map_eq_some_iff.mp hstep
    obtain ⟨hshow, hnone⟩ := (screen_follows ha).asked_of
    simp only [hudEvent, bind_called]
    exact ⟨fun hcall => Or.inr (hshow hcall), fun hcall => Or.imp_right (hnone hcall)⟩
  | left i snapshot =>
    obtain ⟨client, hstep, rfl⟩ := Option.map_eq_some_iff.mp hu
    obtain ⟨⟨category, table⟩, _, hobserve⟩ := Option.bind_eq_some_iff.mp hstep
    obtain ⟨l, hl, hclient⟩ := Option.bind_eq_some_iff.mp hobserve
    cases hclient
    obtain ⟨hshow, hnone⟩ := (observer_follows hl).asked_of
    simp only [hudEvent, bind_called]
    exact ⟨fun hcall => Or.inr (hshow hcall), fun hcall => Or.imp_right (hnone hcall)⟩
  | blockRun | fadeOutStarted | fadeOutEnded =>
    cases hu
    exact ⟨nofun, fun _ hasked => hasked⟩

theorem calls_append_toList (ds : List ProgressHUD.Event) (d : Option ProgressHUD.Event) :
    calls (ds ++ d.toList) = calls ds ++ (d.bind callOf).toList := by
  rw [calls, List.filterMap_append]
  cases d with
  | none => rfl
  | some d => cases hcall : callOf d <;> simp [hcall, calls]

/-- The events of the HUD in a run. -/
def hudEvents (F : Foundation) (session : Session) (es : List Event) : List ProgressHUD.Event :=
  outputs (step F) hudEvent (launched session) es

/-- Who made the last call asked for the HUD if it was a show. -/
theorem run_asked {session : Session} {es : List Event}
    (h : run (step F) (launched session) es = some t) :
    (calls (hudEvents F session es)).getLast? = some .showProgress → Asked t := by
  refine run_outputs (I := fun ds (t : Process) =>
    (calls ds).getLast? = some .showProgress → Asked t) nofun ?_ h
  intro pre s e t _ hasked ht hlast
  obtain ⟨hshow, hkept⟩ := step_asked ht
  rw [calls_append_toList] at hlast
  cases hcall : (hudEvent s e).bind callOf with
  | none =>
    rw [hcall, Option.toList_none, List.append_nil] at hlast
    exact hkept hcall (hasked hlast)
  | some call =>
    rw [hcall, Option.toList_some, List.getLast?_concat] at hlast
    exact hshow (hcall.trans hlast)

/-- In every run of the panel with its HUD, once the queue is empty and no fade-out is
scheduled or under way, a HUD on the window is asked for by a part of the panel; and if
every show found a front window and no fade-out scheduled, it is on the window exactly if
the last call any part made was a show. -/
theorem on_window_was_asked (F : Foundation) (session : Session) (es : List Event) (t : Process)
    (h : run (step F) (launched session) es = some t) (hqueue : t.hud.mainQueue = [])
    (hscheduled : t.hud.scheduled = 0) (hfading : t.hud.fadingOut = 0) :
    (t.hud.inHierarchy = true → Asked t) ∧
      (EachStep (step F) (fun _ s e _ => ∀ d ∈ hudEvent s e, Free s.hud d) (launched session) es →
        (t.hud.inHierarchy = true ↔
          (calls (hudEvents F session es)).getLast? = some .showProgress)) := by
  have hrun : run ProgressHUD.step {} (hudEvents F session es) = some t.hud := component_hud.run h
  obtain ⟨hshown, hfree⟩ := inHierarchy_of_calls hrun hqueue hscheduled hfading
  refine ⟨fun hin => run_asked h (hshown hin), fun heach => ⟨hshown, ?_⟩⟩
  exact hfree (component_hud.eachStep h heach)

/-- A sign-in, and a save on the products screen: the HUD of each goes and comes. -/
def savesRing : List Event :=
  [.login .loginPressed, .blockRun true, .login (.signInCompleted 0 true), .blockRun true,
    .fadeOutStarted, .fadeOutEnded] ++ openRings.map .screen ++
    [.blockRun true, .blockRun true, .fadeOutStarted, .fadeOutEnded, .screen (.selectRow 0),
    .screen .editPressed, .screen .savePressed, .blockRun true]

def remembered : Session := LoginSession.launch (some "admin") (some "secret") none

theorem hud_over_save : ∃ t, run (step asciiFoundation) (launched remembered) savesRing = some t ∧
    t.hud.inHierarchy = true ∧ Asked t := by
  have hrun : ∃ t, run (step asciiFoundation) (launched remembered) savesRing = some t ∧
      t.hud.mainQueue = [] ∧ t.hud.scheduled = 0 ∧ t.hud.fadingOut = 0 := ⟨_, rfl, rfl, rfl, rfl⟩
  obtain ⟨t, ht, hqueue, hscheduled, hfading⟩ := hrun
  obtain ⟨hasked, hiff⟩ := on_window_was_asked asciiFoundation remembered savesRing t ht hqueue
    hscheduled hfading
  have hin : t.hud.inHierarchy = true := (hiff (by decide)).mpr (by decide)
  exact ⟨t, ht, hin, hasked hin⟩

/-- A save that is sent before the fade-out starts loses its HUD to it. -/
example : ((run (step asciiFoundation) (launched remembered) (openRings.map .screen ++
    [.blockRun true, .blockRun true, .screen (.selectRow 0), .screen .editPressed,
      .screen .savePressed, .blockRun true, .fadeOutStarted, .fadeOutEnded])).map fun t =>
    (t.client.app.list.hudShown, t.hud.inHierarchy)) = some (true, false) := by decide

/-- An observer that was left behind dismisses the HUD of a sign-in. -/
example : ((run (step asciiFoundation) (launched remembered) (openRings.map .screen ++
    [.screen .exitPressed, .login .loginPressed,
      .left 0 (.ofChildren [("-L1", plainRecord { name := "Silver Ring" })]), .blockRun true,
      .blockRun true, .blockRun true, .blockRun true, .fadeOutStarted, .fadeOutStarted,
      .fadeOutEnded, .fadeOutEnded])).map fun t => (t.session.hud, t.hud.inHierarchy)) =
        some (true, false) := by decide

/-- A save whose HUD is shown over the alert of a deletion shows it nowhere. -/
example : ((run (step asciiFoundation) (launched remembered) (openRings.map .screen ++
    [.blockRun true, .blockRun true, .fadeOutStarted, .fadeOutEnded, .screen (.selectRow 0),
      .screen .editPressed, .screen .savePressed, .screen .deletePressed,
      .blockRun false])).map fun t => (t.hud.isVisible, t.hud.inHierarchy)) =
        some (true, false) := by decide

end MiraclesAdmin.PanelHUD
