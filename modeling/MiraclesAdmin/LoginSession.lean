import Mathlib.Data.List.Infix
import MiraclesAdmin.Transition

/-!
Signing in and out. A sign-in is submitted from the fields and completes later; its
success pushes a tab controller, and a logout pops one. Nothing limits the sign-ins
in flight, so the panels on the stack are counted against the history of the run: a
logout leaves the panel exactly when one sign-in more than logouts has succeeded.
-/
namespace MiraclesAdmin.LoginSession

open Transition

structure Credentials where
  email : String
  password : String
deriving DecidableEq

inductive Controller
  | login
  | tabBar
deriving DecidableEq

/-- The login screen, the navigation stack (its top first), the stored defaults, and
the auth service: its current user and the sign-ins it has not answered. -/
structure Session where
  emailTextField : String := ""
  passwordTextField : String := ""
  storedEmail : Option String
  storedPassword : Option String
  stack : List Controller := [.login]
  user : Option String
  signIns : List Credentials := []
  hud : Bool := false
  toast : Option String := none
  alert : Option (String × String) := none

namespace Session

def viewDidLoad (s : Session) : Session :=
  { s with
    emailTextField := s.storedEmail.getD s.emailTextField
    passwordTextField := s.storedPassword.getD s.passwordTextField }

def loginPressed (s : Session) : Session :=
  if s.emailTextField = "" ∨ s.passwordTextField = "" then
    { s with toast := some "Plese enter your email and password" }
  else
    { s with
      hud := true
      signIns := s.signIns ++ [⟨s.emailTextField, s.passwordTextField⟩] }

/-- The completion stores what the fields hold when it runs. -/
def signInCompleted (s : Session) (credentials : Credentials) (success : Bool) : Session :=
  if success then
    { s with
      hud := false
      user := some credentials.email
      storedEmail := some s.emailTextField
      storedPassword := some s.passwordTextField
      stack := .tabBar :: s.stack }
  else
    { s with
      hud := false
      alert := some ("Login Failed", "Email or password is invalid!") }

/-- The root of a navigation stack is never popped. -/
def popViewController : List Controller → List Controller
  | _ :: c :: rest => c :: rest
  | stack => stack

def logoutPressed (s : Session) (signOut : Bool) : Session :=
  if signOut then
    { s with user := none, alert := none, stack := popViewController s.stack }
  else s

end Session

inductive Event
  | emailChanged (text : String)
  | passwordChanged (text : String)
  | loginPressed
  | signInCompleted (i : ℕ) (success : Bool)
  | alertDismissed
  | logoutPressed (signOut : Bool)
deriving DecidableEq

/-- The screen on top takes the touches; the HUD and alerts do not block them. -/
def step (s : Session) : Event → Option Session
  | .emailChanged text =>
    guarded (s.stack.head? = some .login) (some { s with emailTextField := text })
  | .passwordChanged text =>
    guarded (s.stack.head? = some .login) (some { s with passwordTextField := text })
  | .loginPressed => guarded (s.stack.head? = some .login) (some s.loginPressed)
  | .signInCompleted i success =>
    (s.signIns[i]?).map (fun credentials =>
      { s with signIns := s.signIns.eraseIdx i }.signInCompleted credentials success)
  | .alertDismissed => some { s with alert := none }
  | .logoutPressed signOut =>
    guarded (s.stack.head? = some .tabBar) (some (s.logoutPressed signOut))

/-- The login screen after it loads. A user of an earlier session may be signed in. -/
def launch (storedEmail storedPassword user : Option String) : Session :=
  Session.viewDidLoad { storedEmail, storedPassword, user }

/-- The sign-ins that succeeded. -/
def succeeded (es : List Event) : ℕ :=
  es.countP (fun e => match e with
    | .signInCompleted _ success => success
    | _ => false)

/-- The logouts whose `signOut` succeeded. -/
def loggedOut (es : List Event) : ℕ := es.count (.logoutPressed true)

/-- Without a user only the login screen is left. -/
def LeavesPanel (s : Session) : Prop := s.user = none → s.stack = [.login]

instance (s : Session) : Decidable (LeavesPanel s) :=
  inferInstanceAs (Decidable (s.user = none → s.stack = [.login]))

/-- Over the login screen there is one panel for each success not yet logged out. -/
def PanelsCounted (pre : List Event) (s : Session) : Prop :=
  ∃ n, s.stack = List.replicate n .tabBar ++ [.login] ∧ succeeded pre = loggedOut pre + n

theorem succeeded_append (pre : List Event) (e : Event) :
    succeeded (pre ++ [e]) = succeeded pre + succeeded [e] := List.countP_append

theorem loggedOut_append (pre : List Event) (e : Event) :
    loggedOut (pre ++ [e]) = loggedOut pre + loggedOut [e] := List.count_append

/-- What a step does to the stack and to the current user. -/
inductive SessionEffect (s t : Session) : Event → Prop
  | stays {e : Event} (hstack : t.stack = s.stack) (huser : t.user = s.user)
      (hsucceeded : succeeded [e] = 0) (hloggedOut : loggedOut [e] = 0) : SessionEffect s t e
  | pushed {i : ℕ} {email : String} (hstack : t.stack = .tabBar :: s.stack)
      (huser : t.user = some email) : SessionEffect s t (.signInCompleted i true)
  | popped (htop : s.stack.head? = some .tabBar)
      (hstack : t.stack = Session.popViewController s.stack)
      (huser : t.user = none) : SessionEffect s t (.logoutPressed true)

theorem step_effect {s t : Session} {e : Event} (h : step s e = some t) :
    SessionEffect s t e := by
  cases e with
  | emailChanged text =>
    obtain ⟨_, h⟩ := guarded_eq_some.mp h
    cases h
    exact .stays rfl rfl rfl rfl
  | passwordChanged text =>
    obtain ⟨_, h⟩ := guarded_eq_some.mp h
    cases h
    exact .stays rfl rfl rfl rfl
  | loginPressed =>
    obtain ⟨_, h⟩ := guarded_eq_some.mp h
    cases h
    unfold Session.loginPressed
    split
    · exact .stays rfl rfl rfl rfl
    · exact .stays rfl rfl rfl rfl
  | signInCompleted i success =>
    obtain ⟨credentials, _, rfl⟩ := Option.map_eq_some_iff.mp h
    cases success with
    | true => exact .pushed rfl rfl
    | false => exact .stays rfl rfl rfl rfl
  | alertDismissed =>
    cases h
    exact .stays rfl rfl rfl rfl
  | logoutPressed signOut =>
    obtain ⟨htop, h⟩ := guarded_eq_some.mp h
    cases h
    cases signOut with
    | true => exact .popped htop rfl rfl
    | false => exact .stays rfl rfl rfl rfl

/-- A logout pops one of the counted panels. -/
theorem popViewController_panels {n : ℕ} {stack : List Controller}
    (hstack : stack = List.replicate n .tabBar ++ [.login])
    (htop : stack.head? = some .tabBar) :
    ∃ m, n = m + 1 ∧
      Session.popViewController stack = List.replicate m .tabBar ++ [.login] := by
  subst hstack
  cases n with
  | zero => simp at htop
  | succ m =>
    refine ⟨m, rfl, ?_⟩
    cases m <;> rfl

theorem panels_eq_login_iff (n : ℕ) :
    List.replicate n Controller.tabBar ++ [.login] = [.login] ↔ n = 0 := by
  cases n <;> simp [List.replicate_succ]

theorem step_panelsCounted {pre : List Event} {s t : Session} {e : Event}
    (hs : PanelsCounted pre s) (h : step s e = some t) : PanelsCounted (pre ++ [e]) t := by
  obtain ⟨n, hn, hcount⟩ := hs
  unfold PanelsCounted
  rw [succeeded_append, loggedOut_append]
  cases step_effect h with
  | stays hstack _ hsucceeded hloggedOut =>
    refine ⟨n, hstack.trans hn, ?_⟩
    omega
  | pushed hstack _ =>
    refine ⟨n + 1, ?_, ?_⟩
    · rw [hstack, hn, List.replicate_succ, List.cons_append]
    · change succeeded pre + 1 = loggedOut pre + 0 + (n + 1)
      omega
  | popped htop hstack _ =>
    obtain ⟨m, rfl, hpop⟩ := popViewController_panels hn htop
    refine ⟨m, hstack.trans hpop, ?_⟩
    change succeeded pre + 0 = loggedOut pre + 1 + m
    omega

/-- Given the panels counted, only a logout can break the property. -/
theorem step_leavesPanel_iff {pre : List Event} {s t : Session} {e : Event}
    (hpanels : PanelsCounted pre s) (hs : LeavesPanel s) (h : step s e = some t) :
    LeavesPanel t ↔ (e = .logoutPressed true → succeeded pre = loggedOut pre + 1) := by
  unfold LeavesPanel at hs ⊢
  cases step_effect h with
  | stays hstack huser _ hloggedOut =>
    refine iff_of_true ?_ ?_
    · rw [hstack, huser]
      exact hs
    · rintro rfl
      exact absurd hloggedOut (by decide)
  | pushed _ huser =>
    refine iff_of_true ?_ (by simp)
    rw [huser]
    simp
  | popped htop hstack huser =>
    obtain ⟨n, hn, hcount⟩ := hpanels
    obtain ⟨m, rfl, hpop⟩ := popViewController_panels hn htop
    rw [hstack, hpop, panels_eq_login_iff, huser]
    simp only [forall_const]
    omega

theorem panelsCounted_launch (storedEmail storedPassword user : Option String) :
    PanelsCounted [] (launch storedEmail storedPassword user) := ⟨0, rfl, rfl⟩

/-- In every state of a run a signed-out session shows only the login screen, exactly
when each logout that succeeds is preceded by one more success than logouts. -/
theorem logout_leaves_panel_iff (storedEmail storedPassword user : Option String)
    (es : List Event) :
    AtEach step (fun _ => LeavesPanel) (launch storedEmail storedPassword user) es ↔
      EachStep step
        (fun pre _ e _ => e = .logoutPressed true → succeeded pre = loggedOut pre + 1)
        (launch storedEmail storedPassword user) es :=
  atEach_iff_eachStep (I := PanelsCounted)
    (C := fun pre _ e => e = .logoutPressed true → succeeded pre = loggedOut pre + 1)
    (fun _ _ _ _ => step_panelsCounted)
    (panelsCounted_launch storedEmail storedPassword user)
    (fun _ => rfl) (fun _ _ _ _ => step_leavesPanel_iff) es

/-- Login is pressed again while the first sign-in is pending; both succeed, and a
single logout follows. -/
theorem second_panel_survives_logout :
    ¬ AtEach step (fun _ => LeavesPanel) (launch (some "admin") (some "secret") none)
      [.loginPressed, .loginPressed, .signInCompleted 0 true, .signInCompleted 0 true,
        .logoutPressed true] := by
  decide

end MiraclesAdmin.LoginSession
