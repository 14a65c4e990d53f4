import MiraclesAdmin.LoginSession

/-!
Which credentials the login screen remembers. A sign-in is submitted with the texts
of the fields, but its completion stores the texts the fields hold by then. So the
stored pair is one the auth service accepted exactly when every success finds such a
pair in the fields.
-/
namespace MiraclesAdmin.RememberedLogin

open Transition LoginSession

/-- The texts of the two fields. -/
def fields (s : Session) : Credentials := ⟨s.emailTextField, s.passwordTextField⟩

/-- The pair in the defaults. -/
def storedPair (s : Session) : Option String × Option String := (s.storedEmail, s.storedPassword)

/-- The defaults after these credentials are stored. -/
def pairOf (c : Credentials) : Option String × Option String := (some c.email, some c.password)

/-- The handlers of the session, whichever screen is on top. -/
def handle (s : Session) : Event → Option Session
  | .emailChanged text => some { s with emailTextField := text }
  | .passwordChanged text => some { s with passwordTextField := text }
  | .loginPressed => some s.loginPressed
  | .signInCompleted i success =>
    (s.signIns[i]?).map (fun credentials =>
      { s with signIns := s.signIns.eraseIdx i }.signInCompleted credentials success)
  | .alertDismissed => some { s with alert := none }
  | .logoutPressed signOut => some (s.logoutPressed signOut)

theorem handle_of_step {s t : Session} {e : Event} (h : step s e = some t) :
    handle s e = some t := by
  cases e with
  | signInCompleted => exact h
  | alertDismissed => exact h
  | emailChanged | passwordChanged | loginPressed | logoutPressed =>
    exact (guarded_eq_some.mp h).2

/-- The runs in which touches reach the screen on top are runs of the handlers. -/
theorem run_handle_of_run {s t : Session} {es : List Event} (h : run step s es = some t) :
    run handle s es = some t :=
  run_mono step (fun _ _ _ => handle_of_step) h

/-- The credentials of the sign-in that the auth service accepts. -/
def accepted (s : Session) : Event → Option Credentials
  | .signInCompleted i true => s.signIns[i]?
  | _ => none

/-- The credentials accepted along a run. -/
def acceptedIn (start : Session) (es : List Event) : List Credentials :=
  outputs handle accepted start es

/-- The stored pair is the one from before the run or one that was accepted. -/
def Remembers (start : Session) (pre : List Event) (s : Session) : Prop :=
  storedPair s = storedPair start ∨ ∃ c ∈ acceptedIn start pre, storedPair s = pairOf c

/-- Only credentials of a single accepted sign-in are remembered, and a sign-in that
fails leaves the stored pair as it was. -/
structure RemembersAccepted (start : Session) (es : List Event) : Prop where
  remembered : AtEach handle (Remembers start) start es
  failed : EachStep handle (fun _ s e t => ∀ i, e = .signInCompleted i false →
    storedPair t = storedPair s) start es

/-- A sign-in that succeeds finds in the fields its own credentials, others accepted
before, or the pair stored before the run. -/
def FindsAccepted (start : Session) (pre : List Event) (s : Session) (e : Event) : Prop :=
  ∀ i, e = .signInCompleted i true → pairOf (fields s) = storedPair start ∨
    fields s ∈ acceptedIn start pre ∨ s.signIns[i]? = some (fields s)

theorem pairOf_injective : Function.Injective pairOf := by
  intro c d h
  cases c
  cases d
  simpa [pairOf] using h

/-- What a handler does to the stored pair and to the pending sign-ins. -/
inductive Effect (s t : Session) : Event → Prop
  | kept {e : Event} (he : ∀ i, e ≠ .signInCompleted i true) (hpair : storedPair t = storedPair s)
      (hsignIns : ∀ c ∈ t.signIns, c ∈ s.signIns ∨ (e = .loginPressed ∧ c = fields s)) :
      Effect s t e
  | stored {i : ℕ} {c : Credentials} (hc : s.signIns[i]? = some c)
      (hpair : storedPair t = pairOf (fields s)) (hsignIns : ∀ c ∈ t.signIns, c ∈ s.signIns) :
      Effect s t (.signInCompleted i true)

theorem handle_effect {s t : Session} {e : Event} (h : handle s e = some t) : Effect s t e := by
  cases e with
  | signInCompleted i success =>
    obtain ⟨c, hc, rfl⟩ := Option.map_eq_some_iff.mp h
    cases success with
    | true => exact .stored hc rfl (fun _ => List.mem_of_mem_eraseIdx)
    | false => exact .kept (by simp) rfl (fun _ hd => Or.inl (List.mem_of_mem_eraseIdx hd))
  | loginPressed =>
    cases h
    refine .kept (by simp) ?_ ?_
    · unfold Session.loginPressed
      split <;> rfl
    · intro c hc
      unfold Session.loginPressed at hc
      split at hc
      · exact Or.inl hc
      · rcases List.mem_append.mp hc with hold | hnew
        · exact Or.inl hold
        · exact Or.inr ⟨rfl, List.mem_singleton.mp hnew⟩
  | logoutPressed signOut =>
    cases h
    cases signOut <;> exact .kept (by simp) rfl (fun _ hc => Or.inl hc)
  | emailChanged | passwordChanged | alertDismissed =>
    cases h
    exact .kept (by simp) rfl (fun _ hc => Or.inl hc)

/-- A pending sign-in was submitted by one press, with the texts of both fields. -/
theorem submitted_of_pending {start t : Session} {es : List Event} (hstart : start.signIns = [])
    (h : run handle start es = some t) {c : Credentials} (hc : c ∈ t.signIns) :
    ∃ pre s, pre ++ [.loginPressed] <+: es ∧ run handle start pre = some s ∧ fields s = c := by
  refine (run_history handle (I := fun es t => run handle start es = some t ∧ ∀ c ∈ t.signIns,
    ∃ pre s, pre ++ [.loginPressed] <+: es ∧ run handle start pre = some s ∧ fields s = c)
    ⟨rfl, by simp [hstart]⟩ ?_ h).2 c hc
  intro es s e t _ hs ht
  obtain ⟨hrun, hpending⟩ := hs
  have hkept : ∀ c ∈ s.signIns, ∃ pre s, pre ++ [.loginPressed] <+: es ++ [e] ∧
      run handle start pre = some s ∧ fields s = c := by
    intro c hc
    obtain ⟨pre, s, hpre, hs, hfields⟩ := hpending c hc
    exact ⟨pre, s, hpre.trans (List.prefix_append es [e]), hs, hfields⟩
  refine ⟨run_concat handle hrun ht, ?_⟩
  intro c hc
  cases handle_effect ht with
  | stored _ _ hsignIns => exact hkept c (hsignIns c hc)
  | kept _ _ hsignIns =>
    rcases hsignIns c hc with hold | ⟨rfl, rfl⟩
    · exact hkept c hold
    · exact ⟨es, s, List.prefix_rfl, hrun, rfl⟩

theorem acceptedIn_append {start s t : Session} {pre : List Event} {e : Event}
    (hs : run handle start pre = some s) (ht : handle s e = some t) :
    acceptedIn start (pre ++ [e]) = acceptedIn start pre ++ (accepted s e).toList :=
  outputs_concat hs ht

/-- Accepted credentials were submitted by one press, with the texts of both fields. -/
theorem submitted_of_accepted {start t : Session} {es : List Event} (hstart : start.signIns = [])
    (h : run handle start es = some t) {c : Credentials} (hc : c ∈ acceptedIn start es) :
    ∃ pre s, pre ++ [.loginPressed] <+: es ∧ run handle start pre = some s ∧ fields s = c := by
  induction es using List.reverseRecOn generalizing t with
  | nil => cases hc
  | append_singleton es e ih =>
    obtain ⟨s, hs, hst⟩ := run_concat_inv handle h
    rw [acceptedIn_append hs hst, List.mem_append, Option.mem_toList] at hc
    have hsubmitted : ∃ pre s, pre ++ [.loginPressed] <+: es ∧ run handle start pre = some s ∧
        fields s = c := by
      rcases hc with hold | hnew
      · exact ih hs hold
      · cases e with
        | signInCompleted i success =>
          cases success with
          | true => exact submitted_of_pending hstart hs (List.mem_of_getElem? hnew)
          | false => cases hnew
        | _ => cases hnew
    obtain ⟨pre, u, hpre, hu, hfields⟩ := hsubmitted
    exact ⟨pre, u, hpre.trans (List.prefix_append es [e]), hu, hfields⟩

/-- Given that the stored pair was accepted before, only a success can break this. -/
theorem step_remembers_iff {start s t : Session} {pre : List Event} {e : Event}
    (hrun : run handle start pre = some s) (hs : Remembers start pre s)
    (h : handle s e = some t) :
    Remembers start (pre ++ [e]) t ↔ FindsAccepted start pre s e := by
  unfold Remembers FindsAccepted
  rw [acceptedIn_append hrun h]
  cases handle_effect h with
  | kept he hpair =>
    refine iff_of_true ?_ (fun i hi => absurd hi (he i))
    rw [hpair]
    rcases hs with hold | ⟨c, hc, heq⟩
    · exact Or.inl hold
    · exact Or.inr ⟨c, List.mem_append_left _ hc, heq⟩
  | @stored i c hc hpair =>
    rw [hpair]
    simp only [pairOf_injective.eq_iff, exists_eq_right', List.mem_append, Option.mem_toList,
      accepted, Event.signInCompleted.injEq, and_true]
    constructor
    · intro h j hj
      subst hj
      exact h
    · intro h
      exact h i rfl

/-- A sign-in that fails leaves the stored pair as it was. -/
theorem failed_keepsPair (start : Session) (es : List Event) :
    EachStep handle (fun _ s e t => ∀ i, e = .signInCompleted i false →
      storedPair t = storedPair s) start es := by
  intro pre s e t _ _ h i hi
  subst hi
  cases handle_effect h with
  | kept _ hpair => exact hpair

/-- In every run of the login screen only accepted credentials are remembered exactly
when each sign-in that succeeds finds accepted ones, or the old pair, in the fields. -/
theorem remembers_accepted_iff (storedEmail storedPassword user : Option String)
    (es : List Event) :
    RemembersAccepted (launch storedEmail storedPassword user) es ↔
      EachStep handle (fun pre s e _ =>
        FindsAccepted (launch storedEmail storedPassword user) pre s e)
        (launch storedEmail storedPassword user) es := by
  rw [← atEach_iff_eachStep
    (I := fun pre s => run handle (launch storedEmail storedPassword user) pre = some s)
    (P := Remembers (launch storedEmail storedPassword user))
    (C := FindsAccepted (launch storedEmail storedPassword user))
    (fun _ _ _ _ hs ht => run_concat handle hs ht) rfl (Or.inl rfl)
    (fun _ _ _ _ => step_remembers_iff) es]
  constructor
  · intro h
    exact h.remembered
  · intro h
    exact ⟨h, failed_keepsPair _ es⟩

/-- So what the screen remembers, if it is not the old pair, was typed into the two fields
and submitted together. -/
theorem remembered_together {storedEmail storedPassword user : Option String}
    {es : List Event} {t : Session}
    (h : run step (launch storedEmail storedPassword user) es = some t)
    (hremembers : RemembersAccepted (launch storedEmail storedPassword user) es) :
    storedPair t = (storedEmail, storedPassword) ∨
      ∃ pre s, pre ++ [.loginPressed] <+: es ∧
        run handle (launch storedEmail storedPassword user) pre = some s ∧
        storedPair t = pairOf (fields s) := by
  have hrun := run_handle_of_run h
  rcases hremembers.remembered.last hrun with hold | ⟨c, hc, hpair⟩
  · exact Or.inl hold
  · obtain ⟨pre, s, hpre, hs, rfl⟩ := submitted_of_accepted rfl hrun hc
    exact Or.inr ⟨pre, s, hpre, hs, hpair⟩

/-- The password is retyped while the sign-in is pending; its success stores it. -/
theorem retyped_password_remembered :
    ¬ RemembersAccepted (launch (some "admin") (some "secret") none)
      [.loginPressed, .passwordChanged "secrte", .signInCompleted 0 true] := by
  intro h
  have hlast := h.remembered.last rfl
  exact absurd hlast (by unfold Remembers; decide)

end MiraclesAdmin.RememberedLogin
