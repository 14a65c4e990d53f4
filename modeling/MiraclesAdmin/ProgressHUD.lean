import MiraclesAdmin.Transition

/-!
The progress HUD, as far as the panel uses it: `show()` and `dismiss()`. Both only enqueue a
block. The block of a show adds the HUD to the front window and fades it in; the block of
a dismissal schedules the fade-out, which runs later and takes the HUD off the window when
its animation ends, unless the HUD was faded in again. So a show that runs while a
fade-out is scheduled is undone by it. While a window above the supported level is key,
as that of an alert is, there is no front window, and the HUD is faded in on none.
-/
namespace MiraclesAdmin.ProgressHUD

open Transition

inductive Call
  | showProgress
  | dismiss
deriving DecidableEq

/-- `alphaIsOne` is the alpha of the background view being 1; `scheduled` counts the
fade-outs of `dispatch_after`, `fadingOut` the fade-out animations that have not ended. -/
structure HUD where
  mainQueue : List Call := []
  activityCount : ℕ := 0
  alphaIsOne : Bool := false
  inHierarchy : Bool := false
  scheduled : ℕ := 0
  fadingOut : ℕ := 0

/-- A block runs with or without a front window. -/
inductive Event
  | called (call : Call)
  | blockRun (frontWindow : Bool)
  | fadeOutStarted
  | fadeOutEnded
deriving DecidableEq

namespace HUD

def isVisible (s : HUD) : Bool := s.alphaIsOne

/-- A HUD that is on no window is added to the front window, if there is one. -/
def updateViewHierarchy (s : HUD) (frontWindow : Bool) : HUD :=
  if s.inHierarchy = false then { s with inHierarchy := frontWindow } else s

/-- The block of `showProgress:status:` for an undefined progress. -/
def showBlock (s : HUD) (frontWindow : Bool) : HUD :=
  { s.updateViewHierarchy frontWindow with
    activityCount := s.activityCount + 1
    alphaIsOne := true }

/-- The block of `dismissWithDelay:completion:` without a delay. -/
def dismissBlock (s : HUD) : HUD := { s with activityCount := 0, scheduled := s.scheduled + 1 }

def runBlock (s : HUD) (frontWindow : Bool) : Call → HUD
  | .showProgress => s.showBlock frontWindow
  | .dismiss => s.dismissBlock

/-- The completion of a fade-out. -/
def removeIfTransparent (s : HUD) : HUD :=
  if s.alphaIsOne = false then { s with inHierarchy := false } else s

end HUD

def step (s : HUD) : Event → Option HUD
  | .called call => some { s with mainQueue := s.mainQueue ++ [call] }
  | .blockRun frontWindow =>
    match s.mainQueue with
    | [] => none
    | call :: rest => some ({ s with mainQueue := rest }.runBlock frontWindow call)
  | .fadeOutStarted => guarded (0 < s.scheduled)
      (some { s with
        scheduled := s.scheduled - 1, alphaIsOne := false, fadingOut := s.fadingOut + 1 })
  | .fadeOutEnded => guarded (0 < s.fadingOut)
      (some { s with fadingOut := s.fadingOut - 1 }.removeIfTransparent)

@[simp] theorem HUD.updateViewHierarchy_inHierarchy (s : HUD) (frontWindow : Bool) :
    (s.updateViewHierarchy frontWindow).inHierarchy = (s.inHierarchy || frontWindow) := by
  unfold HUD.updateViewHierarchy
  cases h : s.inHierarchy <;> simp [h]

@[simp] theorem HUD.updateViewHierarchy_mainQueue (s : HUD) (frontWindow : Bool) :
    (s.updateViewHierarchy frontWindow).mainQueue = s.mainQueue := by
  unfold HUD.updateViewHierarchy
  split <;> rfl

@[simp] theorem HUD.updateViewHierarchy_scheduled (s : HUD) (frontWindow : Bool) :
    (s.updateViewHierarchy frontWindow).scheduled = s.scheduled := by
  unfold HUD.updateViewHierarchy
  split <;> rfl

/-- The event runs a block, and the first of the queue is that of the call. -/
def Runs (call : Call) (s : HUD) (e : Event) : Prop :=
  (∃ frontWindow, e = .blockRun frontWindow) ∧ s.mainQueue.head? = some call

instance (call : Call) (s : HUD) : (e : Event) → Decidable (Runs call s e)
  | .blockRun frontWindow =>
    decidable_of_iff (s.mainQueue.head? = some call) ⟨fun h => ⟨⟨frontWindow, rfl⟩, h⟩, And.right⟩
  | .called _ | .fadeOutStarted | .fadeOutEnded =>
    isFalse (fun h => h.1.elim (fun _ he => nomatch he))

/-- The block of a show runs and finds a front window. -/
def Adds (s : HUD) (e : Event) : Prop := Runs .showProgress s e ∧ e = .blockRun true

instance (s : HUD) (e : Event) : Decidable (Adds s e) := inferInstanceAs (Decidable (_ ∧ _))

/-- A fade-out ends and takes the HUD off its window. -/
def Removes (s : HUD) (e : Event) : Prop := e = .fadeOutEnded ∧ s.alphaIsOne = false

instance (s : HUD) (e : Event) : Decidable (Removes s e) := inferInstanceAs (Decidable (_ ∧ _))

variable {s t : HUD} {e : Event}

/-- A HUD on the window that is not faded in leaves it when the fade-outs end. -/
def Fading (s : HUD) : Prop := s.alphaIsOne = false → s.inHierarchy = true → 0 < s.fadingOut

/-- The outcomes of a step, with what they do to the alpha and the scheduled fade-outs. -/
inductive Effect (s : HUD) : Event → HUD → Prop
  | called (call : Call) : Effect s (.called call) { s with mainQueue := s.mainQueue ++ [call] }
  | shown {frontWindow : Bool} {rest : List Call} (hqueue : s.mainQueue = .showProgress :: rest) :
      Effect s (.blockRun frontWindow) ({ s with mainQueue := rest }.showBlock frontWindow)
  | dismissed {frontWindow : Bool} {rest : List Call} (hqueue : s.mainQueue = .dismiss :: rest) :
      Effect s (.blockRun frontWindow) { s with mainQueue := rest }.dismissBlock
  | started (hscheduled : 0 < s.scheduled) :
      Effect s .fadeOutStarted { s with
        scheduled := s.scheduled - 1, alphaIsOne := false, fadingOut := s.fadingOut + 1 }
  | removed (halpha : s.alphaIsOne = false) :
      Effect s .fadeOutEnded { s with fadingOut := s.fadingOut - 1, inHierarchy := false }
  | stayed (halpha : s.alphaIsOne = true) :
      Effect s .fadeOutEnded { s with fadingOut := s.fadingOut - 1 }

theorem step_effect (h : step s e = some t) : Effect s e t := by
  cases e with
  | called call =>
    cases h
    exact .called call
  | blockRun frontWindow =>
    simp only [step] at h
    split at h
    · contradiction
    · rename_i call rest hqueue
      cases h
      cases call with
      | showProgress => exact .shown hqueue
      | dismiss => exact .dismissed hqueue
  | fadeOutStarted =>
    obtain ⟨hscheduled, h⟩ := guarded_eq_some.mp h
    cases h
    exact .started hscheduled
  | fadeOutEnded =>
    obtain ⟨_, h⟩ := guarded_eq_some.mp h
    cases h
    unfold HUD.removeIfTransparent
    split
    · rename_i halpha
      exact .removed halpha
    · rename_i halpha
      exact .stayed ((Bool.not_eq_false _).mp halpha)

theorem step_fading (hs : Fading s) (h : step s e = some t) : Fading t := by
  cases step_effect h with
  | called | dismissed => exact hs
  | shown => exact fun halpha => Bool.noConfusion halpha
  | started => exact fun _ _ => Nat.succ_pos _
  | removed => exact fun _ hin => Bool.noConfusion hin
  | stayed halpha => exact fun hzero => absurd (halpha.symm.trans hzero) nofun

theorem run_fading {es : List Event} (h : run step {} es = some t) : Fading t :=
  run_invariant step (fun _ hin => Bool.noConfusion hin) (fun _ _ _ _ hs ht => step_fading hs ht) h

theorem runs_showProgress (frontWindow : Bool) {rest : List Call}
    (hqueue : s.mainQueue = .showProgress :: rest) :
    Runs .showProgress s (.blockRun frontWindow) ∧ ¬ Runs .dismiss s (.blockRun frontWindow) := by
  refine ⟨⟨⟨frontWindow, rfl⟩, by rw [hqueue]; rfl⟩, fun hruns => ?_⟩
  have hhead := hruns.2
  rw [hqueue] at hhead
  cases hhead

theorem runs_dismiss (frontWindow : Bool) {rest : List Call}
    (hqueue : s.mainQueue = .dismiss :: rest) :
    Runs .dismiss s (.blockRun frontWindow) ∧ ¬ Runs .showProgress s (.blockRun frontWindow) := by
  refine ⟨⟨⟨frontWindow, rfl⟩, by rw [hqueue]; rfl⟩, fun hruns => ?_⟩
  have hhead := hruns.2
  rw [hqueue] at hhead
  cases hhead

theorem not_runs {call : Call} (he : ∀ frontWindow, e ≠ .blockRun frontWindow) :
    ¬ Runs call s e := by
  intro hruns
  obtain ⟨⟨frontWindow, heq⟩, _⟩ := hruns
  exact he frontWindow heq

theorem not_adds (he : ∀ frontWindow, e ≠ .blockRun frontWindow) : ¬ Adds s e :=
  fun hadds => not_runs he hadds.1

/-- The HUD is faded in and stays so. -/
def Stays (s : HUD) : Prop := s.alphaIsOne = true ∧ s.scheduled = 0

/-- The block of a show runs while no fade-out is scheduled. -/
def ShowsFreely (s : HUD) (e : Event) : Prop := Runs .showProgress s e ∧ s.scheduled = 0

/-- A step that runs no block of a show keeps a HUD that stays exactly if it runs no
block of a dismissal; one that does makes it stay if no fade-out is scheduled. -/
theorem step_stays_iff (h : step s e = some t) :
    Stays t ↔ ShowsFreely s e ∨ (Stays s ∧ ¬ Runs .dismiss s e) := by
  cases step_effect h with
  | called call =>
    have hother : ∀ c, ¬ Runs c s (.called call) := fun c => not_runs nofun
    simp only [ShowsFreely, hother, false_and, false_or, not_false_eq_true, and_true]
    exact Iff.rfl
  | @shown frontWindow rest hqueue =>
    obtain ⟨hshow, hdismiss⟩ := runs_showProgress frontWindow hqueue
    simp only [Stays, HUD.showBlock, HUD.updateViewHierarchy_scheduled, true_and, ShowsFreely,
      hshow, hdismiss, not_false_eq_true, and_true]
    exact ⟨Or.inl, fun hcases => hcases.elim id And.right⟩
  | @dismissed frontWindow rest hqueue =>
    obtain ⟨hdismiss, hshow⟩ := runs_dismiss frontWindow hqueue
    refine iff_of_false (fun hstays => absurd hstays.2 (Nat.succ_ne_zero _)) ?_
    rintro (hfree | hstays)
    · exact hshow hfree.1
    · exact hstays.2 hdismiss
  | started hscheduled =>
    have hother : ¬ Runs .showProgress s .fadeOutStarted := not_runs nofun
    refine iff_of_false (fun hstays => Bool.noConfusion hstays.1) ?_
    rintro (hfree | hstays)
    · exact hother hfree.1
    · exact absurd hstays.1.2 (Nat.ne_of_gt hscheduled)
  | removed | stayed =>
    have hother : ∀ c, ¬ Runs c s .fadeOutEnded := fun c => not_runs nofun
    simp only [ShowsFreely, hother, false_and, false_or, not_false_eq_true, and_true]
    exact Iff.rfl

/-- A step puts the HUD on a window, takes it off or leaves it where it is. -/
theorem step_inHierarchy_iff (h : step s e = some t) :
    t.inHierarchy = true ↔ Adds s e ∨ (s.inHierarchy = true ∧ ¬ Removes s e) := by
  cases step_effect h with
  | called call =>
    have hadds : ¬ Adds s (.called call) := not_adds nofun
    simp [hadds, Removes]
  | started =>
    have hadds : ¬ Adds s .fadeOutStarted := not_adds nofun
    simp [hadds, Removes]
  | @shown frontWindow rest hqueue =>
    obtain ⟨hshow, _⟩ := runs_showProgress frontWindow hqueue
    simp only [HUD.showBlock, HUD.updateViewHierarchy_inHierarchy, Bool.or_eq_true, Adds, hshow,
      true_and, Event.blockRun.injEq, Removes, reduceCtorEq, false_and, not_false_eq_true,
      and_true]
    exact Or.comm
  | @dismissed frontWindow rest hqueue =>
    obtain ⟨_, hshow⟩ := runs_dismiss frontWindow hqueue
    simp [HUD.dismissBlock, Adds, hshow, Removes]
  | removed halpha =>
    have hadds : ¬ Adds s .fadeOutEnded := not_adds nofun
    simp [hadds, Removes, halpha]
  | stayed halpha =>
    have hadds : ¬ Adds s .fadeOutEnded := not_adds nofun
    simp [hadds, Removes, halpha]

/-- The block of a show ran when no fade-out was scheduled, and the block of no dismissal
has run since. -/
def ShownSince (es : List Event) : Prop := Since step ShowsFreely (Runs .dismiss) {} es

/-- The block of a show found a front window, and no fade-out has removed the HUD since. -/
def AddedSince (es : List Event) : Prop := Since step Adds Removes {} es

theorem stays_iff_shownSince {es : List Event} (h : run step {} es = some s) :
    Stays s ↔ ShownSince es :=
  holds_iff_since (P := Stays) (fun hstays => Bool.noConfusion hstays.1)
    (fun _ _ _ ht => step_stays_iff ht) h

theorem inHierarchy_iff_addedSince {es : List Event} (h : run step {} es = some s) :
    s.inHierarchy = true ↔ AddedSince es :=
  holds_iff_since (P := fun s => s.inHierarchy = true) Bool.noConfusion
    (fun _ _ _ ht => step_inHierarchy_iff ht) h

/-- Without fade-outs, a HUD on the window is visible and stays. -/
theorem Fading.stays (hs : Fading s) (hscheduled : s.scheduled = 0) (hfading : s.fadingOut = 0)
    (hin : s.inHierarchy = true) : Stays s := by
  refine ⟨?_, hscheduled⟩
  by_contra halpha
  have hpositive := hs ((Bool.not_eq_true _).mp halpha) hin
  omega

/-- If every show finds a front window, a HUD that is faded in is on a window. -/
theorem inHierarchy_of_fronted {es : List Event}
    (hfront : EachStep step (fun _ s e _ => Runs .showProgress s e → Adds s e) {} es)
    (h : run step {} es = some t) : t.alphaIsOne = true → t.inHierarchy = true := by
  refine eachStep_invariant (P := fun t => t.alphaIsOne = true → t.inHierarchy = true) hfront
    Bool.noConfusion ?_ h
  intro _ s e t hfront hs ht halpha
  refine (step_inHierarchy_iff ht).mpr ?_
  cases step_effect ht with
  | called => exact Or.inr ⟨hs halpha, fun hremoves => nomatch hremoves.1⟩
  | shown hqueue => exact Or.inl (hfront (runs_showProgress _ hqueue).1)
  | dismissed => exact Or.inr ⟨hs halpha, fun hremoves => nomatch hremoves.1⟩
  | started => exact Bool.noConfusion halpha
  | removed hzero | stayed _ =>
    refine Or.inr ⟨hs halpha, fun hremoves => ?_⟩
    exact absurd (halpha.symm.trans hremoves.2) nofun

/-- In every run, once no fade-out is scheduled or under way, the HUD is visible exactly if
a show found no fade-out scheduled and no dismissal has followed it, and on a window
exactly if it is visible and a show found a front window since it last left one. If every
show finds a front window, the HUD is on a window exactly if it is visible. -/
theorem visible_iff_shownSince (es : List Event) (t : HUD) (h : run step {} es = some t)
    (hscheduled : t.scheduled = 0) (hfading : t.fadingOut = 0) :
    (t.isVisible = true ↔ ShownSince es) ∧
      (t.inHierarchy = true ↔ t.isVisible = true ∧ AddedSince es) ∧
      (EachStep step (fun _ s e _ => Runs .showProgress s e → Adds s e) {} es →
        (t.inHierarchy = true ↔ t.isVisible = true)) := by
  have hvisible : t.inHierarchy = true → t.isVisible = true :=
    fun hin => ((run_fading h).stays hscheduled hfading hin).1
  refine ⟨?_, ?_, fun hfront => ⟨hvisible, inHierarchy_of_fronted hfront h⟩⟩
  · rw [← stays_iff_shownSince h]
    exact ⟨fun halpha => ⟨halpha, hscheduled⟩, fun hstays => hstays.1⟩
  · rw [← inHierarchy_iff_addedSince h]
    exact ⟨fun hin => ⟨hvisible hin, hin⟩, And.right⟩

/-- A show after the fade-out has started keeps the HUD when the animation ends; one that
runs while an alert has the key window puts it on no window. -/
def shownWhileFading : List Event :=
  [.called .showProgress, .blockRun false, .called .dismiss, .blockRun true, .fadeOutStarted,
    .called .showProgress, .blockRun false, .fadeOutEnded]

theorem shownWhileFading_shownSince :
    ShownSince shownWhileFading ∧ ¬ AddedSince shownWhileFading := by
  have hrun : ∃ t, run step {} shownWhileFading = some t ∧ t.scheduled = 0 ∧ t.fadingOut = 0 ∧
      t.isVisible = true ∧ t.inHierarchy = false := ⟨_, rfl, rfl, rfl, rfl, rfl⟩
  obtain ⟨t, ht, hscheduled, hfading, hvisible, hout⟩ := hrun
  obtain ⟨hshown, hadded, _⟩ := visible_iff_shownSince shownWhileFading t ht hscheduled hfading
  refine ⟨hshown.mp hvisible, fun hsince => ?_⟩
  exact absurd (hout.symm.trans (hadded.mpr ⟨hvisible, hsince⟩)) nofun

/-- The call an event makes. -/
def callOf : Event → Option Call
  | .called call => some call
  | _ => none

/-- The calls made in a run, in their order. -/
def calls (es : List Event) : List Call := es.filterMap callOf

/-- A block of a show runs while no fade-out is scheduled, and finds a front window. -/
def Free (s : HUD) (e : Event) : Prop := Runs .showProgress s e → s.scheduled = 0 ∧ Adds s e

instance (s : HUD) (e : Event) : Decidable (Free s e) :=
  inferInstanceAs (Decidable (_ → _))

/-- A step runs the first block of the queue, or queues the call it makes. -/
theorem step_queue (h : step s e = some t) :
    (∃ call, Runs call s e ∧ callOf e = none ∧ s.mainQueue = call :: t.mainQueue) ∨
      ((∀ call, ¬ Runs call s e) ∧ t.mainQueue = s.mainQueue ++ (callOf e).toList) := by
  cases step_effect h with
  | called call => exact Or.inr ⟨fun _ => not_runs nofun, rfl⟩
  | shown hqueue =>
    refine Or.inl ⟨.showProgress, (runs_showProgress _ hqueue).1, rfl, ?_⟩
    rw [hqueue]
    simp [HUD.showBlock]
  | dismissed hqueue => exact Or.inl ⟨.dismiss, (runs_dismiss _ hqueue).1, rfl, hqueue⟩
  | started | removed | stayed =>
    exact Or.inr ⟨fun _ => not_runs nofun, (List.append_nil _).symm⟩

/-- The calls of a run are the ones whose blocks ran, followed by those still queued. The
last block that ran is of a show if the HUD stays, and the HUD stays then if no show
met a scheduled fade-out. -/
structure Ran (es : List Event) (t : HUD) (ran : List Call) : Prop where
  calls_eq : calls es = ran ++ t.mainQueue
  last : Stays t → ran.getLast? = some .showProgress
  stays : EachStep step (fun _ s e _ => Free s e) {} es → ran.getLast? = some .showProgress →
    Stays t

theorem step_ran {es : List Event} {ran : List Call} (hs : run step {} es = some s)
    (hran : Ran es s ran) (h : step s e = some t) : ∃ ran', Ran (es ++ [e]) t ran' := by
  have hcalls : calls (es ++ [e]) = calls es ++ (callOf e).toList := by
    rw [calls, calls, List.filterMap_append]
    cases hcall : callOf e <;> simp [hcall]
  have hstays := step_stays_iff h
  rcases step_queue h with ⟨call, hruns, hnone, hqueue⟩ | ⟨hnot, hqueue⟩
  · refine ⟨ran ++ [call], ?_, ?_, ?_⟩
    · rw [hcalls, hnone, hran.calls_eq, hqueue]
      simp
    · intro hstay
      rw [List.getLast?_concat]
      rcases hstays.mp hstay with ⟨hshow, _⟩ | ⟨_, hnot⟩
      · exact hruns.2.symm.trans hshow.2
      · cases call with
        | showProgress => rfl
        | dismiss => exact absurd hruns hnot
    · intro hfree hlast
      rw [List.getLast?_concat] at hlast
      cases hlast
      obtain ⟨_, hlast⟩ := (eachStep_concat_iff hs h).mp hfree
      exact hstays.mpr (Or.inl ⟨hruns, (hlast hruns).1⟩)
  · simp only [ShowsFreely, hnot, false_and, false_or, not_false_eq_true, and_true] at hstays
    refine ⟨ran, ?_, ?_, ?_⟩
    · rw [hcalls, hran.calls_eq, hqueue, List.append_assoc]
    · exact fun hstay => hran.last (hstays.mp hstay)
    · intro hfree hlast
      obtain ⟨hbefore, _⟩ := (eachStep_concat_iff hs h).mp hfree
      exact hstays.mpr (hran.stays hbefore hlast)

theorem run_ran {es : List Event} (h : run step {} es = some t) : ∃ ran, Ran es t ran := by
  refine run_along (I := fun pre t => ∃ ran, Ran pre t ran)
    ⟨[], rfl, fun hstays => Bool.noConfusion hstays.1, fun _ hlast => nomatch hlast⟩ ?_ h
  intro pre s e t hpre hran ht
  obtain ⟨ran, hran⟩ := hran
  exact step_ran hpre hran ht

/-- Once the queue is empty and no fade-out is scheduled or under way, the last call of a
HUD on the window was a show; if every show found a front window and no scheduled
fade-out, the converse holds. -/
theorem inHierarchy_of_calls {es : List Event} (h : run step {} es = some t)
    (hqueue : t.mainQueue = []) (hscheduled : t.scheduled = 0) (hfading : t.fadingOut = 0) :
    (t.inHierarchy = true → (calls es).getLast? = some .showProgress) ∧
      (EachStep step (fun _ s e _ => Free s e) {} es →
        (calls es).getLast? = some .showProgress → t.inHierarchy = true) := by
  obtain ⟨ran, hran⟩ := run_ran h
  have hcalls : calls es = ran := by rw [hran.calls_eq, hqueue, List.append_nil]
  rw [hcalls]
  refine ⟨fun hin => hran.last ((run_fading h).stays hscheduled hfading hin), ?_⟩
  intro hfree hlast
  refine inHierarchy_of_fronted ?_ h (hran.stays hfree hlast).1
  exact fun pre s e t hp hs ht hshow => (hfree pre s e t hp hs ht hshow).2

end MiraclesAdmin.ProgressHUD
