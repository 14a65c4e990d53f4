import MiraclesAdmin.NetworkSteps

/-!
What it takes to lose a record. Additions and saves keep every key but when a save goes
to the empty key, and a deletion takes away its own key only. A request to delete is
sent by nothing but the Delete action of an alert, for the product that is selected
when the alert is answered. So behind every record that is gone there is a confirmed
alert, or a write under the empty key.
-/
namespace MiraclesAdmin.ConfirmedDeletions

open SwiftText Transition ObjectHeap ProductRecords CategoryStore CategoryWrites
open ScreenSteps hiding Effect step_effect
open ProductsScreen hiding Event step launch
open AdminNetwork NetworkSteps

variable {C : Type*} [DecidableEq C] {F : Foundation} {B : Firebase} {s t : Network C}
  {e : Event C}

/-- The event answers an alert with Delete while the record's product is selected. -/
def Confirms (s : Network C) (e : Event C) (category key : String) : Prop :=
  ∃ c view, e = .client c (.alertDelete view) ∧ view ∈ (s.clients c).app.alerts ∧
    (s.clients c).app.currentCategory = category ∧ (s.clients c).app.selected.key = key

/-- The deletion of the record was confirmed somewhere in the run. -/
def Confirmed (F : Foundation) (B : Firebase) (start : Network C) (es : List (Event C))
    (category key : String) : Prop :=
  Took (step F B) (fun u e _ => Confirms u e category key) start es

theorem run_confirmed {stored : Database} {taken : List String} {es : List (Event C)}
    (h : run (step F B) (launched stored taken) es = some t) {c : C} {q : Sent}
    (hq : q ∈ (t.clients c).outgoing) (hremove : q.write.write = .removeValue) :
    Confirmed F B (launched stored taken) es q.write.category q.write.key := by
  obtain ⟨pre, e, post, u, v, rfl, hu, hv, hsends⟩ := (run_sends h hq).press
  cases hsends with
  | saved | added => cases hremove
  | @deleted _ view hw =>
    exact ⟨pre, _, post, u, v, rfl, hu, hv, c, view, rfl, hw, rfl, rfl⟩

/-- A step that loses a key commits a deletion of it, or a write under the empty key. -/
theorem step_loses (h : step F B s e = some t) {category key : String}
    (hkey : key ∈ (s.db category).keys) (hlost : key ∉ (t.db category).keys) :
    ∃ q, committed s e = some q ∧ q.write.category = category ∧
      (q.write.key = "" ∨ (q.write.key = key ∧ q.write.write = .removeValue)) := by
  rcases step_stored h with ⟨hdb, _⟩ | ⟨q, hq, hdb⟩
  · rw [hdb] at hlost
    exact absurd hkey hlost
  · rw [hdb] at hlost
    by_cases hcategory : category = q.write.category
    · subst hcategory
      rw [store_self] at hlost
      exact ⟨q, hq, rfl, Firebase.commit_loses hkey hlost⟩
    · rw [store_of_ne hcategory] at hlost
      exact absurd hkey hlost

/-- In every run, a record that is stored at some time and gone later was taken away by a
commit in between: of a deletion of its own that was confirmed before, while its product
was selected, or of a write under the empty key. -/
theorem lost_only_when_confirmed (F : Foundation) (B : Firebase) (stored : Database)
    (taken : List String) (before after : List (Event C)) (s t : Network C)
    (hs : run (step F B) (launched stored taken) before = some s)
    (ht : run (step F B) s after = some t) (category key : String)
    (hkey : key ∈ (s.db category).keys) (hlost : key ∉ (t.db category).keys) :
    ∃ pre e post u v w, after = pre ++ e :: post ∧ run (step F B) s pre = some u ∧
      step F B u e = some v ∧ key ∈ (u.db category).keys ∧ key ∉ (v.db category).keys ∧
      committedWrite u e = some w ∧ w.category = category ∧
      (w.key = "" ∨ (w.key = key ∧ w.write = .removeValue ∧
        Confirmed F B (launched stored taken) (before ++ pre) category key)) := by
  obtain ⟨pre, e, post, u, v, rfl, hu, hv, hstored, hgone⟩ := run_loses (step F B)
    (P := fun u : Network C => key ∈ (u.db category).keys) hkey hlost ht
  obtain ⟨q, hq, rfl, hcause⟩ := step_loses hv hstored hgone
  refine ⟨pre, e, post, u, v, q.write, rfl, hu, hv, hstored, hgone, ?_, rfl, ?_⟩
  · rw [committedWrite, hq, Option.map_some]
  · refine hcause.imp_right (fun hdeletion => ?_)
    obtain ⟨rfl, hremove⟩ := hdeletion
    obtain ⟨c, _, hmem⟩ := committed_mem hq
    have hrun : run (step F B) (launched stored taken) (before ++ pre) = some u := by
      rw [run_append_of_eq (step F B) hs]
      exact hu
    exact ⟨rfl, hremove, run_confirmed hrun hmem hremove⟩

/-- The ring is gone when its deletion has been committed. -/
theorem ring_lost_when_confirmed : ∃ (t : Network Unit) (pre : List (Event Unit)) (e : Event Unit)
    (u : Network Unit) (w : DatabaseWrite),
    run (step asciiFoundation namesCategory) (launched oneRing []) (savedAfterDeletion.take 8) =
      some t ∧ "-L1" ∉ (t.db "Rings").keys ∧
    run (step asciiFoundation namesCategory) (launched oneRing []) pre = some u ∧
    committedWrite u e = some w ∧ w.category = "Rings" ∧
    (w.key = "" ∨ Confirmed asciiFoundation namesCategory (launched oneRing []) pre "Rings"
      "-L1") := by
  have hrun : ∃ t, run (step asciiFoundation namesCategory) (launched oneRing [])
      (savedAfterDeletion.take 8) = some t ∧ "-L1" ∉ (t.db "Rings").keys := ⟨_, rfl, by decide⟩
  obtain ⟨t, ht, hlost⟩ := hrun
  obtain ⟨pre, e, _, u, _, w, _, hu, _, _, _, hw, hcategory, hcause⟩ := lost_only_when_confirmed
    asciiFoundation namesCategory oneRing [] [] (savedAfterDeletion.take 8) _ t rfl ht "Rings"
    "-L1" (by decide) hlost
  exact ⟨t, pre, e, u, w, ht, hlost, hu, hw, hcategory, hcause.imp_right (fun h => h.2.2)⟩

end MiraclesAdmin.ConfirmedDeletions
