import Mathlib.Data.List.Perm.Basic
import MiraclesAdmin.AddPopup

/-!
What a session of the add popup creates, against how it was closed. Save stays
enabled while writes are pending, and closing the popup cancels none of them. So a
session creates what its closing promises exactly when no write succeeds after the
popup is gone.
-/
namespace MiraclesAdmin.PopupClosing

open Transition CategoryStore AddPopup

/-- The popup goes away at the first event that closes it. -/
def closing (es : List Event) : Option Closing := es.findSome? Event.closes

/-- The writes that succeeded. -/
def succeeded (es : List Event) : ℕ := es.countP (fun e => e.closes = some .saved)

/-- A session up to the end: the popup is gone and all writes have completed. -/
structure CompleteSession where
  currentCategory : String
  stored : Records
  events : List Event
  final : Session
  run_events : run step (opened currentCategory stored) events = some final
  gone : final.isPresented = false
  settled : final.pending = []

/-- The keys of the records that a session created. -/
def CompleteSession.created (f : CompleteSession) : List String :=
  f.final.records.keys.filter (fun key => key ∉ f.stored.keys)

/-- A session creates one record if a save closed its popup and none if Cancel did,
and a failed write leaves the popup as it was. -/
structure CreatesAsClosed (f : CompleteSession) : Prop where
  atMostOne : f.created.length ≤ 1
  saved : f.created.length = 1 ↔ closing f.events = some .saved
  cancelled : closing f.events = some .cancelled → f.created = []
  retry : EachStep step (fun _ s e t => ∀ i, e = .writeCompleted i false →
    t.popup = s.popup ∧ t.isPresented = s.isPresented) (opened f.currentCategory f.stored) f.events

/-- A write that succeeds finds the popup open. -/
def SucceedsWhileOpen (s : Session) (e : Event) : Prop :=
  e.closes = some .saved → s.isPresented = true

/-- What holds along a session: the popup is open until it is closed, a save that
closed it succeeded, the keys in use are distinct, and the new records are those of
the writes that succeeded. -/
structure Consistent (stored : Records) (pre : List Event) (s : Session) : Prop where
  presented : s.isPresented = true ↔ closing pre = none
  closedBySave : closing pre = some .saved → 1 ≤ succeeded pre
  distinct : (s.pending.map Prod.fst ++ s.records.keys).Nodup
  kept : ∀ key ∈ stored.keys, key ∈ s.records.keys
  counted : (s.records.keys.filter (fun key => key ∉ stored.keys)).length = succeeded pre

theorem closing_append (pre : List Event) (e : Event) :
    closing (pre ++ [e]) = (closing pre).or e.closes := by
  unfold closing
  rw [List.findSome?_append]
  cases hc : e.closes <;> simp [hc]

theorem succeeded_append (pre : List Event) (e : Event) :
    succeeded (pre ++ [e]) = succeeded pre + if e.closes = some .saved then 1 else 0 := by
  unfold succeeded
  rw [List.countP_append]
  simp [List.countP_cons]

theorem map_perm_cons_eraseIdx {A B : Type*} {f : A → B} {as : List A} {i : ℕ} {a : A}
    (ha : as[i]? = some a) : (as.map f).Perm (f a :: (as.eraseIdx i).map f) := by
  obtain ⟨hi, rfl⟩ := List.getElem?_eq_some_iff.mp ha
  exact (List.getElem_cons_eraseIdx_perm hi).symm.map f

theorem consistent_opened (currentCategory : String) (stored : Records) :
    Consistent stored [] (opened currentCategory stored) := by
  refine ⟨by simp [opened, closing], by simp [closing], ?_, by simp [opened], ?_⟩
  · simpa [opened] using stored.keys_nodup
  · simp [opened, succeeded]

/-- An event that closes nothing and leaves the keys alone. -/
theorem Consistent.unclosed {stored : Records} {pre : List Event} {s t : Session} {e : Event}
    (hs : Consistent stored pre s) (he : e.closes = none)
    (hpresented : t.isPresented = s.isPresented) (hrecords : t.records = s.records)
    (hpending : (t.pending.map Prod.fst).Sublist (s.pending.map Prod.fst)) :
    Consistent stored (pre ++ [e]) t := by
  have hclosing : closing (pre ++ [e]) = closing pre := by
    rw [closing_append, he, Option.or_none]
  have hsucceeded : succeeded (pre ++ [e]) = succeeded pre := by
    rw [succeeded_append, he, if_neg (by simp), Nat.add_zero]
  refine ⟨?_, ?_, ?_, ?_, ?_⟩
  · rw [hpresented, hclosing]
    exact hs.presented
  · rw [hclosing, hsucceeded]
    exact hs.closedBySave
  · rw [hrecords]
    exact hs.distinct.sublist (hpending.append_right s.records.keys)
  · rw [hrecords]
    exact hs.kept
  · rw [hrecords, hsucceeded]
    exact hs.counted

theorem step_consistent {stored : Records} {pre : List Event} {s t : Session} {e : Event}
    (hs : Consistent stored pre s) (h : step s e = some t) : Consistent stored (pre ++ [e]) t := by
  cases step_effect h with
  | popup he => exact hs.unclosed he rfl rfl (List.Sublist.refl _)
  | failed => exact hs.unclosed rfl rfl rfl ((List.eraseIdx_sublist _ _).map Prod.fst)
  | @sent autoId popup value hfresh _ =>
    have hsame : Consistent stored (pre ++ [Event.savePressed autoId]) { s with popup := popup } :=
      hs.unclosed rfl rfl rfl (List.Sublist.refl _)
    refine ⟨hsame.presented, hsame.closedBySave, ?_, hsame.kept, hsame.counted⟩
    have hperm : ((s.pending ++ [(autoId, value)]).map Prod.fst ++ s.records.keys).Perm
        (autoId :: (s.pending.map Prod.fst ++ s.records.keys)) := by
      rw [List.map_append, List.append_assoc]
      exact List.perm_middle
    exact hperm.nodup_iff.mpr (List.nodup_cons.mpr ⟨hfresh.2, hs.distinct⟩)
  | cancelled hopen =>
    have hclosing : closing (pre ++ [Event.closePopup]) = some .cancelled := by
      rw [closing_append, hs.presented.mp hopen]
      rfl
    have hsucceeded : succeeded (pre ++ [Event.closePopup]) = succeeded pre := succeeded_append _ _
    refine ⟨by simp [hclosing], by simp [hclosing], hs.distinct, hs.kept, ?_⟩
    rw [hsucceeded]
    exact hs.counted
  | @created i write hwrite =>
    have hclosing : closing (pre ++ [Event.writeCompleted i true]) =
        (closing pre).or (some .saved) := closing_append _ _
    have hsucceeded : succeeded (pre ++ [Event.writeCompleted i true]) = succeeded pre + 1 :=
      succeeded_append _ _
    have hkeys := map_perm_cons_eraseIdx (f := Prod.fst) hwrite
    have hdistinct := (hkeys.append_right s.records.keys).nodup_iff.mp hs.distinct
    obtain ⟨hfresh, hrest⟩ := List.nodup_cons.mp hdistinct
    have hnew : write.1 ∉ s.records.keys := fun hmem => hfresh (List.mem_append_right _ hmem)
    have hrecords := Records.keys_setValue_of_fresh hnew write.2
    refine ⟨?_, by omega, ?_, ?_, ?_⟩
    · rw [hclosing]
      cases closing pre <;> simp
    · change (_ ++ (s.records.setValue write.1 write.2).keys).Nodup
      rw [hrecords]
      exact List.perm_middle.nodup_iff.mpr hdistinct
    · intro key hkey
      change key ∈ (s.records.setValue write.1 write.2).keys
      rw [hrecords]
      exact List.mem_cons_of_mem _ (hs.kept key hkey)
    · have hnotStored : write.1 ∉ stored.keys := fun hmem => hnew (hs.kept _ hmem)
      change ((s.records.setValue write.1 write.2).keys.filter _).length = _
      rw [hrecords, List.filter_cons_of_pos (by simpa using hnotStored), List.length_cons,
        hs.counted, hsucceeded]

/-- As many records were created as the closing promises. -/
def CountsAsClosed (pre : List Event) : Prop :=
  succeeded pre = if closing pre = some .saved then 1 else 0

/-- Only a success that comes late exceeds what the closing promises. -/
theorem step_countsAsClosed_iff {stored : Records} {pre : List Event} {s t : Session} {e : Event}
    (hs : Consistent stored pre s) (h : step s e = some t) :
    CountsAsClosed (pre ++ [e]) ↔ CountsAsClosed pre ∧ SucceedsWhileOpen s e := by
  have hpresented := hs.presented
  have hclosed := hs.closedBySave
  unfold CountsAsClosed SucceedsWhileOpen
  rw [succeeded_append, closing_append]
  cases step_effect h with
  | popup he => simp [he]
  | sent => simp [Event.closes]
  | failed => simp [Event.closes]
  | cancelled hopen =>
    rw [hpresented.mp hopen]
    simp [Event.closes]
  | created =>
    cases hc : closing pre with
    | none => simp [Event.closes, hpresented.mpr hc]
    | some c =>
      have hgone : ¬ s.isPresented = true := fun hopen => by simp [hpresented.mp hopen] at hc
      cases c with
      | cancelled => simp [Event.closes, hgone]
      | saved =>
        have hone := hclosed hc
        simp [Event.closes, hgone]
        omega

namespace CompleteSession

theorem consistent (f : CompleteSession) : Consistent f.stored f.events f.final :=
  run_history step (consistent_opened f.currentCategory f.stored)
    (fun _ _ _ _ _ => step_consistent) f.run_events

/-- A complete session was closed. -/
theorem closing_ne_none (f : CompleteSession) : closing f.events ≠ none := by
  intro h
  have hopen := f.consistent.presented.mpr h
  rw [f.gone] at hopen
  cases hopen

theorem retry (f : CompleteSession) : EachStep step
    (fun _ s e t => ∀ i, e = .writeCompleted i false →
      t.popup = s.popup ∧ t.isPresented = s.isPresented)
    (opened f.currentCategory f.stored) f.events := by
  rintro pre s _ t _ _ h i rfl
  obtain ⟨write, _, rfl⟩ := Option.map_eq_some_iff.mp h
  exact ⟨rfl, rfl⟩

theorem createsAsClosed_iff_counts (f : CompleteSession) :
    CreatesAsClosed f ↔ CountsAsClosed f.events := by
  have hcounted : f.created.length = succeeded f.events := f.consistent.counted
  have hone := f.consistent.closedBySave
  unfold CountsAsClosed
  constructor
  · intro hcreates
    obtain ⟨hmost, hsaved, hcancelled, _⟩ := hcreates
    rw [← hcounted]
    cases hc : closing f.events with
    | none => exact absurd hc f.closing_ne_none
    | some c =>
      cases c with
      | saved => simpa using hsaved.mpr hc
      | cancelled => simp [hcancelled hc]
  · intro h
    cases hc : closing f.events with
    | none => exact absurd hc f.closing_ne_none
    | some c =>
      cases c with
      | saved =>
        rw [hc, if_pos rfl, ← hcounted] at h
        exact ⟨by omega, by simp [h, hc], by simp [hc], f.retry⟩
      | cancelled =>
        rw [hc, if_neg (by simp), ← hcounted] at h
        exact ⟨by omega, by simp [h, hc], fun _ => List.length_eq_zero_iff.mp h, f.retry⟩

end CompleteSession

/-- A complete session creates what its closing promises exactly when every write
that succeeds finds the popup open. -/
theorem creates_as_closed_iff (f : CompleteSession) :
    CreatesAsClosed f ↔ EachStep step (fun _ s e _ => SucceedsWhileOpen s e)
      (opened f.currentCategory f.stored) f.events := by
  rw [f.createsAsClosed_iff_counts]
  exact run_iff_eachStep (P := fun pre _ => CountsAsClosed pre) (I := Consistent f.stored)
    (fun _ _ _ _ => step_consistent) (consistent_opened f.currentCategory f.stored) rfl
    (fun _ _ _ _ => step_countsAsClosed_iff) f.run_events

/-- Save is pressed twice while the first write is pending. -/
def savedTwice : CompleteSession where
  currentCategory := "Rings"
  stored := ∅
  events := [.editName "Opal Ring", .editPrice 0 0 "55", .editDescription "blue",
    .savePressed "-L1", .savePressed "-L2", .writeCompleted 0 true, .writeCompleted 0 true]
  final := _
  run_events := rfl
  gone := rfl
  settled := rfl

/-- Two presses create two products. -/
theorem saved_twice_creates_two : ¬ ∀ f : CompleteSession, CreatesAsClosed f := by
  intro h
  exact absurd (h savedTwice).atMostOne (by decide)

end MiraclesAdmin.PopupClosing
