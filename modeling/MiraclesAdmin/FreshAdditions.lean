import MiraclesAdmin.RequestOrigins

/-!
An addition never replaces a record. Its key was generated when the popup sent it, and
only its client can know it before it is committed: what this client writes there waits
behind the addition. So until then no write to the key is committed, and the database,
whose keys are traced to the start and to commits, does not hold it.
-/
namespace MiraclesAdmin.FreshAdditions

open SwiftText Transition ProductRecords ProductForm CategoryStore CategoryWrites
open ProductsScreen hiding Event step launch
open AdminNetwork NetworkSteps StoredRecords RequestOrigins

variable {C : Type*} [DecidableEq C] {F : Foundation} {B : Firebase} {s t : Network C}
  {e : Event C} {stored : Database} {taken : List String} {es : List (Event C)}

/-- The key of an addition is generated by the step that sends it. -/
theorem sent_autoId (h : step F B s e = some t) {q : Sent} (hq : q ∈ sent s e t)
    (haddition : q.IsAddition) :
    IsAutoId q.write.key ∧ q.write.key ∉ s.autoIds ∧ q.write.key ∈ t.autoIds := by
  obtain ⟨hsends, _⟩ := mem_sent h hq
  obtain ⟨i, id, hid⟩ := haddition
  have htaken := sends_autoId h hsends hid
  cases hsends with
  | saved | deleted => cases hid
  | added _ hauto hnew =>
    cases hid
    exact ⟨hauto, hnew, htaken⟩

/-- The last event of a run added the product, or an earlier one has. -/
theorem hasAdded_concat {u : Network C} (ht : run (step F B) s es = some t)
    (hu : step F B t e = some u) {c : C} {category key : String}
    (h : HasAdded F B s (es ++ [e]) c category key) :
    HasAdded F B s es c category key ∨ (e.actor = c ∧ IsAutoId key ∧ key ∉ t.autoIds ∧
      key ∈ u.autoIds) := by
  obtain ⟨q, hsent, haddition, hcategory, rfl⟩ := h
  rcases (took_concat_iff _ ht hu).mp hsent with hold | ⟨hactor, hnew⟩
  · exact Or.inl ⟨q, hold, haddition, hcategory, rfl⟩
  · exact Or.inr ⟨hactor, sent_autoId hu hnew haddition⟩

/-- The key of an addition was not taken before, and is so from then on. -/
theorem hasAdded_generated {c : C} {category key : String}
    (hadded : HasAdded F B (launched stored taken) es c category key)
    (h : run (step F B) (launched stored taken) es = some t) :
    key ∉ taken ∧ key ∈ t.autoIds := by
  obtain ⟨q, ⟨pre, e, post, u, v, rfl, hu, hv, _, hsent⟩, haddition, _, rfl⟩ := hadded
  obtain ⟨_, hnew, htaken⟩ := sent_autoId hv hsent haddition
  rw [run_append_of_eq (step F B) hu, run_cons, hv] at h
  exact ⟨fun hold => hnew (run_autoIds hu hold), run_autoIds h htaken⟩

/-- No two clients add products under one key. -/
theorem hasAdded_client {c d : C} {category category' key : String}
    (h : run (step F B) (launched stored taken) es = some t)
    (hc : HasAdded F B (launched stored taken) es c category key)
    (hd : HasAdded F B (launched stored taken) es d category' key) : c = d := by
  induction es using List.reverseRecOn generalizing t with
  | nil =>
    obtain ⟨_, hsent, _⟩ := hc
    exact absurd hsent (not_took_nil _)
  | append_singleton es e ih =>
    obtain ⟨u, hu, hut⟩ := run_concat_inv _ h
    rcases hasAdded_concat hu hut hc with hc | ⟨rfl, _, hnew, _⟩
    · rcases hasAdded_concat hu hut hd with hd | ⟨rfl, _, hnew, _⟩
      · exact ih hu hc hd
      · exact absurd (hasAdded_generated hc hu).2 hnew
    · rcases hasAdded_concat hu hut hd with hd | ⟨rfl, _⟩
      · exact absurd (hasAdded_generated hd hu).2 hnew
      · rfl

/-- A key a client may know is taken. -/
theorem origin_taken (htaken : ∀ category, ∀ key ∈ (stored category).keys, key ∈ taken)
    (h : run (step F B) (launched stored taken) es = some t) {c : C} {category key : String}
    (horigin : Origin F B stored taken es c category key) : key ∈ t.autoIds := by
  rcases horigin.stored_or_added with hold | ⟨d, hadded⟩
  · exact run_autoIds h (htaken category key hold)
  · exact (hasAdded_generated hadded h).2

/-- The addition of a write that waits. -/
theorem hasAdded_of_waiting (h : run (step F B) (launched stored taken) es = some t) {c : C}
    {q : Sent} (hq : q ∈ (t.clients c).outgoing) (haddition : q.IsAddition) :
    HasAdded F B (launched stored taken) es c q.write.category q.write.key :=
  ⟨q, run_sends h hq, haddition, rfl, rfl⟩

/-- The keys of writes that wait are empty or taken. -/
theorem waiting_taken (hB : B.Local) (hstored : ∀ category, "" ∉ (stored category).keys)
    (htaken : ∀ category, ∀ key ∈ (stored category).keys, key ∈ taken)
    (h : run (step F B) (launched stored taken) es = some t) {c : C} {q : Sent}
    (hq : q ∈ (t.clients c).outgoing) : q.write.key = "" ∨ q.write.key ∈ t.autoIds :=
  ((run_tracedKeys hB hstored h).waiting c q hq).imp_right (origin_taken htaken h)

/-- So are those of committed writes. -/
theorem commits_taken (hB : B.Local) (hstored : ∀ category, "" ∉ (stored category).keys)
    (htaken : ∀ category, ∀ key ∈ (stored category).keys, key ∈ taken)
    (h : run (step F B) (launched stored taken) es = some t) {w : DatabaseWrite}
    (hw : w ∈ outputs (step F B) committedWrite (launched stored taken) es) :
    w.key = "" ∨ w.key ∈ t.autoIds := by
  obtain ⟨pre, e, post, u, v, rfl, hu, hv, hcommitted⟩ := (mem_outputs_iff h).mp hw
  obtain ⟨q, hq, rfl⟩ := Option.map_eq_some_iff.mp hcommitted
  obtain ⟨c, _, hmem⟩ := committed_mem hq
  rw [run_append_of_eq (step F B) hu] at h
  exact (waiting_taken hB hstored htaken hu hmem).imp_right (fun hkey => run_autoIds h hkey)

/-- Until an addition is committed, no write to its key is, and none waits before it in its
queue. -/
structure Unspent (commits : List DatabaseWrite) (s : Network C) : Prop where
  uncommitted : ∀ c, ∀ q ∈ (s.clients c).outgoing, q.IsAddition →
    ∀ w ∈ commits, w.key ≠ q.write.key
  ordered : ∀ c, (s.clients c).outgoing.Pairwise
    (fun q' q => q.IsAddition → q'.write.key ≠ q.write.key)

/-- A new addition has a key that nothing carried before. -/
theorem key_ne_of_sent (h : step F B s e = some t) {q : Sent} (hq : q ∈ sent s e t)
    (haddition : q.IsAddition) {key : String} (hkey : key = "" ∨ key ∈ s.autoIds) :
    key ≠ q.write.key := by
  obtain ⟨hauto, hnew, _⟩ := sent_autoId h hq haddition
  rintro rfl
  exact hkey.elim hauto.ne_empty hnew

/-- What waits at another client than the addition does not have its key. -/
theorem same_client (hB : B.Local) (hstored : ∀ category, "" ∉ (stored category).keys)
    (htaken : ∀ category, ∀ key ∈ (stored category).keys, key ∈ taken)
    (h : run (step F B) (launched stored taken) es = some t)
    (hs : Unspent (outputs (step F B) committedWrite (launched stored taken) es) t) {c d : C}
    {q q' : Sent} (hq : q ∈ (t.clients c).outgoing) (haddition : q.IsAddition)
    (hq' : q' ∈ (t.clients d).outgoing) (hkey : q'.write.key = q.write.key) : d = c := by
  have hadded := hasAdded_of_waiting h hq haddition
  have htraced := run_tracedKeys hB hstored h
  rcases htraced.waiting d q' hq' with hempty | horigin
  · exact absurd (hkey.symm.trans hempty) hadded.isAutoId.ne_empty
  · rw [hkey] at horigin
    rcases horigin with hknown | hother
    · rcases hknown.committed h with hold | ⟨w, hw, hwkey⟩
      · exact absurd (htaken _ _ hold) (hasAdded_generated hadded h).1
      · exact absurd hwkey (hs.uncommitted c q hq haddition w hw)
    · exact hasAdded_client h hother hadded

theorem step_unspent (hB : B.Local) (hstored : ∀ category, "" ∉ (stored category).keys)
    (htaken : ∀ category, ∀ key ∈ (stored category).keys, key ∈ taken)
    (hrun : run (step F B) (launched stored taken) es = some s)
    (hs : Unspent (outputs (step F B) committedWrite (launched stored taken) es) s)
    (h : step F B s e = some t) :
    Unspent (outputs (step F B) committedWrite (launched stored taken) es ++
      (committedWrite s e).toList) t := by
  constructor
  · intro c q hq haddition w hw
    rcases List.mem_append.mp hw with hold | hnew
    · rcases step_outgoing h hq with hwaiting | ⟨_, hsent⟩
      · exact hs.uncommitted c q hwaiting haddition w hold
      · exact key_ne_of_sent h hsent haddition (commits_taken hB hstored htaken hrun hold)
    · obtain ⟨q', hq', rfl⟩ := Option.map_eq_some_iff.mp (Option.mem_toList.mp hnew)
      obtain ⟨d, rfl, hqueue⟩ := step_commit h hq'
      have hmem' : q' ∈ (s.clients d).outgoing := hqueue ▸ List.mem_cons_self
      rcases step_outgoing h hq with hwaiting | ⟨hsends, _⟩
      · intro hkey
        have hclient := same_client hB hstored htaken hrun hs hwaiting haddition hmem' hkey
        subst hclient
        have hordered := hs.ordered d
        rw [hqueue] at hordered
        exact (List.pairwise_cons.mp hordered).1 q hq haddition hkey
      · cases hsends
  · intro c
    cases step_queue h c with
    | kept heq =>
      rw [heq]
      exact hs.ordered c
    | @sent q hsends heq =>
      rw [heq, List.pairwise_append]
      refine ⟨hs.ordered c, List.pairwise_singleton _ _, ?_⟩
      intro q' hq' q'' hq'' haddition
      have hactor : e.actor = c := hsends.actor
      subst hactor
      rw [List.mem_singleton.mp hq''] at haddition ⊢
      have hsent : q ∈ sent s e t := by
        rw [AdminNetwork.sent, heq, List.drop_left]
        exact List.mem_singleton.mpr rfl
      exact key_ne_of_sent h hsent haddition (waiting_taken hB hstored htaken hrun hq')
    | answered _ heq =>
      have hordered := hs.ordered c
      rw [heq] at hordered
      exact (List.pairwise_cons.mp hordered).2

theorem run_unspent (hB : B.Local) (hstored : ∀ category, "" ∉ (stored category).keys)
    (htaken : ∀ category, ∀ key ∈ (stored category).keys, key ∈ taken)
    (h : run (step F B) (launched stored taken) es = some t) :
    Unspent (outputs (step F B) committedWrite (launched stored taken) es) t := by
  refine run_outputs (I := Unspent) ?_ ?_ h
  · exact ⟨fun _ _ hq => absurd hq List.not_mem_nil, fun _ => List.Pairwise.nil⟩
  · exact fun _ _ _ _ hpre hs hu => step_unspent hB hstored htaken hpre hs hu

/-- No product is added under a key that a category holds, or once held in the run. -/
theorem not_added_of_stored (hB : B.Local) {first rest : List (Event C)} {r : Network C}
    (hstored : ∀ category, "" ∉ (stored category).keys)
    (htaken : ∀ category, ∀ key ∈ (stored category).keys, key ∈ taken)
    (hr : run (step F B) (launched stored taken) first = some r)
    (hs : run (step F B) r rest = some s) {category key : String}
    (hkey : key ∈ (r.db category).keys) {q : Sent} (hq : q ∈ committed s e)
    (haddition : q.IsAddition) : q.write.key ≠ key := by
  rintro rfl
  have hrun : run (step F B) (launched stored taken) (first ++ rest) = some s := by
    rw [run_append_of_eq (step F B) hr]
    exact hs
  obtain ⟨c, _, hmem⟩ := committed_mem hq
  have hadded := hasAdded_of_waiting hrun hmem haddition
  obtain ⟨record, hlookup⟩ := lookup_of_mem_keys hkey
  rcases (run_tracedKeys hB hstored hr).held r.db (Or.inl rfl) category _ record hlookup with
    hknown | ⟨hfield, _⟩
  · rcases hknown.committed hr with hold | ⟨w, hw, hwkey⟩
    · exact (hasAdded_generated hadded hrun).1 (htaken category _ hold)
    · refine (run_unspent hB hstored htaken hrun).uncommitted c q hmem haddition w ?_ hwkey
      rw [outputs_append hr]
      exact List.mem_append_left _ hw
  · exact not_mem_fieldNames hadded.isAutoId hfield

/-- In every run over a database whose keys are taken, the addition of a product is
committed under a key that no category holds: an addition replaces no record. -/
theorem additions_unstored (F : Foundation) (B : Firebase) (hB : B.Local) (stored : Database)
    (taken : List String) (hstored : ∀ category, "" ∉ (stored category).keys)
    (htaken : ∀ category, ∀ key ∈ (stored category).keys, key ∈ taken) (es : List (Event C)) :
    EachStep (step F B)
      (fun _ s e _ => ∀ q ∈ committed s e, q.IsAddition →
        ∀ category, q.write.key ∉ (s.db category).keys)
      (launched stored taken) es := by
  intro pre s e t _ hs _ q hq haddition category hkey
  have hsame : run (step F B) s [] = some s := rfl
  exact not_added_of_stored hB hstored htaken hs hsame hkey hq haddition rfl

/-- A band is added to the rings. -/
def addsBand : List (Event Unit) :=
  [.tap () ⟨0, 1⟩, .openPopup (), .popup () 0 (.editName "Gold Band"),
    .popup () 0 (.editPrice 0 0 "75"), .popup () 0 (.editDescription "wide"),
    .popup () 0 (.savePressed "-LFbmqbp5g8uKc0o1k2x"), .commit (),
    .popup () 0 (.writeCompleted 0 true)]

/-- It does not replace the ring. -/
theorem addition_of_band :
    (outputs (step asciiFoundation namesCategory) committedWrite (launched oneRing ["-L1"])
      addsBand).map DatabaseWrite.key = ["-LFbmqbp5g8uKc0o1k2x"] ∧
    EachStep (step asciiFoundation namesCategory)
      (fun _ s e _ => ∀ q ∈ committed s e, q.IsAddition →
        ∀ category, q.write.key ∉ (s.db category).keys)
      (launched oneRing ["-L1"]) addsBand := by
  have hkeys : ∀ category, "" ∉ (oneRing category).keys :=
    fun _ hkey => absurd (eq_of_mem_oneRing hkey) (by decide)
  have htaken : ∀ category, ∀ key ∈ (oneRing category).keys, key ∈ ["-L1"] :=
    fun _ _ hkey => List.mem_singleton.mpr (eq_of_mem_oneRing hkey)
  exact ⟨by decide, additions_unstored asciiFoundation namesCategory namesCategory_spec.isLocal
    oneRing ["-L1"] hkeys htaken addsBand⟩

end MiraclesAdmin.FreshAdditions
