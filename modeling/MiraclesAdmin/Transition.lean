import Mathlib.Data.List.Infix
import Mathlib.Tactic.Common

/-!
Runs of a partial step function. An event that is not enabled, or whose handler
traps, has no successor. Properties of runs are stated over prefixes: `AtEach`
for the states a run visits, `EachStep` for the steps it takes. The history of a
state is the prefix that led to it, so no bookkeeping is added to the state.
-/
namespace MiraclesAdmin.Transition

variable {S E : Type*} (step : S → E → Option S)

def run : S → List E → Option S
  | s, [] => some s
  | s, e :: es => (step s e).bind (fun t => run t es)

@[simp] theorem run_nil (s : S) : run step s [] = some s := rfl

@[simp] theorem run_cons (s : S) (e : E) (es : List E) :
    run step s (e :: es) = (step s e).bind (fun t => run step t es) := rfl

theorem run_append (s : S) (es fs : List E) :
    run step s (es ++ fs) = (run step s es).bind (fun t => run step t fs) := by
  induction es generalizing s with
  | nil => rfl
  | cons e es ih =>
    simp only [List.cons_append, run_cons, ih]
    cases step s e <;> rfl

theorem run_append_of_eq {s t : S} {es : List E} (h : run step s es = some t)
    (fs : List E) : run step s (es ++ fs) = run step t fs := by
  rw [run_append, h]
  rfl

theorem run_concat {s t u : S} {es : List E} {e : E} (h : run step s es = some t)
    (he : step t e = some u) : run step s (es ++ [e]) = some u := by
  rw [run_append_of_eq step h]
  simp only [run_cons, he, Option.bind_some, run_nil]

theorem run_concat_inv {s u : S} {es : List E} {e : E}
    (h : run step s (es ++ [e]) = some u) :
    ∃ t, run step s es = some t ∧ step t e = some u := by
  rw [run_append] at h
  obtain ⟨t, ht, hu⟩ := Option.bind_eq_some_iff.mp h
  obtain ⟨v, hv, hvu⟩ := Option.bind_eq_some_iff.mp hu
  cases hvu
  exact ⟨t, ht, hv⟩

/-- An event that can only happen when a condition on the state holds. -/
def guarded (p : Prop) [Decidable p] (t : Option S) : Option S := if p then t else none

theorem guarded_eq_some {p : Prop} [Decidable p] {t : Option S} {u : S} :
    guarded p t = some u ↔ p ∧ t = some u := by
  unfold guarded
  split <;> simp [*]

/-- An invariant with history: it may mention the events that led to the state. -/
theorem run_history {I : List E → S → Prop} {s : S} {es : List E} {t : S}
    (hinit : I [] s)
    (hstep : ∀ pre t e u, e ∈ es → I pre t → step t e = some u → I (pre ++ [e]) u)
    (h : run step s es = some t) : I es t := by
  induction es using List.reverseRecOn generalizing t with
  | nil =>
    cases h
    exact hinit
  | append_singleton es e ih =>
    obtain ⟨u, hu, hut⟩ := run_concat_inv step h
    have hIu : I es u := ih (fun pre t d v hd => hstep pre t d v (by simp [hd])) hu
    exact hstep es u e t (by simp) hIu hut

/-- An invariant of every step over the events of a run holds after the run. -/
theorem run_invariant {P : S → Prop} {s t : S} {es : List E} (hs : P s)
    (hstep : ∀ t e u, e ∈ es → P t → step t e = some u → P u)
    (h : run step s es = some t) : P t :=
  run_history step (I := fun _ => P) hs (fun _ t e u he => hstep t e u he) h

/-- The run took a step of the relation. -/
def Took (R : S → E → S → Prop) (s : S) (es : List E) : Prop :=
  ∃ pre e post u v, es = pre ++ e :: post ∧ run step s pre = some u ∧ step u e = some v ∧ R u e v

variable {step} in
theorem Took.append {R : S → E → S → Prop} {s : S} {es : List E} (h : Took step R s es)
    (fs : List E) : Took step R s (es ++ fs) := by
  obtain ⟨pre, e, post, u, v, rfl, hrest⟩ := h
  exact ⟨pre, e, post ++ fs, u, v, by simp, hrest⟩

theorem not_took_nil {R : S → E → S → Prop} {s : S} : ¬ Took step R s [] := by
  intro h
  obtain ⟨pre, e, post, _, _, hnil, _⟩ := h
  exact absurd hnil (by simp)

theorem took_concat_iff {R : S → E → S → Prop} {s t u : S} {es : List E} {e : E}
    (ht : run step s es = some t) (hu : step t e = some u) :
    Took step R s (es ++ [e]) ↔ Took step R s es ∨ R t e u := by
  constructor
  · intro h
    obtain ⟨pre, d, post, v, w, heq, hv, hw, hR⟩ := h
    rcases List.eq_nil_or_concat post with rfl | ⟨post', d', rfl⟩
    · obtain ⟨rfl, he⟩ := List.append_inj' heq rfl
      cases List.singleton_inj.mp he
      cases ht.symm.trans hv
      cases hu.symm.trans hw
      exact Or.inr hR
    · have hsplit : es ++ [e] = (pre ++ d :: post') ++ [d'] := by
        rw [heq, List.concat_eq_append]
        simp
      obtain ⟨rfl, _⟩ := List.append_inj' hsplit rfl
      exact Or.inl ⟨pre, d, post', v, w, rfl, hv, hw, hR⟩
  · intro hcases
    rcases hcases with h | hR
    · exact h.append [e]
    · exact ⟨es, e, [], t, u, rfl, ht, hu, hR⟩

/-- What holds at the start of a run and not at its end is lost by one of its steps. -/
theorem run_loses {P : S → Prop} {s t : S} {es : List E} (hs : P s) (ht : ¬ P t)
    (h : run step s es = some t) : Took step (fun u _ v => P u ∧ ¬ P v) s es := by
  induction es using List.reverseRecOn generalizing t with
  | nil =>
    cases h
    exact absurd hs ht
  | append_singleton es e ih =>
    obtain ⟨u, hu, hut⟩ := run_concat_inv step h
    rw [took_concat_iff step hu hut]
    by_cases hPu : P u
    · exact Or.inr ⟨hPu, ht⟩
    · exact Or.inl (ih hPu hu)

/-- A step function that allows more steps has all the runs of the other. -/
theorem run_mono {step' : S → E → Option S}
    (hstep : ∀ s e t, step s e = some t → step' s e = some t) {s t : S} {es : List E}
    (h : run step s es = some t) : run step' s es = some t := by
  induction es generalizing s with
  | nil => exact h
  | cons e es ih =>
    obtain ⟨u, hu, hut⟩ := Option.bind_eq_some_iff.mp h
    rw [run_cons, hstep s e u hu]
    exact ih hut

/-- A step function that refines total operations on an abstract state: a run from
related states ends in related states. -/
theorem run_refines {A : Type*} {apply : A → E → A} {R : S → A → Prop} {s t : S} {a : A}
    {es : List E} (hstep : ∀ s a e t, R s a → step s e = some t → R t (apply a e))
    (hs : R s a) (h : run step s es = some t) : R t (es.foldl apply a) := by
  induction es generalizing s a with
  | nil =>
    cases h
    exact hs
  | cons e es ih =>
    obtain ⟨u, hu, hut⟩ := Option.bind_eq_some_iff.mp h
    exact ih (hstep s a e u hs hu) hut

/-- The property holds, with its history, in every state the run visits. -/
def AtEach (P : List E → S → Prop) (s : S) (es : List E) : Prop :=
  ∀ pre t, pre <+: es → run step s pre = some t → P pre t

/-- The property holds of every step the run takes, with the events before it. -/
def EachStep (R : List E → S → E → S → Prop) (s : S) (es : List E) : Prop :=
  ∀ pre t e u, pre ++ [e] <+: es → run step s pre = some t → step t e = some u → R pre t e u

variable {step}

theorem AtEach.last {P : List E → S → Prop} {s t : S} {es : List E}
    (h : AtEach step P s es) (hrun : run step s es = some t) : P es t :=
  h es t List.prefix_rfl hrun

theorem atEach_nil_iff {P : List E → S → Prop} {s : S} : AtEach step P s [] ↔ P [] s := by
  constructor
  · intro h
    exact h.last rfl
  · intro h pre t hp ht
    cases List.prefix_nil.mp hp
    cases ht
    exact h

theorem atEach_cons_iff {P : List E → S → Prop} {s : S} {e : E} {es : List E} :
    AtEach step P s (e :: es) ↔
      P [] s ∧ ∀ u, step s e = some u → AtEach step (fun pre => P (e :: pre)) u es := by
  constructor
  · intro h
    refine ⟨h [] s List.nil_prefix rfl, ?_⟩
    intro u hu pre t hp ht
    refine h (e :: pre) t (List.cons_prefix_cons.mpr ⟨rfl, hp⟩) ?_
    rw [run_cons, hu]
    exact ht
  · intro hboth pre t hp ht
    obtain ⟨hs, h⟩ := hboth
    cases pre with
    | nil =>
      cases ht
      exact hs
    | cons d pre =>
      obtain ⟨rfl, hpre⟩ := List.cons_prefix_cons.mp hp
      obtain ⟨u, hu, hut⟩ := Option.bind_eq_some_iff.mp ht
      exact h u hu pre t hpre hut

/-- Two properties that agree in the states reached are kept by the same runs. -/
theorem atEach_congr {P Q : List E → S → Prop} {s : S} {es : List E}
    (hPQ : ∀ pre t, run step s pre = some t → (P pre t ↔ Q pre t)) :
    AtEach step P s es ↔ AtEach step Q s es := by
  constructor
  · intro h pre t hp ht
    exact (hPQ pre t ht).mp (h pre t hp ht)
  · intro h pre t hp ht
    exact (hPQ pre t ht).mpr (h pre t hp ht)

theorem eachStep_nil {R : List E → S → E → S → Prop} {s : S} : EachStep step R s [] := by
  intro pre t e u hp
  exact absurd (List.prefix_nil.mp hp) (by simp)

theorem eachStep_cons_iff {R : List E → S → E → S → Prop} {s : S} {e : E} {es : List E} :
    EachStep step R s (e :: es) ↔
      ∀ u, step s e = some u → R [] s e u ∧ EachStep step (fun pre => R (e :: pre)) u es := by
  constructor
  · intro h u hu
    refine ⟨h [] s e u (List.cons_prefix_cons.mpr ⟨rfl, List.nil_prefix⟩) rfl hu, ?_⟩
    intro pre t d v hp ht hv
    refine h (e :: pre) t d v (List.cons_prefix_cons.mpr ⟨rfl, hp⟩) ?_ hv
    rw [run_cons, hu]
    exact ht
  · intro h pre t d v hp ht hv
    cases pre with
    | nil =>
      obtain ⟨rfl, _⟩ := List.cons_prefix_cons.mp hp
      cases ht
      exact (h v hv).1
    | cons c pre =>
      obtain ⟨rfl, hpre⟩ := List.cons_prefix_cons.mp hp
      obtain ⟨u, hu, hut⟩ := Option.bind_eq_some_iff.mp ht
      exact (h u hu).2 pre t d v hpre hut hv

theorem eachStep_initial {R : List E → S → E → S → Prop} {s : S} {es fs : List E}
    (h : EachStep step R s es) (hfs : fs <+: es) : EachStep step R s fs :=
  fun pre t e u hp ht hu => h pre t e u (hp.trans hfs) ht hu

/-- A decidable property can be checked along a concrete run. -/
instance decidableAtEach : (es : List E) → (P : List E → S → Prop) →
    [∀ pre t, Decidable (P pre t)] → (s : S) → Decidable (AtEach step P s es)
  | [], _, _, _ => decidable_of_iff _ atEach_nil_iff.symm
  | e :: es, P, _, s =>
    match h : step s e with
    | none => decidable_of_iff (P [] s) (by rw [atEach_cons_iff]; simp [h])
    | some u =>
      have := decidableAtEach es (fun pre => P (e :: pre)) u
      decidable_of_iff (P [] s ∧ AtEach step (fun pre => P (e :: pre)) u es)
        (by rw [atEach_cons_iff]; simp [h])

instance decidableEachStep : (es : List E) → (R : List E → S → E → S → Prop) →
    [∀ pre t e u, Decidable (R pre t e u)] → (s : S) → Decidable (EachStep step R s es)
  | [], _, _, _ => isTrue eachStep_nil
  | e :: es, R, _, s =>
    match h : step s e with
    | none => isTrue (by rw [eachStep_cons_iff]; simp [h])
    | some u =>
      have := decidableEachStep es (fun pre => R (e :: pre)) u
      decidable_of_iff (R [] s e u ∧ EachStep step (fun pre => R (e :: pre)) u es)
        (by rw [eachStep_cons_iff]; simp [h])

/-- If, step by step and given the property before, the property after a step is
the condition on that step, then a run keeps the property exactly when each of
its steps meets the condition. -/
theorem atEach_iff_eachStep {I P : List E → S → Prop} {C : List E → S → E → Prop} {s : S}
    (hI : ∀ pre t e u, I pre t → step t e = some u → I (pre ++ [e]) u) (hs : I [] s)
    (hP : P [] s)
    (hstep : ∀ pre t e u, I pre t → P pre t → step t e = some u →
      (P (pre ++ [e]) u ↔ C pre t e)) (es : List E) :
    AtEach step P s es ↔ EachStep step (fun pre t e _ => C pre t e) s es := by
  have hinv : ∀ pre t, run step s pre = some t → I pre t := fun pre t h =>
    run_history step hs (fun pre t e u _ => hI pre t e u) h
  constructor
  · intro h pre t e u hp ht hu
    have hpre : pre <+: es := (List.prefix_append pre [e]).trans hp
    have hbefore : P pre t := h pre t hpre ht
    have hafter : P (pre ++ [e]) u := h (pre ++ [e]) u hp (run_concat step ht hu)
    exact (hstep pre t e u (hinv pre t ht) hbefore hu).mp hafter
  · intro h pre
    induction pre using List.reverseRecOn with
    | nil =>
      intro t _ ht
      cases ht
      exact hP
    | append_singleton pre e ih =>
      intro u hp hu
      obtain ⟨t, ht, htu⟩ := run_concat_inv step hu
      have hbefore : P pre t := ih t ((List.prefix_append pre [e]).trans hp) ht
      exact (hstep pre t e u (hinv pre t ht) hbefore htu).mpr (h pre t e u hp ht htu)

/-- The same for properties of single steps, which need not hold before. -/
theorem eachStep_iff {I : List E → S → Prop} {R C : List E → S → E → S → Prop} {s : S}
    (hI : ∀ pre t e u, I pre t → step t e = some u → I (pre ++ [e]) u) (hs : I [] s)
    (hstep : ∀ pre t e u, I pre t → step t e = some u → (R pre t e u ↔ C pre t e u))
    (es : List E) : EachStep step R s es ↔ EachStep step C s es := by
  have hinv : ∀ pre t, run step s pre = some t → I pre t := fun pre t h =>
    run_history step hs (fun pre t e u _ => hI pre t e u) h
  constructor
  · intro h pre t e u hp ht hu
    exact (hstep pre t e u (hinv pre t ht) hu).mp (h pre t e u hp ht hu)
  · intro h pre t e u hp ht hu
    exact (hstep pre t e u (hinv pre t ht) hu).mpr (h pre t e u hp ht hu)

theorem eachStep_concat_iff {R : List E → S → E → S → Prop} {s t u : S} {es : List E} {e : E}
    (ht : run step s es = some t) (hu : step t e = some u) :
    EachStep step R s (es ++ [e]) ↔ EachStep step R s es ∧ R es t e u := by
  constructor
  · intro h
    exact ⟨eachStep_initial h (List.prefix_append es [e]), h es t e u List.prefix_rfl ht hu⟩
  · intro hboth pre v d w hp hv hw
    obtain ⟨h, hR⟩ := hboth
    rcases List.prefix_concat_iff.mp hp with heq | hlt
    · obtain ⟨rfl, hd⟩ := List.append_inj' heq rfl
      cases List.singleton_inj.mp hd
      cases ht.symm.trans hv
      cases hu.symm.trans hw
      exact hR
    · exact h pre v d w hlt hv hw

/-- What every step meeting the condition preserves holds after the run. -/
theorem eachStep_invariant {P : S → Prop} {R : List E → S → E → S → Prop} {s t : S} {es : List E}
    (hR : EachStep step R s es) (hs : P s)
    (hstep : ∀ pre t e u, R pre t e u → P t → step t e = some u → P u)
    (h : run step s es = some t) : P t := by
  induction es using List.reverseRecOn generalizing t with
  | nil =>
    cases h
    exact hs
  | append_singleton es e ih =>
    obtain ⟨u, hu, hut⟩ := run_concat_inv step h
    obtain ⟨hbefore, hlast⟩ := (eachStep_concat_iff hu hut).mp hR
    exact hstep es u e t hlast (ih hbefore hu) hut

/-- A property that no step regains once it is lost holds after a run exactly when
each of its steps meets the condition under which it is kept. -/
theorem run_iff_eachStep {I P : List E → S → Prop} {C : List E → S → E → S → Prop} {s t : S}
    {es : List E} (hI : ∀ pre t e u, I pre t → step t e = some u → I (pre ++ [e]) u)
    (hs : I [] s) (hP : P [] s)
    (hstep : ∀ pre t e u, I pre t → step t e = some u →
      (P (pre ++ [e]) u ↔ P pre t ∧ C pre t e u))
    (h : run step s es = some t) : P es t ↔ EachStep step C s es := by
  induction es using List.reverseRecOn generalizing t with
  | nil =>
    cases h
    exact iff_of_true hP eachStep_nil
  | append_singleton es e ih =>
    obtain ⟨u, hu, hut⟩ := run_concat_inv step h
    have hIu : I es u := run_history step hs (fun pre t e u _ => hI pre t e u) hu
    rw [eachStep_concat_iff hu hut, ← ih hu]
    exact hstep es u e t hIu hut

/-- A step that meets the first condition was taken, and none since that meets the second. -/
def Since (step : S → E → Option S) (A B : S → E → Prop) (s : S) (es : List E) : Prop :=
  ∃ pre e post u v, es = pre ++ e :: post ∧ run step s pre = some u ∧ step u e = some v ∧
    A u e ∧ EachStep step (fun _ t d _ => ¬ B t d) v post

theorem not_since_nil {A B : S → E → Prop} {s : S} : ¬ Since step A B s [] := by
  intro h
  obtain ⟨pre, e, post, _, _, hnil, _⟩ := h
  exact absurd hnil (by simp)

theorem since_concat_iff {A B : S → E → Prop} {s t u : S} {es : List E} {e : E}
    (ht : run step s es = some t) (hu : step t e = some u) :
    Since step A B s (es ++ [e]) ↔ A t e ∨ (Since step A B s es ∧ ¬ B t e) := by
  constructor
  · intro hsince
    obtain ⟨pre, d, post, v, w, heq, hv, hw, hA, heach⟩ := hsince
    rcases List.eq_nil_or_concat post with rfl | ⟨post', d', rfl⟩
    · obtain ⟨rfl, he⟩ := List.append_inj' heq rfl
      cases List.singleton_inj.mp he
      cases ht.symm.trans hv
      exact Or.inl hA
    · rw [List.concat_eq_append] at heq heach
      have hsplit : es ++ [e] = (pre ++ d :: post') ++ [d'] := by
        rw [heq]
        simp
      obtain ⟨rfl, he⟩ := List.append_inj' hsplit rfl
      cases List.singleton_inj.mp he
      have hpost : run step w post' = some t := by
        rw [run_append_of_eq step hv, run_cons, hw] at ht
        exact ht
      obtain ⟨hbefore, hlast⟩ := (eachStep_concat_iff hpost hu).mp heach
      exact Or.inr ⟨⟨pre, d, post', v, w, rfl, hv, hw, hA, hbefore⟩, hlast⟩
  · intro hcases
    rcases hcases with hA | ⟨hsince, hnot⟩
    · exact ⟨es, e, [], t, u, rfl, ht, hu, hA, eachStep_nil⟩
    · obtain ⟨pre, d, post, v, w, rfl, hv, hw, hA, heach⟩ := hsince
      have hpost : run step w post = some t := by
        rw [run_append_of_eq step hv, run_cons, hw] at ht
        exact ht
      refine ⟨pre, d, post ++ [e], v, w, by simp, hv, hw, hA, ?_⟩
      exact (eachStep_concat_iff hpost hu).mpr ⟨heach, hnot⟩

/-- A property that steps of one kind set, steps of another kind clear and all others keep
holds after a run exactly if it was set and not cleared since. -/
theorem holds_iff_since {A B : S → E → Prop} {P : S → Prop} {s t : S} {es : List E} (hs : ¬ P s)
    (hstep : ∀ t e u, step t e = some u → (P u ↔ A t e ∨ (P t ∧ ¬ B t e)))
    (h : run step s es = some t) : P t ↔ Since step A B s es := by
  induction es using List.reverseRecOn generalizing t with
  | nil =>
    cases h
    exact iff_of_false hs not_since_nil
  | append_singleton es e ih =>
    obtain ⟨u, hu, hut⟩ := run_concat_inv step h
    rw [hstep u e t hut, since_concat_iff hu hut, ih hu]

/-- What the steps of a run put out, in order. -/
def outputs {A : Type*} (step : S → E → Option S) (out : S → E → Option A) : S → List E → List A
  | _, [] => []
  | s, e :: es => match step s e with
    | none => []
    | some t => (out s e).toList ++ outputs step out t es

theorem outputs_append {A : Type*} {out : S → E → Option A} {s t : S} {es : List E}
    (ht : run step s es = some t) (fs : List E) :
    outputs step out s (es ++ fs) = outputs step out s es ++ outputs step out t fs := by
  induction es generalizing s with
  | nil =>
    cases ht
    rfl
  | cons d es ih =>
    obtain ⟨v, hv, hvt⟩ := Option.bind_eq_some_iff.mp ht
    simp only [List.cons_append, outputs, hv, ih hvt, List.append_assoc]

theorem outputs_concat {A : Type*} {out : S → E → Option A} {s t u : S} {es : List E} {e : E}
    (ht : run step s es = some t) (hu : step t e = some u) :
    outputs step out s (es ++ [e]) = outputs step out s es ++ (out t e).toList := by
  rw [outputs_append ht]
  simp only [outputs, hu, List.append_nil]

/-- What a run has put out, one of its steps has. -/
theorem mem_outputs_iff {A : Type*} {out : S → E → Option A} {s t : S} {es : List E} {a : A}
    (h : run step s es = some t) :
    a ∈ outputs step out s es ↔ Took step (fun u e _ => a ∈ out u e) s es := by
  induction es using List.reverseRecOn generalizing t with
  | nil => exact iff_of_false List.not_mem_nil (not_took_nil step)
  | append_singleton es e ih =>
    obtain ⟨u, hu, hut⟩ := run_concat_inv step h
    rw [outputs_concat hu hut, took_concat_iff step hu hut, List.mem_append, ih hu,
      Option.mem_toList, Option.mem_def]

/-- An invariant with history whose step may use the run so far. -/
theorem run_along {I : List E → S → Prop} {s t : S} {es : List E} (hinit : I [] s)
    (hstep : ∀ pre t e u, run step s pre = some t → I pre t → step t e = some u → I (pre ++ [e]) u)
    (h : run step s es = some t) : I es t := by
  refine (run_history step (I := fun pre t => run step s pre = some t ∧ I pre t) ⟨rfl, hinit⟩
    ?_ h).2
  intro pre t e u _ hboth hu
  obtain ⟨hpre, hI⟩ := hboth
  exact ⟨run_concat step hpre hu, hstep pre t e u hpre hI hu⟩

/-- The same for what the run has put out so far. -/
theorem run_outputs {A : Type*} {out : S → E → Option A} {I : List A → S → Prop} {s t : S}
    {es : List E} (hinit : I [] s)
    (hstep : ∀ pre t e u, run step s pre = some t → I (outputs step out s pre) t →
      step t e = some u → I (outputs step out s pre ++ (out t e).toList) u)
    (h : run step s es = some t) : I (outputs step out s es) t := by
  refine run_along (I := fun pre t => I (outputs step out s pre) t) hinit ?_ h
  intro pre t e u hpre hI hu
  rw [outputs_concat hpre hu]
  exact hstep pre t e u hpre hI hu

/-- The system puts out the events of a component, which takes them one by one and is
left alone by all other steps. -/
def Component {A D : Type*} (step : S → E → Option S) (part : A → D → Option A) (f : S → A)
    (out : S → E → Option D) : Prop :=
  ∀ s e t, step s e = some t → (out s e = none → f t = f s) ∧
    ∀ d, out s e = some d → part (f s) d = some (f t)

namespace Component

variable {A D : Type*} {part : A → D → Option A} {f : S → A} {out : S → E → Option D}

/-- A run of the system is a run of the component over what is put out for it. -/
theorem run (hf : Component step part f out) {s t : S} {es : List E}
    (h : run step s es = some t) :
    Transition.run part (f s) (outputs step out s es) = some (f t) := by
  induction es using List.reverseRecOn generalizing t with
  | nil =>
    cases h
    rfl
  | append_singleton es e ih =>
    obtain ⟨u, hu, hut⟩ := run_concat_inv step h
    obtain ⟨hnone, hsome⟩ := hf u e t hut
    rw [outputs_concat hu hut]
    cases hout : out u e with
    | none =>
      rw [hnone hout, Option.toList_none, List.append_nil]
      exact ih hu
    | some d => exact run_concat part (ih hu) (hsome d hout)

/-- If every step of the system meets a condition on the component, so does every step
of the component. -/
theorem eachStep (hf : Component step part f out) {C : A → D → Prop} {s t : S} {es : List E}
    (h : Transition.run step s es = some t)
    (hC : EachStep step (fun _ s e _ => ∀ d ∈ out s e, C (f s) d) s es) :
    EachStep part (fun _ a d _ => C a d) (f s) (outputs step out s es) := by
  induction es using List.reverseRecOn generalizing t with
  | nil => exact eachStep_nil
  | append_singleton es e ih =>
    obtain ⟨u, hu, hut⟩ := run_concat_inv step h
    obtain ⟨hbefore, hlast⟩ := (eachStep_concat_iff hu hut).mp hC
    rw [outputs_concat hu hut]
    cases hout : out u e with
    | none =>
      rw [Option.toList_none, List.append_nil]
      exact ih hu hbefore
    | some d =>
      have hstep := (hf u e t hut).2 d hout
      exact (eachStep_concat_iff (hf.run hu) hstep).mpr ⟨ih hu hbefore, hlast d hout⟩

end Component

/-- A log that every step leaves alone or extends by one entry. -/
def Appends {A : Type*} (step : S → E → Option S) (log : S → List A) : Prop :=
  ∀ t e u, step t e = some u → log u = log t ∨ ∃ a, log u = log t ++ [a]

/-- Along a run an appended log only grows at its end. -/
theorem log_grows {A : Type*} {log : S → List A} (hlog : Appends step log) {s t : S}
    {es : List E} (h : run step s es = some t) : log s <+: log t := by
  refine run_invariant step (P := fun t => log s <+: log t) List.prefix_rfl ?_ h
  intro t e u _ ht hu
  rcases hlog t e u hu with heq | ⟨a, heq⟩
  · rw [heq]
    exact ht
  · rw [heq]
    exact ht.trans (List.prefix_append (log t) [a])

/-- Every new entry of the log was appended by one step of the run. -/
theorem log_origin {A : Type*} {log : S → List A} (hlog : Appends step log) {s t : S}
    {es : List E} (h : run step s es = some t) {a : A} (ha : a ∈ log t) (hold : a ∉ log s) :
    ∃ pre e post u v, es = pre ++ e :: post ∧ run step s pre = some u ∧
      step u e = some v ∧ run step v post = some t ∧ log v = log u ++ [a] := by
  induction es using List.reverseRecOn generalizing t with
  | nil =>
    cases h
    exact absurd ha hold
  | append_singleton es e ih =>
    obtain ⟨u, hu, hut⟩ := run_concat_inv step h
    have hearlier : a ∈ log u → ∃ pre e' post u' v, es ++ [e] = pre ++ e' :: post ∧
        run step s pre = some u' ∧ step u' e' = some v ∧ run step v post = some t ∧
        log v = log u' ++ [a] := by
      intro hau
      obtain ⟨pre, e', post, u', v, rfl, hpre, hstep, hpost, hv⟩ := ih hu hau
      exact ⟨pre, e', post ++ [e], u', v, by simp, hpre, hstep, run_concat step hpost hut, hv⟩
    rcases hlog u e t hut with heq | ⟨b, heq⟩
    · exact hearlier (heq ▸ ha)
    · rw [heq] at ha
      rcases List.mem_append.mp ha with hau | hab
      · exact hearlier hau
      · have hab : a = b := List.mem_singleton.mp hab
        subst hab
        exact ⟨es, e, [], u, t, rfl, hu, hut, rfl, heq⟩

end MiraclesAdmin.Transition
