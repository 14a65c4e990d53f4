import MiraclesAdmin.AdminNetwork

/-!
What one step of the network can do: one client's screen takes a step and is delivered
nothing but what the client sees of its category, a screen that was left decodes its
category again, a popup is opened or takes a step, or the database sends its records or
answers a write. From this follows where the writes that wait, the records and the
observers of the next state come from.
-/
namespace MiraclesAdmin.NetworkSteps

open SwiftText Transition ObjectHeap ProductRecords ProductForm CategoryStore CategoryWrites
open DetailView (ProductDetailView)
open CategoryScreen hiding fillCell
open ScreenSteps hiding Effect step_effect
open ScreenObjects
open ProductList hiding step
open ProductsScreen hiding Event step launch
open AdminNetwork

/-- The required texts are there. -/
def Filled (v : FormValues) : Prop := v.name ≠ "" ∧ v.description ≠ ""

/-- A form that passes the guards denotes filled values. -/
theorem filled_of_guard {name price description : String} {availability : Bool} {v : FormValues}
    (hguard : failedGuard name price description = none)
    (hv : formValues name price description availability = some v) : Filled v := by
  obtain ⟨_, _, rfl⟩ := Option.map_eq_some_iff.mp hv
  unfold failedGuard at hguard
  by_cases hname : name = ""
  · rw [if_pos hname] at hguard
    cases hguard
  · by_cases hdescription : description = ""
    · by_cases hprice : price = "" <;> simp [hname, hprice, hdescription] at hguard
    · exact ⟨hname, hdescription⟩

/-- What an observer is delivered are the records as the client sees them. -/
theorem delivered_snapshot (B : Firebase) (k : Client) (category : String) (order : List String) :
    ∀ record ∈ delivered (.list (.valueObserved (k.snapshot B category order))),
      (k.view B category).lookup record.1 = some record.2 := by
  intro record hrecord
  change record ∈
    (FirebaseValue.ofChildren ((k.view B category).inOrder order)).asDictionary.getD [] at hrecord
  cases horder : (k.view B category).inOrder order with
  | nil => simp [horder, FirebaseValue.ofChildren, FirebaseValue.asDictionary] at hrecord
  | cons first rest =>
    rw [horder] at hrecord
    have hmem : record ∈ first :: rest := hrecord
    rw [← horder] at hmem
    exact Records.lookup_of_mem_inOrder hmem

theorem delivered_of_admits {k : Client} {d : ProductsScreen.Event} (h : k.admits d = true) :
    delivered d = [] := by
  cases d with
  | list l =>
    cases l with
    | valueObserved => simp [Client.admits] at h
    | _ => rfl
  | _ => rfl

variable {C : Type*} [DecidableEq C]

section setClient

variable {s : Network C} {c : C} {k : Client}

@[simp] theorem setClient_self (s : Network C) (c : C) (k : Client) :
    (s.setClient c k).clients c = k := Function.update_self _ _ _

theorem setClient_of_ne (s : Network C) {c d : C} (k : Client) (h : d ≠ c) :
    (s.setClient c k).clients d = s.clients d := Function.update_of_ne h _ _

theorem setClient_forall {P : C → Client → Prop} (hs : ∀ d, P d (s.clients d)) (hk : P c k) :
    ∀ d, P d ((s.setClient c k).clients d) := by
  intro d
  by_cases hd : d = c
  · subst hd
    rw [setClient_self]
    exact hk
  · rw [setClient_of_ne s k hd]
    exact hs d

end setClient

/-- The event of a client's screen that an event of the network is. -/
inductive Performs (B : Firebase) (s : Network C) : Event C → C → ProductsScreen.Event → Prop
  | tapped {c : C} {indexPath : IndexPath} {name : String} (hname : name ∈ names) :
      Performs B s (.tap c indexPath) c (.openCategory name)
  | own {c : C} {d : ProductsScreen.Event} (hd : (s.clients c).admits d = true) :
      Performs B s (.client c d) c d
  | observed {c : C} {order : List String}
      (horder : order.Perm ((s.clients c).view B (s.clients c).app.currentCategory).keys) :
      Performs B s (.valueEvent c order) c (.list (.valueObserved
        ((s.clients c).snapshot B (s.clients c).app.currentCategory order)))

/-- What a client is after a step of its screen. -/
def screened (k : Client) (d : ProductsScreen.Event) (a : App) : Client :=
  { k with
    app := a
    retained := k.retained ++ k.released d
    outgoing := k.outgoing ++ k.requested a }

/-- What it is after a screen that was left has decoded its category. -/
def observed (k : Client) (i : ℕ) (category : String) (l : ListScreen) : Client :=
  { k with
    app := { k.app with list := { k.app.list with heap := l.heap, hudShown := l.hudShown } }
    retained := k.retained.set i (category, l.table) }

/-- What it is after a step of a popup. -/
def popped (k : Client) (i : ℕ) (p q : AddPopup.Session) : Client :=
  { k with
    popups := k.popups.set i { q with records := ∅ }
    outgoing := k.outgoing ++ Client.added i p q }

inductive Effect (F : Foundation) (B : Firebase) (s : Network C) : Event C → Network C → Prop
  | stepped {e : Event C} {c : C} {d : ProductsScreen.Event} {a : App} (hd : Performs B s e c d)
      (ha : ProductsScreen.step F (s.clients c).app d = some a) :
      Effect F B s e (s.setClient c (screened (s.clients c) d a))
  | observed {c : C} {i : ℕ} {order : List String} {category : String} {table : SampleTable}
      {l : ListScreen} (hi : (s.clients c).retained[i]? = some (category, table))
      (horder : order.Perm ((s.clients c).view B category).keys)
      (hl : ListScreen.valueObserved
        ⟨(s.clients c).app.list.heap, (s.clients c).app.list.hudShown, table⟩
        ((s.clients c).snapshot B category order) = some l) :
      Effect F B s (.retainedValueEvent c i order)
        (s.setClient c (observed (s.clients c) i category l))
  | popupOpened {c : C} (hopen : (s.clients c).app.isPresented = true) :
      Effect F B s (.openPopup c) (s.setClient c (s.clients c).openPopup)
  | popupStepped {c : C} {i : ℕ} {d : AddPopup.Event} {p q : AddPopup.Session}
      (hp : (s.clients c).popups[i]? = some p)
      (hadmits : (s.clients c).AdmitsPopup s.autoIds i p d)
      (hq : AddPopup.step p d = some q) :
      Effect F B s (.popup c i d)
        { s.setClient c (popped (s.clients c) i p q) with
          autoIds := s.autoIds ++ (autoId d).toList }
  | received {c : C} :
      Effect F B s (.receive c) (s.setClient c { s.clients c with received := s.db })
  | committed {c : C} {q : Sent} {rest : List Sent} (hq : (s.clients c).outgoing = q :: rest) :
      Effect F B s (.commit c) { s.setClient c
        ((s.clients c).answer q rest (s.db.store B q.write) true) with
          db := s.db.store B q.write }
  | rejected {c : C} {q : Sent} {rest : List Sent} (hq : (s.clients c).outgoing = q :: rest) :
      Effect F B s (.reject c) (s.setClient c
        ((s.clients c).answer q rest (s.clients c).received false))

variable {F : Foundation} {B : Firebase} {s t : Network C} {e : Event C}

theorem stepApp_eq_some {k l : Client} {d : ProductsScreen.Event} :
    k.stepApp F d = some l ↔ ∃ a, ProductsScreen.step F k.app d = some a ∧ l = screened k d a := by
  unfold Client.stepApp
  rw [Option.map_eq_some_iff]
  constructor
  · intro h
    obtain ⟨a, ha, hl⟩ := h
    exact ⟨a, ha, hl.symm⟩
  · intro h
    obtain ⟨a, ha, hl⟩ := h
    exact ⟨a, ha, hl.symm⟩

theorem observe_eq_some {k l : Client} {i : ℕ} {category : String} {table : SampleTable}
    {snapshot : FirebaseValue} (hi : k.retained[i]? = some (category, table))
    (h : k.observe i snapshot = some l) :
    ∃ m, ListScreen.valueObserved ⟨k.app.list.heap, k.app.list.hudShown, table⟩ snapshot = some m ∧
      l = observed k i category m := by
  simp only [Client.observe, hi, Option.bind_eq_bind, Option.bind_some,
    Option.bind_eq_some_iff, Option.pure_def, Option.some.injEq] at h
  obtain ⟨m, hm, rfl⟩ := h
  exact ⟨m, hm, rfl⟩

omit [DecidableEq C] in
/-- A screen is delivered what its client sees of the category only. -/
theorem Performs.delivered {c : C} {d : ProductsScreen.Event} (h : Performs B s e c d) :
    ∀ record ∈ ScreenObjects.delivered d,
      ((s.clients c).view B (s.clients c).app.currentCategory).lookup record.1 = some record.2 := by
  cases h with
  | tapped => exact fun _ hrecord => absurd hrecord List.not_mem_nil
  | own hd =>
    rw [delivered_of_admits hd]
    exact fun _ hrecord => absurd hrecord List.not_mem_nil
  | @observed _ order => exact delivered_snapshot B (s.clients c) _ order

omit [DecidableEq C] in
/-- A screen opens categories of the category screen only. -/
theorem Performs.opened {c : C} {d : ProductsScreen.Event} (h : Performs B s e c d) :
    ∀ name, d = .openCategory name → name ∈ names := by
  intro name hname
  subst hname
  cases h with
  | tapped hname => exact hname
  | own hd => simp [Client.admits] at hd

theorem names_of_tap {indexPath : IndexPath} {name : String} (hshown : Shown indexPath)
    (h : CategoryScreen.tap indexPath = some name) : name ∈ names := by
  obtain ⟨name', hname, htap, _⟩ := tap_of_shown asciiFoundation hshown
  rw [htap] at h
  cases h
  exact hname

theorem step_effect (h : step F B s e = some t) : Effect F B s e t := by
  cases e with
  | tap c indexPath =>
    obtain ⟨hshown, h⟩ := guarded_eq_some.mp h
    obtain ⟨name, hname, h⟩ := Option.bind_eq_some_iff.mp h
    obtain ⟨k, hk, rfl⟩ := Option.map_eq_some_iff.mp h
    obtain ⟨a, ha, rfl⟩ := stepApp_eq_some.mp hk
    exact .stepped (.tapped (names_of_tap hshown hname)) ha
  | client c d =>
    obtain ⟨hadmits, h⟩ := guarded_eq_some.mp h
    obtain ⟨k, hk, rfl⟩ := Option.map_eq_some_iff.mp h
    obtain ⟨a, ha, rfl⟩ := stepApp_eq_some.mp hk
    exact .stepped (.own hadmits) ha
  | valueEvent c order =>
    obtain ⟨horder, h⟩ := guarded_eq_some.mp h
    obtain ⟨k, hk, rfl⟩ := Option.map_eq_some_iff.mp h
    obtain ⟨a, ha, rfl⟩ := stepApp_eq_some.mp hk
    exact .stepped (.observed horder) ha
  | retainedValueEvent c i order =>
    simp only [step] at h
    split at h
    · contradiction
    · rename_i category table hi
      obtain ⟨horder, h⟩ := guarded_eq_some.mp h
      obtain ⟨k, hk, rfl⟩ := Option.map_eq_some_iff.mp h
      obtain ⟨l, hl, rfl⟩ := observe_eq_some hi hk
      exact .observed hi horder hl
  | openPopup c =>
    obtain ⟨⟨hopen, _⟩, h⟩ := guarded_eq_some.mp h
    cases h
    exact .popupOpened hopen
  | popup c i d =>
    simp only [step] at h
    split at h
    · contradiction
    · rename_i p hp
      obtain ⟨hadmits, h⟩ := guarded_eq_some.mp h
      obtain ⟨k, hk, rfl⟩ := Option.map_eq_some_iff.mp h
      obtain ⟨q, hq, rfl⟩ := Option.map_eq_some_iff.mp hk
      exact .popupStepped hp hadmits hq
  | receive c =>
    cases h
    exact .received
  | commit c =>
    simp only [step] at h
    split at h
    · contradiction
    · rename_i q rest hq
      cases h
      exact .committed hq
  | reject c =>
    simp only [step] at h
    split at h
    · contradiction
    · rename_i q rest hq
      cases h
      exact .rejected hq

/-- A step leaves all clients alone but the one it happens to. -/
theorem step_others (h : step F B s e = some t) {c : C} (hc : c ≠ e.actor) :
    t.clients c = s.clients c := by
  cases step_effect h with
  | stepped hd =>
    cases hd with
    | tapped | own | observed => exact setClient_of_ne s _ hc
  | observed | popupOpened | popupStepped | received | committed | rejected =>
    exact setClient_of_ne s _ hc

/-- A property of one client's next state, from what the step does to that client. -/
theorem step_client {P : C → Client → Prop} (h : step F B s e = some t)
    (hs : ∀ c, P c (s.clients c))
    (hstepped : ∀ c d a, Performs B s e c d →
      ProductsScreen.step F (s.clients c).app d = some a → P c (screened (s.clients c) d a))
    (hobserved : ∀ c i category table l order,
      (s.clients c).retained[i]? = some (category, table) →
      ListScreen.valueObserved
        ⟨(s.clients c).app.list.heap, (s.clients c).app.list.hudShown, table⟩
        ((s.clients c).snapshot B category order) = some l →
      P c (observed (s.clients c) i category l))
    (hrest : ∀ c k, k.app = (s.clients c).app → k.retained = (s.clients c).retained → P c k) :
    ∀ c, P c (t.clients c) := by
  cases step_effect h with
  | stepped hd ha => exact setClient_forall hs (hstepped _ _ _ hd ha)
  | observed hi _ hl => exact setClient_forall hs (hobserved _ _ _ _ _ _ hi hl)
  | popupOpened => exact setClient_forall hs (hrest _ _ rfl rfl)
  | popupStepped => exact setClient_forall hs (hrest _ _ rfl rfl)
  | received => exact setClient_forall hs (hrest _ _ rfl rfl)
  | committed => exact setClient_forall hs (hrest _ _ rfl rfl)
  | rejected => exact setClient_forall hs (hrest _ _ rfl rfl)

/-- The press that sends a write: of Save on the form of the selected product, of Delete on
an alert, or of Save in a popup. -/
inductive Sends (s : Network C) : Event C → C → Sent → Prop
  | saved {c : C} {v : FormValues} (hopen : (s.clients c).app.isPresented = true)
      (hv : (s.clients c).app.detailView.formValues = some v) (hfilled : Filled v) :
      Sends s (.client c .savePressed) c ⟨.request (s.clients c).app.requests.length,
        (s.clients c).app.currentCategory, (s.clients c).app.selected.key, .updateChildValues
          (productRecord v (s.clients c).app.selected.displayPicture
            (s.clients c).app.currentCategory)⟩
  | deleted {c : C} {view : Ref} (hw : view ∈ (s.clients c).app.alerts) :
      Sends s (.client c (.alertDelete view)) c ⟨.request (s.clients c).app.requests.length,
        (s.clients c).app.currentCategory, (s.clients c).app.selected.key, .removeValue⟩
  | added {c : C} {i : ℕ} {p : AddPopup.Session} {id : String} {v : FormValues}
      (hp : (s.clients c).popups[i]? = some p) (hid : IsAutoId id) (hnew : id ∉ s.autoIds)
      (hfilled : Filled v) :
      Sends s (.popup c i (.savePressed id)) c ⟨.addition i id, p.currentCategory, id,
        .updateChildValues
          (productRecord v AddPopup.AddProductView.placeholder p.currentCategory)⟩

theorem requested_of_same {k : Client} {a : App} (h : a.requests = k.app.requests) :
    k.requested a = [] := by
  rw [Client.requested, h, List.getElem?_eq_none (Nat.le_refl _)]
  rfl

theorem requested_of_logged {k : Client} {a : App} {r : Request}
    (h : a.requests = k.app.requests ++ [r]) :
    k.requested a = [⟨.request k.app.requests.length, r.category, r.key, r.write⟩] := by
  rw [Client.requested, h, List.getElem?_concat_length]
  rfl

theorem added_of_shorter {i : ℕ} {p q : AddPopup.Session}
    (h : q.pending.length ≤ p.pending.length) : Client.added i p q = [] := by
  rw [Client.added, List.getElem?_eq_none h]
  rfl

theorem added_of_pending {i : ℕ} {p q : AddPopup.Session} {write : String × FirebaseValue}
    (h : q.pending = p.pending ++ [write]) : Client.added i p q =
      [⟨.addition i write.1, p.currentCategory, write.1, .updateChildValues write.2⟩] := by
  rw [Client.added, h, List.getElem?_concat_length]
  rfl

omit [DecidableEq C] in
/-- A step of the screen sends nothing, or the write of the request it logs. -/
theorem requested_cases {c : C} {d : ProductsScreen.Event} {a : App} (hd : Performs B s e c d)
    (ha : ProductsScreen.step F (s.clients c).app d = some a) :
    (a.requests = (s.clients c).app.requests ∧ (s.clients c).requested a = []) ∨
    ∃ q r, Sends s e c q ∧ (s.clients c).requested a = [q] ∧
      a.requests = (s.clients c).app.requests ++ [r] ∧
      q = ⟨.request (s.clients c).app.requests.length, r.category, r.key, r.write⟩ := by
  cases ScreenSteps.step_effect ha with
  | saveSent hs hv =>
    obtain ⟨hguard, v, hform, rfl⟩ := ProductDetailView.savePressed_sent hv
    cases hd with
    | own =>
      refine Or.inr ⟨_, ⟨(s.clients c).app.detail, _, _, _⟩,
        .saved hs.1 hform (filled_of_guard hguard hform), ?_, rfl, rfl⟩
      exact requested_of_logged (r := ⟨(s.clients c).app.detail, _, _, _⟩) rfl
  | @deleteSent view hw =>
    cases hd with
    | own =>
      refine Or.inr ⟨_, ⟨view, _, _, _⟩, .deleted hw, ?_, rfl, rfl⟩
      exact requested_of_logged (r := ⟨view, _, _, _⟩) rfl
  | opened | listed | selected | exited | form | rejected | alerted | cancelled | saveFailed
  | saveDone | deleteFailed | deleteDone => exact Or.inl ⟨rfl, requested_of_same rfl⟩

omit [DecidableEq C] in
/-- A step of a popup sends nothing, or the write of the product it adds. -/
theorem added_cases {c : C} {i : ℕ} {d : AddPopup.Event} {p q : AddPopup.Session}
    (hp : (s.clients c).popups[i]? = some p)
    (hadmits : (s.clients c).AdmitsPopup s.autoIds i p d) (hq : AddPopup.step p d = some q) :
    Client.added i p q = [] ∨
      ∃ w, Sends s (.popup c i d) c w ∧ Client.added i p q = [w] := by
  cases AddPopup.step_effect hq with
  | popup | cancelled => exact Or.inl (added_of_shorter (Nat.le_refl _))
  | failed | created => exact Or.inl (added_of_shorter (List.length_eraseIdx_le _ _))
  | @sent id popup _ _ hsave =>
    obtain ⟨hguard, v, hv, rfl⟩ := AddPopup.AddProductView.savePressed_sent hsave
    obtain ⟨hid, hnew⟩ := hadmits
    refine Or.inr ⟨_, .added hp hid hnew (filled_of_guard hguard hv), ?_⟩
    exact added_of_pending (q := { p with popup := popup, pending := _ }) rfl

/-- What a step does to the queue of a client: nothing, it sends a write, or its first write
is answered. -/
inductive QueueStep (s : Network C) (e : Event C) (c : C) (queue : List Sent) : Prop
  | kept (h : queue = (s.clients c).outgoing)
  | sent {q : Sent} (hsends : Sends s e c q) (h : queue = (s.clients c).outgoing ++ [q])
  | answered {q : Sent} (he : e = .commit c ∨ e = .reject c)
      (h : (s.clients c).outgoing = q :: queue)

theorem step_queue (h : step F B s e = some t) :
    ∀ c, QueueStep s e c (t.clients c).outgoing := by
  have hs : ∀ c, QueueStep s e c (s.clients c).outgoing := fun _ => .kept rfl
  cases step_effect h with
  | stepped hd ha =>
    refine setClient_forall (P := fun c k => QueueStep s _ c k.outgoing) hs ?_
    rcases requested_cases hd ha with ⟨_, hnone⟩ | ⟨q, _, hsends, hsent, _⟩
    · exact .kept (by rw [screened, hnone, List.append_nil])
    · exact .sent hsends (by rw [screened, hsent])
  | observed | popupOpened | received =>
    exact setClient_forall (P := fun c k => QueueStep s _ c k.outgoing) hs (.kept rfl)
  | popupStepped hp hadmits hq =>
    refine setClient_forall (P := fun c k => QueueStep s _ c k.outgoing) hs ?_
    rcases added_cases hp hadmits hq with hnone | ⟨w, hsends, hsent⟩
    · exact .kept (by rw [popped, hnone, List.append_nil])
    · exact .sent hsends (by rw [popped, hsent])
  | committed hq =>
    exact setClient_forall (P := fun c k => QueueStep s _ c k.outgoing) hs
      (.answered (Or.inl rfl) hq)
  | rejected hq =>
    exact setClient_forall (P := fun c k => QueueStep s _ c k.outgoing) hs
      (.answered (Or.inr rfl) hq)

omit [DecidableEq C] in
theorem Sends.actor {c : C} {q : Sent} (h : Sends s e c q) : e.actor = c := by
  cases h with
  | saved | deleted | added => rfl

/-- The writes that a step sends are sent by a press, and come last. -/
theorem mem_sent (h : step F B s e = some t) {q : Sent} (hq : q ∈ sent s e t) :
    Sends s e e.actor q ∧
      (t.clients e.actor).outgoing = (s.clients e.actor).outgoing ++ [q] := by
  unfold sent at hq
  cases step_queue h e.actor with
  | kept heq =>
    rw [heq, List.drop_length] at hq
    exact absurd hq List.not_mem_nil
  | sent hsends heq =>
    rw [heq, List.drop_left, List.mem_singleton] at hq
    subst hq
    exact ⟨hsends, heq⟩
  | answered _ heq =>
    rw [heq, List.length_cons, List.drop_eq_nil_of_le (Nat.le_succ _)] at hq
    exact absurd hq List.not_mem_nil

/-- A write waits since before, or is one that this step sends by a press. -/
theorem step_outgoing (h : step F B s e = some t) {c : C} {q : Sent}
    (hq : q ∈ (t.clients c).outgoing) :
    q ∈ (s.clients c).outgoing ∨ (Sends s e c q ∧ q ∈ sent s e t) := by
  cases step_queue h c with
  | kept heq => exact Or.inl (heq ▸ hq)
  | sent hsends heq =>
    have hactor : e.actor = c := hsends.actor
    subst hactor
    rw [heq] at hq
    refine (List.mem_append.mp hq).imp_right (fun hnew => ?_)
    rw [List.mem_singleton.mp hnew]
    refine ⟨hsends, ?_⟩
    rw [sent, heq, List.drop_left]
    exact List.mem_singleton.mpr rfl
  | answered _ heq =>
    rw [heq]
    exact Or.inl (List.mem_cons_of_mem _ hq)

/-- In the run the client has sent the write. -/
def HasSent (F : Foundation) (B : Firebase) (s : Network C) (es : List (Event C)) (c : C)
    (q : Sent) : Prop :=
  Took (step F B) (fun u e v => e.actor = c ∧ q ∈ sent u e v) s es

/-- A press has sent it. -/
theorem HasSent.press {es : List (Event C)} {c : C} {q : Sent} (h : HasSent F B s es c q) :
    Took (step F B) (fun u e _ => Sends u e c q) s es := by
  obtain ⟨pre, e, post, u, v, rfl, hu, hv, rfl, hq⟩ := h
  exact ⟨pre, e, post, u, v, rfl, hu, hv, (mem_sent hv hq).1⟩

/-- Every write that waits after a run was sent in it. -/
theorem run_sends {stored : Database} {taken : List String} {es : List (Event C)}
    (h : run (step F B) (launched stored taken) es = some t) {c : C} {q : Sent}
    (hq : q ∈ (t.clients c).outgoing) : HasSent F B (launched stored taken) es c q := by
  obtain ⟨pre, e, post, u, v, rfl, hu, hv, hnew, hlost⟩ := run_loses (step F B)
    (P := fun u : Network C => q ∉ (u.clients c).outgoing) List.not_mem_nil
    (fun hnot => hnot hq) h
  obtain ⟨hsends, hsent⟩ := (step_outgoing hv (not_not.mp hlost)).resolve_left hnew
  exact ⟨pre, e, post, u, v, rfl, hu, hv, hsends.actor, hsent⟩

omit [DecidableEq C] in
theorem committed_mem {q : Sent} (hq : q ∈ committed s e) :
    ∃ c, e = .commit c ∧ q ∈ (s.clients c).outgoing := by
  cases e with
  | commit c => exact ⟨c, rfl, List.mem_of_mem_head? hq⟩
  | _ => cases hq

/-- A committed write was the first of its client's queue. -/
theorem step_commit (h : step F B s e = some t) {q : Sent} (hq : q ∈ committed s e) :
    ∃ c, e = .commit c ∧ (s.clients c).outgoing = q :: (t.clients c).outgoing := by
  cases step_effect h with
  | @committed c q' rest hout =>
    refine ⟨c, rfl, ?_⟩
    rw [committed, hout] at hq
    cases hq
    rw [hout]
    change _ = _ :: ((s.setClient c _).clients c).outgoing
    rw [setClient_self]
    rfl
  | stepped hd => cases hd with | tapped | own | observed => cases hq
  | observed | popupOpened | popupStepped | received | rejected => cases hq

/-- The records of the database stay, or a write is committed. -/
theorem step_stored (h : step F B s e = some t) :
    (t.db = s.db ∧ committed s e = none) ∨
      ∃ q, committed s e = some q ∧ t.db = s.db.store B q.write := by
  cases step_effect h with
  | stepped hd =>
    cases hd with
    | tapped | own | observed => exact Or.inl ⟨rfl, rfl⟩
  | observed | popupOpened | popupStepped | received | rejected => exact Or.inl ⟨rfl, rfl⟩
  | committed hq => exact Or.inr ⟨_, by rw [committed, hq, List.head?_cons], rfl⟩

/-- The records of the database, and those that clients have received. -/
def Holds (s : Network C) (db : Database) : Prop := db = s.db ∨ ∃ c, db = (s.clients c).received

/-- What a client has received it had received before, or it is what the database holds. -/
theorem step_received (h : step F B s e = some t) : ∀ c,
    (t.clients c).received = (s.clients c).received ∨ (t.clients c).received = t.db := by
  have hset : ∀ {c : C} {k : Client} {db : Database},
      k.received = (s.clients c).received ∨ k.received = db →
      ∀ d, ((s.setClient c k).clients d).received = (s.clients d).received ∨
        ((s.setClient c k).clients d).received = db :=
    fun {_ _ db} hk => setClient_forall
      (P := fun d k => k.received = (s.clients d).received ∨ k.received = db)
      (fun _ => Or.inl rfl) hk
  cases step_effect h with
  | received | committed => exact hset (Or.inr rfl)
  | stepped | observed | popupOpened | popupStepped | rejected => exact hset (Or.inl rfl)

/-- What is held after a step was held before, or a write is committed to it. -/
theorem step_holds (h : step F B s e = some t) {db : Database} (hdb : Holds t db) :
    Holds s db ∨ ∃ q ∈ committed s e, db = s.db.store B q.write := by
  have hstored : Holds s t.db ∨ ∃ q ∈ committed s e, t.db = s.db.store B q.write :=
    (step_stored h).imp (fun hkept => Or.inl hkept.1) id
  rcases hdb with rfl | ⟨c, rfl⟩
  · exact hstored
  · rcases step_received h c with hkept | hnew
    · exact Or.inl (Or.inr ⟨c, hkept⟩)
    · rw [hnew]
      exact hstored

/-- Generated keys stay taken. -/
theorem step_autoIds (h : step F B s e = some t) : s.autoIds ⊆ t.autoIds := by
  cases step_effect h with
  | popupStepped => exact List.subset_append_left _ _
  | stepped | observed | popupOpened | received | committed | rejected => exact List.Subset.refl _

theorem run_autoIds {es : List (Event C)} (h : run (step F B) s es = some t) :
    s.autoIds ⊆ t.autoIds :=
  run_invariant (step F B) (P := fun t : Network C => s.autoIds ⊆ t.autoIds)
    (List.Subset.refl _) (fun _ _ _ _ hs ht => List.Subset.trans hs (step_autoIds ht)) h

/-- The key of a new addition is taken from then on. -/
theorem sends_autoId {c : C} {i : ℕ} {id : String} {q : Sent} (h : step F B s e = some t)
    (hsends : Sends s e c q) (hq : q.completion = .addition i id) : id ∈ t.autoIds := by
  cases hsends with
  | saved | deleted => cases hq
  | added =>
    cases hq
    cases step_effect h with
    | stepped hd => cases hd
    | popupStepped => exact List.mem_append_right _ (List.mem_singleton.mpr rfl)

/-- The popup belongs to the category of one there was, or to the one that is open. -/
def PopupFrom (k : Client) (p : AddPopup.Session) : Prop :=
  (∃ q ∈ k.popups, q.currentCategory = p.currentCategory) ∨
    (k.app.isPresented = true ∧ p.currentCategory = k.app.currentCategory)

/-- A popup was there before, or is opened by this step over the category shown. -/
theorem step_popup (h : step F B s e = some t) : ∀ c, ∀ p ∈ (t.clients c).popups,
    PopupFrom (s.clients c) p := by
  have hkept : ∀ c, ∀ p ∈ (s.clients c).popups, PopupFrom (s.clients c) p :=
    fun c p hp => Or.inl ⟨p, hp, rfl⟩
  have hset : ∀ {c : C} {k : Client}, (∀ p ∈ k.popups, PopupFrom (s.clients c) p) →
      ∀ d, ∀ p ∈ ((s.setClient c k).clients d).popups, PopupFrom (s.clients d) p :=
    fun hk => setClient_forall (P := fun d k => ∀ p ∈ k.popups, PopupFrom (s.clients d) p) hkept hk
  cases step_effect h with
  | stepped | observed | received | committed | rejected => exact hset (hkept _)
  | popupOpened hopen =>
    refine hset (fun p hp => ?_)
    rcases List.mem_append.mp hp with hold | hnew
    · exact hkept _ p hold
    · rw [List.mem_singleton.mp hnew]
      exact Or.inr ⟨hopen, rfl⟩
  | popupStepped hp _ hq =>
    refine hset (fun r hr => ?_)
    rcases List.mem_or_eq_of_mem_set hr with hold | rfl
    · exact hkept _ r hold
    · refine Or.inl ⟨_, List.mem_of_getElem? hp, ?_⟩
      cases AddPopup.step_effect hq with
      | popup | sent | cancelled | failed | created => rfl

/-- An open screen stays open, in its category, until the exit button is pressed. -/
theorem stays_open {a b : App} {d : ProductsScreen.Event}
    (h : ProductsScreen.step F a d = some b) (hopen : a.isPresented = true)
    (hd : d ≠ .exitPressed) :
    b.isPresented = true ∧ b.currentCategory = a.currentCategory := by
  cases ScreenSteps.step_effect h with
  | opened _ hclosed => exact absurd (hopen.symm.trans hclosed) nofun
  | exited => exact absurd rfl hd
  | listed | selected | form | rejected | saveSent | alerted | cancelled | deleteSent
  | saveFailed | saveDone | deleteFailed | deleteDone => exact ⟨hopen, rfl⟩

/-- Products of screens that were left do not touch the objects of the screen. -/
theorem sound_grow {a : App} (hs : Sound a) {heap : Heap Product} (hud : Bool)
    (hheap : a.list.heap.Extends heap) :
    Sound { a with list := { a.list with heap := heap, hudShown := hud } } where
  selected := hheap.live hs.selected
  listed r hr := hheap.live (hs.listed r hr)
  detail := hs.detail
  alerts := hs.alerts
  requests := hs.requests

theorem observed_extends {heap : Heap Product} {hud : Bool} {table : SampleTable}
    {snapshot : FirebaseValue} {l : ListScreen}
    (h : ListScreen.valueObserved ⟨heap, hud, table⟩ snapshot = some l) : heap.Extends l.heap :=
  listStep_extends (F := asciiFoundation) (l := ⟨heap, hud, table⟩)
    (e := .valueObserved snapshot) h

theorem step_clients_sound (hs : ∀ c, Sound (s.clients c).app) (h : step F B s e = some t) :
    ∀ c, Sound (t.clients c).app := by
  refine step_client (P := fun _ k => Sound k.app) h hs ?_ ?_ ?_
  · exact fun c d a _ ha => step_sound (hs c) ha
  · exact fun c i category table l order _ hl => sound_grow (hs c) _ (observed_extends hl)
  · intro c k happ _
    rw [happ]
    exact hs c

theorem run_clients_sound {stored : Database} {taken : List String} {es : List (Event C)}
    (h : run (step F B) (launched stored taken) es = some t) : ∀ c, Sound (t.clients c).app :=
  run_invariant (step F B) (P := fun t : Network C => ∀ c, Sound (t.clients c).app)
    (fun _ => sound_launch) (fun _ _ _ _ hs ht => step_clients_sound hs ht) h

end MiraclesAdmin.NetworkSteps
