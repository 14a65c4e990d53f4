import MiraclesAdmin.NetworkSteps

/-!
When the lists of the clients agree. After a value event that does not come during a
search, the table of a client shows the records that the client sees of its category, in
some order. It goes on doing so until these records change, the list is searched, its
screen is left, or a save of the client completes, which rewrites the selected object in
place. Clients that see the stored records and are up to date in this sense show the
same products.
-/
namespace MiraclesAdmin.CurrentLists

open SwiftText Transition ObjectHeap ProductRecords ProductForm CategoryStore CategoryWrites
open ScreenSteps hiding Effect step_effect
open ScreenObjects
open ProductList hiding step
open ProductsScreen hiding Event step launch
open AdminNetwork NetworkSteps

/-- The products the data source answers. -/
def listed (a : App) : List Product := a.list.heap.values a.list.table.dataSource

/-- The products whose rows the table has loaded. -/
def loaded (a : App) : List Product := a.list.heap.values a.list.table.loadedRows

/-- The products of records, in the given order of their keys. -/
def products (db : Records) (order : List String) : List Product :=
  (db.inOrder order).filterMap (fun e => readProduct e.1 e.2)

theorem products_perm {db : Records} {order order' : List String} (h : order.Perm order') :
    (products db order).Perm (products db order') :=
  (h.filterMap _).filterMap _

/-- The events of its own that may change what a client lists. -/
inductive Relists : ProductsScreen.Event → Prop
  | opened (name : String) : Relists (.openCategory name)
  | list (e : ListEvent) : Relists (.list e)
  | exited : Relists .exitPressed
  | saved (n : ℕ) : Relists (.saveCompleted n true)

/-- Every other event of the screen keeps the table and the products in it. -/
theorem step_list_kept {F : Foundation} {a b : App} {d : ProductsScreen.Event}
    (h : ProductsScreen.step F a d = some b) (hd : ¬ Relists d) :
    b.list.table = a.list.table ∧ a.list.heap.Extends b.list.heap := by
  cases ScreenSteps.step_effect h with
  | opened name => exact absurd (.opened name) hd
  | listed => exact absurd (.list _) hd
  | exited => exact absurd .exited hd
  | saveDone => exact absurd (.saved _) hd
  | deleteDone => exact ⟨rfl, Heap.extends_alloc _ _⟩
  | selected | form | rejected | saveSent | alerted | cancelled | deleteSent | saveFailed
  | deleteFailed => exact ⟨rfl, Heap.Extends.refl _⟩

/-- The screen shows the category, and its table the given products. -/
structure Shows (a : App) (category : String) (ps : List Product) : Prop where
  isOpen : a.isPresented = true
  category : a.currentCategory = category
  unsearched : a.list.table.searchActive = false
  loadedRows : a.list.table.loadedRows = a.list.table.productsArray
  values : a.list.heap.values a.list.table.productsArray = ps

theorem Shows.dataSource {a : App} {category : String} {ps : List Product}
    (hs : Shows a category ps) : a.list.table.dataSource = a.list.table.productsArray := by
  rw [SampleTable.dataSource, hs.unsearched]
  rfl

theorem Shows.listed {a : App} {category : String} {ps : List Product}
    (hs : Shows a category ps) : listed a = ps := by
  rw [CurrentLists.listed, hs.dataSource]
  exact hs.values

theorem Shows.loaded {a : App} {category : String} {ps : List Product}
    (hs : Shows a category ps) : loaded a = ps := by
  rw [CurrentLists.loaded, hs.loadedRows]
  exact hs.values

/-- The table stays and the products in it stay. -/
theorem Shows.extend {a b : App} {category : String} {ps : List Product}
    (hs : Shows a category ps) (hsound : Sound a) (hopen : b.isPresented = true)
    (hcategory : b.currentCategory = a.currentCategory) (htable : b.list.table = a.list.table)
    (hheap : a.list.heap.Extends b.list.heap) : Shows b category ps := by
  refine ⟨hopen, hcategory.trans hs.category, ?_, ?_, ?_⟩
  · rw [htable]
    exact hs.unsearched
  · rw [htable]
    exact hs.loadedRows
  · rw [htable, hheap.values (fun r hr => hsound.listed r (Or.inl hr))]
    exact hs.values

theorem Shows.kept {F : Foundation} {a b : App} {d : ProductsScreen.Event} {category : String}
    {ps : List Product} (hs : Shows a category ps) (hsound : Sound a)
    (h : ProductsScreen.step F a d = some b) (hd : ¬ Relists d) : Shows b category ps := by
  have hexit : d ≠ .exitPressed := fun heq => hd (heq ▸ .exited)
  obtain ⟨hopen, hcategory⟩ := stays_open h hs.isOpen hexit
  obtain ⟨htable, hheap⟩ := step_list_kept h hd
  exact hs.extend hsound hopen hcategory htable hheap

/-- A value event with records shows their products, unless the list is searched. -/
theorem observed_shows {F : Foundation} {a b : App} {db : Records} {order : List String}
    (hsearch : a.list.table.searchActive = false) (horder : order.Perm db.keys)
    (hne : db.keys ≠ [])
    (h : ProductsScreen.step F a (.list (.valueObserved (.ofChildren (db.inOrder order)))) =
      some b) : Shows b a.currentCategory (products db order) := by
  have hrecords : db.inOrder order ≠ [] := by
    intro hnil
    have hkeys : (db.inOrder order).map Prod.fst = order :=
      Records.keys_inOrder (fun key => horder.mem_iff.mp)
    rw [hnil] at hkeys
    have hperm := horder
    rw [← hkeys] at hperm
    exact hne (List.nil_perm.mp hperm)
  obtain ⟨hopen, h⟩ := guarded_eq_some.mp h
  obtain ⟨l, hl, rfl⟩ := Option.map_eq_some_iff.mp h
  have hdict : (FirebaseValue.ofChildren (db.inOrder order)).asDictionary =
      some (db.inOrder order) := by
    cases hcons : db.inOrder order with
    | nil => exact absurd hcons hrecords
    | cons first rest => rfl
  rcases ListScreen.valueObserved_cases hl with ⟨hnone, _⟩ | ⟨all, heap, refs, hall, hread, rfl⟩
  · rw [hdict] at hnone
    cases hnone
  · rw [hdict] at hall
    cases hall
    obtain ⟨new, hnew, _, _, hvalues⟩ := readProducts_spec hread
    rw [List.nil_append] at hnew
    subst hnew
    refine ⟨hopen, rfl, hsearch, ?_, (CategorySnapshot.filterMap_of_forall₂ hvalues).symm⟩
    simp only [SampleTable.reloadData, SampleTable.dataSource, hsearch, Bool.false_eq_true,
      if_false]

variable {C : Type*} [DecidableEq C] {F : Foundation} {B : Firebase} {s t : Network C}
  {e : Event C}

/-- The events of the client that end its list's being up to date: it is searched or left,
or a save completes. -/
def ends (c : C) : Event C → Bool
  | .client d .exitPressed => decide (d = c)
  | .client d (.saveCompleted _ true) => decide (d = c)
  | .client d (.list _) => decide (d = c)
  | _ => false

/-- The table of the client shows the records that it sees of the category. -/
def Current (B : Firebase) (c : C) (category : String) (s : Network C) : Prop :=
  ((s.clients c).view B category).keys ≠ [] ∧
    ∃ order, order.Perm ((s.clients c).view B category).keys ∧
      Shows (s.clients c).app category (products ((s.clients c).view B category) order)

/-- What the client's screen shows after a step that does not end it. -/
theorem step_shows {c : C} {category : String} (hsound : Sound (s.clients c).app)
    (hs : Current B c category s) (h : step F B s e = some t) (he : ¬ ends c e = true) :
    ∃ order, order.Perm ((s.clients c).view B category).keys ∧
      Shows (t.clients c).app category (products ((s.clients c).view B category) order) := by
  obtain ⟨hne, order, horder, hshows⟩ := hs
  refine step_client (P := fun d k => d = c → ∃ order,
    order.Perm ((s.clients c).view B category).keys ∧
      Shows k.app category (products ((s.clients c).view B category) order)) h ?_ ?_ ?_ ?_ c rfl
  · rintro d rfl
    exact ⟨order, horder, hshows⟩
  · rintro d ev a hperforms ha rfl
    cases hperforms with
    | tapped =>
      obtain ⟨hclosed, _⟩ := guarded_eq_some.mp ha
      exact absurd (hshows.isOpen.symm.trans hclosed) nofun
    | own hadmits =>
      refine ⟨order, horder, hshows.kept hsound ha ?_⟩
      intro hrelists
      cases hrelists with
      | opened => simp [Client.admits] at hadmits
      | list | exited | saved => exact he (decide_eq_true rfl)
    | @observed _ order' horder' =>
      rw [Client.snapshot, hshows.category] at ha
      rw [hshows.category] at horder'
      have hnew := observed_shows hshows.unsearched horder' hne ha
      rw [hshows.category] at hnew
      exact ⟨order', horder', hnew⟩
  · rintro d i category' table l order' _ hl rfl
    have hheap : (s.clients d).app.list.heap.Extends l.heap := observed_extends hl
    exact ⟨order, horder, hshows.extend hsound hshows.isOpen rfl rfl hheap⟩
  · rintro d k happ _ rfl
    rw [happ]
    exact ⟨order, horder, hshows⟩

/-- The step does not end it, and what the client sees of the category does not change. -/
def Keeps (B : Firebase) (c : C) (category : String) (s : Network C) (e : Event C)
    (t : Network C) : Prop :=
  ¬ ends c e = true ∧ (t.clients c).view B category = (s.clients c).view B category

theorem step_current {c : C} {category : String} (hsound : Sound (s.clients c).app)
    (hs : Current B c category s) (h : step F B s e = some t)
    (hkeeps : Keeps B c category s e t) : Current B c category t := by
  have hshows := step_shows hsound hs h hkeeps.1
  unfold Current
  rw [hkeeps.2]
  exact ⟨hs.1, hshows⟩

/-- What happens to other clients keeps it. -/
theorem keeps_of_other {c : C} {category : String} (h : step F B s e = some t)
    (hc : c ≠ e.actor) (he : ¬ ends c e = true) : Keeps B c category s e t := by
  refine ⟨he, ?_⟩
  rw [step_others h hc]

/-- The client has received a value event with records in the category while the list was
not searched. Since then it was not searched or left, no save of the client has completed,
and what the client sees of the category has not changed. -/
def UpToDate (F : Foundation) (B : Firebase) (start : Network C) (es : List (Event C)) (c : C)
    (category : String) : Prop :=
  ∃ pre order post s u, es = pre ++ .valueEvent c order :: post ∧
    run (step F B) start pre = some s ∧ step F B s (.valueEvent c order) = some u ∧
    (s.clients c).app.currentCategory = category ∧
    (s.clients c).app.list.table.searchActive = false ∧
    ((s.clients c).view B category).keys ≠ [] ∧
    EachStep (step F B) (fun _ s e t => Keeps B c category s e t) u post

/-- A value event with records makes the list current. -/
theorem valueEvent_current {c : C} {order : List String}
    (hsearch : (s.clients c).app.list.table.searchActive = false)
    (hne : ((s.clients c).view B (s.clients c).app.currentCategory).keys ≠ [])
    (h : step F B s (.valueEvent c order) = some t) :
    Current B c (s.clients c).app.currentCategory t := by
  obtain ⟨horder, h⟩ := guarded_eq_some.mp h
  obtain ⟨k, hk, rfl⟩ := Option.map_eq_some_iff.mp h
  obtain ⟨a, ha, rfl⟩ := stepApp_eq_some.mp hk
  have hshows := observed_shows hsearch horder hne ha
  have hquiet : a.requests = (s.clients c).app.requests := by
    obtain ⟨_, hlist⟩ := guarded_eq_some.mp ha
    obtain ⟨_, _, rfl⟩ := Option.map_eq_some_iff.mp hlist
    rfl
  have hview : (screened (s.clients c) (.list (.valueObserved ((s.clients c).snapshot B
      (s.clients c).app.currentCategory order))) a).view B = (s.clients c).view B := by
    simp only [Client.view, screened, requested_of_same hquiet, List.append_nil]
  unfold Current
  rw [setClient_self, hview]
  exact ⟨hne, order, horder, hshows⟩

theorem current_of_upToDate {stored : Database} {taken : List String} {es : List (Event C)}
    {c : C} {category : String} (h : run (step F B) (launched stored taken) es = some t)
    (hc : UpToDate F B (launched stored taken) es c category) : Current B c category t := by
  obtain ⟨pre, order, post, s, u, rfl, hs, hu, rfl, hsearch, hne, heach⟩ := hc
  have hpre : run (step F B) (launched stored taken) (pre ++ [.valueEvent c order]) = some u :=
    run_concat (step F B) hs hu
  have hpost : run (step F B) u post = some t := by
    rw [run_append_of_eq (step F B) hs, run_cons, hu] at h
    exact h
  refine (eachStep_invariant (P := fun v : Network C => (∀ c, Sound (v.clients c).app) ∧
    Current B c (s.clients c).app.currentCategory v) heach ?_ ?_ hpost).2
  · exact ⟨run_clients_sound hpre, valueEvent_current hsearch hne hu⟩
  · intro _ v e w hkeeps hv hw
    exact ⟨step_clients_sound hv.1 hw, step_current (hv.1 c) hv.2 hw hkeeps⟩

/-- The client has received the category as it is stored, and waits for no write to it. -/
def Settled (s : Network C) (c : C) (category : String) : Prop :=
  (s.clients c).received category = s.db category ∧
    ∀ q ∈ (s.clients c).outgoing, q.write.category ≠ category

omit [DecidableEq C] in
theorem Settled.view {c : C} {category : String} (h : Settled s c category) :
    (s.clients c).view B category = s.db category := by
  refine (storeAll_of_untouched ?_).trans h.1
  intro w hw
  obtain ⟨q, hq, rfl⟩ := List.mem_map.mp hw
  exact h.2 q hq

/-- In every run, the table of a client that is up to date has loaded the products of the
records the client sees of the category, and its data source answers the same. Two such
clients that are settled show the stored products, and so the same up to their order. -/
theorem lists_agree (F : Foundation) (B : Firebase) (stored : Database) (taken : List String)
    (es : List (Event C)) (t : Network C)
    (h : run (step F B) (launched stored taken) es = some t) (category : String) (c d : C)
    (hc : UpToDate F B (launched stored taken) es c category)
    (hd : UpToDate F B (launched stored taken) es d category) :
    listed (t.clients c).app = loaded (t.clients c).app ∧
    (t.clients c).app.list.table.numberOfRowsInSection = (loaded (t.clients c).app).length ∧
    (loaded (t.clients c).app).Perm (products ((t.clients c).view B category)
      ((t.clients c).view B category).keys) ∧
    (Settled t c category → Settled t d category →
      (loaded (t.clients c).app).Perm (products (t.db category) (t.db category).keys) ∧
      (loaded (t.clients c).app).Perm (loaded (t.clients d).app)) := by
  obtain ⟨_, order, horder, hshows⟩ := current_of_upToDate h hc
  obtain ⟨_, order', horder', hshows'⟩ := current_of_upToDate h hd
  refine ⟨hshows.listed.trans hshows.loaded.symm, ?_, ?_, ?_⟩
  · rw [SampleTable.numberOfRows_eq, hshows.dataSource, ← hshows.loadedRows]
    exact (List.length_map _).symm
  · rw [hshows.loaded]
    exact products_perm horder
  · intro hsettled hsettled'
    rw [hshows.loaded, hshows'.loaded, hsettled.view, hsettled'.view]
    rw [hsettled.view] at horder
    rw [hsettled'.view] at horder'
    exact ⟨products_perm horder, products_perm (horder.trans horder'.symm)⟩

/-- The rings after a band was added. -/
def ringAndBand : Database :=
  Function.update oneRing "Rings" ((oneRing "Rings").setValue "-L2"
    (productRecord ⟨"Gold Band", "wide", 75, true⟩ "band.png" "Rings"))

/-- Two clients receive them in different orders. -/
def bothReceive : List (Event Bool) :=
  [.tap true ⟨0, 1⟩, .tap false ⟨0, 1⟩, .valueEvent true ["-L1", "-L2"],
    .valueEvent false ["-L2", "-L1"]]

theorem upToDate_bothReceive : ∀ c, UpToDate asciiFoundation namesCategory
    (launched ringAndBand []) bothReceive c "Rings" := by
  intro c
  cases c with
  | true =>
    refine ⟨bothReceive.take 2, _, bothReceive.drop 3, _, _, rfl, rfl, rfl, rfl, rfl, by decide,
      ?_⟩
    refine eachStep_cons_iff.mpr (fun v hv => ⟨?_, eachStep_nil⟩)
    exact keeps_of_other hv (by decide) (by decide)
  | false =>
    exact ⟨bothReceive.take 3, _, [], _, _, rfl, rfl, rfl, rfl, rfl, by decide, eachStep_nil⟩

/-- They list them in these orders, and so the same products. -/
theorem both_list_the_band : ∃ t,
    run (step asciiFoundation namesCategory) (launched ringAndBand []) bothReceive = some t ∧
    (loaded (t.clients true).app).Perm (loaded (t.clients false).app) := by
  have hrun : ∃ t,
      run (step asciiFoundation namesCategory) (launched ringAndBand []) bothReceive = some t ∧
      Settled t true "Rings" ∧ Settled t false "Rings" :=
    ⟨_, rfl, ⟨rfl, fun _ hq => absurd hq List.not_mem_nil⟩,
      ⟨rfl, fun _ hq => absurd hq List.not_mem_nil⟩⟩
  obtain ⟨t, ht, hfirst, hsecond⟩ := hrun
  exact ⟨t, ht, ((lists_agree asciiFoundation namesCategory ringAndBand [] bothReceive t ht
    "Rings" true false (upToDate_bothReceive true) (upToDate_bothReceive false)).2.2.2 hfirst
      hsecond).2⟩

end MiraclesAdmin.CurrentLists
