import MiraclesAdmin.StoredRecords
import MiraclesAdmin.WriteTargeting

/-!
Where the keys of requests come from. A client knows keys from the records it decoded,
and only of the category it has open: the table is fresh when a category is opened, and
the selection is blank then. It sees what was committed, and its own writes before that.
So a request names a record its category held at the start, one that was added to it, or
no record at all.
-/
namespace MiraclesAdmin.RequestOrigins

open SwiftText Transition ObjectHeap ProductRecords ProductForm CategoryStore CategoryWrites
open CategoryScreen hiding fillCell
open ScreenSteps hiding Effect step_effect
open ScreenObjects WriteTargeting
open ProductList hiding step
open ProductsScreen hiding Event step launch
open AdminNetwork NetworkSteps StoredRecords

/-- A category of the category screen. -/
def IsCategory (F : Foundation) (category : String) : Prop :=
  ∃ name ∈ names, category = F.capitalized name

/-- The keys a client knows, and those of the requests it sent, are traced to their
category. -/
structure Traced (F : Foundation) (origin : String → String → Prop) (a : App) : Prop where
  keyed : Keyed a
  placed : IsCategory F a.currentCategory ∨ (a.isPresented = false ∧ a.alerts = [])
  known : ∀ r, Known a r → (a.list.heap.cell r).key = "" ∨
    origin a.currentCategory (a.list.heap.cell r).key
  sent : ∀ q ∈ a.requests, IsCategory F q.category ∧ (q.key = "" ∨ origin q.category q.key)

variable {F : Foundation} {origin origin' : String → String → Prop} {a b : App}
  {d : ProductsScreen.Event}

theorem traced_launch (F : Foundation) (origin : String → String → Prop) :
    Traced F origin ProductsScreen.launch where
  keyed := keyed_launch
  placed := Or.inr ⟨rfl, rfl⟩
  known r hr := by
    rcases hr with hr | rfl
    · rcases hr with hr | hr <;> exact absurd hr List.not_mem_nil
    · exact Or.inl rfl
  sent _ hq := absurd hq List.not_mem_nil

theorem Traced.mono (h : Traced F origin a)
    (horigin : ∀ category key, origin category key → origin' category key) :
    Traced F origin' a where
  keyed := h.keyed
  placed := h.placed
  known r hr := (h.known r hr).imp_right (horigin _ _)
  sent q hq := ⟨(h.sent q hq).1, (h.sent q hq).2.imp_right (horigin _ _)⟩

/-- Only the opening of a category sets `currentCategory`. -/
theorem step_currentCategory (h : ProductsScreen.step F a d = some b)
    (hd : ∀ name, d ≠ .openCategory name) : b.currentCategory = a.currentCategory := by
  cases ScreenSteps.step_effect h with
  | opened name => exact absurd rfl (hd name)
  | listed | selected | exited | form | rejected | saveSent | alerted | cancelled | deleteSent
  | saveFailed | saveDone | deleteFailed | deleteDone => rfl

theorem step_placed (hopened : ∀ name, d = .openCategory name → name ∈ names)
    (hs : IsCategory F a.currentCategory ∨ (a.isPresented = false ∧ a.alerts = []))
    (h : ProductsScreen.step F a d = some b) :
    IsCategory F b.currentCategory ∨ (b.isPresented = false ∧ b.alerts = []) := by
  cases ScreenSteps.step_effect h with
  | opened name => exact Or.inl ⟨name, hopened name rfl, rfl⟩
  | exited => exact hs.imp_right (fun hclosed => ⟨rfl, hclosed.2⟩)
  | alerted hform =>
    rcases hs with hcategory | hclosed
    · exact Or.inl hcategory
    · exact absurd (hform.1.symm.trans hclosed.1) nofun
  | cancelled hw =>
    refine hs.imp_right (fun hclosed => ?_)
    rw [hclosed.2] at hw
    exact absurd hw List.not_mem_nil
  | deleteSent hw =>
    refine hs.imp_right (fun hclosed => ?_)
    rw [hclosed.2] at hw
    exact absurd hw List.not_mem_nil
  | listed | selected | form | rejected | saveSent | saveFailed | saveDone | deleteFailed
  | deleteDone => exact hs

/-- A request is sent from a screen that is open, or from an alert it opened. -/
theorem sentFrom_placed {q : Request} (hq : SentFrom a q)
    (hs : IsCategory F a.currentCategory ∨ (a.isPresented = false ∧ a.alerts = [])) :
    IsCategory F q.category := by
  rw [hq.category]
  rcases hs with hcategory | ⟨hclosed, halerts⟩
  · exact hcategory
  · cases hw : q.write with
    | updateChildValues value =>
      obtain ⟨_, hopen, _⟩ := hq.value value hw
      exact absurd (hopen.symm.trans hclosed) nofun
    | removeValue =>
      have halert := hq.alert hw
      rw [halerts] at halert
      exact absurd halert List.not_mem_nil

/-- Nothing a client knows when it has opened a category has a key. -/
theorem opened_known (hs : Keyed a) {name : String}
    (h : ProductsScreen.step F a (.openCategory name) = some b) {r : Ref} (hr : Known b r) :
    (b.list.heap.cell r).key = "" := by
  obtain ⟨hclosed, h⟩ := guarded_eq_some.mp h
  cases h
  rcases hr with hr | rfl
  · rcases hr with hr | hr <;> exact absurd hr List.not_mem_nil
  · exact hs.closed hclosed

/-- A client that is delivered keys of its category stays traced. -/
theorem step_traced (hs : Traced F origin a) (h : ProductsScreen.step F a d = some b)
    (hopened : ∀ name, d = .openCategory name → name ∈ names)
    (hkeyed : KeyedDelivery d)
    (hdelivered : ∀ record ∈ delivered d, (readProduct record.1 record.2).isSome →
      origin a.currentCategory record.1) : Traced F origin b := by
  refine ⟨step_keyed hkeyed hs.keyed h, step_placed hopened hs.placed h, ?_, ?_⟩
  · by_cases hd : ∃ name, d = .openCategory name
    · obtain ⟨name, rfl⟩ := hd
      exact fun r hr => Or.inl (opened_known hs.keyed h hr)
    · have hsame := step_currentCategory h (fun name heq => hd ⟨name, heq⟩)
      rw [hsame]
      refine step_known (P := fun p => p.key = "" ∨ origin a.currentCategory p.key) ?_
        (Or.inl rfl) hs.keyed.sound ?_ hs.known h
      · intro p q hkey _ hp
        rw [hkey]
        exact hp
      · intro record hrecord p hread
        rw [readProduct_key hread]
        refine Or.inr (hdelivered record hrecord ?_)
        rw [hread]
        rfl
  · intro q hq
    rcases step_requests h with hsame | ⟨q', hnew, hfrom⟩
    · exact hs.sent q (hsame ▸ hq)
    · rw [hnew] at hq
      rcases List.mem_append.mp hq with hold | hlast
      · exact hs.sent q hold
      · rw [List.mem_singleton.mp hlast]
        refine ⟨sentFrom_placed hfrom hs.placed, ?_⟩
        rw [hfrom.key, hfrom.category]
        exact hs.known _ (Or.inr rfl)

/-- Products of screens that were left do not touch what a client knows. -/
theorem Traced.grow (hs : Traced F origin a) {heap : Heap Product} (hud : Bool)
    (hheap : a.list.heap.Extends heap) :
    Traced F origin { a with list := { a.list with heap := heap, hudShown := hud } } := by
  have hcell : ∀ r, Known a r → heap.cell r = a.list.heap.cell r :=
    fun r hr => hheap.2 r (hs.keyed.sound.live_known hr)
  refine ⟨⟨sound_grow hs.keyed.sound hud hheap, ?_, ?_⟩, hs.placed, ?_, hs.sent⟩
  · intro hclosed
    change (heap.cell a.selectedProduct).key = ""
    rw [hcell _ (Or.inr rfl)]
    exact hs.keyed.closed hclosed
  · intro r hr
    change (heap.cell r).key ≠ ""
    rw [hcell r (Or.inl hr)]
    exact hs.keyed.listed r hr
  · intro r hr
    change (heap.cell r).key = "" ∨ origin a.currentCategory (heap.cell r).key
    rw [hcell r hr]
    exact hs.known r hr

theorem not_mem_fieldNames {id : String} (h : IsAutoId id) : id ∉ fieldNames := by
  intro hmem
  have hshort : ∀ name ∈ fieldNames, name.length ≠ 20 := by decide
  exact hshort id hmem h.1

/-- A field of a record that was written over its category. -/
def IsField (key : String) (record : FirebaseValue) : Prop :=
  key ∈ fieldNames ∧ ∀ name, record.child name = none

section network

variable {C : Type*} [DecidableEq C] {B : Firebase} {s t : Network C} {e : Event C}
  {origin origin' : C → String → String → Prop} {known known' : String → String → Prop}

/-- All keys of the network are traced. Records are held under keys that are known to
everybody, or are fields; a client may know further keys of its own. -/
structure TracedKeys (F : Foundation) (origin : C → String → String → Prop)
    (known : String → String → Prop) (s : Network C) : Prop where
  formatted : Formatted s
  nonempty : ∀ c category key, origin c category key → key ≠ ""
  shared : ∀ c category key, known category key → origin c category key
  held : AllHeld (fun category key record => known category key ∨ IsField key record) s
  waiting : ∀ c, ∀ q ∈ (s.clients c).outgoing,
    q.write.key = "" ∨ origin c q.write.category q.write.key
  clients : ∀ c, Traced F (origin c) (s.clients c).app

omit [DecidableEq C] in
/-- A field that was put under the empty key. -/
theorem isField_of_spread (hf : Formatted s) {c : C} {q : Sent} (hq : q ∈ (s.clients c).outgoing)
    {key : String} {record value : FirebaseValue}
    (hwrite : q.write.write = .updateChildValues value)
    (hmem : (key, record) ∈ value.asDictionary.getD []) : IsField key record := by
  obtain ⟨v, link, rfl, _⟩ := hf c q hq value hwrite
  exact ⟨key_mem_fieldNames hmem, child_of_child hmem⟩

omit [DecidableEq C] in
/-- What a client sees is kept under keys it may know, or is a field. -/
theorem TracedKeys.view (hB : B.Local) (hs : TracedKeys F origin known s) (c : C) :
    ∀ category key record, ((s.clients c).view B category).lookup key = some record →
      origin c category key ∨ IsField key record := by
  refine view_forall hB ?_ ?_
  · intro db hdb category key record hlookup
    exact (hs.held db hdb category key record hlookup).imp_left (hs.shared c category key)
  · intro q hq key record hputs
    cases hputs with
    | keyed hkey hne _ =>
      subst hkey
      exact Or.inl ((hs.waiting c q hq).resolve_left hne)
    | spread _ hwrite hmem => exact Or.inr (isField_of_spread hs.formatted hq hwrite hmem)

omit [DecidableEq C] in
theorem TracedKeys.delivered (hB : B.Local) (hs : TracedKeys F origin known s) {c : C}
    {d : ProductsScreen.Event} (hd : Performs B s e c d) {record : String × FirebaseValue}
    (hrecord : record ∈ ScreenObjects.delivered d) : record.1 ≠ "" ∧
      ((readProduct record.1 record.2).isSome →
        origin c (s.clients c).app.currentCategory record.1) := by
  rcases hs.view hB c _ _ _ (hd.delivered record hrecord) with horigin | ⟨hfield, hnone⟩
  · exact ⟨hs.nonempty c _ _ horigin, fun _ => horigin⟩
  · refine ⟨?_, ?_⟩
    · intro hkey
      rw [hkey] at hfield
      exact absurd hfield (by decide)
    · intro hread
      rw [readProduct_eq_none hnone] at hread
      exact Bool.noConfusion hread

/-- The keys stay traced if a committed key becomes known, and that of a new addition is
one its client may know. -/
theorem step_tracedKeys (hB : B.Local) (hs : TracedKeys F origin known s)
    (hcommitted : ∀ q ∈ committed s e, q.write.key ≠ "" → known q.write.category q.write.key)
    (hadded : ∀ q ∈ sent s e t, q.IsAddition → origin e.actor q.write.category q.write.key)
    (h : step F B s e = some t) : TracedKeys F origin known t := by
  refine ⟨step_formatted hs.formatted h, hs.nonempty, hs.shared, ?_, ?_, ?_⟩
  · refine step_allHeld hB hs.held ?_ h
    intro q hq key record hputs
    obtain ⟨c, _, hmem⟩ := committed_mem hq
    cases hputs with
    | keyed hkey hne _ =>
      subst hkey
      exact Or.inl (hcommitted q hq hne)
    | spread _ hwrite hspread => exact Or.inr (isField_of_spread hs.formatted hmem hwrite hspread)
  · intro c q hq
    rcases step_outgoing h hq with hold | ⟨hsends, hnew⟩
    · exact hs.waiting c q hold
    · cases hsends with
      | saved | deleted => exact (hs.clients c).known _ (Or.inr rfl)
      | added => exact Or.inr (hadded _ hnew ⟨_, _, rfl⟩)
  · refine step_client (P := fun c k => Traced F (origin c) k.app) h hs.clients ?_ ?_ ?_
    · intro c d a hd ha
      refine step_traced (hs.clients c) ha hd.opened ?_ ?_
      · exact fun record hrecord => (hs.delivered hB hd hrecord).1
      · exact fun record hrecord hread => (hs.delivered hB hd hrecord).2 hread
    · intro c i category table l order _ hl
      exact (hs.clients c).grow _ (observed_extends hl)
    · intro c k happ _
      rw [happ]
      exact hs.clients c

omit [DecidableEq C] in
theorem TracedKeys.mono (hs : TracedKeys F origin known s)
    (horigin : ∀ c category key, origin c category key → origin' c category key)
    (hknown : ∀ category key, known category key → known' category key)
    (hnonempty : ∀ c category key, origin' c category key → key ≠ "")
    (hshared : ∀ c category key, known' category key → origin' c category key) :
    TracedKeys F origin' known' s where
  formatted := hs.formatted
  nonempty := hnonempty
  shared := hshared
  held db hdb category key record h :=
    (hs.held db hdb category key record h).imp_left (hknown category key)
  waiting c q hq := (hs.waiting c q hq).imp_right (horigin c _ _)
  clients c := (hs.clients c).mono (horigin c)

variable {stored : Database} {taken : List String} {es : List (Event C)}

/-- In the run the client has sent an addition of a product under the key. -/
def HasAdded (F : Foundation) (B : Firebase) (s : Network C) (es : List (Event C)) (c : C)
    (category key : String) : Prop :=
  ∃ q : Sent, HasSent F B s es c q ∧ q.IsAddition ∧ q.write.category = category ∧
    q.write.key = key

/-- The category held the key at the start, or an addition under it was sent and a write
to it committed after that. -/
def Published (F : Foundation) (B : Firebase) (stored : Database) (taken : List String)
    (es : List (Event C)) (category key : String) : Prop :=
  key ∈ (stored category).keys ∨
    ∃ c pre post s, es = pre ++ post ∧ HasAdded F B (launched stored taken) pre c category key ∧
      run (step F B) (launched stored taken) pre = some s ∧
      Took (step F B) (fun u e _ => ∃ w ∈ committedWrite u e, w.category = category ∧ w.key = key)
        s post

/-- The key is published, or the client has added a product under it itself. -/
def Origin (F : Foundation) (B : Firebase) (stored : Database) (taken : List String)
    (es : List (Event C)) (c : C) (category key : String) : Prop :=
  Published F B stored taken es category key ∨
    HasAdded F B (launched stored taken) es c category key

theorem HasAdded.append {c : C} {category key : String} (h : HasAdded F B s es c category key)
    (fs : List (Event C)) : HasAdded F B s (es ++ fs) c category key := by
  obtain ⟨q, hsent, hrest⟩ := h
  exact ⟨q, hsent.append fs, hrest⟩

theorem HasAdded.isAutoId {c : C} {category key : String}
    (h : HasAdded F B s es c category key) : IsAutoId key := by
  obtain ⟨q, hsent, ⟨i, id, hid⟩, _, rfl⟩ := h
  obtain ⟨_, _, _, _, _, _, _, _, hsends⟩ := hsent.press
  cases hsends with
  | saved | deleted => cases hid
  | added _ hauto => exact hauto

theorem Published.append {category key : String}
    (h : Published F B stored taken es category key) (fs : List (Event C)) :
    Published F B stored taken (es ++ fs) category key := by
  refine h.imp_right (fun hlater => ?_)
  obtain ⟨c, pre, post, s, rfl, hadded, hs, htook⟩ := hlater
  exact ⟨c, pre, post ++ fs, s, List.append_assoc _ _ _, hadded, hs, htook.append fs⟩

theorem Origin.append {c : C} {category key : String}
    (h : Origin F B stored taken es c category key) (fs : List (Event C)) :
    Origin F B stored taken (es ++ fs) c category key :=
  h.imp (fun hknown => hknown.append fs) (fun hadded => hadded.append fs)

/-- Whoever added it, a key a client may know was there at the start or is one of an
addition. -/
theorem Origin.stored_or_added {c : C} {category key : String}
    (h : Origin F B stored taken es c category key) : key ∈ (stored category).keys ∨
      ∃ d, HasAdded F B (launched stored taken) es d category key := by
  rcases h with (hold | ⟨d, pre, post, _, rfl, hadded, _⟩) | hadded
  · exact Or.inl hold
  · exact Or.inr ⟨d, hadded.append post⟩
  · exact Or.inr ⟨c, hadded⟩

theorem Origin.ne_empty (hstored : ∀ category, "" ∉ (stored category).keys) {c : C}
    {category key : String} (h : Origin F B stored taken es c category key) : key ≠ "" := by
  rcases h.stored_or_added with hold | ⟨d, hadded⟩
  · intro hkey
    exact hstored category (hkey ▸ hold)
  · exact hadded.isAutoId.ne_empty

/-- A key that became known in the run was written to by a commit. -/
theorem Published.committed (h : run (step F B) (launched stored taken) es = some t)
    {category key : String} (hknown : Published F B stored taken es category key) :
    key ∈ (stored category).keys ∨
      ∃ w ∈ outputs (step F B) committedWrite (launched stored taken) es, w.key = key := by
  rcases hknown with hold | ⟨c, pre, post, s, rfl, _, hs, htook⟩
  · exact Or.inl hold
  · obtain ⟨first, e, rest, u, v, rfl, hu, hv, w, hw, _, hkey⟩ := htook
    have hpre : run (step F B) (launched stored taken) (pre ++ first) = some u := by
      rw [run_append_of_eq (step F B) hs]
      exact hu
    refine Or.inr ⟨w, (mem_outputs_iff h).mpr ⟨pre ++ first, e, rest, u, v, ?_, hpre, hv, hw⟩, hkey⟩
    exact (List.append_assoc _ _ _).symm

/-- A committed key that its client may know is published. -/
theorem published_of_committed {u : Network C}
    (ht : run (step F B) (launched stored taken) es = some t) (hu : step F B t e = some u)
    {c : C} {q : Sent} (hq : q ∈ committed t e)
    (horigin : Origin F B stored taken es c q.write.category q.write.key) :
    Published F B stored taken (es ++ [e]) q.write.category q.write.key := by
  rcases horigin with hknown | hadded
  · exact hknown.append [e]
  · have hcommits : q.write ∈ committedWrite t e := by
      rw [committedWrite, hq]
      rfl
    exact Or.inr ⟨c, es, [e], t, rfl, hadded, ht, [], e, [], t, u, rfl, rfl, hu, q.write, hcommits,
      rfl, rfl⟩

theorem run_tracedKeys (hB : B.Local) (hstored : ∀ category, "" ∉ (stored category).keys)
    (h : run (step F B) (launched stored taken) es = some t) :
    TracedKeys F (Origin F B stored taken es) (Published F B stored taken es) t := by
  refine run_along (I := fun es (t : Network C) =>
    TracedKeys F (Origin F B stored taken es) (Published F B stored taken es) t) ?_ ?_ h
  · refine ⟨formatted_launched stored taken, fun _ _ _ horigin => horigin.ne_empty hstored,
      fun _ _ _ hknown => Or.inl hknown, ?_, fun _ _ hq => absurd hq List.not_mem_nil,
      fun c => traced_launch F _⟩
    exact allHeld_launched (fun _ _ _ hlookup => Or.inl (Or.inl (mem_keys_of_lookup hlookup)))
  · intro pre t e u hpre htraced hu
    have hlater : TracedKeys F (Origin F B stored taken (pre ++ [e]))
        (Published F B stored taken (pre ++ [e])) t :=
      htraced.mono (fun _ _ _ horigin => horigin.append [e])
        (fun _ _ hknown => hknown.append [e])
        (fun _ _ _ horigin => horigin.ne_empty hstored) (fun _ _ _ hknown => Or.inl hknown)
    refine step_tracedKeys hB hlater ?_ ?_ hu
    · intro q hq hne
      obtain ⟨c, _, hmem⟩ := committed_mem hq
      exact published_of_committed hpre hu hq ((htraced.waiting c q hmem).resolve_left hne)
    · intro q hq haddition
      exact Or.inr ⟨q, (took_concat_iff _ hpre hu).mpr (Or.inr ⟨rfl, hq⟩), haddition, rfl, rfl⟩

/-- In every run over a database without empty keys, a request of a client goes to a
category of the category screen. Its key is empty, or one the category held at the start,
or that of an addition this client sent, or that of an addition after which a write to the
key was committed. -/
theorem requests_traced (F : Foundation) (B : Firebase) (hB : B.Local) (stored : Database)
    (taken : List String) (hstored : ∀ category, "" ∉ (stored category).keys)
    (es : List (Event C)) (t : Network C)
    (h : run (step F B) (launched stored taken) es = some t) (c : C) (q : Request)
    (hq : q ∈ (t.clients c).app.requests) :
    IsCategory F q.category ∧
      (q.key = "" ∨ Origin F B stored taken es c q.category q.key) :=
  ((run_tracedKeys hB hstored h).clients c).sent q hq

/-- The ring is selected and deleted. -/
def deletesRing : List (Event Unit) :=
  [.tap () ⟨0, 1⟩, .valueEvent () ["-L1"], .client () (.selectRow 0), .client () .deletePressed,
    .client () (.alertDelete 1)]

/-- The request names the ring and its category. -/
theorem deletion_of_ring_traced : ∃ t,
    run (step asciiFoundation namesCategory) (launched oneRing []) deletesRing = some t ∧
    ⟨1, "Rings", "-L1", .removeValue⟩ ∈ (t.clients ()).app.requests ∧
    IsCategory asciiFoundation "Rings" := by
  have hkeys : ∀ category, "" ∉ (oneRing category).keys :=
    fun _ hkey => absurd (eq_of_mem_oneRing hkey) (by decide)
  have hsent : ∃ t,
      run (step asciiFoundation namesCategory) (launched oneRing []) deletesRing = some t ∧
      ⟨1, "Rings", "-L1", .removeValue⟩ ∈ (t.clients ()).app.requests :=
    ⟨_, rfl, List.mem_singleton.mpr rfl⟩
  obtain ⟨t, ht, hq⟩ := hsent
  exact ⟨t, ht, hq, (requests_traced asciiFoundation namesCategory namesCategory_spec.isLocal
    oneRing [] hkeys _ t ht () _ hq).1⟩

end network

end MiraclesAdmin.RequestOrigins
