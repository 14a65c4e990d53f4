import MiraclesAdmin.KeyedWrites
import MiraclesAdmin.AddPopup
import MiraclesAdmin.DetailView
import MiraclesAdmin.ProductList

/-!
The two forms as writers and the list screen as the reader of one record format. The
database is seen as a catalogue, which holds a product for each key; the writes of
the forms refine updates of the catalogue, and the observer of a well-formed store
lists the catalogue. So every listed product is the one last written at its key.
-/
namespace MiraclesAdmin.RecordFormat

open SwiftText Transition ObjectHeap KeyedWrites ProductRecords ProductForm CategoryStore
open DetailView
open AddPopup hiding step
open ProductList hiding step

/-- A category whose children all are in the record format. -/
structure WellFormedStore where
  records : Records
  wellFormed : ∀ key record, records.lookup key = some record → WellFormed record

/-- A write of the forms: a save of the add popup under its auto id, a save of the
edit form, or a delete, the last two at the key of the selected product. -/
inductive Operation
  | add (view : AddProductView) (autoId : String)
  | edit (view : ProductDetailView) (selectedProduct : Product)
  | delete (selectedProduct : Product)

/-- The writes that succeed: a save passes its guards and its price is a number, an
auto id is fresh, and the edited or deleted record exists. -/
def step (currentCategory : String) (db : Records) : Operation → Option Records
  | .add view autoId =>
    guarded (autoId ≠ "" ∧ autoId ∉ db.keys)
      ((view.savePressed currentCategory).bind (fun (_, value) =>
        value.map (db.setValue autoId)))
  | .edit view selectedProduct =>
    guarded (selectedProduct.key ∈ db.keys)
      ((view.savePressed currentCategory selectedProduct).bind (fun (_, value) =>
        value.map (db.setValue selectedProduct.key)))
  | .delete selectedProduct =>
    guarded (selectedProduct.key ∈ db.keys) (some (db.removeValue selectedProduct.key))

namespace Operation

def key : Operation → String
  | add _ autoId => autoId
  | edit _ selectedProduct => selectedProduct.key
  | delete selectedProduct => selectedProduct.key

/-- The product an operation leaves at its key. -/
def written : Operation → Option Product
  | add view autoId => view.formValues.map
      (setValues { key := autoId, displayPicture := AddProductView.placeholder })
  | edit view selectedProduct => view.formValues.map (setValues selectedProduct)
  | delete _ => none

end Operation

/-- What the records stand for. -/
abbrev Catalogue := String → Option Product

/-- An operation writes the catalogue at its key. -/
def Catalogue.apply (c : Catalogue) (o : Operation) : Catalogue :=
  write Operation.key Operation.written c o

def Catalogue.applyAll (c : Catalogue) (ops : List Operation) : Catalogue :=
  writeAll Operation.key Operation.written c ops

/-- The store holds, at each key, a record of the catalogue's product. -/
def Represents (db : Records) (c : Catalogue) : Prop :=
  ∀ key, Option.Rel (fun record p => p.key = key ∧ Describes record p) (db.lookup key) (c key)

/-- The catalogue of a well-formed store. -/
def WellFormedStore.catalogue (stored : WellFormedStore) : Catalogue :=
  fun key => (stored.records.lookup key).bind (readProduct key)

/-- The product is what the last operation at its key wrote, or was stored there if
no operation touched the key. -/
def LastWritten (stored : WellFormedStore) (ops : List Operation) (p : Product) : Prop :=
  (∃ pre o post, ops = pre ++ o :: post ∧ o.key = p.key ∧ o.written = some p ∧
    ∀ o' ∈ post, o'.key ≠ p.key) ∨
  ((∀ o ∈ ops, o.key ≠ p.key) ∧
    ∃ record, stored.records.lookup p.key = some record ∧ Describes record p)

/-- A write stores a record of the product it leaves, or removes the record. -/
theorem step_writes {currentCategory : String} {db db' : Records} {o : Operation}
    (h : step currentCategory db o = some db') :
    (∃ record p, db' = db.setValue o.key record ∧ o.written = some p ∧ p.key = o.key ∧
      Describes record p) ∨
    (db' = db.removeValue o.key ∧ o.written = none) := by
  cases o with
  | add view autoId =>
    obtain ⟨_, h⟩ := guarded_eq_some.mp h
    obtain ⟨⟨w, value⟩, hsave, h⟩ := Option.bind_eq_some_iff.mp h
    obtain ⟨record, rfl, rfl⟩ := Option.map_eq_some_iff.mp h
    obtain ⟨_, v, hv, rfl⟩ := AddProductView.savePressed_sent hsave
    refine Or.inl ⟨_, _, rfl, congrArg (Option.map _) hv, rfl, ?_⟩
    exact describes_productRecord { key := autoId, displayPicture := _ } v currentCategory
  | edit view selectedProduct =>
    obtain ⟨_, h⟩ := guarded_eq_some.mp h
    obtain ⟨⟨w, value⟩, hsave, h⟩ := Option.bind_eq_some_iff.mp h
    obtain ⟨record, rfl, rfl⟩ := Option.map_eq_some_iff.mp h
    obtain ⟨_, v, hv, rfl⟩ := ProductDetailView.savePressed_sent hsave
    refine Or.inl ⟨_, _, rfl, congrArg (Option.map _) hv, rfl, ?_⟩
    exact describes_productRecord selectedProduct v currentCategory
  | delete selectedProduct =>
    obtain ⟨_, h⟩ := guarded_eq_some.mp h
    cases h
    exact Or.inr ⟨rfl, rfl⟩

/-- The catalogue of a store is represented by its records. -/
theorem WellFormedStore.represents (stored : WellFormedStore) :
    Represents stored.records stored.catalogue := by
  intro key
  unfold catalogue
  cases hlookup : stored.records.lookup key with
  | none => exact Option.Rel.none
  | some record =>
    have hrecord : WellFormed record := stored.wellFormed key record hlookup
    obtain ⟨p, hp⟩ := hrecord.readProduct_isSome key
    rw [Option.bind_some, hp]
    exact Option.Rel.some (hrecord.readProduct_eq_some_iff.mp hp)

/-- A write of the forms refines the update of the catalogue. -/
theorem step_represents {currentCategory : String} {db db' : Records} {c : Catalogue}
    {o : Operation} (hc : Represents db c) (h : step currentCategory db o = some db') :
    Represents db' (c.apply o) := by
  intro key
  unfold Catalogue.apply
  by_cases hkey : key = o.key
  · subst hkey
    rw [write_self]
    rcases step_writes h with ⟨record, p, rfl, hwritten, hp⟩ | ⟨rfl, hwritten⟩
    · rw [hwritten, Records.setValue, AList.lookup_insert]
      exact Option.Rel.some hp
    · rw [hwritten, Records.removeValue, AList.lookup_erase]
      exact Option.Rel.none
  · rw [write_of_ne (Ne.symm hkey)]
    rcases step_writes h with ⟨record, p, rfl, _⟩ | ⟨rfl, _⟩
    · rw [Records.setValue, AList.lookup_insert_ne hkey]
      exact hc key
    · rw [Records.removeValue, AList.lookup_erase_ne hkey]
      exact hc key

theorem run_represents {currentCategory : String} (stored : WellFormedStore)
    {ops : List Operation} {db : Records}
    (h : run (step currentCategory) stored.records ops = some db) :
    Represents db (stored.catalogue.applyAll ops) :=
  run_refines (step currentCategory) (R := Represents)
    (fun _ _ _ _ => step_represents) stored.represents h

/-- The catalogue holds, at each key, what was last written there. -/
theorem catalogue_lastWritten_iff {stored : WellFormedStore} {ops : List Operation}
    {p : Product} : stored.catalogue.applyAll ops p.key = some p ↔ LastWritten stored ops p := by
  unfold Catalogue.applyAll
  constructor
  · intro h
    rcases exists_last Operation.key p.key ops with huntouched | ⟨pre, o, post, rfl, hkey, hpost⟩
    · rw [writeAll_of_untouched huntouched] at h
      obtain ⟨record, hlookup, hread⟩ := Option.bind_eq_some_iff.mp h
      have hrecord : WellFormed record := stored.wellFormed p.key record hlookup
      have hdescribes : Describes record p := (hrecord.readProduct_eq_some_iff.mp hread).2
      exact Or.inr ⟨huntouched, record, hlookup, hdescribes⟩
    · rw [← hkey] at hpost
      rw [← hkey, writeAll_last hpost] at h
      exact Or.inl ⟨pre, o, post, rfl, hkey, h, hkey ▸ hpost⟩
  · intro h
    rcases h with ⟨pre, o, post, rfl, hkey, hwritten, hpost⟩ | ⟨huntouched, record, hlookup, hp⟩
    · rw [← hkey] at hpost ⊢
      rw [writeAll_last hpost]
      exact hwritten
    · rw [writeAll_of_untouched huntouched]
      unfold WellFormedStore.catalogue
      rw [hlookup, Option.bind_some]
      exact (WellFormed.readProduct_eq_some_iff ⟨p, hp⟩).mpr ⟨rfl, hp⟩

/-- A store that represents a catalogue is delivered as a snapshot of it. -/
theorem Represents.snapshot {db : Records} {c : Catalogue} (hc : Represents db c)
    {order : List String} (horder : order.Perm db.keys) :
    ∃ snap : CategorySnapshot, snap.records = db.inOrder order ∧
      ∀ p, p ∈ snap.products ↔ c p.key = some p := by
  have hkeys : (db.inOrder order).map Prod.fst = order :=
    Records.keys_inOrder (fun key hkey => horder.mem_iff.mp hkey)
  have hrelated : ∀ e ∈ db.inOrder order, ∃ p, c e.1 = some p ∧ p.key = e.1 ∧ Describes e.2 p := by
    intro e he
    have hrel := hc e.1
    rw [Records.lookup_of_mem_inOrder he] at hrel
    cases hp : c e.1 with
    | none => simp [hp] at hrel
    | some p =>
      rw [hp, Option.rel_some_some] at hrel
      exact ⟨p, rfl, hrel⟩
  let snap : CategorySnapshot :=
    { records := db.inOrder order
      distinctKeys := by
        rw [hkeys]
        exact horder.nodup_iff.mpr db.keys_nodup
      wellFormed := fun e he => (hrelated e he).imp (fun _ hp => hp.2.2) }
  refine ⟨snap, rfl, fun p => ⟨fun hp => ?_, fun hp => ?_⟩⟩
  · obtain ⟨e, he, hread⟩ := List.mem_filterMap.mp hp
    obtain ⟨q, hq, hkey, hdescribes⟩ := hrelated e he
    have hqp := (WellFormed.readProduct_eq_some_iff ⟨q, hdescribes⟩).mpr ⟨hkey, hdescribes⟩
    cases hqp.symm.trans hread
    rw [hkey]
    exact hq
  · have hrel := hc p.key
    rw [hp] at hrel
    cases hlookup : db.lookup p.key with
    | none => simp [hlookup] at hrel
    | some record =>
      rw [hlookup, Option.rel_some_some] at hrel
      have hkey : p.key ∈ order :=
        horder.mem_iff.mpr (AList.mem_keys.mp (AList.lookup_isSome.mp (by rw [hlookup]; rfl)))
      refine List.mem_filterMap.mpr ⟨(p.key, record), ?_, ?_⟩
      · refine List.mem_filterMap.mpr ⟨p.key, hkey, ?_⟩
        rw [hlookup]
        rfl
      · exact (WellFormed.readProduct_eq_some_iff ⟨p, hrel.2⟩).mpr ⟨rfl, hrel.2⟩

/-- After any successful writes of the forms, the observer of a store that is not
empty does not trap, and lists for each key one product: those last written, all of them
and no others. -/
theorem observer_lists_last_written {currentCategory : String} {stored : WellFormedStore}
    {ops : List Operation} {db : Records} {order : List String}
    (hrun : run (step currentCategory) stored.records ops = some db) (hne : db.keys ≠ [])
    (horder : order.Perm db.keys) (s : ListScreen) :
    ∃ t, s.valueObserved (.ofChildren (db.inOrder order)) = some t ∧
      ((t.heap.values t.table.productsArray).map Product.key).Perm db.keys ∧
      ∀ p, p ∈ t.heap.values t.table.productsArray ↔ LastWritten stored ops p := by
  have hkeys : (db.inOrder order).map Prod.fst = order :=
    Records.keys_inOrder (fun key hkey => horder.mem_iff.mp hkey)
  have hrecords : db.inOrder order ≠ [] := by
    intro hnil
    rw [hnil, List.map_nil] at hkeys
    rw [← hkeys] at horder
    exact hne horder.nil_eq.symm
  obtain ⟨snap, hsnap, hproducts⟩ := (run_represents stored hrun).snapshot horder
  rw [← hsnap] at hrecords hkeys ⊢
  obtain ⟨heap, refs, hobs, _, _, hvalues⟩ := s.valueObserved_snapshot snap hrecords
  refine ⟨_, hobs, ?_, ?_⟩
  · change ((heap.values refs).map Product.key).Perm db.keys
    rw [hvalues, snap.products_keys, hkeys]
    exact horder
  · change ∀ p, p ∈ heap.values refs ↔ _
    rw [hvalues]
    exact fun p => (hproducts p).trans catalogue_lastWritten_iff

/-- Two rings in the store. -/
def storedRings : WellFormedStore where
  records := (AList.insert "-L1" (plainRecord { name := "Silver Ring", price := 40 }) ∅).insert
    "-L2" (plainRecord { name := "Gold Ring", price := 90 })
  wellFormed := by
    intro key record h
    by_cases hgold : key = "-L2"
    · subst hgold
      rw [AList.lookup_insert] at h
      cases h
      exact ⟨_, describes_plainRecord _⟩
    · rw [AList.lookup_insert_ne hgold] at h
      by_cases hsilver : key = "-L1"
      · subst hsilver
        rw [AList.lookup_insert] at h
        cases h
        exact ⟨_, describes_plainRecord _⟩
      · rw [AList.lookup_insert_ne hsilver, AList.lookup_empty] at h
        cases h

/-- The silver ring is edited, and an opal ring added. -/
def ringWrites : List Operation :=
  [.edit
      { productNameField := { text := "Silver Ring" }, productPriceField := { text := "45" } }
      { key := "-L1", name := "Silver Ring", price := 40 },
    .add
      { productNameField := { text := "Opal Ring" }, productPriceField := { text := "55" },
        productDescriptionField := { text := "blue" } } "-L3"]

def writtenRings : Records :=
  (storedRings.records.setValue "-L1"
    (productRecord ⟨"Silver Ring", "Description", 45, true⟩ "" "Rings")).setValue "-L3"
    (productRecord ⟨"Opal Ring", "blue", 55, true⟩ AddProductView.placeholder "Rings")

theorem observer_lists_written_rings :
    ∃ t, (ListScreen.viewDidLoad emptyHeap).valueObserved
        (.ofChildren (writtenRings.inOrder ["-L1", "-L2", "-L3"])) = some t ∧
      ((t.heap.values t.table.productsArray).map Product.key).Perm writtenRings.keys ∧
      ∀ p, p ∈ t.heap.values t.table.productsArray ↔ LastWritten storedRings ringWrites p :=
  observer_lists_last_written (show run (step "Rings") storedRings.records ringWrites =
    some writtenRings from rfl) (by decide) (by decide) (ListScreen.viewDidLoad emptyHeap)

end MiraclesAdmin.RecordFormat
