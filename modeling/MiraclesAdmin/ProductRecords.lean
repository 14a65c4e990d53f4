import Mathlib.Data.Int.Notation
import Mathlib.Data.List.Forall2
import MiraclesAdmin.ObjectHeap

/-!
Values as the database returns them, and the decoding of a product record by the
value observer of the list screen. Every unwrap and forced cast of the source can
trap, so decoding is partial. `Describes` is the record format itself, stated
without the decoder; a record in that format is decoded without a trap.
-/
namespace MiraclesAdmin.ProductRecords

open ObjectHeap

inductive FirebaseValue
  | null
  | string (s : String)
  | number (n : ℤ)
  | bool (b : Bool)
  | dictionary (children : List (String × FirebaseValue))

namespace FirebaseValue

/-- `product["name"]!!`: only a dictionary that has the child answers. -/
def child : FirebaseValue → String → Option FirebaseValue
  | .dictionary children, name => children.lookup name
  | _, _ => none

/-- `as! String`. -/
def asString : FirebaseValue → Option String
  | .string s => some s
  | _ => none

/-- `as! Int`. A boolean is bridged as a number, so it casts too. -/
def asInt : FirebaseValue → Option ℤ
  | .number n => some n
  | .bool b => some (if b then 1 else 0)
  | _ => none

/-- `as! Bool`. Of the numbers only 0 and 1 cast. -/
def asBool : FirebaseValue → Option Bool
  | .bool b => some b
  | .number n => if n = 0 then some false else if n = 1 then some true else none
  | _ => none

/-- `snapshot.value as? [String: AnyObject]`. -/
def asDictionary : FirebaseValue → Option (List (String × FirebaseValue))
  | .dictionary children => some children
  | _ => none

/-- What a value event delivers for a location with these children. The database
has no empty nodes: a location without children reads as null. The keys are none that an
array is made of, and the numbers fit a 64-bit `Int`. -/
def ofChildren : List (String × FirebaseValue) → FirebaseValue
  | [] => .null
  | c :: cs => .dictionary (c :: cs)

end FirebaseValue

/-- Instances are shared by reference; this is the contents of one. -/
structure Product where
  displayPicture : String := ""
  name : String := ""
  description : String := ""
  price : ℤ := 0
  key : String := ""
  availability : Bool := true
deriving DecidableEq

/-- `Product()`. -/
def Product.blank : Product := {}

/-- The heap of a process that has made no product yet. -/
def emptyHeap : Heap Product := ⟨0, fun _ => Product.blank⟩

/-- The body of the observer's loop, for one record. -/
def readProduct (key : String) (product : FirebaseValue) : Option Product := do
  let productName ← (← product.child "name").asString
  let productImage ← (← product.child "displayPicture").asString
  let productDescription ← (← product.child "smallDescription").asString
  let productPrice ← (← product.child "price").asInt
  let productAvailability ← (← product.child "availability").asBool
  return {
    displayPicture := productImage
    name := productName
    description := productDescription
    price := productPrice
    key := key
    availability := productAvailability
  }

/-- `for (key, product) in allProducts`: allocate each product and append it. -/
def readProducts (h : Heap Product) (productsArray : List Ref) :
    List (String × FirebaseValue) → Option (Heap Product × List Ref)
  | [] => some (h, productsArray)
  | (key, product) :: rest => do
    let p ← readProduct key product
    readProducts (h.alloc p).1 (productsArray ++ [(h.alloc p).2]) rest

/-- The record holds the values of the product, under the names and types of the
record format. The key is not part of a record. -/
structure Describes (record : FirebaseValue) (p : Product) : Prop where
  name : record.child "name" = some (.string p.name)
  displayPicture : record.child "displayPicture" = some (.string p.displayPicture)
  smallDescription : record.child "smallDescription" = some (.string p.description)
  price : record.child "price" = some (.number p.price)
  availability : record.child "availability" = some (.bool p.availability)

def WellFormed (record : FirebaseValue) : Prop := ∃ p, Describes record p

theorem readProduct_key {key : String} {record : FirebaseValue} {p : Product}
    (h : readProduct key record = some p) : p.key = key := by
  simp only [readProduct, Option.bind_eq_bind, Option.bind_eq_some_iff, Option.pure_def,
    Option.some.injEq] at h
  obtain ⟨_, _, _, _, _, _, _, _, _, _, _, _, _, _, _, _, _, _, _, _, rfl⟩ := h
  rfl

theorem readProduct_displayPicture {key : String} {record : FirebaseValue} {p : Product}
    (h : readProduct key record = some p) :
    record.child "displayPicture" = some (.string p.displayPicture) := by
  simp only [readProduct, Option.bind_eq_bind, Option.bind_eq_some_iff, Option.pure_def,
    Option.some.injEq] at h
  obtain ⟨_, _, _, _, value, hchild, link, hlink, _, _, _, _, _, _, _, _, _, _, _, _, rfl⟩ := h
  rw [hchild]
  cases value with
  | string s =>
    cases hlink
    rfl
  | _ => cases hlink

/-- A record in the format is decoded without a trap, to the values it holds. -/
theorem readProduct_of_describes {record : FirebaseValue} {p : Product} (key : String)
    (h : Describes record p) : readProduct key record = some { p with key := key } := by
  simp only [readProduct, h.name, h.displayPicture, h.smallDescription, h.price, h.availability,
    FirebaseValue.asString, FirebaseValue.asInt, FirebaseValue.asBool, Option.bind_eq_bind,
    Option.bind_some, Option.pure_def]

/-- A record in the format reads as the one product it describes under its key. -/
theorem WellFormed.readProduct_eq_some_iff {record : FirebaseValue} (h : WellFormed record)
    {key : String} {p : Product} :
    readProduct key record = some p ↔ p.key = key ∧ Describes record p := by
  constructor
  · intro hread
    obtain ⟨q, hq⟩ := h
    have hqp : some { q with key := key } = some p :=
      (readProduct_of_describes key hq).symm.trans hread
    cases hqp
    exact ⟨rfl, hq.name, hq.displayPicture, hq.smallDescription, hq.price, hq.availability⟩
  · intro hdescribes
    obtain ⟨rfl, hp⟩ := hdescribes
    exact readProduct_of_describes p.key hp

theorem WellFormed.readProduct_isSome {record : FirebaseValue} (h : WellFormed record)
    (key : String) : ∃ p, readProduct key record = some p := by
  obtain ⟨p, hp⟩ := h
  exact ⟨_, readProduct_of_describes key hp⟩

/-- What a completed observer loop has done: it allocated one new product for each
record, in the order of the records, and wrote to no older object. -/
theorem readProducts_spec {h k : Heap Product} {productsArray result : List Ref}
    {records : List (String × FirebaseValue)}
    (hread : readProducts h productsArray records = some (k, result)) :
    ∃ refs, result = productsArray ++ refs ∧ h.Extends k ∧
      (∀ r ∈ refs, ¬ h.Live r ∧ k.Live r) ∧
      List.Forall₂ (fun e p => readProduct e.1 e.2 = some p) records (k.values refs) := by
  induction records generalizing h productsArray with
  | nil =>
    cases hread
    exact ⟨[], by simp, Heap.Extends.refl k, by simp, by simp⟩
  | cons record rest ih =>
    obtain ⟨key, product⟩ := record
    obtain ⟨p, hp, hrest⟩ := Option.bind_eq_some_iff.mp hread
    obtain ⟨refs, hresult, hext, hfresh, hvalues⟩ := ih hrest
    have hstart : h.Extends k := (Heap.extends_alloc h p).trans hext
    have hcell : k.cell h.next = p :=
      (hext.2 h.next (Heap.alloc_live_new h p)).trans (Heap.alloc_cell_new h p)
    have hrefs : result = productsArray ++ h.next :: refs := by
      rw [hresult, Heap.alloc_ref, List.append_assoc, List.singleton_append]
    refine ⟨h.next :: refs, hrefs, hstart, ?_, ?_⟩
    · intro r hr
      rcases List.mem_cons.mp hr with rfl | hr
      · exact ⟨Nat.lt_irrefl _, hext.live (Heap.alloc_live_new h p)⟩
      · obtain ⟨hnew, hlive⟩ := hfresh r hr
        exact ⟨fun hold => hnew ((Heap.extends_alloc h p).live hold), hlive⟩
    · refine List.Forall₂.cons ?_ hvalues
      rw [hcell]
      exact hp

private theorem exists_left_of_mem {A B : Type*} {R : A → B → Prop} {as : List A} {bs : List B}
    (h : List.Forall₂ R as bs) {b : B} (hb : b ∈ bs) : ∃ a ∈ as, R a b := by
  induction h with
  | nil => simp at hb
  | cons hab _ ih =>
    rcases List.mem_cons.mp hb with rfl | hb
    · exact ⟨_, by simp, hab⟩
    · obtain ⟨a, ha, hR⟩ := ih hb
      exact ⟨a, by simp [ha], hR⟩

/-- Each object the loop lists was read from one of the records. -/
theorem readProducts_origin {h k : Heap Product} {refs : List Ref}
    {records : List (String × FirebaseValue)} (hread : readProducts h [] records = some (k, refs))
    {r : Ref} (hr : r ∈ refs) :
    k.Live r ∧ ∃ e ∈ records, readProduct e.1 e.2 = some (k.cell r) := by
  obtain ⟨new, hrefs, _, hfresh, hvalues⟩ := readProducts_spec hread
  rw [List.nil_append] at hrefs
  subst hrefs
  exact ⟨(hfresh r hr).2, exists_left_of_mem hvalues (List.mem_map_of_mem hr)⟩

/-- The loop completes when every record can be decoded. -/
theorem readProducts_isSome {records : List (String × FirebaseValue)}
    (hrecords : ∀ e ∈ records, (readProduct e.1 e.2).isSome) (h : Heap Product)
    (productsArray : List Ref) : (readProducts h productsArray records).isSome := by
  induction records generalizing h productsArray with
  | nil => rfl
  | cons record rest ih =>
    obtain ⟨key, product⟩ := record
    obtain ⟨p, hp⟩ := Option.isSome_iff_exists.mp (hrecords (key, product) (by simp))
    have hrest := ih (fun e he => hrecords e (by simp [he])) (h.alloc p).1
      (productsArray ++ [(h.alloc p).2])
    simpa only [readProducts, hp, Option.bind_eq_bind, Option.bind_some] using hrest

/-- A stored record with the given values and no further children. -/
def plainRecord (p : Product) : FirebaseValue :=
  .dictionary [("name", .string p.name), ("displayPicture", .string p.displayPicture),
    ("smallDescription", .string p.description), ("price", .number p.price),
    ("availability", .bool p.availability)]

theorem describes_plainRecord (p : Product) : Describes (plainRecord p) p :=
  ⟨rfl, rfl, rfl, rfl, rfl⟩

/-- The value event of a category with plain records of the given products. -/
def plainSnapshot (ps : List Product) : FirebaseValue :=
  .ofChildren (ps.map (fun p => (p.key, plainRecord p)))

/-- The records of a category, in the order in which the dictionary is iterated. -/
structure CategorySnapshot where
  records : List (String × FirebaseValue)
  distinctKeys : (records.map Prod.fst).Nodup
  wellFormed : ∀ e ∈ records, WellFormed e.2

namespace CategorySnapshot

def value (snap : CategorySnapshot) : FirebaseValue := .ofChildren snap.records

/-- The products the records stand for. -/
def products (snap : CategorySnapshot) : List Product :=
  snap.records.filterMap (fun e => readProduct e.1 e.2)

theorem isSome_of_mem (snap : CategorySnapshot) {e : String × FirebaseValue}
    (he : e ∈ snap.records) : (readProduct e.1 e.2).isSome :=
  Option.isSome_iff_exists.mpr ((snap.wellFormed e he).readProduct_isSome e.1)

theorem filterMap_of_forall₂ {A B : Type*} {f : A → Option B} {as : List A} {bs : List B}
    (h : List.Forall₂ (fun a b => f a = some b) as bs) : as.filterMap f = bs := by
  induction h with
  | nil => rfl
  | cons hab _ ih => rw [List.filterMap_cons_some hab, ih]

private theorem forall₂_filterMap {A B : Type*} {f : A → Option B} {R : A → B → Prop} {as : List A}
    (h : ∀ a ∈ as, ∃ b, f a = some b ∧ R a b) : List.Forall₂ R as (as.filterMap f) := by
  induction as with
  | nil => exact List.Forall₂.nil
  | cons a as ih =>
    obtain ⟨b, hb, hab⟩ := h a (by simp)
    rw [List.filterMap_cons_some hb]
    exact List.Forall₂.cons hab (ih (fun a' ha' => h a' (by simp [ha'])))

/-- The snapshot of plain records of the given products. -/
def ofProducts (ps : List Product) (hkeys : (ps.map Product.key).Nodup) : CategorySnapshot where
  records := ps.map (fun p => (p.key, plainRecord p))
  distinctKeys := by simpa only [List.map_map, Function.comp_def] using hkeys
  wellFormed := by
    intro e he
    obtain ⟨p, _, rfl⟩ := List.mem_map.mp he
    exact ⟨p, describes_plainRecord p⟩

/-- One product for each record, with the key and the values of the record. -/
theorem products_describe (snap : CategorySnapshot) :
    List.Forall₂ (fun e p => p.key = e.1 ∧ Describes e.2 p) snap.records snap.products := by
  apply forall₂_filterMap
  intro e he
  obtain ⟨p, hp⟩ := (snap.wellFormed e he).readProduct_isSome e.1
  exact ⟨p, hp, (snap.wellFormed e he).readProduct_eq_some_iff.mp hp⟩

theorem products_keys (snap : CategorySnapshot) :
    snap.products.map Product.key = snap.records.map Prod.fst := by
  have hkeys : ∀ {es : List (String × FirebaseValue)} {ps : List Product},
      List.Forall₂ (fun e p => p.key = e.1 ∧ Describes e.2 p) es ps →
      ps.map Product.key = es.map Prod.fst := by
    intro es ps h
    induction h with
    | nil => rfl
    | cons hep _ ih => rw [List.map_cons, List.map_cons, hep.1, ih]
  exact hkeys snap.products_describe

theorem products_eq_nil (snap : CategorySnapshot) : snap.products = [] ↔ snap.records = [] := by
  have hlength := snap.products_describe.length_eq
  constructor
  · intro h
    rw [h, List.length_nil] at hlength
    exact List.length_eq_zero_iff.mp hlength
  · intro h
    rw [h, List.length_nil] at hlength
    exact List.length_eq_zero_iff.mp hlength.symm

/-- The observer's loop over a snapshot completes and allocates its products. -/
theorem readProducts_snapshot (snap : CategorySnapshot) (h : Heap Product) :
    ∃ k refs, readProducts h [] snap.records = some (k, refs) ∧ h.Extends k ∧
      (∀ r ∈ refs, k.Live r) ∧ k.values refs = snap.products := by
  obtain ⟨⟨k, refs⟩, hread⟩ := Option.isSome_iff_exists.mp
    (readProducts_isSome (fun e he => snap.isSome_of_mem he) h [])
  obtain ⟨new, hrefs, hext, hlive, hvalues⟩ := readProducts_spec hread
  rw [List.nil_append] at hrefs
  subst hrefs
  exact ⟨k, refs, hread, hext, fun r hr => (hlive r hr).2, (filterMap_of_forall₂ hvalues).symm⟩

end CategorySnapshot

end MiraclesAdmin.ProductRecords
