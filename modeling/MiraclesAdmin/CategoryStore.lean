import Mathlib.Data.List.AList
import MiraclesAdmin.ProductRecords

/-!
The records of one category in the database, by key. Writes replace the whole value
at a key. A value event delivers the records as a dictionary, whose iteration order
is not specified, so it is given as a list of the keys.
-/
namespace MiraclesAdmin.CategoryStore

open ProductRecords

/-- The children of `products/category`. -/
abbrev Records := AList (fun _ : String => FirebaseValue)

namespace Records

/-- `child(key).setValue(value)`, and `updateChildValues([key: value])`. -/
def setValue (db : Records) (key : String) (value : FirebaseValue) : Records :=
  db.insert key value

/-- `child(key).removeValue()`. -/
def removeValue (db : Records) (key : String) : Records := db.erase key

/-- The children of a dictionary value, as records of its keys. -/
def ofDictionary (value : FirebaseValue) : Records :=
  ((value.asDictionary.getD []).map (fun e => Sigma.mk e.1 e.2)).toAList

/-- The dictionary of the records, iterated in the given order of its keys. -/
def inOrder (db : Records) (order : List String) : List (String × FirebaseValue) :=
  order.filterMap (fun key => (db.lookup key).map (fun record => (key, record)))

theorem keys_setValue_of_fresh {db : Records} {key : String} (h : key ∉ db.keys)
    (value : FirebaseValue) : (db.setValue key value).keys = key :: db.keys := by
  unfold setValue
  rw [AList.keys_insert, List.erase_of_not_mem h]

theorem mem_of_lookup_ofDictionary {value record : FirebaseValue} {key : String}
    (h : (ofDictionary value).lookup key = some record) :
    (key, record) ∈ value.asDictionary.getD [] := by
  rw [ofDictionary, AList.lookup_to_alist] at h
  obtain ⟨e, he, heq⟩ := List.mem_map.mp (List.of_mem_dlookup h)
  cases heq
  exact he

theorem lookup_of_mem_inOrder {db : Records} {order : List String}
    {e : String × FirebaseValue} (he : e ∈ db.inOrder order) : db.lookup e.1 = some e.2 := by
  obtain ⟨key, _, hkey⟩ := List.mem_filterMap.mp he
  obtain ⟨record, hlookup, rfl⟩ := Option.map_eq_some_iff.mp hkey
  exact hlookup

/-- Every key of the order is iterated, once for each place it has there. -/
theorem keys_inOrder {db : Records} {order : List String} (h : ∀ key ∈ order, key ∈ db.keys) :
    (db.inOrder order).map Prod.fst = order := by
  induction order with
  | nil => rfl
  | cons key order ih =>
    have hkey : (db.lookup key).isSome := AList.lookup_isSome.mpr (h key (by simp))
    obtain ⟨record, hlookup⟩ := Option.isSome_iff_exists.mp hkey
    have hcons : db.inOrder (key :: order) = (key, record) :: db.inOrder order := by
      unfold inOrder
      rw [List.filterMap_cons, hlookup]
      rfl
    rw [hcons, List.map_cons, ih (fun key' hkey' => h key' (by simp [hkey']))]

end Records

end MiraclesAdmin.CategoryStore
