import MiraclesAdmin.CategoryStore
import MiraclesAdmin.ProductsScreen

/-!
The records of all categories, and the writes the panel sends below them. A write at a key
replaces or removes the record of this key. The panel also writes under the empty key;
what the database makes of that is no part of the repository, so it is a parameter, and
what is relied on is said by name. Writes that wait to be committed are seen in their order
on top of the records.
-/
namespace MiraclesAdmin.CategoryWrites

open ProductRecords ProductForm CategoryStore ProductsScreen

/-- A write below `products/category`. -/
structure DatabaseWrite where
  category : String
  key : String
  write : Write

/-- The records of the categories. -/
abbrev Database := String → Records

/-- What a write under the empty key leaves of the records of its category. `child(_:)` and
the keys of `updateChildValues` are documented as paths, without a word on empty ones. -/
structure Firebase where
  unkeyed : Records → Write → Records

namespace Firebase

def commit (B : Firebase) (db : Records) (key : String) (write : Write) : Records :=
  if key = "" then B.unkeyed db write
  else match write with
    | .updateChildValues value => db.setValue key value
    | .removeValue => db.removeValue key

/-- A write under the empty key puts nothing into the category but children of what it
writes. -/
def Local (B : Firebase) : Prop :=
  ∀ db write key record, (B.unkeyed db write).lookup key = some record →
    db.lookup key = some record ∨
      ∃ value, write = .updateChildValues value ∧ (key, record) ∈ value.asDictionary.getD []

/-- The empty key names the category itself, as a path without components does. -/
structure NamesCategory (B : Firebase) : Prop where
  update : ∀ db value, B.unkeyed db (.updateChildValues value) = Records.ofDictionary value
  remove : ∀ db, B.unkeyed db .removeValue = ∅

variable {B : Firebase} {db : Records} {key : String}

@[simp] theorem commit_unkeyed (B : Firebase) (db : Records) (write : Write) :
    B.commit db "" write = B.unkeyed db write := if_pos rfl

theorem commit_update (B : Firebase) (db : Records) (value : FirebaseValue) (h : key ≠ "") :
    B.commit db key (.updateChildValues value) = db.setValue key value := if_neg h

theorem commit_remove (B : Firebase) (db : Records) (h : key ≠ "") :
    B.commit db key .removeValue = db.removeValue key := if_neg h

theorem NamesCategory.isLocal (hB : B.NamesCategory) : B.Local := by
  intro db write key record hlookup
  cases write with
  | updateChildValues value =>
    rw [hB.update] at hlookup
    exact Or.inr ⟨value, rfl, Records.mem_of_lookup_ofDictionary hlookup⟩
  | removeValue =>
    rw [hB.remove, AList.lookup_empty] at hlookup
    cases hlookup

/-- A write at another key leaves a record alone. -/
theorem lookup_commit_of_ne (B : Firebase) (db : Records) {key' : String} (write : Write)
    (hempty : key' ≠ "") (hne : key ≠ key') :
    (B.commit db key' write).lookup key = db.lookup key := by
  cases write with
  | updateChildValues value =>
    rw [B.commit_update db value hempty]
    exact AList.lookup_insert_ne hne
  | removeValue =>
    rw [B.commit_remove db hempty]
    exact AList.lookup_erase_ne hne

/-- A write loses no other key than the one it deletes, unless it goes to the empty key. -/
theorem commit_loses {lost : String} {write : Write} (h : lost ∈ db.keys)
    (hlost : lost ∉ (B.commit db key write).keys) :
    key = "" ∨ (key = lost ∧ write = .removeValue) := by
  by_cases hempty : key = ""
  · exact Or.inl hempty
  · cases write with
    | updateChildValues value =>
      rw [B.commit_update db value hempty, Records.setValue, ← AList.mem_keys,
        AList.mem_insert] at hlost
      exact absurd (Or.inr (AList.mem_keys.mpr h)) hlost
    | removeValue =>
      rw [B.commit_remove db hempty, Records.removeValue, ← AList.mem_keys,
        AList.mem_erase] at hlost
      by_cases hkey : lost = key
      · exact Or.inr ⟨hkey.symm, rfl⟩
      · exact absurd ⟨hkey, AList.mem_keys.mpr h⟩ hlost

end Firebase

/-- What a committed write does to the records of its category. -/
def Database.store (B : Firebase) (db : Database) (w : DatabaseWrite) : Database :=
  Function.update db w.category (B.commit (db w.category) w.key w.write)

def Database.storeAll (B : Firebase) (db : Database) (ws : List DatabaseWrite) : Database :=
  ws.foldl (Database.store B) db

/-- A write that makes a product record the value of the whole category. -/
def IsUnkeyedSave (w : DatabaseWrite) : Prop :=
  w.key = "" ∧ ∃ value, w.write = .updateChildValues value

instance (w : DatabaseWrite) : Decidable (IsUnkeyedSave w) :=
  match h : w.write with
  | .updateChildValues value =>
    decidable_of_iff (w.key = "") ⟨fun hkey => ⟨hkey, value, h⟩, fun hw => hw.1⟩
  | .removeValue => isFalse (fun hw => by
      obtain ⟨_, value, hvalue⟩ := hw
      exact Write.noConfusion (h.symm.trans hvalue))

theorem mem_keys_of_lookup {db : Records} {key : String} {record : FirebaseValue}
    (h : db.lookup key = some record) : key ∈ db.keys := by
  refine AList.mem_keys.mp ?_
  rw [← AList.lookup_isSome, h]
  rfl

theorem lookup_of_mem_keys {db : Records} {key : String} (h : key ∈ db.keys) :
    ∃ record, db.lookup key = some record :=
  Option.isSome_iff_exists.mp (AList.lookup_isSome.mpr (AList.mem_keys.mpr h))

/-- The records that a write puts into its category: the one it writes at its key, or under
the empty key the children of that. -/
inductive Puts (w : DatabaseWrite) (key : String) (record : FirebaseValue) : Prop
  | keyed (hkey : w.key = key) (hne : key ≠ "") (hwrite : w.write = .updateChildValues record)
  | spread {value : FirebaseValue} (hkey : w.key = "")
      (hwrite : w.write = .updateChildValues value)
      (hmem : (key, record) ∈ value.asDictionary.getD [])

variable {B : Firebase} {db : Database} {w : DatabaseWrite} {category key : String}
  {record : FirebaseValue}

theorem store_self : db.store B w w.category = B.commit (db w.category) w.key w.write :=
  Function.update_self _ _ _

theorem store_of_ne (h : category ≠ w.category) : db.store B w category = db category :=
  Function.update_of_ne h _ _

/-- A record after a write was there before, or the write put it there. -/
theorem lookup_store (hB : B.Local) (h : (db.store B w category).lookup key = some record) :
    (db category).lookup key = some record ∨ (w.category = category ∧ Puts w key record) := by
  by_cases hcategory : category = w.category
  · subst hcategory
    rw [store_self] at h
    by_cases hempty : w.key = ""
    · rw [hempty, Firebase.commit_unkeyed] at h
      rcases hB _ _ _ _ h with hold | ⟨value, hwrite, hmem⟩
      · exact Or.inl hold
      · exact Or.inr ⟨rfl, .spread hempty hwrite hmem⟩
    · by_cases hkey : key = w.key
      · subst hkey
        cases hwrite : w.write with
        | updateChildValues value =>
          rw [hwrite, B.commit_update _ _ hempty, Records.setValue, AList.lookup_insert] at h
          cases h
          exact Or.inr ⟨rfl, .keyed rfl hempty hwrite⟩
        | removeValue =>
          rw [hwrite, B.commit_remove _ hempty, Records.removeValue, AList.lookup_erase] at h
          cases h
      · rw [B.lookup_commit_of_ne _ _ hempty hkey] at h
        exact Or.inl h
  · rw [store_of_ne hcategory] at h
    exact Or.inl h

/-- What all records have, and what the writes put among them, the records after the
writes have. -/
theorem storeAll_forall (hB : B.Local) {P : String → String → FirebaseValue → Prop}
    {ws : List DatabaseWrite}
    (hdb : ∀ category key record, (db category).lookup key = some record → P category key record)
    (hws : ∀ w ∈ ws, ∀ key record, Puts w key record → P w.category key record) :
    ∀ category key record, (db.storeAll B ws category).lookup key = some record →
      P category key record := by
  induction ws generalizing db with
  | nil => exact hdb
  | cons w ws ih =>
    refine ih ?_ (fun w' hw' => hws w' (List.mem_cons_of_mem w hw'))
    intro category key record hlookup
    rcases lookup_store hB hlookup with hold | ⟨rfl, hputs⟩
    · exact hdb category key record hold
    · exact hws w List.mem_cons_self key record hputs

/-- Writes to other categories leave a category alone. -/
theorem storeAll_of_untouched {ws : List DatabaseWrite} (h : ∀ w ∈ ws, w.category ≠ category) :
    db.storeAll B ws category = db category := by
  induction ws generalizing db with
  | nil => rfl
  | cons w ws ih =>
    calc
      _ = db.store B w category := ih (fun w' hw' => h w' (List.mem_cons_of_mem w hw'))
      _ = db category := store_of_ne (Ne.symm (h w List.mem_cons_self))

/-- The children of a record are no records. -/
theorem child_of_child {v : FormValues} {link type key : String} {record : FirebaseValue}
    (h : (key, record) ∈ (productRecord v link type).asDictionary.getD []) (name : String) :
    record.child name = none := by
  simp only [productRecord, FirebaseValue.asDictionary, Option.getD_some, List.mem_cons,
    Prod.mk.injEq, List.not_mem_nil, or_false] at h
  rcases h with ⟨_, rfl⟩ | ⟨_, rfl⟩ | ⟨_, rfl⟩ | ⟨_, rfl⟩ | ⟨_, rfl⟩ | ⟨_, rfl⟩ <;> rfl

/-- The names of a record's fields. -/
def fieldNames : List String :=
  ["name", "displayPicture", "smallDescription", "price", "availability", "type"]

theorem key_mem_fieldNames {v : FormValues} {link type key : String} {record : FirebaseValue}
    (h : (key, record) ∈ (productRecord v link type).asDictionary.getD []) :
    key ∈ fieldNames := by
  have hkeys : ((productRecord v link type).asDictionary.getD []).map Prod.fst = fieldNames :=
    rfl
  rw [← hkeys]
  exact List.mem_map_of_mem h

end MiraclesAdmin.CategoryWrites
