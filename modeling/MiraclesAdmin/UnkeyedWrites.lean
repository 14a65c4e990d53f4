import MiraclesAdmin.RequestOrigins

/-!
How long a save under the empty key is felt, if this key names the category itself. It
makes the fields of a record the children of the category. No client can name one of
those, since none can decode them, so nothing but another write under the empty key
removes them; and the only such write that makes the category readable again is a
deletion, which leaves it empty.
-/
namespace MiraclesAdmin.UnkeyedWrites

open SwiftText Transition ProductRecords ProductForm CategoryStore CategoryWrites
open ProductsScreen hiding Event step launch
open AdminNetwork NetworkSteps StoredRecords RequestOrigins

/-- The write under the empty key of a category. -/
def IsUnkeyed (category : String) (w : DatabaseWrite) : Prop := w.category = category ∧ w.key = ""

instance (category : String) (w : DatabaseWrite) : Decidable (IsUnkeyed category w) :=
  inferInstanceAs (Decidable (_ ∧ _))

/-- The last write under the empty key of the category. -/
def lastUnkeyed (category : String) (ws : List DatabaseWrite) : Option DatabaseWrite :=
  (ws.filter (fun w => IsUnkeyed category w)).getLast?

/-- The fields whose names are no keys of the category at the start. -/
def ForeignField (stored : Database) (category name : String) : Prop :=
  name ∈ fieldNames ∧ name ∉ (stored category).keys

/-- The category holds a field of a record at each foreign field's name. -/
def Overwritten (stored : Database) (db : Records) (category : String) : Prop :=
  ∀ name, ForeignField stored category name →
    ∃ record, db.lookup name = some record ∧ ∀ child, record.child child = none

variable {C : Type*} [DecidableEq C] {F : Foundation} {B : Firebase} {s t : Network C}
  {e : Event C} {stored : Database} {taken : List String} {es : List (Event C)}

/-- What a category is after these commits: readable, or a record's fields. -/
structure Settled (stored : Database) (commits : List DatabaseWrite) (db : Records)
    (category : String) : Prop where
  readable : (∀ w ∈ lastUnkeyed category commits, ¬ IsUnkeyedSave w) → Readable db
  overwritten : (∃ w ∈ lastUnkeyed category commits, IsUnkeyedSave w) →
    Overwritten stored db category

/-- A write under another key than a foreign field's leaves the fields alone. -/
theorem Overwritten.commit {db : Records} {category key : String} (write : Write)
    (h : Overwritten stored db category) (hkey : ¬ ForeignField stored category key)
    (hne : key ≠ "") : Overwritten stored (B.commit db key write) category := by
  intro name hname
  obtain ⟨record, hlookup, hchild⟩ := h name hname
  have hother : name ≠ key := fun heq => hkey (heq ▸ hname)
  exact ⟨record, (B.lookup_commit_of_ne db write hne hother).trans hlookup, hchild⟩

end MiraclesAdmin.UnkeyedWrites
