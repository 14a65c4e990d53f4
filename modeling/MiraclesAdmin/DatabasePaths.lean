import MiraclesAdmin.PathStore
import MiraclesAdmin.RequestOrigins

/-!
The database as the tree it is. A reference is a path from the root; `child` appends the
components of a slash-separated string. The observer of the list screen and the three
writers build their references differently, but reach the same location for every
category. A write at a key is a write of one record there, and no other category is
touched, so the tree holds what the records of the network say.
-/
namespace MiraclesAdmin.DatabasePaths

open SwiftText Transition ProductRecords ProductForm CategoryStore CategoryWrites PathStore
open CategoryScreen hiding fillCell
open ProductsScreen hiding Event step launch
open AdminNetwork NetworkSteps StoredRecords RequestOrigins

def components (pathString : String) : List String :=
  (pathString.toList.splitOn '/').map String.ofList

/-- `child(pathString)` of the reference at a location. -/
def child (reference : List String) (pathString : String) : List String :=
  reference ++ components pathString

/-- The observer's reference: `child("products/\(currentCategory)")`. -/
def observedReference (currentCategory : String) : List String :=
  child [] ("products/" ++ currentCategory)

/-- The writers' reference: `child("products").child(currentCategory)`. -/
def categoryReference (currentCategory : String) : List String :=
  child (child [] "products") currentCategory

theorem components_slash (text text' : String) :
    components (text ++ "/" ++ text') = components text ++ components text' := by
  have hlist : (text ++ "/" ++ text').toList = text.toList ++ '/' :: text'.toList := by
    simp [String.toList_append]
  rw [components, hlist, List.splitOn_append_cons_self, List.map_append]
  rfl

/-- A text without slashes is one component. -/
theorem components_simple {text : String} (hslash : '/' ∉ text.toList) :
    components text = [text] := by
  rw [components, List.splitOn_eq_singleton hslash]
  simp [String.ofList_toList]

/-- The observer listens where the writers write, whatever the category is called. -/
theorem observedReference_eq (currentCategory : String) :
    observedReference currentCategory = categoryReference currentCategory := by
  have hproducts : "products/" ++ currentCategory = "products" ++ "/" ++ currentCategory := rfl
  rw [observedReference, categoryReference, child, child, child, hproducts, components_slash,
    List.append_assoc]

/-- The leaf of a value at a path below it. -/
def leafAt (value : FirebaseValue) : Store String FirebaseValue
  | [] => match value with
    | .dictionary _ => none
    | .null => none
    | leaf => some leaf
  | name :: path => (value.child name).bind (fun child => leafAt child path)

/-- The whole database. -/
abbrev Tree := Store String FirebaseValue

def commitAt (tree : Tree) (location : List String) : Write → Tree
  | .updateChildValues value => put tree location (leafAt value)
  | .removeValue => remove tree location

/-- A write of the panel, at the reference it is made at. -/
def apply (tree : Tree) (w : DatabaseWrite) : Tree :=
  commitAt tree (child (categoryReference w.category) w.key) w.write

/-- The records of a category as a tree. -/
def recordsAt (db : Records) : Tree
  | [] => none
  | key :: path => (db.lookup key).bind (fun record => leafAt record path)

theorem recordsAt_setValue (db : Records) (key : String) (value : FirebaseValue) :
    recordsAt (db.setValue key value) = put (recordsAt db) [key] (leafAt value) := by
  funext path
  cases path with
  | nil => simp [recordsAt, put]
  | cons name path =>
    by_cases hname : name = key
    · subst hname
      simp [recordsAt, put, Records.setValue, AList.lookup_insert]
    · have hne : key ≠ name := Ne.symm hname
      simp [recordsAt, put, Records.setValue, AList.lookup_insert_ne hname, List.cons_prefix_cons,
        hname, hne]

theorem recordsAt_removeValue (db : Records) (key : String) :
    recordsAt (db.removeValue key) = remove (recordsAt db) [key] := by
  funext path
  cases path with
  | nil => simp [recordsAt, remove]
  | cons name path =>
    by_cases hname : name = key
    · subst hname
      simp [recordsAt, remove, Records.removeValue, AList.lookup_erase]
    · have hne : key ≠ name := Ne.symm hname
      simp [recordsAt, remove, Records.removeValue, AList.lookup_erase_ne hname,
        List.cons_prefix_cons, hne]

/-- In the tree below the category, a write at a key is the write of the record. -/
theorem commitAt_recordsAt (B : Firebase) (db : Records) {key : String} (write : Write)
    (hne : key ≠ "") : commitAt (recordsAt db) [key] write = recordsAt (B.commit db key write) := by
  cases write with
  | updateChildValues value =>
    rw [B.commit_update db value hne, recordsAt_setValue]
    rfl
  | removeValue =>
    rw [B.commit_remove db hne, recordsAt_removeValue]
    rfl

theorem read_commitAt_below (tree : Tree) (location path : List String) (write : Write) :
    read (commitAt tree (location ++ path) write) location =
      commitAt (read tree location) path write := by
  cases write with
  | updateChildValues value => exact read_put_below tree location path (leafAt value)
  | removeValue => exact read_remove_below tree location path

theorem read_commitAt_apart {location other : List String} (h : Apart location other) (tree : Tree)
    (write : Write) : read (commitAt tree other write) location = read tree location := by
  cases write with
  | updateChildValues value => exact read_put_apart h tree (leafAt value)
  | removeValue => exact read_remove_apart h tree

/-- A record without leaves cannot be seen in a tree. -/
def HasLeaf (record : FirebaseValue) : Prop := ∃ path leaf, leafAt record path = some leaf

theorem hasLeaf_productRecord (v : FormValues) (link category : String) :
    HasLeaf (productRecord v link category) := ⟨["name"], _, rfl⟩

/-- The names of the categories are single components when capitalized. -/
def SimpleCategories (F : Foundation) : Prop :=
  ∀ name ∈ names, F.capitalized name ≠ "" ∧ '/' ∉ (F.capitalized name).toList

theorem components_category {F : Foundation} (hF : SimpleCategories F) {category : String}
    (h : IsCategory F category) : components category = [category] := by
  obtain ⟨name, hname, rfl⟩ := h
  exact components_simple (hF name hname).2

/-- The tree holds the records of each category at its reference: the same leaves, and no
key without a leaf below it. -/
structure Represents (F : Foundation) (tree : Tree) (db : Database) : Prop where
  leaves : ∀ category, IsCategory F category →
    read tree (observedReference category) = recordsAt (db category)
  keys : ∀ category, IsCategory F category → ∀ key, key ∈ (db category).keys ↔
    ∃ path leaf, read tree (observedReference category) (key :: path) = some leaf

theorem represents_of_leaves {F : Foundation} {tree : Tree} {db : Database}
    (hleaves : ∀ category, IsCategory F category →
      read tree (observedReference category) = recordsAt (db category))
    (hrecords : ∀ category, IsCategory F category → ∀ key record,
      (db category).lookup key = some record → HasLeaf record) : Represents F tree db := by
  refine ⟨hleaves, ?_⟩
  intro category hcategory key
  rw [hleaves category hcategory]
  constructor
  · intro hkey
    obtain ⟨record, hlookup⟩ := lookup_of_mem_keys hkey
    obtain ⟨path, leaf, hleaf⟩ := hrecords category hcategory key record hlookup
    refine ⟨path, leaf, ?_⟩
    rw [recordsAt, hlookup, Option.bind_some]
    exact hleaf
  · intro hseen
    obtain ⟨path, leaf, hleaf⟩ := hseen
    obtain ⟨record, hlookup, _⟩ := Option.bind_eq_some_iff.mp hleaf
    exact mem_keys_of_lookup hlookup

theorem Represents.hasLeaf {F : Foundation} {tree : Tree} {db : Database}
    (h : Represents F tree db) {category : String} (hcategory : IsCategory F category)
    {key : String} {record : FirebaseValue} (hlookup : (db category).lookup key = some record) :
    HasLeaf record := by
  obtain ⟨path, leaf, hleaf⟩ := (h.keys category hcategory key).mp (mem_keys_of_lookup hlookup)
  rw [h.leaves category hcategory, recordsAt, hlookup, Option.bind_some] at hleaf
  exact ⟨path, leaf, hleaf⟩

/-- A write at a key does to the tree what it does to the records. -/
theorem apply_represents {F : Foundation} (hF : SimpleCategories F) {B : Firebase} (hB : B.Local)
    {tree : Tree} {db : Database} {w : DatabaseWrite} (htree : Represents F tree db)
    (hcategory : IsCategory F w.category) (hne : w.key ≠ "") (hkey : components w.key = [w.key])
    (hwrite : ∀ value, w.write = .updateChildValues value → IsProductOf w.category value) :
    Represents F (apply tree w) (db.store B w) := by
  refine represents_of_leaves ?_ ?_
  · intro category hcategory'
    have hread := htree.leaves category hcategory'
    rw [observedReference_eq] at hread ⊢
    by_cases hsame : category = w.category
    · subst hsame
      rw [apply, child, read_commitAt_below, hread, hkey, commitAt_recordsAt B _ _ hne, store_self]
    · rw [store_of_ne hsame, apply, child, read_commitAt_apart ?_, hread]
      simp only [categoryReference, child, components_category hF hcategory',
        components_category hF hcategory, List.append_assoc]
      exact Apart.of_ne hsame _ [] _
  · intro category hcategory' key record hlookup
    rcases lookup_store hB hlookup with hold | ⟨_, hputs⟩
    · exact htree.hasLeaf hcategory' hold
    · cases hputs with
      | keyed _ _ hrecord =>
        obtain ⟨v, link, rfl, _⟩ := hwrite record hrecord
        exact hasLeaf_productRecord v link w.category
      | spread hempty _ _ => exact absurd hempty hne

section network

variable {C : Type*} [DecidableEq C] {F : Foundation} {B : Firebase} {s t : Network C}
  {e : Event C} {stored : Database} {taken : List String} {es : List (Event C)}

/-- The popups of the clients belong to categories. -/
def PopupsPlaced (F : Foundation) (s : Network C) : Prop :=
  ∀ c, ∀ p ∈ (s.clients c).popups, IsCategory F p.currentCategory

theorem run_popupsPlaced (hB : B.Local) (hstored : ∀ category, "" ∉ (stored category).keys)
    (h : run (step F B) (launched stored taken) es = some t) : PopupsPlaced F t := by
  refine run_along (I := fun _ => PopupsPlaced F) (fun _ _ hp => absurd hp List.not_mem_nil) ?_ h
  intro pre s e u hpre hs hu c p hp
  rcases step_popup hu c p hp with ⟨q, hq, hcategory⟩ | ⟨hopen, hcategory⟩
  · rw [← hcategory]
    exact hs c q hq
  · rw [hcategory]
    rcases ((run_tracedKeys hB hstored hpre).clients c).placed with hplaced | ⟨hclosed, _⟩
    · exact hplaced
    · exact absurd (hopen.symm.trans hclosed) nofun

/-- Writes go to categories of the category screen. -/
theorem waiting_placed (hB : B.Local) (hstored : ∀ category, "" ∉ (stored category).keys)
    (h : run (step F B) (launched stored taken) es = some t) {c : C} {q : Sent}
    (hq : q ∈ (t.clients c).outgoing) : IsCategory F q.write.category := by
  obtain ⟨pre, e, post, u, _, _, hu, _, hsends⟩ := (run_sends h hq).press
  have htraced := run_tracedKeys hB hstored hu
  cases hsends with
  | saved hopen =>
    rcases (htraced.clients c).placed with hplaced | ⟨hclosed, _⟩
    · exact hplaced
    · exact absurd (hopen.symm.trans hclosed) nofun
  | deleted hw =>
    rcases (htraced.clients c).placed with hplaced | ⟨_, halerts⟩
    · exact hplaced
    · rw [halerts] at hw
      exact absurd hw List.not_mem_nil
  | added hp => exact run_popupsPlaced hB hstored hu c _ (List.mem_of_getElem? hp)

/-- The keys a client may name are single components. -/
theorem components_of_origin
    (hkeys : ∀ category, ∀ key ∈ (stored category).keys, key ≠ "" ∧ '/' ∉ key.toList)
    {c : C} {category key : String} (h : Origin F B stored taken es c category key) :
    components key = [key] := by
  rcases h.stored_or_added with hold | ⟨d, hadded⟩
  · exact components_simple (hkeys category key hold).2
  · exact components_simple hadded.isAutoId.2

/-- Every run that commits no write under the empty key writes to the tree what it writes to
the records: applied in order at the references they are made at, its writes leave at the
observer's reference of every category the records the network says it has. -/
theorem tree_represents (F : Foundation) (hF : SimpleCategories F) (B : Firebase) (hB : B.Local)
    (stored : Database)
    (hkeys : ∀ category, ∀ key ∈ (stored category).keys, key ≠ "" ∧ '/' ∉ key.toList)
    (taken : List String) (tree : Tree) (htree : Represents F tree stored) (es : List (Event C))
    (t : Network C) (h : run (step F B) (launched stored taken) es = some t)
    (hkeyed : ∀ w ∈ outputs (step F B) committedWrite (launched stored taken) es, w.key ≠ "") :
    Represents F ((outputs (step F B) committedWrite (launched stored taken) es).foldl apply tree)
      t.db := by
  have hstored : ∀ category, "" ∉ (stored category).keys :=
    fun category hkey => (hkeys category "" hkey).1 rfl
  refine run_outputs (I := fun writes (t : Network C) => (∀ w ∈ writes, DatabaseWrite.key w ≠ "") →
    Represents F (writes.foldl apply tree) t.db) (fun _ => htree) ?_ h hkeyed
  intro pre s e u hpre hs hu hwrites
  have hbefore := hs (fun w hw => hwrites w (List.mem_append_left _ hw))
  rw [List.foldl_append]
  rcases step_stored hu with ⟨hdb, hnone⟩ | ⟨q, hq, hdb⟩
  · rw [committedWrite, hnone, hdb]
    exact hbefore
  · rw [committedWrite, hq, Option.map_some, Option.toList_some] at hwrites ⊢
    rw [hdb]
    obtain ⟨c, _, hmem⟩ := committed_mem hq
    have hne : q.write.key ≠ "" :=
      hwrites _ (List.mem_append_right _ (List.mem_singleton.mpr rfl))
    have htraced := run_tracedKeys hB hstored hpre
    refine apply_represents hF hB hbefore (waiting_placed hB hstored hpre hmem) hne ?_
      (htraced.formatted c q hmem)
    exact components_of_origin hkeys ((htraced.waiting c q hmem).resolve_left hne)

theorem simpleCategories_ascii : SimpleCategories asciiFoundation := by
  unfold SimpleCategories
  decide

/-- The tree of the database with one ring. -/
def oneRingTree : Tree
  | "products" :: category :: path => recordsAt (oneRing category) path
  | _ => none

theorem represents_oneRing : Represents asciiFoundation oneRingTree oneRing := by
  refine represents_of_leaves ?_ ?_
  · intro category hcategory
    rw [observedReference_eq, categoryReference, child, child,
      components_category simpleCategories_ascii hcategory]
    rfl
  · intro category _ key record hlookup
    obtain ⟨_, _, rfl⟩ := lookup_oneRing hlookup
    exact hasLeaf_productRecord _ _ _

/-- After the deletion of the ring the tree has no rings. -/
theorem tree_after_deletion : ∃ t,
    run (step asciiFoundation namesCategory) (launched (C := Unit) oneRing [])
      (savedAfterDeletion.take 8) = some t ∧
    Represents asciiFoundation
      ((outputs (step asciiFoundation namesCategory) committedWrite (launched oneRing [])
        (savedAfterDeletion.take 8)).foldl apply oneRingTree) t.db := by
  have hkeys : ∀ category, ∀ key ∈ (oneRing category).keys, key ≠ "" ∧ '/' ∉ key.toList := by
    intro category key hkey
    rw [eq_of_mem_oneRing hkey]
    decide
  have hrun : ∃ t, run (step asciiFoundation namesCategory) (launched (C := Unit) oneRing [])
      (savedAfterDeletion.take 8) = some t := ⟨_, rfl⟩
  obtain ⟨t, ht⟩ := hrun
  exact ⟨t, ht, tree_represents asciiFoundation simpleCategories_ascii namesCategory
    namesCategory_spec.isLocal oneRing hkeys [] oneRingTree represents_oneRing _ t ht (by decide)⟩

end network

end MiraclesAdmin.DatabasePaths
