import MiraclesAdmin.NetworkSteps

/-!
What the database holds and the clients see of it, and where it comes from. All writes
that wait carry product records of their category, so a property that these have, and
that the records had at the start, is one of all records. Under the empty key a record
can be spread over its category, whose children are then its fields; no observer can
decode those.
-/
namespace MiraclesAdmin.StoredRecords

open SwiftText Transition ObjectHeap ProductRecords ProductForm CategoryStore CategoryWrites
open ScreenSteps hiding Effect step_effect
open ProductList hiding step
open ProductsScreen hiding Event step launch
open AdminNetwork NetworkSteps

variable {C : Type*} [DecidableEq C] {F : Foundation} {B : Firebase} {s t : Network C}
  {e : Event C}

/-- What the forms write for a product of the category. -/
def IsProductOf (category : String) (value : FirebaseValue) : Prop :=
  ∃ v link, value = productRecord v link category ∧ Filled v

/-- Writes that wait carry product records of their category. -/
def Formatted (s : Network C) : Prop :=
  ∀ c, ∀ q ∈ (s.clients c).outgoing, ∀ value, q.write.write = .updateChildValues value →
    IsProductOf q.write.category value

omit [DecidableEq C] in
theorem formatted_launched (stored : Database) (taken : List String) :
    Formatted (launched (C := C) stored taken) :=
  fun _ _ hq => absurd hq List.not_mem_nil

omit [DecidableEq C] in
theorem sends_isProductOf {c : C} {q : Sent} (h : Sends s e c q) {value : FirebaseValue}
    (hvalue : q.write.write = .updateChildValues value) : IsProductOf q.write.category value := by
  cases h with
  | saved _ _ hfilled =>
    cases hvalue
    exact ⟨_, _, rfl, hfilled⟩
  | deleted => cases hvalue
  | added _ _ _ hfilled =>
    cases hvalue
    exact ⟨_, _, rfl, hfilled⟩

theorem step_formatted (hs : Formatted s) (h : step F B s e = some t) : Formatted t := by
  intro c q hq value hvalue
  rcases step_outgoing h hq with hold | ⟨hsends, _⟩
  · exact hs c q hold value hvalue
  · exact sends_isProductOf hsends hvalue

theorem run_formatted {stored : Database} {taken : List String} {es : List (Event C)}
    (h : run (step F B) (launched stored taken) es = some t) : Formatted t :=
  run_invariant (step F B) (formatted_launched stored taken)
    (fun _ _ _ _ hs ht => step_formatted hs ht) h

omit [DecidableEq C] in
theorem Formatted.committed (hs : Formatted s) {q : Sent} (hq : q ∈ committed s e)
    {value : FirebaseValue} (hvalue : q.write.write = .updateChildValues value) :
    IsProductOf q.write.category value := by
  obtain ⟨c, _, hmem⟩ := committed_mem hq
  exact hs c q hmem value hvalue

section records

variable {P : String → String → FirebaseValue → Prop}

/-- A property of all records, in the database and as the clients have received them. -/
def AllHeld (P : String → String → FirebaseValue → Prop) (s : Network C) : Prop :=
  ∀ db, Holds s db → ∀ category key record,
    (db category).lookup key = some record → P category key record

omit [DecidableEq C] in
theorem allHeld_launched {stored : Database} {taken : List String}
    (h : ∀ category key record, (stored category).lookup key = some record →
      P category key record) : AllHeld P (launched (C := C) stored taken) := by
  rintro db (rfl | ⟨c, rfl⟩) <;> exact h

/-- It stays one if the committed write puts nothing else into its category. -/
theorem step_allHeld (hB : B.Local) (hs : AllHeld P s)
    (hcommit : ∀ q ∈ committed s e, ∀ key record, Puts q.write key record →
      P q.write.category key record)
    (h : step F B s e = some t) : AllHeld P t := by
  intro db hdb category key record hlookup
  rcases step_holds h hdb with hold | ⟨q, hq, rfl⟩
  · exact hs db hold category key record hlookup
  · rcases lookup_store hB hlookup with hstored | ⟨rfl, hputs⟩
    · exact hs s.db (Or.inl rfl) category key record hstored
    · exact hcommit q hq key record hputs

omit [DecidableEq C] in
/-- A client sees nothing else if its writes that wait put nothing else there either. -/
theorem view_forall (hB : B.Local) {c : C} (hs : AllHeld P s)
    (hwaiting : ∀ q ∈ (s.clients c).outgoing, ∀ key record, Puts q.write key record →
      P q.write.category key record) :
    ∀ category key record, ((s.clients c).view B category).lookup key = some record →
      P category key record := by
  refine storeAll_forall hB (hs _ (Or.inr ⟨c, rfl⟩)) ?_
  intro w hw
  obtain ⟨q, hq, rfl⟩ := List.mem_map.mp hw
  exact hwaiting q hq

end records

/-- What a category holds under a key after these commits: what it held at the start, a
record of a product of this category, or a field of such a record that was committed
under the empty key. -/
def Accounted (stored : Database) (commits : List DatabaseWrite) (category key : String)
    (record : FirebaseValue) : Prop :=
  (stored category).lookup key = some record ∨
    IsProductOf category record ∨
    ∃ w ∈ commits, ∃ value, w.category = category ∧ w.key = "" ∧
      w.write = .updateChildValues value ∧ IsProductOf category value ∧
      (key, record) ∈ value.asDictionary.getD []

theorem Accounted.append {stored : Database} {commits : List DatabaseWrite}
    {category key : String} {record : FirebaseValue}
    (h : Accounted stored commits category key record) (later : List DatabaseWrite) :
    Accounted stored (commits ++ later) category key record := by
  rcases h with hstored | hproduct | ⟨w, hw, hspread⟩
  · exact Or.inl hstored
  · exact Or.inr (Or.inl hproduct)
  · exact Or.inr (Or.inr ⟨w, List.mem_append_left later hw, hspread⟩)

theorem step_accounted {stored : Database} {commits : List DatabaseWrite} (hB : B.Local)
    (hf : Formatted s)
    (hs : ∀ category key record, (s.db category).lookup key = some record →
      Accounted stored commits category key record) (h : step F B s e = some t) :
    ∀ category key record, (t.db category).lookup key = some record →
      Accounted stored (commits ++ (committedWrite s e).toList) category key record := by
  intro category key record hlookup
  rcases step_stored h with ⟨hdb, _⟩ | ⟨q, hq, hdb⟩
  · rw [hdb] at hlookup
    exact (hs category key record hlookup).append _
  · rw [hdb] at hlookup
    rcases lookup_store hB hlookup with hold | ⟨rfl, hputs⟩
    · exact (hs category key record hold).append _
    · have hnew : q.write ∈ (committedWrite s e).toList := by
        rw [committedWrite, hq]
        exact List.mem_singleton.mpr rfl
      cases hputs with
      | keyed _ _ hwrite => exact Or.inr (Or.inl (hf.committed hq hwrite))
      | spread hkey hwrite hmem =>
        exact Or.inr (Or.inr ⟨q.write, List.mem_append_right _ hnew, _, rfl, hkey, hwrite,
          hf.committed hq hwrite, hmem⟩)

/-- In every run the database holds nothing under a key but what it held there at the
start, what the panel writes for a product of that category, or a field of that which was
committed before under the empty key. -/
theorem store_accounted (F : Foundation) (B : Firebase) (hB : B.Local) (stored : Database)
    (taken : List String) (es : List (Event C)) (t : Network C)
    (h : run (step F B) (launched stored taken) es = some t) (category key : String)
    (record : FirebaseValue) (hlookup : (t.db category).lookup key = some record) :
    Accounted stored (outputs (step F B) committedWrite (launched stored taken) es)
      category key record := by
  refine run_outputs (I := fun commits (t : Network C) => ∀ category key record,
    (t.db category).lookup key = some record → Accounted stored commits category key record)
    (fun _ _ _ hstored => Or.inl hstored) ?_ h category key record hlookup
  exact fun _ _ _ _ hpre hs hu => step_accounted hB (run_formatted hpre) hs hu

/-- After the save under the empty key, the name of the form is one of the rings. -/
theorem name_accounted : ∃ t record,
    run (step asciiFoundation namesCategory) (launched oneRing []) savedAfterDeletion = some t ∧
    (t.db "Rings").lookup "name" = some record ∧
    Accounted oneRing (outputs (step asciiFoundation namesCategory) committedWrite
      (launched oneRing []) savedAfterDeletion) "Rings" "name" record := by
  have hrun : ∃ t record,
      run (step asciiFoundation namesCategory) (launched oneRing []) savedAfterDeletion = some t ∧
      (t.db "Rings").lookup "name" = some record := ⟨_, _, rfl, rfl⟩
  obtain ⟨t, record, ht, hname⟩ := hrun
  exact ⟨t, record, ht, hname, store_accounted asciiFoundation namesCategory
    namesCategory_spec.isLocal oneRing [] savedAfterDeletion t ht "Rings" "name" record hname⟩

/-- Every record of the category can be decoded. -/
def Readable (db : Records) : Prop :=
  ∀ key record, db.lookup key = some record → (readProduct key record).isSome

theorem readProduct_productRecord (key : String) (v : FormValues) (link category : String) :
    (readProduct key (productRecord v link category)).isSome := by
  have hdescribes := describes_productRecord { displayPicture := link } v category
  rw [readProduct_of_describes key hdescribes]
  rfl

theorem readProduct_eq_none {key : String} {record : FirebaseValue}
    (h : ∀ name, record.child name = none) : readProduct key record = none := by
  simp only [readProduct, h, Option.bind_eq_bind, Option.bind_none]

/-- A write in the format puts decodable records into its category, unless its key is
empty. -/
theorem readable_of_puts {w : DatabaseWrite} {key : String} {record : FirebaseValue}
    (hw : ∀ value, w.write = .updateChildValues value → IsProductOf w.category value)
    (hsave : ¬ IsUnkeyedSave w) (hputs : Puts w key record) : (readProduct key record).isSome := by
  cases hputs with
  | keyed _ _ hwrite =>
    obtain ⟨v, link, rfl, _⟩ := hw record hwrite
    exact readProduct_productRecord key v link w.category
  | spread hkey hwrite _ => exact absurd ⟨hkey, _, hwrite⟩ hsave

end MiraclesAdmin.StoredRecords
