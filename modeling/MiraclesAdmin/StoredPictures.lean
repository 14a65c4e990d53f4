import MiraclesAdmin.FreshAdditions

/-!
No client changes the picture of a product. A save sends the picture of the selected
object, which is the one its record had when it was decoded, and an added product gets
the placeholder under a key that was never given before. So the picture at a key is the
one it had at the start, or the placeholder.
-/
namespace MiraclesAdmin.StoredPictures

open SwiftText Transition ObjectHeap ProductRecords ProductForm CategoryStore CategoryWrites
open ScreenSteps hiding Effect step_effect
open ScreenObjects WriteTargeting
open ProductList hiding step
open ProductsScreen hiding Event step launch
open AdminNetwork NetworkSteps StoredRecords RequestOrigins FreshAdditions

/-- The picture a record has. -/
def pictureOf (record : FirebaseValue) : Option String :=
  match record.child "displayPicture" with
  | some (.string link) => some link
  | _ => none

/-- The picture of a key of a category: the one stored at the start, or the placeholder. -/
def pictureAt (stored : Database) (category key : String) : String :=
  match (stored category).lookup key with
  | some record => (pictureOf record).getD ""
  | none => AddPopup.AddProductView.placeholder

/-- What a client knows of its category has the pictures of its keys. -/
def Pictured (picture : String → String → String) (a : App) : Prop :=
  ∀ r, Known a r → (a.list.heap.cell r).key ≠ "" →
    (a.list.heap.cell r).displayPicture = picture a.currentCategory (a.list.heap.cell r).key

variable {F : Foundation} {B : Firebase} {picture : String → String → String} {a b : App}
  {d : ProductsScreen.Event}

theorem pictured_launch (picture : String → String → String) :
    Pictured picture ProductsScreen.launch := by
  intro r hr hkey
  rcases hr with hr | rfl
  · rcases hr with hr | hr <;> exact absurd hr List.not_mem_nil
  · exact absurd rfl hkey

theorem step_pictured (hkeyed : Keyed a) (hs : Pictured picture a)
    (hdelivered : ∀ record ∈ delivered d, ∀ link, pictureOf record.2 = some link →
      link = picture a.currentCategory record.1)
    (h : ProductsScreen.step F a d = some b) : Pictured picture b := by
  by_cases hd : ∃ name, d = .openCategory name
  · obtain ⟨name, rfl⟩ := hd
    exact fun r hr hkey => absurd (opened_known hkeyed h hr) hkey
  · unfold Pictured
    rw [step_currentCategory h (fun name heq => hd ⟨name, heq⟩)]
    refine step_known
      (P := fun p => p.key ≠ "" → p.displayPicture = picture a.currentCategory p.key) ?_
      (fun hkey => absurd rfl hkey) hkeyed.sound ?_ hs h
    · intro p q hkey hpicture hp
      rw [hkey, hpicture]
      exact hp
    · intro record hrecord p hread _
      rw [readProduct_key hread]
      refine hdelivered record hrecord _ ?_
      rw [pictureOf, readProduct_displayPicture hread]

/-- Products of screens that were left do not touch what a client knows. -/
theorem Pictured.grow (hs : Pictured picture a) (hsound : Sound a) {heap : Heap Product}
    (hud : Bool) (hheap : a.list.heap.Extends heap) :
    Pictured picture { a with list := { a.list with heap := heap, hudShown := hud } } := by
  intro r hr
  change (heap.cell r).key ≠ "" → (heap.cell r).displayPicture = _
  rw [hheap.2 r (hsound.live_known hr)]
  exact hs r hr

variable {C : Type*} [DecidableEq C] {s t : Network C} {e : Event C}

/-- A record with the picture of its key. -/
def HasPicture (picture : String → String → String) (category key : String)
    (record : FirebaseValue) : Prop :=
  ∀ link, pictureOf record = some link → link = picture category key

/-- All pictures of the network are those of their keys. -/
structure PicturesKept (picture : String → String → String) (s : Network C) : Prop where
  formatted : Formatted s
  held : AllHeld (HasPicture picture) s
  waiting : ∀ c, ∀ q ∈ (s.clients c).outgoing, q.write.key ≠ "" → ∀ value,
    q.write.write = .updateChildValues value →
    HasPicture picture q.write.category q.write.key value
  clients : ∀ c, Pictured picture (s.clients c).app

omit [DecidableEq C] in
theorem PicturesKept.puts (hs : PicturesKept picture s) {c : C} {q : Sent}
    (hq : q ∈ (s.clients c).outgoing) {key : String} {record : FirebaseValue}
    (hputs : Puts q.write key record) : HasPicture picture q.write.category key record := by
  cases hputs with
  | keyed hkey hne hwrite =>
    subst hkey
    exact hs.waiting c q hq hne record hwrite
  | spread _ hwrite hmem =>
    obtain ⟨v, link, rfl, _⟩ := hs.formatted c q hq _ hwrite
    intro link' hlink
    rw [pictureOf, child_of_child hmem] at hlink
    cases hlink

theorem step_picturesKept (hB : B.Local) (hkeyed : ∀ c, Keyed (s.clients c).app)
    (hfresh : ∀ category id, id ∉ s.autoIds →
      picture category id = AddPopup.AddProductView.placeholder)
    (hs : PicturesKept picture s) (h : step F B s e = some t) : PicturesKept picture t := by
  refine ⟨step_formatted hs.formatted h, ?_, ?_, ?_⟩
  · refine step_allHeld hB hs.held ?_ h
    intro q hq key record hputs
    obtain ⟨c, _, hmem⟩ := committed_mem hq
    exact hs.puts hmem hputs
  · intro c q hq hne value hvalue
    rcases step_outgoing h hq with hold | ⟨hsends, _⟩
    · exact hs.waiting c q hold hne value hvalue
    · intro link hlink
      cases hsends with
      | saved =>
        cases hvalue
        cases hlink
        exact hs.clients c _ (Or.inr rfl) hne
      | deleted => cases hvalue
      | added _ _ hnew =>
        cases hvalue
        cases hlink
        exact (hfresh _ _ hnew).symm
  · refine step_client (P := fun _ k => Pictured picture k.app) h hs.clients ?_ ?_ ?_
    · intro c d a hd ha
      refine step_pictured (hkeyed c) (hs.clients c) ?_ ha
      intro record hrecord
      exact view_forall hB hs.held (fun q hq _ _ hputs => hs.puts hq hputs) _ _ _
        (hd.delivered record hrecord)
    · intro c i category table l order _ hl
      exact (hs.clients c).grow (hkeyed c).sound _ (observed_extends hl)
    · intro c k happ _
      rw [happ]
      exact hs.clients c

/-- In every run over a database whose keys are taken, a picture that is stored at a key
is the one the key had at the start, or the placeholder if it was no key then. -/
theorem pictures_kept (F : Foundation) (B : Firebase) (hB : B.Local) (stored : Database)
    (taken : List String) (hstored : ∀ category, "" ∉ (stored category).keys)
    (htaken : ∀ category, ∀ key ∈ (stored category).keys, key ∈ taken) (es : List (Event C))
    (t : Network C) (h : run (step F B) (launched stored taken) es = some t)
    (category key : String) (record : FirebaseValue) (link : String)
    (hlookup : (t.db category).lookup key = some record) (hlink : pictureOf record = some link) :
    link = pictureAt stored category key := by
  have hkept : PicturesKept (pictureAt stored) t := by
    refine run_along (I := fun _ => PicturesKept (pictureAt stored))
      ⟨formatted_launched stored taken, allHeld_launched ?_, ?_, ?_⟩ ?_ h
    · intro category key record hlookup link hlink
      rw [pictureAt, hlookup]
      simp only [hlink, Option.getD_some]
    · exact fun _ _ hq => absurd hq List.not_mem_nil
    · exact fun c => pictured_launch _
    · intro pre s e u hpre hs hu
      have htraced := run_tracedKeys hB hstored hpre
      refine step_picturesKept hB (fun c => (htraced.clients c).keyed) ?_ hs hu
      intro category id hid
      have hnone : (stored category).lookup id = none := by
        refine AList.lookup_eq_none.mpr (fun hkey => hid ?_)
        exact run_autoIds hpre (htaken category id (AList.mem_keys.mp hkey))
      rw [pictureAt, hnone]
  exact hkept.held t.db (Or.inl rfl) category key record hlookup link hlink

/-- The ring gets another price. -/
def repricesRing : List (Event Unit) :=
  [.tap () ⟨0, 1⟩, .valueEvent () ["-L1"], .client () (.selectRow 0), .client () .editPressed,
    .client () (.editPrice 0 2 "45"), .client () .savePressed, .commit ()]

theorem repriced_ring_keeps_picture : ∃ t record link,
    run (step asciiFoundation namesCategory) (launched oneRing ["-L1"]) repricesRing = some t ∧
    (t.db "Rings").lookup "-L1" = some record ∧ record.child "price" = some (.number 45) ∧
    pictureOf record = some link ∧ link = pictureAt oneRing "Rings" "-L1" := by
  have hkeys : ∀ category, "" ∉ (oneRing category).keys :=
    fun _ hkey => absurd (eq_of_mem_oneRing hkey) (by decide)
  have htaken : ∀ category, ∀ key ∈ (oneRing category).keys, key ∈ ["-L1"] :=
    fun _ _ hkey => List.mem_singleton.mpr (eq_of_mem_oneRing hkey)
  have hrun : ∃ t record link,
      run (step asciiFoundation namesCategory) (launched oneRing ["-L1"]) repricesRing = some t ∧
      (t.db "Rings").lookup "-L1" = some record ∧ record.child "price" = some (.number 45) ∧
      pictureOf record = some link := ⟨_, _, _, rfl, rfl, rfl, rfl⟩
  obtain ⟨t, record, link, ht, hlookup, hprice, hlink⟩ := hrun
  exact ⟨t, record, link, ht, hlookup, hprice, hlink, pictures_kept asciiFoundation namesCategory
    namesCategory_spec.isLocal oneRing ["-L1"] hkeys htaken repricesRing t ht "Rings" "-L1"
    record link hlookup hlink⟩

end MiraclesAdmin.StoredPictures
