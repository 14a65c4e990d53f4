import MiraclesAdmin.SwiftText

/-!
The category screen: its sections, its cells, and the category a tapped cell opens.
The tables of names are read by four callbacks with a `switch` each. Those agree on
the sections there are; for any further section the cells would show jewellery and a
tap would open handmade cards.
-/
namespace MiraclesAdmin.CategoryScreen

open SwiftText

structure IndexPath where
  sectionIndex : ℕ
  row : ℕ
deriving DecidableEq

def allCategories : List String := ["Jewellery", "Handmade Cards", "Accessories"]

def jewellery : List String := ["necklaces", "rings", "earrings", "bracelets", "anklets"]

def handmadeCards : List String :=
  ["seasonal", "birthday", "significant Other", "anniversary", "get Well", "funny", "friendship",
    "custom Made"]

def accessories : List String := ["novelty", "for Him", "for Her"]

def numberOfSections : ℕ := allCategories.length

def numberOfItemsInSection : ℕ → ℕ
  | 0 => jewellery.length
  | 1 => handmadeCards.length
  | 2 => accessories.length
  | _ => 0

/-- The name of the picture and the label of a cell. -/
structure CategoryCell where
  imageCell : String
  labelCell : String
deriving DecidableEq

def fillCell (F : Foundation) (name : String) : CategoryCell := ⟨name, F.capitalized name⟩

/-- `cellForItemAt`; `none` is an index out of range. -/
def cellForItemAt (F : Foundation) (indexPath : IndexPath) : Option CategoryCell :=
  match indexPath.sectionIndex with
  | 0 => jewellery[indexPath.row]?.map (fillCell F)
  | 1 => handmadeCards[indexPath.row]?.map (fillCell F)
  | 2 => accessories[indexPath.row]?.map (fillCell F)
  | _ => jewellery[indexPath.row]?.map (fillCell F)

/-- The `selectedCategory` of a tap, which `prepare(for:sender:)` passes on as `myString`. -/
def tap (indexPath : IndexPath) : Option String :=
  match indexPath.sectionIndex with
  | 0 => jewellery[indexPath.row]?
  | 1 => handmadeCards[indexPath.row]?
  | 2 => accessories[indexPath.row]?
  | _ => handmadeCards[indexPath.row]?

/-- The cells the collection view asks for. -/
def Shown (indexPath : IndexPath) : Prop :=
  indexPath.sectionIndex < numberOfSections ∧
    indexPath.row < numberOfItemsInSection indexPath.sectionIndex

instance (indexPath : IndexPath) : Decidable (Shown indexPath) :=
  inferInstanceAs (Decidable (_ ∧ _))

/-- The names that taps select. -/
def names : List String := jewellery ++ handmadeCards ++ accessories

theorem sections_of_shown {indexPath : IndexPath} (h : Shown indexPath) :
    indexPath.sectionIndex = 0 ∨ indexPath.sectionIndex = 1 ∨ indexPath.sectionIndex = 2 := by
  have hlt : indexPath.sectionIndex < 3 := h.1
  omega

theorem row_of_table (F : Foundation) {table : List String} (htable : ∀ name ∈ table, name ∈ names)
    {row : ℕ} (h : row < table.length) : ∃ name ∈ names, table[row]? = some name ∧
      table[row]?.map (fillCell F) = some (fillCell F name) := by
  have hname : table[row]? = some table[row] := List.getElem?_eq_getElem h
  refine ⟨table[row], htable _ (List.getElem_mem h), hname, ?_⟩
  rw [hname, Option.map_some]

/-- A tap on a cell that is shown opens the category on the label of the cell. -/
theorem tap_of_shown (F : Foundation) {indexPath : IndexPath} (h : Shown indexPath) :
    ∃ name ∈ names, tap indexPath = some name ∧
      cellForItemAt F indexPath = some (fillCell F name) := by
  obtain ⟨sectionIndex, row⟩ := indexPath
  obtain ⟨_, hrow⟩ := id h
  rcases sections_of_shown h with hs | hs | hs <;> simp only at hs <;> subst hs
  · exact row_of_table F (fun name hname => by simp [names, hname]) hrow
  · exact row_of_table F (fun name hname => by simp [names, hname]) hrow
  · exact row_of_table F (fun name hname => by simp [names, hname]) hrow

end MiraclesAdmin.CategoryScreen
