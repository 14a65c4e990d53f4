import MiraclesAdmin.ScreenObjects

/-!
The pictures of the list's cells. Binding a cell to a product sets its labels and
starts a download, whose completion captures the image view alone: an accepted answer
is shown by that cell whatever it is bound to by then, and a rejected one is dropped.
`URL(string:)`, `UIImage(data:)` and the pictures on the web are parameters.
-/
namespace MiraclesAdmin.CellPictures

open SwiftText Transition ObjectHeap ProductRecords ProductList ScreenSteps ScreenObjects

/-- What lies outside the app: the parsing of links, the decoding of images, and the
image that is found at a URL. -/
structure Web (URL Data Image : Type) where
  url : String → Option URL
  decoded : Data → Option Image
  imageAt : URL → Image

/-- A response; the status code is that of an `HTTPURLResponse`, and MIME types are ASCII. -/
structure Response where
  statusCode : Option ℤ
  mimeType : Option String

/-- What a data task passes to its completion. -/
structure Answer (Data : Type) where
  data : Option Data
  response : Option Response
  error : Option String

def hasPrefix (text start : String) : Bool := start.toList.isPrefixOf text.toList

variable {URL Data Image : Type}

/-- The image of an answer that passes the guard of the completion. -/
def accepted (W : Web URL Data Image) (answer : Answer Data) : Option Image := do
  let httpURLResponse ← answer.response
  let statusCode ← httpURLResponse.statusCode
  guard (statusCode = 200)
  let mimeType ← httpURLResponse.mimeType
  guard (hasPrefix mimeType "image")
  let data ← answer.data
  guard (answer.error = none)
  W.decoded data

/-- A cell, the product it is bound to and the image of its view; no image stands for
the placeholder of the storyboard. -/
structure Cell (Image : Type) where
  product : Option Ref := none
  content : ProductTableCell := ⟨"Label", "Label", ""⟩
  image : Option Image := none

/-- A data task with the cell whose image view its completion captures. -/
structure Task (URL Data : Type) where
  cell : ℕ
  url : URL
  answer : Option (Answer Data) := none

structure PictureTable (URL Data Image : Type) where
  list : ListScreen
  cells : ℕ → Cell Image
  tasks : List (Task URL Data)

inductive Event (Data : Type)
  | list (e : ListEvent)
  | cellForRowAt (cell row : ℕ)
  | finished (task : ℕ) (answer : Answer Data)

namespace PictureTable

/-- `downloadedFrom(link:)` of the image view of a cell. -/
def downloadedFrom (W : Web URL Data Image) (s : PictureTable URL Data Image) (cell : ℕ)
    (link : String) : PictureTable URL Data Image :=
  match W.url link with
  | none => s
  | some url => { s with tasks := s.tasks ++ [{ cell := cell, url := url }] }

def updateCell (s : PictureTable URL Data Image) (cell : ℕ) (f : Cell Image → Cell Image) :
    PictureTable URL Data Image :=
  { s with cells := Function.update s.cells cell (f (s.cells cell)) }

/-- The dequeued cell gets the contents of its row, and its picture is asked for. -/
def bindCell (W : Web URL Data Image) (s : PictureTable URL Data Image) (cell : ℕ)
    (product : Ref) (content : ProductTableCell) : PictureTable URL Data Image :=
  (s.updateCell cell (fun c => { c with product := some product, content := content
    })).downloadedFrom W cell content.productImage

/-- `cellForRowAt` with the cell it dequeued; `none` is an index out of range. -/
def cellForRowAt (W : Web URL Data Image) (s : PictureTable URL Data Image) (cell row : ℕ) :
    Option (PictureTable URL Data Image) := do
  let product ← s.list.prepare row
  let content ← s.list.cellForRowAt row
  return s.bindCell W cell product content

/-- The completion of a task, with its block on the main queue. -/
def finished (W : Web URL Data Image) (s : PictureTable URL Data Image) (i : ℕ)
    (task : Task URL Data) (answer : Answer Data) : PictureTable URL Data Image :=
  let done := { s with tasks := s.tasks.set i { task with answer := some answer } }
  match accepted W answer with
  | none => done
  | some image => done.updateCell task.cell (fun c => { c with image := some image })

end PictureTable

/-- Rows are bound below the loaded count; each task is answered once, and an answer
that is accepted has the image at the URL that was asked. -/
def step [DecidableEq Image] (F : Foundation) (W : Web URL Data Image)
    (s : PictureTable URL Data Image) : Event Data → Option (PictureTable URL Data Image)
  | .list e => (ProductList.step F s.list e).map (fun l => { s with list := l })
  | .cellForRowAt cell row =>
      guarded (row < s.list.table.loadedRows.length) (s.cellForRowAt W cell row)
  | .finished i answer =>
    match s.tasks[i]? with
    | none => none
    | some task =>
      guarded (task.answer.isNone = true ∧
          (accepted W answer = none ∨ accepted W answer = some (W.imageAt task.url)))
        (some (s.finished W i task answer))

/-- A list screen that has just loaded, with cells fresh from the storyboard. -/
def opened (URL Data Image : Type) (h : Heap Product) : PictureTable URL Data Image :=
  ⟨ListScreen.viewDidLoad h, fun _ => {}, []⟩

/-- The outcomes of a step. -/
inductive Effect (W : Web URL Data Image) (s : PictureTable URL Data Image) :
    Event Data → PictureTable URL Data Image → Prop
  | listed {e : ListEvent} {l : ListScreen} (hext : s.list.heap.Extends l.heap)
      (hlisted : ∀ r, Listed l r → Listed s.list r ∨ l.heap.Live r) :
      Effect W s (.list e) { s with list := l }
  | bound {cell row : ℕ} {r : Ref} {content : ProductTableCell} (hr : Listed s.list r)
      (hlink : content.productImage = (s.list.heap.cell r).displayPicture) :
      Effect W s (.cellForRowAt cell row)
        (s.bindCell W cell r content)
  | answered {i : ℕ} {task : Task URL Data} {answer : Answer Data}
      (htask : s.tasks[i]? = some task) (hopen : task.answer = none)
      (himage : ∀ image, accepted W answer = some image → image = W.imageAt task.url) :
      Effect W s (.finished i answer) (s.finished W i task answer)

theorem step_effect [DecidableEq Image] {F : Foundation} {W : Web URL Data Image}
    {s t : PictureTable URL Data Image} {e : Event Data} (h : step F W s e = some t) :
    Effect W s e t := by
  cases e with
  | list e =>
    obtain ⟨l, hl, rfl⟩ := Option.map_eq_some_iff.mp h
    refine .listed (listStep_extends hl) ?_
    intro r hr
    rcases listStep_listed hl hr with hold | ⟨hlive, _⟩
    · exact Or.inl hold
    · exact Or.inr hlive
  | cellForRowAt cell row =>
    obtain ⟨_, h⟩ := guarded_eq_some.mp h
    obtain ⟨r, hr, h⟩ := Option.bind_eq_some_iff.mp h
    obtain ⟨content, hcontent, h⟩ := Option.bind_eq_some_iff.mp h
    cases h
    refine .bound (prepare_listed hr) ?_
    rw [ListScreen.cellForRowAt_eq, ← ListScreen.prepare_eq, hr] at hcontent
    cases hcontent
    rfl
  | finished i answer =>
    simp only [step] at h
    split at h
    · cases h
    · rename_i task htask
      obtain ⟨⟨hopen, himage⟩, h⟩ := guarded_eq_some.mp h
      cases h
      refine .answered htask (Option.isNone_iff_eq_none.mp hopen) ?_
      intro image haccepted
      rcases himage with hnone | hsome
      · rw [haccepted] at hnone
        cases hnone
      · exact Option.some.inj (haccepted.symm.trans hsome)

end MiraclesAdmin.CellPictures
