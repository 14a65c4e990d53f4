import MiraclesAdmin.CellPictures

/-!
Whose picture a cell ends with. Once all tasks are answered a cell shows the picture
that arrived for it last, and the placeholder if none did. That is right exactly when
the last arrival was asked for at the link of the product the cell is bound to now: an
answer that was overtaken, or a picture left over when the new link is invalid or its
download fails, was not.
-/
namespace MiraclesAdmin.OwnPictures

open SwiftText Transition ObjectHeap ProductRecords ProductList ScreenObjects CellPictures

variable {URL Data Image : Type}

/-- No download is outstanding. -/
def Quiet (s : PictureTable URL Data Image) : Prop := ∀ task ∈ s.tasks, task.answer ≠ none

/-- The download that was started last for a cell. -/
def latestTask (s : PictureTable URL Data Image) (cell : ℕ) : Option (Task URL Data) :=
  (s.tasks.filter (fun task => task.cell = cell)).getLast?

def LatestFailed (W : Web URL Data Image) (s : PictureTable URL Data Image) (cell : ℕ) : Prop :=
  ∃ task answer, latestTask s cell = some task ∧ task.answer = some answer ∧
    accepted W answer = none

/-- The URL of the picture of a product, if its link is valid. -/
def urlOf (W : Web URL Data Image) (s : PictureTable URL Data Image) (product : Ref) :
    Option URL := W.url (s.list.heap.cell product).displayPicture

/-- The cell shows the image at the link of the product, or the placeholder if that
link is invalid or the latest download failed. -/
def ShowsOwn (W : Web URL Data Image) (s : PictureTable URL Data Image) (cell : ℕ)
    (product : Ref) : Prop :=
  (∃ url, urlOf W s product = some url ∧ (s.cells cell).image = some (W.imageAt url)) ∨
  ((s.cells cell).image = none ∧ (urlOf W s product = none ∨ LatestFailed W s cell))

/-- Whenever no download is outstanding, every bound cell shows its own picture. -/
def CellsShowOwn (W : Web URL Data Image) (s : PictureTable URL Data Image) : Prop :=
  Quiet s → ∀ cell product, (s.cells cell).product = some product → ShowsOwn W s cell product

/-- The cell and the URL of the download whose picture arrives with an event. -/
def arrived (W : Web URL Data Image) (s : PictureTable URL Data Image) :
    Event Data → Option (ℕ × URL)
  | .finished i answer => do
    let task ← s.tasks[i]?
    let _ ← accepted W answer
    return (task.cell, task.url)
  | _ => none

/-- The URL of the picture that arrived last for a cell. -/
def lastArrived [DecidableEq Image] (F : Foundation) (W : Web URL Data Image) (h : Heap Product)
    (es : List (Event Data)) (cell : ℕ) : Option URL :=
  ((outputs (step F W) (arrived W) (opened URL Data Image h) es).filterMap
    (fun a => if a.1 = cell then some a.2 else none)).getLast?

/-- Whenever no download is outstanding, the picture that arrived last for a bound
cell, if any did, had been asked for at the link of its product, or at one with the
same picture. -/
def LastArrivedOwn [DecidableEq Image] (F : Foundation) (W : Web URL Data Image)
    (h : Heap Product) (es : List (Event Data)) (s : PictureTable URL Data Image) : Prop :=
  Quiet s → ∀ cell product, (s.cells cell).product = some product →
    ∀ asked, lastArrived F W h es cell = some asked →
      ∃ url, urlOf W s product = some url ∧ W.imageAt url = W.imageAt asked

/-- What holds along a run, apart from the history of arrivals. -/
structure Loading (W : Web URL Data Image) (s : PictureTable URL Data Image) : Prop where
  listed : ∀ r, Listed s.list r → s.list.heap.Live r
  bound : ∀ cell product, (s.cells cell).product = some product → s.list.heap.Live product
  started : ∀ cell product url, (s.cells cell).product = some product →
    urlOf W s product = some url → cell ∈ s.tasks.map Task.cell
  shown : ∀ task ∈ s.tasks, ∀ answer image, task.answer = some answer →
    accepted W answer = some image → (s.cells task.cell).image ≠ none

theorem loading_opened (W : Web URL Data Image) (h : Heap Product) :
    Loading W (opened URL Data Image h) where
  listed r hr := by simp [opened, ListScreen.viewDidLoad, Listed] at hr
  bound cell product hp := by simp [opened] at hp
  started cell product url hp := by simp [opened] at hp
  shown task htask := by simp [opened] at htask

variable {W : Web URL Data Image} {s t : PictureTable URL Data Image}

@[simp] theorem updateCell_self (s : PictureTable URL Data Image) (cell : ℕ)
    (f : Cell Image → Cell Image) : (s.updateCell cell f).cells cell = f (s.cells cell) :=
  Function.update_self _ _ _

theorem updateCell_of_ne (s : PictureTable URL Data Image) {cell c : ℕ}
    (f : Cell Image → Cell Image) (h : c ≠ cell) : (s.updateCell cell f).cells c = s.cells c :=
  Function.update_of_ne h _ _

section Bind
variable (s : PictureTable URL Data Image) (cell : ℕ) (product : Ref) (content : ProductTableCell)

theorem downloadedFrom_cells (link : String) : (s.downloadedFrom W cell link).cells = s.cells := by
  unfold PictureTable.downloadedFrom
  split <;> rfl

@[simp] theorem bindCell_list : (s.bindCell W cell product content).list = s.list := by
  unfold PictureTable.bindCell PictureTable.downloadedFrom
  split <;> rfl

theorem bindCell_product (c : ℕ) : ((s.bindCell W cell product content).cells c).product =
    if c = cell then some product else (s.cells c).product := by
  unfold PictureTable.bindCell
  rw [downloadedFrom_cells]
  by_cases h : c = cell
  · subst h
    rw [updateCell_self, if_pos rfl]
  · rw [updateCell_of_ne _ _ h, if_neg h]

/-- A cell that is reused keeps its image. -/
@[simp] theorem bindCell_image (c : ℕ) :
    ((s.bindCell W cell product content).cells c).image = (s.cells c).image := by
  unfold PictureTable.bindCell
  rw [downloadedFrom_cells]
  by_cases h : c = cell
  · subst h
    rw [updateCell_self]
  · rw [updateCell_of_ne _ _ h]

/-- A download is started for a valid link, and the older ones stay. -/
theorem bindCell_tasks : (s.bindCell W cell product content).tasks = s.tasks ++
    ((W.url content.productImage).map (fun url => { cell := cell, url := url })).toList := by
  unfold PictureTable.bindCell PictureTable.downloadedFrom
  cases W.url content.productImage with
  | none => simp [PictureTable.updateCell]
  | some url => rfl

end Bind

@[simp] theorem finished_list (s : PictureTable URL Data Image) (i : ℕ) (task : Task URL Data)
    (answer : Answer Data) : (s.finished W i task answer).list = s.list := by
  unfold PictureTable.finished
  split <;> rfl

@[simp] theorem finished_tasks (s : PictureTable URL Data Image) (i : ℕ) (task : Task URL Data)
    (answer : Answer Data) : (s.finished W i task answer).tasks =
      s.tasks.set i { task with answer := some answer } := by
  unfold PictureTable.finished
  split <;> rfl

theorem finished_product (s : PictureTable URL Data Image) (i : ℕ) (task : Task URL Data)
    (answer : Answer Data) (cell : ℕ) :
    ((s.finished W i task answer).cells cell).product = (s.cells cell).product := by
  unfold PictureTable.finished
  split
  · rfl
  · by_cases h : cell = task.cell
    · subst h
      rw [updateCell_self]
    · rw [updateCell_of_ne _ _ h]

/-- Only an accepted answer changes an image, and only that of the cell of its task. -/
theorem finished_image (s : PictureTable URL Data Image) (i : ℕ) (task : Task URL Data)
    (answer : Answer Data) (cell : ℕ) :
    ((s.finished W i task answer).cells cell).image =
      if cell = task.cell then (accepted W answer).or (s.cells cell).image
      else (s.cells cell).image := by
  unfold PictureTable.finished
  cases haccepted : accepted W answer with
  | none => simp
  | some image =>
    by_cases h : cell = task.cell
    · subst h
      simp
    · rw [if_neg h]
      simp only
      rw [updateCell_of_ne _ _ h]

/-- Answering a task leaves the cells of the tasks alone. -/
theorem map_cell_finished {i : ℕ} {task : Task URL Data} (htask : s.tasks[i]? = some task)
    (answer : Answer Data) :
    (s.finished W i task answer).tasks.map Task.cell = s.tasks.map Task.cell := by
  obtain ⟨hi, rfl⟩ := List.getElem?_eq_some_iff.mp htask
  rw [finished_tasks]
  apply List.ext_getElem?
  intro j
  rw [List.getElem?_map, List.getElem?_map, List.getElem?_set]
  by_cases hj : i = j
  · subst hj
    simp [hi]
  · rw [if_neg hj]

/-- The link of an existing product is the same in an extended heap. -/
theorem urlOf_extends {l : ListScreen} (hext : s.list.heap.Extends l.heap) {product : Ref}
    (hlive : s.list.heap.Live product) :
    urlOf W { s with list := l } product = urlOf W s product := by
  unfold urlOf
  rw [hext.2 product hlive]

theorem loading_listed (hs : Loading W s) {l : ListScreen} (hext : s.list.heap.Extends l.heap)
    (hlisted : ∀ r, Listed l r → Listed s.list r ∨ l.heap.Live r) :
    Loading W { s with list := l } := by
  refine ⟨?_, ?_, ?_, hs.shown⟩
  · intro r hr
    rcases hlisted r hr with hold | hlive
    · exact hext.live (hs.listed r hold)
    · exact hlive
  · intro cell product hp
    exact hext.live (hs.bound cell product hp)
  · intro cell product url hp hurl
    rw [urlOf_extends hext (hs.bound cell product hp)] at hurl
    exact hs.started cell product url hp hurl

theorem loading_bound (hs : Loading W s) (cell : ℕ) {product : Ref} {content : ProductTableCell}
    (hr : Listed s.list product)
    (hlink : content.productImage = (s.list.heap.cell product).displayPicture) :
    Loading W (s.bindCell W cell product content) := by
  refine ⟨?_, ?_, ?_, ?_⟩
  · rw [bindCell_list]
    exact hs.listed
  · intro c product' hp
    rw [bindCell_list]
    rw [bindCell_product] at hp
    by_cases hc : c = cell
    · rw [if_pos hc] at hp
      cases hp
      exact hs.listed product hr
    · rw [if_neg hc] at hp
      exact hs.bound c product' hp
  · intro c product' url hp hurl
    unfold urlOf at hurl
    rw [bindCell_list] at hurl
    rw [bindCell_product] at hp
    rw [bindCell_tasks, List.map_append, List.mem_append]
    by_cases hc : c = cell
    · rw [if_pos hc] at hp
      cases hp
      -- the download that was just started is for this link
      have hvalid : W.url content.productImage = some url := by
        rw [hlink]
        exact hurl
      right
      simp [hvalid, hc]
    · rw [if_neg hc] at hp
      exact Or.inl (hs.started c product' url hp hurl)
  · intro task htask answer image hanswer haccepted
    rw [bindCell_tasks, List.mem_append] at htask
    rw [bindCell_image]
    rcases htask with hold | hnew
    · exact hs.shown task hold answer image hanswer haccepted
    · obtain ⟨url, _, rfl⟩ := Option.map_eq_some_iff.mp (Option.mem_toList.mp hnew)
      cases hanswer

theorem loading_answered (hs : Loading W s) {i : ℕ} {task : Task URL Data}
    (htask : s.tasks[i]? = some task) (answer : Answer Data) :
    Loading W (s.finished W i task answer) := by
  refine ⟨?_, ?_, ?_, ?_⟩
  · rw [finished_list]
    exact hs.listed
  · intro c product hp
    rw [finished_product] at hp
    rw [finished_list]
    exact hs.bound c product hp
  · intro c product url hp hurl
    rw [finished_product] at hp
    unfold urlOf at hurl
    rw [finished_list] at hurl
    rw [map_cell_finished htask]
    exact hs.started c product url hp hurl
  · intro task' htask' answer' image hanswer haccepted
    rw [finished_tasks] at htask'
    rw [finished_image]
    rcases List.mem_or_eq_of_mem_set htask' with hold | rfl
    · have himage := hs.shown task' hold answer' image hanswer haccepted
      by_cases hc : task'.cell = task.cell
      · rw [if_pos hc]
        simp [himage]
      · rw [if_neg hc]
        exact himage
    · cases hanswer
      simp [haccepted]

theorem step_loading [DecidableEq Image] {F : Foundation} {e : Event Data}
    (hs : Loading W s) (h : step F W s e = some t) : Loading W t := by
  cases step_effect h with
  | listed hext hlisted => exact loading_listed hs hext hlisted
  | bound hr hlink => exact loading_bound hs _ hr hlink
  | answered htask hopen himage => exact loading_answered hs htask _

theorem run_loading [DecidableEq Image] {F : Foundation} {h : Heap Product}
    {es : List (Event Data)} (hrun : run (step F W) (opened URL Data Image h) es = some s) :
    Loading W s :=
  run_invariant _ (loading_opened W h) (fun _ _ _ _ ht hu => step_loading ht hu) hrun

theorem lastArrived_concat [DecidableEq Image] {F : Foundation} {h : Heap Product}
    {es : List (Event Data)} {e : Event Data}
    (ht : run (step F W) (opened URL Data Image h) es = some s)
    (hu : step F W s e = some t) (cell : ℕ) :
    lastArrived F W h (es ++ [e]) cell =
      ((arrived W s e).bind (fun a => if a.1 = cell then some a.2 else none)).or
        (lastArrived F W h es cell) := by
  unfold lastArrived
  rw [outputs_concat ht hu, List.filterMap_append, List.getLast?_append]
  congr 1
  cases harrived : arrived W s e with
  | none => rfl
  | some a =>
    by_cases hc : a.1 = cell
    · simp [hc]
    · simp [hc]

/-- A cell shows the picture that arrived for it last, whatever it is bound to. -/
theorem run_image [DecidableEq Image] {F : Foundation} {h : Heap Product}
    {es : List (Event Data)} (hrun : run (step F W) (opened URL Data Image h) es = some s)
    (cell : ℕ) : (s.cells cell).image = (lastArrived F W h es cell).map W.imageAt := by
  induction es using List.reverseRecOn generalizing s with
  | nil =>
    cases hrun
    rfl
  | append_singleton es e ih =>
    obtain ⟨u, hu, hus⟩ := run_concat_inv _ hrun
    rw [lastArrived_concat hu hus]
    have himage := ih hu
    cases step_effect hus with
    | listed hext hlisted => exact himage
    | bound hr hlink =>
      rw [bindCell_image]
      exact himage
    | @answered i task answer htask hopen hown =>
      rw [finished_image, himage]
      simp only [arrived, htask]
      cases haccepted : accepted W answer with
      | none => simp
      | some image =>
        have hasked : image = W.imageAt task.url := hown image haccepted
        by_cases hc : cell = task.cell
        · subst hc
          simp [hasked]
        · simp [hc, Ne.symm hc]

/-- Once all tasks are answered, a valid link without a picture has failed. -/
theorem latestFailed_of_quiet (hs : Loading W s) (hquiet : Quiet s) {cell : ℕ} {product : Ref}
    {url : URL} (hp : (s.cells cell).product = some product)
    (hurl : urlOf W s product = some url) (himage : (s.cells cell).image = none) :
    LatestFailed W s cell := by
  obtain ⟨started, hstarted, hcell⟩ := List.mem_map.mp (hs.started cell product url hp hurl)
  have hne : s.tasks.filter (fun task => task.cell = cell) ≠ [] :=
    List.ne_nil_of_mem (List.mem_filter.mpr ⟨hstarted, by simpa using hcell⟩)
  obtain ⟨task, hlatest⟩ : ∃ task, latestTask s cell = some task :=
    Option.ne_none_iff_exists'.mp (mt List.getLast?_eq_none_iff.mp hne)
  obtain ⟨htask, hof⟩ := List.mem_filter.mp (List.mem_of_getLast? hlatest)
  obtain ⟨answer, hanswer⟩ := Option.ne_none_iff_exists'.mp (hquiet task htask)
  refine ⟨task, answer, hlatest, hanswer, ?_⟩
  by_contra haccepted
  obtain ⟨image, haccepted⟩ := Option.ne_none_iff_exists'.mp haccepted
  have hshown := hs.shown task htask answer image hanswer haccepted
  rw [of_decide_eq_true hof] at hshown
  exact hshown himage

/-- With no download outstanding, a bound cell shows its own picture exactly when the
picture that arrived last, if one did, is that of its product. -/
theorem showsOwn_iff [DecidableEq Image] {F : Foundation} {h : Heap Product}
    {es : List (Event Data)} (hrun : run (step F W) (opened URL Data Image h) es = some s)
    (hquiet : Quiet s) {cell : ℕ} {product : Ref}
    (hp : (s.cells cell).product = some product) :
    ShowsOwn W s cell product ↔ ∀ asked, lastArrived F W h es cell = some asked →
      ∃ url, urlOf W s product = some url ∧ W.imageAt url = W.imageAt asked := by
  have himage := run_image hrun cell
  unfold ShowsOwn
  cases hlast : lastArrived F W h es cell with
  | none =>
    rw [hlast, Option.map_none] at himage
    refine iff_of_true (Or.inr ⟨himage, ?_⟩) (by simp)
    cases hurl : urlOf W s product with
    | none => exact Or.inl rfl
    | some url => exact Or.inr (latestFailed_of_quiet (run_loading hrun) hquiet hp hurl himage)
  | some asked =>
    rw [hlast, Option.map_some] at himage
    simp [himage, eq_comm]

/-- In every state of a run in which no download is outstanding the bound cells show
their own pictures, exactly when in each such state the picture that arrived last for a
bound cell is that of its product. -/
theorem cells_show_own_iff [DecidableEq Image] (F : Foundation) (W : Web URL Data Image)
    (h : Heap Product) (es : List (Event Data)) :
    AtEach (step F W) (fun _ s => CellsShowOwn W s) (opened URL Data Image h) es ↔
      AtEach (step F W) (LastArrivedOwn F W h) (opened URL Data Image h) es := by
  apply atEach_congr
  intro pre s hrun
  constructor
  · intro hown hquiet cell product hp
    exact (showsOwn_iff hrun hquiet hp).mp (hown hquiet cell product hp)
  · intro hlast hquiet cell product hp
    exact (showsOwn_iff hrun hquiet hp).mpr (hlast hquiet cell product hp)

/-- A web where a link that is not empty is valid, and the picture is its text. -/
def textWeb : Web String String String where
  url link := if link = "" then none else some link
  decoded data := some data
  imageAt url := url

def pictureAnswer (data : String) : Answer String :=
  ⟨some data, some ⟨some 200, some "image/png"⟩, none⟩

/-- A cell is bound to one product and then to another, and the download for the first
is the slower one: its picture stays on the second product. -/
theorem overtaken_picture_shown :
    ¬ AtEach (step asciiFoundation textWeb) (fun _ s => CellsShowOwn textWeb s)
      (opened String String String emptyHeap)
      [.list (.valueObserved (plainSnapshot [
          { key := "-L1", name := "Silver Ring", price := 40, displayPicture := "silver.png" },
          { key := "-L2", name := "Opal Ring", price := 90, displayPicture := "opal.png" }])),
        .cellForRowAt 0 0, .cellForRowAt 0 1, .finished 1 (pictureAnswer "opal.png"),
        .finished 0 (pictureAnswer "silver.png")] := by
  intro h
  have hquiet : ∀ answer answer' : Answer String, ∀ task ∈ [
      (⟨0, "silver.png", some answer⟩ : Task String String), ⟨0, "opal.png", some answer'⟩],
      task.answer ≠ none := by simp
  rcases h.last rfl (hquiet _ _) 0 1 rfl with ⟨url, hurl, himage⟩ | ⟨hnone, _⟩
  · have hopal : url = "opal.png" := Option.some.inj (hurl.symm.trans rfl)
    have hsilver : url = "silver.png" := Option.some.inj (himage.symm.trans rfl)
    exact absurd (hopal.symm.trans hsilver) (by decide)
  · cases hnone

end MiraclesAdmin.OwnPictures
