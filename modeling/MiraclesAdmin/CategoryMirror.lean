import MiraclesAdmin.ProductList

/-!
The list screen as a mirror of its category. The observer's closure does all of its
work inside a conditional cast, which a null snapshot fails. A nonempty snapshot is
mirrored whatever came before it; an empty one never is, since either products of
an earlier snapshot are still listed or the loading HUD is still shown.
-/
namespace MiraclesAdmin.CategoryMirror

open Transition ObjectHeap ProductRecords ProductList ListScreen

/-- A value event of the category. -/
def observe (s : ListScreen) (snap : CategorySnapshot) : Option ListScreen :=
  s.valueObserved snap.value

/-- The list shows exactly the records of the snapshot, loaded, without the HUD. -/
structure Mirrors (s : ListScreen) (snap : CategorySnapshot) : Prop where
  products : List.Forall₂ (fun e p => p.key = e.1 ∧ Describes e.2 p) snap.records
    (s.heap.values s.table.productsArray)
  reloaded : s.table.loadedRows = s.table.productsArray
  hudDismissed : s.hudShown = false

/-- After each event of the sequence the closure has run and the list mirrors it. -/
def MirrorsEach (h : Heap Product) (snaps : List CategorySnapshot) : Prop :=
  ∀ pre snap, pre ++ [snap] <+: snaps →
    ∃ t, run observe (viewDidLoad h) (pre ++ [snap]) = some t ∧ Mirrors t snap

/-- Without search events the full list is loaded, and the HUD is shown until the
first product is listed. -/
structure Browsing (s : ListScreen) : Prop where
  inactive : s.table.searchActive = false
  waiting : s.hudShown = true ∨ s.table.productsArray ≠ []

theorem browsing_viewDidLoad (h : Heap Product) : Browsing (viewDidLoad h) :=
  ⟨rfl, Or.inl rfl⟩

theorem observe_empty (s : ListScreen) {snap : CategorySnapshot} (h : snap.records = []) :
    observe s snap = some s := by
  unfold observe CategorySnapshot.value
  rw [h]
  exact s.valueObserved_null

/-- A nonempty snapshot is mirrored from every browsing state. -/
theorem observe_nonempty {s : ListScreen} (hs : Browsing s) {snap : CategorySnapshot}
    (hne : snap.records ≠ []) :
    ∃ t, observe s snap = some t ∧ Browsing t ∧ Mirrors t snap := by
  obtain ⟨heap, refs, hobs, _, _, hvalues⟩ := s.valueObserved_snapshot snap hne
  have hrefs : refs ≠ [] := by
    intro hnil
    rw [hnil, Heap.values_nil] at hvalues
    exact hne (snap.products_eq_nil.mp hvalues.symm)
  refine ⟨_, hobs, ⟨hs.inactive, Or.inr hrefs⟩, ?_, ?_, rfl⟩
  · change List.Forall₂ _ snap.records (heap.values refs)
    rw [hvalues]
    exact snap.products_describe
  · simp [SampleTable.reloadData, SampleTable.dataSource, hs.inactive]

/-- No browsing state mirrors the empty category. -/
theorem not_mirrors_empty {s : ListScreen} (hs : Browsing s) {snap : CategorySnapshot}
    (h : snap.records = []) : ¬ Mirrors s snap := by
  intro hm
  rcases hs.waiting with hhud | hlisted
  · rw [hm.hudDismissed] at hhud
    exact Bool.noConfusion hhud
  · have hproducts := hm.products
    rw [h, List.forall₂_nil_left_iff, Heap.values_eq_nil] at hproducts
    exact hlisted hproducts

theorem observe_browsing {s : ListScreen} (hs : Browsing s) (snap : CategorySnapshot) :
    ∃ t, observe s snap = some t ∧ Browsing t ∧ (Mirrors t snap ↔ snap.records ≠ []) := by
  by_cases h : snap.records = []
  · exact ⟨s, observe_empty s h, hs, iff_of_false (not_mirrors_empty hs h) (not_not.mpr h)⟩
  · obtain ⟨t, ht, htb, hm⟩ := observe_nonempty hs h
    exact ⟨t, ht, htb, iff_of_true hm h⟩

/-- The closure never traps on well-formed snapshots. -/
theorem run_browsing (h : Heap Product) (snaps : List CategorySnapshot) :
    ∃ t, run observe (viewDidLoad h) snaps = some t ∧ Browsing t := by
  induction snaps using List.reverseRecOn with
  | nil => exact ⟨viewDidLoad h, rfl, browsing_viewDidLoad h⟩
  | append_singleton snaps snap ih =>
    obtain ⟨t, ht, htb⟩ := ih
    obtain ⟨u, hu, hub, _⟩ := observe_browsing htb snap
    exact ⟨u, run_concat observe ht hu, hub⟩

/-- A sequence of value events is mirrored throughout exactly when none of its
snapshots is empty. -/
theorem mirrors_iff_nonempty (h : Heap Product) (snaps : List CategorySnapshot) :
    MirrorsEach h snaps ↔ ∀ snap ∈ snaps, snap.records ≠ [] := by
  have hlast : ∀ pre snap, ∃ t, run observe (viewDidLoad h) (pre ++ [snap]) = some t ∧
      (Mirrors t snap ↔ snap.records ≠ []) := by
    intro pre snap
    obtain ⟨s, hs, hsb⟩ := run_browsing h pre
    obtain ⟨t, ht, _, hiff⟩ := observe_browsing hsb snap
    exact ⟨t, run_concat observe hs ht, hiff⟩
  constructor
  · intro hm snap hsnap
    obtain ⟨pre, post, rfl⟩ := List.append_of_mem hsnap
    obtain ⟨t, ht, hiff⟩ := hlast pre snap
    obtain ⟨u, hu, hmu⟩ := hm pre snap ⟨post, by simp⟩
    rw [ht] at hu
    cases hu
    exact hiff.mp hmu
  · intro hne pre snap hp
    obtain ⟨t, ht, hiff⟩ := hlast pre snap
    exact ⟨t, ht, hiff.mpr (hne snap (hp.subset (by simp)))⟩

/-- The last product of the category is deleted: its row stays in the list. -/
theorem deleted_product_stays_listed :
    ¬ MirrorsEach emptyHeap
      [.ofProducts [{ key := "-L1", name := "Silver Ring", price := 40 }] (by decide),
        .ofProducts [] (by decide)] := by
  intro h
  obtain ⟨t, ht, hm⟩ := h [_] _ List.prefix_rfl
  have hlength := hm.products.length_eq
  cases ht
  exact absurd hlength (by decide)

end MiraclesAdmin.CategoryMirror
