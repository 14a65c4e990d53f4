import Mathlib.Data.Nat.Digits.Defs
import MiraclesAdmin.SwiftText
import MiraclesAdmin.Transition

/-!
The texts of a price field. The delegate looks at inserted characters only, so the
field holds decimal digits of any script and what is left of an initial minus sign.
`Int(_:)` reads such a text exactly when its digits are ASCII, the sign stands in
front of a digit, and the number it denotes fits in 64 bits.
-/
namespace MiraclesAdmin.PriceTexts

open SwiftText Transition

/-- Typing or pasting over a range of the field. -/
structure Replacement where
  location : ℕ
  length : ℕ
  string : String

/-- The replacement is made if the delegate accepts its characters. -/
def replace (text : String) (r : Replacement) : Option String :=
  guarded (shouldChangeCharacters r.string = true)
    (some (replaceCharacters text r.location r.length r.string))

/-- The texts that accepted replacements make of an initial text. -/
def EditedFrom (initial text : String) : Prop :=
  ∃ replacements, run replace initial replacements = some text

theorem EditedFrom.refl (text : String) : EditedFrom text text := ⟨[], rfl⟩

theorem EditedFrom.trans {initial text edited : String} (h : EditedFrom initial text)
    (hedited : EditedFrom text edited) : EditedFrom initial edited := by
  obtain ⟨rs, hrs⟩ := h
  obtain ⟨rs', hrs'⟩ := hedited
  exact ⟨rs ++ rs', (run_append_of_eq replace hrs rs').trans hrs'⟩

theorem editedFrom_replaceCharacters {text string : String} {location length : ℕ}
    (h : shouldChangeCharacters string = true) :
    EditedFrom text (replaceCharacters text location length string) :=
  ⟨[⟨location, length, string⟩],
    run_concat replace (run_nil replace text) (guarded_eq_some.mpr ⟨h, rfl⟩)⟩

/-- The value of a decimal digit of any script. -/
def decimalValue (c : Char) : ℕ :=
  ((decimalZeros.find? (fun z => z ≤ c.toNat && c.toNat < z + 10)).map
    (fun z => c.toNat - z)).getD 0

/-- The number that a sequence of decimal digits denotes. -/
def magnitude (ds : List Char) : ℕ := Nat.ofDigits 10 (ds.reverse.map decimalValue)

/-- A numeral: at least one decimal digit, after at most one minus sign. -/
def IsNumeral : List Char → Prop
  | '-' :: ds => ds ≠ [] ∧ ∀ c ∈ ds, isDecimalDigit c = true
  | ds => ds ≠ [] ∧ ∀ c ∈ ds, isDecimalDigit c = true

/-- The number a numeral denotes. -/
def number : List Char → ℤ
  | '-' :: ds => -(magnitude ds : ℤ)
  | ds => magnitude ds

def Denotes (text : String) (n : ℤ) : Prop := IsNumeral text.toList ∧ number text.toList = n

/-- What `Int(_:)` asks of a text in the field: ASCII digits, a sign only in front of
a digit, and a number of 64 bits. -/
structure Readable (text : String) : Prop where
  ascii : ∀ c ∈ text.toList, c.toNat < 128
  sign : text ≠ "-" ∧ '-' ∉ text.toList.tail
  fits : -(intLimit : ℤ) ≤ number text.toList ∧ number text.toList < intLimit

/-- All the field holds: decimal digits, and minus signs of the initial text. -/
def PriceCharacters (text : String) : Prop :=
  ∀ c ∈ text.toList, isDecimalDigit c = true ∨ c = '-'

theorem priceCharacters_replace {text replaced : String} {r : Replacement}
    (h : PriceCharacters text) (hr : replace text r = some replaced) :
    PriceCharacters replaced := by
  obtain ⟨hstring, hreplaced⟩ := guarded_eq_some.mp hr
  cases hreplaced
  intro c hc
  unfold replaceCharacters at hc
  rw [String.toList_ofList, List.mem_append, List.mem_append] at hc
  rcases hc with (hkept | hinserted) | hkept
  · exact h c (List.mem_of_mem_take hkept)
  · exact Or.inl (List.all_eq_true.mp hstring c hinserted)
  · exact h c (List.mem_of_mem_drop hkept)

theorem EditedFrom.priceCharacters {initial text : String} (h : EditedFrom initial text)
    (hinitial : PriceCharacters initial) : PriceCharacters text := by
  obtain ⟨replacements, hrun⟩ := h
  exact run_invariant replace hinitial (fun _ _ _ _ => priceCharacters_replace) hrun

def IsAsciiDigit (c : Char) : Prop := 48 ≤ c.toNat ∧ c.toNat ≤ 57

theorem isDecimalDigit_of_ascii {c : Char} (h : IsAsciiDigit c) : isDecimalDigit c = true := by
  obtain ⟨hlow, hhigh⟩ := h
  refine List.any_eq_true.mpr ⟨0x30, by simp [decimalZeros], ?_⟩
  simp only [Bool.and_eq_true, decide_eq_true_eq]
  omega

/-- The only decimal digits among the ASCII characters are the ASCII digits. -/
theorem ascii_of_isDecimalDigit {c : Char} (h : isDecimalDigit c = true) (hc : c.toNat < 128) :
    IsAsciiDigit c := by
  have hzeros : ∀ z ∈ decimalZeros, z = 0x30 ∨ 128 ≤ z := by decide
  obtain ⟨z, hz, hrange⟩ := List.any_eq_true.mp h
  simp only [Bool.and_eq_true, decide_eq_true_eq] at hrange
  have hzero := hzeros z hz
  unfold IsAsciiDigit
  omega

theorem decimalValue_ascii {c : Char} (h : IsAsciiDigit c) : decimalValue c = c.toNat - 48 := by
  obtain ⟨hlow, hhigh⟩ := h
  have hnext : c.toNat < 48 + 10 := by omega
  have hzeros : decimalZeros = 48 :: decimalZeros.tail := rfl
  unfold decimalValue
  rw [hzeros, List.find?_cons]
  simp only [hlow, hnext, decide_true, Bool.and_self, Option.map_some, Option.getD_some]

theorem digitValue_eq_some_iff {c : Char} {d : ℕ} :
    digitValue c = some d ↔ IsAsciiDigit c ∧ decimalValue c = d := by
  have hrange : ('0' ≤ c ∧ c ≤ '9') ↔ IsAsciiDigit c := Iff.rfl
  unfold digitValue
  by_cases h : IsAsciiDigit c
  · rw [if_pos (hrange.mpr h), decimalValue_ascii h, Option.some_inj]
    exact ⟨fun heq => ⟨h, heq⟩, fun heq => heq.2⟩
  · rw [if_neg (fun hc => h (hrange.mp hc))]
    exact iff_of_false (by simp) (fun heq => h heq.1)

@[simp] theorem magnitude_nil : magnitude [] = 0 := rfl

theorem magnitude_append (ds : List Char) (c : Char) :
    magnitude (ds ++ [c]) = 10 * magnitude ds + decimalValue c := by
  unfold magnitude
  rw [List.reverse_append, List.reverse_singleton, List.singleton_append, List.map_cons,
    Nat.ofDigits_cons]
  omega

/-- Reading digit after digit computes the number the digits denote. -/
theorem foldlM_digitValue_eq_some_iff {ds : List Char} {n : ℕ} :
    ds.foldlM (fun n c => (digitValue c).map (fun d => 10 * n + d)) 0 = some n ↔
      (∀ c ∈ ds, IsAsciiDigit c) ∧ magnitude ds = n := by
  induction ds using List.reverseRecOn generalizing n with
  | nil => simp
  | append_singleton ds c ih =>
    simp only [List.foldlM_append, List.foldlM_cons, List.foldlM_nil, Option.bind_eq_bind,
      Option.bind_eq_some_iff, ih, Option.map_eq_some_iff, digitValue_eq_some_iff,
      magnitude_append, List.mem_append, List.mem_singleton, Option.pure_def, Option.some_inj]
    constructor
    · intro hread
      obtain ⟨_, ⟨hds, rfl⟩, _, ⟨_, ⟨hc, rfl⟩, rfl⟩, rfl⟩ := hread
      refine ⟨?_, rfl⟩
      intro d hd
      rcases hd with hd | rfl
      · exact hds d hd
      · exact hc
    · intro hdigits
      obtain ⟨hall, rfl⟩ := hdigits
      exact ⟨_, ⟨fun d hd => hall d (Or.inl hd), rfl⟩, _, ⟨_, ⟨hall c (Or.inr rfl), rfl⟩, rfl⟩, rfl⟩

theorem digitsValue_eq_some_iff {ds : List Char} {n : ℕ} :
    digitsValue ds = some n ↔ ds ≠ [] ∧ (∀ c ∈ ds, IsAsciiDigit c) ∧ magnitude ds = n := by
  cases ds with
  | nil => simp [digitsValue]
  | cons c ds =>
    unfold digitsValue
    rw [foldlM_digitValue_eq_some_iff]
    simp

theorem priceCharacters_empty : PriceCharacters "" := by
  intro c hc
  cases hc

theorem toList_stringOfInt (n : ℤ) : (stringOfInt n).toList =
    if 0 ≤ n then Nat.toDigits 10 n.toNat else '-' :: Nat.toDigits 10 (-n).toNat := by
  unfold stringOfInt
  rw [Int.toString_eq_repr, Int.repr_eq_if]
  split
  · exact Nat.toList_repr
  · rw [String.toList_append, Nat.toList_repr]
    rfl

theorem ascii_of_isDigit {c : Char} (h : c.isDigit = true) : IsAsciiDigit c := by
  have hrange : 48 ≤ c.val ∧ c.val ≤ 57 := by simpa [Char.isDigit] using h
  exact hrange

theorem ascii_toDigits {n : ℕ} {c : Char} (hc : c ∈ Nat.toDigits 10 n) : IsAsciiDigit c :=
  ascii_of_isDigit (Nat.isDigit_of_mem_toDigits (by decide) (by decide) hc)

theorem priceCharacters_stringOfInt (n : ℤ) : PriceCharacters (stringOfInt n) := by
  intro c hc
  rw [toList_stringOfInt] at hc
  split at hc
  · exact Or.inl (isDecimalDigit_of_ascii (ascii_toDigits hc))
  · rcases List.mem_cons.mp hc with rfl | hdigit
    · exact Or.inr rfl
    · exact Or.inl (isDecimalDigit_of_ascii (ascii_toDigits hdigit))

/-- Digits alone are a numeral without a sign. -/
theorem numeral_of_digits {ds : List Char} (hne : ds ≠ [])
    (h : ∀ c ∈ ds, isDecimalDigit c = true) : IsNumeral ds ∧ number ds = magnitude ds := by
  cases ds with
  | nil => exact absurd rfl hne
  | cons c ds =>
    have hc : c ≠ '-' := by
      intro heq
      subst heq
      exact absurd (h '-' (by simp)) (by decide)
    unfold IsNumeral number
    split
    · rename_i heq
      exact absurd (List.cons.inj heq).1 hc
    · exact ⟨⟨hne, h⟩, rfl⟩

/-- Without a sign the field holds digits, and `Int(_:)` wants them to be ASCII. -/
theorem ascii_iff {ds : List Char} (h : ∀ c ∈ ds, isDecimalDigit c = true ∨ c = '-') :
    (∀ c ∈ ds, IsAsciiDigit c) ↔ (∀ c ∈ ds, c.toNat < 128) ∧ '-' ∉ ds := by
  constructor
  · intro hascii
    refine ⟨fun c hc => Nat.lt_of_le_of_lt (hascii c hc).2 (by decide), ?_⟩
    intro hsign
    exact absurd (hascii '-' hsign).1 (by decide)
  · intro hboth c hc
    obtain ⟨hascii, hsign⟩ := hboth
    rcases h c hc with hdigit | rfl
    · exact ascii_of_isDecimalDigit hdigit (hascii c hc)
    · exact absurd hc hsign

section Signed
variable {text : String} {ds : List Char}

theorem intOfString_signed (h : text.toList = '-' :: ds) : intOfString text =
    (digitsValue ds).bind (fun n => if n ≤ intLimit then some (-(n : ℤ)) else none) := by
  unfold intOfString
  rw [h]
  rfl

theorem readable_signed_iff (h : text.toList = '-' :: ds) :
    Readable text ↔ ds ≠ [] ∧ ((∀ c ∈ ds, c.toNat < 128) ∧ '-' ∉ ds) ∧ magnitude ds ≤ intLimit := by
  have halone : text = "-" ↔ ds = [] := by
    rw [← String.toList_inj, h]
    simp
  have hnumber : number text.toList = -(magnitude ds : ℤ) := by rw [h]; rfl
  constructor
  · intro hreadable
    obtain ⟨hascii, hsign, hfits⟩ := hreadable
    rw [h] at hascii hsign
    rw [hnumber] at hfits
    refine ⟨fun hnil => hsign.1 (halone.mpr hnil), ⟨?_, hsign.2⟩, ?_⟩
    · intro c hc
      exact hascii c (by simp [hc])
    · omega
  · intro hparts
    obtain ⟨hne, ⟨hascii, hsign⟩, hfits⟩ := hparts
    refine ⟨?_, ⟨fun hminus => hne (halone.mp hminus), ?_⟩, ?_⟩
    · rw [h]
      intro c hc
      rcases List.mem_cons.mp hc with rfl | hc
      · decide
      · exact hascii c hc
    · rw [h]
      exact hsign
    · rw [hnumber]
      have hpos : (0 : ℤ) < intLimit := by decide
      omega

end Signed

section Unsigned
variable {text : String} {c : Char} {ds : List Char}

theorem number_unsigned (hc : c ≠ '-') : number (c :: ds) = magnitude (c :: ds) := by
  unfold number
  split
  · rename_i heq
    exact absurd (List.cons.inj heq).1 hc
  · rfl

theorem intOfString_unsigned (h : text.toList = c :: ds) (hminus : c ≠ '-') (hplus : c ≠ '+') :
    intOfString text = (digitsValue (c :: ds)).bind
      (fun n => if n < intLimit then some (n : ℤ) else none) := by
  unfold intOfString
  rw [h]
  split
  · rename_i heq
    exact absurd (List.cons.inj heq).1 hminus
  · rename_i heq
    exact absurd (List.cons.inj heq).1 hplus
  · rfl

theorem readable_unsigned_iff (h : text.toList = c :: ds) (hc : c ≠ '-') :
    Readable text ↔ ((∀ d ∈ c :: ds, d.toNat < 128) ∧ '-' ∉ c :: ds) ∧
      magnitude (c :: ds) < intLimit := by
  have hnumber : number text.toList = magnitude (c :: ds) := by rw [h, number_unsigned hc]
  have halone : text ≠ "-" := by
    intro heq
    subst heq
    exact hc (List.cons.inj h).1.symm
  constructor
  · intro hreadable
    obtain ⟨hascii, hsign, hfits⟩ := hreadable
    rw [h] at hascii hsign
    rw [hnumber] at hfits
    refine ⟨⟨hascii, ?_⟩, by omega⟩
    simpa [Ne.symm hc] using hsign.2
  · intro hparts
    obtain ⟨⟨hascii, hsign⟩, hfits⟩ := hparts
    refine ⟨h ▸ hascii, ⟨halone, ?_⟩, ?_⟩
    · rw [h]
      exact fun hmem => hsign (List.mem_cons_of_mem _ hmem)
    · rw [hnumber]
      omega

end Unsigned

/-- `Int(_:)` reads a text of the field exactly when it is readable, as its number. -/
theorem intOfString_eq_some_iff {text : String} {n : ℤ} (hchars : PriceCharacters text)
    (hne : text ≠ "") :
    intOfString text = some n ↔ Readable text ∧ number text.toList = n := by
  have hcons : text.toList ≠ [] := fun hnil => hne (String.toList_eq_nil_iff.mp hnil)
  unfold PriceCharacters at hchars
  cases hlist : text.toList with
  | nil => exact absurd hlist hcons
  | cons c ds =>
    rw [hlist] at hchars
    by_cases hc : c = '-'
    · subst hc
      have hds := ascii_iff (fun d hd => hchars d (List.mem_cons_of_mem _ hd))
      rw [intOfString_signed hlist, readable_signed_iff hlist, Option.bind_eq_some_iff]
      simp only [digitsValue_eq_some_iff, hds, Option.ite_none_right_eq_some, Option.some_inj,
        number]
      constructor
      · intro hread
        obtain ⟨_, ⟨hnil, hascii, rfl⟩, hfits, hn⟩ := hread
        exact ⟨⟨hnil, hascii, hfits⟩, hn⟩
      · intro hparts
        obtain ⟨⟨hnil, hascii, hfits⟩, hn⟩ := hparts
        exact ⟨_, ⟨hnil, hascii, rfl⟩, hfits, hn⟩
    · have hplus : c ≠ '+' := by
        intro heq
        subst heq
        rcases hchars '+' (by simp) with hdigit | hminus
        · exact absurd hdigit (by decide)
        · exact hc hminus
      rw [intOfString_unsigned hlist hc hplus, readable_unsigned_iff hlist hc,
        Option.bind_eq_some_iff]
      simp only [digitsValue_eq_some_iff, ascii_iff hchars, Option.ite_none_right_eq_some,
        Option.some_inj, number_unsigned hc]
      constructor
      · intro hread
        obtain ⟨_, ⟨_, hascii, rfl⟩, hfits, hn⟩ := hread
        exact ⟨⟨hascii, hfits⟩, hn⟩
      · intro hparts
        obtain ⟨⟨hascii, hfits⟩, hn⟩ := hparts
        exact ⟨_, ⟨List.cons_ne_nil c ds, hascii, rfl⟩, hfits, hn⟩

/-- A readable text of the field is a numeral. -/
theorem isNumeral_of_readable {text : String} (hchars : PriceCharacters text) (hne : text ≠ "")
    (h : Readable text) : IsNumeral text.toList := by
  have hcons : text.toList ≠ [] := fun hnil => hne (String.toList_eq_nil_iff.mp hnil)
  have hdigits : ∀ ds : List Char, (∀ c ∈ ds, c ∈ text.toList) → '-' ∉ ds →
      ∀ c ∈ ds, isDecimalDigit c = true := by
    intro ds hds hsign c hc
    rcases hchars c (hds c hc) with hdigit | rfl
    · exact hdigit
    · exact absurd hc hsign
  obtain ⟨halone, hsign⟩ := h.sign
  cases hlist : text.toList with
  | nil => exact absurd hlist hcons
  | cons c ds =>
    rw [hlist] at hsign hdigits
    by_cases hc : c = '-'
    · subst hc
      refine ⟨?_, hdigits ds (fun c hc => List.mem_cons_of_mem _ hc) hsign⟩
      intro heq
      subst heq
      exact halone (String.toList_inj.mp hlist)
    · have hunsigned : '-' ∉ c :: ds := by
        rw [List.mem_cons, not_or]
        exact ⟨Ne.symm hc, hsign⟩
      exact (numeral_of_digits (List.cons_ne_nil c ds)
        (hdigits (c :: ds) (fun _ hd => hd) hunsigned)).1

/-- `Int(_:)` reads the number a text of the field denotes exactly when it is readable. -/
theorem reads_number_iff {text : String} (hchars : PriceCharacters text) (hne : text ≠ "") :
    (∃ n, intOfString text = some n ∧ Denotes text n) ↔ Readable text := by
  constructor
  · intro hreads
    obtain ⟨n, hn, _⟩ := hreads
    exact ((intOfString_eq_some_iff hchars hne).mp hn).1
  · intro hreadable
    exact ⟨_, (intOfString_eq_some_iff hchars hne).mpr ⟨hreadable, rfl⟩,
      isNumeral_of_readable hchars hne hreadable, rfl⟩

end MiraclesAdmin.PriceTexts
