import Mathlib.Algebra.Order.Ring.Int
import Mathlib.Data.List.TakeWhile
import Mathlib.Tactic.IntervalCases

/-!
# Machinery/Decimal — integers in decimal notation

An integer is written with a sign and without leading zeros, and read with an optional sign.
`value_scan_text` says that it is read as it was written, whatever comes after it.
-/

namespace Decimal

/-- The decimal notation of an integer. -/
def text (v : ℤ) : List Char :=
  if v < 0 then '-' :: Nat.toDigits 10 v.natAbs else Nat.toDigits 10 v.natAbs

/-- A number as it is read: its sign and its digits. -/
structure Numeral where
  negative : Bool
  digits : List Char
  deriving DecidableEq, Repr

/-- The value of a numeral. -/
def Numeral.value (n : Numeral) : ℤ :=
  if n.negative then -(Nat.ofDigitChars 10 n.digits 0 : ℕ) else (Nat.ofDigitChars 10 n.digits 0 : ℕ)

/-- An optional sign and the digits that follow, and the rest. -/
def scan (text : List Char) : Numeral × List Char :=
  let (negative, text) := match text with
    | '-' :: text => (true, text)
    | '+' :: text => (false, text)
    | text => (false, text)
  (⟨negative, text.takeWhile Char.isDigit⟩, text.dropWhile Char.isDigit)

/-- The texts of an integer: digits after an optional sign. -/
inductive Spells : ℤ → List Char → Prop
  | plain {ds : List Char} : ds ≠ [] → (∀ c ∈ ds, c.isDigit = true) →
      Spells (Nat.ofDigitChars 10 ds 0 : ℕ) ds
  | plus {ds : List Char} : ds ≠ [] → (∀ c ∈ ds, c.isDigit = true) →
      Spells (Nat.ofDigitChars 10 ds 0 : ℕ) ('+' :: ds)
  | minus {ds : List Char} : ds ≠ [] → (∀ c ∈ ds, c.isDigit = true) →
      Spells (-(Nat.ofDigitChars 10 ds 0 : ℕ)) ('-' :: ds)

variable {v w : ℤ} {n : ℕ} {c : Char} {rest : List Char}

/-- **What is read spells its value.** -/
theorem spells_scan {text : List Char} (h : (scan text).1.digits ≠ []) :
    ∃ t, Spells (scan text).1.value t ∧ text = t ++ (scan text).2 := by
  have hdigits : ∀ text : List Char, ∀ c ∈ text.takeWhile Char.isDigit, c.isDigit = true :=
    fun text c hc => List.mem_takeWhile_imp hc
  have hsplit : ∀ text : List Char, text.takeWhile Char.isDigit ++ text.dropWhile Char.isDigit = text :=
    fun text => List.takeWhile_append_dropWhile
  cases text with
  | nil => exact absurd rfl h
  | cons c text =>
    obtain rfl | hminus := eq_or_ne c '-'
    · exact ⟨_, .minus h (hdigits text), congrArg _ (hsplit text).symm⟩
    · obtain rfl | hplus := eq_or_ne c '+'
      · exact ⟨_, .plus h (hdigits text), congrArg _ (hsplit text).symm⟩
      · have hscan : scan (c :: text) = (⟨false, (c :: text).takeWhile Char.isDigit⟩,
            (c :: text).dropWhile Char.isDigit) := by simp [scan, hminus, hplus]
        rw [hscan] at h ⊢
        exact ⟨_, .plain h (hdigits _), (hsplit _).symm⟩

/-- An integer is spelled with a digit or a sign in front. -/
theorem Spells.head {t : List Char} (h : Spells v t) :
    ∃ c cs, t = c :: cs ∧ (c.isDigit = true ∨ c = '+' ∨ c = '-') := by
  cases h with
  | plain hne hds =>
    obtain ⟨c, cs, rfl⟩ := List.exists_cons_of_ne_nil hne
    exact ⟨c, cs, rfl, .inl (hds c List.mem_cons_self)⟩
  | plus => exact ⟨_, _, rfl, .inr (.inl rfl)⟩
  | minus => exact ⟨_, _, rfl, .inr (.inr rfl)⟩

theorem isDigit_of_mem (h : c ∈ Nat.toDigits 10 n) : c.isDigit = true :=
  Nat.isDigit_of_mem_toDigits (by decide) (by decide) h

theorem text_of_nonneg (h : 0 ≤ v) : text v = Nat.toDigits 10 v.natAbs := if_neg (not_lt.mpr h)

theorem text_of_neg (h : v < 0) : text v = '-' :: Nat.toDigits 10 v.natAbs := if_pos h

theorem text_ne_nil (v : ℤ) : text v ≠ [] := by
  rw [text]
  split
  · exact List.cons_ne_nil _ _
  · exact Nat.toDigits_ne_nil

theorem mem_text (h : c ∈ text v) : c = '-' ∨ c.isDigit = true := by
  rw [text] at h
  split at h
  · rcases List.mem_cons.mp h with rfl | h
    · exact .inl rfl
    · exact .inr (isDigit_of_mem h)
  · exact .inr (isDigit_of_mem h)

theorem toNat_lt_hundred (h : c ∈ text v) : c.toNat < 100 := by
  rcases mem_text h with rfl | hdigit
  · decide
  · rw [Char.isDigit, Bool.and_eq_true, decide_eq_true_iff, decide_eq_true_iff] at hdigit
    have hhigh : c.toNat ≤ 57 := UInt32.le_iff_toNat_le.mp hdigit.2
    omega

/-- Digits in front of something else. -/
theorem takeWhile_digits (ds : List Char) (hds : ∀ c ∈ ds, c.isDigit = true)
    (hrest : ∀ c ∈ rest.head?, c.isDigit = false) :
    (ds ++ rest).takeWhile Char.isDigit = ds ∧ (ds ++ rest).dropWhile Char.isDigit = rest := by
  induction ds with
  | nil =>
    cases rest with
    | nil => exact ⟨rfl, rfl⟩
    | cons c rest =>
      have hc := hrest c rfl
      simp [hc]
  | cons d ds ih =>
    obtain ⟨hd, hds⟩ := List.forall_mem_cons.mp hds
    simpa [hd] using ih hds

/-- **An integer is read as it was written.** -/
theorem scan_text (v : ℤ) {rest : List Char} (hrest : ∀ c ∈ rest.head?, c.isDigit = false) :
    scan (text v ++ rest) = (⟨decide (v < 0), Nat.toDigits 10 v.natAbs⟩, rest) := by
  obtain ⟨htake, hdrop⟩ := takeWhile_digits (Nat.toDigits 10 v.natAbs)
    (fun c hc => isDigit_of_mem hc) hrest
  by_cases hv : v < 0
  · simp [text_of_neg hv, scan, htake, hdrop, hv]
  · obtain ⟨d, ds, hds⟩ := List.exists_cons_of_ne_nil (Nat.toDigits_ne_nil (n := v.natAbs) (b := 10))
    have hd : d.isDigit = true := isDigit_of_mem (n := v.natAbs) (by rw [hds]; exact List.mem_cons_self)
    rw [text_of_nonneg (not_lt.mp hv)]
    rw [hds] at htake hdrop ⊢
    rw [List.cons_append] at htake hdrop ⊢
    have hminus : d ≠ '-' := by
      rintro rfl
      exact absurd hd (by decide)
    have hplus : d ≠ '+' := by
      rintro rfl
      exact absurd hd (by decide)
    simp [scan, hminus, hplus, htake, hdrop, hv]

theorem value_text (v : ℤ) : (⟨decide (v < 0), Nat.toDigits 10 v.natAbs⟩ : Numeral).value = v := by
  rw [Numeral.value, Nat.ofDigitChars_ten_toDigits]
  by_cases hv : v < 0
  · rw [if_pos (decide_eq_true hv)]
    omega
  · rw [if_neg (by simp [hv])]
    omega

theorem toNat_digitChar (h : n < 10) : n.digitChar.toNat = 48 + n := by
  interval_cases n <;> rfl

/-- Numbers of one digit and of two. -/
theorem text_of_lt_hundred (h : n < 100) :
    text n = if n < 10 then [n.digitChar] else [(n / 10).digitChar, (n % 10).digitChar] := by
  rw [text_of_nonneg (Int.natCast_nonneg n), Int.natAbs_natCast]
  split
  · next hn => exact Nat.toDigits_of_lt_base hn
  · next hn =>
    rw [Nat.toDigits_of_base_le (by decide) (by omega), Nat.toDigits_of_lt_base (by omega)]
    rfl

/-- Only 53 is written with its own character in front. -/
theorem eq_of_head (h : (text v).head? = some c) (hc : (c.toNat : ℤ) = v) : v = 53 := by
  have hmem : c ∈ text v := List.mem_of_mem_head? (by rw [h]; rfl)
  rcases mem_text hmem with rfl | hdigit
  · have hv : v = (45 : ℕ) := hc.symm
    rw [hv, text_of_lt_hundred (by decide)] at h
    exact absurd (Option.some.inj h) (by decide)
  · rw [Char.isDigit, Bool.and_eq_true, decide_eq_true_iff, decide_eq_true_iff] at hdigit
    have hlow : 48 ≤ c.toNat := UInt32.le_iff_toNat_le.mp hdigit.1
    have hhigh : c.toNat ≤ 57 := UInt32.le_iff_toNat_le.mp hdigit.2
    -- the character is the first of two digits
    rw [← hc, text_of_lt_hundred (by omega), if_neg (by omega)] at h
    have hfirst : 48 + c.toNat / 10 = c.toNat := by
      rw [← toNat_digitChar (by omega)]
      exact congrArg Char.toNat (Option.some.inj h)
    omega

end Decimal
