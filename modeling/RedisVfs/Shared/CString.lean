import Mathlib.Data.List.TakeWhile
import Mathlib.Data.Nat.Digits.Defs

set_option autoImplicit false

namespace CString

/-- A C string is the list of its characters before the terminating NUL. -/
abbrev Text := List Char

/-- `strncmp(a, b, n) == 0`: both strings end at their terminator. -/
def strncmpEq : Text → Text → Nat → Bool
  | _, _, 0 => true
  | [], [], _ + 1 => true
  | [], _ :: _, _ + 1 => false
  | _ :: _, [], _ + 1 => false
  | a :: as, b :: bs, n + 1 => a == b && strncmpEq as bs n

theorem strncmpEq_iff (a b : Text) (n : Nat) :
    strncmpEq a b n = true ↔ a.take n = b.take n := by
  induction n generalizing a b with
  | zero => simp [strncmpEq]
  | succ n ih => cases a <;> cases b <;> simp [strncmpEq, ih]

theorem strncmpEq_prefix (word rest name : Text) :
    strncmpEq (word ++ rest) name word.length = true ↔ word <+: name := by
  rw [strncmpEq_iff, List.take_left, List.prefix_iff_eq_take]

def LONG_MAX : Int := 2 ^ 63 - 1
def LONG_MIN : Int := -2 ^ 63

def clampLong (value : Int) : Int := max LONG_MIN (min LONG_MAX value)

def isSpace (c : Char) : Bool := c == ' ' || ('\t' ≤ c && c ≤ '\r')

def leadingNumber (text : Text) : Int := (Nat.ofDigitChars 10 (text.takeWhile Char.isDigit) 0 : Nat)

/-- `strtol(text, NULL, 10)`. -/
def strtol (text : Text) : Int :=
  match text.dropWhile isSpace with
  | '-' :: rest => clampLong (-leadingNumber rest)
  | '+' :: rest => clampLong (leadingNumber rest)
  | rest => clampLong (leadingNumber rest)

def decimal (n : Nat) : Text := Nat.toDigits 10 n

def unsigned (value : Int) : Nat := (value % 2 ^ 64).toNat

def printLu (value : Int) : Text := decimal (unsigned value)

def printLd (value : Int) : Text :=
  if value < 0 then '-' :: decimal (-value).toNat else decimal value.toNat

/-- A `long` returned by a function that has no prototype: the caller takes the low half as an `int`. -/
def implicitInt (value : Int) : Int := (value + 2 ^ 31) % 2 ^ 32 - 2 ^ 31

theorem implicitInt_range (value : Int) : -2 ^ 31 ≤ implicitInt value ∧ implicitInt value < 2 ^ 31 := by
  unfold implicitInt
  omega

theorem implicitInt_of_small {value : Int} (low : -2 ^ 31 ≤ value) (high : value < 2 ^ 31) :
    implicitInt value = value := by
  unfold implicitInt
  omega

theorem implicitInt_le {value : Int} (low : -2 ^ 31 ≤ value) : implicitInt value ≤ value := by
  unfold implicitInt
  omega

theorem decimal_injective : Function.Injective decimal := by
  intro m n same
  have value := congrArg (fun digits => Nat.ofDigitChars 10 digits 0) same
  simpa [decimal, Nat.ofDigitChars_ten_toDigits] using value

theorem decimal_digits (n : Nat) : ∀ c ∈ decimal n, c.isDigit = true :=
  fun _ member => Nat.isDigit_of_mem_toDigits (by decide) (by decide) member

theorem leadingNumber_decimal (n : Nat) {rest : Text} (ends : ∀ c ∈ rest.head?, c.isDigit = false) :
    leadingNumber (decimal n ++ rest) = n := by
  have digits : (decimal n ++ rest).takeWhile Char.isDigit = decimal n := by
    rw [List.takeWhile_append_of_pos (decimal_digits n)]
    cases rest with
    | nil => simp
    | cons c rest => simp [ends c (by simp)]
  rw [leadingNumber, digits, decimal, Nat.ofDigitChars_ten_toDigits]

theorem digit_not_sign {c : Char} (digit : c.isDigit = true) :
    isSpace c = false ∧ c ≠ '-' ∧ c ≠ '+' := by
  have notControl : ¬ c ≤ '\r' := by
    simp only [Char.isDigit, Char.le_def, UInt32.le_iff_toNat_le, Bool.and_eq_true,
      decide_eq_true_eq, ge_iff_le] at digit ⊢
    have zero : ('0').val.toNat = 48 := rfl
    have control : ('\r').val.toNat = 13 := rfl
    omega
  refine ⟨?_, ?_, ?_⟩
  · have notSpace : c ≠ ' ' := by rintro rfl; revert digit; decide
    simp [isSpace, notSpace, notControl]
  · rintro rfl; revert digit; decide
  · rintro rfl; revert digit; decide

theorem strtol_decimal_append (n : Nat) {rest : Text} (ends : ∀ c ∈ rest.head?, c.isDigit = false) :
    strtol (decimal n ++ rest) = clampLong n := by
  cases text : decimal n with
  | nil => exact absurd text Nat.toDigits_ne_nil
  | cons c digits =>
    obtain ⟨notSpace, notMinus, notPlus⟩ :=
      digit_not_sign (decimal_digits n c (by simp [text]))
    have kept : (c :: digits ++ rest).dropWhile isSpace = c :: digits ++ rest := by simp [notSpace]
    rw [← leadingNumber_decimal n ends, text]
    unfold strtol
    rw [kept]
    split
    next same => simp_all
    next same => simp_all
    next => rfl

theorem strtol_decimal (n : Nat) : strtol (decimal n) = clampLong n := by
  have whole := @strtol_decimal_append n [] (by simp)
  rwa [List.append_nil] at whole

theorem clampLong_of_le {value : Int} (low : LONG_MIN ≤ value) (high : value ≤ LONG_MAX) :
    clampLong value = value := by
  unfold clampLong; omega

theorem strtol_decimal_of_le {n : Nat} (bound : (n : Int) ≤ LONG_MAX) :
    strtol (decimal n) = n := by
  rw [strtol_decimal, clampLong_of_le (by unfold LONG_MIN; omega) bound]

@[simp] theorem unsigned_natCast {n : Nat} (bound : (n : Int) ≤ LONG_MAX) : unsigned n = n := by
  unfold unsigned LONG_MAX at *
  omega

theorem printLd_natCast (n : Nat) : printLd n = decimal n := by
  simp [printLd]

theorem strtol_printLd {value : Int} (low : LONG_MIN ≤ value) (high : value ≤ LONG_MAX) :
    strtol (printLd value) = value := by
  unfold printLd
  split
  next negative =>
    have minus : strtol ('-' :: decimal (-value).toNat) =
        clampLong (-leadingNumber (decimal (-value).toNat)) := by
      simp [strtol, isSpace]
    have digits := @leadingNumber_decimal (-value).toNat [] (by simp)
    rw [List.append_nil] at digits
    rw [minus, digits, clampLong_of_le] <;> unfold LONG_MAX at * <;> omega
  next =>
    rw [strtol_decimal_of_le] <;> omega

theorem strtol_printLu {value : Int} (low : LONG_MIN ≤ value) (high : value ≤ LONG_MAX) :
    strtol (printLu value) = if 0 ≤ value then value else LONG_MAX := by
  rw [printLu, strtol_decimal]
  unfold unsigned clampLong LONG_MIN LONG_MAX at *
  split <;> omega

theorem strtol_printLu_iff {value : Int} (low : LONG_MIN ≤ value) (high : value ≤ LONG_MAX) :
    strtol (printLu value) = value ↔ 0 ≤ value := by
  rw [strtol_printLu low high]
  split
  next positive => simp [positive]
  next negative =>
    unfold LONG_MAX
    omega

theorem printLd_eq_printLu {value : Int} (low : LONG_MIN ≤ value) (high : value ≤ LONG_MAX) :
    printLd value = printLu value ↔ 0 ≤ value := by
  constructor
  · intro same
    apply (strtol_printLu_iff low high).mp
    rw [← same, strtol_printLd low high]
  · intro positive
    obtain ⟨n, rfl⟩ := Int.eq_ofNat_of_zero_le positive
    rw [printLd_natCast, printLu, unsigned_natCast high]

theorem strtol_range (text : Text) : LONG_MIN ≤ strtol text ∧ strtol text ≤ LONG_MAX := by
  have clamped (value : Int) : LONG_MIN ≤ clampLong value ∧ clampLong value ≤ LONG_MAX := by
    unfold clampLong LONG_MIN LONG_MAX
    omega
  unfold strtol
  split <;> exact clamped _

theorem unsigned_inj {a b : Int} (lowA : LONG_MIN ≤ a) (highA : a ≤ LONG_MAX) (lowB : LONG_MIN ≤ b)
    (highB : b ≤ LONG_MAX) (same : unsigned a = unsigned b) : a = b := by
  unfold unsigned LONG_MIN LONG_MAX at *
  omega

theorem unsigned_ne_zero {value : Int} (low : 0 < value) (high : value ≤ LONG_MAX) :
    unsigned value ≠ 0 := by
  unfold unsigned LONG_MAX at *
  omega

theorem printLd_injective : Function.Injective printLd := by
  intro a b same
  unfold printLd at same
  split at same <;> split at same
  next =>
    have := decimal_injective (List.cons.inj same).2
    omega
  next positive =>
    have member : '-' ∈ decimal b.toNat := by rw [← same]; simp
    exact absurd (decimal_digits _ _ member) (by decide)
  next positive _ =>
    have member : '-' ∈ decimal a.toNat := by rw [same]; simp
    exact absurd (decimal_digits _ _ member) (by decide)
  next =>
    have := decimal_injective same
    omega

end CString
