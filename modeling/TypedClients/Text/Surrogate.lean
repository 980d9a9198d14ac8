/-!
# Surrogate halves

In UTF-16 a character above the basic plane is a pair of halves. An escape may name a half
alone, which is no character; a text then holds a *stand-in*, the character of a private plane
whose number is 0x100000 higher. A stand-in is written as the half again wherever escapes are
written, and a text that holds one has no form in UTF-8.

* `codePoint_inj`: no two characters count as the same code point.
* `firstRun?_eq_none_iff`: exactly the texts without a refused half have no run with one.
-/

namespace TypedClients.Text.Surrogate

/-- Whether a number is the first half of a pair. -/
def isHigh (n : Nat) : Bool := 0xD800 ≤ n && n < 0xDC00

/-- Whether a number is the second half of a pair. -/
def isLow (n : Nat) : Bool := 0xDC00 ≤ n && n < 0xE000

/-- Whether a half holds a byte of a name that is no UTF-8: such a byte is read as the half
that is 0xDC00 above it, and written as the byte again. -/
def isByte (n : Nat) : Bool := 0xDC80 ≤ n && n ≤ 0xDCFF

/-- How far above a half its stand-in is. -/
def distance : Nat := 0x100000

/-- The character of a number, or the stand-in if the number is a half. -/
def ofUnit (n : Nat) : Char := Char.ofNat (if isHigh n || isLow n then distance + n else n)

/-- The character of a pair. -/
def ofPair (high low : Nat) : Char :=
  Char.ofNat (0x10000 + (high - 0xD800) * 0x400 + (low - 0xDC00))

/-- The half that a character stands for. -/
def half? (c : Char) : Option Nat :=
  let n := c.toNat - distance
  if isHigh n || isLow n then some n else none

/-- The number of a character, or of the half that it stands for. -/
def codePoint (c : Char) : Nat := (half? c).getD c.toNat

/-- The halves of the stand-ins at the start of a text. -/
def leadingHalves : List Char → List Nat
  | [] => []
  | c :: rest =>
    match half? c with
    | some n => n :: leadingHalves rest
    | none => []

/-- The stand-ins of a text that are together, from the first one on whose half is refused:
how many characters come before them, and their halves. -/
def firstRun? (refused : Nat → Bool) : List Char → Option (Nat × List Nat)
  | [] => none
  | c :: rest =>
    if (half? c).any refused then some (0, leadingHalves (c :: rest))
    else (firstRun? refused rest).map fun (before, halves) => (before + 1, halves)

/-- Whether a text holds a stand-in, so that it has no form in UTF-8. -/
def holdsHalf (s : List Char) : Bool := s.any fun c => (half? c).isSome

theorem isHalf_iff {n : Nat} : (isHigh n || isLow n) = true ↔ 0xD800 ≤ n ∧ n < 0xE000 := by
  simp only [isHigh, isLow, Bool.or_eq_true, Bool.and_eq_true, decide_eq_true_eq]
  omega

/-- A half is no character, so it is not the number of another one. -/
theorem not_isHalf_toNat (c : Char) : (isHigh c.toNat || isLow c.toNat) = false := by
  have hvalid : c.toNat.isValidChar := c.valid
  rw [Bool.eq_false_iff, ne_eq, isHalf_iff]
  unfold Nat.isValidChar at hvalid
  omega

theorem toNat_eq (c : Char) : c.toNat =
    if isHigh (codePoint c) || isLow (codePoint c) then distance + codePoint c
      else codePoint c := by
  by_cases h : (isHigh (c.toNat - distance) || isLow (c.toNat - distance)) = true
  · have hcode : codePoint c = c.toNat - distance := by
      rw [codePoint, half?, if_pos h, Option.getD_some]
    have hhalf := isHalf_iff.1 h
    rw [hcode, if_pos h]
    omega
  · have hcode : codePoint c = c.toNat := by rw [codePoint, half?, if_neg h, Option.getD_none]
    rw [hcode, not_isHalf_toNat c, if_neg Bool.false_ne_true]

theorem codePoint_inj {c d : Char} (h : codePoint c = codePoint d) : c = d := by
  apply Char.toNat_inj.1
  rw [toNat_eq c, toNat_eq d, h]

theorem firstRun?_eq_none_iff (refused : Nat → Bool) (s : List Char) :
    firstRun? refused s = none ↔ ∀ c ∈ s, ∀ n, half? c = some n → refused n = false := by
  induction s with
  | nil => simp [firstRun?]
  | cons c rest ih =>
    cases hc : half? c with
    | none => simp [firstRun?, hc, ih]
    | some n => cases hn : refused n <;> simp [firstRun?, hc, hn, ih]

end TypedClients.Text.Surrogate
