/-!
# Decimal digits of a natural number

* `digits_eq_digit`: every character of a written number is one of the ten digits.
* `value_digits`: reading the digits back gives the number, so the digits determine it.
-/

namespace TypedClients.Number

/-- The digit character of a value below ten. -/
def digitChar (n : Nat) : Char := Char.ofNat ('0'.toNat + n % 10)

/-- The decimal digits of a number, most significant first and without leading zeros. -/
def digits (n : Nat) : List Char :=
  if n < 10 then [digitChar n] else digits (n / 10) ++ [digitChar n]
termination_by n

/-- The most decimal digits that a whole number is read or written with. -/
def maxDigits : Nat := 4300

/-- The least number with more digits than that. -/
def digitsLimit : Nat := Nat.pow 10 maxDigits

/-- The number written in decimal. -/
def natText (n : Nat) : String := String.ofList (digits n)

/-- The integer written in decimal, with a minus sign if it is negative. -/
def intText : Int → String
  | .ofNat n => natText n
  | .negSucc n => "-" ++ natText (n + 1)

/-- The value of a text of digits, read as a decimal number. -/
def value (s : List Char) : Nat := s.foldl (fun n c => 10 * n + (c.toNat - '0'.toNat)) 0

theorem digitChar_toNat (n : Nat) : (digitChar n).toNat = 48 + n % 10 := by
  have h : (48 + n % 10).isValidChar := Or.inl (by omega)
  show (Char.ofNat (48 + n % 10)).toNat = 48 + n % 10
  unfold Char.ofNat
  rw [dif_pos h]
  rfl

theorem value_append_digit (s : List Char) (n : Nat) :
    value (s ++ [digitChar n]) = 10 * value s + n % 10 := by
  simp [value, List.foldl_append, digitChar_toNat]

theorem value_digits (n : Nat) : value (digits n) = n := by
  induction n using Nat.strongRecOn with
  | _ n ih =>
    unfold digits
    split
    next h => simp [value, digitChar_toNat]; omega
    next h =>
      rw [value_append_digit, ih (n / 10) (by omega)]
      omega

theorem digits_injective {m n : Nat} (h : digits m = digits n) : m = n := by
  rw [← value_digits m, ← value_digits n, h]

theorem digits_eq_digit {n : Nat} {c : Char} (h : c ∈ digits n) : ∃ k, c = digitChar k := by
  induction n using Nat.strongRecOn with
  | _ n ih =>
    unfold digits at h
    split at h
    next => exact ⟨n, by simpa using h⟩
    next hn =>
      rw [List.mem_append] at h
      rcases h with h | h
      · exact ih (n / 10) (by omega) h
      · exact ⟨n, by simpa using h⟩

end TypedClients.Number
