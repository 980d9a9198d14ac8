import Mathlib.Data.List.Basic
import TypedClients.Naming.Identifier
import TypedClients.Text.Surrogate

/-!
# String literals and templates of the target language

A program reads a text in single quotes and a template in backticks by rules of its own: a
backslash begins an escape, a quoted text has no line break, and in a template `${name}`
stands for the value of a variable, while a carriage return is read as a line feed. What a
literal gives is a row of 16-bit code units; `evaluate` puts the values of the variables in.
Only names stand in for values here, since nothing else is ever written between the braces of
a template.

* `escape?_eq_some`: an escape gives fewer code units than it is written with.
* `step_of_templateNext?`: what one step of reading a template takes and gives, as a `Step`.
* `opening?`, `literal?`: the literal that a text begins with, and the one that a text is.
* `template_cases`: a template is its closing backtick, or a step and a template.
-/

namespace TypedClients.Script

open Naming (isIdentifier isIdentifierPart)
open Text (hexValue? isAsciiDigit)

/-! ## Code units -/

/-- The code units of a code point, two of them above the basic plane. -/
def unitsOf (n : Nat) : List UInt16 :=
  if n < 0x10000 then [UInt16.ofNat n]
  else
    [UInt16.ofNat (0xD800 + (n - 0x10000) / 0x400), UInt16.ofNat (0xDC00 + (n - 0x10000) % 0x400)]

/-- The code units of a character; that of a stand-in is its half. -/
def units (c : Char) : List UInt16 := unitsOf ((Text.Surrogate.half? c).getD c.toNat)

/-- A part of what a literal gives: a code unit, or the value of a variable. -/
inductive Part
  | unit (u : UInt16)
  | name (n : String)
  deriving DecidableEq, Repr

/-- The code units of a part, given the values of the variables. -/
def Part.value (env : String → List UInt16) : Part → List UInt16
  | unit u => [u]
  | name n => env n

/-- The string that a literal gives, given the values of the variables. -/
def evaluate (env : String → List UInt16) (parts : List Part) : List UInt16 :=
  parts.flatMap (Part.value env)

/-! ## Names -/

/-- The words that name no variable in the body of a class. -/
def reservedWords : List String :=
  ["await", "break", "case", "catch", "class", "const", "continue", "debugger", "default",
    "delete", "do", "else", "enum", "export", "extends", "false", "finally", "for", "function",
    "if", "implements", "import", "in", "instanceof", "interface", "let", "new", "null", "package",
    "private", "protected", "public", "return", "static", "super", "switch", "this", "throw",
    "true", "try", "typeof", "var", "void", "while", "with", "yield"]

/-- The name of a variable up to a closing brace, and what follows the brace. -/
def name? (s : List Char) : Option (String × List Char) :=
  let n := s.takeWhile isIdentifierPart
  match s.dropWhile isIdentifierPart with
  | '\x7d' :: after =>
    if isIdentifier n ∧ String.ofList n ∉ reservedWords then some (String.ofList n, after) else none
  | _ => none

/-! ## Escapes -/

/-- The number that a row of hexadecimal digits writes. -/
def hexNumber? (ds : List Char) : Option Nat :=
  ds.foldlM (fun n d => (hexValue? d).map (16 * n + ·)) 0

/-- The code unit that the two digits behind `x` write. -/
def hexEscape? : List Char → Option (List UInt16 × List Char)
  | a :: b :: after => (hexNumber? [a, b]).map fun n => ([UInt16.ofNat n], after)
  | _ => none

/-- The code unit that the four digits behind `u` write. -/
def unitEscape? : List Char → Option (List UInt16 × List Char)
  | a :: b :: c :: d :: after => (hexNumber? [a, b, c, d]).map fun n => ([UInt16.ofNat n], after)
  | _ => none

/-- The code point that the digits before a closing brace write. -/
def codePointEscape? (s : List Char) : Option (List UInt16 × List Char) :=
  match s.dropWhile fun d => (hexValue? d).isSome with
  | '\x7d' :: after =>
    match hexNumber? (s.takeWhile fun d => (hexValue? d).isSome) with
    | some n =>
      if s.head? ≠ some '\x7d' ∧ n ≤ 0x10FFFF then some (unitsOf n, after) else none
    | none => none
  | _ => none

/-- A text without a line feed at its start. -/
def dropLineFeed : List Char → List Char
  | '\n' :: rest => rest
  | s => s

/-- Whether a text begins with an ASCII digit. -/
def startsWithDigit (s : List Char) : Bool := s.head?.any isAsciiDigit

/-- The characters that name a control character behind a backslash, with its code unit. -/
def controls : List (Char × UInt16) :=
  [('b', 8), ('t', 9), ('n', 10), ('v', 11), ('f', 12), ('r', 13)]

/-- Whether a character above ASCII ends a line. -/
def isLineSeparator (c : Char) : Bool := c.toNat = 0x2028 || c.toNat = 0x2029

/-- What an escape means, from the character after its backslash on, and the text behind it. A
backslash ahead of a line break means nothing; ahead of a character without a meaning of its
own it means that character. -/
def escape? : List Char → Option (List UInt16 × List Char)
  | [] => none
  | c :: rest =>
    if c = '\n' ∨ isLineSeparator c then some ([], rest)
    else if c = '\r' then some ([], dropLineFeed rest)
    else if c = 'x' then hexEscape? rest
    else if c = 'u' then
      if rest.head? = some '\x7b' then codePointEscape? rest.tail else unitEscape? rest
    else if isAsciiDigit c then
      if c = '0' ∧ startsWithDigit rest = false then some ([0], rest) else none
    else
      match controls.lookup c with
      | some u => some ([u], rest)
      | none => some (units c, rest)

/-! ## Literals -/

/-- What stands next in a text in single quotes, and the text behind it. -/
def quotedNext? : List Char → Option (List Part × List Char)
  | [] => none
  | c :: rest =>
    if c = '\\' then (escape? rest).map fun (us, after) => (us.map .unit, after)
    else if c = '\n' ∨ c = '\r' then none
    else some ((units c).map .unit, rest)

/-- What stands next in a template, and the text behind it. -/
def templateNext? : List Char → Option (List Part × List Char)
  | [] => none
  | c :: rest =>
    if c = '\\' then (escape? rest).map fun (us, after) => (us.map .unit, after)
    else if c = '$' ∧ rest.head? = some '\x7b' then
      (name? rest.tail).map fun (n, after) => ([.name n], after)
    else if c = '\r' then some ([.unit 10], dropLineFeed rest)
    else some ((units c).map .unit, rest)

/-! ## What is taken -/

theorem length_unitsOf_pos (n : Nat) : 0 < (unitsOf n).length := by
  unfold unitsOf
  split
  · exact Nat.zero_lt_one
  · exact Nat.zero_lt_two

theorem length_unitsOf_le (n : Nat) : (unitsOf n).length ≤ 2 := by
  unfold unitsOf
  split
  · exact Nat.le_succ 1
  · exact Nat.le_refl 2

/-- A text has at least as many code units as characters. -/
theorem length_le_units (s : List Char) : s.length ≤ (s.flatMap units).length := by
  induction s with
  | nil => exact Nat.le_refl _
  | cons c rest ih =>
    have hc : 0 < (units c).length := length_unitsOf_pos _
    rw [List.flatMap_cons, List.length_append, List.length_cons]
    omega

theorem hexNumber?_eq_some {ds : List Char} {n : Nat} (h : hexNumber? ds = some n) :
    ∀ d, d ∈ ds → (hexValue? d).isSome = true := by
  have key : ∀ (ds : List Char) (m : Nat),
      ds.foldlM (fun n d => (hexValue? d).map (16 * n + ·)) m = some n →
        ∀ d, d ∈ ds → (hexValue? d).isSome = true := by
    intro ds
    induction ds with
    | nil => exact fun _ _ d hd => absurd hd List.not_mem_nil
    | cons d rest ih =>
      intro m h
      rw [List.foldlM_cons] at h
      obtain ⟨m', hm', h⟩ := Option.bind_eq_some_iff.1 h
      obtain ⟨v, hv, -⟩ := Option.map_eq_some_iff.1 hm'
      intro e he
      rcases List.mem_cons.1 he with rfl | he
      · rw [hv]
        rfl
      · exact ih m' h e he
  exact key ds 0 h

/-- A text of hexadecimal digits has no backtick. -/
theorem backtick_not_mem {ds : List Char} (h : ∀ d, d ∈ ds → (hexValue? d).isSome = true) :
    '\x60' ∉ ds := fun hmem => absurd (h _ hmem) (by decide)

theorem hexEscape?_eq_some {s after : List Char} {us : List UInt16}
    (h : hexEscape? s = some (us, after)) :
    ∃ front, s = front ++ after ∧ '\x60' ∉ front ∧ us.length ≤ front.length := by
  unfold hexEscape? at h
  split at h
  next a b tail =>
    obtain ⟨n, hn, h⟩ := Option.map_eq_some_iff.1 h
    cases h
    exact ⟨[a, b], rfl, backtick_not_mem (hexNumber?_eq_some hn), Nat.le_succ 1⟩
  next => cases h

theorem unitEscape?_eq_some {s after : List Char} {us : List UInt16}
    (h : unitEscape? s = some (us, after)) :
    ∃ front, s = front ++ after ∧ '\x60' ∉ front ∧ us.length ≤ front.length := by
  unfold unitEscape? at h
  split at h
  next a b c d tail =>
    obtain ⟨n, hn, h⟩ := Option.map_eq_some_iff.1 h
    cases h
    exact ⟨[a, b, c, d], rfl, backtick_not_mem (hexNumber?_eq_some hn), Nat.le_add_left 1 3⟩
  next => cases h

theorem codePointEscape?_eq_some {s after : List Char} {us : List UInt16}
    (h : codePointEscape? s = some (us, after)) :
    ∃ front, s = front ++ after ∧ '\x60' ∉ front ∧ us.length ≤ front.length := by
  have hs := List.takeWhile_append_dropWhile (p := fun d => (hexValue? d).isSome) (l := s)
  unfold codePointEscape? at h
  split at h
  next tail htail =>
    split at h
    next n hnumber =>
      split at h
      next hn =>
        cases h
        rw [htail] at hs
        refine ⟨s.takeWhile (fun d => (hexValue? d).isSome) ++ ['\x7d'],
          by rw [List.append_assoc, List.singleton_append, hs], ?_, ?_⟩
        · rw [List.mem_append, not_or]
          exact ⟨backtick_not_mem (hexNumber?_eq_some hnumber), by decide⟩
        · -- there is a digit ahead of the brace
          have hdigits : s.takeWhile (fun d => (hexValue? d).isSome) ≠ [] := by
            intro hnil
            rw [hnil, List.nil_append] at hs
            exact hn.1 (by rw [← hs, List.head?_cons])
          have := List.length_pos_iff.2 hdigits
          have := length_unitsOf_le n
          rw [List.length_append, List.length_singleton]
          omega
      next => cases h
    next => cases h
  next => cases h

theorem dropLineFeed_eq (s : List Char) :
    ∃ front, s = front ++ dropLineFeed s ∧ (front = [] ∨ front = ['\n']) := by
  unfold dropLineFeed
  split
  · exact ⟨['\n'], rfl, Or.inr rfl⟩
  · exact ⟨[], rfl, Or.inl rfl⟩

/-- An escape takes at least one character behind its backslash, and gives no more code units
than what it takes there has. -/
theorem escape?_eq_some {s after : List Char} {us : List UInt16}
    (h : escape? s = some (us, after)) :
    ∃ c front, s = c :: front ++ after ∧ '\x60' ∉ front ∧
      us.length ≤ ((c :: front).flatMap units).length := by
  cases s with
  | nil => cases h
  | cons c rest =>
    -- what is taken has at least one code unit for each character
    have key : (∃ front, rest = front ++ after ∧ '\x60' ∉ front ∧ us.length ≤ front.length + 1) →
        ∃ c' front, c :: rest = c' :: front ++ after ∧ '\x60' ∉ front ∧
          us.length ≤ ((c' :: front).flatMap units).length := by
      rintro ⟨front, rfl, hfront, hle⟩
      exact ⟨c, front, rfl, hfront, Nat.le_trans hle (length_le_units (c :: front))⟩
    rw [escape?] at h
    split at h
    next =>
      cases h
      exact key ⟨[], rfl, List.not_mem_nil, Nat.zero_le _⟩
    split at h
    next =>
      cases h
      obtain ⟨front, hrest, hfront⟩ := dropLineFeed_eq rest
      refine key ⟨front, hrest, ?_, Nat.zero_le _⟩
      rcases hfront with rfl | rfl
      · exact List.not_mem_nil
      · decide
    split at h
    next =>
      obtain ⟨front, hrest, hfront, hle⟩ := hexEscape?_eq_some h
      exact key ⟨front, hrest, hfront, Nat.le_succ_of_le hle⟩
    split at h
    next =>
      split at h
      next hbrace =>
        obtain ⟨front, hrest, hfront, hle⟩ := codePointEscape?_eq_some h
        refine key ⟨'\x7b' :: front, ?_, ?_, Nat.le_succ_of_le (Nat.le_succ_of_le hle)⟩
        · rw [List.cons_append, ← hrest]
          exact List.eq_cons_of_mem_head? hbrace
        · exact fun hmem => hfront (List.mem_of_ne_of_mem (by decide) hmem)
      next =>
        obtain ⟨front, hrest, hfront, hle⟩ := unitEscape?_eq_some h
        exact key ⟨front, hrest, hfront, Nat.le_succ_of_le hle⟩
    split at h
    next =>
      split at h
      next =>
        cases h
        exact key ⟨[], rfl, List.not_mem_nil, Nat.le_refl 1⟩
      next => cases h
    split at h
    next =>
      cases h
      exact key ⟨[], rfl, List.not_mem_nil, Nat.le_refl 1⟩
    next =>
      obtain ⟨rfl, rfl⟩ := Prod.mk.inj (Option.some.inj h)
      exact ⟨c, [], rfl, List.not_mem_nil, Nat.le_of_eq (by rw [List.flatMap_singleton])⟩

theorem name?_eq_some {s after : List Char} {n : String} (h : name? s = some (n, after)) :
    s = n.toList ++ '\x7d' :: after ∧ isIdentifier n.toList = true ∧ n ∉ reservedWords := by
  have hs := List.takeWhile_append_dropWhile (p := isIdentifierPart) (l := s)
  unfold name? at h
  simp only at h
  split at h
  next rest hrest =>
    split at h
    next hn =>
      cases h
      rw [hrest] at hs
      rw [String.toList_ofList]
      exact ⟨hs.symm, hn⟩
    next => cases h
  next => cases h

/-- Whether a name stands before a closing brace depends on its being reserved only. -/
theorem name?_append {n : String} (hn : isIdentifier n.toList = true) (rest : List Char) :
    name? (n.toList ++ '\x7d' :: rest) = if n ∈ reservedWords then none else some (n, rest) := by
  have hpart : ∀ c, c ∈ n.toList → isIdentifierPart c = true :=
    fun _ hc => Naming.isIdentifierPart_of_mem hn hc
  have hbrace : isIdentifierPart '\x7d' = false := by decide
  have htake : (n.toList ++ '\x7d' :: rest).takeWhile isIdentifierPart = n.toList := by
    rw [List.takeWhile_append_of_pos hpart, List.takeWhile_cons_of_neg (by rw [hbrace]; decide),
      List.append_nil]
  have hdrop : (n.toList ++ '\x7d' :: rest).dropWhile isIdentifierPart = '\x7d' :: rest := by
    rw [List.dropWhile_append_of_pos hpart, List.dropWhile_cons_of_neg (by rw [hbrace]; decide)]
  simp only [name?, htake, hdrop, String.ofList_toList, hn, true_and, ite_not]

/-- What one step of reading a template takes and gives. -/
inductive Step : List Char → List Part → List Char → Prop
  /-- An escape. -/
  | escape {rest after : List Char} {us : List UInt16} (h : escape? rest = some (us, after)) :
      Step ('\\' :: rest) (us.map .unit) after
  /-- The name of a variable. -/
  | name {rest after : List Char} {n : String} (h : name? rest = some (n, after)) :
      Step ('$' :: '\x7b' :: rest) [.name n] after
  /-- A carriage return, with the line feed behind it if there is one. -/
  | return {front after : List Char} (h : front = [] ∨ front = ['\n']) :
      Step ('\r' :: front ++ after) [.unit 10] after
  /-- Any other character. -/
  | char {c : Char} {after : List Char} (hback : c ≠ '\\') (hreturn : c ≠ '\r')
      (hdollar : c = '$' → after.head? ≠ some '\x7b') :
      Step (c :: after) ((units c).map .unit) after

theorem step_of_templateNext? {s after : List Char} {ps : List Part}
    (h : templateNext? s = some (ps, after)) : Step s ps after := by
  unfold templateNext? at h
  split at h
  next => cases h
  next c rest =>
    split at h
    next hc =>
      obtain ⟨⟨us, after'⟩, hescape, h⟩ := Option.map_eq_some_iff.1 h
      cases h
      subst hc
      exact .escape hescape
    split at h
    next hc =>
      obtain ⟨⟨n, after'⟩, hname, h⟩ := Option.map_eq_some_iff.1 h
      cases h
      obtain ⟨rfl, hbrace⟩ := hc
      rw [List.eq_cons_of_mem_head? hbrace]
      exact .name hname
    split at h
    next hc =>
      cases h
      subst hc
      obtain ⟨front, hrest, hfront⟩ := dropLineFeed_eq rest
      have hstep : Step ('\r' :: front ++ dropLineFeed rest) _ (dropLineFeed rest) := .return hfront
      rw [List.cons_append, ← hrest] at hstep
      exact hstep
    next hback hdollar hreturn =>
      obtain ⟨rfl, rfl⟩ := Prod.mk.inj (Option.some.inj h)
      exact .char hback hreturn fun hc hbrace => hdollar ⟨hc, hbrace⟩

/-- A step takes at least one character. -/
theorem exists_front_of_step {s after : List Char} {ps : List Part} (h : Step s ps after) :
    ∃ c front, s = c :: front ++ after := by
  cases h with
  | escape h =>
    obtain ⟨c, front, rfl, -, -⟩ := escape?_eq_some h
    exact ⟨'\\', c :: front, rfl⟩
  | @name _ _ n h =>
    obtain ⟨rfl, -, -⟩ := name?_eq_some h
    exact ⟨'$', '\x7b' :: n.toList ++ ['\x7d'], by simp⟩
  | @«return» front => exact ⟨'\r', front, rfl⟩
  | @char c => exact ⟨c, [], rfl⟩

theorem length_of_step {s after : List Char} {ps : List Part} (h : Step s ps after) :
    after.length < s.length := by
  obtain ⟨c, front, rfl⟩ := exists_front_of_step h
  rw [List.length_append, List.length_cons]
  omega

theorem length_of_quotedNext? {s after : List Char} {ps : List Part}
    (h : quotedNext? s = some (ps, after)) : after.length < s.length := by
  unfold quotedNext? at h
  split at h
  next => cases h
  next c rest =>
    split at h
    next =>
      obtain ⟨⟨us, after'⟩, hescape, h⟩ := Option.map_eq_some_iff.1 h
      cases h
      obtain ⟨c', front, rfl, -, -⟩ := escape?_eq_some hescape
      simp only [List.length_cons, List.length_append]
      omega
    split at h
    next => cases h
    next =>
      obtain ⟨-, rfl⟩ := Prod.mk.inj (Option.some.inj h)
      exact Nat.lt_succ_self _

/-- A kind of literal: the character that begins and ends it, and what stands between. -/
structure Kind where
  quote : Char
  next? : List Char → Option (List Part × List Char)
  length_next? : ∀ {s after : List Char} {ps : List Part},
    next? s = some (ps, after) → after.length < s.length

/-- Texts in single quotes. -/
def quoted : Kind := ⟨'\x27', quotedNext?, length_of_quotedNext?⟩

/-- Templates. -/
def template : Kind := ⟨'\x60', templateNext?, fun h => length_of_step (step_of_templateNext? h)⟩

/-- The parts of a literal from behind its opening quote on, and the text behind its closing
quote. -/
def Kind.read? (k : Kind) (s : List Char) : Option (List Part × List Char) :=
  if s.head? = some k.quote then some ([], s.tail)
  else
    match _h : k.next? s with
    | some (ps, after) => (k.read? after).map fun (qs, rest) => (ps ++ qs, rest)
    | none => none
termination_by s.length
decreasing_by exact k.length_next? _h

/-- The parts of a text that begins with a literal, and the text behind it. -/
def opening? (s : List Char) : Option (List Part × List Char) :=
  if s.head? = some '\x27' then quoted.read? s.tail
  else if s.head? = some '\x60' then template.read? s.tail
  else none

/-- The parts of a text that is one literal. -/
def literal? (s : List Char) : Option (List Part) :=
  match opening? s with
  | some (ps, []) => some ps
  | _ => none

theorem Kind.read?_quote (k : Kind) (rest : List Char) :
    k.read? (k.quote :: rest) = some ([], rest) := by
  rw [Kind.read?, List.head?_cons, if_pos rfl, List.tail_cons]

theorem Kind.read?_of_next? {k : Kind} {s after : List Char} {ps : List Part}
    (hquote : s.head? ≠ some k.quote) (h : k.next? s = some (ps, after)) :
    k.read? s = (k.read? after).map fun (qs, rest) => (ps ++ qs, rest) := by
  rw [Kind.read?, if_neg hquote]
  split
  next heq =>
    rw [h] at heq
    cases heq
    rfl
  next heq =>
    rw [h] at heq
    cases heq

theorem Kind.read?_eq_none {k : Kind} {s : List Char} (hquote : s.head? ≠ some k.quote)
    (h : k.next? s = none) : k.read? s = none := by
  rw [Kind.read?, if_neg hquote]
  split
  next heq =>
    rw [h] at heq
    cases heq
  next => rfl

/-- A template is read step by step up to a backtick. -/
theorem template_cases {s rest : List Char} {parts : List Part}
    (h : template.read? s = some (parts, rest)) :
    (s = '\x60' :: rest ∧ parts = []) ∨
      ∃ ps after qs, s.head? ≠ some '\x60' ∧ Step s ps after ∧
        template.read? after = some (qs, rest) ∧ parts = ps ++ qs := by
  rw [Kind.read?] at h
  split at h
  next hquote =>
    cases h
    exact Or.inl ⟨List.eq_cons_of_mem_head? hquote, rfl⟩
  next hquote =>
    split at h
    next ps after hnext =>
      obtain ⟨⟨qs, rest'⟩, hread, h⟩ := Option.map_eq_some_iff.1 h
      cases h
      exact Or.inr ⟨ps, after, qs, hquote, step_of_templateNext? hnext, hread, rfl⟩
    next => cases h

end TypedClients.Script
