import TypedClients.Document.Pointer
import TypedClients.Proofs.Files.Parts
import TypedClients.Proofs.Migration.Values
import TypedClients.Proofs.Naming.Identifiers
import TypedClients.Proofs.Operation.Pointers

/-!
# References and the values they lead to

A value branches into its fields if it is a map and into its items if it is a list. A
reference writes one branch behind the other, with a slash ahead of each: a field under its
name, in which every tilde becomes `~0` and every slash `~1`, and an item under its number.
Two replacements undo this, one behind the other, and are the same as reading each pair once
from left to right, so that neither can make a pair for the other.

* `unescape_eq_decoded`: the two replacements read each pair once.
* `follow_eq_some`: the value that written steps lead to, step by step.
* `resolve_decodes`: a reference that writes the branches to a value leads to this value, and
  every reference leads where its steps lead.
-/

namespace TypedClients

/-- Texts without a separator, joined by it and cut there again. -/
theorem Text.splitAt_joinWith {sep : Char} {p : List Char} {ps : List (List Char)}
    (h : ∀ q, q ∈ p :: ps → sep ∉ q) : splitAt sep (joinWith [sep] (p :: ps)) = p :: ps := by
  induction ps generalizing p with
  | nil => exact splitAt_of_not_mem (h p List.mem_cons_self)
  | cons q rest ih =>
    have hrest := ih fun r hr => h r (List.mem_cons_of_mem _ hr)
    rw [joinWith, List.append_assoc, List.singleton_append, splitAt_append_cons,
      splitAt_of_not_mem (h p List.mem_cons_self), hrest]
    rfl

/-- A list is no map. -/
theorem Value.isMap_of_items? {v : Value} {xs : List Value} (h : v.items? = some xs) :
    v.isMap = false := by
  revert h
  induction v using Value.inside_induction with
  | plain v h =>
    cases v with
    | map es => exact fun hitems => nomatch hitems
    | knot id w => exact absurd rfl (h id w)
    | _ => exact fun _ => rfl
  | inside id v ih => exact ih

namespace Pointer

open Text (joinWith replacePair splitAt)

/-! ## Steps as they are meant -/

/-- A written step as it is meant, each pair of characters that stands for another one read
once. -/
def decoded : List Char → List Char
  | '~' :: '1' :: rest => '/' :: decoded rest
  | '~' :: '0' :: rest => '~' :: decoded rest
  | c :: rest => c :: decoded rest
  | [] => []

/-- Putting in slashes puts no zero at the beginning of a text. -/
theorem head?_slashes {s : List Char} (h : (replacePair '~' '1' ['/'] s).head? = some '0') :
    s.head? = some '0' := by
  unfold replacePair at h
  split at h
  next c d rest =>
    split at h
    next => cases h
    next => exact h
  next => exact h

/-- A character that does not begin a pair is kept. -/
theorem replacePair_cons {a b c : Char} {new s : List Char} (h : c = a → s.head? ≠ some b) :
    replacePair a b new (c :: s) = c :: replacePair a b new s := by
  by_cases hc : c = a
  · subst hc
    cases s with
    | nil => rfl
    | cons d r => exact replacePair_cons_cons_of_ne fun hd => h rfl (congrArg some hd)
  · exact replacePair_cons_of_ne hc

/-- The two replacements read each pair once: the slashes that the first one puts in make no
pair for the second. -/
theorem unescape_eq_decoded (s : List Char) : unescape s = decoded s := by
  unfold unescape
  fun_induction decoded s with
  | case1 rest ih =>
    have hfirst : replacePair '~' '1' ['/'] ('~' :: '1' :: rest) =
        '/' :: replacePair '~' '1' ['/'] rest := rfl
    rw [hfirst, replacePair_cons_of_ne (by decide), ih]
  | case2 rest ih =>
    have hfirst : replacePair '~' '1' ['/'] ('~' :: '0' :: rest) =
        '~' :: '0' :: replacePair '~' '1' ['/'] rest := by
      rw [replacePair_cons_cons_of_ne (by decide), replacePair_cons_of_ne (by decide)]
    have hsecond : ∀ t, replacePair '~' '0' ['~'] ('~' :: '0' :: t) =
        '~' :: replacePair '~' '0' ['~'] t := fun t => rfl
    rw [hfirst, hsecond, ih]
  | case3 c rest hslash htilde ih =>
    -- no character that makes a pair follows a tilde, neither before nor after slashes are put in
    have hone : c = '~' → rest.head? ≠ some '1' := by
      intro hc hhead
      exact hslash rest.tail hc (List.eq_cons_of_mem_head? hhead)
    have hzero : c = '~' → (replacePair '~' '1' ['/'] rest).head? ≠ some '0' := by
      intro hc hhead
      exact htilde rest.tail hc (List.eq_cons_of_mem_head? (head?_slashes hhead))
    rw [replacePair_cons hone, replacePair_cons hzero, ih]
  | case4 => rfl

theorem decoded_escape (s : List Char) : decoded (escape s) = s := by
  rw [← unescape_eq_decoded, unescape_escape]

/-- A step without a tilde is meant as it is written. -/
theorem decoded_of_not_mem {s : List Char} (h : '~' ∉ s) : decoded s = s := by
  induction s with
  | nil => rfl
  | cons c rest ih =>
    rw [List.mem_cons, not_or] at h
    rw [decoded, ih h.2]
    · exact fun _ hc => absurd hc.symm h.1
    · exact fun _ hc => absurd hc.symm h.1

/-! ## Branches -/

/-- A field of a map, or an item of a list. -/
inductive Branch
  | field (name : String)
  | item (i : Nat)

/-- A branch as a step of a reference. -/
def Branch.written : Branch → List Char
  | field name => escape name.toList
  | item i => Number.digits i

/-- The value at a branch of another. -/
def below? (v : Value) : Branch → Option Value
  | .field name => v.get? name
  | .item i => v.items?.bind (·[i]?)

/-- The value at the end of some branches, one behind the other. -/
def reached? : Value → List Branch → Option Value
  | v, [] => some v
  | v, b :: rest => (below? v b).bind (reached? · rest)

/-- The reference that is written with some steps. -/
def ofSteps (steps : List (List Char)) : String :=
  String.ofList ('#' :: '/' :: joinWith ['/'] steps)

/-- The reference that writes some branches. -/
def reference (bs : List Branch) : String := ofSteps (bs.map Branch.written)

theorem slash_not_mem_escape (s : List Char) : '/' ∉ escape s := by
  intro h
  obtain ⟨c, -, hc⟩ := List.mem_flatMap.1 h
  split at hc
  next => exact absurd hc (by decide)
  next =>
    split at hc
    next => exact absurd hc (by decide)
    next hne => exact hne (List.mem_singleton.1 hc).symm

theorem isAsciiDigit_of_mem_digits {n : Nat} {c : Char} (h : c ∈ Number.digits n) :
    Text.isAsciiDigit c = true := by
  obtain ⟨k, rfl⟩ := Number.digits_eq_digit h
  exact Naming.isAsciiDigit_digitChar k

theorem Branch.slash_not_mem_written (b : Branch) : '/' ∉ b.written := by
  cases b with
  | field name => exact slash_not_mem_escape name.toList
  | item i => exact fun h => absurd (isAsciiDigit_of_mem_digits h) (by decide)

/-! ## Numbers of items -/

/-- The number that a text of decimal digits writes, if there are not too many of them. -/
def number? (s : List Char) : Option Nat :=
  if s.length > Number.maxDigits then none else Text.decimalValue? s

/-- A text of ASCII digits is read as the number that they write. -/
theorem foldlM_digitValue? {s : List Char} (h : ∀ c, c ∈ s → Text.isAsciiDigit c = true) (n : Nat) :
    s.foldlM (fun n c => (Text.digitValue? c).map (10 * n + ·)) n =
      some (s.foldl (fun n c => 10 * n + (c.toNat - '0'.toNat)) n) := by
  induction s generalizing n with
  | nil => rfl
  | cons c rest ih =>
    rw [List.foldlM_cons, Text.digitValue?_ascii (h c List.mem_cons_self)]
    exact ih (fun d hd => h d (List.mem_cons_of_mem _ hd)) _

theorem decimalValue?_digits (n : Nat) : Text.decimalValue? (Number.digits n) = some n := by
  have hne : ¬(Number.digits n).isEmpty = true := by
    rw [List.isEmpty_iff]
    exact Naming.digits_ne_nil n
  unfold Text.decimalValue?
  rw [if_neg hne, foldlM_digitValue? fun _ => isAsciiDigit_of_mem_digits]
  exact congrArg some (Number.value_digits n)

/-- A number is written with no more digits than those of the first that has more. -/
theorem length_digits_le {n k : Nat} (hk : 0 < k) (h : n < Nat.pow 10 k) :
    (Number.digits n).length ≤ k := by
  induction n using Nat.strongRecOn generalizing k with
  | ind n ih =>
    unfold Number.digits
    split
    next => exact hk
    next hn =>
      cases k with
      | zero => exact absurd hk (Nat.lt_irrefl 0)
      | succ k =>
        have hpos : 0 < k := by
          by_contra hzero
          obtain rfl : k = 0 := by omega
          exact hn h
        have hdiv : n / 10 < Nat.pow 10 k := by
          have hsucc : Nat.pow 10 (k + 1) = Nat.pow 10 k * 10 := rfl
          rw [hsucc] at h
          omega
        rw [List.length_append, List.length_singleton]
        exact Nat.succ_le_succ (ih (n / 10) (by omega) hpos hdiv)

theorem number?_digits {n : Nat} (h : n < Number.digitsLimit) :
    number? (Number.digits n) = some n := by
  have hlimit : ∀ most, 0 < most → n < Nat.pow 10 most → (Number.digits n).length ≤ most :=
    fun _ => length_digits_le
  have hlength : (Number.digits n).length ≤ Number.maxDigits := by
    delta Number.digitsLimit at h
    exact hlimit Number.maxDigits (by decide) h
  rw [number?, if_neg (Nat.not_lt.2 hlength), decimalValue?_digits]

/-! ## Following steps -/

/-- The value that written steps lead to: a step names a field of a map, or numbers an item of
a list. -/
inductive Follows : Value → List (List Char) → Value → Prop
  | here {v : Value} : Follows v [] v
  | field {v w u : Value} {step : List Char} {rest : List (List Char)}
      (h : v.get? (String.ofList (decoded step)) = some w) (hrest : Follows w rest u) :
      Follows v (step :: rest) u
  | item {v w u : Value} {step : List Char} {rest : List (List Char)} {xs : List Value} {n : Nat}
      (hitems : v.items? = some xs) (hnumber : number? (decoded step) = some n)
      (h : xs[n]? = some w) (hrest : Follows w rest u) : Follows v (step :: rest) u

/-- A text whose characters are all digits of some kind is a number only if they are decimal
ones. -/
theorem isDigit_of_number? {s : List Char} {n : Nat} (h : number? s = some n) :
    s.isEmpty = false ∧ s.all Text.isDigit = true := by
  unfold number? at h
  split at h
  next => cases h
  next =>
    cases hempty : s.isEmpty with
    | true =>
      rw [Text.decimalValue?, hempty, if_pos rfl] at h
      cases h
    | false =>
      have hdecimal := isSome_decimalValue? hempty
      rw [h] at hdecimal
      refine ⟨rfl, List.all_eq_true.2 fun c hc => ?_⟩
      exact Text.isDigit_of_isDecimal (List.all_eq_true.1 hdecimal.symm c hc)

theorem step?_of_get? {v w : Value} {s : List Char} (h : v.get? (String.ofList s) = some w) :
    step? v s = .ok (some w) := by
  have hmap : v.isMap = true := by
    by_contra hno
    rw [Value.get?_eq_none (Bool.eq_false_iff.2 hno)] at h
    cases h
  rw [step?, if_pos hmap, h]

theorem step?_of_number? {v : Value} {xs : List Value} {s : List Char} {n : Nat}
    (hitems : v.items? = some xs) (h : number? s = some n) : step? v s = .ok xs[n]? := by
  obtain ⟨hne, hdigits⟩ := isDigit_of_number? h
  unfold number? at h
  split at h
  next => cases h
  next hshort =>
    have hmap := Value.isMap_of_items? hitems
    rw [step?, hmap, if_neg Bool.false_ne_true, hitems]
    dsimp only
    rw [hne, hdigits, if_neg (by decide), if_neg hshort, h]

/-- A step comes to a value at a field that it names, or at an item that it numbers. -/
theorem step?_eq_some {v w : Value} {s : List Char} (h : step? v s = .ok (some w)) :
    v.get? (String.ofList s) = some w ∨
      ∃ xs n, v.items? = some xs ∧ number? s = some n ∧ xs[n]? = some w := by
  unfold step? at h
  split at h
  next => exact Or.inl (Except.ok.inj h)
  next =>
    split at h
    next xs hitems =>
      split at h
      next => cases h
      next =>
        split at h
        next => cases h
        next hshort =>
          split at h
          next n hn => exact Or.inr ⟨xs, n, hitems, by rw [number?, if_neg hshort, hn],
            Except.ok.inj h⟩
          next => cases h
    next => cases h

/-- Following steps comes to the value that they lead to. -/
theorem follow_eq_some {v w : Value} {steps : List (List Char)} :
    follow v (steps.map unescape) = .ok (some w) ↔ Follows v steps w := by
  constructor
  · intro h
    induction steps generalizing v with
    | nil =>
      cases h
      exact .here
    | cons step rest ih =>
      rw [List.map_cons, follow, unescape_eq_decoded] at h
      obtain ⟨found, hstep, h⟩ := bind_eq_ok.1 h
      cases found with
      | none => cases h
      | some u =>
        rcases step?_eq_some hstep with hget | ⟨xs, n, hitems, hnumber, hget⟩
        · exact .field hget (ih h)
        · exact .item hitems hnumber hget (ih h)
  · intro h
    induction h with
    | here => rfl
    | @field v w u step rest hget _ ih =>
      rw [List.map_cons, follow, unescape_eq_decoded, step?_of_get? hget]
      exact ih
    | @item v w u step rest xs n hitems hnumber hget _ ih =>
      rw [List.map_cons, follow, unescape_eq_decoded, step?_of_number? hitems hnumber, hget]
      exact ih

/-! ## References -/

theorem steps?_ofSteps {steps : List (List Char)} (hne : steps ≠ [])
    (h : ∀ step, step ∈ steps → '/' ∉ step) : steps? (ofSteps steps) = some
    (steps.map unescape) := by
  obtain ⟨step, rest, rfl⟩ := List.exists_cons_of_ne_nil hne
  rw [steps?, ofSteps, String.toList_ofList]
  show some ((splitAt '/' (joinWith ['/'] (step :: rest))).map unescape) = _
  rw [Text.splitAt_joinWith h]

/-- An internal reference is written with steps that have no slash in them. -/
theorem exists_of_steps? {ref : String} {meant : List (List Char)} (h : steps? ref = some meant) :
    ∃ steps, steps ≠ [] ∧ (∀ step, step ∈ steps → '/' ∉ step) ∧ ref = ofSteps steps ∧
      meant = steps.map unescape := by
  unfold steps? at h
  split at h
  next rest hrest =>
    refine ⟨splitAt '/' rest, Text.splitAt_ne_nil '/' rest,
      fun _ => Text.not_mem_of_mem_splitAt, ?_, (Option.some.inj h).symm⟩
    rw [ofSteps, Text.joinWith_splitAt, ← hrest, String.ofList_toList]
  next => cases h

/-- A reference leads to a value exactly if its steps do. -/
theorem resolve_ofSteps {root v : Value} {steps : List (List Char)} (hne : steps ≠ [])
    (hslash : ∀ step, step ∈ steps → '/' ∉ step) :
    resolve root (ofSteps steps) = .ok v ↔ Follows root steps v := by
  rw [resolve, steps?_ofSteps hne hslash, ← follow_eq_some]
  dsimp only
  constructor
  · intro h
    obtain ⟨found, hfound, h⟩ := bind_eq_ok.1 h
    cases found with
    | none => cases h
    | some w =>
      cases h
      exact hfound
  · intro h
    rw [h]
    rfl

/-- Branches are followed where they are written. -/
theorem follows_written {v w : Value} {bs : List Branch}
    (hindex : ∀ i, .item i ∈ bs → i < Number.digitsLimit) (h : reached? v bs = some w) :
    Follows v (bs.map Branch.written) w := by
  induction bs generalizing v with
  | nil =>
    obtain rfl := Option.some.inj h
    exact .here
  | cons b rest ih =>
    rw [reached?] at h
    obtain ⟨u, hu, hrest⟩ := Option.bind_eq_some_iff.1 h
    have hfollows := ih (fun i hi => hindex i (List.mem_cons_of_mem _ hi)) hrest
    cases b with
    | field name =>
      refine .field ?_ hfollows
      rw [Branch.written, decoded_escape, String.ofList_toList]
      exact hu
    | item i =>
      obtain ⟨xs, hitems, hget⟩ := Option.bind_eq_some_iff.1 hu
      refine .item hitems ?_ hget hfollows
      have htilde : '~' ∉ Number.digits i :=
        fun h => absurd (isAsciiDigit_of_mem_digits h) (by decide)
      rw [Branch.written, decoded_of_not_mem htilde]
      exact number?_digits (hindex i List.mem_cons_self)

/-- Decoding undoes encoding: a reference that writes the branches to a value, of which there
is at least one, leads to this value. And a reference that leads to a value leads to the one
that its steps lead to. No list has so many items that the number of one of them has more
digits than are read. -/
theorem resolve_decodes :
    (∀ (root v : Value) (bs : List Branch), bs ≠ [] →
      (∀ i, .item i ∈ bs → i < Number.digitsLimit) → reached? root bs = some v →
        resolve root (reference bs) = .ok v) ∧
    ∀ (root v : Value) (ref : String), resolve root ref = .ok v ↔
      ∃ steps, steps ≠ [] ∧ (∀ step, step ∈ steps → '/' ∉ step) ∧ ref = ofSteps steps ∧
        Follows root steps v := by
  refine ⟨fun root v bs hne hindex h => ?_, fun root v ref => ⟨fun h => ?_, ?_⟩⟩
  · have hslash : ∀ step, step ∈ bs.map Branch.written → '/' ∉ step := by
      intro step hstep
      obtain ⟨b, -, rfl⟩ := List.mem_map.1 hstep
      exact b.slash_not_mem_written
    have hnonempty : bs.map Branch.written ≠ [] := fun h => hne (List.map_eq_nil_iff.1 h)
    exact (resolve_ofSteps hnonempty hslash).2 (follows_written hindex h)
  · cases hsteps : steps? ref with
    | none =>
      rw [resolve, hsteps] at h
      cases h
    | some meant =>
      obtain ⟨steps, hne, hslash, rfl, -⟩ := exists_of_steps? hsteps
      exact ⟨steps, hne, hslash, rfl, (resolve_ofSteps hne hslash).1 h⟩
  · rintro ⟨steps, hne, hslash, rfl, hfollows⟩
    exact (resolve_ofSteps hne hslash).2 hfollows

/-- Keys that look like escapes, have a slash in them, or are empty. -/
def awkwardKeys : Value :=
  .map [(.str "~1", .list [.map [(.str "a/b", .map [(.str "", .str "found")])]])]

theorem resolve_decodes_awkwardKeys :
    reference [.field "~1", .item 0, .field "a/b", .field ""] = "#/~01/0/a~1b/" ∧
      resolve awkwardKeys "#/~01/0/a~1b/" = .ok (.str "found") ∧
      ∃ steps, "#/~01/0/a~1b/" = ofSteps steps ∧ Follows awkwardKeys steps (.str "found") := by
  have hpos : ∀ most, 0 < Nat.pow 10 most := fun most => Nat.pow_pos (by decide)
  have hindex : ∀ i, Branch.item i ∈ [.field "~1", .item 0, .field "a/b", .field ""] →
      i < Number.digitsLimit := by
    intro i hi
    simp only [List.mem_cons, Branch.item.injEq, reduceCtorEq, List.not_mem_nil, or_false,
      false_or] at hi
    subst hi
    delta Number.digitsLimit
    exact hpos Number.maxDigits
  have hwritten : reference [.field "~1", .item 0, .field "a/b", .field ""] = "#/~01/0/a~1b/" := by
    decide +kernel
  have hresolve := resolve_decodes.1 awkwardKeys (.str "found")
    [.field "~1", .item 0, .field "a/b", .field ""] (List.cons_ne_nil _ _) hindex rfl
  rw [hwritten] at hresolve
  obtain ⟨steps, -, -, href, hfollows⟩ :=
    (resolve_decodes.2 awkwardKeys (.str "found") "#/~01/0/a~1b/").1 hresolve
  exact ⟨hwritten, hresolve, steps, href, hfollows⟩

end Pointer

end TypedClients
