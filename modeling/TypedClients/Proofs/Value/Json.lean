import TypedClients.Json.Printer
import TypedClients.Json.Reader
import TypedClients.Proofs.Report.Outcome
import TypedClients.Schema.Reader

/-!
# Values that JSON texts stand for

A value from a JSON text is made of fewer kinds than a value in general: the keys of its maps
are texts, its whole numbers have no more digits than can be written, and there is nothing in
it that contains itself.

* `isJson_read`: what is read from a JSON text is such a value.
* `IsJson.get?`, `IsJson.items?`: so is what is found in one.
* `exists_compact`: such a value can be written.
-/

namespace TypedClients

namespace Value

/-- A value that a JSON text may stand for. -/
inductive IsJson : Value → Prop
  | null : IsJson null
  | bool (b : Bool) : IsJson (bool b)
  | int {i : Int} (h : i.natAbs < Number.digitsLimit) : IsJson (int i)
  | float (x : Float) : IsJson (float x)
  | str (s : String) : IsJson (str s)
  | list {vs : List Value} (items : ∀ v, v ∈ vs → IsJson v) : IsJson (list vs)
  | map {es : List (Value × Value)} (keys : ∀ e, e ∈ es → ∃ s, e.1 = Value.str s)
      (values : ∀ e, e ∈ es → IsJson e.2) : IsJson (map es)

namespace IsJson

variable {v w : Value} {key : String}

theorem list_nil : (Value.list []).IsJson := .list fun _ hv => absurd hv List.not_mem_nil

theorem list_cons {vs : List Value} (hv : v.IsJson) (hvs : (Value.list vs).IsJson) :
    (Value.list (v :: vs)).IsJson := by
  cases hvs with
  | list items => exact .list (List.forall_mem_cons.2 ⟨hv, items⟩)

theorem map_nil : (Value.map []).IsJson :=
  .map (fun _ he => absurd he List.not_mem_nil) fun _ he => absurd he List.not_mem_nil

theorem map_cons {name : String} {es : List (Value × Value)} (hv : v.IsJson)
    (hes : (Value.map es).IsJson) :
    (Value.map ((Value.str name, v) :: es)).IsJson := by
  cases hes with
  | map keys values =>
    exact .map (List.forall_mem_cons.2 ⟨⟨name, rfl⟩, keys⟩) (List.forall_mem_cons.2 ⟨hv, values⟩)

theorem isEndless (h : v.IsJson) : v.isEndless = false := by cases h <;> rfl

theorem of_mem_entries (h : v.IsJson) {e : Value × Value} (he : e ∈ v.entries) :
    (∃ s, e.1 = Value.str s) ∧ e.2.IsJson := by
  cases h with
  | map keys values => exact ⟨keys e he, values e he⟩
  | _ => exact absurd he List.not_mem_nil

theorem get? (h : v.IsJson) (hw : v.get? key = some w) : w.IsJson := by
  obtain ⟨e, he, rfl⟩ := Option.map_eq_some_iff.1 hw
  exact (h.of_mem_entries (List.mem_of_find?_eq_some he)).2

theorem getD (h : v.IsJson) : ((v.get? key).getD .null).IsJson := by
  cases hw : v.get? key with
  | none => exact .null
  | some w => exact h.get? hw

theorem items? (h : v.IsJson) {vs : List Value} (hvs : v.items? = some vs) (hw : w ∈ vs) :
    w.IsJson := by
  cases h with
  | list items =>
    cases hvs
    exact items w hw
  | _ => cases hvs

theorem list? (h : v.IsJson) {vs : List Value} (hvs : v.list? key = some vs) (hw : w ∈ vs) :
    w.IsJson := by
  obtain ⟨u, hu, hvs⟩ := Option.bind_eq_some_iff.1 hvs
  exact (h.get? hu).items? hvs hw

theorem entries? (h : v.IsJson) {es : List (Value × Value)} (hes : v.entries? = some es)
    {e : Value × Value} (he : e ∈ es) : (∃ s, e.1 = Value.str s) ∧ e.2.IsJson := by
  rw [Value.entries?] at hes
  split at hes
  next =>
    cases hes
    exact h.of_mem_entries he
  next => cases hes

theorem properties? (h : v.IsJson) {es : List (Value × Value)} (hes : v.properties? = some es)
    {e : Value × Value} (he : e ∈ es) : (∃ s, e.1 = Value.str s) ∧ e.2.IsJson := by
  obtain ⟨w, hw, hes⟩ := Option.bind_eq_some_iff.1 hes
  exact (h.get? hw).entries? hes he

end IsJson

/-! ## Entries under texts -/

theorem keyIssues_eq_nil {α : Type} {field : String} {es : List (Value × α)}
    (h : ∀ e, e ∈ es → ∃ s, e.1 = str s) : keyIssues field es = [] := by
  rw [keyIssues, List.filterMap_eq_nil_iff]
  rintro ⟨k, a⟩ he
  obtain ⟨s, rfl⟩ := h (k, a) he
  rfl

theorem textKeyed_eq_self_of_str {α : Type} {es : List (Value × α)}
    (h : ∀ e, e ∈ es → ∃ s, e.1 = str s) : textKeyed es = es := by
  refine textKeyed_eq_self fun e he => ?_
  obtain ⟨s, hs⟩ := h e he
  rw [hs]
  rfl

theorem mem_of_mem_named {α : Type} {es : List (Value × α)} (h : ∀ e, e ∈ es → ∃ s, e.1 = str s)
    {name : String} {a : α} : (name, a) ∈ named es ↔ (str name, a) ∈ es := by
  refine mem_named fun e he => ?_
  obtain ⟨s, hs⟩ := h e he
  rw [hs]
  rfl

end Value

/-! ## Reading a text -/

namespace Json

open Value (IsJson)

/-! ### Numbers -/

/-- A text of digits stands for less than one and as many zeros. -/
theorem value_lt {ds : List Char} (h : ∀ c, c ∈ ds → Text.isAsciiDigit c = true) :
    Number.value ds < Nat.pow 10 ds.length := by
  have hrun : ∀ n, ds.foldl (fun n c => 10 * n + (c.toNat - '0'.toNat)) n <
      (n + 1) * 10 ^ ds.length := by
    induction ds with
    | nil =>
      intro n
      rw [List.foldl_nil, List.length_nil, Nat.pow_zero, Nat.mul_one]
      exact Nat.lt_succ_self n
    | cons c rest ih =>
      intro n
      have hc := h c List.mem_cons_self
      have h0 : ('0' : Char).toNat = 48 := rfl
      have h9 : ('9' : Char).toNat = 57 := rfl
      rw [Text.isAsciiDigit, Bool.and_eq_true, decide_eq_true_eq, decide_eq_true_eq, h0, h9] at hc
      have hrest := ih (fun d hd => h d (List.mem_cons_of_mem _ hd)) (10 * n + (c.toNat - 48))
      have hstep : 10 * n + (c.toNat - 48) + 1 ≤ (n + 1) * 10 := by omega
      rw [List.foldl_cons, List.length_cons, Nat.pow_succ', ← Nat.mul_assoc, h0]
      exact Nat.lt_of_lt_of_le hrest (Nat.mul_le_mul_right _ hstep)
  have hzero := hrun 0
  rw [Nat.zero_add, Nat.one_mul] at hzero
  exact hzero

/-- A number of digits that are not too many can be written again, with either sign. -/
theorem isJson_int {negative : Bool} {ds : List Char} (h : ∀ c, c ∈ ds → Text.isAsciiDigit c = true)
    (hshort : ds.length ≤ Number.maxDigits) :
    (Value.int (if negative then -(Number.value ds : Int) else Number.value ds)).IsJson := by
  have hlimit : ∀ most, ds.length ≤ most → Number.value ds < Nat.pow 10 most :=
    fun _ hmost => Nat.lt_of_lt_of_le (value_lt h) (Nat.pow_le_pow_right (by decide) hmost)
  have hvalue : Number.value ds < Number.digitsLimit := by
    delta Number.digitsLimit
    exact hlimit Number.maxDigits hshort
  have habs : ∀ n : Nat, (if negative then -(n : Int) else n).natAbs = n := by
    intro n
    split
    · rw [Int.natAbs_neg, Int.natAbs_natCast]
    · exact Int.natAbs_natCast n
  exact .int (Nat.lt_of_le_of_lt (Nat.le_of_eq (habs _)) hvalue)

/-- A number is one of these if it has neither a fraction nor an exponent, and a double
otherwise. -/
theorem isJson_number {negative whole? : Bool} {fault : Fault}
    {ds rest after : List Char} {x : Float} {found : Value × List Char}
    (hds : ∀ c, c ∈ ds → Text.isAsciiDigit c = true)
    (h : (if whole? then
        if ds.length > Number.maxDigits then .error fault
        else .ok (some
          (.int (if negative then -(Number.value ds : Int) else Number.value ds), rest))
      else .ok (some (.float x, after)) : Except Fault (Option (Value × List Char))) =
        .ok (some found)) : found.1.IsJson := by
  split at h
  next =>
    split at h
    next => cases h
    next hshort =>
      obtain rfl := Option.some.inj (Except.ok.inj h)
      exact isJson_int hds (Nat.not_lt.1 hshort)
  next =>
    obtain rfl := Option.some.inj (Except.ok.inj h)
    exact .float x

theorem isJson_unsigned? {negative : Bool} {s : List Char} {found : Value × List Char}
    (h : unsigned? negative s = .ok (some found)) : found.1.IsJson := by
  unfold unsigned? at h
  split at h
  next ds rest hrun =>
    -- a leading zero stands alone, any other digit brings the ones behind it
    have hdigits : ∀ c, c ∈ ds → Text.isAsciiDigit c = true := by
      split at hrun
      · obtain ⟨rfl, -⟩ := Prod.mk.inj hrun
        exact List.all_eq_true.1 (by decide)
      · obtain ⟨rfl, -⟩ := Prod.mk.inj hrun
        exact List.all_eq_true.1 List.all_takeWhile
    split at h
    next => cases h
    next => exact isJson_number hdigits h

theorem isJson_atom {s : List Char} {found : Value × List Char} (h : atom s = .ok found) :
    found.1.IsJson := by
  unfold atom at h
  dsimp only at h
  split at h
  next hfound =>
    cases h
    obtain ⟨⟨word, w⟩, hmem, hafter⟩ := List.exists_of_findSome?_eq_some hfound
    obtain ⟨_, -, rfl⟩ := Option.map_eq_some_iff.1 hafter
    simp only [List.mem_cons, Prod.mk.injEq, List.not_mem_nil, or_false] at hmem
    rcases hmem with ⟨-, rfl⟩ | ⟨-, rfl⟩ | ⟨-, rfl⟩ | ⟨-, rfl⟩ | ⟨-, rfl⟩ | ⟨-, rfl⟩
    · exact .null
    · exact .bool true
    · exact .bool false
    · exact .float _
    · exact .float _
    · exact .float _
  next =>
    -- with a sign or without, a number is read
    split at h
    all_goals
      obtain ⟨number, hnumber, h⟩ := bind_eq_ok.1 h
      split at h
      next =>
        cases h
        exact isJson_unsigned? hnumber
      next => cases h

/-! ### Collections -/

/-- Entries that the map of a JSON object may have. -/
structure AreMembers (es : List (Value × Value)) : Prop where
  keys : ∀ e, e ∈ es → ∃ s, e.1 = Value.str s
  values : ∀ e, e ∈ es → e.2.IsJson

/-- Storing a member keeps this. -/
theorem AreMembers.upsert {es : List (Value × Value)} (h : AreMembers es)
    (name : String) {v : Value} (hv : v.IsJson) : AreMembers (Value.upsert (.str name) v es) := by
  have hmem : ∀ e, e ∈ Value.upsert (.str name) v es →
      e ∈ es ∨ ((∃ s, e.1 = Value.str s) ∧ e.2.IsJson) := by
    obtain ⟨keys, -⟩ := h
    induction es with
    | nil =>
      intro e he
      rw [List.mem_singleton.1 he]
      exact Or.inr ⟨⟨name, rfl⟩, hv⟩
    | cons e' rest ih =>
      obtain ⟨k, w⟩ := e'
      intro e he
      rw [Value.upsert] at he
      split at he
      · rcases List.mem_cons.1 he with rfl | he
        · exact Or.inr ⟨keys (k, w) List.mem_cons_self, hv⟩
        · exact Or.inl (List.mem_cons_of_mem _ he)
      · rcases List.mem_cons.1 he with rfl | he
        · exact Or.inl List.mem_cons_self
        · exact (ih (fun e he => keys e (List.mem_cons_of_mem _ he)) e he).imp_left
            (List.mem_cons_of_mem _)
  exact ⟨fun e he => (hmem e he).elim (h.keys e) And.left,
    fun e he => (hmem e he).elim (h.values e) And.right⟩

/-- What the three readers return under an allowance comes from JSON. -/
structure ReadsJson (n : Nat) : Prop where
  value : ∀ s v rest, Json.value n s = .ok (v, rest) → v.IsJson
  items : ∀ s vs rest, itemsRest n s = .ok (vs, rest) → ∀ v, v ∈ vs → v.IsJson
  members : ∀ done s es rest, membersRest n done s = .ok (es, rest) →
    AreMembers done → AreMembers es

theorem areMembers_nil : AreMembers [] :=
  ⟨fun _ he => absurd he List.not_mem_nil, fun _ he => absurd he List.not_mem_nil⟩

theorem ReadsJson.value_succ {n : Nat} (ih : ReadsJson n) {s rest : List Char} {v : Value}
    (h : Json.value (n + 1) s = .ok (v, rest)) : v.IsJson := by
  rw [Json.value.eq_def] at h
  dsimp only at h
  split at h
  · obtain ⟨⟨text, after⟩, -, h⟩ := bind_eq_ok.1 h
    cases h
    exact .str text
  · split at h
    · cases h
      exact IsJson.list_nil
    · obtain ⟨⟨items, after⟩, hread, h⟩ := bind_eq_ok.1 h
      cases h
      exact .list (ih.items _ _ _ hread)
  · split at h
    · cases h
      exact IsJson.map_nil
    · obtain ⟨⟨members, after⟩, hread, h⟩ := bind_eq_ok.1 h
      cases h
      have hall := ih.members _ _ _ _ hread areMembers_nil
      exact .map hall.keys hall.values
  · exact isJson_atom h

theorem ReadsJson.items_succ {n : Nat} (ih : ReadsJson n) {s rest : List Char} {vs : List Value}
    (h : itemsRest (n + 1) s = .ok (vs, rest)) : ∀ v, v ∈ vs → v.IsJson := by
  rw [itemsRest] at h
  obtain ⟨⟨v, after⟩, hv, h⟩ := bind_eq_ok.1 h
  have hfirst := ih.value _ _ _ hv
  dsimp only at h
  split at h
  · cases h
    exact fun w hw => List.mem_singleton.1 hw ▸ hfirst
  · obtain ⟨⟨others, after'⟩, hothers, h⟩ := bind_eq_ok.1 h
    cases h
    exact List.forall_mem_cons.2 ⟨hfirst, ih.items _ _ _ hothers⟩
  · cases h

theorem ReadsJson.members_succ {n : Nat} (ih : ReadsJson n) {done es : List (Value × Value)}
    {s rest : List Char} (h : membersRest (n + 1) done s = .ok (es, rest))
    (hdone : AreMembers done) :
    AreMembers es := by
  rw [membersRest.eq_def] at h
  dsimp only at h
  split at h
  · obtain ⟨⟨name, after⟩, -, h⟩ := bind_eq_ok.1 h
    dsimp only at h
    split at h
    · obtain ⟨after', -, h⟩ := bind_eq_ok.1 h
      obtain ⟨⟨v, after''⟩, hv, h⟩ := bind_eq_ok.1 h
      have hmore := hdone.upsert name (ih.value _ _ _ hv)
      dsimp only at h
      split at h
      · cases h
        exact hmore
      · exact ih.members _ _ _ _ h hmore
      · cases h
    · cases h
  · cases h

/-- Whatever the allowance: the three readers call each other with less of it. -/
theorem readsJson (n : Nat) : ReadsJson n := by
  induction n with
  | zero =>
    refine ⟨fun s v rest h => ?_, fun s vs rest h => ?_, fun done s es rest h => ?_⟩
    · rw [Json.value] at h
      cases h
    · rw [itemsRest] at h
      cases h
    · rw [membersRest] at h
      cases h
  | succ n ih =>
    exact ⟨fun _ _ _ => ih.value_succ, fun _ _ _ => ih.items_succ, fun _ _ _ _ => ih.members_succ⟩

/-- What is read from a JSON text may stand for one. -/
theorem isJson_read {text : String} {v : Value} (h : read text = .ok v) : v.IsJson := by
  unfold read at h
  split at h
  next w hw =>
    cases h
    unfold document at hw
    split at hw
    · cases hw
    · obtain ⟨⟨u, rest⟩, hu, hw⟩ := bind_eq_ok.1 hw
      dsimp only at hw
      split at hw
      · cases hw
        exact (readsJson _).value _ _ _ hu
      · cases hw
  next => cases h

/-! ## Writing -/

theorem exists_compactItems {vs : List Value} (h : ∀ v, v ∈ vs → ∃ text, compact v = .ok text) :
    ∃ texts, compactItems vs = .ok texts := by
  induction vs with
  | nil => exact ⟨[], rfl⟩
  | cons v rest ih =>
    obtain ⟨text, htext⟩ := h v List.mem_cons_self
    obtain ⟨texts, htexts⟩ := ih fun w hw => h w (List.mem_cons_of_mem _ hw)
    rw [compactItems, htext, htexts]
    exact ⟨_, rfl⟩

theorem exists_compactEntries {es : List (Value × Value)}
    (hkeys : ∀ e, e ∈ es → ∃ s, e.1 = Value.str s)
    (h : ∀ e, e ∈ es → ∃ text, compact e.2 = .ok text) :
    ∃ texts, compactEntries es = .ok texts := by
  induction es with
  | nil => exact ⟨[], rfl⟩
  | cons e rest ih =>
    obtain ⟨k, v⟩ := e
    obtain ⟨s, rfl⟩ := hkeys (k, v) List.mem_cons_self
    obtain ⟨text, htext⟩ := h (.str s, v) List.mem_cons_self
    obtain ⟨texts, htexts⟩ := ih (fun e he => hkeys e (List.mem_cons_of_mem _ he))
      fun e he => h e (List.mem_cons_of_mem _ he)
    rw [compactEntries, htext, htexts]
    exact ⟨_, rfl⟩

/-- A value that a JSON text may stand for can be written as one. -/
theorem exists_compact {v : Value} (h : v.IsJson) : ∃ text, compact v = .ok text := by
  induction h with
  | null => exact ⟨_, rfl⟩
  | bool b => exact ⟨_, rfl⟩
  | int hlimit =>
    rw [compact, if_pos hlimit]
    exact ⟨_, rfl⟩
  | float x => exact ⟨_, rfl⟩
  | str s => exact ⟨_, rfl⟩
  | list _ ih =>
    obtain ⟨texts, htexts⟩ := exists_compactItems ih
    rw [compact, htexts]
    exact ⟨_, rfl⟩
  | map hkeys _ ih =>
    obtain ⟨texts, htexts⟩ := exists_compactEntries hkeys ih
    rw [compact, htexts]
    exact ⟨_, rfl⟩

end Json

end TypedClients
