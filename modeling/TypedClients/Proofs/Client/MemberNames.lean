import TypedClients.Proofs.Client.Imports
import TypedClients.Proofs.Naming.Candidates
import TypedClients.Proofs.Report.Reasons

/-!
# One member for each operation, under distinct names

The names of members are found one after the other, each against all that were given before. A
numbered name may be what a later operation would be called, which then is numbered in turn;
so a name is the first try that is free at its own place, and this makes all names distinct,
whatever the operations are called.

A client is made unless a parameter that its members write cannot be written, and there is no
other reason not to make it.

* `isFirst_distinctNames`: each name is the first try that differs from all before it.
* `failsFor_member`: when an operation has no member.
* `client_numbers_members`: what the client of every group is made of, and when there is none.
-/

namespace TypedClients.Client

open Naming (IsFirst isFirst_firstCandidate)

/-! ## Names -/

/-- The search finds the first try that is not taken. -/
theorem isFirst_free (taken : List String) (name : String) :
    IsFirst (· ∉ taken) name
      (Naming.firstCandidate (fun n => !taken.contains n) name taken.length) := by
  have htaken : ∀ n, (!taken.contains n) = true ↔ n ∉ taken := fun n => by simp
  have hfirst : IsFirst (fun n => (!taken.contains n) = true) name _ :=
    Naming.isFirst_firstCandidate (Nat.le_refl taken.length) fun c hc => (htaken c).2 hc
  exact hfirst.mono ((htaken _).1 hfirst.accepted) fun c hc => (htaken c).2 hc

/-- A name is none of those given before. -/
theorem not_mem_of_mem_distinctNames {taken names : List String} {n : String}
    (h : n ∈ distinctNames taken names) : n ∉ taken := by
  induction names generalizing taken with
  | nil => exact absurd h List.not_mem_nil
  | cons name rest ih =>
    rw [distinctNames, List.mem_cons] at h
    rcases h with rfl | h
    · exact (isFirst_free taken name).accepted
    · exact fun hn => ih h (List.mem_cons_of_mem _ hn)

/-- No two names are the same. -/
theorem nodup_distinctNames (taken names : List String) : (distinctNames taken names).Nodup := by
  induction names generalizing taken with
  | nil => exact List.nodup_nil
  | cons name rest ih =>
    rw [distinctNames]
    exact List.nodup_cons.2 ⟨fun h => not_mem_of_mem_distinctNames h List.mem_cons_self, ih _⟩

/-- Each name is the first try that is none of those given before. -/
theorem isFirst_distinctNames {taken names : List String} {i : Nat} {wanted given : String}
    (hwanted : names[i]? = some wanted) (hgiven : (distinctNames taken names)[i]? = some given) :
    IsFirst (fun n => n ∉ taken ∧ n ∉ (distinctNames taken names).take i) wanted given := by
  induction names generalizing taken i with
  | nil => cases hwanted
  | cons name rest ih =>
    rw [distinctNames] at hgiven ⊢
    cases i with
    | zero =>
      obtain rfl := Option.some.inj hwanted
      obtain rfl := Option.some.inj hgiven
      have hfirst := isFirst_free taken name
      exact hfirst.mono ⟨hfirst.accepted, List.not_mem_nil⟩ fun c hc => hc.1
    | succ i =>
      -- what is given here is taken for the names that follow
      have hlater := ih hwanted hgiven
      obtain ⟨hfree, hbefore⟩ := hlater.accepted
      rw [List.mem_cons, not_or] at hfree
      refine hlater.mono ⟨hfree.2, List.not_mem_cons_of_ne_of_not_mem hfree.1 hbefore⟩ ?_
      rintro c ⟨htaken, hbefore⟩
      rw [List.take_succ_cons, List.mem_cons, not_or] at hbefore
      exact ⟨List.not_mem_cons_of_ne_of_not_mem hbefore.1 htaken, hbefore.2⟩

example : distinctNames [] ["get1", "get", "get", "get1"] = ["get1", "get", "get2", "get11"] := by
  decide +kernel

/-! ## Members -/

/-- Why a parameter is not written: its schema has no type expression. -/
def Unwritten (names : Ordered String) (p : Parameter) (f : Failure) : Prop :=
  p.schema.render names = .error f

/-- Why a placeholder has no argument: the parameter that is declared for it is not written. -/
def UnwrittenAt (names : Ordered String) (o : Operation) (placeholder : String)
    (f : Failure) : Prop :=
  ∃ p, declared? o placeholder = some p ∧ Unwritten names p f

/-- Why an operation has no member: the parameter of a placeholder or one of the query is not
written. -/
def Memberless (names : Ordered String) (o : Operation) (f : Failure) : Prop :=
  (∃ x, x ∈ Naming.placeholders o.path ∧ UnwrittenAt names o x f) ∨
    ∃ p, p ∈ o.queryParams ∧ Unwritten names p f

theorem failsFor_render (names : Ordered String) (p : Parameter) :
    FailsFor (p.schema.render names) (Unwritten names p) fun _ => True := by
  refine ⟨fun f hf => hf, fun text htext => ⟨trivial, fun f hf => ?_⟩⟩
  rw [Unwritten, htext] at hf
  cases hf

theorem failsFor_pathArguments (o : Operation) (names : Ordered String)
    (placeholders : List String) :
    FailsFor (pathArguments o names placeholders)
      (fun f => ∃ x, x ∈ placeholders ∧ UnwrittenAt names o x f) fun _ => True := by
  induction placeholders with
  | nil => exact .of_ok trivial fun f hf => FailsFor.exists_mem_nil hf
  | cons x rest ih =>
    rw [pathArguments]
    refine FailsFor.congr (?_ : FailsFor _ (fun f => UnwrittenAt names o x f ∨
      ∃ y, y ∈ rest ∧ UnwrittenAt names o y f) _) fun f => FailsFor.exists_mem_cons
    cases hdeclared : declared? o x with
    | none =>
      refine FailsFor.congr (ih.map fun _ _ => trivial) fun f => (or_iff_right ?_).symm
      rintro ⟨p, hp, -⟩
      exact Option.some_ne_none p (hp.symm.trans hdeclared)
    | some p =>
      refine FailsFor.congr ((failsFor_render names p).bind fun type _ => ih.map fun _ _ => trivial)
        fun f => or_congr_left ⟨fun hf => ⟨p, hdeclared, hf⟩, ?_⟩
      rintro ⟨q, hq, hf⟩
      exact Option.some.inj (hq.symm.trans hdeclared) ▸ hf

theorem failsFor_queryMembers (names : Ordered String) (ps : List Parameter) :
    FailsFor (queryMembers names ps) (fun f => ∃ p, p ∈ ps ∧ Unwritten names p f)
    fun _ => True := by
  induction ps with
  | nil => exact .of_ok trivial fun f hf => FailsFor.exists_mem_nil hf
  | cons p rest ih =>
    rw [queryMembers]
    exact FailsFor.congr ((failsFor_render names p).bind fun type _ => ih.map fun _ _ => trivial)
      fun f => FailsFor.exists_mem_cons

theorem failsFor_queryArguments (o : Operation) (names : Ordered String) :
    FailsFor (queryArguments o names) (fun f => ∃ p, p ∈ o.queryParams ∧ Unwritten names p f)
      fun _ => True := by
  rw [queryArguments]
  split
  next hempty =>
    rw [List.isEmpty_iff.1 hempty]
    exact .of_ok trivial fun f hf => FailsFor.exists_mem_nil hf
  next => exact (failsFor_queryMembers names o.queryParams).map fun _ _ => trivial

/-- An operation has a member of the name it is given, unless a parameter is not written. -/
theorem failsFor_member (name : String) (o : Operation) (t : TypeTable) :
    FailsFor (member name o t) (Memberless t.referenceNames o) (·.name = name) := by
  rw [member]
  exact (failsFor_pathArguments o t.referenceNames _).bind fun path _ =>
    (failsFor_queryArguments o t.referenceNames).map fun _ _ => rfl

/-- A member is the one of an operation under a name. -/
def IsMember (t : TypeTable) (e : String × Operation) (m : Member) : Prop :=
  member e.1 e.2 t = .ok m ∧ m.name = e.1

theorem map_name_of_isMember {t : TypeTable} {entries : List (String × Operation)}
    {ms : List Member} (h : List.Forall₂ (IsMember t) entries ms) :
    ms.map Member.name = entries.map Prod.fst := by
  induction h with
  | nil => rfl
  | cons hm _ ih => rw [List.map_cons, List.map_cons, hm.2, ih]

theorem failsFor_members (t : TypeTable) (entries : List (String × Operation)) :
    FailsFor (members t entries)
      (fun f => ∃ o, o ∈ entries.map Prod.snd ∧ Memberless t.referenceNames o f)
      (List.Forall₂ (IsMember t) entries) := by
  induction entries with
  | nil => exact .of_ok .nil fun f hf => FailsFor.exists_mem_nil hf
  | cons e rest ih =>
    obtain ⟨name, o⟩ := e
    rw [members]
    exact FailsFor.congr ((failsFor_member name o t).returned.bind fun m hm =>
      ih.map fun ms hms => .cons hm hms) fun f => FailsFor.exists_mem_cons

/-! ## Clients -/

/-- The members of a client are those of the operations of its group, in order, under distinct
names. Each is called like its operation or, if an earlier one is, with the least number
behind it that no earlier one has. -/
structure NumbersMembers (t : TypeTable) (style : Endpoints.NameStyle) (g : Group)
    (client : ClientModule) : Prop where
  each : List.Forall₂ (fun o m => member m.name o t = .ok m) g.operations client.members
  distinct : (client.members.map Member.name).Nodup
  first : ∀ i o m, g.operations[i]? = some o → client.members[i]? = some m →
    IsFirst (· ∉ (client.members.take i).map Member.name) (memberName style o) m.name

/-- Members under distinct names number the operations of a group. -/
theorem numbersMembers_of_members {t : TypeTable} {style : Endpoints.NameStyle} {g : Group}
    {client : ClientModule} (h : List.Forall₂ (IsMember t)
      ((distinctNames [] (g.operations.map (memberName style))).zip g.operations) client.members) :
    NumbersMembers t style g client := by
  have hlength : (distinctNames [] (g.operations.map (memberName style))).length =
      g.operations.length := by rw [length_distinctNames, List.length_map]
  -- the names and the operations are cut off nowhere
  have hnames : client.members.map Member.name =
      distinctNames [] (g.operations.map (memberName style)) := by
    rw [map_name_of_isMember h, List.map_fst_zip (Nat.le_of_eq hlength)]
  have hoperations : List.Forall₂ (fun o m => member m.name o t = .ok m)
      (((distinctNames [] (g.operations.map (memberName style))).zip g.operations).map Prod.snd)
      client.members := by
    rw [List.forall₂_map_left_iff]
    exact h.imp fun e m hm => by rw [hm.2]; exact hm.1
  rw [List.map_snd_zip (Nat.le_of_eq hlength.symm)] at hoperations
  refine ⟨hoperations, hnames ▸ nodup_distinctNames _ _, fun i o m ho hm => ?_⟩
  have hwanted : (g.operations.map (memberName style))[i]? = some (memberName style o) := by
    rw [List.getElem?_map, ho]
    rfl
  have hgiven : (distinctNames [] (g.operations.map (memberName style)))[i]? = some m.name := by
    rw [← hnames, List.getElem?_map, hm]
    rfl
  have hfirst := isFirst_distinctNames hwanted hgiven
  rw [List.map_take, hnames]
  exact hfirst.mono hfirst.accepted.2 fun c hc => ⟨List.not_mem_nil, hc⟩

/-- The client of every group has one member for each operation, in order, under distinct
names, each of them the first that is free. There is no client only if an operation has no
member. -/
theorem client_numbers_members (g : Group) (t : TypeTable) (style : Endpoints.NameStyle) :
    FailsFor (g.client t style)
      (fun f => ∃ o, o ∈ g.operations ∧ Memberless t.referenceNames o f)
      (NumbersMembers t style g) := by
  have hlength : g.operations.length ≤
      (distinctNames [] (g.operations.map (memberName style))).length :=
    Nat.le_of_eq (by rw [length_distinctNames, List.length_map])
  have hmembers := failsFor_members t
    ((distinctNames [] (g.operations.map (memberName style))).zip g.operations)
  rw [List.map_snd_zip hlength] at hmembers
  rw [Group.client]
  exact hmembers.map fun ms hms => numbersMembers_of_members hms

end TypedClients.Client
