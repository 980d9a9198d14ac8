import TypedClients.Proofs.Client.Placeholders
import TypedClients.Proofs.Types.History

/-!
# Names from documents are identifiers

Definitions, placeholders and paths may be called anything. What is declared after them is
not: the names of definitions and of arguments are cleaned in the end, those of operations and
of their types begin with the word of a method and go on with words in Pascal case, and a name
that is taken gets a number, which may stand behind any identifier. Cleaning leaves
identifiers as they are, and nothing else.

* `isIdentifier_register`: a table registers nothing under a name that is no identifier if it
  was asked for one.
* `names_are_identifiers`: all the ways in which a name comes about.
-/

namespace TypedClients

/-- What is registered under an identifier is found under one, however many tries it takes. -/
theorem TypeTable.isIdentifier_register {name : String} (h : Naming.isIdentifier name.toList = true)
    (t : TypeTable) (body source : String) :
    Naming.isIdentifier (t.register name body source).value.1.toList = true := by
  obtain ⟨n, hn, -⟩ := isFirst_settledName t name body
  rw [value_register, hn]
  exact Naming.isIdentifier_candidate h n

namespace Naming

open Client (pathArgument)

theorem identifier_eq_self_iff (s : String) : identifier s = s ↔ isIdentifier s.toList = true := by
  rw [← String.toList_inj, identifier, String.toList_ofList, identifierChars_eq_self_iff]

/-- The names of types, of parameters and of the arguments for placeholders are identifiers;
the names of an operation and of its types are the word of its method and letters and digits
behind it; what is registered under an identifier gets one; and cleaning a name makes an
identifier of it, which it leaves as it is. -/
theorem names_are_identifiers :
    (∀ s, isIdentifier (typeName s).toList = true ∧ isIdentifier (argumentName s).toList = true ∧
      isIdentifier (pathArgument s).toList = true) ∧
    (∀ (m : Method) (method : String), Text.lowerString method = m.word →
      ∀ path versions window name, name ∈ [operationName method path versions window,
          requestName method path versions window, responseName method path versions window] →
        isIdentifier name.toList = true ∧ ∃ rest, name = m.word ++ rest ∧ Plain rest.toList) ∧
    (∀ (t : TypeTable) (name body source : String), isIdentifier name.toList = true →
      isIdentifier (t.register name body source).value.1.toList = true) ∧
    (∀ s, identifier (identifier s) = identifier s) ∧
    ∀ s, identifier s = s ↔ isIdentifier s.toList = true := by
  refine ⟨fun s => ⟨?_, ?_, ?_⟩, fun m method h path versions window name hname => ?_,
    fun t name body source h => ?_, fun s => ?_, identifier_eq_self_iff⟩
  · exact isIdentifier_identifier (pascal s)
  · exact isIdentifier_identifier (camel s)
  · exact Client.isIdentifier_pathArgument s
  · have hbehind : ∃ rest, name = m.word ++ rest ∧ Plain rest.toList := by
      simp only [List.mem_cons, List.not_mem_nil, or_false] at hname
      rcases hname with rfl | rfl | rfl
      · exact exists_operationName h path versions window
      · exact exists_requestName h path versions window
      · exact exists_responseName h path versions window
    exact ⟨isIdentifier_behind_word hbehind, hbehind⟩
  · exact TypeTable.isIdentifier_register h t body source
  · exact (identifier_eq_self_iff (identifier s)).2 (isIdentifier_identifier s)

/-- An operation on a path of other letters, and a type that asks for a name of the transport. -/
theorem names_are_identifiers_reserved :
    Text.lowerString "GET" = Method.get.word ∧ isIdentifier "RequestOptions".toList = true ∧
    (isIdentifier (responseName "GET" "/visits/{½-day}" defaultVersionSegments 1).toList = true ∧
      ∃ rest, responseName "GET" "/visits/{½-day}" defaultVersionSegments 1 = "get" ++ rest ∧
        Plain rest.toList) ∧
    (TypeTable.empty.register "RequestOptions" "string" "schema:RequestOptions").value.1 =
      "RequestOptions1" ∧
    isIdentifier (TypeTable.empty.register "RequestOptions" "string"
      "schema:RequestOptions").value.1.toList = true := by
  have hget : Text.lowerString "GET" = Method.get.word := by decide +kernel
  have hname : isIdentifier "RequestOptions".toList = true := by decide
  refine ⟨hget, hname, ?_, by decide +kernel, ?_⟩
  · exact names_are_identifiers.2.1 .get "GET" hget "/visits/{½-day}" defaultVersionSegments 1 _
      (List.mem_cons_of_mem _ (List.mem_cons_of_mem _ List.mem_cons_self))
  · exact names_are_identifiers.2.2.1 .empty "RequestOptions" "string" "schema:RequestOptions" hname

end Naming

end TypedClients
