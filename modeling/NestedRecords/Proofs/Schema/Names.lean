import NestedRecords.Proofs.Schema.Acceptance
import NestedRecords.Proofs.Tree.Names
import NestedRecords.Proofs.Tree.Unwrapping

/-!
# Names in a schema

A schema text can give a field no other name than an identifier, or none at all. So the names in the
tree of a compiled schema are all of that kind, also those that come to its root when anonymous
structs are spread out.
-/

namespace NestedRecords

/-- The names that a derivation gives to its entries are names of its tokens. -/
theorem Derives.fieldNamesSpelled {tokens : List Token} {entries : List Entry}
    (h : Derives tokens entries)
    (hwritten : ∀ token ∈ tokens, ∃ text, token.lexeme.Written text) :
    Tree.FieldNamesSpelled (Declared.fields entries) := by
  have hlabel : ∀ {token : Token} {name newName : Option String} {type : Fragment},
      (∃ text, token.lexeme.Written text) → token.Introduces name newName type →
      Spelled (name.getD "") := by
    intro token name newName type hwritten head
    cases name with
    | none => exact .inl rfl
    | some name => exact .inr (Token.isIdentifier_name hwritten head name rfl)
  induction h with
  | nil => trivial
  | scalar head _ _ ih =>
    obtain ⟨hhead, htokens⟩ := List.forall_mem_cons.mp hwritten
    exact ⟨hlabel hhead head, trivial, ih htokens⟩
  | list head _ _ _ ihc ih =>
    simp only [List.forall_mem_cons, List.forall_mem_append] at hwritten
    obtain ⟨hhead, -, hcontent, -, htokens⟩ := hwritten
    exact ⟨hlabel hhead head, (ihc hcontent).2.1, ih htokens⟩
  | struct head _ _ _ ihc ih =>
    simp only [List.forall_mem_cons, List.forall_mem_append] at hwritten
    obtain ⟨hhead, -, hcontent, -, htokens⟩ := hwritten
    exact ⟨hlabel hhead head, ihc hcontent, ih htokens⟩

/-- The names in a compiled schema can be written down. -/
theorem fieldNamesSpelled_of_compile {source : Text} {options : CompileOptions} {schema : Schema}
    (h : compile source options = .ok schema) : Tree.FieldNamesSpelled schema.fields := by
  obtain ⟨-, entries, derived, -, rfl⟩ := compile_eq_ok_iff.mp h
  exact derived.fieldNamesSpelled fun token hmem => Fragment.exists_written_of_mem_lex _ token hmem

namespace Tree

mutual

theorem spelled_of_mem_unwrap {name : String} (hname : Spelled name) : ∀ type : Tree,
    type.NamesSpelled → ∀ other ∈ (unwrap name type).map Prod.fst, Spelled other
  | scalar _, _ => by simpa [unwrap] using hname
  | list _, _ => by simpa [unwrap] using hname
  | struct fields, h => by
    rw [unwrap]
    split
    · exact spelled_of_mem_unwrapFields fields h
    · simpa using hname

/-- Spreading anonymous structs out brings up no other names than those of fields. -/
theorem spelled_of_mem_unwrapFields : ∀ fields : List (String × Tree),
    FieldNamesSpelled fields → ∀ other ∈ (unwrapFields fields).map Prod.fst, Spelled other
  | [], _ => by simp [unwrapFields]
  | (name, type) :: rest, ⟨hname, htype, hrest⟩ => by
    rw [unwrapFields, List.map_append, List.forall_mem_append]
    exact ⟨spelled_of_mem_unwrap hname type htype, spelled_of_mem_unwrapFields rest hrest⟩

end

/-- However an anonymous struct arrives, the fields have names that can be written down. -/
theorem spelled_of_mem_arrival {fields : Fields} (h : FieldNamesSpelled fields)
    (present : List String) : ∀ name ∈ (arrival present fields).map Prod.fst, Spelled name := by
  unfold arrival
  split
  · exact spelled_of_mem_map_fst h
  · exact spelled_of_mem_unwrapFields fields h

end Tree

end NestedRecords
