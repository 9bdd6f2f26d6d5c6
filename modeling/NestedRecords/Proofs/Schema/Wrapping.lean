import NestedRecords.Proofs.Schema.Acceptance

/-!
# Schemas in an anonymous struct

A schema text can stand as the content of a struct that has no name. The struct adds a level to the
tree and nothing else: its name is empty, so it leaves no trace in the json paths of the leaves, and
none of them takes its column from it.

The text of the struct has other positions than the text in it, so the tokens of the two differ.
They spell the same lexemes, and this is all that a derivation depends on (`Derives.congr`).
-/

namespace NestedRecords

open CodeUnit Declared

/-! ### Tokens that say the same -/

/-- Tokens of one lexeme introduce the same entry. -/
theorem Token.introduces_congr {token token' : Token} (h : token.lexeme = token'.lexeme)
    {name newName : Option String} {type : Fragment} (head : token.Introduces name newName type) :
    ∃ type', token'.Introduces name newName type' ∧ type'.toString = type.toString := by
  have hstring : ∀ {f g : Fragment}, f.text = g.text → g.toString = f.toString := fun hfg => by
    rw [Fragment.toString, Fragment.toString, hfg]
  cases head with
  | renamed first second third =>
    cases token' with
    | renamed first' second' third' =>
      obtain ⟨hfirst, hsecond, hthird⟩ := Lexeme.renamed.inj h
      refine ⟨third', ?_, hstring hthird⟩
      rw [← hstring hfirst, ← hstring hsecond]
      exact .renamed first' second' third'
    | «attribute» | lone | opening | closing => contradiction
  | named first second =>
    cases token' with
    | «attribute» first' second' =>
      obtain ⟨hfirst, hsecond⟩ := Lexeme.attribute.inj h
      refine ⟨second', ?_, hstring hsecond⟩
      rw [← hstring hfirst]
      exact .named first' second'
    | renamed | lone | opening | closing => contradiction
  | lone first =>
    cases token' with
    | lone first' => exact ⟨first', .lone first', hstring (Lexeme.lone.inj h)⟩
    | renamed | «attribute» | opening | closing => contradiction

/-- **Derivations and places.** Tokens derive what other tokens of the same lexemes derive. -/
theorem Derives.congr {tokens : List Token} {entries : List Entry} (h : Derives tokens entries) :
    ∀ {tokens' : List Token}, tokens.map Token.lexeme = tokens'.map Token.lexeme →
      Derives tokens' entries := by
  induction h with
  | nil =>
    intro tokens' hsame
    obtain rfl := List.map_eq_nil_iff.mp hsame.symm
    exact .nil
  | scalar head known _ ih =>
    intro tokens' hsame
    obtain ⟨token', rest, rfl, htoken, hrest⟩ := List.map_eq_cons_iff.mp hsame.symm
    obtain ⟨type', head', htype⟩ := Token.introduces_congr htoken.symm head
    exact .scalar head' (htype ▸ known) (ih hrest.symm)
  | list head known _ _ ihc ih =>
    intro tokens' hsame
    rw [List.map_cons, List.map_cons, List.map_append, List.map_cons] at hsame
    obtain ⟨token', _, content', _, more', rfl, htoken, hcontent, hmore⟩ :=
      Token.exists_container_of_lexemes hsame.symm
    obtain ⟨type', head', htype⟩ := Token.introduces_congr htoken.symm head
    exact .list head' (htype ▸ known) (ihc hcontent.symm) (ih hmore.symm)
  | struct head known _ _ ihc ih =>
    intro tokens' hsame
    rw [List.map_cons, List.map_cons, List.map_append, List.map_cons] at hsame
    obtain ⟨token', _, content', _, more', rfl, htoken, hcontent, hmore⟩ :=
      Token.exists_container_of_lexemes hsame.symm
    obtain ⟨type', head', htype⟩ := Token.introduces_congr htoken.symm head
    exact .struct head' (htype ▸ known) (ihc hcontent.symm) (ih hmore.symm)

/-! ### The text of the struct -/

/-- A schema text as the content of a struct without a name. -/
def Text.wrapped (source : Text) : Text := ofString "Struct(" ++ (source ++ ofString ")")

/-- The struct has its keyword and a bracket in front of what it holds, and a bracket behind. -/
theorem Laid.wrapped {lexemes : List Lexeme} {text : Text} (h : Laid lexemes text) :
    Laid (.lone (Text.ofString "Struct") :: .opening [ofChar '('] ::
      (lexemes ++ [.closing [ofChar ')']])) text.wrapped := by
  have hkeyword : (Lexeme.lone (Text.ofString "Struct")).Written (Text.ofString "Struct") :=
    .lone (by decide +kernel)
  have hnone : Text.IsFiller [] := List.forall_mem_nil _
  have hclosing : Laid [.closing [ofChar ')']] ([] ++ ([ofChar ')'] ++ [])) :=
    .cons hnone (.closing (by decide)) (fun hends => absurd hends Bool.false_ne_true) (.nil hnone)
  have hbracket : ∀ u ∈ ([] ++ ([ofChar ')'] ++ []) : Text).head?, u.isWord = false := by
    intro u hu
    obtain rfl := Option.some.inj hu
    decide
  have hcontent := h.append hclosing hbracket
  have hopening : Laid (.opening [ofChar '('] :: (lexemes ++ [.closing [ofChar ')']]))
      ([] ++ ([ofChar '('] ++ (text ++ [ofChar ')']))) :=
    .cons hnone (.opening (by decide)) (fun hends => absurd hends Bool.false_ne_true) hcontent
  have hstruct : Laid _ ([] ++ (Text.ofString "Struct" ++ ([] ++ ([ofChar '('] ++ _)))) :=
    .cons hnone hkeyword (fun _ u hu => ?_) hopening
  · exact hstruct
  · obtain rfl : ofChar '(' = u := Option.some.inj hu
    decide

theorem Text.unifyLineEndings_wrapped (source : Text) :
    source.wrapped.unifyLineEndings = source.unifyLineEndings.wrapped := by
  rw [wrapped, unifyLineEndings_append (.inr (by decide +kernel)),
    unifyLineEndings_append (.inl (by decide +kernel)),
    unifyLineEndings_eq_self (by decide +kernel : carriageReturn ∉ ofString "Struct("),
    unifyLineEndings_eq_self (by decide +kernel : carriageReturn ∉ ofString ")")]
  rfl

/-- The tokens of the struct derive one entry, which holds what the text in it derives. -/
theorem derives_wrapped {source : Text} {entries : List Entry}
    (hlexed : (Fragment.ofSource source).tokens.2 = none)
    (h : Derives (Fragment.ofSource source).tokens.1 entries) :
    (Fragment.ofSource source.wrapped).tokens.2 = none ∧
      Derives (Fragment.ofSource source.wrapped).tokens.1 [(none, .struct entries)] := by
  have hlaid : Laid _ (Fragment.ofSource source.wrapped).text :=
    Text.unifyLineEndings_wrapped source ▸
      (Fragment.laid_of_lex _ (Fragment.tokens_snd_eq_none_iff.mp hlexed)).wrapped
  obtain ⟨hlexemes, hend⟩ := Fragment.lex_of_laid hlaid rfl
  refine ⟨Fragment.tokens_snd_eq_none_iff.mpr hend, ?_⟩
  have hknown : TypeName.ofName? (Text.ofString "Struct").toString = some (.container .struct) := by
    decide +kernel
  obtain ⟨token, opening, content, closing, rest, htokens, htoken, hcontent, hrest⟩ :=
    Token.exists_container_of_lexemes hlexemes
  obtain rfl := List.map_eq_nil_iff.mp hrest
  have hkeyword : (Token.lone ⟨Text.ofString "Struct", .origin⟩).lexeme = token.lexeme :=
    htoken.symm
  obtain ⟨type, head, htype⟩ := Token.introduces_congr hkeyword (.lone _)
  change Derives (Fragment.ofSource source.wrapped).lex.1 _
  rw [htokens]
  exact .struct head (htype ▸ hknown) (h.congr hcontent.symm) .nil

/-! ### The schema of the struct -/

namespace Declared

mutual

/-- An anonymous container around all others leaves no trace in a leaf. -/
theorem leaves_concat_anonymous (separator : String) (scope : List String) : ∀ type : Declared,
    type.leaves separator (scope ++ [""]) = type.leaves separator scope
  | scalar newName datatype => by
    have hpath : joinPath separator (scope ++ [""]).reverse = joinPath separator scope.reverse := by
      rw [List.reverse_append, List.reverse_singleton, List.singleton_append, joinPath_anonymous]
    have hnearest : nearestName (scope ++ [""]) = nearestName scope := by
      rw [nearestName, nearestName, List.find?_append]
      simp
    rw [leaves, leaves, hpath, hnearest]
  | list element => by
    rw [leaves, leaves, ← List.cons_append, leaves_concat_anonymous]
  | struct entries => by rw [leaves, leaves, entryLeaves_concat_anonymous]

theorem entryLeaves_concat_anonymous (separator : String) (scope : List String) :
    ∀ entries : List (Option String × Declared),
      entryLeaves separator (scope ++ [""]) entries = entryLeaves separator scope entries
  | [] => rfl
  | (name, type) :: rest => by
    rw [entryLeaves, entryLeaves, ← List.cons_append, leaves_concat_anonymous,
      entryLeaves_concat_anonymous]

end

/-- The struct has the leaves of what it holds. -/
theorem entryLeaves_wrapped (separator : String) (entries : List Entry) :
    entryLeaves separator [] [(none, .struct entries)] = entryLeaves separator [] entries := by
  rw [entryLeaves, entryLeaves, List.append_nil, leaves]
  exact entryLeaves_concat_anonymous separator [] entries

/-- In the struct, entries are as well-formed as on their own. -/
theorem WellFormed.wrapped {separator : String} {entries : List Entry}
    (h : WellFormed separator entries) : WellFormed separator [(none, .struct entries)] where
  names_distinct := ⟨List.pairwise_singleton _ _, h.names_distinct, trivial⟩
  leaves_distinct := by
    rw [entryLeaves_wrapped]
    exact h.leaves_distinct

end Declared

/-- A schema whose entries are the fields of an anonymous struct. -/
def Schema.wrapped (schema : Schema) : Schema :=
  { schema with fields := [("", .struct schema.fields)] }

/-- **Compiling the struct.** A text that compiles also does as the content of an anonymous struct,
and only the tree of its schema is another one. -/
theorem compile_wrapped {source : Text} {options : CompileOptions} {schema : Schema}
    (h : compile source options = .ok schema) :
    compile source.wrapped options = .ok schema.wrapped := by
  obtain ⟨hlexed, entries, derived, wellFormed, rfl⟩ := compile_eq_ok_iff.mp h
  obtain ⟨hlexed', derived'⟩ := derives_wrapped hlexed derived
  refine compile_eq_ok_iff.mpr ⟨hlexed', _, derived', wellFormed.wrapped, ?_⟩
  rw [Declared.schema, Declared.schema, entryLeaves_wrapped]
  rfl

end NestedRecords
