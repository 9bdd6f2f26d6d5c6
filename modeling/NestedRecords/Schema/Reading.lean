import NestedRecords.Options
import NestedRecords.Schema.Builder
import NestedRecords.Token.Lexer

/-!
# Reading a schema text

`compile` reads a schema text token by token and stops at the first token that is rejected, so
a problem of the text before it is reported even if the text behind it cannot be lexed.
-/

namespace NestedRecords

namespace Fragment

/-- The tokens of a fragment, and the rejection of the text that begins none. -/
def tokens (f : Fragment) : List Token × Option Rejection :=
  let (tokens, rest) := f.lex
  (tokens, if rest.text.isEmpty then none
    else some ⟨.unexpectedContent rest.text.firstLine.toString, rest⟩)

/-- The schema that a fragment describes. -/
def schema (f : Fragment) (separator : String) : Except Rejection Schema := do
  let (tokens, unread) := f.tokens
  let builder ← tokens.foldlM (Builder.apply separator) {}
  match unread with
  | some rejection => throw rejection
  | none => builder.finish separator

/-- The tokens are read before anything else. -/
theorem schema_eq (f : Fragment) (separator : String) :
    f.schema separator = f.tokens.1.foldlM (Builder.apply separator) {} >>= fun builder =>
      match f.tokens.2 with
      | some rejection => .error rejection
      | none => builder.finish separator := rfl

end Fragment

/-- The schema that a text describes. -/
def compile (source : Text) (options : CompileOptions := {}) : Except SchemaFailure Schema :=
  let fragment := Fragment.ofSource source
  (fragment.schema options.separator).mapError (·.failure fragment.text options.sourceName)

end NestedRecords
