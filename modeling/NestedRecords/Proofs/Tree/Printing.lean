import NestedRecords.Proofs.Token.Layout
import NestedRecords.Proofs.Tree.Names
import NestedRecords.Tree.Printer

/-!
# What a printed tree says

A printed tree is laid out line by line, and `Tree.lexemes` are the lexemes on these lines. They are
described on both sides. The printed text is a layout of them, whatever white space and commas the
indent is made of (`Tree.laid_print`): a line begins with a margin of fillers, and a line feed keeps
it apart from the line in front of it. And tokens that are these lexemes derive the tree in the
grammar of schema texts, as the declaration without new names that `Declared.ofFields` makes of it
(`Tree.derives_of_fieldLexemes`).
-/

namespace NestedRecords

open CodeUnit

/-! ### Declarations without new names -/

namespace Declared

/-- The name that is written for a field; an anonymous one has none. -/
def writtenName (name : String) : Option String := if name = "" then none else some name

@[simp]
theorem getD_writtenName (name : String) : (writtenName name).getD "" = name := by
  unfold writtenName
  split
  · rename_i h
    exact h.symm
  · rfl

mutual

/-- The declaration of a type in which no column has a new name. -/
def ofTree : Tree → Declared
  | .scalar datatype => .scalar none datatype
  | .list element => .list (ofTree element)
  | .struct fields => .struct (ofFields fields)

/-- The declarations of some fields in which no column has a new name. -/
def ofFields : List (String × Tree) → List (Option String × Declared)
  | [] => []
  | (name, type) :: rest => (writtenName name, ofTree type) :: ofFields rest

end

mutual

@[simp]
theorem tree_ofTree : ∀ type : Tree, (ofTree type).tree = type
  | .scalar _ => rfl
  | .list element => by rw [ofTree, tree, tree_ofTree]
  | .struct fs => by rw [ofTree, tree, fields_ofFields]

@[simp]
theorem fields_ofFields : ∀ fs : List (String × Tree), fields (ofFields fs) = fs
  | [] => rfl
  | (name, type) :: rest => by
    rw [ofFields, fields, getD_writtenName, tree_ofTree, fields_ofFields]

end

mutual

theorem map_column_leaves (separator : String) (scope : List String) : ∀ type : Tree,
    (leaves separator scope (ofTree type)).map BoundLeaf.column = type.defaultColumns scope
  | .scalar _ => rfl
  | .list element => by rw [ofTree, leaves, map_column_leaves, Tree.defaultColumns]
  | .struct fs => by rw [ofTree, leaves, map_column_entryLeaves, Tree.defaultColumns]

/-- Without new names the leaves fill their default columns. -/
theorem map_column_entryLeaves (separator : String) (scope : List String) :
    ∀ fs : List (String × Tree), (entryLeaves separator scope (ofFields fs)).map BoundLeaf.column =
      Tree.fieldDefaultColumns scope fs
  | [] => rfl
  | (name, type) :: rest => by
    rw [ofFields, entryLeaves, getD_writtenName, List.map_append, map_column_leaves,
      map_column_entryLeaves, Tree.fieldDefaultColumns]

end

/-- Their paths are those of the tree. -/
theorem map_path_entryLeaves (separator : String) (scope : List String) (fs : Fields) :
    (entryLeaves separator scope (ofFields fs)).map BoundLeaf.path =
      (Tree.fieldLeaves separator scope fs).map Prod.fst := by
  have hleaves := map_entryLeaves separator scope (ofFields fs)
  rw [fields_ofFields] at hleaves
  rw [← hleaves, List.map_map]
  rfl

end Declared

/-! ### Lexemes of a tree -/

/-- The lexeme of a name, if there is one, and the name of a type. -/
def Lexeme.entry (name type : String) : Lexeme :=
  if name = "" then .lone (Text.ofString type)
  else .attribute (Text.ofString name) (Text.ofString type)

namespace Tree

mutual

/-- The lexemes of a named type. -/
def lexemes (name : String) : Tree → List Lexeme
  | scalar datatype => [.entry name datatype.displayName]
  | list element =>
    [.entry name "List", .opening [ofChar '(']] ++ lexemes "" element ++ [.closing [ofChar ')']]
  | struct fields =>
    [.entry name "Struct", .opening [ofChar '(']] ++ fieldLexemes fields ++ [.closing [ofChar ')']]

/-- The lexemes of some fields, one field after the other. -/
def fieldLexemes : List (String × Tree) → List Lexeme
  | [] => []
  | (name, type) :: rest => lexemes name type ++ fieldLexemes rest

end

end Tree

/-! ### The layout of lines -/

/-- Two layouts on lines of their own. -/
theorem Laid.append_line {lexemes others : List Lexeme} {text more : Text} (h : Laid lexemes text)
    (hmore : Laid others more) : Laid (lexemes ++ others) (text ++ lineFeed :: more) := by
  have hline : Laid others ([lineFeed] ++ more) :=
    hmore.fill (List.forall_mem_singleton.mpr (by decide))
  refine h.append hline fun u hu => ?_
  obtain rfl : lineFeed = u := by simpa using hu
  decide

/-- **Lines of a layout.** Each of the lines is a layout of its own, and together they spell the
lexemes. -/
inductive LinesLaid : List Lexeme → List String → Prop
  | nil : LinesLaid [] []
  | cons {lexemes more : List Lexeme} {line : String} {lines : List String}
    (first : Laid lexemes (Text.ofString line)) (rest : LinesLaid more lines) :
    LinesLaid (lexemes ++ more) (line :: lines)

namespace LinesLaid

theorem single {lexemes : List Lexeme} {line : String} (h : Laid lexemes (Text.ofString line)) :
    LinesLaid lexemes [line] := by
  have hsingle : LinesLaid (lexemes ++ []) [line] := .cons h .nil
  rwa [List.append_nil] at hsingle

theorem append {lexemes others : List Lexeme} {lines more : List String}
    (h : LinesLaid lexemes lines) (hmore : LinesLaid others more) :
    LinesLaid (lexemes ++ others) (lines ++ more) := by
  induction h with
  | nil => exact hmore
  | cons first _ ih =>
    rw [List.append_assoc, List.cons_append]
    exact .cons first ih

/-- Lines that are joined by line feeds are a layout. -/
theorem laid {lexemes : List Lexeme} {lines : List String} (h : LinesLaid lexemes lines) :
    Laid lexemes (Text.ofString ("\n".intercalate lines)) := by
  induction h with
  | nil => exact .nil nofun
  | @cons lexemes more line lines first rest ih =>
    cases lines with
    | nil =>
      cases rest
      rw [List.append_nil, String.intercalate_singleton]
      exact first
    | cons second others =>
      rw [String.intercalate_cons_cons, Text.ofString_append, Text.ofString_append,
        List.append_assoc]
      exact first.append_line ih

end LinesLaid

/-! ### Printed lines -/

namespace Tree

theorem isWord_displayName (d : Datatype) : (Text.ofString d.displayName).IsWord := by
  cases d <;> decide +kernel

/-- A label and the name of a type spell the lexeme of an entry. -/
theorem written_entry {name type : String} (hname : Spelled name)
    (htype : (Text.ofString type).IsWord) :
    (Lexeme.entry name type).Written (Text.ofString (label name ++ type)) := by
  unfold Lexeme.entry label
  split
  · rw [String.empty_append]
    exact .lone htype
  · rename_i hne
    have hmark : (Text.ofString ": ").IsMark ':' :=
      show Text.IsMark ':' ([] ++ ofChar ':' :: [ofChar ' ']) from .mk (by decide) (by decide)
    rw [Text.ofString_append, Text.ofString_append, List.append_assoc]
    exact .attribute (hname.resolve_left hne).isWord hmark htype

variable {indent margin name : String}

private theorem isFiller_margin (hmargin : (Text.ofString margin).IsFiller)
    (hindent : (Text.ofString indent).IsFiller) : (Text.ofString (margin ++ indent)).IsFiller := by
  rw [Text.ofString_append]
  exact List.forall_mem_append.mpr ⟨hmargin, hindent⟩

/-- The first line of a container. -/
theorem laid_opening {keyword : String} (hmargin : (Text.ofString margin).IsFiller)
    (hname : Spelled name) (hkeyword : (Text.ofString keyword).IsWord) :
    Laid [.entry name keyword, .opening [ofChar '(']]
      (Text.ofString (margin ++ label name ++ (keyword ++ "("))) := by
  have htext : Text.ofString (margin ++ label name ++ (keyword ++ "(")) =
      Text.ofString margin ++ (Text.ofString (label name ++ keyword) ++
        ([] ++ ([ofChar '('] ++ []))) := by
    simp only [Text.ofString_append, List.append_assoc, List.nil_append, List.append_nil]
    rfl
  rw [htext]
  refine .cons hmargin (written_entry hname hkeyword) (fun _ u hu => ?_) ?_
  · obtain rfl : ofChar '(' = u := by simpa using hu
    decide
  · exact .cons nofun (.opening (by decide)) nofun (.nil nofun)

/-- The last line of a container. -/
theorem laid_closing (hmargin : (Text.ofString margin).IsFiller) :
    Laid [.closing [ofChar ')']] (Text.ofString (margin ++ ")")) := by
  rw [Text.ofString_append]
  exact .cons hmargin (.closing (u := ofChar ')') (by decide)) nofun (.nil nofun)

mutual

/-- The lines of a named type are a layout of its lexemes. -/
theorem linesLaid_printLines (hindent : (Text.ofString indent).IsFiller) {margin name : String}
    (hmargin : (Text.ofString margin).IsFiller) (hname : Spelled name) :
    ∀ type : Tree, type.NamesSpelled →
      LinesLaid (type.lexemes name) (printLines indent margin (label name) type)
  | scalar d, _ => by
    refine .single ?_
    rw [String.append_assoc, Text.ofString_append]
    have hlaid : Laid [.entry name d.displayName]
        (Text.ofString margin ++ (Text.ofString (label name ++ d.displayName) ++ [])) :=
      .cons hmargin (written_entry hname (isWord_displayName d)) nofun (.nil nofun)
    rwa [List.append_nil] at hlaid
  | list element, h => by
    refine ((LinesLaid.single ?_).append ?_).append (.single (laid_closing hmargin))
    · exact laid_opening hmargin hname (by decide +kernel)
    · exact linesLaid_printLines hindent (isFiller_margin hmargin hindent) (.inl rfl) element h
  | struct fields, h => by
    refine ((LinesLaid.single ?_).append ?_).append (.single (laid_closing hmargin))
    · exact laid_opening hmargin hname (by decide +kernel)
    · exact linesLaid_printFieldLines hindent (isFiller_margin hmargin hindent) fields h

/-- The lines of some fields are a layout of their lexemes. -/
theorem linesLaid_printFieldLines (hindent : (Text.ofString indent).IsFiller) {margin : String}
    (hmargin : (Text.ofString margin).IsFiller) : ∀ fields : List (String × Tree),
      FieldNamesSpelled fields →
        LinesLaid (fieldLexemes fields) (printFieldLines indent margin fields)
  | [], _ => .nil
  | (_, type) :: rest, ⟨hname, htype, hrest⟩ =>
    (linesLaid_printLines hindent hmargin hname type htype).append
      (linesLaid_printFieldLines hindent hmargin rest hrest)

end

/-- **The printed text.** It is a layout of the lexemes of the tree. -/
theorem laid_print (hindent : (Text.ofString indent).IsFiller) {fields : Fields}
    (hspelled : FieldNamesSpelled fields) :
    Laid (fieldLexemes fields) (Text.ofString (print fields indent)) :=
  (linesLaid_printFieldLines hindent (fun _ hu => absurd hu List.not_mem_nil) fields hspelled).laid

/-- The first line of a named type begins with its margin and a lexeme. -/
theorem exists_printLines (indent margin : String) (hname : Spelled name) (type : Tree) :
    ∃ first more lines,
      printLines indent margin (label name) type = (margin ++ first ++ more) :: lines ∧
        ∃ lexeme : Lexeme, lexeme.Written (Text.ofString first) := by
  cases type with
  | scalar d =>
    refine ⟨label name ++ d.displayName, "", [], ?_, _, written_entry hname (isWord_displayName d)⟩
    rw [printLines, String.append_empty, String.append_assoc]
  | list element =>
    refine ⟨label name ++ "List", "(", printLines indent (margin ++ indent) "" element ++
      [margin ++ ")"], ?_, _, written_entry hname (by decide +kernel)⟩
    simp only [printLines, String.append_assoc]
    rfl
  | struct fields =>
    refine ⟨label name ++ "Struct", "(", printFieldLines indent (margin ++ indent) fields ++
      [margin ++ ")"], ?_, _, written_entry hname (by decide +kernel)⟩
    simp only [printLines, String.append_assoc]
    rfl

/-- A printed text begins with a lexeme, without any margin. -/
theorem isStart_head_print (indent : String) {fields : Fields}
    (hspelled : FieldNamesSpelled fields) :
    ∀ u ∈ (Text.ofString (print fields indent)).head?, u.isStart = true := by
  match fields, hspelled with
  | [], _ => exact nofun
  | (name, type) :: rest, ⟨hname, _, _⟩ =>
    obtain ⟨first, more, lines, hlines, lexeme, hwritten⟩ :=
      exists_printLines indent "" hname type
    obtain ⟨v, others, hcons, hv⟩ := hwritten.exists_cons
    have hjoin : ∀ (line : String) (lines : List String),
        ∃ tail, "\n".intercalate (line :: lines) = line ++ tail := by
      intro line lines
      cases lines with
      | nil => exact ⟨"", by rw [String.intercalate_singleton, String.append_empty]⟩
      | cons second others =>
        exact ⟨_, by rw [String.intercalate_cons_cons, String.append_assoc]⟩
    obtain ⟨tail, htail⟩ := hjoin (first ++ more) (lines ++ printFieldLines indent "" rest)
    have hprint : print ((name, type) :: rest) indent = first ++ (more ++ tail) := by
      rw [print, printFieldLines, hlines, String.empty_append, List.cons_append, htail,
        String.append_assoc]
    intro u hu
    rw [hprint, Text.ofString_append, hcons] at hu
    obtain rfl : v = u := by simpa using hu
    exact hv

/-! ### Derivations of printed trees -/

end Tree

/-- The token of a printed entry introduces the name and the type that were printed. -/
theorem Token.introduces_of_lexeme {token : Token} {name type : String}
    (h : token.lexeme = .entry name type) :
    ∃ word, token.Introduces (Declared.writtenName name) none word ∧ word.toString = type := by
  have hstring : ∀ {word : Fragment} {s : String}, word.text = Text.ofString s →
      word.toString = s := fun hword => by
    rw [Fragment.toString, hword, Text.toString_ofString]
  rw [Lexeme.entry] at h
  rw [Declared.writtenName]
  by_cases hempty : name = ""
  · rw [if_pos hempty] at h ⊢
    cases token with
    | lone word => exact ⟨word, .lone word, hstring (Lexeme.lone.inj h)⟩
    | renamed | «attribute» | opening | closing => contradiction
  · rw [if_neg hempty] at h ⊢
    cases token with
    | «attribute» first word =>
      obtain ⟨hname, htype⟩ := Lexeme.attribute.inj h
      refine ⟨word, ?_, hstring htype⟩
      rw [← hstring hname]
      exact .named first word
    | renamed | lone | opening | closing => contradiction

namespace Tree

/-- Tokens of a container: its keyword between a name and a bracket, its content and a bracket. -/
private theorem exists_container {name keyword : String} {content : List Lexeme}
    {tokens : List Token} (h : tokens.map Token.lexeme =
      [.entry name keyword, .opening [ofChar '(']] ++ content ++ [.closing [ofChar ')']]) :
    ∃ head word opening inner closing,
      tokens = head :: .opening opening :: (inner ++ [.closing closing]) ∧
      head.Introduces (Declared.writtenName name) none word ∧ word.toString = keyword ∧
      inner.map Token.lexeme = content := by
  obtain ⟨head, opening, inner, closing, rest, rfl, hhead, hinner, hrest⟩ :=
    Token.exists_container_of_lexemes h
  obtain rfl := List.map_eq_nil_iff.mp hrest
  obtain ⟨word, hintroduces, hword⟩ := Token.introduces_of_lexeme hhead
  exact ⟨head, word, opening, inner, closing, rfl, hintroduces, hword, hinner⟩

mutual

/-- Tokens that are the lexemes of a named type derive it. -/
theorem derives_of_lexemes {name : String} : ∀ (type : Tree) {tokens : List Token},
    tokens.map Token.lexeme = type.lexemes name →
      Derives tokens [(Declared.writtenName name, Declared.ofTree type)]
  | scalar d, tokens, h => by
    obtain ⟨head, none, rfl, hhead, hnone⟩ := List.map_eq_cons_iff.mp h
    obtain rfl := List.map_eq_nil_iff.mp hnone
    obtain ⟨word, hintroduces, hword⟩ := Token.introduces_of_lexeme hhead
    exact .scalar hintroduces (hword ▸ TypeName.ofName?_displayName d) .nil
  | list element, tokens, h => by
    obtain ⟨head, word, opening, inner, closing, rfl, hintroduces, hword, hinner⟩ :=
      exists_container h
    have hknown : TypeName.ofName? "List" = some (.container .list) := by decide +kernel
    exact .list hintroduces (hword ▸ hknown) (derives_of_lexemes element hinner) .nil
  | struct fields, tokens, h => by
    obtain ⟨head, word, opening, inner, closing, rfl, hintroduces, hword, hinner⟩ :=
      exists_container h
    have hknown : TypeName.ofName? "Struct" = some (.container .struct) := by decide +kernel
    exact .struct hintroduces (hword ▸ hknown) (derives_of_fieldLexemes fields hinner) .nil

/-- Tokens that are the lexemes of some fields derive them. -/
theorem derives_of_fieldLexemes : ∀ (fields : List (String × Tree)) {tokens : List Token},
    tokens.map Token.lexeme = fieldLexemes fields → Derives tokens (Declared.ofFields fields)
  | [], tokens, h => by
    obtain rfl := List.map_eq_nil_iff.mp h
    exact .nil
  | (name, type) :: rest, tokens, h => by
    obtain ⟨front, back, rfl, hfront, hback⟩ := List.map_eq_append_iff.mp h
    exact (derives_of_lexemes type hfront).append (derives_of_fieldLexemes rest hback)

end

end Tree

end NestedRecords
