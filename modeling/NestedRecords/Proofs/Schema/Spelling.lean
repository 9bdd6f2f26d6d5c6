import Mathlib.Data.List.Forall2
import Mathlib.Data.Option.Defs
import NestedRecords.Proofs.Pairing
import NestedRecords.Proofs.Schema.Drawing
import NestedRecords.Proofs.Token.Pieces
import NestedRecords.Schema.Reading

/-!
# Schema texts in another spelling

One schema may be written down in many ways. Layout and commas are gone once a text is lexed, but
tokens differ too: a type has several names, in any case of letters, and brackets come in families.
What is left when all of that is taken away is the `Token.meaning`. The places of tokens of one
meaning in their texts have nothing to do with each other.

Builders that read a text in two spellings go side by side (`Builder.apply_respells`). They hold the
same names, trees and leaves, and the keywords they keep for their messages are from tokens of the
same index. So they stop at tokens of the same index too, for reasons of the same kind, or they
read the same schema (`compile_respells`).
-/

namespace NestedRecords

open List

/-! ### What corresponds to each other -/

/-- What a token comes to, however it is spelled: its kind, its names and what its type stands for,
if that is known. -/
inductive Meaning
  | renamed (name newName : Text) (type : Option TypeName)
  | named (name : Text) (type : Option TypeName)
  | lone (type : Option TypeName)
  | opening
  | closing
  deriving DecidableEq

/-- **Meanings.** Types count by what they stand for, and all brackets that open are alike, as are
all that close. -/
def Token.meaning : Token → Meaning
  | .renamed name newName type =>
    .renamed name.text newName.text (TypeName.ofName? type.toString)
  | .attribute name type => .named name.text (TypeName.ofName? type.toString)
  | .lone type => .lone (TypeName.ofName? type.toString)
  | .opening _ => .opening
  | .closing _ => .closing

/-- **Same places.** The fragments are the same part of the tokens of the same index. -/
def Token.SameSite (tokens tokens' : List Token) (site site' : Fragment) : Prop :=
  ∃ index part : Nat, tokens[index]?.bind (·.parts[part]?) = some site ∧
    tokens'[index]?.bind (·.parts[part]?) = some site'

/-- The parts of two tokens stand at places that correspond. -/
def Token.PartsAt (S : Fragment → Fragment → Prop) (token token' : Token) : Prop :=
  ∀ (part : Nat) (site site' : Fragment), token.parts[part]? = some site →
    token'.parts[part]? = some site' → S site site'

/-- Rejections of one kind at places that correspond. -/
structure Rejection.Respells (S : Fragment → Fragment → Prop) (rejection rejection' : Rejection) :
    Prop where
  kind : rejection.problem.kind = rejection'.problem.kind
  site : S rejection.site rejection'.site

/-- Open containers that differ in their keywords alone. -/
structure OpenContainer.Respells (S : Fragment → Fragment → Prop) (c c' : OpenContainer) :
    Prop where
  name : c.name = c'.name
  opened : c.opened = c'.opened
  content : c.content = c'.content
  keyword : S c.keyword c'.keyword

/-- Builders that differ in the keywords of open containers alone. -/
structure Builder.Respells (S : Fragment → Fragment → Prop) (b b' : Builder) : Prop where
  containers : Forall₂ (OpenContainer.Respells S) b.containers b'.containers
  fields : b.fields = b'.fields
  leaves : b.leaves = b'.leaves

variable {S : Fragment → Fragment → Prop}

namespace Builder

variable {b b' : Builder} {site site' : Fragment}

theorem Respells.map_name (h : b.Respells S b') :
    b.containers.map OpenContainer.name = b'.containers.map OpenContainer.name :=
  map_eq_map_of_forall₂ (fun _ _ hc => hc.name) h.containers

theorem Respells.siblings? (h : b.Respells S b') : b.siblings? = b'.siblings? := by
  obtain ⟨containers, fields, leaves⟩ := b
  obtain ⟨containers', _, _⟩ := b'
  obtain ⟨hcontainers, rfl, rfl⟩ := h
  cases hcontainers with
  | nil => rfl
  | @cons c c' _ _ hc _ =>
    obtain ⟨name, keyword, opened, content⟩ := c
    obtain ⟨_, keyword', _, _⟩ := c'
    obtain ⟨rfl, rfl, rfl, -⟩ := hc
    cases content <;> rfl

/-- A finished entry goes to the same place. -/
theorem Respells.attach (h : b.Respells S b') (name : String) (type : Tree) :
    (b.attach name type).Respells S (b'.attach name type) := by
  obtain ⟨containers, fields, leaves⟩ := b
  obtain ⟨containers', _, _⟩ := b'
  obtain ⟨hcontainers, rfl, rfl⟩ := h
  cases hcontainers with
  | nil => exact ⟨.nil, rfl, rfl⟩
  | cons hc houter =>
    exact ⟨.cons ⟨hc.name, hc.opened, congrArg (Content.add name type) hc.content, hc.keyword⟩
      houter, rfl, rfl⟩

/-! ### Checks -/

theorem Respells.checkOpened (h : b.Respells S b') (hsite : S site site') :
    Paired (Rejection.Respells S) Eq (b.checkOpened site) (b'.checkOpened site') := by
  obtain ⟨containers, fields, leaves⟩ := b
  obtain ⟨containers', _, _⟩ := b'
  obtain ⟨hcontainers, rfl, rfl⟩ := h
  cases hcontainers with
  | nil => exact .ok rfl
  | cons hc _ =>
    simp only [Builder.checkOpened, ← hc.opened]
    split
    · exact .ok rfl
    · exact .error ⟨rfl, hsite⟩

theorem Respells.checkElement (h : b.Respells S b') (name : String) (hsite : S site site') :
    Paired (Rejection.Respells S) Eq (b.checkElement name site) (b'.checkElement name site') := by
  obtain ⟨containers, fields, leaves⟩ := b
  obtain ⟨containers', _, _⟩ := b'
  obtain ⟨hcontainers, rfl, rfl⟩ := h
  cases hcontainers with
  | nil => exact .ok rfl
  | @cons c c' _ _ hc _ =>
    obtain ⟨label, keyword, opened, content⟩ := c
    obtain ⟨_, keyword', _, _⟩ := c'
    obtain ⟨rfl, rfl, rfl, -⟩ := hc
    cases content with
    | struct fields => exact .ok rfl
    | list element =>
      simp only [Builder.checkElement]
      split
      · exact .error ⟨rfl, hsite⟩
      · split
        · exact .error ⟨rfl, hsite⟩
        · exact .ok rfl

theorem Respells.checkName (h : b.Respells S b') (name : String) (hsite : S site site') :
    Paired (Rejection.Respells S) Eq (b.checkName name site) (b'.checkName name site') := by
  rw [Builder.checkName, Builder.checkName, ← h.siblings?]
  split
  · split
    · exact .error ⟨rfl, hsite⟩
    · exact .ok rfl
  · exact .ok rfl

/-! ### Tokens -/

/-- Fragments of one text that stand at places that correspond. -/
private def SameText (S : Fragment → Fragment → Prop) (f f' : Fragment) : Prop :=
  f.text = f'.text ∧ S f f'

private theorem getD_toString {name name' : Option Fragment}
    (h : Option.Rel (SameText S) name name') :
    (name.map Fragment.toString).getD "" = (name'.map Fragment.toString).getD "" := by
  cases h with
  | none => rfl
  | some h => exact congrArg Text.toString h.1

private theorem getD_site {type type' : Fragment} (htype : S type type')
    {name name' : Option Fragment} (h : Option.Rel (SameText S) name name') :
    S (name.getD type) (name'.getD type') := by
  cases h with
  | none => exact htype
  | some h => exact h.2

/-- Reading a scalar type. -/
private theorem addLeaf_respells (h : b.Respells S b') (separator : String) (datatype : Datatype)
    {type type' : Fragment} (htype : S type type') {name name' newName newName' : Option Fragment}
    (hname : Option.Rel (SameText S) name name')
    (hnew : Option.Rel (SameText S) newName newName') :
    Paired (Rejection.Respells S) (Builder.Respells S)
      (b.addLeaf separator datatype type name newName)
      (b'.addLeaf separator datatype type' name' newName') := by
  have hsite : S (name.getD type) (name'.getD type') := getD_site htype hname
  have hpath : ∀ label, b'.pathOf separator label = b.pathOf separator label := fun label => by
    rw [pathOf, pathOf, h.map_name]
  have hdefault : ∀ label, b'.defaultColumn label = b.defaultColumn label := fun label => by
    rw [defaultColumn, defaultColumn, h.map_name]
  have hcolumn : ∀ default, (newName'.map Fragment.toString).getD default =
      (newName.map Fragment.toString).getD default := fun default => by
    cases hnew with
    | none => rfl
    | some hnew => exact (congrArg Text.toString hnew.1).symm
  simp only [addLeaf, ← getD_toString hname, hpath, hdefault, hcolumn, ← h.leaves]
  refine (h.checkElement _ hsite).bind fun _ _ _ => ?_
  refine .guard Iff.rfl ⟨rfl, getD_site hsite hnew⟩ (.guard Iff.rfl ⟨rfl, hsite⟩ ?_)
  refine (h.checkName _ hsite).bind fun _ _ _ => .ok (Respells.attach ?_ _ _)
  exact ⟨h.containers, h.fields, rfl⟩

/-- Reading the keyword of a container. -/
private theorem addContainer_respells (h : b.Respells S b') (kind : Container)
    {keyword keyword' : Fragment} (hkeyword : S keyword keyword') {name name' : Option Fragment}
    (hname : Option.Rel (SameText S) name name') :
    Paired (Rejection.Respells S) (Builder.Respells S) (b.addContainer kind keyword name)
      (b'.addContainer kind keyword' name') := by
  have hsite : S (name.getD keyword) (name'.getD keyword') := getD_site hkeyword hname
  simp only [addContainer, ← getD_toString hname]
  refine (h.checkElement _ hsite).bind fun _ _ _ => (h.checkName _ hsite).bind fun _ _ _ => .ok ?_
  exact ⟨.cons ⟨rfl, rfl, rfl, hkeyword⟩ h.containers, h.fields, h.leaves⟩

/-- Reading an entry. -/
private theorem addEntry_respells (h : b.Respells S b') (separator : String)
    {type type' : Fragment} (htype : S type type')
    (hmeans : TypeName.ofName? type.toString = TypeName.ofName? type'.toString)
    {name name' newName newName' : Option Fragment} (hname : Option.Rel (SameText S) name name')
    (hnew : Option.Rel (SameText S) newName newName') :
    Paired (Rejection.Respells S) (Builder.Respells S) (b.addEntry separator type name newName)
      (b'.addEntry separator type' name' newName') := by
  simp only [addEntry, ← hmeans]
  refine (h.checkOpened (getD_site htype hname)).bind fun _ _ _ => ?_
  cases TypeName.ofName? type.toString with
  | none => exact .error ⟨rfl, htype⟩
  | some known =>
    cases known with
    | scalar datatype => exact addLeaf_respells h separator datatype htype hname hnew
    | container kind =>
      cases hnew with
      | none => exact addContainer_respells h kind htype hname
      | some hnew => exact .error ⟨rfl, hnew.2⟩

/-- Reading an opening bracket. -/
private theorem openContainer_respells (h : b.Respells S b') (hsite : S site site') :
    Paired (Rejection.Respells S) (Builder.Respells S) (b.openContainer site)
      (b'.openContainer site') := by
  obtain ⟨containers, fields, leaves⟩ := b
  obtain ⟨containers', _, _⟩ := b'
  obtain ⟨hcontainers, rfl, rfl⟩ := h
  cases hcontainers with
  | nil => exact .error ⟨rfl, hsite⟩
  | cons hc houter =>
    simp only [openContainer, ← hc.opened]
    split
    · exact .error ⟨rfl, hsite⟩
    · exact .ok ⟨.cons ⟨hc.name, rfl, hc.content, hc.keyword⟩ houter, rfl, rfl⟩

/-- Reading a closing bracket. -/
private theorem closeContainer_respells (h : b.Respells S b') (hsite : S site site') :
    Paired (Rejection.Respells S) (Builder.Respells S) (b.closeContainer site)
      (b'.closeContainer site') := by
  obtain ⟨containers, fields, leaves⟩ := b
  obtain ⟨containers', _, _⟩ := b'
  obtain ⟨hcontainers, rfl, rfl⟩ := h
  cases hcontainers with
  | nil => exact .error ⟨rfl, hsite⟩
  | @cons c c' outer outer' hc houter =>
    have hclosed : Respells S ⟨outer, fields, leaves⟩ ⟨outer', fields, leaves⟩ :=
      ⟨houter, rfl, rfl⟩
    simp only [closeContainer, ← hc.opened, ← hc.content, ← hc.name]
    split
    · split
      · exact .ok (hclosed.attach _ _)
      · exact .error ⟨rfl, hsite⟩
    · exact .error ⟨rfl, hsite⟩

/-- **Step lemma.** Tokens of one meaning are both read or both rejected, where their parts stand at
places that correspond. -/
theorem apply_respells (h : b.Respells S b') (separator : String) {token token' : Token}
    (hmeaning : token.meaning = token'.meaning) (hparts : token.PartsAt S token') :
    Paired (Rejection.Respells S) (Builder.Respells S) (b.apply separator token)
      (b'.apply separator token') := by
  cases token with
  | renamed name newName type =>
    cases token' with
    | renamed name' newName' type' =>
      obtain ⟨hname, hnew, htype⟩ := Meaning.renamed.inj hmeaning
      exact addEntry_respells h separator (hparts 2 _ _ rfl rfl) htype
        (.some ⟨hname, hparts 0 _ _ rfl rfl⟩) (.some ⟨hnew, hparts 1 _ _ rfl rfl⟩)
    | «attribute» | lone | opening | closing => contradiction
  | «attribute» name type =>
    cases token' with
    | «attribute» name' type' =>
      obtain ⟨hname, htype⟩ := Meaning.named.inj hmeaning
      exact addEntry_respells h separator (hparts 1 _ _ rfl rfl) htype
        (.some ⟨hname, hparts 0 _ _ rfl rfl⟩) .none
    | renamed | lone | opening | closing => contradiction
  | lone type =>
    cases token' with
    | lone type' =>
      exact addEntry_respells h separator (hparts 0 _ _ rfl rfl) (Meaning.lone.inj hmeaning) .none
        .none
    | renamed | «attribute» | opening | closing => contradiction
  | opening delimiter =>
    cases token' with
    | opening delimiter' => exact openContainer_respells h (hparts 0 _ _ rfl rfl)
    | renamed | «attribute» | lone | closing => contradiction
  | closing delimiter =>
    cases token' with
    | closing delimiter' => exact closeContainer_respells h (hparts 0 _ _ rfl rfl)
    | renamed | «attribute» | lone | opening => contradiction

/-- The end of a text. -/
theorem finish_respells (h : b.Respells S b') (separator : String) :
    Paired (Rejection.Respells S) Eq (b.finish separator) (b'.finish separator) := by
  obtain ⟨containers, fields, leaves⟩ := b
  obtain ⟨containers', _, _⟩ := b'
  obtain ⟨hcontainers, rfl, rfl⟩ := h
  cases hcontainers with
  | nil => exact .ok rfl
  | cons hc _ =>
    simp only [finish, ← hc.opened]
    split
    · exact .error ⟨rfl, hc.keyword⟩
    · exact .error ⟨rfl, hc.keyword⟩

end Builder

/-! ### Whole texts -/

namespace Fragment

/-- The builder accepts the first tokens of a text, as many as are asked for. -/
def Accepts (f : Fragment) (separator : String) (count : Nat) : Prop :=
  ∃ b, (f.tokens.1.take count).foldlM (Builder.apply separator) {} = .ok b

variable {f f' : Fragment}

/-- Tokens of one meaning, with the places of their parts. -/
private theorem forall₂_meaning {tokens tokens' : List Token}
    (h : tokens.map Token.meaning = tokens'.map Token.meaning) :
    Forall₂ (fun token token' => token.meaning = token'.meaning ∧
      token.PartsAt (Token.SameSite tokens tokens') token') tokens tokens' := by
  rw [← forall₂_eq_eq_eq, forall₂_map_left_iff, forall₂_map_right_iff] at h
  refine forall₂_iff_get.mpr ⟨h.length_eq, fun index hindex hindex' => ?_⟩
  refine ⟨h.get hindex hindex', fun part site site' hsite hsite' => ⟨index, part, ?_, ?_⟩⟩
  · rw [List.getElem?_eq_getElem hindex]
    exact hsite
  · rw [List.getElem?_eq_getElem hindex']
    exact hsite'

/-- **Run lemma.** The first tokens of a text are read in two spellings. -/
theorem run_respells (h : f.tokens.1.map Token.meaning = f'.tokens.1.map Token.meaning)
    (separator : String) (count : Nat) :
    Paired (Rejection.Respells (Token.SameSite f.tokens.1 f'.tokens.1))
      (Builder.Respells (Token.SameSite f.tokens.1 f'.tokens.1))
      ((f.tokens.1.take count).foldlM (Builder.apply separator) {})
      ((f'.tokens.1.take count).foldlM (Builder.apply separator) {}) :=
  Paired.foldlM (fun _ _ _ _ hb ht => Builder.apply_respells hb separator ht.1 ht.2)
    (forall₂_take count (forall₂_meaning h)) ⟨.nil, rfl, rfl⟩

theorem accepts_iff_of_respells (h : f.tokens.1.map Token.meaning = f'.tokens.1.map Token.meaning)
    (separator : String) (count : Nat) :
    f.Accepts separator count ↔ f'.Accepts separator count :=
  (run_respells h separator count).exists_ok_iff

/-- Reading the tokens of two texts. -/
theorem schema_respells (hlexed : f.tokens.2 = none) (hlexed' : f'.tokens.2 = none)
    (h : f.tokens.1.map Token.meaning = f'.tokens.1.map Token.meaning) (separator : String) :
    Paired (Rejection.Respells (Token.SameSite f.tokens.1 f'.tokens.1)) Eq (f.schema separator)
      (f'.schema separator) := by
  have hlength : f.tokens.1.length = f'.tokens.1.length := by
    rw [← List.length_map Token.meaning, h, List.length_map]
  have hrun := run_respells h separator f.tokens.1.length
  rw [List.take_length, hlength, List.take_length] at hrun
  unfold schema
  simp only [hlexed, hlexed']
  exact hrun.bind fun b b' hb => Builder.finish_respells hb separator

end Fragment

/-- **Same failures.** The errors are of one kind and point to the same part of the tokens of the
same index. -/
inductive SchemaFailure.SameToken (f f' : Fragment) : SchemaFailure → SchemaFailure → Prop
  | invalid {error error' : SchemaError} {site site' : Fragment} (kind : error.kind = error'.kind)
      (sites : Token.SameSite f.tokens.1 f'.tokens.1 site site')
      (issue : error.issue = .locate f.text site.start.offset)
      (issue' : error'.issue = .locate f'.text site'.start.offset) :
    SameToken f f' (.invalid error) (.invalid error')

/-- A rejection at a part of a token can be shown: no token starts with a line feed. -/
private theorem exists_invalid_of_part {source : Text} {rejection : Rejection}
    {index part : Nat} (h : ((Fragment.ofSource source).tokens.1[index]?.bind
      (·.parts[part]?)) = some rejection.site) (sourceName : Option String) :
    ∃ error, rejection.failure (Fragment.ofSource source).text sourceName = .invalid error ∧
      error.kind = rejection.problem.kind ∧
      error.issue = .locate (Fragment.ofSource source).text rejection.site.start.offset := by
  obtain ⟨token, htoken, hpart⟩ := Option.bind_eq_some_iff.mp h
  have htoken := List.mem_of_getElem? htoken
  have hpart := List.mem_of_getElem? hpart
  have hpiece := (Fragment.ofSource source).pieceOf_of_mem_lex rejection.site
    (List.mem_flatMap.mpr ⟨token, htoken, hpart⟩)
  have hisPart := (Fragment.ofSource source).lex_tiles.isPart token htoken rejection.site hpart
  exact rejection.exists_failure_eq_invalid
    (fun hhead => hpiece.offset_pos hisPart.exists_head hhead (by decide)) sourceName

/-- **Spelling does not matter.** Let two texts lex to their ends, with tokens of the same meanings,
so that they differ in nothing but how types are spelled and which brackets are used. Under the same
separator both compile to the same schema, or both fail, with errors of the same kind that point to
the same part of the tokens of the same index. The builder accepts as many of the tokens of one text
as of the other. -/
theorem compile_respells {source source' : Text} {options options' : CompileOptions}
    (hseparator : options.separator = options'.separator)
    (hlexed : (Fragment.ofSource source).tokens.2 = none)
    (hlexed' : (Fragment.ofSource source').tokens.2 = none)
    (hmeanings : (Fragment.ofSource source).tokens.1.map Token.meaning =
      (Fragment.ofSource source').tokens.1.map Token.meaning) :
    Paired (SchemaFailure.SameToken (.ofSource source) (.ofSource source')) Eq
      (compile source options) (compile source' options') ∧
    ∀ count, (Fragment.ofSource source).Accepts options.separator count ↔
      (Fragment.ofSource source').Accepts options.separator count := by
  refine ⟨?_, Fragment.accepts_iff_of_respells hmeanings options.separator⟩
  have hschema := Fragment.schema_respells hlexed hlexed' hmeanings options.separator
  unfold compile
  rw [← hseparator]
  refine hschema.mapError fun rejection rejection' h => ?_
  obtain ⟨index, part, hsite, hsite'⟩ := h.site
  obtain ⟨error, herror, hkind, hissue⟩ := exists_invalid_of_part hsite options.sourceName
  obtain ⟨error', herror', hkind', hissue'⟩ := exists_invalid_of_part hsite' options'.sourceName
  rw [herror, herror']
  have hkinds : error.kind = error'.kind := hkind.trans (h.kind.trans hkind'.symm)
  exact .invalid hkinds ⟨index, part, hsite, hsite'⟩ hissue hissue'

/-- A schema in two spellings; and one in which two json paths are the same, for the separator is a
letter, so that it is refused at its last entry in either spelling. -/
theorem compile_respells_aliases :
    (∃ schema, compile (Text.ofString "a: List(Int), b=c: String") = .ok schema ∧
      compile (Text.ofString "a\t:ARRAY<int64]\r\n b = c:utf8,") = .ok schema) ∧
    ∃ error error',
      compile (Text.ofString "a: Struct(b: Int), aXb=c: Real") { separator := "X" } =
        .error error ∧
      compile (Text.ofString "\na: struct[b: INT64>,\naXb=c: Float64") { separator := "X" } =
        .error error' ∧
      SchemaFailure.SameToken (.ofSource (Text.ofString "a: Struct(b: Int), aXb=c: Real"))
        (.ofSource (Text.ofString "\na: struct[b: INT64>,\naXb=c: Float64")) error error' := by
  constructor
  · have hmeanings :
        (Fragment.ofSource (Text.ofString "a: List(Int), b=c: String")).tokens.1.map Token.meaning =
          (Fragment.ofSource (Text.ofString "a\t:ARRAY<int64]\r\n b = c:utf8,")).tokens.1.map
            Token.meaning := by
      decide +kernel
    have hsome : (compile (Text.ofString "a: List(Int), b=c: String")).toOption.isSome := by
      decide +kernel
    obtain ⟨schema, hschema⟩ := Option.isSome_iff_exists.mp hsome
    rw [toOption_eq_some_iff] at hschema
    have hdot : ({} : CompileOptions).separator = ({} : CompileOptions).separator := rfl
    have hpaired :=
      (compile_respells hdot (by decide +kernel) (by decide +kernel) hmeanings).1
    exact ⟨schema, hschema, hpaired.eq_ok hschema⟩
  · have hmeanings :
        (Fragment.ofSource (Text.ofString "a: Struct(b: Int), aXb=c: Real")).tokens.1.map
            Token.meaning =
          (Fragment.ofSource (Text.ofString "\na: struct[b: INT64>,\naXb=c: Float64")).tokens.1.map
            Token.meaning := by
      decide +kernel
    have hnone : (compile (Text.ofString "a: Struct(b: Int), aXb=c: Real")
        { separator := "X" }).toOption = none := by
      decide +kernel
    obtain ⟨error, herror⟩ := toOption_eq_none_iff.mp hnone
    have hletter : ({ separator := "X" } : CompileOptions).separator =
        ({ separator := "X" } : CompileOptions).separator := rfl
    have hpaired :=
      (compile_respells hletter (by decide +kernel) (by decide +kernel) hmeanings).1
    rw [herror] at hpaired
    generalize compile (Text.ofString "\na: struct[b: INT64>,\naXb=c: Float64")
      { separator := "X" } = other at hpaired ⊢
    cases hpaired with
    | error h => exact ⟨error, _, herror, rfl, h⟩

end NestedRecords
