import NestedRecords.Proofs.Pairing
import NestedRecords.Proofs.Schema.Acceptance
import NestedRecords.Proofs.Separators

/-!
# Reading a schema under another separator

A schema text is lexed without regard to the separator, and when its tokens are read the separator
comes up in one place, the json path of a leaf. Such a path is never looked into; it is compared
with other paths, and under separators that delimit the comparison has the same outcome.

So the builders for two separators go side by side (`Builder.apply_paired`). They have the same
containers and the same fields, and their leaves differ in nothing but the separator in their paths.
-/

namespace NestedRecords

open List

variable {separator separator' : String}

/-! ### What corresponds to each other -/

/-- Leaves that differ in the separator in their paths alone. -/
structure BoundLeaf.Alike (separator separator' : String) (leaf leaf' : BoundLeaf) : Prop where
  path : Rejoined separator separator' leaf.path leaf'.path
  column : leaf.column = leaf'.column
  datatype : leaf.datatype = leaf'.datatype

/-- Builders that differ in the separator in the paths of their leaves alone, with names of open
containers that were read from a text. -/
structure Builder.Alike (separator separator' : String) (b b' : Builder) : Prop where
  containers : b.containers = b'.containers
  fields : b.fields = b'.fields
  leaves : Forall₂ (BoundLeaf.Alike separator separator') b.leaves b'.leaves
  spelled : ∀ name ∈ b.scope, Spelled name

/-- Schemas that differ in the separator in their json paths alone. -/
structure Schema.Alike (separator separator' : String) (schema schema' : Schema) : Prop where
  fields : schema.fields = schema'.fields
  columns : schema.columns = schema'.columns
  datatypes : schema.datatypes = schema'.datatypes
  bindings : Forall₂ (fun binding binding' =>
    Rejoined separator separator' binding.1 binding'.1 ∧ binding.2 = binding'.2)
    schema.bindings schema'.bindings

/-- Rejections of one kind at one place; a problem may quote different paths. -/
structure Rejection.Alike (rejection rejection' : Rejection) : Prop where
  kind : rejection.problem.kind = rejection'.problem.kind
  site : rejection.site = rejection'.site

theorem Rejection.Alike.refl (rejection : Rejection) : rejection.Alike rejection := ⟨rfl, rfl⟩

/-- Failures of one kind at one place that show the same excerpt of the text. -/
inductive SchemaFailure.Alike : SchemaFailure → SchemaFailure → Prop
  | invalid {error error' : SchemaError} (kind : error.kind = error'.kind)
      (issue : error.issue = error'.issue) (diagnostic : error.diagnostic = error'.diagnostic) :
      Alike (.invalid error) (.invalid error')
  | undrawable (error : DiagnosticError) : Alike (.undrawable error) (.undrawable error)

/-- The failure of a source text shows the place of its rejection. -/
theorem Rejection.Alike.failure {rejection rejection' : Rejection} (h : rejection.Alike rejection')
    (source : Text) (sourceName sourceName' : Option String) :
    (rejection.failure source sourceName).Alike (rejection'.failure source sourceName') := by
  unfold Rejection.failure SchemaFailure.locate
  rw [h.site]
  dsimp only
  split
  · exact .invalid h.kind rfl rfl
  · exact .undrawable _

namespace Builder

variable {b b' : Builder}

theorem Alike.columns (h : b.Alike separator separator' b') :
    b.leaves.map BoundLeaf.column = b'.leaves.map BoundLeaf.column :=
  map_eq_map_of_forall₂ (fun _ _ hleaf => hleaf.column) h.leaves

theorem Alike.datatypes (h : b.Alike separator separator' b') :
    b.leaves.map BoundLeaf.datatype = b'.leaves.map BoundLeaf.datatype :=
  map_eq_map_of_forall₂ (fun _ _ hleaf => hleaf.datatype) h.leaves

/-- A path is among those of the leaves under both separators or under none. -/
theorem Alike.mem_paths_iff (hs : Delimits separator) (hs' : Delimits separator')
    (h : b.Alike separator separator' b') {path path' : String}
    (hpath : Rejoined separator separator' path path') :
    path ∈ b.leaves.map BoundLeaf.path ↔ path' ∈ b'.leaves.map BoundLeaf.path :=
  rel_mem (Rejoined.biUnique hs hs') hpath (rel_map (fun _ _ hleaf => hleaf.path) h.leaves)

/-- A finished entry goes to the same place. -/
theorem Alike.attach (h : b.Alike separator separator' b') (name : String) (type : Tree) :
    (b.attach name type).Alike separator separator' (b'.attach name type) := by
  obtain ⟨containers, fields, leaves⟩ := b
  obtain ⟨_, _, leaves'⟩ := b'
  obtain ⟨rfl, rfl, hleaves, hspelled⟩ := h
  cases containers with
  | nil => exact ⟨rfl, rfl, hleaves, hspelled⟩
  | cons c outer => exact ⟨rfl, rfl, hleaves, hspelled⟩

/-- One more leaf behind the others. -/
theorem Alike.concat (h : b.Alike separator separator' b') {leaf leaf' : BoundLeaf}
    (hleaf : leaf.Alike separator separator' leaf') :
    Alike separator separator' { b with leaves := b.leaves ++ [leaf] }
      { b' with leaves := b'.leaves ++ [leaf'] } :=
  ⟨h.containers, h.fields, List.rel_append h.leaves (.cons hleaf .nil), h.spelled⟩

theorem Alike.checkOpened (h : b.Alike separator separator' b') (site : Fragment) :
    b.checkOpened site = b'.checkOpened site := by
  rw [Builder.checkOpened, Builder.checkOpened, h.containers]

theorem Alike.checkElement (h : b.Alike separator separator' b') (name : String)
    (site : Fragment) : b.checkElement name site = b'.checkElement name site := by
  rw [Builder.checkElement, Builder.checkElement, h.containers]

theorem Alike.checkName (h : b.Alike separator separator' b') (name : String) (site : Fragment) :
    b.checkName name site = b'.checkName name site := by
  rw [Builder.checkName, Builder.checkName, siblings?, siblings?, h.containers, h.fields]

theorem Alike.defaultColumn (h : b.Alike separator separator' b') (name : String) :
    b.defaultColumn name = b'.defaultColumn name := by
  rw [Builder.defaultColumn, Builder.defaultColumn, h.containers]

/-! ### Tokens -/

/-- Reading a scalar type. The two checks on leaves come to the same. -/
theorem addLeaf_paired (hs : Delimits separator) (hs' : Delimits separator')
    (h : b.Alike separator separator' b') (datatype : Datatype) (type : Fragment)
    {name : Option Fragment} (newName : Option Fragment)
    (hname : Spelled ((name.map Fragment.toString).getD "")) :
    Paired Rejection.Alike (Builder.Alike separator separator')
      (b.addLeaf separator datatype type name newName)
      (b'.addLeaf separator' datatype type name newName) := by
  have hcolumns := h.columns
  have hpath : Rejoined separator separator'
      (b.pathOf separator ((name.map Fragment.toString).getD ""))
      (b'.pathOf separator' ((name.map Fragment.toString).getD "")) := by
    rw [pathOf, pathOf, ← h.containers]
    refine .joinPath fun n hn => ?_
    rcases List.mem_append.mp hn with hn | hn
    · exact h.spelled n (List.mem_reverse.mp hn)
    · exact List.mem_singleton.mp hn ▸ hname
  have hpaths := h.mem_paths_iff hs hs' hpath
  have helement := h.checkElement ((name.map Fragment.toString).getD "") (name.getD type)
  have hlabel := h.checkName ((name.map Fragment.toString).getD "") (name.getD type)
  simp only [addLeaf, ← h.defaultColumn, ← helement, ← hlabel, ← hcolumns]
  refine .bind_same .refl fun _ => ?_
  refine .guard Iff.rfl (.refl _) (.guard hpaths ⟨rfl, rfl⟩ ?_)
  refine .bind_same .refl fun _ => .ok ?_
  refine Alike.attach (h.concat ?_) _ _
  exact ⟨hpath, rfl, rfl⟩

/-- Reading the keyword of a container. -/
theorem addContainer_paired (h : b.Alike separator separator' b') (kind : Container)
    (keyword : Fragment) {name : Option Fragment}
    (hname : Spelled ((name.map Fragment.toString).getD "")) :
    Paired Rejection.Alike (Builder.Alike separator separator') (b.addContainer kind keyword name)
      (b'.addContainer kind keyword name) := by
  simp only [addContainer, ← h.checkElement, ← h.checkName, ← h.containers]
  refine .bind_same .refl fun _ => .bind_same .refl fun _ => .ok ?_
  exact ⟨rfl, h.fields, h.leaves, List.forall_mem_cons.mpr ⟨hname, h.spelled⟩⟩

/-- Reading an entry. -/
theorem addEntry_paired (hs : Delimits separator) (hs' : Delimits separator')
    (h : b.Alike separator separator' b') (type : Fragment) {name : Option Fragment}
    (newName : Option Fragment) (hname : Spelled ((name.map Fragment.toString).getD "")) :
    Paired Rejection.Alike (Builder.Alike separator separator')
      (b.addEntry separator type name newName) (b'.addEntry separator' type name newName) := by
  simp only [addEntry, ← h.checkOpened]
  refine .bind_same .refl fun _ => ?_
  split
  · exact .error (.refl _)
  · exact addLeaf_paired hs hs' h _ type _ hname
  · exact addContainer_paired h _ type hname
  · exact .error (.refl _)

/-- Reading an opening bracket. -/
theorem openContainer_paired (h : b.Alike separator separator' b') (delimiter : Fragment) :
    Paired Rejection.Alike (Builder.Alike separator separator') (b.openContainer delimiter)
      (b'.openContainer delimiter) := by
  have hspelled := h.spelled
  rw [openContainer, openContainer, ← h.containers]
  split
  · rename_i c outer hcontainers
    rw [scope, hcontainers] at hspelled
    split
    · exact .error (.refl _)
    · exact .ok ⟨rfl, h.fields, h.leaves, hspelled⟩
  · exact .error (.refl _)

/-- Reading a closing bracket. -/
theorem closeContainer_paired (h : b.Alike separator separator' b') (delimiter : Fragment) :
    Paired Rejection.Alike (Builder.Alike separator separator') (b.closeContainer delimiter)
      (b'.closeContainer delimiter) := by
  have hspelled := h.spelled
  rw [closeContainer, closeContainer, ← h.containers]
  split
  · rename_i c outer hcontainers
    rw [scope, hcontainers] at hspelled
    have hclosed : Alike separator separator' { b with containers := outer }
        { b' with containers := outer } :=
      ⟨rfl, h.fields, h.leaves, (List.forall_mem_cons.mp hspelled).2⟩
    split
    · split
      · exact .ok (hclosed.attach _ _)
      · exact .error (.refl _)
    · exact .error (.refl _)
  · exact .error (.refl _)

/-- **Step lemma.** A token with a name that was written down is read by both builders or rejected
by both. -/
theorem apply_paired (hs : Delimits separator) (hs' : Delimits separator')
    (h : b.Alike separator separator' b') {token : Token}
    (hwritten : ∃ text, token.lexeme.Written text) :
    Paired Rejection.Alike (Builder.Alike separator separator') (b.apply separator token)
      (b'.apply separator' token) := by
  cases token with
  | renamed name newName type =>
    have hname := Token.isIdentifier_name hwritten (.renamed name newName type) _ rfl
    exact addEntry_paired hs hs' h type (some newName) (.inr hname)
  | «attribute» name type =>
    have hname := Token.isIdentifier_name hwritten (.named name type) _ rfl
    exact addEntry_paired hs hs' h type none (.inr hname)
  | lone type => exact addEntry_paired hs hs' h type none (.inl rfl)
  | opening delimiter => exact openContainer_paired h delimiter
  | closing delimiter => exact closeContainer_paired h delimiter

/-- The end of a text. -/
theorem finish_paired (h : b.Alike separator separator' b') :
    Paired Rejection.Alike (Schema.Alike separator separator') (b.finish separator)
      (b'.finish separator') := by
  rw [finish, finish, ← h.containers]
  split
  · split
    · exact .error (.refl _)
    · exact .error (.refl _)
  · refine .ok ⟨h.fields, h.columns, h.datatypes, ?_⟩
    exact rel_map (fun _ _ hleaf => ⟨hleaf.path, hleaf.column⟩) h.leaves

end Builder

/-! ### Whole texts -/

/-- Reading the tokens of a fragment. -/
theorem Fragment.schema_paired (hs : Delimits separator) (hs' : Delimits separator')
    (f : Fragment) :
    Paired Rejection.Alike (Schema.Alike separator separator') (f.schema separator)
      (f.schema separator') := by
  have htokens : Forall₂ (fun token token' => token = token' ∧ ∃ text, token.lexeme.Written text)
      f.tokens.1 f.tokens.1 := by
    refine forall₂_same.mpr fun token hmem => ⟨rfl, ?_⟩
    exact f.exists_written_of_mem_lex token hmem
  have hrun : Paired Rejection.Alike (Builder.Alike separator separator')
      (f.tokens.1.foldlM (Builder.apply separator) {})
      (f.tokens.1.foldlM (Builder.apply separator') {}) := by
    refine Paired.foldlM ?_ htokens ⟨rfl, rfl, .nil, nofun⟩
    rintro b b' token _ h ⟨rfl, hwritten⟩
    exact Builder.apply_paired hs hs' h hwritten
  unfold schema
  refine hrun.bind fun b b' h => ?_
  split
  · exact .error (.refl _)
  · exact Builder.finish_paired h

/-- **Reading a schema text under two separators.** -/
theorem compile_paired (source : Text) {options options' : CompileOptions}
    (hs : Delimits options.separator) (hs' : Delimits options'.separator) :
    Paired SchemaFailure.Alike (Schema.Alike options.separator options'.separator)
      (compile source options) (compile source options') :=
  (Fragment.schema_paired hs hs' _).mapError fun _ _ h => h.failure _ _ _

end NestedRecords
