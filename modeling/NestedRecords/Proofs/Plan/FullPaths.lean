import NestedRecords.Proofs.Plan.Deferral
import NestedRecords.Proofs.Schema.Names
import NestedRecords.Proofs.Separators

/-!
# Planning with full paths

The full path of a column says where in the tree the column comes from, if the names on it can be
told apart. So when the separator delimits and every struct has a name, an eager plan never calls
two columns alike: the columns of a field are all under its path, and none of those around them is
(`Unfolding.Within`).

A deferred plan gives away own names as well. None of them has the separator in it, so they are
never in the way of a full path (`Tree.fullPathsFree_of_structsNamed`), and there is a deferred plan
along with the eager one.

Both need the names of structs. A struct without a name shares its path with the struct it is in,
and one at the root has none. Anonymous scalars do no harm, since nothing is below them.
-/

namespace NestedRecords

variable {separator : String}

namespace Tree

/-! ### Named structs -/

/-- A struct, or a list of lists that have structs in them. -/
def EndsInStruct : Tree → Prop
  | scalar _ => False
  | list element => EndsInStruct element
  | struct _ => True

/-- What is at the end of a type is seen by going through its lists. -/
def decidableEndsInStruct : (type : Tree) → Decidable type.EndsInStruct
  | scalar _ => isFalse not_false
  | list element => decidableEndsInStruct element
  | struct _ => isTrue trivial

instance (type : Tree) : Decidable type.EndsInStruct := decidableEndsInStruct type

mutual

/-- **Named structs.** Every field in the type that is a struct, or a list of structs, has a
name. -/
def StructsNamed : Tree → Prop
  | scalar _ => True
  | list element => StructsNamed element
  | struct fields => FieldStructsNamed fields

/-- Every struct among some fields and in their types has a name. -/
def FieldStructsNamed : List (String × Tree) → Prop
  | [] => True
  | (name, type) :: rest =>
    (type.EndsInStruct → name ≠ "") ∧ StructsNamed type ∧ FieldStructsNamed rest

end

mutual

/-- Named structs are decided field by field. -/
def decidableStructsNamed : (type : Tree) → Decidable type.StructsNamed
  | scalar _ => isTrue trivial
  | list element => decidableStructsNamed element
  | struct fields => decidableFieldStructsNamed fields

/-- Named structs among some fields are decided one after the other. -/
def decidableFieldStructsNamed :
    (fields : List (String × Tree)) → Decidable (FieldStructsNamed fields)
  | [] => isTrue trivial
  | (_, type) :: rest => @instDecidableAnd _ _ inferInstance
      (@instDecidableAnd _ _ (decidableStructsNamed type) (decidableFieldStructsNamed rest))

end

instance (fields : Fields) : Decidable (FieldStructsNamed fields) :=
  decidableFieldStructsNamed fields

/-! ### Full paths beside own names -/

mutual

/-- The own names of leaves are names that can be written down. -/
theorem spelled_of_mem_leafNames {name : String} (hname : Spelled name) : ∀ type : Tree,
    type.NamesSpelled → ∀ other ∈ leafNames name type, Spelled other
  | scalar _, _ => by simpa [leafNames] using hname
  | list element, h => spelled_of_mem_leafNames hname element h
  | struct fields, h => spelled_of_mem_fieldLeafNames fields h

theorem spelled_of_mem_fieldLeafNames : ∀ fields : List (String × Tree),
    FieldNamesSpelled fields → ∀ other ∈ fieldLeafNames fields, Spelled other
  | [], _ => nofun
  | (_, type) :: rest, ⟨hname, htype, hrest⟩ => List.forall_mem_append.mpr
      ⟨spelled_of_mem_leafNames hname type htype, spelled_of_mem_fieldLeafNames rest hrest⟩

end

mutual

/-- **Full paths are no own names.** Where every struct has a name, the separator is in the full
paths of its fields, and in no own name if it delimits. -/
theorem fullPathsFree_of_structsNamed (hseparator : Delimits separator) : ∀ (type : Tree)
    {scope beside : List String}, type.NamesSpelled → type.StructsNamed →
    (type.EndsInStruct → joinPath separator scope.reverse ≠ "") →
    (∀ name ∈ beside, Spelled name) → type.FullPathsFree separator scope beside
  | scalar _, _, _, _, _, _, _ => trivial
  | list element, scope, _, hspelled, hnamed, hpath, hbeside => by
    refine fullPathsFree_of_structsNamed hseparator element hspelled hnamed (fun hstruct => ?_)
      hbeside
    rw [List.reverse_cons, joinPath_concat_anonymous]
    exact hpath hstruct
  | struct fields, scope, beside, hspelled, hnamed, hpath, hbeside => by
    refine ⟨fun column hcolumn hmem => ?_,
      fieldFullPathsFree_of_structsNamed hseparator fields hspelled hnamed hbeside⟩
    obtain ⟨field, -, rfl⟩ := List.mem_map.mp hcolumn
    rw [Unfolding.pathLead, if_neg (hpath trivial)] at hmem
    exact hseparator.not_spelled _ _ (hbeside _ hmem)

theorem fieldFullPathsFree_of_structsNamed (hseparator : Delimits separator) :
    ∀ (fields : List (String × Tree)) {scope beside : List String}, FieldNamesSpelled fields →
      FieldStructsNamed fields → (∀ name ∈ beside, Spelled name) →
      FieldFullPathsFree separator scope beside fields
  | [], _, _, _, _, _ => trivial
  | (name, type) :: rest, scope, _, ⟨hname, htype, hrest⟩, ⟨hstruct, hnamed, hothers⟩,
      hbeside => by
    refine ⟨fullPathsFree_of_structsNamed hseparator type htype hnamed (fun hends => ?_) ?_,
      fieldFullPathsFree_of_structsNamed hseparator rest hrest hothers ?_⟩
    · exact joinPath_ne_empty (List.mem_reverse.mpr List.mem_cons_self) (hstruct hends)
    · exact List.forall_mem_append.mpr ⟨hbeside, spelled_of_mem_map_fst hrest⟩
    · exact List.forall_mem_append.mpr ⟨hbeside, spelled_of_mem_leafNames hname type htype⟩

end

end Tree

namespace Unfolding

/-! ### Columns under a path -/

/-- The column is called by the given names and more of them behind, joined by the separator. -/
def Within (separator : String) (names : List String) (column : String) : Prop :=
  ∃ more, (∀ name ∈ names ++ more, Spelled name) ∧ column = separator.intercalate (names ++ more)

theorem Within.self {names : List String} (h : ∀ name ∈ names, Spelled name) :
    Within separator names (separator.intercalate names) :=
  ⟨[], by simpa using h, by rw [List.append_nil]⟩

/-- What is under a field is under the struct. -/
theorem Within.of_concat {names : List String} {name column : String}
    (h : Within separator (names ++ [name]) column) : Within separator names column := by
  obtain ⟨more, hmore, rfl⟩ := h
  rw [List.append_assoc] at hmore ⊢
  exact ⟨[name] ++ more, hmore, rfl⟩

/-- **Fields are apart.** No column is under two fields of one struct. -/
theorem Within.eq_of_siblings (hseparator : Delimits separator) {names : List String}
    {name name' column : String} (h : Within separator (names ++ [name]) column)
    (h' : Within separator (names ++ [name']) column) : name = name' := by
  obtain ⟨more, hmore, rfl⟩ := h
  obtain ⟨more', hmore', hcolumn⟩ := h'
  have hsame : names ++ [name] ++ more = names ++ [name'] ++ more' := by
    obtain ⟨first, rest, hfirst⟩ :=
      List.exists_cons_of_ne_nil (show names ++ [name] ++ more ≠ [] by simp)
    obtain ⟨first', rest', hfirst'⟩ :=
      List.exists_cons_of_ne_nil (show names ++ [name'] ++ more' ≠ [] by simp)
    rw [hfirst] at hmore hcolumn ⊢
    rw [hfirst'] at hmore' hcolumn ⊢
    exact hseparator.intercalate_inj hmore hmore' hcolumn
  rw [List.append_assoc, List.append_assoc] at hsame
  exact (List.cons.inj (List.append_cancel_left hsame)).1

/-- The path is that of a struct along the given names. -/
def LeadsAlong (separator : String) (names : List String) (path : String) : Prop :=
  ∀ name, pathLead separator path ++ name = separator.intercalate (names ++ [name])

theorem leadsAlong_nil : LeadsAlong separator [] "" := by
  intro name
  rw [pathLead, if_pos rfl, String.empty_append, List.nil_append, String.intercalate_singleton]

/-- The path of a field with a name is one name longer. -/
theorem LeadsAlong.concat {names : List String} {path name : String}
    (h : LeadsAlong separator names path) (hname : name ≠ "") :
    LeadsAlong separator (names ++ [name]) (joinPath separator [path, name]) := by
  have hpath : joinPath separator [path, name] = separator.intercalate (names ++ [name]) := by
    rw [← h name, pathLead]
    split
    · rename_i hempty
      rw [hempty, joinPath_anonymous, joinPath_singleton, String.empty_append]
    · rename_i hpath
      exact joinPath_pair separator hpath hname
  have hne : joinPath separator [path, name] ≠ "" :=
    joinPath_ne_empty (List.mem_cons_of_mem path List.mem_cons_self) hname
  intro other
  have hlonger : separator.intercalate (names ++ [name] ++ [other]) =
      separator.intercalate (names ++ [name]) ++ separator ++ other := by
    rw [String.intercalate_append_of_ne_nil (by simp) (by simp), String.intercalate_singleton]
  rw [pathLead, if_neg hne, hpath, hlonger]

/-- The columns of the fields of a struct are each under their own path. -/
theorem LeadsAlong.within_of_mem {names : List String} {path column : String} {fields : Fields}
    (h : LeadsAlong separator names path) (hnames : ∀ name ∈ names, Spelled name)
    (hfields : ∀ name ∈ fields.map Prod.fst, Spelled name)
    (hcolumn : column ∈ fieldColumns (pathLead separator path) fields) :
    ∃ name ∈ fields.map Prod.fst, Within separator (names ++ [name]) column := by
  obtain ⟨field, hfield, rfl⟩ := List.mem_map.mp hcolumn
  have hname : field.1 ∈ fields.map Prod.fst := List.mem_map_of_mem hfield
  rw [h field.1]
  exact ⟨field.1, hname, .self (List.forall_mem_append.mpr
    ⟨hnames, List.forall_mem_singleton.mpr (hfields _ hname)⟩)⟩

/-! ### Eager plans -/

/-- **Free full paths.** An eager struct finds its names free if no column around it is under its
path. -/
private theorem chooseLead_eager {names done rest : List String} {path column : String}
    {fields : Fields} (hpath : LeadsAlong separator names path)
    (hnames : ∀ name ∈ names, Spelled name) (hfields : ∀ name ∈ fields.map Prod.fst, Spelled name)
    (hdistinct : (done ++ column :: rest).Nodup)
    (hothers : ∀ other ∈ done ++ rest, ¬Within separator names other) :
    chooseLead (done ++ column :: rest) column fields (leadsOf separator .eager path) =
      .ok (pathLead separator path) := by
  have hfree : collides (done ++ column :: rest) column (pathLead separator path) fields = false :=
    (collides_eq_false_iff hdistinct).mpr fun other hother hmem => by
      obtain ⟨name, -, hwithin⟩ := hpath.within_of_mem hnames hfields hother
      exact hothers other hmem hwithin.of_concat
  obtain ⟨lead, hlead⟩ := exists_chooseLead (List.mem_singleton_self _) hfree
  rw [leadsOf, hlead, eq_pathLead_of_chooseLead hlead]

/-- The columns of the fields behind the first one are not under it. -/
private theorem apart_first (hseparator : Delimits separator) {names done rest : List String}
    {path name : String} {fields : Fields} (hpath : LeadsAlong separator names path)
    (hnames : ∀ name ∈ names, Spelled name) (hfields : ∀ name ∈ fields.map Prod.fst, Spelled name)
    (hfresh : name ∉ fields.map Prod.fst)
    (hothers : ∀ other ∈ done ++ rest, ¬Within separator (names ++ [name]) other) :
    ∀ other ∈ done ++ (fieldColumns (pathLead separator path) fields ++ rest),
      ¬Within separator (names ++ [name]) other := by
  intro other hother hwithin
  rw [← List.append_assoc, mem_middle_iff] at hother
  rcases hother with hother | hother
  · obtain ⟨name', hname', hwithin'⟩ := hpath.within_of_mem hnames hfields hother
    exact hfresh (hwithin.eq_of_siblings hseparator hwithin' ▸ hname')
  · exact hothers other hother hwithin

/-- The leaves of the first field are not under those behind it. -/
private theorem apart_rest (hseparator : Delimits separator) {names done leaves rest : List String}
    {name : String} {fields : Fields} (hfresh : name ∉ fields.map Prod.fst)
    (hleaves : ∀ leaf ∈ leaves, Within separator (names ++ [name]) leaf)
    (hothers : ∀ other ∈ done ++ rest, ∀ name' ∈ fields.map Prod.fst,
      ¬Within separator (names ++ [name']) other) :
    ∀ other ∈ done ++ leaves ++ rest, ∀ name' ∈ fields.map Prod.fst,
      ¬Within separator (names ++ [name']) other := by
  intro other hother name' hname' hwithin
  rcases mem_middle_iff.mp hother with hother | hother
  · exact hfresh ((hleaves other hother).eq_of_siblings hseparator hwithin ▸ hname')
  · exact hothers other hother name' hname' hwithin

mutual

/-- **Unfolding a type eagerly.** If no column beside that of a type is under its path, it can be
unfolded, and the columns of its leaves are under its path. -/
theorem ofTree_eager (hseparator : Delimits separator) : ∀ (type : Tree)
    {names done rest : List String} (scope : List String),
    type.NamesDistinct → type.NamesSpelled → type.StructsNamed → (∀ name ∈ names, Spelled name) →
    (type.EndsInStruct → LeadsAlong separator names (joinPath separator scope.reverse)) →
    (done ++ separator.intercalate names :: rest).Nodup →
    (∀ other ∈ done ++ rest, ¬Within separator names other) →
    ∃ unfolding, ofTree separator .eager (done ++ separator.intercalate names :: rest)
        (separator.intercalate names) (joinPath separator scope.reverse) type = .ok unfolding ∧
      ∀ column ∈ unfolding.leaves.map Leaf.column, Within separator names column
  | .scalar datatype, names, _, _, _, _, _, _, hnames, _, _, _ => by
    rw [ofTree]
    refine ⟨_, rfl, ?_⟩
    simpa using Within.self hnames
  | .list element, names, _, _, scope, hdistinct, hspelled, hnamed, hnames, hpath, hcolumns,
      hothers => by
    rw [← joinPath_concat_anonymous, ← List.reverse_cons] at hpath ⊢
    obtain ⟨inner, hinner, hleaves⟩ := ofTree_eager hseparator element ("" :: scope) hdistinct
      hspelled hnamed hnames hpath hcolumns hothers
    rw [ofTree, hinner, ok_bind]
    exact ⟨_, rfl, hleaves⟩
  | .struct fields, names, done, rest, scope, ⟨hsiblings, hdistinct⟩, hspelled, hnamed, hnames,
      hpath, hcolumns, hothers => by
    have hlead := chooseLead_eager (hpath trivial) hnames (Tree.spelled_of_mem_map_fst hspelled)
      hcolumns hothers
    have hfields := (chooseLead_ends _ hcolumns hsiblings).of_eq_ok hlead
    obtain ⟨inner, hinner, hleaves⟩ := ofFields_eager hseparator fields scope hsiblings hdistinct
      hspelled hnamed hnames (hpath trivial) hfields
      fun other hother name _ hwithin => hothers other hother hwithin.of_concat
    rw [ofTree, hlead, ok_bind, replaceColumn_middle hcolumns]
    dsimp only
    rw [hinner, ok_bind]
    exact ⟨_, rfl, hleaves⟩

/-- **Unfolding fields eagerly.** If no column beside those of some fields is under one of them,
they can be unfolded, and the columns of their leaves are under the path of the struct. -/
theorem ofFields_eager (hseparator : Delimits separator) : ∀ (fields : List (String × Tree))
    {names done rest : List String} (scope : List String),
    (fields.map Prod.fst).Nodup → Tree.FieldNamesDistinct fields → Tree.FieldNamesSpelled fields →
    Tree.FieldStructsNamed fields → (∀ name ∈ names, Spelled name) →
    LeadsAlong separator names (joinPath separator scope.reverse) →
    (done ++ fieldColumns (pathLead separator (joinPath separator scope.reverse)) fields ++
      rest).Nodup →
    (∀ other ∈ done ++ rest, ∀ name ∈ fields.map Prod.fst,
      ¬Within separator (names ++ [name]) other) →
    ∃ unfolding, ofFields separator .eager
        (done ++ fieldColumns (pathLead separator (joinPath separator scope.reverse)) fields ++
          rest)
        (pathLead separator (joinPath separator scope.reverse)) (joinPath separator scope.reverse)
        fields = .ok unfolding ∧
      ∀ column ∈ unfolding.leaves.map Leaf.column, Within separator names column
  | [], _, _, _, _, _, _, _, _, _, _, _, _ => by
    rw [ofFields]
    exact ⟨_, rfl, nofun⟩
  | (name, type) :: fields, names, done, rest, scope, hsiblings, ⟨htype, hdistinct⟩,
      ⟨hname, htypeSpelled, hspelled⟩, ⟨hstruct, htypeNamed, hnamed⟩, hnames, hpath, hcolumns,
      hothers => by
    obtain ⟨hfresh, hsiblings⟩ := List.nodup_cons.mp hsiblings
    have hcolumn : ∀ n ∈ names ++ [name], Spelled n :=
      List.forall_mem_append.mpr ⟨hnames, List.forall_mem_singleton.mpr hname⟩
    have hfirstPath : type.EndsInStruct → LeadsAlong separator (names ++ [name])
        (joinPath separator (name :: scope).reverse) := fun hends => by
      rw [List.reverse_cons, ← joinPath_concat]
      exact hpath.concat (hstruct hends)
    have halone := apart_first hseparator hpath hnames (Tree.spelled_of_mem_map_fst hspelled) hfresh
      fun other hother => hothers other hother name List.mem_cons_self
    rw [fieldColumns_cons_middle, hpath name] at hcolumns ⊢
    rw [ofFields, hpath name, joinPath_concat, ← List.reverse_cons]
    obtain ⟨first, hfirst, hleaves⟩ := ofTree_eager hseparator type (name :: scope) htype
      htypeSpelled htypeNamed hcolumn hfirstPath hcolumns halone
    -- what the first field leaves behind is done for the others, and apart from them
    have hunfolds := (ofTree_ends type (name :: scope) hcolumns htype).of_eq_ok hfirst
    have hnext := hunfolds.distinct
    rw [hunfolds.columns, ← List.append_assoc] at hnext
    rw [hfirst, ok_bind, hunfolds.columns, ← List.append_assoc]
    obtain ⟨others, hrest, hbehind⟩ := ofFields_eager hseparator fields scope hsiblings hdistinct
      hspelled hnamed hnames hpath hnext (apart_rest hseparator hfresh hleaves
        fun other hother name' hname' => hothers other hother name' (List.mem_cons_of_mem _ hname'))
    rw [hrest, ok_bind]
    refine ⟨_, rfl, ?_⟩
    rw [List.map_append, List.forall_mem_append]
    exact ⟨fun column hmem => (hleaves column hmem).of_concat, hbehind⟩

end

end Unfolding

/-! ### Plans -/

/-- The entries of a record can be unfolded by the eager strategy. -/
theorem Schema.Coherent.ofFields_eager {schema : Schema} (h : schema.Coherent)
    (hseparator : Delimits schema.separator) (hspelled : Tree.FieldNamesSpelled schema.fields)
    (hnamed : Tree.FieldStructsNamed schema.fields) :
    ∃ unfolding, Unfolding.ofFields schema.separator .eager (schema.fields.map Prod.fst) "" ""
      schema.fields = .ok unfolding := by
  obtain ⟨hsiblings, hnames⟩ := h.names_distinct
  have hroot : Unfolding.pathLead schema.separator (joinPath schema.separator [].reverse) = "" :=
    if_pos rfl
  have hdistinct := hsiblings
  rw [← fieldColumns_root, ← hroot] at hdistinct
  obtain ⟨unfolding, hunfolding, -⟩ :=
    Unfolding.ofFields_eager hseparator schema.fields [] hsiblings hnames hspelled hnamed
      (List.forall_mem_nil _) Unfolding.leadsAlong_nil hdistinct nofun
  rw [hroot, fieldColumns_root] at hunfolding
  exact ⟨unfolding, hunfolding⟩

/-- **Planning succeeds.** A compiled schema has a plan under both strategies, where the separator
has a character that is none of an identifier and every struct has a name. -/
theorem Plan.ofSchema_succeeds {source : Text} {options : CompileOptions} {schema : Schema}
    (h : compile source options = .ok schema) (hseparator : Delimits options.separator)
    (hnamed : Tree.FieldStructsNamed schema.fields) (strategy : Strategy) :
    ∃ plan, Plan.ofSchema schema strategy = .ok plan := by
  have hcoherent : schema.Coherent := coherent_of_compile h
  have hspelled := fieldNamesSpelled_of_compile h
  rw [← separator_of_compile h] at hseparator
  obtain ⟨unfolding, hunfolding⟩ := hcoherent.ofFields_eager hseparator hspelled hnamed
  cases strategy with
  | eager => exact hcoherent.exists_ofSchema hunfolding
  | deferred =>
    have hfree : Tree.FieldFullPathsFree schema.separator [] [] schema.fields :=
      Tree.fieldFullPathsFree_of_structsNamed hseparator schema.fields hspelled hnamed
        (List.forall_mem_nil _)
    obtain ⟨deferred, hdeferred, -⟩ := (hcoherent.ofFields_deferred hfree).exists_ok hunfolding
    exact hcoherent.exists_ofSchema hdeferred

/-- A schema with structs of the same fields, one in a list, and with an anonymous scalar: it has a
plan under both strategies. -/
theorem Plan.ofSchema_succeeds_siblings :
    ∃ schema eager deferred, compile (Text.ofString
        "a: Struct(x: Int8, Utf8), b: List(Struct(x=y: Int8, a=z: Utf8))") = .ok schema ∧
      Delimits "." ∧ Tree.FieldStructsNamed schema.fields ∧
      Plan.ofSchema schema .eager = .ok eager ∧ Plan.ofSchema schema .deferred = .ok deferred := by
  have hcompiled : ((compile (Text.ofString
      "a: Struct(x: Int8, Utf8), b: List(Struct(x=y: Int8, a=z: Utf8))")).toOption.map
        fun schema => decide (Tree.FieldStructsNamed schema.fields)) = some true := by
    decide +kernel
  obtain ⟨schema, hcompile, hnamed⟩ := toOption_map_eq_some_iff.mp hcompiled
  have hdelimits : Delimits "." := by decide
  have hstructs := of_decide_eq_true hnamed
  obtain ⟨eager, heager⟩ := Plan.ofSchema_succeeds hcompile hdelimits hstructs .eager
  obtain ⟨deferred, hdeferred⟩ := Plan.ofSchema_succeeds hcompile hdelimits hstructs .deferred
  exact ⟨schema, eager, deferred, hcompile, hdelimits, hstructs, heager, hdeferred⟩

end NestedRecords
