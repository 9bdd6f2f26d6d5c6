import NestedRecords.Proofs.Schema.Acceptance

/-!
# Texts that are refused for duplicates

A text that follows the grammar, and in which no two siblings share a name, can be refused for one
reason only: two of its leaves fill one column or read one json path. The builder finds that out in
the middle of the text, at the second of the two leaves, so what is shown of it is how each run over
a derivation ends (`Builder.run_ends_of_derives`): with a duplicate, or with all entries read and
distinct leaves.
-/

namespace NestedRecords

open Declared

/-- The problem is a name that comes twice. -/
def Rejection.IsDuplicate (rejection : Rejection) : Prop :=
  rejection.problem.kind = .duplicateColumn

namespace Builder

variable {b : Builder} {separator : String}

/-! ### Runs over derivations -/

/-- Reading a scalar entry that has room: its leaf is a new one, or a duplicate. -/
theorem apply_scalar_ends {token : Token} {name newName : Option String} {type : Fragment}
    {datatype : Datatype} (head : token.Introduces name newName type)
    (known : TypeName.ofName? type.toString = some (.scalar datatype))
    (room : b.HasRoom (name.getD "")) :
    Ends Rejection.IsDuplicate
      (fun b' => b' = b.read separator (name, .scalar newName datatype) ∧
        (b.leafOf separator (name.getD "") newName datatype).column ∉
          b.leaves.map BoundLeaf.column ∧
        (b.leafOf separator (name.getD "") newName datatype).path ∉ b.leaves.map BoundLeaf.path)
      (b.apply separator token) := by
  have hentry : ∀ name newName : Option Fragment,
      b.HasRoom ((name.map Fragment.toString).getD "") →
      Ends Rejection.IsDuplicate
        (fun b' =>
          let label := (name.map Fragment.toString).getD ""
          let leaf := b.leafOf separator label (newName.map Fragment.toString) datatype
          b' = b.read separator
            (name.map Fragment.toString, .scalar (newName.map Fragment.toString) datatype) ∧
          leaf.column ∉ b.leaves.map BoundLeaf.column ∧ leaf.path ∉ b.leaves.map BoundLeaf.path)
        (b.addEntry separator type name newName) := by
    intro name newName room
    obtain ⟨hopened, helement, hname⟩ :=
      (hasRoom_iff b _ (name.getD type) (name.getD type) (name.getD type)).mp room
    have hpath : ∀ label, b.pathOf separator label =
        joinPath separator (label :: b.scope).reverse := fun label => by
      rw [pathOf, List.reverse_cons, scope]
    simp only [addEntry, hopened, known, addLeaf, helement, hname, ok_bind, hpath]
    refine .guard (fun _ => rfl) fun hcolumn => .guard (fun _ => rfl) fun hpath => ?_
    exact .ok ⟨rfl, hcolumn, hpath⟩
  cases head with
  | renamed name newName type => exact hentry (some name) (some newName) room
  | named name type => exact hentry (some name) none room
  | lone type => exact hentry none none room

/-- **Reading a derivation.** Entries that have room are all read and have distinct leaves, or the
run ends with a duplicate. -/
theorem run_ends_of_derives {tokens : List Token} {entries : List Entry}
    (h : Derives tokens entries) : ∀ b : Builder, b.Takes separator entries →
      LeavesDistinct b.leaves →
      Ends Rejection.IsDuplicate
        (fun b' => b' = entries.foldl (read separator) b ∧ LeavesDistinct b'.leaves)
        (tokens.foldlM (apply separator) b) := by
  induction h with
  | nil => exact fun b _ hleaves => .ok ⟨rfl, hleaves⟩
  | scalar head known _ ih =>
    rintro b ⟨room, -, hrest⟩ hleaves
    rw [List.foldlM_cons]
    refine (apply_scalar_ends head known room).bind ?_
    rintro _ ⟨rfl, hcolumn, hpath⟩
    refine ih _ hrest ?_
    rw [leaves_read]
    exact leavesDistinct_concat.mpr ⟨hleaves, hcolumn, hpath⟩
  | @list token name type opening closing content tokens element entries head known _ _ ihc ih =>
    rintro b ⟨room, hnames, hrest⟩ hleaves
    have htakes : (b.enter name type .list).Takes separator [(none, element)] :=
      ⟨⟨rfl, rfl, rfl⟩, hnames, trivial⟩
    rw [run_enter head known room]
    refine (ihc _ htakes hleaves).bind ?_
    rintro _ ⟨rfl, hinner⟩
    have hclose : apply separator _ (.closing closing) = _ := apply_eq_ok_iff.mpr (.closing
      (b := [(none, element)].foldl (read separator) (b.enter name type .list)) closing rfl rfl rfl)
    rw [List.foldlM_cons, hclose, ok_bind]
    refine ih _ hrest ?_
    -- the element has the leaves of the list
    rw [List.foldl_cons, List.foldl_nil, leaves_read] at hinner
    rw [leaves_read]
    exact hinner
  | @struct token name type opening closing content tokens fields entries head known _ _ ihc ih =>
    rintro b ⟨room, hnames, hrest⟩ hleaves
    have htakes : (b.enter name type .struct).Takes separator fields :=
      takes_of_siblings (fun c hc => by rw [← Option.some.inj hc]) rfl hnames.1 hnames.2
    rw [run_enter head known room]
    refine (ihc _ htakes hleaves).bind ?_
    rw [enter, Content.new, foldl_read_struct]
    rintro _ ⟨rfl, hinner⟩
    have hclose : apply separator _ (.closing closing) = _ := apply_eq_ok_iff.mpr (.closing
      (b := ⟨⟨name.getD "", type, true, .struct ([] ++ Declared.fields fields)⟩ :: b.containers,
        b.fields, b.leaves ++ entryLeaves separator
          (name.getD "" :: b.containers.map OpenContainer.name) fields⟩) closing rfl rfl rfl)
    rw [List.foldlM_cons, hclose, ok_bind]
    refine ih _ hrest ?_
    rw [leaves_read]
    exact hinner

end Builder

/-- **How a derivation is read.** A text that lexes to its end and whose tokens spell entries with
distinct names is the schema of these entries, if their leaves are distinct; otherwise it is refused
for a duplicate. -/
theorem Fragment.schema_ends {f : Fragment} {separator : String} {entries : List Entry}
    (hlexed : f.tokens.2 = none) (derived : Derives f.tokens.1 entries)
    (hnames : (Tree.struct (Declared.fields entries)).NamesDistinct) :
    Ends Rejection.IsDuplicate
      (fun schema => schema = Declared.schema separator entries ∧
        LeavesDistinct (entryLeaves separator [] entries))
      (f.schema separator) := by
  rw [Fragment.schema]
  generalize f.tokens = read at hlexed derived ⊢
  obtain ⟨tokens, unread⟩ := read
  obtain rfl : unread = none := hlexed
  have htakes : Builder.Takes separator {} entries :=
    Builder.takes_of_siblings Builder.ready_empty rfl hnames.1 hnames.2
  refine (Builder.run_ends_of_derives derived {} htakes ⟨List.nodup_nil, List.nodup_nil⟩).bind ?_
  rw [Builder.foldl_read_record]
  rintro _ ⟨rfl, hleaves⟩
  rw [List.nil_append] at hleaves
  exact .ok ⟨rfl, hleaves⟩

end NestedRecords
