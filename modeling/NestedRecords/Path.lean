/-!
# Json paths

The path of a leaf is made of the names on the way to it, joined by a separator. Anonymous
steps leave no trace in it.
-/

namespace NestedRecords

/-- The path along some names; the empty ones are left out. -/
def joinPath (separator : String) (names : List String) : String :=
  separator.intercalate (names.filter (· ≠ ""))

@[simp]
theorem joinPath_nil (separator : String) : joinPath separator [] = "" := rfl

@[simp]
theorem joinPath_singleton (separator name : String) : joinPath separator [name] = name := by
  by_cases h : name = "" <;> simp [joinPath, h]

@[simp]
theorem joinPath_anonymous (separator : String) (names : List String) :
    joinPath separator ("" :: names) = joinPath separator names := by
  simp [joinPath]

end NestedRecords
