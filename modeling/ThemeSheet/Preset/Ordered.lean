/-!
# Named values in order

A list of names with values in which a name stands once. Writing a name that is there replaces its
value and leaves its place; a new name goes to the end.

## Main definitions

* `put`, `putAll`, `distinct`.
-/

namespace ThemeSheet.Named

/-- Writes a value under a name. -/
def put {α : Type} (name : String) (value : α) : List (String × α) → List (String × α)
  | [] => [(name, value)]
  | (n, v) :: rest => if n = name then (n, value) :: rest else (n, v) :: put name value rest

/-- Writes the values of one list into another, in order. -/
def putAll {α : Type} (into new : List (String × α)) : List (String × α) :=
  new.foldl (fun done entry => put entry.1 entry.2 done) into

/-- The names in the order of their first occurrence. -/
def distinct (names : List String) : List String :=
  names.foldl (fun done name => if done.contains name then done else done ++ [name]) []

end ThemeSheet.Named
