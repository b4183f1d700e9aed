import ThemeSheet.Tree.Basic

/-!
# Schemas and pruning

A schema says which part of a tree is kept. Where it is a leaf it accepts any value; where it has
fields it wants a mapping and keeps the entries of its fields, each pruned in turn. What is not
accepted is dropped without complaint, and a mapping that loses its last entry goes with it.

Pruning is a recursion on the tree. It keeps entries or drops them and never moves one, so the order
of the keys is the tree's own.

## Main definitions

* `Schema`, `Schema.ofValue`, `Schema.toValue`;
* `Schema.prune`, and `Schema.pruneEntries` on the entries of a mapping.
-/

namespace ThemeSheet

/-- What is kept of a tree. -/
inductive Schema where
  /-- Any value. -/
  | any
  /-- A mapping with these fields. -/
  | fields (fields : List (String × Schema))
deriving Repr, Inhabited

namespace Schema

/-- The schema of a name among fields. -/
def field? (fields : List (String × Schema)) (name : String) : Option Schema :=
  fields.lookup name

/-- The schema of a key among fields; only a text is the name of a field. -/
def ofKey? (fields : List (String × Schema)) : Key → Option Schema
  | .text name => field? fields name
  | _ => none

mutual

/-- The entries accepted by fields. -/
def pruneEntries (fields : List (String × Schema)) : List (Key × Value) → Entries
  | [] => []
  | (k, v) :: rest =>
    match ofKey? fields k with
    | none => pruneEntries fields rest
    | some .any => (k, v) :: pruneEntries fields rest
    | some (.fields sub) =>
      match prune sub v with
      | [] => pruneEntries fields rest
      | kept => (k, .map kept) :: pruneEntries fields rest

/-- The entries of a value accepted by fields: none if the value is not a mapping. -/
def prune (fields : List (String × Schema)) : Value → Entries
  | .map es _ => pruneEntries fields es
  | _ => []

end

/-! ### Schemas as trees -/

/-- A mapping from names to leaves. -/
def leaves (names : List String) : Schema := .fields (names.map fun name => (name, .any))

mutual

/-- A tree as a schema: a mapping has fields, and anything else is a leaf. -/
def ofValue : Value → Schema
  | .map es _ => .fields (ofEntries es)
  | _ => .any

/-- The fields of the entries of a mapping. -/
def ofEntries : List (Key × Value) → List (String × Schema)
  | [] => []
  | (.text name, v) :: rest => (name, ofValue v) :: ofEntries rest
  | (_, _) :: rest => ofEntries rest

end

mutual

/-- A schema as a tree: a leaf is null. -/
def toValue : Schema → Value
  | .any => .null
  | .fields fs => .map (toEntries fs)

/-- Fields as the entries of a mapping. -/
def toEntries : List (String × Schema) → Entries
  | [] => []
  | (name, s) :: rest => (.text name, toValue s) :: toEntries rest

end

end Schema

end ThemeSheet
