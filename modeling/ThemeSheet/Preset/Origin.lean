/-!
# Origins

A setting comes from the defaults, from the theme or from the user, in this order of precedence.
Whoever asks for several origins names them in any order, perhaps more than once; what they get is
always in the order of precedence, and names of no origin count for nothing.

## Main definitions

* `Origin`, `Origin.ofName?`, `Origin.ordered`.
-/

namespace ThemeSheet

/-- Where a setting comes from, from the least specific to the most. -/
inductive Origin where
  | default
  | theme
  | custom
deriving DecidableEq, Repr

namespace Origin

/-- The name of an origin. -/
def name : Origin → String
  | .default => "default"
  | .theme => "theme"
  | .custom => "custom"

/-- The origins in the order of precedence. -/
def all : List Origin := [.default, .theme, .custom]

/-- The names of the origins in the order of precedence. -/
def allNames : List String := all.map name

/-- The origin of a name. -/
def ofName? (s : String) : Option Origin := all.find? fun origin => origin.name = s

/-- The origins that are named, in the order of precedence. -/
def ordered (requested : List String) : List Origin :=
  all.filter fun origin => requested.contains origin.name

end Origin

end ThemeSheet
