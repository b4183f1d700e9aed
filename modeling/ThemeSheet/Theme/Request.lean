import ThemeSheet.Theme.Stylesheet
import ThemeSheet.Tree.Listed

/-!
# What is asked of a theme

The sections and the origins of a stylesheet can be asked for by values of any kind. A list names
them by its items and a mapping by its keys; a text is one of the older names of sections, and for
origins it names its characters. Any other value names nothing and is refused.

Origins are compared with names by looking them up, which a list or a mapping among them does not
allow. They are looked up for every collection of presets that is keyed by them, and for one that is
absent; a collection of another form has no use for origins, and then their fault is overlooked.

## Main definitions

* `RequestError`;
* `SectionRequest.ofValue`, `OriginRequest.ofValue`;
* `Category.asksOrigins`, whether the origins are looked up; `OriginRequest.namesFor`;
* `Theme.answer`, `Theme.answerFilters`.

## Main results

* `Theme.answer_of_noLookup_eq_none`: where all origins can be looked up, the answer is the
  stylesheet.
-/

namespace ThemeSheet

/-- Why a request is not answered. -/
inductive RequestError where
  /-- Compiling stops. -/
  | refused (refusal : Refusal)
  /-- The sections or the origins are not asked for by items. -/
  | unlisted (fault : ItemFault)
deriving DecidableEq, Repr

namespace RequestError

/-- The wording of an error. -/
def message : RequestError → String
  | .refused refusal => refusal.message
  | .unlisted fault => fault.message

/-- A refusal as the error of a request. -/
def lift {α : Type} : Except Refusal α → Except RequestError α
  | .ok a => .ok a
  | .error refusal => .error (.refused refusal)

theorem lift_map {α β : Type} (f : α → β) (r : Except Refusal α) :
    (do let a ← lift r; return f a) = lift (do let a ← r; return f a) := by
  cases r <;> rfl

/-- A list that is made item by item is made alike with and without the wider errors. -/
theorem mapM_lift {α β : Type} (f : α → Except Refusal β) (xs : List α) :
    xs.mapM (fun x => lift (f x)) = lift (xs.mapM f) := by
  induction xs with
  | nil => rfl
  | cons x xs ih =>
    simp only [List.mapM_cons, ih]
    cases f x with
    | error _ => rfl
    | ok _ => cases xs.mapM f <;> rfl

/-- What a value lists, in answer to a request. -/
def listed (v : Value) : Except RequestError (List Value) :=
  match v.listed with
  | .ok values => .ok values
  | .error fault => .error (.unlisted fault)

end RequestError

/-! ### Sections -/

/-- The sections asked for, and whether they were asked for by one of the older names. -/
structure SectionRequest where
  sections : List StyleSection
  legacy : Bool
deriving DecidableEq, Repr

namespace SectionRequest

/-- All sections. -/
def all : SectionRequest := ⟨StyleSection.all, false⟩

/-- The sections that a value asks for; null asks for all of them. -/
def ofValue : Value → Except RequestError SectionRequest
  | .null => .ok all
  | .text s => .ok ⟨StyleSection.ofLegacy s, true⟩
  | v => do
    let items ← RequestError.listed v
    let names ← RequestError.lift (items.mapM Value.spelling)
    return ⟨StyleSection.ordered names, false⟩

/-- The warnings that a request calls for. -/
def warnings (request : SectionRequest) : List String :=
  if request.legacy then [StyleSection.legacyWarning] else []

end SectionRequest

/-! ### Origins -/

/-- Whether the origins are looked up for a category: its collection is keyed by them, or absent. -/
def Category.asksOrigins (settings : Value) (category : Category) : Bool :=
  (settings.getD category.path .emptyMap).isMap

/-- The origins asked for: names, and the kind of the first item that cannot be looked up. -/
structure OriginRequest where
  names : List String
  noLookup : Option String := none
deriving DecidableEq, Repr

namespace OriginRequest

/-- All origins. -/
def all : OriginRequest := { names := Origin.allNames }

/-- The kind of an item that cannot be looked up. -/
def obstacle? : Value → Option String
  | .list items _ => some (Value.list items).kind
  | .map es _ => some (Value.map es).kind
  | _ => none

/-- The origins that a value asks for. -/
def ofValue (v : Value) : Except RequestError OriginRequest := do
  let items ← RequestError.listed v
  return ⟨items.filterMap Value.text?, items.findSome? obstacle?⟩

/-- The names, if all items can be looked up. -/
def checked (request : OriginRequest) : Except RequestError (List String) :=
  match request.noLookup with
  | some kind => .error (.unlisted (.noLookup kind))
  | none => .ok request.names

/-- The names, for the presets of the settings of a scope. Where no category asks for origins, any
names will do. -/
def namesFor (request : OriginRequest) (settings : Value) : Except RequestError (List String) :=
  if Category.all.any (Category.asksOrigins settings) then request.checked else .ok request.names

theorem checked_of_noLookup_eq_none {request : OriginRequest} (h : request.noLookup = none) :
    request.checked = .ok request.names := by
  simp [checked, h]

theorem namesFor_of_noLookup_eq_none {request : OriginRequest} (h : request.noLookup = none)
    (settings : Value) : request.namesFor settings = .ok request.names := by
  simp [namesFor, checked_of_noLookup_eq_none h]

end OriginRequest

namespace Theme

/-- The pieces of the settings of a scope, made of the origins that are asked for. -/
def scopeAnswer (theme : Theme) (origins : OriginRequest)
    (pieces : List String → Scope → Except Refusal (List Piece)) (scope : Scope) :
    Except RequestError (List Piece) :=
  match scope.selector with
  | none => .ok []
  | some _ => do
    let names ← origins.namesFor (theme.partOf scope)
    RequestError.lift (pieces names scope)

/-- The pieces of the settings of all scopes. -/
def settingsAnswer (theme : Theme) (table : BlockTable) (origins : OriginRequest)
    (pieces : List String → Scope → Except Refusal (List Piece)) :
    Except RequestError (List Piece) := do
  let groups ← (settingScopes table theme.tree).mapM (theme.scopeAnswer origins pieces)
  return groups.flatten

/-- The pieces of a section that is asked for. -/
def sectionAnswer (theme : Theme) (table : BlockTable) (origins : OriginRequest) :
    StyleSection → Except RequestError (List Piece)
  | .customProperties => theme.settingsAnswer table origins theme.scopeVariables
  | .styles => RequestError.lift (theme.stylePieces table)
  | .presets => theme.settingsAnswer table origins theme.scopeClasses

/-- The stylesheet that is asked for. -/
def answer (theme : Theme) (table : BlockTable) (sections : SectionRequest)
    (origins : OriginRequest) : Except RequestError String := do
  let groups ← sections.sections.mapM (theme.sectionAnswer table origins)
  return Piece.join groups.flatten

/-- The filters that are asked for. -/
def answerFilters (theme : Theme) (table : BlockTable) (origins : OriginRequest) :
    Except RequestError String := do
  let names ← origins.checked
  RequestError.lift (theme.filters table names)

/-! ### Origins without fault -/

/-- A scope without a selector has no pieces, whatever the origins. -/
theorem scopeAnswer_of_noLookup_eq_none (theme : Theme) {origins : OriginRequest}
    (h : origins.noLookup = none) {pieces : List String → Scope → Except Refusal (List Piece)}
    {scope : Scope} (hp : scope.selector = none → pieces origins.names scope = .ok []) :
    theme.scopeAnswer origins pieces scope = RequestError.lift (pieces origins.names scope) := by
  unfold scopeAnswer
  split
  next hs => rw [hp hs]; rfl
  next => rw [OriginRequest.namesFor_of_noLookup_eq_none h]; rfl

theorem settingsAnswer_of_noLookup_eq_none (theme : Theme) (table : BlockTable)
    {origins : OriginRequest} (h : origins.noLookup = none)
    {pieces : List String → Scope → Except Refusal (List Piece)}
    (hp : ∀ scope : Scope, scope.selector = none → pieces origins.names scope = .ok []) :
    theme.settingsAnswer table origins pieces = RequestError.lift (do
      let groups ← (settingScopes table theme.tree).mapM (pieces origins.names)
      return groups.flatten) := by
  have scopes : theme.scopeAnswer origins pieces =
      fun scope => RequestError.lift (pieces origins.names scope) :=
    funext fun scope => theme.scopeAnswer_of_noLookup_eq_none h (hp scope)
  unfold settingsAnswer
  rw [scopes, RequestError.mapM_lift, RequestError.lift_map]

/-- **Where all origins can be looked up, the answer is the stylesheet.** -/
theorem answer_of_noLookup_eq_none (theme : Theme) (table : BlockTable) (sections : SectionRequest)
    {origins : OriginRequest} (h : origins.noLookup = none) :
    theme.answer table sections origins =
      RequestError.lift (theme.stylesheet table sections.sections origins.names) := by
  have parts : theme.sectionAnswer table origins =
      fun part => RequestError.lift (theme.sectionPieces table origins.names part) := by
    funext part
    cases part with
    | styles => rfl
    | customProperties =>
      exact theme.settingsAnswer_of_noLookup_eq_none table h fun scope hs => by
        simp [scopeVariables, hs]
    | presets =>
      exact theme.settingsAnswer_of_noLookup_eq_none table h fun scope hs => by
        simp [scopeClasses, hs]
  unfold answer stylesheet
  rw [parts, RequestError.mapM_lift, RequestError.lift_map]

end Theme

end ThemeSheet
