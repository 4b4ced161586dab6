import BoardGamesEmpire.CatalogPlan
import BoardGamesEmpire.MustacheJson

set_option autoImplicit false

/-!
# Binding a unit's consent to the unit

`bindsConsentUnit` decides on the unrendered conditions of a permission whether
a household's or a user's consent can confer it. The authority itself comes
from the conditions the ability factory renders for the unit.
-/
namespace BoardGamesEmpire.ConsentUnitBinding
open JsText JsonText MustacheTemplate Catalog

inductive PluginUnitGrantScope where
  | Household
  | User
deriving DecidableEq

inductive UnitModel where
  | Household
  | User
deriving DecidableEq

structure UnitId where
  path : Text
  model : UnitModel

def UNIT_ID : PluginUnitGrantScope → UnitId
  | .Household => ⟨"unit.householdId".toList, .Household⟩
  | .User => ⟨"unit.userId".toList, .User⟩

def PLUGIN_UNIT_RENDER_VARIABLES : PluginUnitGrantScope → List Text
  | .Household =>
    ["plugin.id".toList, "plugin.slug".toList, "unit.scopeType".toList, "unit.householdId".toList]
  | .User => ["plugin.id".toList, "plugin.slug".toList, "unit.scopeType".toList, "unit.userId".toList]

/-- The columns of a model that hold a unit's id, and the models its relations
    point to. -/
structure ModelColumns where
  ids : UnitModel → List Text
  relations : Text → Option Text

def PLUGIN_UNIT_CONSENT_PUBLIC_READS : List Text :=
  ["read:game:public".toList, "read:game_collection:public".toList, "read:media_object:public".toList,
    "read:job".toList, "read:plugin:installed".toList, "read:user:searchable".toList,
    "read:user:profile:public".toList, "read:event:public".toList, "read:event_occurrence:public".toList,
    "read:event_policy:public".toList]

structure PermissionRule (ν : Type) where
  slug : Name
  action : Action
  subject : Text
  fields : List Text
  conditions : Document ν
  inverted : Bool

inductive TemplateProblem where
  | malformedTemplate (message : Text)
  | unsupportedTokenType (tokenType : Text)

structure ParsedTemplate where
  names : List Text
  problems : List TemplateProblem

mutual

/-- The variables a template names, and the tokens the factory does not render. -/
def walk : List Token → List Text × List TemplateProblem
  | [] => ([], [])
  | token :: tokens =>
    ((walkToken token).1 ++ (walk tokens).1, (walkToken token).2 ++ (walk tokens).2)
termination_by structural tokens => tokens

def walkToken : Token → List Text × List TemplateProblem
  | .text _ => ([], [])
  | .name path => ([path], [])
  | .unescaped path => ([path], [])
  | .sect path body => (path :: (walk body).1, (walk body).2)
  | .inverse path body => (path :: (walk body).1, (walk body).2)
  | .other tokenType _ => ([], [.unsupportedTokenType tokenType])
termination_by structural token => token

end

section Binding

variable {ν : Type} (F : NumberFormat ν) (M : Mustache ν)

def hasBoundingConditions : Json ν → Bool
  | .arr items => !items.isEmpty
  | .obj members => !members.isEmpty
  | _ => false

def parseTemplate (conditions : Json ν) : ParsedTemplate :=
  if hasBoundingConditions conditions then
    match M.parse (stringify F conditions) with
    | .error message => ⟨[], [.malformedTemplate message]⟩
    | .ok tokens => ⟨(walk tokens).1.eraseDups, (walk tokens).2⟩
  else ⟨[], []⟩

def hasSection (conditions : Json ν) : Bool :=
  match M.parse (stringify F conditions) with
  | .error _ => false
  | .ok tokens => tokens.any fun
    | .sect _ _ | .inverse _ _ => true
    | _ => false

def isUnitIdTag (value : Json ν) (path : Text) : Bool :=
  match value with
  | .str s =>
    match M.parse s with
    | .ok [.name named] => named == path
    | .ok [.unescaped named] => named == path
    | _ => false
  | _ => false

/-- The tag itself, or a filter that is `equals` alone with the tag. -/
def isIdEquality (value : Json ν) (path : Text) : Bool :=
  isUnitIdTag M value path ||
    match value with
    | .obj [(key, operand)] => key == "equals".toList && isUnitIdTag M operand path
    | _ => false

variable (columnsOf : Text → Option ModelColumns)

mutual

def restrictsToUnit (unitId : UnitId) : Json ν → Text → Bool
  | .obj members, model =>
    match columnsOf model with
    | some columns => restrictsSome unitId members model columns
    | none => false
  | _, _ => false
termination_by structural v => v

def restrictsSome (unitId : UnitId) : List (Text × Json ν) → Text → ModelColumns → Bool
  | [], _, _ => false
  | m :: members, model, columns =>
    restrictsMember unitId m model columns || restrictsSome unitId members model columns
termination_by structural members => members

def restrictsMember (unitId : UnitId) : Text × Json ν → Text → ModelColumns → Bool
  | (key, value), model, columns =>
    if key = "AND".toList then restrictsAnd unitId value model
    else if key = "OR".toList ∨ key = "NOT".toList then false
    else if isIdEquality M value unitId.path then (columns.ids unitId.model).contains key
    else
      match columns.relations key with
      | some related => restrictsRelated unitId value related
      | none => false
termination_by structural m => m

/-- The clauses of an `AND`: the elements of a list, or one clause. -/
def restrictsAnd (unitId : UnitId) : Json ν → Text → Bool
  | .arr items, model => restrictsItems unitId items model
  | .obj members, model =>
    match columnsOf model with
    | some columns => restrictsSome unitId members model columns
    | none => false
  | _, _ => false
termination_by structural v => v

def restrictsItems (unitId : UnitId) : List (Json ν) → Text → Bool
  | [], _ => false
  | v :: items, model => restrictsToUnit unitId v model || restrictsItems unitId items model
termination_by structural items => items

/-- An `is` or `some` of a relation filter restricts the related row. -/
def restrictsRelated (unitId : UnitId) : Json ν → Text → Bool
  | .obj members, related => restrictsOperand unitId members related
  | _, _ => false
termination_by structural v => v

def restrictsOperand (unitId : UnitId) : List (Text × Json ν) → Text → Bool
  | [], _ => false
  | m :: members, related => restrictsOperator unitId m related || restrictsOperand unitId members related
termination_by structural members => members

def restrictsOperator (unitId : UnitId) : Text × Json ν → Text → Bool
  | (key, value), related =>
    (key == "is".toList || key == "some".toList) && restrictsToUnit unitId value related
termination_by structural m => m

end

def RULE_FIELDS : List PermissionField := [.action, .subject, .fields, .conditions, .inverted]

/-- The labels come from `wanted`; the ledger columns are not compared. -/
def PermissionRule.labelled (wanted : PermissionSeedDefinition ν) (row : PermissionRule ν) :
    PermissionSnapshotRow ν :=
  { slug := row.slug, action := row.action, subject := row.subject, fields := row.fields,
    conditions := some row.conditions.val, inverted := row.inverted, reason := some wanted.reason,
    riskLevel := wanted.riskLevel, managedBy := .system, retiredAt := none }

def matchesCatalogRule (wanted : PermissionSeedDefinition ν) (row : PermissionRule ν) : Bool :=
  RULE_FIELDS.all fun field => (comparePermissionField F wanted (row.labelled wanted) field).2.2

def PUBLIC_READ_RULES (catalog : List (PermissionSeedDefinition ν)) :
    List (Name × PermissionSeedDefinition ν) :=
  (catalog.filter fun definition =>
    PLUGIN_UNIT_CONSENT_PUBLIC_READS.contains definition.slug.val).map
      fun definition => (definition.slug, definition)

def bindsConsentUnit (catalog : List (PermissionSeedDefinition ν)) (permission : PermissionRule ν)
    (scope : PluginUnitGrantScope) : Bool :=
  let parsed := parseTemplate F M permission.conditions.val
  if !parsed.problems.isEmpty then false
  else if parsed.names.isEmpty then
    match mapGet (PUBLIC_READ_RULES catalog) permission.slug with
    | some catalogRule => matchesCatalogRule F catalogRule permission
    | none => false
  else
    parsed.names.all (fun path => (PLUGIN_UNIT_RENDER_VARIABLES scope).contains path) &&
      !hasSection F M permission.conditions.val &&
      !hasTemplatedKey permission.conditions.val &&
      restrictsToUnit M columnsOf (UNIT_ID scope) permission.conditions.val permission.subject

end Binding

section Factory

variable {ν : Type} (F : NumberFormat ν) (M : Mustache ν)

structure PluginUnit where
  scopeType : PluginUnitGrantScope
  id : Text

structure PluginIdentity where
  id : Text
  slug : Text

def PluginUnitGrantScope.text : PluginUnitGrantScope → Text
  | .Household => "Household".toList
  | .User => "User".toList

def clonePluginUnit (unit : PluginUnit) : Json ν :=
  match unit.scopeType with
  | .Household =>
    .obj [("scopeType".toList, .str PluginUnitGrantScope.Household.text),
     ("householdId".toList, .str unit.id)]
  | .User =>
    .obj [("scopeType".toList, .str PluginUnitGrantScope.User.text), ("userId".toList, .str unit.id)]

def renderContext (plugin : PluginIdentity) (unit : PluginUnit) : Json ν :=
  .obj [("plugin".toList, .obj [("id".toList, .str plugin.id), ("slug".toList, .str plugin.slug)]),
    ("unit".toList, clonePluginUnit unit)]

inductive RenderRejection where
  | outOfContextVariable (path : Text)
  | malformedTemplate
  | unsupportedTokenType (tokenType : Text)
  -- `JSON.parse` throws on the rendered text.
  | syntaxError

def resolves (context : Json ν) (path : Text) : Bool :=
  if path = ".".toList then false
  else
    match valueAt context (segments path) with
    | some (.str s) => !s.isEmpty
    | _ => false

mutual

def refused (context : Json ν) : List Token → Option RenderRejection
  | [] => none
  | token :: tokens => (refusedToken context token).or (refused context tokens)
termination_by structural tokens => tokens

def refusedToken (context : Json ν) : Token → Option RenderRejection
  | .text _ => none
  | .name path => if resolves context path then none else some (.outOfContextVariable path)
  | .unescaped path => if resolves context path then none else some (.outOfContextVariable path)
  | .sect path body =>
    if resolves context path then refused context body else some (.outOfContextVariable path)
  | .inverse path body =>
    if resolves context path then refused context body else some (.outOfContextVariable path)
  | .other tokenType _ => some (.unsupportedTokenType tokenType)
termination_by structural token => token

end

def assertTemplateWithinContext (template : Text) (context : Json ν) : Except RenderRejection Unit :=
  match M.parse template with
  | .error _ => .error .malformedTemplate
  | .ok tokens =>
    match refused context tokens with
    | some rejection => .error rejection
    | none => .ok ()

/-- `Object.keys(conditions || {}).length > 0`. -/
def hasKeys : Json ν → Bool
  | .str s => !s.isEmpty
  | .arr items => !items.isEmpty
  | .obj members => !members.isEmpty
  | _ => false

def renderConditions (context conditions : Json ν) : Except RenderRejection (Option (Json ν)) := do
  if hasKeys conditions then
    assertTemplateWithinContext M (stringify F conditions) context
    match parse F (M.render (stringify F conditions) context) with
    | some parsed => pure (some parsed)
    | none => throw .syntaxError
  else pure none

structure AbilityRule (ν : Type) where
  inverted : Bool
  action : Action
  subject : Text
  fields : Option (List Text)
  conditions : Option (Json ν)

def applyRule (rule : PermissionRule ν) (parsedConditions : Option (Json ν)) : AbilityRule ν :=
  { inverted := rule.inverted
    action := rule.action
    subject := rule.subject
    fields := if rule.fields.isEmpty then none else some rule.fields
    conditions := parsedConditions }

/-- The rules of `createForPlugin` for the core permissions of a servable unit. -/
def createForPlugin (plugin : PluginIdentity) (unit : PluginUnit)
    (corePermissions : List (PermissionRule ν)) : Except RenderRejection (List (AbilityRule ν)) :=
  corePermissions.mapM fun permission => do
    let parsedConditions ← renderConditions F M (renderContext plugin unit) permission.conditions.val
    pure (applyRule permission parsedConditions)

end Factory

section Where

/-- Rows, their columns and their relations. What a filter means beyond the
    operators read here is left open. -/
structure Rows (ν Row : Type) where
  column : Row → Text → Json ν
  related : Row → Text → Row → Prop
  filter : Row → Text → Json ν → Prop
  clause : Row → Json ν → Prop

variable {ν Row : Type} (rows : Rows ν Row)

mutual

def Satisfies : Json ν → Row → Prop
  | .obj members, row => SatisfiesMembers members row
  | v, row => rows.clause row v
termination_by structural v => v

def SatisfiesMembers : List (Text × Json ν) → Row → Prop
  | [], _ => True
  | m :: members, row => SatisfiesMember m row ∧ SatisfiesMembers members row
termination_by structural members => members

def SatisfiesMember : Text × Json ν → Row → Prop
  | (key, value), row =>
    if key = "AND".toList then SatisfiesAll value row
    else if key = "OR".toList then SatisfiesAny value row
    else if key = "NOT".toList then SatisfiesNone value row
    else SatisfiesField value key row
termination_by structural m => m

def SatisfiesAll : Json ν → Row → Prop
  | .arr items, row => SatisfiesEach items row
  | .obj members, row => SatisfiesMembers members row
  | v, row => rows.clause row v
termination_by structural v => v

def SatisfiesEach : List (Json ν) → Row → Prop
  | [], _ => True
  | v :: items, row => Satisfies v row ∧ SatisfiesEach items row
termination_by structural items => items

def SatisfiesAny : Json ν → Row → Prop
  | .arr items, row => SatisfiesOne items row
  | .obj members, row => SatisfiesMembers members row
  | v, row => rows.clause row v
termination_by structural v => v

def SatisfiesOne : List (Json ν) → Row → Prop
  | [], _ => False
  | v :: items, row => Satisfies v row ∨ SatisfiesOne items row
termination_by structural items => items

/-- `NOT` asks every clause under it to fail. -/
def SatisfiesNone : Json ν → Row → Prop
  | .arr items, row => ¬ SatisfiesOne items row
  | .obj members, row => ¬ SatisfiesMembers members row
  | v, row => ¬ rows.clause row v
termination_by structural v => v

/-- A value, or `equals` alone, asks for the column to be it. In any other filter
    `is` and `some` ask for a related row, and the filter as a whole for what
    its operators mean. -/
def SatisfiesField : Json ν → Text → Row → Prop
  | .str s, key, row => rows.column row key = .str s
  | .num n, key, row => rows.column row key = .num n
  | .bool b, key, row => rows.column row key = .bool b
  | .obj members, key, row =>
    match members with
    | [(operator, operand)] =>
      if operator = "equals".toList then rows.column row key = operand
      else SatisfiesOperator (operator, operand) key row ∧ rows.filter row key (.obj [(operator, operand)])
    | members => SatisfiesOperators members key row ∧ rows.filter row key (.obj members)
  | v, key, row => rows.filter row key v
termination_by structural v => v

def SatisfiesOperators : List (Text × Json ν) → Text → Row → Prop
  | [], _, _ => True
  | m :: members, key, row => SatisfiesOperator m key row ∧ SatisfiesOperators members key row
termination_by structural members => members

def SatisfiesOperator : Text × Json ν → Text → Row → Prop
  | (operator, operand), key, row =>
    if operator = "is".toList ∨ operator = "some".toList then SatisfiesRelated operand key row else True
termination_by structural m => m

def SatisfiesRelated : Json ν → Text → Row → Prop
  | .null, key, row => ¬ ∃ other, rows.related row key other
  | .obj members, key, row => ∃ other, rows.related row key other ∧ SatisfiesMembers members other
  | v, key, row => ∃ other, rows.related row key other ∧ rows.clause other v
termination_by structural v => v

end

end Where

end BoardGamesEmpire.ConsentUnitBinding
