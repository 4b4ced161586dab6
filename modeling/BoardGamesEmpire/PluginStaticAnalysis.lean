import BoardGamesEmpire.JsMap
import BoardGamesEmpire.JsonObject

set_option autoImplicit false

/-!
# The static analysis of a plugin's artifact

`PluginStaticAnalysisService.analyze`: what each scannable file imports, what
its descriptors declare, the report with its caps, and the gate that an
acknowledgement passes. What the lexer and the parser give for a file is open.
-/
namespace BoardGamesEmpire.PluginStaticAnalysis
open JsText JsonText

section Specifiers

def forbiddenImportSpecifiers : List Text :=
  ["@bge/database", "@prisma/client", ".prisma/client", "@nestjs/axios", "axios", "undici",
   "cache-manager", "ioredis", "iovalkey",
    "child_process", "node:child_process", "http", "node:http", "https", "node:https", "http2",
     "node:http2"].map String.toList

def warnedImportSpecifiers : List Text :=
  ["fs", "node:fs", "net", "node:net", "tls", "node:tls", "dgram", "node:dgram"].map String.toList

inductive Severity where
  | forbidden
  | warning
deriving DecidableEq

def matchesEntry (specifier entry : Text) :
    Bool := decide (specifier = entry) || (entry ++ ['/']).isPrefixOf specifier

def classifyImportSpecifier (specifier : Text) : Option Severity :=
  if forbiddenImportSpecifiers.any (matchesEntry specifier) then some .forbidden
  else if warnedImportSpecifiers.any (matchesEntry specifier) then some .warning
  else none

def npmAliasPrefix : Text := "npm:".toList

/-- The package behind an alias range, cut at its last `@` unless that is its first character. -/
def resolveAliasedPackageName (range : Text) : Option Text :=
  if npmAliasPrefix.isPrefixOf range then
    let target := range.drop npmAliasPrefix.length
    if target = [] then none
    else
      let through := throughLast '@' target
      some (if through.length ≤ 1 then target else through.dropLast)
  else none

end Specifiers

section Findings

inductive FindingKind where
  | esmImport
  | dynamicImport
  | cjsRequire
  | declaredDependency
  | lockfilePackage
  | nonLiteralImport
  | nonLiteralRequire
  | readFailure
  | parseFailure
deriving DecidableEq

inductive ScanScope where
  | default
  | deep
deriving DecidableEq

structure Finding where
  file : List Text
  kind : FindingKind
  specifier : Option Text
  severity : Severity
  scanScope : ScanScope
deriving DecidableEq

def isGatingFinding (finding : Finding) :
    Bool := decide (finding.severity = .forbidden) && decide (finding.scanScope = .default)

def findingIdentity (finding : Finding) : FindingKind × Text := (finding.kind, finding.specifier.getD [])

def unscreenableKinds : List FindingKind :=
    [.nonLiteralImport, .nonLiteralRequire, .readFailure, .parseFailure]

end Findings

section Files

variable {ν : Type}

/-- An entry of the lexer: `n`, and `d`, which is negative for a static import
    and -2 for `import.meta`. -/
structure LexedImport where
  n : Option Text
  d : ℤ

/-- What the lexer and the parser give for a file's text; `none` is a failure. -/
structure SourceFile (ν : Type) where
  lexed : Option (List LexedImport)
  program : Option (Json ν)

/-- A file, unless it cannot be read; a directory, and whether it can be listed;
    or a link. -/
inductive FileNode (ν : Type) where
  | file (source : Option (SourceFile ν))
  | directory (listed : Bool) (entries : List (Text × FileNode ν))
  | link

structure CollectedFiles (ν : Type) where
  files : List (List Text × Option (SourceFile ν))
  unreadableDirectories : List (List Text)

def CollectedFiles.none : CollectedFiles ν := ⟨[], []⟩

def CollectedFiles.append (collected more : CollectedFiles ν) : CollectedFiles ν :=
  ⟨collected.files ++ more.files, collected.unreadableDirectories ++ more.unreadableDirectories⟩

def nodeModules : Text := "node_modules".toList

def scannable (name : Text) : Bool := ([".js", ".mjs", ".cjs"].map String.toList).any (·.isSuffixOf name)

def isDirectory : FileNode ν → Bool
  | .directory _ _ => true
  | .file _ | .link => false

def scannedFile (path : List Text) (name : Text) : FileNode ν → List (List Text × Option (SourceFile ν))
  | .file source => if scannable name then [(path ++ [name], source)] else []
  | .directory _ _ | .link => []

mutual

def collectFiles (intoNodeModules : Bool) (path : List Text) : FileNode ν → CollectedFiles ν
  | .directory true entries => collectEntries intoNodeModules path entries
  | .directory false _ | .file _ | .link => ⟨[], [path]⟩
termination_by structural node => node

def collectEntries (intoNodeModules : Bool) (path : List Text) : List (Text × FileNode ν) →
    CollectedFiles ν
  | [] => .none
  | entry :: rest => (collectEntry intoNodeModules path entry).append
   (collectEntries intoNodeModules path rest)
termination_by structural entries => entries

def collectEntry (intoNodeModules : Bool) (path : List Text) : Text × FileNode ν → CollectedFiles ν
  | (name, node) =>
    if isDirectory node then
      if !intoNodeModules && name = nodeModules then .none else collectFiles intoNodeModules
       (path ++ [name]) node
    else ⟨scannedFile path name node, []⟩
termination_by structural entry => entry

end

structure Mention where
  kind : FindingKind
  specifier : Option Text
  severity : Severity

def classify (kind : FindingKind) (specifier : Text) : List Mention :=
  match classifyImportSpecifier specifier with
  | some verdict => [⟨kind, some specifier, verdict⟩]
  | none => []

def unscreened (kind : FindingKind) : Mention := ⟨kind, none, .warning⟩

/-- A value's string `type`. -/
def nodeType : Json ν → Option Text
  | .obj members =>
    match members.lookup "type".toList with
    | some (.str type) => some type
    | _ => none
  | _ => none

def isEstreeNode (value : Json ν) : Bool := (nodeType value).isSome

def property (key : String) : Json ν → Option (Json ν)
  | .obj members => members.lookup key.toList
  | _ => none

def textOf : Option (Json ν) → Option Text
  | some (.str text) => some text
  | _ => none

def literalText (value : Option (Json ν)) : Option Text :=
  value.bind fun node => if nodeType node = some "Literal".toList then textOf
   (property "value" node) else none

def isRequireCall (node : Json ν) : Bool :=
  decide (nodeType node = some "CallExpression".toList) &&
    (property "callee" node).any fun callee =>
      decide (nodeType callee = some "Identifier".toList) && decide
       (textOf (property "name" callee) = some "require".toList)

def firstArgument (node : Json ν) : Option (Json ν) :=
  match property "arguments" node with
  | some (.arr (argument :: _)) => some argument
  | _ => none

def isStaticEsm (node : Json ν) : Bool :=
  (["ImportDeclaration", "ExportNamedDeclaration", "ExportAllDeclaration"].map String.toList).any
   (nodeType node = some ·)

def isImportExpression (node : Json ν) : Bool := decide (nodeType node = some "ImportExpression".toList)

def requireMentions (node : Json ν) : List Mention :=
  if isRequireCall node then
    match literalText (firstArgument node) with
    | some specifier => classify .cjsRequire specifier
    | none => [unscreened .nonLiteralRequire]
  else []

def importMentions (node : Json ν) : List Mention :=
  if isStaticEsm node || isImportExpression node then
    match literalText (property "source" node) with
    | some specifier => classify (if isStaticEsm node then .esmImport else .dynamicImport) specifier
    | none => if isImportExpression node then [unscreened .nonLiteralImport] else []
  else []

def nodeMentions (lexerSucceeded : Bool) (node : Json ν) : List Mention :=
  requireMentions node ++ if lexerSucceeded then [] else importMentions node

def isArray : Json ν → Bool
  | .arr _ => true
  | _ => false

mutual

def walk (lexerSucceeded : Bool) : Json ν → List Mention
  | .arr items => walkItems lexerSucceeded items
  | .obj members =>
    if isEstreeNode (.obj members) then nodeMentions lexerSucceeded (.obj members) ++ walkMembers
     lexerSucceeded members else []
  | .null | .bool _ | .num _ | .str _ => []
termination_by structural value => value

def walkItems (lexerSucceeded : Bool) : List (Json ν) → List Mention
  | [] => []
  | item :: items => walk lexerSucceeded item ++ walkItems lexerSucceeded items
termination_by structural items => items

def walkMembers (lexerSucceeded : Bool) : List (Text × Json ν) → List Mention
  | [] => []
  | member :: members => walkMember lexerSucceeded member ++ walkMembers lexerSucceeded members
termination_by structural members => members

def walkMember (lexerSucceeded : Bool) : Text × Json ν → List Mention
  | (key, value) => if key ≠ "type".toList && (isArray value || isEstreeNode value) then walk
   lexerSucceeded value else []
termination_by structural member => member

end

def lexedMentions (entry : LexedImport) : List Mention :=
  if entry.d = -2 then []
  else
    match entry.n with
    | some specifier => classify (if 0 ≤ entry.d then .dynamicImport else .esmImport) specifier
    | none => if 0 ≤ entry.d then [unscreened .nonLiteralImport] else []

def programMentions (lexerSucceeded : Bool) : Option (Json ν) → List Mention
  | some program => walk lexerSucceeded program
  | none => [unscreened .parseFailure]

def fileMentions : Option (SourceFile ν) → List Mention
  | none => [unscreened .readFailure]
  | some file => (file.lexed.getD []).flatMap lexedMentions ++ programMentions file.lexed.isSome
   file.program

def Mention.finding (mention : Mention) (file : List Text) (scanScope : ScanScope) : Finding :=
  ⟨file, mention.kind, mention.specifier, mention.severity, scanScope⟩

/-- `[...collected.values()]`. -/
def scanFile (file : List Text) (source : Option (SourceFile ν)) (scanScope : ScanScope) : List Finding :=
  (mapEntries ((fileMentions source).map fun mention =>
    (findingIdentity (mention.finding file scanScope), mention.finding file scanScope))).map Prod.snd

end Files

section Descriptors

variable {ν : Type}

structure Screen where
  packageName : Text
  file : List Text
  kind : FindingKind
  severity : Severity

def Screen.finding (screen : Screen) :
    Finding := ⟨screen.file, screen.kind, some screen.packageName, screen.severity, .default⟩

def Screen.identity (screen : Screen) :
    List Text × FindingKind × Text := (screen.file, screen.kind, screen.packageName)

/-- One call of `screen`: a forbidden name is set, unless it stands as forbidden already. -/
def screenName (sets : List ((List Text × FindingKind × Text) × Finding)) (screen : Screen) :
    List ((List Text × FindingKind × Text) × Finding) :=
  if classifyImportSpecifier screen.packageName ≠ some .forbidden then sets
  else if (mapGet sets screen.identity).any (·.severity = .forbidden) then sets
  else sets ++ [(screen.identity, screen.finding)]

def packageJsonFile : List Text := ["package.json".toList]

def lockfileFile : List Text := ["package-lock.json".toList]

def gatingDependencyFields :
    List Text := ["dependencies", "optionalDependencies", "peerDependencies"].map String.toList

def advisoryDependencyFields : List Text := ["devDependencies"].map String.toList

def aliasOf : Json ν → Option Text
  | .str range => resolveAliasedPackageName range
  | _ => none

def fieldNames (field : Text) (packageJson : List (Text × Json ν)) : List Text :=
  match packageJson.lookup field with
  | some (.obj entries) => entries.flatMap fun entry => entry.1 :: (aliasOf entry.2).toList
  | _ => []

/-- `bundleDependencies`, or `bundledDependencies` where it is absent. -/
def bundledField (packageJson : List (Text × Json ν)) : Option (Json ν) :=
  match packageJson.lookup "bundleDependencies".toList with
  | none | some .null => packageJson.lookup "bundledDependencies".toList
  | some value => some value

def bundledNames (packageJson : List (Text × Json ν)) : List Text :=
  match bundledField packageJson with
  | some (.arr names) => names.filterMap fun name => textOf (some name)
  | _ => []

def packageScreens : Option (Json ν) → List Screen
  | some (.obj packageJson) =>
    (gatingDependencyFields.flatMap fun field =>
      (fieldNames field packageJson).map fun name =>
       ⟨name, packageJsonFile, .declaredDependency, .forbidden⟩) ++
    (advisoryDependencyFields.flatMap fun field =>
      (fieldNames field packageJson).map fun name =>
       ⟨name, packageJsonFile, .declaredDependency, .warning⟩) ++
    (bundledNames packageJson).map fun name => ⟨name, packageJsonFile, .declaredDependency, .forbidden⟩
  | _ => []

mutual

/-- The names under a version 1 lockfile's `dependencies`. -/
def v1Names : Json ν → List Text
  | .obj entries => v1Entries entries
  | _ => []
termination_by structural value => value

def v1Entries : List (Text × Json ν) → List Text
  | [] => []
  | entry :: entries => v1Entry entry ++ v1Entries entries
termination_by structural entries => entries

def v1Entry : Text × Json ν → List Text
  | (name, value) => name :: v1Value value
termination_by structural entry => entry

def v1Value : Json ν → List Text
  | .obj fields => (((fields.lookup "version".toList).bind aliasOf).toList) ++ v1Fields fields
  | _ => []
termination_by structural value => value

def v1Fields : List (Text × Json ν) → List Text
  | [] => []
  | field :: fields => if field.1 = "dependencies".toList then v1Field field else v1Fields fields
termination_by structural fields => fields

def v1Field : Text × Json ν → List Text
  | (_, value) => v1Names value
termination_by structural field => field

end

/-- The segment after the last `node_modules/` of a key. -/
def afterMarker (key : Text) : Option Text :=
  (key.tails.reverse.find? fun tail => (nodeModules ++ ['/']).isPrefixOf tail).map
   (·.drop (nodeModules.length + 1))

def lockfilePackageNames : Option (Json ν) → List Text
  | some (.obj lockfile) =>
    let packages :=
      match lockfile.lookup "packages".toList with
      | some (.obj entries) => entries.flatMap fun entry =>
       (afterMarker entry.1).toList ++ (textOf (property "name" entry.2)).toList
      | _ => []
    (packages ++ ((lockfile.lookup "dependencies".toList).map v1Names).getD []).eraseDups
  | _ => []

/-- The artifact: its root, what a listing of its `node_modules` gives, if there
    is one, and its descriptors, as parsed. -/
structure Artifact (ν : Type) where
  root : FileNode ν
  nodeModules : Option (FileNode ν)
  packageJson : Option (Json ν)
  lockfile : Option (Json ν)

def screenDependencies (artifact : Artifact ν) : List Finding :=
  let screens := packageScreens artifact.packageJson ++
    (lockfilePackageNames artifact.lockfile).map fun name =>
     ⟨name, lockfileFile, .lockfilePackage, .warning⟩
  (mapEntries (screens.foldl screenName [])).map Prod.snd

end Descriptors

section Analysis

variable {ν : Type}

def maxAdvisoryFindings : ℕ := 200

def maxGatingExamplesPerSpecifier : ℕ := 3

structure Caps where
  kept : List Finding
  examplesPerSpecifier : List (Text × ℕ)
  advisoryBudget : ℕ
  truncated : Bool

def capFinding (caps : Caps) (finding : Finding) : Caps :=
  if isGatingFinding finding then
    let specifier := finding.specifier.getD []
    let seen := (mapGet caps.examplesPerSpecifier specifier).getD 0
    if seen < maxGatingExamplesPerSpecifier then
      { caps with
        kept := caps.kept ++ [finding],
         examplesPerSpecifier := caps.examplesPerSpecifier ++ [(specifier, seen + 1)] }
    else { caps with truncated := true }
  else if 0 < caps.advisoryBudget then
    { caps with kept := caps.kept ++ [finding], advisoryBudget := caps.advisoryBudget - 1 }
  else { caps with truncated := true }

def applyCaps (findings : List Finding) : Caps :=
    findings.foldl capFinding ⟨[], [], maxAdvisoryFindings, false⟩

def unreadableDirectoryFindings (directories : List (List Text)) (scanScope : ScanScope) : List Finding :=
  directories.map fun directory => ⟨directory, .readFailure, none, .warning, scanScope⟩

structure Report where
  findings : List Finding
  scannedFileCount : ℕ
  deepScannedFileCount : ℕ
  truncated : Bool

def dedupeFinding (deduped : List ((FindingKind × Text) × Finding)) (finding : Finding) :
    List ((FindingKind × Text) × Finding) :=
  if unscreenableKinds.contains finding.kind then deduped
  else if (mapGet deduped (findingIdentity finding)).isSome then deduped
  else deduped ++ [(findingIdentity finding, finding)]

def deepFindings (files : List (List Text × Option (SourceFile ν))) : List Finding :=
  ((files.flatMap fun file => scanFile file.1 file.2 .deep).foldl dedupeFinding []).map Prod.snd

def analyze (artifact : Artifact ν) (deepScan : Bool) : Report :=
  let collected := collectFiles false [] artifact.root
  let deep := (artifact.nodeModules.map (collectFiles true [nodeModules])).getD .none
  let findings := (collected.files.flatMap fun file => scanFile file.1 file.2 .default) ++
    unreadableDirectoryFindings collected.unreadableDirectories .default ++ screenDependencies artifact ++
    if deepScan then deepFindings deep.files ++ unreadableDirectoryFindings
     deep.unreadableDirectories .deep else []
  let caps := applyCaps findings
  ⟨caps.kept, collected.files.length, if deepScan then deep.files.length else 0, caps.truncated⟩

def gatingFindings (report : Report) : List Finding := report.findings.filter isGatingFinding

structure AcknowledgementResolution where
  reported : List Text
  unacknowledged : List Text
  unexpected : List Text

def resolveForbiddenSpecifierAcknowledgement (gating : List Finding) (acknowledged : List Text) :
    AcknowledgementResolution :=
  let reported := sortTexts (gating.filterMap Finding.specifier).eraseDups
  let received := sortTexts acknowledged.eraseDups
  { reported := reported
    unacknowledged := reported.filter fun specifier => !received.contains specifier
    unexpected := received.filter fun specifier => !reported.contains specifier }

structure PluginInstallStaticAnalysisError where
  gating : List Finding
  unacknowledged : List Text
  unexpected : List Text

def resolveForbiddenAcknowledgement (gating : List Finding) (acknowledged : List Text) :
    Except PluginInstallStaticAnalysisError (List Text) :=
  let resolution := resolveForbiddenSpecifierAcknowledgement gating acknowledged
  if resolution.unexpected ≠ [] then .error ⟨gating, resolution.unacknowledged, resolution.unexpected⟩
  else if resolution.unacknowledged ≠ [] then .error ⟨gating, resolution.unacknowledged, []⟩
  else .ok resolution.reported

def staticGate (artifact : Artifact ν) (deepScan : Bool) (acknowledged : List Text) :
    Except PluginInstallStaticAnalysisError (List Text) :=
  resolveForbiddenAcknowledgement (gatingFindings (analyze artifact deepScan)) acknowledged

end Analysis

end BoardGamesEmpire.PluginStaticAnalysis
