import BoardGamesEmpire.LinkedTree
import BoardGamesEmpire.LocalDiskStore
import BoardGamesEmpire.Manifest

set_option autoImplicit false

/-!
# From a plugin's row to the module that is imported

`PluginDirectoryResolverService`, `resolvePluginEntrypoint` and
`assertResolvedEntrypointContained` over a file tree with links. A path is its
names; a descriptor is the parsed `package.json`.
-/
namespace BoardGamesEmpire.PluginEntrypoint
open JsText JsonText LinkedTree Manifest
open LocalDisk (Path joined relative resolve)

section Paths

def pathText (p : Path) : Text := '/' :: joined p

/-- `path.join` after a normalized absolute path. -/
def join (base : Path) (parts : List Text) : Path :=
  parts.foldl (fun names part => (part.splitOn '/').foldl
    (fun names name => if name = [] ∨
     name = ".".toList then names else if name = "..".toList then names.dropLast else names ++ [name])
    names) base

def isAbsolute (path : Text) : Bool := decide (path.head? = some '/')

def parentPrefix : Text := "../".toList

/-- A relative path that stays out of, or at, the place it starts from. -/
def escapes (relativePath : Text) : Bool :=
  decide (relativePath = []) || decide (relativePath = "..".toList) || parentPrefix.isPrefixOf relativePath

def isContained (realParent realChild : Path) : Bool :=
  let relativeToParent := joined (relative realParent realChild)
  !escapes relativeToParent && !isAbsolute relativeToParent

end Paths

section Descriptors

variable {ν : Type}

inductive LoaderError where
  | layout (slug reason : Text)
  | notFound (slug expectedPath : Text)
  | entrypoint (slug reason : Text)
  | typeError

def honoredConditions : List Text := ["import", "node", "default"].map String.toList

/-- The first outcome that is not `null`. -/
def firstResolved : List (Except LoaderError (Option Text)) → Except LoaderError (Option Text)
  | [] => .ok none
  | .ok none :: rest => firstResolved rest
  | .ok (some specifier) :: _ => .ok (some specifier)
  | .error e :: _ => .error e

mutual

/-- `in` refuses a boolean and a number. -/
def resolveExports : Json ν → Except LoaderError (Option Text)
  | .null => .ok none
  | .str specifier => .ok (some specifier)
  | .arr alternatives => resolveAlternatives alternatives
  | .obj record =>
    if record.any fun member => ['.'].isPrefixOf member.1 then resolveMember ['.'] record
    else firstResolved (honoredConditions.map fun condition => resolveMember condition record)
  | .bool _ | .num _ => .error .typeError
termination_by structural field => field

def resolveAlternatives : List (Json ν) → Except LoaderError (Option Text)
  | [] => .ok none
  | alternative :: rest =>
    match resolveExports alternative with
    | .ok none => resolveAlternatives rest
    | .ok (some specifier) => .ok (some specifier)
    | .error e => .error e
termination_by structural alternatives => alternatives

/-- A key's value resolved; an absent one is `null`. -/
def resolveMember (key : Text) : List (Text × Json ν) → Except LoaderError (Option Text)
  | [] => .ok none
  | member :: rest => if member.1 = key then resolveValue member else resolveMember key rest
termination_by structural record => record

def resolveValue : Text × Json ν → Except LoaderError (Option Text)
  | (_, value) => resolveExports value
termination_by structural member => member

end

def noRootEntrypoint : Text :=
  "package 'exports' declares no root ('.') entrypoint resolvable under conditions [import, node, default]".toList

def pickSpecifier (slug : Text) (descriptor : List (Text × Json ν)) : Except LoaderError Text :=
  match descriptor.lookup "exports".toList with
  | some exports =>
    match resolveExports exports with
    | .ok (some specifier) => .ok specifier
    | .ok none => .error (.entrypoint slug noRootEntrypoint)
    | .error e => .error e
  | none =>
    match descriptor.lookup "main".toList with
    | some (.str (c :: main)) => .ok (c :: main)
    | _ => .error (.entrypoint slug "package.json declares neither 'exports' nor 'main'".toList)

def resolvePluginEntrypoint (slug : Text) (descriptor : List (Text × Json ν)) (rootDir : Path) :
    Except LoaderError Path :=
  match pickSpecifier slug descriptor with
  | .error e => .error e
  | .ok specifier =>
    if isAbsolute specifier then
      .error (.entrypoint slug
       ("entrypoint must be package-relative, got absolute path '".toList ++ specifier ++ ['\'']))
    else if escapes (joined (relative rootDir (resolve rootDir specifier))) then
      .error (.entrypoint slug
       ("entrypoint '".toList ++ specifier ++ "' escapes the plugin directory".toList))
    else .ok (resolve rootDir specifier)

end Descriptors

section Directories

variable {ν γ : Type}

/-- The host: its file tree, how many links the system follows, where the server
    runs and where its plugins are configured to be. -/
structure PluginHost (γ : Type) where
  entries : List (Text × Node Text γ)
  links : ℕ
  cwd : Path
  pluginsRoot : Text

def PluginHost.tree (host : PluginHost γ) : Node Text γ := .dir host.entries

def PluginHost.realpathOrNull (host : PluginHost γ) (path : Path) : Option Path :=
    realpath host.tree host.links path

structure PluginArtifactDirectory where
  slug : Text
  sha256 : Text
  rootDir : Path
  manifestPath : Path
  packageJsonPath : Path

/-- `PLUGIN_ARTIFACT_SHA256_PATTERN`. -/
def isArtifactSha256 (value : Text) : Bool :=
  decide (value.length = 64) && value.all fun c => isDecimal c || ('a' ≤ c && c ≤ 'f')

def parsePluginArtifactSha256 (value : Text) : Option Text :=
    if isArtifactSha256 value then some value else none

def manifestFilename : Text := "manifest.json".toList

def packageJsonFilename : Text := "package.json".toList

def assertContainedFile (host : PluginHost γ) (slug : Text) (path : Path) (filename : Text)
    (rootDir : Path) : Except LoaderError Unit :=
  if (stat host.tree host.links path).any Node.isFile then
    if (host.realpathOrNull path).any (isContained rootDir) then .ok ()
    else .error (.layout slug (filename ++ " resolves outside the plugin directory".toList))
  else .error (.layout slug (filename ++ " at directory root is missing or not a regular file".toList))

def resolveArtifact (host : PluginHost γ) (slug parsed : Text) (realRoot : Path) :
    Except LoaderError PluginArtifactDirectory :=
  let artifactPath := join realRoot [slug, parsed]
  if (stat host.tree host.links artifactPath).any Node.isDirectory then
    match (host.realpathOrNull artifactPath).filter (isContained realRoot) with
    | none => .error
     (.layout slug ("directory resolves outside the configured plugin root ".toList ++ pathText realRoot))
    | some rootDir =>
      if rootDir ≠ artifactPath then
        .error (.layout slug
         ("artifact directory ".toList ++ pathText
          artifactPath ++ " is a link to ".toList ++ pathText rootDir ++
          "; it must be the directory its checksum names".toList))
      else
        let manifestPath := join rootDir [manifestFilename]
        let packageJsonPath := join rootDir [packageJsonFilename]
        match assertContainedFile host slug manifestPath manifestFilename rootDir,
          assertContainedFile host slug packageJsonPath packageJsonFilename rootDir with
        | .error e, _ => .error e
        | .ok (), .error e => .error e
        | .ok (), .ok () => .ok ⟨slug, parsed, rootDir, manifestPath, packageJsonPath⟩
  else .error (.notFound slug (pathText artifactPath))

def PluginHost.resolve (host : PluginHost γ) (slug sha256 : Text) :
    Except LoaderError PluginArtifactDirectory :=
  if isPluginSlug slug = false then
    .error (.layout slug "slug fails /^[a-z][a-z0-9-]\x7b2,63\x7d$/ and cannot be a path segment".toList)
  else
    match parsePluginArtifactSha256 sha256 with
    | none => .error
     (.layout slug "checksum fails /^[0-9a-f]\x7b64\x7d$/ and cannot be a path segment".toList)
    | some parsed =>
      let configuredRoot := LocalDisk.resolve host.cwd host.pluginsRoot
      match host.realpathOrNull configuredRoot with
      | none => .error
       (.layout slug
        ("configured plugin root '".toList ++ pathText configuredRoot ++ "' cannot be resolved".toList))
      | some realRoot => resolveArtifact host slug parsed realRoot

def PluginHost.confirm (host : PluginHost γ) (directory : PluginArtifactDirectory) :
    Except LoaderError PluginArtifactDirectory :=
  match host.resolve directory.slug directory.sha256 with
  | .error e => .error e
  | .ok resolved =>
    if host.realpathOrNull directory.rootDir ≠ some resolved.rootDir then
      .error (.layout directory.slug
       ("directory ".toList ++ pathText directory.rootDir ++ " is not the artifact directory ".toList ++
        pathText resolved.rootDir ++ " its checksum names".toList))
    else .ok resolved

def assertResolvedEntrypointContained (host : PluginHost γ) (slug : Text)
    (entrypointPath rootDir : Path) : Except LoaderError Path :=
  match host.realpathOrNull rootDir with
  | none => .error
   (.entrypoint slug ("plugin root '".toList ++ pathText rootDir ++ "' cannot be resolved".toList))
  | some realRoot =>
    match host.realpathOrNull entrypointPath with
    | none => .error
     (.entrypoint slug ("entrypoint '".toList ++ pathText entrypointPath ++ "' does not exist".toList))
    | some realEntrypoint =>
      if isContained realRoot realEntrypoint then .ok realEntrypoint
      else .error (.entrypoint slug
       ("entrypoint '".toList ++ pathText
        entrypointPath ++ "' resolves outside the plugin directory".toList))

/-- The steps of a load up to the import: the artifact's directory, and the path
    that the importer is handed. -/
def importedPath (host : PluginHost γ) (slug sha256 : Text) (descriptor : List (Text × Json ν)) :
    Except LoaderError (PluginArtifactDirectory × Path) :=
  match host.resolve slug sha256 with
  | .error e => .error e
  | .ok directory =>
    match resolvePluginEntrypoint slug descriptor directory.rootDir with
    | .error e => .error e
    | .ok entrypoint =>
      match assertResolvedEntrypointContained host slug entrypoint directory.rootDir with
      | .error e => .error e
      | .ok realEntrypoint => .ok (directory, realEntrypoint)

end Directories

end BoardGamesEmpire.PluginEntrypoint
