import BoardGamesEmpire.FileTree
import BoardGamesEmpire.JsonObject

set_option autoImplicit false

/-!
# The local-disk storage driver

`LocalDiskDriver` over a file system that is a tree of files: the keys it
accepts, the two files of an object, and its calls with the errors they throw.
-/
namespace BoardGamesEmpire.LocalDisk
open JsText JsonText FileTree

section Paths

abbrev Path : Type := List Text

def sidecarSuffix : Text := ".meta.json".toList

def joined (names : Path) : Text := ['/'].intercalate names

/-- `path.resolve` with an absolute first argument. -/
def resolve (base : Path) (path : Text) : Path :=
  (path.splitOn '/').foldl
    (fun names name => if name = [] ∨
     name = ".".toList then names else if name = "..".toList then names.dropLast else names ++ [name])
    (if path.head? = some '/' then [] else base)

/-- `path.relative` of two absolute paths. -/
def relative : Path → Path → Path
  | a :: start, b :: target =>
    if a = b then relative start target else (a :: start).map (fun _ => "..".toList) ++ b :: target
  | start, target => start.map (fun _ => "..".toList) ++ target

def sidecarPath (filePath : Path) : Path :=
  match filePath.getLast? with
  | none => [sidecarSuffix]
  | some name => filePath.dropLast ++ [name ++ sidecarSuffix]

end Paths

section Bytes

/-- The decoder of UTF-8 that replaces what is malformed, between two bytes: the
    bytes still expected, the range of the next one and the value so far. -/
structure Decoding where
  needed : ℕ
  lower : ℕ
  upper : ℕ
  codePoint : ℕ

def replacement : Char := Char.ofNat 0xfffd

def idle : Decoding := ⟨0, 0x80, 0xbf, 0⟩

def startSequence (b : ℕ) : Text × Decoding :=
  if b < 0x80 then ([Char.ofNat b], idle)
  else if 0xc2 ≤ b ∧ b ≤ 0xdf then ([], ⟨1, 0x80, 0xbf, b % 0x20⟩)
  else if 0xe0 ≤ b ∧ b ≤ 0xef then
    ([], ⟨2, if b = 0xe0 then 0xa0 else 0x80, if b = 0xed then 0x9f else 0xbf, b % 0x10⟩)
  else if 0xf0 ≤ b ∧ b ≤ 0xf4 then
    ([], ⟨3, if b = 0xf0 then 0x90 else 0x80, if b = 0xf4 then 0x8f else 0xbf, b % 0x08⟩)
  else ([replacement], idle)

def nextByte (state : Decoding) (b : ℕ) : Text × Decoding :=
  if state.needed = 0 then startSequence b
  else if b < state.lower ∨
   state.upper < b then ((replacement :: (startSequence b).1), (startSequence b).2)
  else
    let codePoint := state.codePoint * 0x40 + b % 0x40
    if state.needed = 1 then ([Char.ofNat codePoint], idle) else ([],
     ⟨state.needed - 1, 0x80, 0xbf, codePoint⟩)

def decodeFrom : Decoding → List UInt8 → Text
  | state, [] => if state.needed = 0 then [] else [replacement]
  | state, b :: rest => (nextByte state b.toNat).1 ++ decodeFrom (nextByte state b.toNat).2 rest

/-- The bytes of a text written as `utf8`. -/
def encodeUtf8 (s : Text) : ByteArray := (s.flatMap String.utf8EncodeChar).toByteArray

/-- The text of a file read as `utf8`. -/
def decodeUtf8 (bytes : ByteArray) : Text :=
  match bytes.utf8Decode? with
  | some chars => chars.toList
  | none => decodeFrom idle bytes.toList

theorem decodeUtf8_encodeUtf8 (s : Text) : decodeUtf8 (encodeUtf8 s) = s := by
 have hdecode : (encodeUtf8 s).utf8Decode? = some s.toArray := List.utf8Decode?_utf8Encode
 rw [decodeUtf8, hdecode]

end Bytes

section Driver

inductive Errno where
  | enoent
  | enotdir
  | eisdir
  | eexist
  | enospc
  | edquot
  | eio
  | eacces
  | eperm
  | errFsEisdir
  | errInvalidArgValue
deriving DecidableEq

inductive StorageError where
  | invalidObjectKey (key : Text)
  | objectNotFound (key : Text)
  | insufficientStorage (message : Text)
  | storageUnavailable (message : Text) (retryable : Bool)
  | errno (code : Errno)
  | syntaxError
  | typeError
  | sourceFailed
deriving DecidableEq

structure File where
  bytes : ByteArray
  mtime : ℤ
deriving DecidableEq

structure Stats where
  size : ℕ
  mtime : ℤ

abbrev FileSystem : Type := Node Text File

inductive MountCheck where
  | off
  | stDev
  | sentinel (sentinelFile : Text)

/-- `node:fs` takes no path that holds a NUL. -/
def holdsNul (filePath : Path) : Bool := filePath.any fun name => name.contains '\x00'

/-- The driver's configuration; `directoryStats` is what the file system reports
    of a directory. The root was read when the driver was built. -/
structure LocalDiskDriver (ν : Type) where
  root : Path
  root_read : holdsNul root = false
  mountCheck : MountCheck
  sha256 : ByteArray → Text
  numbers : NumberFormat ν
  directoryStats : Path → Stats

structure ObjectMeta where
  contentType : Text
  originalName : Option Text

structure Sidecar where
  contentType : Text
  checksum : Text
  etag : Text
  originalName : Option Text

variable {ν : Type}

/-- What a driver answers about an object. A field read of a sidecar is whatever
    the parsed document holds there, `none` when it holds nothing. -/
structure StoredObject (ν : Type) where
  key : Text
  size : ℕ
  contentType : Option (Json ν)
  checksum : Option (Json ν)
  etag : Option (Json ν)
  lastModified : ℤ
  driverSlug : Text

/-- What is written: the bytes the source brings, and whether it ends or fails. -/
structure Body where
  bytes : ByteArray
  ends : Bool

/-- When the reads of one call settle: whether an object's `stat` is refused
    before its sidecar, and which of several refused objects is first. -/
structure Timing where
  statFirst : Text → Bool
  firstRefused : ℕ

def Errno.ofFault : Fault → Errno
  | .missing => .enoent
  | .notDirectory => .enotdir
  | .isDirectory => .eisdir
  | .exists => .eexist

/-- A call of `node:fs` with a path: one that holds a NUL is refused before the
    file system is asked. -/
def calling {α : Type} (filePath : Path) (answer : Except Fault α) : Except Errno α :=
  if holdsNul filePath then .error .errInvalidArgValue
  else
    match answer with
    | .ok a => .ok a
    | .error fault => .error (.ofFault fault)

def StorageError.code : StorageError → Option Errno
  | .errno code => some code
  | _ => none

def assertCanonicalKey (key : Text) : Except StorageError Unit :=
  if key = [] ∨ '\\' ∈ key then .error (.invalidObjectKey key)
  else if (key.splitOn '/').any fun name => name = [] ∨ name = ".".toList ∨
   name = "..".toList then .error (.invalidObjectKey key)
  else .ok ()

def assertCanonicalPrefix (pre : Text) : Except StorageError Unit :=
  if pre = [] then .ok ()
  else if '\\' ∈ pre then .error (.invalidObjectKey pre)
  else if (pre.splitOn '/').any fun name => name = ".".toList ∨
   name = "..".toList then .error (.invalidObjectKey pre)
  else if (pre.splitOn '/').dropLast.contains [] then .error (.invalidObjectKey pre)
  else .ok ()

/-- The sidecar as a document; a name that is undefined is no member of it. -/
def Sidecar.document (sidecar : Sidecar) : Json ν :=
  match sidecar.originalName with
  | none =>
    .obj [("contentType".toList, .str sidecar.contentType), ("checksum".toList, .str sidecar.checksum),
      ("etag".toList, .str sidecar.etag)]
  | some name =>
    .obj [("contentType".toList, .str sidecar.contentType), ("checksum".toList, .str sidecar.checksum),
      ("etag".toList, .str sidecar.etag), ("originalName".toList, .str name)]

variable (d : LocalDiskDriver ν)

def resolveKey (key : Text) : Except StorageError Path :=
  match assertCanonicalKey key with
  | .error e => .error e
  | .ok () => .ok (resolve d.root key)

def resolvePrefixDir (pre : Text) : Except StorageError Path :=
  match assertCanonicalPrefix pre with
  | .error e => .error e
  | .ok () => .ok (resolve d.root (joined (pre.splitOn '/').dropLast))

def slug : Text := "localdisk".toList

def quoted (path : Text) : Text := '\'' :: path ++ ['\'']

def classify (e : StorageError) (key : Text) : Option StorageError :=
  match e.code with
  | some .enospc | some .edquot =>
   some (.insufficientStorage ("No space left while accessing ".toList ++ quoted key))
  | some .eio =>
   some (.storageUnavailable ("Storage I/O error while accessing ".toList ++ quoted key) true)
  | some .eacces | some .eperm =>
    some (.storageUnavailable ("Storage permission denied while accessing ".toList ++ quoted key) false)
  | _ => none

def rootText : Text := '/' :: joined d.root

/-- The probe of the root. In a tree of files the root is there and on its own
    device; only an operator's marker can be missing. -/
def probeRoot (t : FileSystem) : Option StorageError :=
  match d.mountCheck with
  | .off | .stDev => none
  | .sentinel sentinelFile =>
    match find (d.root ++ [sentinelFile]) t with
    | .ok _ => none
    | .error .missing =>
      some (.storageUnavailable
       ("Storage sentinel ".toList ++ quoted (rootText d ++ '/' :: sentinelFile) ++
        " is missing; the provisioned volume is not mounted at ".toList ++ quoted (rootText d)) true)
    | .error _ => some (.storageUnavailable "Unexpected storage probe failure".toList true)

def classifyEnoent (t : FileSystem) (key : Text) : StorageError :=
    (probeRoot d t).getD (.objectNotFound key)

def readFailure (t : FileSystem) (key : Text) (code : Errno) : StorageError :=
  if code = .enoent then classifyEnoent d t key else (classify (.errno code) key).getD (.errno code)

def statOrThrow (t : FileSystem) (key : Text) (filePath : Path) : Except StorageError Stats :=
  match calling filePath (look filePath t) with
  | .ok (.file content) => .ok ⟨content.bytes.size, content.mtime⟩
  | .ok .dir => .ok (d.directoryStats filePath)
  | .error code => .error (readFailure d t key code)

def readSidecar (t : FileSystem) (key : Text) (filePath : Path) : Except StorageError (Json ν) :=
  match calling (sidecarPath filePath) (look (sidecarPath filePath) t) with
  | .ok (.file content) =>
    match parse d.numbers (decodeUtf8 content.bytes) with
    | some value => .ok value
    | none => .error .syntaxError
  | .ok .dir => .error (readFailure d t key .eisdir)
  | .error code => .error (readFailure d t key code)

def sidecarText (sidecar : Sidecar) : Text := stringify d.numbers sidecar.document

/-- A property of a parsed value: `null` has none to read, and only an object
    holds any of these. -/
def property (value : Json ν) (name : Text) : Except StorageError (Option (Json ν)) :=
  match value with
  | .null => .error .typeError
  | .obj members => .ok (mapGet members name)
  | _ => .ok none

def toStoredObject (key : Text) (info : Stats) (sidecar : Json ν) : Except StorageError (StoredObject ν) :=
  match property sidecar "contentType".toList, property sidecar "checksum".toList,
   property sidecar "etag".toList with
  | .ok contentType, .ok checksum, .ok etag =>
   .ok ⟨key, info.size, contentType, checksum, etag, info.mtime, slug⟩
  | _, _, _ => .error .typeError

def head (timing : Timing) (t : FileSystem) (key : Text) : Except StorageError (StoredObject ν) :=
  match resolveKey d key with
  | .error e => .error e
  | .ok filePath =>
    match statOrThrow d t key filePath, readSidecar d t key filePath with
    | .ok info, .ok sidecar => toStoredObject key info sidecar
    | .error e, .ok _ => .error e
    | .ok _, .error e => .error e
    | .error e, .error e' => .error (if timing.statFirst key then e else e')

def get (timing : Timing) (t : FileSystem) (key : Text) :
    Except StorageError (ByteArray × StoredObject ν) :=
  match head d timing t key with
  | .error e => .error e
  | .ok metadata =>
    match calling (resolve d.root key) (look (resolve d.root key) t) with
    | .ok (.file content) => .ok (content.bytes, metadata)
    | .ok .dir => .error (.errno .eisdir)
    | .error code => .error (.errno code)

/-- `rm` with `force`: what is not there is no failure. -/
def rm (filePath : Path) (t : FileSystem) : Except StorageError FileSystem :=
  match calling filePath (removeFile filePath t) with
  | .ok t' => .ok t'
  | .error .enoent => .ok t
  | .error .eisdir => .error (.errno .errFsEisdir)
  | .error code => .error (.errno code)

def rmQuietly (filePath : Path) (t : FileSystem) : FileSystem :=
  match rm filePath t with
  | .ok t' => t'
  | .error _ => t

/-- The end of a failed `put`: both files dropped, the error translated. -/
def putFailed (key : Text) (filePath : Path) (e : StorageError) (t : FileSystem) :
    Except StorageError (StoredObject ν) × FileSystem :=
  (.error ((classify e key).getD e), rmQuietly (sidecarPath filePath) (rmQuietly filePath t))

def uploadSidecar (bytes : ByteArray) (objectMeta : ObjectMeta) : Sidecar :=
  ⟨objectMeta.contentType, d.sha256 bytes, d.sha256 bytes, objectMeta.originalName⟩

/-- The metadata of an object as its `put` answers it. -/
def uploaded (key : Text) (bytes : ByteArray) (objectMeta : ObjectMeta) (now : ℤ) : StoredObject ν :=
  ⟨key, bytes.size, some (.str objectMeta.contentType), some (.str (d.sha256 bytes)),
   some (.str (d.sha256 bytes)), now, slug⟩

def probeBeforeWrite (t : FileSystem) : Option StorageError :=
  match d.mountCheck with
  | .off => none
  | _ => probeRoot d t

/-- Directories first, then the bytes as they are hashed, then the sidecar. -/
def writeObject (key : Text) (filePath : Path) (body : Body) (objectMeta : ObjectMeta) (now : ℤ)
    (t : FileSystem) :
    Except StorageError (StoredObject ν) × FileSystem :=
  match calling filePath.dropLast (mkdirs filePath.dropLast t) with
  | .error code => putFailed key filePath (.errno code) t
  | .ok t₁ =>
    match calling filePath (writeFile filePath ⟨body.bytes, now⟩ t₁) with
    | .error code => putFailed key filePath (.errno code) t₁
    | .ok t₂ =>
      if body.ends = false then putFailed key filePath .sourceFailed t₂
      else
        match calling (sidecarPath filePath) (writeFile (sidecarPath filePath)
            ⟨encodeUtf8 (sidecarText d (uploadSidecar d body.bytes objectMeta)), now⟩ t₂) with
        | .error code => putFailed key filePath (.errno code) t₂
        | .ok t₃ => (.ok (uploaded d key body.bytes objectMeta now), t₃)

def put (key : Text) (body : Body) (objectMeta : ObjectMeta) (now : ℤ) (t : FileSystem) :
    Except StorageError (StoredObject ν) × FileSystem :=
  match resolveKey d key with
  | .error e => (.error e, t)
  | .ok filePath =>
    match probeBeforeWrite d t with
    | some e => (.error e, t)
    | none => writeObject d key filePath body objectMeta now t

def delete (key : Text) (t : FileSystem) : Except StorageError Unit × FileSystem :=
  match resolveKey d key with
  | .error e => (.error e, t)
  | .ok filePath =>
    match rm filePath t with
    | .error e => (.error ((classify e key).getD e), t)
    | .ok t₁ =>
      match rm (sidecarPath filePath) t₁ with
      | .error e => (.error ((classify e key).getD e), t₁)
      | .ok t₂ => (.ok (), t₂)

def walk (t : FileSystem) (dir : Path) : Except StorageError (List Text) :=
  match calling dir (find dir t) with
  | .ok (.dir entries) =>
    .ok ((paths (fun name => !sidecarSuffix.isSuffixOf name) entries).map fun names =>
     joined (relative d.root (dir ++ names)))
  | .ok (.file _) => .error ((classify (.errno .enotdir) ('/' :: joined dir)).getD (.errno .enotdir))
  | .error .enoent =>
    match probeRoot d t with
    | none => .ok []
    | some e => .error e
  | .error code => .error ((classify (.errno code) ('/' :: joined dir)).getD (.errno code))

structure ListOptions where
  cursor : Option Text
  limit : Option ℤ

structure ListResult (ν : Type) where
  objects : List (StoredObject ν)
  nextCursor : Option Text

def refusal {α : Type} : Except StorageError α → Option StorageError
  | .error e => some e
  | .ok _ => none

/-- `Promise.all`: every value, or one of the refusals. -/
def settleAll {α : Type} (firstRefused : ℕ) (results : List (Except StorageError α)) :
    Except StorageError (List α) :=
  match results.filterMap refusal with
  | [] => .ok (results.filterMap Except.toOption)
  | e :: es => .error ((e :: es).getD firstRefused e)

def pageLimit (options : ListOptions) : Option ℕ :=
  match options.limit with
  | some limit => if 0 < limit then some limit.toNat else none
  | none => none

def list (timing : Timing) (t : FileSystem) (pre : Text) (options : ListOptions) :
    Except StorageError (ListResult ν) :=
  match resolvePrefixDir d pre with
  | .error e => .error e
  | .ok dir =>
    match walk d t dir with
    | .error e => .error e
    | .ok found =>
      let keys := sortTexts (found.filter fun key => pre.isPrefixOf key)
      let start := match options.cursor with
        | some cursor => if cursor = [] ∨ keys.contains cursor = false then 0 else keys.idxOf cursor + 1
        | none => 0
      let page := match pageLimit options with
        | some limit => (keys.drop start).take limit
        | none => keys.drop start
      match settleAll timing.firstRefused (page.map (head d timing t)) with
      | .error e => .error e
      | .ok objects =>
        .ok ⟨objects, if (pageLimit options).isSome ∧
         start + page.length < keys.length then page.getLast? else none⟩

end Driver

section Refused

variable {α : Type} {p q : Path} {answer : Except Fault α} {a : α} {fault : Fault}

theorem calling_ok (h : holdsNul p = false) :
  calling p (.ok a) = .ok a := if_neg (Bool.eq_false_iff.1 h)

theorem calling_error (h : holdsNul p = false) :
  calling p (.error fault : Except Fault α) = .error (.ofFault fault) :=
  if_neg (Bool.eq_false_iff.1 h)

theorem calling_refused (h : holdsNul p = true) :
  calling p answer = .error .errInvalidArgValue := if_pos h

theorem ok_of_calling (h : calling p answer = .ok a) : holdsNul p = false ∧ answer = .ok a := by
 unfold calling at h
 split at h
 · cases h
 · next hplain =>
   split at h
   · cases h
     exact ⟨Bool.eq_false_iff.2 hplain, rfl⟩
   · cases h

theorem missing_of_calling (h : calling p answer = .error .enoent) : answer = .error .missing := by
 unfold calling at h
 split at h
 · cases h
 · split at h
   · cases h
   · next fault =>
     cases fault with
     | missing => rfl
     | notDirectory => cases h
     | isDirectory => cases h
     | «exists» => cases h

theorem holdsNul_append : holdsNul (p ++ q) = (holdsNul p || holdsNul q) := List.any_append

end Refused

end BoardGamesEmpire.LocalDisk
