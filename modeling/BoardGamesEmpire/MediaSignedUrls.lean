import BoardGamesEmpire.LocalDisk
import BoardGamesEmpire.MediaUrlSigner
import BoardGamesEmpire.UriComponent

set_option autoImplicit false

/-!
# Signed media URLs

A URL is minted for a row of the media table and opened against the row that is
there when it is used. Between the two, rows are handed over, retyped, deleted
and created again, and the clock moves.
-/
namespace BoardGamesEmpire.MediaSignedUrls
open JsText JsonText LocalDisk MediaUrlSigner UriComponent

local instance : LawfulBEq Text := inferInstance

section Urls

/-- `URLSearchParams`, and what the server reads of its text. -/
structure QueryCodec where
  encode : List (Text × Text) → Text
  decode : Text → List (Text × Text)
  decode_encode : ∀ params, decode (encode params) = params

structure Service (ν : Type) where
  numbers : Numbers ν
  hmac : Hmac
  codec : QueryCodec
  address : Text
  signedUrlTtlSeconds : ℤ
  ttl_pos : 0 < signedUrlTtlSeconds
  ttl_safe : signedUrlTtlSeconds < 2 ^ 53

structure SignedUrlOptions where
  ttlSeconds : ℚ
  contentType : Option Text
  bindings : Option Bindings

/-- A URL, as the address of the stream and the query behind its `?`. -/
structure SignedUrl (ν : Type) where
  address : Text
  query : Text
  expiresAt : ν
  method : Text

inductive UrlError where
  | notFound (id : Text)
  | driverNotRegistered (slug : Text)
  | storage (e : StorageError)
  | range (ttlSeconds : ℚ)
deriving DecidableEq

variable {ν : Type} (service : Service ν)

/-- `LocalDiskDriver.slug`, the one driver that is registered. -/
def localDiskSlug : Text := "localdisk".toList

def localDiskSignedUrl (key : Text) (op : StorageOp) (options : SignedUrlOptions) (now : ℤ) :
    Except UrlError (SignedUrl ν) :=
  match assertCanonicalKey key with
  | .error e => .error (.storage e)
  | .ok () =>
    if options.ttlSeconds ≤ 0 then .error (.range options.ttlSeconds)
    else
      let expiresAt := service.numbers.ofInt (now / 1000 + ⌊options.ttlSeconds⌋)
      let signature := sign service.numbers service.hmac
        ⟨localDiskSlug, key, op, .finite expiresAt, options.contentType, options.bindings⟩
      .ok ⟨service.address, service.codec.encode [("slug".toList, localDiskSlug),
       ("key".toList, key), ("op".toList, op.text),
          ("exp".toList, service.numbers.print expiresAt), ("sig".toList, signature)],
        expiresAt, if op = .put then "PUT".toList else "GET".toList⟩

/-- `StorageService.signedUrl`. -/
def storageSignedUrl (driverSlug driverKey : Text) (op : StorageOp) (options : SignedUrlOptions)
    (now : ℤ) :
    Except UrlError (SignedUrl ν) :=
  if driverSlug = localDiskSlug then localDiskSignedUrl service driverKey op options now
  else .error (.driverNotRegistered driverSlug)

/-- `IsNumberString`: digits, perhaps with a sign before and one point between. -/
def isNumberString (s : Text) : Bool :=
  match cutFirst ['.'] (signed s).2 with
  | none => !(signed s).2.isEmpty && (signed s).2.all Char.isDigit
  | some (whole, fraction) => whole.all Char.isDigit && !fraction.isEmpty && fraction.all Char.isDigit

structure StreamMediaQuery where
  slug : Text
  key : Text
  op : StorageOp
  exp : Text
  sig : Text
deriving DecidableEq

def param (params : List (Text × Text)) (name : String) : Option Text :=
  match params.filter fun entry => decide (entry.1 = name.toList) with
  | [entry] => some entry.2
  | _ => none

/-- `StreamMediaQueryDto`. -/
def streamMediaQuery (params : List (Text × Text)) : Option StreamMediaQuery := do
  let slug ← param params "slug"
  let key ← param params "key"
  let op ← param params "op"
  let exp ← param params "exp"
  let sig ← param params "sig"
  if slug ≠ [] ∧ key ≠ [] ∧ op = "get".toList ∧ isNumberString exp = true ∧ sig ≠ [] ∧
   params.length = 5 then
    some ⟨slug, key, .get, exp, sig⟩
  else none

end Urls

section Service

structure MediaObject where
  id : Text
  ownerId : Text
  driverSlug : Text
  driverKey : Text
  mimeType : Text
  originalName : Option Text
deriving DecidableEq

structure MediaTable where
  rows : List MediaObject
  ids : (rows.map MediaObject.id).Nodup
  keys : (rows.map fun media => (media.driverSlug, media.driverKey)).Nodup

def MediaTable.findKey (media : MediaTable) (slug key : Text) : Option MediaObject :=
  media.rows.find? fun row => decide (row.driverSlug = slug ∧ row.driverKey = key)

/-- A time that a `Date` can hold. -/
abbrev Instant := { ms : ℤ // |ms| ≤ 8640000000000000 }

/-- What `createSignedUrl` signed, and for which row. -/
structure Signing (ν : Type) where
  media : MediaObject
  expiresAt : ν

/-- `signed` is what was signed so far; no function reads it. -/
structure State (ν γ : Type) where
  media : MediaTable
  now : Instant
  stored : Text → Text → Except StorageError γ
  signed : List (Signing ν)

variable {ν γ : Type} (service : Service ν)

def ownerBinding (ownerId : Text) : Bindings := ⟨[("ownerId".toList, ownerId)], List.nodup_singleton _⟩

def createSignedUrl (mayRead : MediaObject → Bool) (s : State ν γ) (id : Text) :
    Except UrlError (SignedUrl ν) :=
  match s.media.rows.find? fun row => decide (row.id = id) && mayRead row with
  | none => .error (.notFound id)
  | some media =>
    storageSignedUrl service media.driverSlug media.driverKey .get
      ⟨service.signedUrlTtlSeconds, some media.mimeType, some (ownerBinding media.ownerId)⟩ s.now

def inlineSafeMimeTypes : List Text :=
  ["image/jpeg".toList, "image/png".toList, "image/gif".toList, "image/webp".toList,
   "image/avif".toList, "application/pdf".toList,
    "video/mp4".toList, "video/webm".toList, "audio/mpeg".toList, "audio/ogg".toList, "audio/wav".toList]

/-- The replacements work on UTF-16 code units, so a character beyond the first plane becomes two. -/
def asciiFallback (filename : Text) : Text :=
  let ascii := filename.flatMap fun c => if 32 ≤ c.toNat ∧
   c.toNat ≤ 126 then [c] else (codeUnits c).map fun _ => '_'
  let plain := ascii.map fun c => if c = '"' ∨ c = '\\' then '_' else c
  if plain = [] then "download".toList else plain

def formatContentDisposition (type filename : Text) : Text :=
  let encoded := (encodeURIComponent filename).flatMap fun c =>
   if "'()*".toList.contains c then escapeByte (UInt8.ofNat c.toNat) else [c]
  type ++ "; filename=\"".toList ++ asciiFallback filename ++ "\"; filename*=UTF-8''".toList ++ encoded

structure MediaStream (γ : Type) where
  stream : γ
  contentType : Text
  contentDisposition : Text

inductive StreamError where
  | forbidden
  | gone
  | notFound
  | storage (e : StorageError)
deriving DecidableEq

def openStream (s : State ν γ) (slug key : Text) (media : MediaObject) :
    Except StreamError (MediaStream γ) :=
  if slug = localDiskSlug then
    match s.stored slug key with
    | .error (.objectNotFound _) => .error .notFound
    | .error e => .error (.storage e)
    | .ok body =>
      .ok ⟨body, media.mimeType, formatContentDisposition
        (if media.mimeType ∈ inlineSafeMimeTypes then "inline".toList else "attachment".toList)
         (media.originalName.getD "download".toList)⟩
  else .error .notFound

def queryPayload (query : StreamMediaQuery) (media : MediaObject) : SignaturePayload ν :=
  ⟨query.slug, query.key, query.op, service.numbers.number query.exp, some media.mimeType,
   some (ownerBinding media.ownerId)⟩

def getVerifiedStream (s : State ν γ) (query : StreamMediaQuery) : Except StreamError (MediaStream γ) :=
  match s.media.findKey query.slug query.key with
  | none => .error .forbidden
  | some media =>
    match verify service.numbers service.hmac (queryPayload service query media) query.sig s.now with
    | .error .expired => .error .gone
    | .error .invalid => .error .forbidden
    | .ok () => openStream s query.slug query.key media

/-- One thing that happens: a URL is minted, the rows change in any way (an owner, a mime
    type, a deletion, a creation), the clock moves, or the stored bytes change. -/
inductive Step (s : State ν γ) : State ν γ → Prop where
  | createSignedUrl (mayRead : MediaObject → Bool) {media : MediaObject} {url : SignedUrl ν}
   (hmedia : media ∈ s.media.rows)
    (h : createSignedUrl service mayRead s media.id = .ok url) :
     Step s { s with signed := s.signed ++ [⟨media, url.expiresAt⟩] }
  | rows (media : MediaTable) : Step s { s with media := media }
  | clock (now : Instant) : Step s { s with now := now }
  | bytes (stored : Text → Text → Except StorageError γ) : Step s { s with stored := stored }

abbrev Run (s s' : State ν γ) : Prop := Relation.ReflTransGen (Step service) s s'

def Signing.payload (signing : Signing ν) : SignaturePayload ν :=
  ⟨signing.media.driverSlug, signing.media.driverKey, .get, .finite signing.expiresAt,
   some signing.media.mimeType,
    some (ownerBinding signing.media.ownerId)⟩

/-- Who does not hold the secret shows no digest of a message that was not signed. -/
def Unforged (s : State ν γ) (signature : Text) : Prop :=
  ∀ message, signature = service.hmac.digest message → ∃ signing ∈ s.signed,
   canonicalize service.numbers signing.payload = message

end Service

end BoardGamesEmpire.MediaSignedUrls
