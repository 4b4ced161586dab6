import BoardGamesEmpire.MediaSignedUrls

set_option autoImplicit false

/-!
# A signed URL opens what it was signed for

Every URL that a run mints is on record with the row it was minted for, and a
query is answered only if it says what one of them says.
-/
namespace BoardGamesEmpire.MediaSignedUrls
open JsText JsonText LocalDisk MediaUrlSigner UriComponent

variable {ν γ : Type}

section Minting

variable (service : Service ν)

def expiry (now : ℤ) : ν := service.numbers.ofInt (now / 1000 + service.signedUrlTtlSeconds)

def urlParams (media : MediaObject) (now : ℤ) : List (Text × Text) :=
  [("slug".toList, media.driverSlug), ("key".toList, media.driverKey), ("op".toList, "get".toList),
    ("exp".toList, service.numbers.print (expiry service now)),
    ("sig".toList, sign service.numbers service.hmac (Signing.mk media (expiry service now)).payload)]

structure Minted (s : State ν γ) (media : MediaObject) (url : SignedUrl ν) : Prop where
  slug : media.driverSlug = localDiskSlug
  key : media.driverKey ≠ []
  expiresAt : url.expiresAt = expiry service s.now
  query : service.codec.decode url.query = urlParams service media s.now

variable {service}

theorem minted {mayRead : MediaObject → Bool} {s : State ν γ} {media : MediaObject}
  {url : SignedUrl ν} (hmedia : media ∈ s.media.rows)
  (h : createSignedUrl service mayRead s media.id = .ok url) : Minted service s media url := by
 unfold createSignedUrl at h
 split at h
 · cases h
 · next found hfind =>
   have hkeeps := @List.find?_some _ (fun row => decide (row.id = media.id) && mayRead row) _ _ hfind
   have hid : found.id = media.id := of_decide_eq_true (Bool.and_eq_true_iff.1 hkeeps).1
   have hfound : found = media :=
    List.inj_on_of_nodup_map s.media.ids (List.mem_of_find?_eq_some hfind) hmedia hid
   subst hfound
   unfold storageSignedUrl at h
   split at h
   · next hslug =>
     unfold localDiskSignedUrl at h
     split at h
     · cases h
     · next hcanonical =>
       have hkey : found.driverKey ≠ [] := by
        intro hnil
        rw [hnil, assertCanonicalKey, if_pos (.inl rfl)] at hcanonical
        cases hcanonical
       dsimp only at h
       split at h
       · cases h
       · cases h
         refine ⟨hslug, hkey, by rw [expiry, Int.floor_intCast], ?_⟩
         rw [service.codec.decode_encode, urlParams, expiry, Int.floor_intCast, Signing.payload, hslug]
         rfl
   · cases h

end Minting

section Provenance

variable {service : Service ν}

def Recorded (service : Service ν) (start s : State ν γ) : Prop :=
  ∀ signing ∈ s.signed, ∃ before mayRead url, Run service start before ∧ Run service before s ∧
   signing.media ∈ before.media.rows ∧
    createSignedUrl service mayRead before signing.media.id = .ok url ∧ url.expiresAt = signing.expiresAt

theorem recorded {start s : State ν γ} (hstart : start.signed = []) (hrun : Run service start s) :
  Recorded service start s := by
 induction hrun with
 | refl =>
   intro signing hsigning
   rw [hstart] at hsigning
   cases hsigning
 | @tail mid last hmid hstep ih =>
   have hkept : ∀ signing ∈ mid.signed, ∃ before mayRead url, Run service start before ∧
    Run service before last ∧
       signing.media ∈ before.media.rows ∧
        createSignedUrl service mayRead before signing.media.id = .ok url ∧
       url.expiresAt = signing.expiresAt := by
    intro signing hsigning
    obtain ⟨before, mayRead, url, hbefore, hlater, hfacts⟩ := ih signing hsigning
    exact ⟨before, mayRead, url, hbefore, hlater.tail hstep, hfacts⟩
   cases hstep with
   | createSignedUrl mayRead hmedia h =>
     intro signing hsigning
     rcases List.mem_append.1 hsigning with hold | hnew
     · exact hkept signing hold
     · rw [List.mem_singleton.1 hnew]
       exact ⟨mid, mayRead, _, hmid, .single (.createSignedUrl mayRead hmedia h), hmedia, h, rfl⟩
   | rows media => exact hkept
   | clock now => exact hkept
   | bytes stored => exact hkept

theorem MediaTable.findKey_some {media : MediaTable} {slug key : Text} {row : MediaObject}
  (h : media.findKey slug key = some row) :
  row ∈ media.rows ∧ row.driverSlug = slug ∧ row.driverKey = key :=
 ⟨List.mem_of_find?_eq_some h,
  of_decide_eq_true
   (@List.find?_some _
    (fun row : MediaObject => decide (row.driverSlug = slug ∧ row.driverKey = key)) _ _ h)⟩

theorem claims_owner {p : SignaturePayload ν} {ownerId : Text}
  (h : p.bindings = some (ownerBinding ownerId)) :
  p.claims = [("ownerId".toList, ownerId)] := by
 rw [SignaturePayload.claims, h]
 rfl

theorem same_query {signing : Signing ν} {query : StreamMediaQuery} {row : MediaObject}
  (h : Same signing.payload (queryPayload service query row)) :
  signing.media.driverSlug = query.slug ∧ signing.media.driverKey = query.key ∧ query.op = .get ∧
   service.numbers.number query.exp = .finite signing.expiresAt ∧ row.mimeType = signing.media.mimeType ∧
   row.ownerId = signing.media.ownerId := by
 have howner := (h.bindings ("ownerId".toList, signing.media.ownerId)).1
  (by rw [claims_owner rfl]; exact List.mem_singleton_self _)
 rw [claims_owner rfl, List.mem_singleton] at howner
 exact ⟨h.slug, h.key, h.op.symm, h.expiresAt.symm, (Option.some.inj h.contentType).symm,
  (congrArg Prod.snd howner).symm⟩

end Provenance

section Opening

variable (service : Service ν)

/-- An earlier `createSignedUrl` signed what the query says, for a row that then had the
    owner and the mime type that the row has now, and the bytes are the ones under its key. -/
structure OpenedBy (start s : State ν γ) (query : StreamMediaQuery) (sent : MediaStream γ)
    (before : State ν γ)
    (mayRead : MediaObject → Bool) (media : MediaObject) (url : SignedUrl ν) (row : MediaObject) :
     Prop where
  reached : Run service start before
  earlier : Run service before s
  present : media ∈ before.media.rows
  created : createSignedUrl service mayRead before media.id = .ok url
  slug : media.driverSlug = query.slug
  key : media.driverKey = query.key
  op : query.op = .get
  exp : service.numbers.number query.exp = .finite url.expiresAt
  found : s.media.findKey query.slug query.key = some row
  owner : row.ownerId = media.ownerId
  mimeType : row.mimeType = media.mimeType
  unexpired : service.numbers.past (.finite url.expiresAt) s.now = false
  bytes : s.stored query.slug query.key = .ok sent.stream

/-- A query is answered from a row: with the bytes under its key and its mime type, or,
    where the storage has none to give, with what the storage says. -/
structure AnsweredFrom (s : State ν γ) (query : StreamMediaQuery) (row : MediaObject) : Prop where
  opened : getVerifiedStream service s query = openStream s row.driverSlug row.driverKey row
  bytes : ∀ body, s.stored row.driverSlug row.driverKey = .ok body →
    ∃ sent, getVerifiedStream service s query = .ok sent ∧ sent.stream = body ∧
     sent.contentType = row.mimeType
  missing : ∀ key, s.stored row.driverSlug row.driverKey = .error (.objectNotFound key) →
    getVerifiedStream service s query = .error .notFound
  refused : ∀ e, (∀ key, e ≠ .objectNotFound key) → s.stored row.driverSlug row.driverKey = .error e →
    getVerifiedStream service s query = .error (.storage e)

/-- The URL is accepted: it reads as a query, and the query is answered from the row,
    whichever text its expiry is sent as. -/
def Accepted (s : State ν γ) (url : SignedUrl ν) (row : MediaObject) : Prop :=
  ∃ query, streamMediaQuery (service.codec.decode url.query) = some query ∧
    ∀ exp, service.numbers.number exp = service.numbers.number query.exp →
     AnsweredFrom service s { query with exp := exp } row

structure OpensWhatWasSigned (start : State ν γ) : Prop where
  texts : ∀ (p q : SignaturePayload ν) (n m : ν), p.expiresAt = .finite n → q.expiresAt = .finite m →
    canonicalize service.numbers p = canonicalize service.numbers q → Same p q
  served : ∀ s, Run service start s → ∀ query sent, Unforged service s query.sig →
   getVerifiedStream service s query = .ok sent →
    ∃ before mayRead media url row, OpenedBy service start s query sent before mayRead media url row
  accepted : ∀ before s, Run service start before → Run service before s → ∀ mayRead,
   ∀ media ∈ before.media.rows, ∀ url,
    createSignedUrl service mayRead before media.id = .ok url → ∀ row,
     s.media.findKey media.driverSlug media.driverKey = some row →
      row.ownerId = media.ownerId → row.mimeType = media.mimeType →
       service.numbers.past (.finite url.expiresAt) s.now = false →
        Accepted service s url row

variable {service}

variable {s : State ν γ}

theorem openStream_ok {slug key : Text} {media : MediaObject} {sent : MediaStream γ}
  (h : openStream s slug key media = .ok sent) : s.stored slug key = .ok sent.stream := by
 unfold openStream at h
 split at h
 · split at h
   · cases h
   · cases h
   · next body hstored =>
     cases h
     exact hstored
 · cases h

theorem answeredFrom {query : StreamMediaQuery} {row : MediaObject}
  (hslug : row.driverSlug = localDiskSlug)
  (h : getVerifiedStream service s query = openStream s row.driverSlug row.driverKey row) :
   AnsweredFrom service s query row where
 opened := h
 bytes body hbody := by
  rw [h, openStream, if_pos hslug, hbody]
  exact ⟨_, rfl, rfl, rfl⟩
 missing key hmissing := by rw [h, openStream, if_pos hslug, hmissing]
 refused e hother hrefused := by
  rw [h, openStream, if_pos hslug, hrefused]
  split
  · next key hkey =>
    cases hkey
    exact absurd rfl (hother key)
  · next hkey =>
    cases hkey
    rfl
  · next hkey => cases hkey

theorem getVerifiedStream_ok {query : StreamMediaQuery} {sent : MediaStream γ}
  (h : getVerifiedStream service s query = .ok sent) :
  ∃ row, s.media.findKey query.slug query.key = some row ∧
   query.sig = sign service.numbers service.hmac (queryPayload service query row) ∧
   service.numbers.past (service.numbers.number query.exp) s.now = false ∧
    s.stored query.slug query.key = .ok sent.stream := by
 unfold getVerifiedStream at h
 split at h
 · cases h
 · next row hrow =>
   split at h
   · cases h
   · cases h
   · next hverified =>
     obtain ⟨hsig, hpast⟩ := (verify_ok_iff _ _ _ _ _).1 hverified
     exact ⟨row, hrow, hsig, hpast, openStream_ok h⟩

theorem served {start s : State ν γ} (hstart : start.signed = []) (hrun : Run service start s)
  {query : StreamMediaQuery} {sent : MediaStream γ} (hunforged : Unforged service s query.sig)
  (h : getVerifiedStream service s query = .ok sent) :
  ∃ before mayRead media url row, OpenedBy service start s query sent before mayRead media url row := by
 obtain ⟨row, hrow, hsig, hpast, hstored⟩ := getVerifiedStream_ok h
 obtain ⟨signing, hsigning, hmessage⟩ := hunforged _ hsig
 obtain ⟨hslug, hkey, hop, hexp, hmime, howner⟩ := same_query
  ((canonicalize_eq_iff service.numbers signing.payload _ rfl).1 hmessage)
 obtain ⟨before, mayRead, url, hbefore, hlater, hpresent, hcreated, hexpires⟩ := recorded hstart
  hrun signing hsigning
 rw [← hexpires] at hexp
 exact ⟨before, mayRead, signing.media, url, row,
  { reached := hbefore, earlier := hlater, present := hpresent, created := hcreated, slug := hslug, key := hkey, op := hop, exp := hexp,
    found := hrow, owner := howner, mimeType :=
     hmime, unexpired := by rw [← hexp]; exact hpast, bytes := hstored }⟩

theorem digits_numberString {s : Text} (hne : s ≠ []) (hdigits : s.all Char.isDigit = true) :
  isNumberString s = true ∧ isNumberString ('-' :: s) = true := by
 have hnot : ∀ c, c.isDigit = false → c ∉ s := by
  intro c hc hmem
  rw [List.all_eq_true.1 hdigits c hmem] at hc
  cases hc
 have hpoint : cutFirst ['.'] s = none := cutFirst_absent (hnot '.' (by decide))
 have hnumber : (!s.isEmpty && s.all Char.isDigit) = true := by
  rw [hdigits, List.isEmpty_eq_false_iff.2 hne]
  rfl
 have hsigned : signed s = (false, s) := by
  unfold signed
  split
  · exact absurd List.mem_cons_self (hnot '-' (by decide))
  · exact absurd List.mem_cons_self (hnot '+' (by decide))
  · rfl
 constructor
 · rw [isNumberString, hsigned, hpoint]
   exact hnumber
 · have hminus : signed ('-' :: s) = (true, s) := rfl
   rw [isNumberString, hminus, hpoint]
   exact hnumber

theorem expiry_numberString (service : Service ν) (now : Instant) :
  isNumberString (service.numbers.print (expiry service now)) = true := by
 have hnow := abs_le.1 now.2
 have hpos := service.ttl_pos
 have hsafe := service.ttl_safe
 have hsize : |now.1 / 1000 + service.signedUrlTtlSeconds| < 10 ^ 21 := by
  rw [abs_lt]
  constructor <;> norm_num at hsafe ⊢ <;> omega
 obtain ⟨digits, hne, hdigits, hprint | hprint⟩ := service.numbers.print_ofInt _ hsize
 · rw [expiry, hprint]
   exact (digits_numberString hne hdigits).1
 · rw [expiry, hprint]
   exact (digits_numberString hne hdigits).2

theorem streamMediaQuery_params {slug key exp sig : Text} (hslug : slug ≠ []) (hkey : key ≠ [])
  (hexp : isNumberString exp = true)
  (hsig : sig ≠ []) : streamMediaQuery [("slug".toList, slug), ("key".toList, key),
   ("op".toList, "get".toList), ("exp".toList, exp),
   ("sig".toList, sig)] = some ⟨slug, key, .get, exp, sig⟩ := by
 let params := [("slug".toList, slug), ("key".toList, key), ("op".toList, "get".toList),
  ("exp".toList, exp), ("sig".toList, sig)]
 have hparams : param params "slug" = some slug ∧ param params "key" = some key ∧
  param params "op" = some "get".toList ∧
     param params "exp" = some exp ∧ param params "sig" = some sig := ⟨rfl, rfl, rfl, rfl, rfl⟩
 change streamMediaQuery params = _
 simp only [streamMediaQuery, hparams, Option.bind_eq_bind, Option.bind_some]
 exact if_pos ⟨hslug, hkey, trivial, hexp, hsig, rfl⟩

theorem accepted {before s : State ν γ} {mayRead : MediaObject → Bool} {media row : MediaObject}
  {url : SignedUrl ν} (hmedia : media ∈ before.media.rows)
  (h : createSignedUrl service mayRead before media.id = .ok url)
  (hrow : s.media.findKey media.driverSlug media.driverKey = some row)
  (howner : row.ownerId = media.ownerId) (hmime : row.mimeType = media.mimeType)
  (hunexpired : service.numbers.past (.finite url.expiresAt) s.now = false) :
  Accepted service s url row := by
 have hminted := minted hmedia h
 obtain ⟨-, hslug, hkey⟩ := MediaTable.findKey_some hrow
 have hne : media.driverSlug ≠ [] := by
  rw [hminted.slug]
  decide
 refine ⟨_, (congrArg streamMediaQuery hminted.query).trans
  (streamMediaQuery_params hne hminted.key (expiry_numberString service before.now)
   (service.hmac.ne_nil _)), fun exp hexp =>
  answeredFrom (hslug.trans hminted.slug) ?_⟩
 rw [service.numbers.number_print] at hexp
 have hpayload : queryPayload service ⟨media.driverSlug, media.driverKey, .get, exp,
     sign service.numbers service.hmac (Signing.mk media (expiry service before.now)).payload⟩ row =
     (Signing.mk media (expiry service before.now)).payload := by
  rw [queryPayload, Signing.payload, hexp, howner, hmime]
 rw [hminted.expiresAt] at hunexpired
 have hverified :
  verify service.numbers service.hmac (Signing.mk media (expiry service before.now)).payload
     (sign service.numbers service.hmac (Signing.mk media (expiry service before.now)).payload)
      s.now = .ok () :=
  (verify_ok_iff _ _ _ _ _).2 ⟨rfl, hunexpired⟩
 unfold getVerifiedStream
 dsimp only
 rw [hrow]
 dsimp only
 rw [hpayload, hverified, hslug, hkey]

def fresh (media : MediaTable) (now : Instant) (stored : Text → Text → Except StorageError γ) :
    State ν γ := ⟨media, now, stored, []⟩

theorem signedUrls_open (service : Service ν) (media : MediaTable) (now : Instant)
  (stored : Text → Text → Except StorageError γ) :
  OpensWhatWasSigned service (fresh media now stored) where
 texts p q _ _ hp _ := (canonicalize_eq_iff service.numbers p q hp).1
 served _ hrun _ _ := served rfl hrun
 accepted _ _ _ _ _ _ hmedia _ h _ hrow howner hmime := accepted hmedia h hrow howner hmime

end Opening

section Samples

def printInt (n : ℤ) : Text := if n < 0 then '-' :: toText 10 n.natAbs else toText 10 n.natAbs

theorem toText_isDigit (n : ℕ) : toText 10 n ≠ [] ∧ (toText 10 n).all Char.isDigit = true := by
 obtain ⟨ds, hds, hne, hlt, -⟩ := toText_digits (by decide : 1 < 10) (by decide) n
 have hdigit : ∀ d < 10, (Nat.digitChar d).isDigit = true := by decide
 rw [hds]
 refine ⟨by simpa using hne, List.all_eq_true.2 fun c hc => ?_⟩
 obtain ⟨d, hd, rfl⟩ := List.mem_map.1 hc
 exact hdigit d (hlt d hd)

theorem printInt_digits (n : ℤ) :
  ∃ digits : Text, digits ≠ [] ∧ digits.all Char.isDigit = true ∧
   (printInt n = digits ∨ printInt n = '-' :: digits) := by
 obtain ⟨hne, hdigits⟩ := toText_isDigit n.natAbs
 refine ⟨toText 10 n.natAbs, hne, hdigits, ?_⟩
 unfold printInt
 split
 · exact .inr rfl
 · exact .inl rfl

theorem printInt_injective : Function.Injective printInt := by
 intro m n h
 have hminus : ∀ k l : ℕ, '-' :: toText 10 k ≠ toText 10 l := by
  intro k l hsame
  have hdigit := List.all_eq_true.1 (toText_isDigit l).2 '-' (hsame ▸ List.mem_cons_self)
  exact absurd hdigit (by decide)
 unfold printInt at h
 split at h <;> split at h
 · have habs := toText_injective (List.cons.inj h).2
   omega
 · exact absurd h (hminus _ _)
 · exact absurd h.symm (hminus _ _)
 · have habs := toText_injective h
   omega

/-- Integers and their decimal texts. -/
noncomputable def integers : Numbers ℤ where
  print := printInt
  read := Function.partialInv printInt
  read_print := Function.partialInv_left printInt_injective
  print_chars n c hc := by
    obtain ⟨digits, -, hdigits, hprint⟩ := printInt_digits n
    have hchar : c = '-' ∨ c.isDigit = true := by
      rcases hprint with hprint | hprint <;> rw [hprint] at hc
      · exact .inr (List.all_eq_true.1 hdigits c hc)
      · exact (List.mem_cons.1 hc).imp_right (List.all_eq_true.1 hdigits c)
    rcases hchar with rfl | hdigit
    · rfl
    · simp [isNumberChar, hdigit]
  print_ne_nil n := by
    obtain ⟨digits, hne, -, hprint | hprint⟩ := printInt_digits n <;> simp [hprint, hne]
  number s := (Function.partialInv printInt s).elim .nan .finite
  ofInt n := n
  value n := n
  number_print n := by rw [Function.partialInv_left printInt_injective]; rfl
  print_ofInt n _ := printInt_digits n
  value_ofInt n _ := rfl

def rank (message : Text) : ℕ := Encodable.encode (message.map Char.toNat)

theorem rank_injective : Function.Injective rank := fun _ _ h =>
 List.map_injective_iff.2 (fun _ _ => Char.toNat_inj.1) (Encodable.encode_injective h)

def rankDigest : Hmac where
  digest message := List.replicate (2 * (rank message + 1)) '0'
  injective s t h := rank_injective (by simpa using congrArg List.length h)
  ne_nil message := by simp
  hex message := by simp [isLowerHex]
  whole message := by simp

def encodeParams (params : List (Text × Text)) : Text :=
  ['&'].intercalate
   (params.map fun param => encodeURIComponent param.1 ++ '=' :: encodeURIComponent param.2)

theorem notMem_encodeURIComponent {c : Char} (h : unreserved c = false ∧ c ≠ '%') (s : Text) :
  c ∉ encodeURIComponent s := by
 intro hc
 rcases encodeURIComponent_chars hc with hreserved | hpercent
 · rw [h.1] at hreserved
   cases hreserved
 · exact h.2 hpercent

theorem encodeParams_injective : Function.Injective encodeParams := by
 intro params params' h
 have hplain : ∀ l : List (Text × Text), ∀ part ∈ l.map fun param =>
  encodeURIComponent param.1 ++ '=' :: encodeURIComponent param.2,
     '&' ∉ part ∧ part ≠ [] := by
  intro l part hpart
  obtain ⟨param, -, rfl⟩ := List.mem_map.1 hpart
  simp [notMem_encodeURIComponent (c := '&') (by decide)]
 refine List.map_injective_iff.2 (fun param param' hparam => ?_)
  (intercalate_injective_of_ne (hplain params) (hplain params') h)
 obtain ⟨hkey, hvalue⟩ := SeparatedText.append_sep_inj (notMem_encodeURIComponent (by decide) _)
  (notMem_encodeURIComponent (by decide) _) hparam
 exact Prod.ext (encodeURIComponent_injective hkey) (encodeURIComponent_injective hvalue)

/-- A service on integers, whose texts are percent-encoded. -/
noncomputable def percentService : Service ℤ where
  numbers := integers
  hmac := rankDigest
  codec := ⟨encodeParams, Function.invFun encodeParams, Function.leftInverse_invFun encodeParams_injective⟩
  address := "/media".toList
  signedUrlTtlSeconds := 300
  ttl_pos := by decide
  ttl_safe := by decide

def cover : MediaObject :=
    ⟨"1".toList, "ada".toList, localDiskSlug, "cover.png".toList, "image/png".toList, none⟩

def shelf : MediaTable := ⟨[cover], List.nodup_singleton _, List.nodup_singleton _⟩

def midnight : Instant := ⟨0, by decide⟩

def coverBytes (slug key : Text) : Except StorageError ℕ :=
  if slug = cover.driverSlug ∧ key = cover.driverKey then .ok 137 else .error (.objectNotFound key)

theorem cover_opens : ∃ (url : SignedUrl ℤ) (query : StreamMediaQuery) (sent : MediaStream ℕ),
    createSignedUrl percentService (fun _ => true) (fresh shelf midnight coverBytes) cover.id = .ok url ∧
    streamMediaQuery (percentService.codec.decode url.query) = some query ∧
    getVerifiedStream percentService (fresh shelf midnight coverBytes) query = .ok sent ∧
    sent.stream = 137 ∧ sent.contentType = "image/png".toList := by
 let start : State ℤ ℕ := fresh shelf midnight coverBytes
 obtain ⟨url, hurl⟩ : ∃ url, createSignedUrl percentService (fun _ => true) start cover.id = .ok url := by
  have hkey : assertCanonicalKey cover.driverKey = .ok () := by decide
  change ∃ url, localDiskSignedUrl percentService cover.driverKey .get
    ⟨(300 : ℤ), some cover.mimeType, some (ownerBinding cover.ownerId)⟩ midnight = .ok url
  unfold localDiskSignedUrl
  rw [hkey]
  exact ⟨_, if_neg (by norm_num)⟩
 have hmedia : cover ∈ start.media.rows := List.mem_singleton_self _
 have hunexpired : percentService.numbers.past (.finite url.expiresAt) 0 = false := by
  rw [(minted hmedia hurl).expiresAt]
  change decide (((300 : ℤ) : ℚ) * 1000 < ((0 : ℤ) : ℚ)) = false
  norm_num
 obtain ⟨query, hquery, hanswered⟩ :=
  (signedUrls_open percentService shelf midnight coverBytes).accepted start start .refl .refl _ cover
  hmedia url hurl cover (by decide) rfl rfl hunexpired
 obtain ⟨sent, hsent, hstream, htype⟩ := (hanswered query.exp rfl).bytes 137 (by decide)
 exact ⟨url, query, sent, hurl, hquery, hsent, hstream, htype⟩

end Samples

end BoardGamesEmpire.MediaSignedUrls
