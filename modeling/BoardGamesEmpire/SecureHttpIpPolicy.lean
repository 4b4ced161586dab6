import BoardGamesEmpire.SecureHttpCidr

set_option autoImplicit false

/-!
# The outbound request gauntlet

`IpPolicyService.evaluate` over an arbitrary DNS answer and policy snapshot,
and the admissibility it decides.
-/
namespace BoardGamesEmpire.SecureHttpIpPolicy
open JsText SecureHttpIp SecureHttpIpRoundTrip SecureHttpCidr

def permanentBlockedCidrs : List Text :=
  ["169.254.169.254/32", "169.254.170.2/32", "fd00:ec2::254/128", "0.0.0.0/32",
    "255.255.255.255/32", "::/128"].map String.toList

def permanentBlockedHostnames : List Text :=
  ["metadata", "metadata.google.internal", "metadata.goog", "metadata.azure.com",
    "metadata.ec2.internal", "instance-data", "instance-data.ec2.internal"].map String.toList

def defaultPrivateCidrs : List Text :=
  ["10.0.0.0/8", "172.16.0.0/12", "192.168.0.0/16", "127.0.0.0/8", "169.254.0.0/16",
    "100.64.0.0/10", "224.0.0.0/4", "240.0.0.0/4", "::1/128", "fe80::/10", "fc00::/7", "ff00::/8",
    "100::/64"].map String.toList

def hostnameMatchesAny (hostname : Text) (list : List Text) (allowWildcards : Bool) : Bool :=
  match list with
  | [] => false
  | entry :: rest =>
    if ['*', '.'].isPrefixOf entry then
      let suffix := entry.drop 1
      if allowWildcards && (suffix.isSuffixOf hostname && suffix.length < hostname.length) then true
      else hostnameMatchesAny hostname rest allowWildcards
    else if entry = hostname then true
    else hostnameMatchesAny hostname rest allowWildcards

/-- The columns of the policy row that `evaluate` reads. -/
structure SafeHttpPolicySnapshot where
  strictMode : Bool
  allowedHosts : List Text
  allowedCidrs : List Text
  blockedHosts : List Text
  blockedCidrs : List Text

structure Url where
  protocol : Text
  hostname : Text

structure ResolvedAddress where
  address : Text
  family : IpFamily

/-- What awaiting `dns.resolveAll` ends in. -/
inductive DnsAnswer where
  | resolved (addresses : List ResolvedAddress)
  | dnsResolutionError
  | otherError

inductive SsrfRejectionReason where
  | permanentBlocklist | adminBlocklist | privateRange | invalidScheme | dnsFailure
  | ipv4MappedEvasion
deriving DecidableEq, Repr

structure IpPolicyReject where
  hostname : Text
  reason : SsrfRejectionReason
  ip : Option Text
  rule : Text
deriving DecidableEq, Repr

structure IpPolicyAllow where
  hostname : Text
  pinnedIp : Text
  pinnedFamily : IpFamily
deriving DecidableEq, Repr

inductive IpPolicyDecision where
  | allow (decision : IpPolicyAllow)
  | reject (decision : IpPolicyReject)
deriving DecidableEq, Repr

/-- The exceptions `evaluate` lets escape. -/
inductive EvaluateError where
  | rangeError (e : RangeError)
  | typeError
  | resolver
deriving DecidableEq, Repr

def liftRange {α : Type} : Except RangeError α → Except EvaluateError α
  | .ok a => .ok a
  | .error e => .error (.rangeError e)

def cidrLabel (cidr : ParsedCidr) : Text :=
  (match cidr.family with
    | .v4 => "ipv4/".toList
    | .v6 => "ipv6/".toList) ++ toText 10 cidr.prefixLength

/-- The block lists, record by record; `some` is the decision that ends the request. -/
def blockPass (casing : LowerCasing) (hostname : Text) (permanent adminBlocked : List ParsedCidr) :
    List ResolvedAddress → Except EvaluateError (Option IpPolicyReject)
  | [] => .ok none
  | addr :: rest => do
    match ← liftRange (parseIp casing addr.address) with
    | none => return some ⟨hostname, .dnsFailure, some addr.address, "dns-malformed".toList⟩
    | some ip =>
      match findContainingCidr permanent ip with
      | some hit =>
        if ip.wasIpv4Mapped then
          return some ⟨hostname, .ipv4MappedEvasion, some ip.canonical,
            "ipv4-mapped-evasion:permanent".toList⟩
        else
          return some ⟨hostname, .permanentBlocklist, some ip.canonical,
            "permanent-cidr:".toList ++ cidrLabel hit⟩
      | none =>
        match findContainingCidr adminBlocked ip with
        | some hit =>
          return some ⟨hostname, .adminBlocklist, some ip.canonical,
            "admin-blocklist:cidr:".toList ++ cidrLabel hit⟩
        | none => blockPass casing hostname permanent adminBlocked rest

/-- `pinnedAddress` and `pinnedIp`, which are set together. -/
abbrev Pinned := Option (Option ParsedIp)

/-- The allow lists and the private ranges. The record is parsed again, and
    nothing but the block pass keeps a `null` from being dereferenced here. -/
def allowPass (casing : LowerCasing) (hostname : Text) (hostOnAllowedList : Bool)
    (adminAllowed defaultPrivate : List ParsedCidr) (pinned : Pinned) :
    List ResolvedAddress → Except EvaluateError (IpPolicyReject ⊕ Pinned)
  | [] => .ok (.inr pinned)
  | addr :: rest => do
    let found ← liftRange (parseIp casing addr.address)
    let next := allowPass casing hostname hostOnAllowedList adminAllowed defaultPrivate
      (pinned.or (some found)) rest
    if hostOnAllowedList then next
    else
      match found with
      | none => .error .typeError
      | some ip =>
        if (findContainingCidr adminAllowed ip).isSome then next
        else
          match findContainingCidr defaultPrivate ip with
          | some hit =>
            if ip.wasIpv4Mapped then
              return .inl ⟨hostname, .ipv4MappedEvasion, some ip.canonical,
                "ipv4-mapped-evasion:private:".toList ++ cidrLabel hit⟩
            else
              return .inl ⟨hostname, .privateRange, some ip.canonical,
                "default-private:cidr:".toList ++ cidrLabel hit⟩
          | none => next

def evaluateRecords (casing : LowerCasing) (hostname : Text) (snapshot : SafeHttpPolicySnapshot)
    (permanent defaultPrivate : List ParsedCidr) (resolved : List ResolvedAddress) :
    Except EvaluateError IpPolicyDecision := do
  if resolved.isEmpty then
    return .reject ⟨hostname, .dnsFailure, none, "dns-empty".toList⟩
  let adminBlocked ← liftRange (parseCidrList casing snapshot.blockedCidrs)
  let adminAllowed ← liftRange (parseCidrList casing snapshot.allowedCidrs)
  let hostOnAllowedList := hostnameMatchesAny hostname snapshot.allowedHosts !snapshot.strictMode
  match ← blockPass casing hostname permanent adminBlocked resolved with
  | some rejected => return .reject rejected
  | none =>
    match ← allowPass casing hostname hostOnAllowedList adminAllowed defaultPrivate none resolved with
    | .inl rejected => return .reject rejected
    | .inr (some (some ip)) => return .allow ⟨hostname, ip.canonical, ip.family⟩
    | .inr _ => return .reject ⟨hostname, .dnsFailure, none, "unreachable".toList⟩

/-- The module parses its two constant lists when it loads; they are parsed
    here, where they are used. -/
def evaluate (casing : LowerCasing) (resolveAll : Text → DnsAnswer) (url : Url)
    (snapshot : SafeHttpPolicySnapshot) : Except EvaluateError IpPolicyDecision := do
  let permanent ← liftRange (parseCidrList casing permanentBlockedCidrs)
  let defaultPrivate ← liftRange (parseCidrList casing defaultPrivateCidrs)
  if url.protocol ≠ "http:".toList ∧ url.protocol ≠ "https:".toList then
    return .reject ⟨url.hostname, .invalidScheme, none, "scheme:".toList ++ url.protocol⟩
  let hostname := casing.toLowerCase url.hostname
  if permanentBlockedHostnames.contains hostname then
    return .reject ⟨hostname, .permanentBlocklist, none, "permanent-hostname:".toList ++ hostname⟩
  if hostnameMatchesAny hostname snapshot.blockedHosts !snapshot.strictMode then
    return .reject ⟨hostname, .adminBlocklist, none, "admin-blocklist:host:".toList ++ hostname⟩
  match resolveAll hostname with
  | .dnsResolutionError => return .reject ⟨hostname, .dnsFailure, none, "dns-failure".toList⟩
  | .otherError => .error .resolver
  | .resolved resolved => evaluateRecords casing hostname snapshot permanent defaultPrivate resolved

/-- A `*.suffix` entry stands for the names below `suffix`, outside strict mode. -/
def HostMatches (strictMode : Bool) (hostname entry : Text) : Prop :=
  (∃ rest label, entry = '*' :: '.' :: rest ∧ strictMode = false ∧ label ≠ [] ∧
    hostname = label ++ '.' :: rest) ∨ (¬ ['*', '.'] <+: entry ∧ entry = hostname)

structure Admissible (casing : LowerCasing) (url : Url) (snapshot : SafeHttpPolicySnapshot)
    (resolved : List ResolvedAddress) : Prop where
  notPermanentHost : casing.toLowerCase url.hostname ∉ permanentBlockedHostnames
  notBlockedHost : ∀ entry ∈ snapshot.blockedHosts,
    ¬ HostMatches snapshot.strictMode (casing.toLowerCase url.hostname) entry
  nonempty : resolved ≠ []
  parses : ∀ addr ∈ resolved, ∃ ip, parseIp casing addr.address = .ok (some ip)
  notBlocked : ∀ addr ∈ resolved, ∀ ip, parseIp casing addr.address = .ok (some ip) →
    ∀ entry ∈ permanentBlockedCidrs ++ snapshot.blockedCidrs, ¬ InEntry casing entry ip
  vouched : (∃ entry ∈ snapshot.allowedHosts,
      HostMatches snapshot.strictMode (casing.toLowerCase url.hostname) entry) ∨
    ∀ addr ∈ resolved, ∀ ip, parseIp casing addr.address = .ok (some ip) →
      (∃ entry ∈ snapshot.allowedCidrs, InEntry casing entry ip) ∨
      ∀ entry ∈ defaultPrivateCidrs, ¬ InEntry casing entry ip

theorem wildcard_iff (hostname rest : Text) :
  ((('*' :: '.' :: rest).drop 1).isSuffixOf hostname &&
   ((('*' :: '.' :: rest).drop 1).length < hostname.length : Bool)) = true ↔
  ∃ label, label ≠ [] ∧ hostname = label ++ '.' :: rest := by
 simp only [List.drop_succ_cons, List.drop_zero, Bool.and_eq_true, List.isSuffixOf_iff_suffix,
  decide_eq_true_eq]
 constructor
 · rintro ⟨⟨label, rfl⟩, hlt⟩
   refine ⟨label, ?_, rfl⟩
   rintro rfl
   simp at hlt
 · rintro ⟨label, hne, rfl⟩
   refine ⟨⟨label, rfl⟩, ?_⟩
   have := List.length_pos_of_ne_nil hne
   simp only [List.length_append]
   omega

theorem hostnameMatchesAny_iff (hostname : Text) (list : List Text) (strictMode : Bool) :
  hostnameMatchesAny hostname list (!strictMode) = true ↔
   ∃ entry ∈ list, HostMatches strictMode hostname entry := by
 induction list with
 | nil => simp [hostnameMatchesAny]
 | cons entry rest ih =>
  rw [hostnameMatchesAny]
  simp only [List.mem_cons, exists_eq_or_imp, ← ih]
  split
  · rename_i hpre
    obtain ⟨tail, rfl⟩ := List.isPrefixOf_iff_prefix.1 hpre
    have hmatch : HostMatches strictMode hostname (['*', '.'] ++ tail) ↔
      strictMode = false ∧ ∃ label, label ≠ [] ∧ hostname = label ++ '.' :: tail := by
     constructor
     · rintro (⟨rest', label, hrest, hstrict, hne, hhost⟩ | ⟨hno, -⟩)
       · simp only [List.cons_append, List.nil_append, List.cons.injEq, true_and] at hrest
         exact ⟨hstrict, label, hne, hrest ▸ hhost⟩
       · exact absurd (List.prefix_append _ _) hno
     · rintro ⟨hstrict, label, hne, hhost⟩
       exact .inl ⟨tail, label, rfl, hstrict, hne, hhost⟩
    have hwild := wildcard_iff hostname tail
    rw [hmatch, ← hwild]
    cases strictMode with
    | true => simp
    | false =>
     simp only [Bool.not_false, Bool.true_and, true_and, List.cons_append, List.nil_append]
     split
     · rename_i hyes
       exact ⟨fun _ => .inl hyes, fun _ => rfl⟩
     · rename_i hno
       simp only [hno, Bool.false_eq_true, false_or]
  · rename_i hpre
    have hno : ¬ ['*', '.'] <+: entry := by simpa using hpre
    have hmatch : HostMatches strictMode hostname entry ↔ entry = hostname := by
     constructor
     · rintro (⟨rest', label, rfl, -⟩ | ⟨-, heq⟩)
       · exact absurd ⟨rest', rfl⟩ hno
       · exact heq
     · exact fun heq => .inr ⟨hno, heq⟩
    rw [hmatch]
    by_cases heq : entry = hostname
    · simp [heq]
    · simp [heq]

/-- The constant lists are ASCII, so every reading of `toLowerCase` parses them alike. -/
theorem parseIp_ascii (casing : LowerCasing) {s : Text} (h : ∀ c ∈ s, c.toNat < 128) :
  parseIp casing s = parseIp asciiLowerCasing s := by
 have hlower : casing.toLowerCase s = asciiLowerCasing.toLowerCase s := casing.ascii s h
 simp only [parseIp, hlower]

theorem parseCidr_ascii (casing : LowerCasing) {s : Text} (h : ∀ c ∈ s, c.toNat < 128) :
  parseCidr casing s = parseCidr asciiLowerCasing s := by
 unfold parseCidr
 split
 · rfl
 · rename_i addrPart prefixPart hcut
   have hs := cutFirst_some hcut
   have haddr : ∀ c ∈ addrPart, c.toNat < 128 := fun c hc => h c (by simp [hs, hc])
   rw [parseIp_ascii casing haddr]

theorem parseCidrList_ascii (casing : LowerCasing) (entries : List Text)
  (h : ∀ entry ∈ entries, ∀ c ∈ entry, c.toNat < 128) :
  parseCidrList casing entries = parseCidrList asciiLowerCasing entries := by
 induction entries with
 | nil => rfl
 | cons entry rest ih =>
  rw [parseCidrList, parseCidrList, parseCidr_ascii casing (h entry (by simp)),
   ih fun e he => h e (List.mem_cons_of_mem _ he)]

theorem constants_parse (casing : LowerCasing) :
  (∃ cidrs, parseCidrList casing permanentBlockedCidrs = .ok cidrs) ∧
   ∃ cidrs, parseCidrList casing defaultPrivateCidrs = .ok cidrs := by
 have hparsed : ∀ entries, (parseCidrList asciiLowerCasing entries).isOk = true →
   ∃ cidrs, parseCidrList asciiLowerCasing entries = .ok cidrs := by
  intro entries hok
  cases hcidrs : parseCidrList asciiLowerCasing entries with
  | error e => simp [hcidrs, Except.isOk, Except.toBool] at hok
  | ok cidrs => exact ⟨cidrs, rfl⟩
 have hascii : ∀ entries : List Text, (entries.all fun entry => entry.all fun c => c.toNat < 128) = true →
   ∀ entry ∈ entries, ∀ c ∈ entry, c.toNat < 128 := by
  intro entries h
  simpa only [List.all_eq_true, decide_eq_true_eq] using h
 rw [parseCidrList_ascii casing permanentBlockedCidrs (hascii _ (by decide)),
  parseCidrList_ascii casing defaultPrivateCidrs (hascii _ (by decide))]
 exact ⟨hparsed _ (by decide), hparsed _ (by decide)⟩

section Records

variable {casing : LowerCasing} {hostname : Text} {resolved : List ResolvedAddress}

theorem blockPass_iff {permanent adminBlocked : List ParsedCidr} {entries : List Text}
  (hsome : ∀ ip : ParsedIp, 8 * ip.bytes.length = maxPrefix ip.family →
   ((findContainingCidr permanent ip).isSome = true ∨
    (findContainingCidr adminBlocked ip).isSome = true ↔
    ∃ entry ∈ entries, InEntry casing entry ip)) :
  blockPass casing hostname permanent adminBlocked resolved = .ok none ↔
   ∀ addr ∈ resolved, ∃ ip, parseIp casing addr.address = .ok (some ip) ∧
    ∀ entry ∈ entries, ¬ InEntry casing entry ip := by
 induction resolved with
 | nil => simp [blockPass]
 | cons addr rest ih =>
  simp only [List.forall_mem_cons, blockPass]
  cases hip : parseIp casing addr.address with
  | error e => simp [liftRange, bind, Except.bind]
  | ok found =>
   cases found with
   | none => simp [liftRange, bind, Except.bind, pure, Except.pure]
   | some ip =>
    have hlists := hsome ip (parseIp_bytes_length hip)
    have hclear : (∃ ip', Except.ok (some ip) = (Except.ok (some ip') :
      Except RangeError (Option ParsedIp)) ∧ ∀ entry ∈ entries, ¬ InEntry casing entry ip') ↔
      ¬ ((findContainingCidr permanent ip).isSome = true ∨
       (findContainingCidr adminBlocked ip).isSome = true) := by
     rw [hlists]
     simp
    rw [hclear, ← ih]
    simp only [liftRange, bind, Except.bind]
    cases findContainingCidr permanent ip with
    | some hit =>
     simp only [pure, Except.pure]
     split <;> simp
    | none =>
     cases findContainingCidr adminBlocked ip with
     | some hit => simp [pure, Except.pure]
     | none => simp

theorem allowPass_cons {hostOnAllowedList : Bool} {adminAllowed defaultPrivate : List ParsedCidr}
  {pinned : Pinned} {addr : ResolvedAddress} {ip : ParsedIp}
  (hip : parseIp casing addr.address = .ok (some ip)) :
  ((hostOnAllowedList = true ∨ (findContainingCidr adminAllowed ip).isSome = true ∨
    ¬ (findContainingCidr defaultPrivate ip).isSome = true) ∧
   allowPass casing hostname hostOnAllowedList adminAllowed defaultPrivate pinned
    (addr :: resolved) = allowPass casing hostname hostOnAllowedList adminAllowed defaultPrivate
    (pinned.or (some (some ip))) resolved) ∨
  (¬ (hostOnAllowedList = true ∨ (findContainingCidr adminAllowed ip).isSome = true ∨
    ¬ (findContainingCidr defaultPrivate ip).isSome = true) ∧
   ∃ rejected, allowPass casing hostname hostOnAllowedList adminAllowed defaultPrivate pinned
    (addr :: resolved) = .ok (.inl rejected)) := by
 simp only [allowPass, hip, liftRange, bind, Except.bind]
 cases hostOnAllowedList with
 | true => exact .inl ⟨.inl rfl, rfl⟩
 | false =>
  by_cases hallow : (findContainingCidr adminAllowed ip).isSome = true
  · exact .inl ⟨.inr (.inl hallow), by simp only [hallow, Bool.false_eq_true, ↓reduceIte]⟩
  · simp only [hallow, Bool.false_eq_true, ↓reduceIte, false_or]
    cases findContainingCidr defaultPrivate ip with
    | none => exact .inl ⟨by simp, rfl⟩
    | some hit =>
     refine .inr ⟨by simp, ?_⟩
     simp only [pure, Except.pure]
     split
     · exact ⟨_, rfl⟩
     · exact ⟨_, rfl⟩

theorem allowPass_iff {hostOnAllowedList : Bool} {adminAllowed defaultPrivate : List ParsedCidr}
  (pinned : Pinned) (final : Pinned)
  (hparse : ∀ addr ∈ resolved, ∃ ip, parseIp casing addr.address = .ok (some ip)) :
  allowPass casing hostname hostOnAllowedList adminAllowed defaultPrivate pinned resolved =
    .ok (.inr final) ↔
   (∀ addr ∈ resolved, ∀ ip, parseIp casing addr.address = .ok (some ip) →
    hostOnAllowedList = true ∨ (findContainingCidr adminAllowed ip).isSome = true ∨
     ¬ (findContainingCidr defaultPrivate ip).isSome = true) ∧
   pinned.or (resolved.head?.map fun addr => (parseIp casing addr.address).toOption.join) =
    final := by
 induction resolved generalizing pinned with
 | nil => simp [allowPass]
 | cons addr rest ih =>
  obtain ⟨ip, hip⟩ := hparse addr (by simp)
  have hrest := ih (pinned.or (some (some ip))) fun a ha => hparse a (List.mem_cons_of_mem _ ha)
  have hpin : (pinned.or (some (some ip))).or (rest.head?.map fun addr =>
    (parseIp casing addr.address).toOption.join) = pinned.or (some (some ip)) := by
   cases pinned <;> simp
  rw [hpin] at hrest
  simp only [List.forall_mem_cons, List.head?_cons, Option.map_some, hip, Except.toOption,
   Option.join_some, Except.ok.injEq, Option.some.injEq, forall_eq']
  rcases @allowPass_cons casing hostname rest hostOnAllowedList adminAllowed defaultPrivate pinned
   addr ip hip with ⟨hpass, heq⟩ | ⟨hfail, rejected, heq⟩
  · rw [heq, hrest]
    simp only [hpass, true_and]
  · rw [heq]
    simp only [hfail, false_and, Except.ok.injEq, reduceCtorEq]

end Records

def ListsOverflow (casing : LowerCasing) (snapshot : SafeHttpPolicySnapshot) : Prop :=
  ∃ entry ∈ snapshot.blockedCidrs ++ snapshot.allowedCidrs, EntryOverflows casing entry

def Allows (outcome : Except EvaluateError IpPolicyDecision) : Prop :=
  ∃ decision, outcome = .ok (.allow decision)

def Blocked (casing : LowerCasing) (snapshot : SafeHttpPolicySnapshot) (address : Text) : Prop :=
  ∃ ip, parseIp casing address = .ok (some ip) ∧
    ∃ entry ∈ permanentBlockedCidrs ++ snapshot.blockedCidrs, InEntry casing entry ip

section Decision

variable {casing : LowerCasing} {url : Url} {snapshot : SafeHttpPolicySnapshot}
  {permanent defaultPrivate adminBlocked adminAllowed : List ParsedCidr}
  {resolved : List ResolvedAddress}

theorem admissible_iff_passes (hprivate : parseCidrList casing defaultPrivateCidrs = .ok defaultPrivate)
  (hallowed : parseCidrList casing snapshot.allowedCidrs = .ok adminAllowed)
  (hhost : casing.toLowerCase url.hostname ∉ permanentBlockedHostnames)
  (hblockedHost : ¬ hostnameMatchesAny (casing.toLowerCase url.hostname) snapshot.blockedHosts
   (!snapshot.strictMode) = true) (hne : resolved ≠ []) :
  Admissible casing url snapshot resolved ↔
   (∀ addr ∈ resolved, ∃ ip, parseIp casing addr.address = .ok (some ip) ∧
    ∀ entry ∈ permanentBlockedCidrs ++ snapshot.blockedCidrs, ¬ InEntry casing entry ip) ∧
   ∀ addr ∈ resolved, ∀ ip, parseIp casing addr.address = .ok (some ip) →
    hostnameMatchesAny (casing.toLowerCase url.hostname) snapshot.allowedHosts
      (!snapshot.strictMode) = true ∨
     (findContainingCidr adminAllowed ip).isSome = true ∨
     ¬ (findContainingCidr defaultPrivate ip).isSome = true := by
 have hin : ∀ addr ip, parseIp casing addr = .ok (some ip) →
   (((findContainingCidr adminAllowed ip).isSome = true ∨
     ¬ (findContainingCidr defaultPrivate ip).isSome = true) ↔
    (∃ entry ∈ snapshot.allowedCidrs, InEntry casing entry ip) ∨
     ∀ entry ∈ defaultPrivateCidrs, ¬ InEntry casing entry ip) := by
  intro addr ip hip
  rw [findContainingCidr_iff hallowed (parseIp_bytes_length hip),
   findContainingCidr_iff hprivate (parseIp_bytes_length hip)]
  simp only [not_exists, not_and]
 rw [hostnameMatchesAny_iff] at hblockedHost ⊢
 constructor
 · intro h
   refine ⟨fun addr haddr => ?_, fun addr haddr ip hip => ?_⟩
   · obtain ⟨ip, hip⟩ := h.parses addr haddr
     exact ⟨ip, hip, h.notBlocked addr haddr ip hip⟩
   · rcases h.vouched with hhostAllowed | hall
     · exact .inl hhostAllowed
     · exact .inr ((hin _ ip hip).2 (hall addr haddr ip hip))
 · rintro ⟨hclear, hvouched⟩
   refine ⟨hhost, ?_, hne, fun addr haddr => ?_, fun addr haddr ip hip => ?_, ?_⟩
   · exact fun entry hentry hmatch => hblockedHost ⟨entry, hentry, hmatch⟩
   · obtain ⟨ip, hip, -⟩ := hclear addr haddr
     exact ⟨ip, hip⟩
   · obtain ⟨ip', hip', hno⟩ := hclear addr haddr
     rw [hip] at hip'
     cases hip'
     exact hno
   · by_cases hhostAllowed : ∃ entry ∈ snapshot.allowedHosts,
       HostMatches snapshot.strictMode (casing.toLowerCase url.hostname) entry
     · exact .inl hhostAllowed
     · refine .inr fun addr haddr ip hip => (hin _ ip hip).1 ?_
       exact (hvouched addr haddr ip hip).resolve_left hhostAllowed

theorem blockPass_clear_iff (hostname : Text)
  (hpermanent : parseCidrList casing permanentBlockedCidrs = .ok permanent)
  (hblocked : parseCidrList casing snapshot.blockedCidrs = .ok adminBlocked) :
  blockPass casing hostname permanent adminBlocked resolved = .ok none ↔
   ∀ addr ∈ resolved, ∃ ip, parseIp casing addr.address = .ok (some ip) ∧
    ∀ entry ∈ permanentBlockedCidrs ++ snapshot.blockedCidrs, ¬ InEntry casing entry ip := by
 apply blockPass_iff
 intro ip hip
 rw [findContainingCidr_iff hpermanent hip, findContainingCidr_iff hblocked hip]
 simp only [List.mem_append, or_and_right, exists_or]

theorem evaluateRecords_allows
  (hpermanent : parseCidrList casing permanentBlockedCidrs = .ok permanent)
  (hprivate : parseCidrList casing defaultPrivateCidrs = .ok defaultPrivate)
  (hhost : casing.toLowerCase url.hostname ∉ permanentBlockedHostnames)
  (hblockedHost : ¬ hostnameMatchesAny (casing.toLowerCase url.hostname) snapshot.blockedHosts
   (!snapshot.strictMode) = true) (decision : IpPolicyAllow) :
  evaluateRecords casing (casing.toLowerCase url.hostname) snapshot permanent defaultPrivate
    resolved = .ok (.allow decision) ↔
   (¬ ListsOverflow casing snapshot ∧ Admissible casing url snapshot resolved) ∧
   ∃ addr ip, resolved.head? = some addr ∧ parseIp casing addr.address = .ok (some ip) ∧
    decision = ⟨casing.toLowerCase url.hostname, ip.canonical, ip.family⟩ := by
 have hover : ListsOverflow casing snapshot ↔
   (∃ e, parseCidrList casing snapshot.blockedCidrs = .error e) ∨
    ∃ e, parseCidrList casing snapshot.allowedCidrs = .error e := by
  rw [parseCidrList_error_iff, parseCidrList_error_iff]
  simp only [ListsOverflow, List.mem_append, or_and_right, exists_or]
 rw [hover]
 by_cases hne : resolved = []
 · simp [evaluateRecords, hne, pure, Except.pure]
 have hempty : resolved.isEmpty = false := by simpa using hne
 simp only [evaluateRecords, hempty, Bool.false_eq_true, ↓reduceIte, bind, Except.bind]
 cases hblocked : parseCidrList casing snapshot.blockedCidrs with
 | error e => exact ⟨nofun, fun h => absurd (.inl ⟨e, rfl⟩) h.1.1⟩
 | ok adminBlocked =>
  cases hallowed : parseCidrList casing snapshot.allowedCidrs with
  | error e => exact ⟨nofun, fun h => absurd (.inr ⟨e, rfl⟩) h.1.1⟩
  | ok adminAllowed =>
   have hparsed : ¬ ((∃ e : RangeError, Except.ok adminBlocked = .error e) ∨
     ∃ e : RangeError, Except.ok adminAllowed = .error e) := by simp
   simp only [liftRange, hparsed, not_false_eq_true, true_and]
   rw [admissible_iff_passes hprivate hallowed hhost hblockedHost hne,
    ← blockPass_clear_iff (casing.toLowerCase url.hostname) hpermanent hblocked]
   cases hpass : blockPass casing (casing.toLowerCase url.hostname) permanent adminBlocked
     resolved with
   | error e => simp
   | ok verdict =>
    cases verdict with
    | some rejected => simp [pure, Except.pure]
    | none =>
     have hclear := (blockPass_clear_iff _ hpermanent hblocked).1 hpass
     have hparse : ∀ addr ∈ resolved, ∃ ip, parseIp casing addr.address = .ok (some ip) := by
      intro addr haddr
      obtain ⟨ip, hip, -⟩ := hclear addr haddr
      exact ⟨ip, hip⟩
     obtain ⟨first, rest, rfl⟩ := List.exists_cons_of_ne_nil hne
     obtain ⟨ip, hip⟩ := hparse first (by simp)
     have hrun := fun final => @allowPass_iff casing (casing.toLowerCase url.hostname) (first :: rest)
      (hostnameMatchesAny (casing.toLowerCase url.hostname) snapshot.allowedHosts
       !snapshot.strictMode) adminAllowed defaultPrivate none final hparse
     have hhead : (∃ addr ip', (first :: rest).head? = some addr ∧
       parseIp casing addr.address = .ok (some ip') ∧
       decision = ⟨casing.toLowerCase url.hostname, ip'.canonical, ip'.family⟩) ↔
       decision = ⟨casing.toLowerCase url.hostname, ip.canonical, ip.family⟩ := by
      simp [hip]
     rw [hhead]
     simp only [List.head?_cons, Option.map_some, hip, Except.toOption, Option.join_some,
      Option.none_or] at hrun
     simp only [true_and]
     cases hallow : allowPass casing (casing.toLowerCase url.hostname)
       (hostnameMatchesAny (casing.toLowerCase url.hostname) snapshot.allowedHosts
        !snapshot.strictMode) adminAllowed defaultPrivate none (first :: rest) with
     | error e =>
      refine ⟨nofun, fun h => ?_⟩
      have := (hrun _).2 ⟨h.1, rfl⟩
      simp [hallow] at this
     | ok result =>
      cases result with
      | inl rejected =>
       refine ⟨nofun, fun h => ?_⟩
       have := (hrun _).2 ⟨h.1, rfl⟩
       simp [hallow] at this
      | inr final =>
       obtain ⟨hvouched, rfl⟩ := (hrun final).1 hallow
       simp only [pure, Except.pure, Except.ok.injEq, IpPolicyDecision.allow.injEq]
       exact ⟨fun h => ⟨hvouched, h.symm⟩, fun h => h.2.symm⟩

theorem evaluate_allows {resolveAll : Text → DnsAnswer}
  (hscheme : url.protocol = "http:".toList ∨ url.protocol = "https:".toList)
  (hdns : resolveAll (casing.toLowerCase url.hostname) = .resolved resolved)
  (decision : IpPolicyAllow) :
  evaluate casing resolveAll url snapshot = .ok (.allow decision) ↔
   (¬ ListsOverflow casing snapshot ∧ Admissible casing url snapshot resolved) ∧
   ∃ addr ip, resolved.head? = some addr ∧ parseIp casing addr.address = .ok (some ip) ∧
    decision = ⟨casing.toLowerCase url.hostname, ip.canonical, ip.family⟩ := by
 obtain ⟨⟨permanent, hpermanent⟩, defaultPrivate, hprivate⟩ := constants_parse casing
 have hscheme' : ¬ (url.protocol ≠ "http:".toList ∧ url.protocol ≠ "https:".toList) := by tauto
 simp only [evaluate, hpermanent, hprivate, liftRange, bind, Except.bind, List.contains_iff_mem]
 rw [if_neg hscheme']
 by_cases hhost : casing.toLowerCase url.hostname ∈ permanentBlockedHostnames
 · rw [if_pos hhost]
   exact ⟨nofun, fun h => absurd hhost h.1.2.notPermanentHost⟩
 rw [if_neg hhost]
 by_cases hblockedHost : hostnameMatchesAny (casing.toLowerCase url.hostname)
   snapshot.blockedHosts (!snapshot.strictMode) = true
 · rw [if_pos hblockedHost]
   refine ⟨nofun, fun h => ?_⟩
   obtain ⟨entry, hentry, hmatch⟩ := (hostnameMatchesAny_iff _ _ _).1 hblockedHost
   exact absurd hmatch (h.1.2.notBlockedHost entry hentry)
 rw [if_neg hblockedHost, hdns]
 exact evaluateRecords_allows hpermanent hprivate hhost hblockedHost decision

/-- The contract of `evaluate` on one request: it allows what is admissible, it
    pins the first record, and no allow list opens a blocked address. -/
structure MeetsContract (casing : LowerCasing) (resolveAll : Text → DnsAnswer) (url : Url)
    (snapshot : SafeHttpPolicySnapshot) (resolved : List ResolvedAddress) : Prop where
  allows_iff : Allows (evaluate casing resolveAll url snapshot) ↔
    Admissible casing url snapshot resolved
  pins : ∀ decision, evaluate casing resolveAll url snapshot = .ok (.allow decision) →
    ∃ addr ip, resolved.head? = some addr ∧ parseIp casing addr.address = .ok (some ip) ∧
      decision.pinnedIp = ip.canonical ∧ decision.pinnedFamily = ip.family
  noRescue : ∀ allowedHosts allowedCidrs, ∀ addr ∈ resolved, Blocked casing snapshot addr.address →
    ¬ Allows (evaluate casing resolveAll url
      { snapshot with allowedHosts := allowedHosts, allowedCidrs := allowedCidrs })

theorem evaluate_contract_iff (casing : LowerCasing) (resolveAll : Text → DnsAnswer) (url : Url)
    (snapshot : SafeHttpPolicySnapshot) (resolved : List ResolvedAddress)
    (hscheme : url.protocol = "http:".toList ∨ url.protocol = "https:".toList)
    (hdns : resolveAll (casing.toLowerCase url.hostname) = .resolved resolved) :
    MeetsContract casing resolveAll url snapshot resolved ↔
      ¬ ListsOverflow casing snapshot ∨ ¬ Admissible casing url snapshot resolved := by
 have hallows : ∀ snapshot : SafeHttpPolicySnapshot,
   Allows (evaluate casing resolveAll url snapshot) ↔
    ¬ ListsOverflow casing snapshot ∧ Admissible casing url snapshot resolved := by
  intro snapshot
  constructor
  · rintro ⟨decision, h⟩
    exact ((evaluate_allows hscheme hdns decision).1 h).1
  · intro h
    obtain ⟨first, rest, hcons⟩ := List.exists_cons_of_ne_nil h.2.nonempty
    obtain ⟨ip, hip⟩ := h.2.parses first (by simp [hcons])
    exact ⟨_, (evaluate_allows hscheme hdns _).2 ⟨h, first, ip, by simp [hcons], hip, rfl⟩⟩
 constructor
 · intro h
   by_contra hneither
   push Not at hneither
   exact ((hallows snapshot).1 (h.allows_iff.2 hneither.2)).1 hneither.1
 · intro hcond
   refine ⟨?_, ?_, ?_⟩
   · rw [hallows]
     tauto
   · intro decision h
     obtain ⟨-, addr, ip, hfirst, hip, rfl⟩ := (evaluate_allows hscheme hdns decision).1 h
     exact ⟨addr, ip, hfirst, hip, rfl, rfl⟩
   · rintro allowedHosts allowedCidrs addr haddr ⟨ip, hip, entry, hentry, hin⟩ hallow
     exact ((hallows _).1 hallow).2.notBlocked addr haddr ip hip entry hentry hin

end Decision

/-- `SafeHttpPolicyService` keeps the entries that parse. -/
def filterValidCidrs (casing : LowerCasing) : List Text → Except RangeError (List Text)
  | [] => .ok []
  | entry :: rest => do
    let parsed ← parseCidr casing entry
    let valid ← filterValidCidrs casing rest
    return if parsed.isSome then entry :: valid else valid

def normalize (casing : LowerCasing) (row : SafeHttpPolicySnapshot) :
    Except RangeError SafeHttpPolicySnapshot := do
  let allowedCidrs ← filterValidCidrs casing row.allowedCidrs
  let blockedCidrs ← filterValidCidrs casing row.blockedCidrs
  return ⟨row.strictMode, row.allowedHosts.map casing.toLowerCase, allowedCidrs,
    row.blockedHosts.map casing.toLowerCase, blockedCidrs⟩

theorem filterValidCidrs_parses {casing : LowerCasing} {entries valid : List Text}
  (h : filterValidCidrs casing entries = .ok valid) :
  ∀ entry ∈ valid, ¬ EntryOverflows casing entry := by
 induction entries generalizing valid with
 | nil =>
  cases h
  simp
 | cons entry rest ih =>
  simp only [filterValidCidrs, bind, Except.bind] at h
  cases hentry : parseCidr casing entry with
  | error e => simp [hentry] at h
  | ok parsed =>
   cases hrest : filterValidCidrs casing rest with
   | error e => simp [hentry, hrest] at h
   | ok kept =>
    have hparses : ¬ EntryOverflows casing entry := by
     rw [← parseCidr_error_iff, hentry]
     rintro ⟨e, he⟩
     cases he
    simp only [hentry, hrest, pure, Except.pure, Except.ok.injEq] at h
    rw [← h]
    split
    · exact List.forall_mem_cons.2 ⟨hparses, ih hrest⟩
    · exact ih hrest

/-- A snapshot the policy service installed never makes `evaluate` throw. -/
theorem normalize_not_overflowing {casing : LowerCasing} {row snapshot : SafeHttpPolicySnapshot}
    (h : normalize casing row = .ok snapshot) : ¬ ListsOverflow casing snapshot := by
 simp only [normalize, bind, Except.bind] at h
 cases hallowed : filterValidCidrs casing row.allowedCidrs with
 | error e => simp [hallowed] at h
 | ok allowedCidrs =>
  cases hblocked : filterValidCidrs casing row.blockedCidrs with
  | error e => simp [hallowed, hblocked] at h
  | ok blockedCidrs =>
   simp only [hallowed, hblocked, pure, Except.pure, Except.ok.injEq] at h
   subst h
   rintro ⟨entry, hentry, hover⟩
   rcases List.mem_append.1 hentry with hentry | hentry
   · exact filterValidCidrs_parses hblocked entry hentry hover
   · exact filterValidCidrs_parses hallowed entry hentry hover

def publicRecord : ResolvedAddress := ⟨"93.184.216.34".toList, .v4⟩

def publicUrl : Url := ⟨"https:".toList, "example.com".toList⟩

def publicResolver (_ : Text) : DnsAnswer := .resolved [publicRecord]

def blocking (blockedCidrs : List Text) : SafeHttpPolicySnapshot := ⟨true, [], [], [], blockedCidrs⟩

theorem normalize_not_overflowing_kept :
  ¬ ListsOverflow asciiLowerCasing (blocking ["10.0.0.0/8".toList]) := by
 have hkept : filterValidCidrs asciiLowerCasing ["10.0.0.0/8".toList, "ten".toList] = .ok
  ["10.0.0.0/8".toList] := by
  decide +kernel
 have hnormalized : normalize asciiLowerCasing (blocking ["10.0.0.0/8".toList, "ten".toList]) =
   .ok (blocking ["10.0.0.0/8".toList]) := by
  simp only [normalize, blocking, hkept]
  rfl
 exact normalize_not_overflowing hnormalized

def zonedEntry : Text := "::1%a:b:c:d:e:f:g:h:i/64".toList

theorem zonedEntry_overflows : EntryOverflows asciiLowerCasing zonedEntry := by
 rw [← parseCidr_error_iff]
 exact ⟨.invalidArrayLength, by decide⟩

theorem publicRecord_admissible :
  Admissible asciiLowerCasing publicUrl (blocking []) [publicRecord] := by
 have h : evaluate asciiLowerCasing publicResolver publicUrl (blocking []) =
   .ok (.allow ⟨"example.com".toList, "93.184.216.34".toList, .v4⟩) := by decide +kernel
 exact ((evaluate_allows (.inr rfl) rfl _).1 h).1.2

theorem evaluate_contract_at_ten_slash_eight :
    MeetsContract asciiLowerCasing publicResolver publicUrl
      (blocking ["10.0.0.0/8".toList]) [publicRecord] := by
 refine (evaluate_contract_iff _ _ _ _ _ (.inr rfl) rfl).2 (.inl ?_)
 rintro ⟨entry, hentry, hover⟩
 obtain rfl : entry = "10.0.0.0/8".toList := by simpa [blocking] using hentry
 obtain ⟨e, he⟩ := (parseCidr_error_iff _ _).2 hover
 have hparse : parseCidr asciiLowerCasing "10.0.0.0/8".toList =
   .ok (some ⟨.v4, [10, 0, 0, 0], 8⟩) := by decide +kernel
 rw [hparse] at he
 cases he

/-- One overflowing entry refuses every request, admissible or not. -/
theorem evaluate_throws_on_zonedEntry :
    evaluate asciiLowerCasing publicResolver publicUrl (blocking [zonedEntry]) =
        .error (.rangeError .invalidArrayLength) ∧
      Admissible asciiLowerCasing publicUrl (blocking [zonedEntry]) [publicRecord] ∧
      ¬ MeetsContract asciiLowerCasing publicResolver publicUrl (blocking [zonedEntry])
        [publicRecord] := by
 have hthrow : evaluate asciiLowerCasing publicResolver publicUrl (blocking [zonedEntry]) =
   .error (.rangeError .invalidArrayLength) := by decide +kernel
 have hadm : Admissible asciiLowerCasing publicUrl (blocking [zonedEntry]) [publicRecord] := by
  have h := publicRecord_admissible
  refine ⟨h.notPermanentHost, h.notBlockedHost, h.nonempty, h.parses, ?_, h.vouched⟩
  intro addr haddr ip hip entry hentry hin
  rcases List.mem_append.1 hentry with hperm | hzoned
  · exact h.notBlocked addr haddr ip hip entry (List.mem_append_left _ hperm) hin
  · obtain rfl : entry = zonedEntry := by simpa [blocking] using hzoned
    obtain ⟨cidr, hcidr⟩ := denotes_parses hin.choose_spec.1
    obtain ⟨e, he⟩ := (parseCidr_error_iff _ _).2 zonedEntry_overflows
    rw [he] at hcidr
    cases hcidr
 refine ⟨hthrow, hadm, fun h => ?_⟩
 obtain ⟨decision, hallow⟩ := h.allows_iff.2 hadm
 rw [hthrow] at hallow
 cases hallow

end BoardGamesEmpire.SecureHttpIpPolicy
