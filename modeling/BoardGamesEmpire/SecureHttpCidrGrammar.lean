import BoardGamesEmpire.SecureHttpCidr
import BoardGamesEmpire.SecureHttpIpZoneReads

set_option autoImplicit false

/-!
# The grammar of CIDR entries

What an entry is as an admin writes it, and that `parseCidr` accepts just these
and loses none of their bits. Prefix texts that `parseInt` reads past a plain
number, zones that change the address and IPv4-mapped literals stay out.
-/
namespace BoardGamesEmpire.SecureHttpCidr
open JsText SecureHttpIp SecureHttpIpRoundTrip SecureHttpIpZones

section Grammar

def PlainNumber (t : Text) : Prop := t ≠ [] ∧ ∀ c ∈ t, isDigit 10 c = true

def IsLiteral (lower : Text) : Prop := isIPv4 lower = true ∨ isIPv6 lower = true

def literalFamily (lower : Text) : IpFamily := if isIPv4 lower then .v4 else .v6

def literalBytes (lower : Text) : List UInt8 :=
  if isIPv4 lower then (lower.splitOn '.').map fun octet => UInt8.ofNat (numberOf 10 octet)
  else rfcBytes (addressOf lower)

/-- A literal in any case, one slash and a plain number within its family. -/
structure WellFormed (casing : LowerCasing) (entry address : Text) (prefixLength : ℕ) : Prop where
  written : ∃ digits, entry = address ++ '/' :: digits ∧ '/' ∉ address ∧ PlainNumber digits ∧
    numberOf 10 digits = prefixLength
  literal : IsLiteral (casing.toLowerCase address)
  bound : prefixLength ≤ maxPrefix (literalFamily (casing.toLowerCase address))

/-- The sixteen bytes of an address, with IPv4 in `::ffff:0:0/96`. -/
def mappedForm : IpFamily → List UInt8 → List UInt8
  | .v4, bytes => List.replicate 10 0 ++ [0xff, 0xff] ++ bytes
  | .v6, bytes => bytes

def mappedPrefix : IpFamily → ℕ → ℕ
  | .v4, prefixLength => 96 + prefixLength
  | .v6, prefixLength => prefixLength

/-- Two addresses of sixteen bytes agree on the first `bits` bits. -/
def SharesBits (bits : ℕ) (a b : List UInt8) : Prop :=
  addressNumber a / 2 ^ (128 - bits) = addressNumber b / 2 ^ (128 - bits)

/-- The parts of an entry are read for what they are: no prefix that is accepted
    out of a text with more in it, no zone that changes the address, no mapped
    literal. -/
def Readable (casing : LowerCasing) (entry : Text) : Prop :=
  ∀ address digits, cutFirst ['/'] entry = some (address, digits) →
    (∀ n : ℕ, parseInt digits 10 = some (n : ℤ) → IsLiteral (casing.toLowerCase address) →
      n ≤ maxPrefix (literalFamily (casing.toLowerCase address)) → PlainNumber digits) ∧
    (isIPv6 (casing.toLowerCase address) = true →
      isIpv4Mapped (literalBytes (casing.toLowerCase address)) = false ∧
        ∀ zone, zoneOf (casing.toLowerCase address) = some zone →
          HarmlessZone (addressOf (casing.toLowerCase address)) zone)

end Grammar

section Prefix

variable {digits : Text} {n : ℕ}

theorem toNumber_large {v r : ℕ} (hv : 2 ^ 53 ≤ v) (h : toNumber v = some r) : 2 ^ 52 ≤ r := by
 rw [toNumber, if_neg (by omega)] at h
 have hfinite : ∀ {limit rounded : ℕ}, (if rounded < limit then some rounded else none) = some r →
  rounded = r := by
  intro limit rounded hsome
  split at hsome
  · exact Option.some.inj hsome
  · cases hsome
 have hlog : 53 ≤ Nat.log2 v := (Nat.le_log2 (by omega)).2 hv
 have hpow : 2 ^ (Nat.log2 v - 52) * 2 ^ 52 ≤ v := by
  rw [← pow_add, Nat.sub_add_cancel (by omega)]
  exact Nat.log2_self_le (by omega)
 have hquot : 2 ^ 52 ≤ v / 2 ^ (Nat.log2 v - 52) :=
  (Nat.le_div_iff_mul_le (by positivity)).2 (by rwa [Nat.mul_comm])
 have hulp : 1 ≤ 2 ^ (Nat.log2 v - 52) := Nat.one_le_two_pow
 rw [← hfinite h]
 calc 2 ^ 52 ≤ v / 2 ^ (Nat.log2 v - 52) * 1 := by omega
  _ ≤ _ := Nat.mul_le_mul (by split <;> omega) hulp

theorem parseInt_bounded (h : PlainNumber digits) {bound : ℕ} (hbound : bound ≤ 128) :
  (parseInt digits 10 = some (n : ℤ) ∧ n ≤ bound) ↔ numberOf 10 digits = n ∧ n ≤ bound := by
 have hparse : parseInt digits 10 = (toNumber (numberOf 10 digits)).map fun n : ℕ => (n : ℤ) :=
  parseInt_digits (by omega) h.1 h.2
 rw [hparse]
 by_cases hsmall : numberOf 10 digits < 2 ^ 53
 · rw [toNumber, if_pos hsmall, Option.map_some, Option.some.injEq, Nat.cast_inj]
 · refine iff_of_false (fun hboth => ?_) fun hboth => by omega
   obtain ⟨r, hr, hrn⟩ := Option.map_eq_some_iff.1 hboth.1
   have hlarge := toNumber_large (by omega) hr
   have : r = n := by exact_mod_cast hrn
   omega

end Prefix

section Literals

variable {casing : LowerCasing} {address : Text}

theorem ipv4ToBytes_octets {lower : Text} (h : isIPv4 lower = true) :
  ipv4ToBytes lower = (lower.splitOn '.').map fun octet => UInt8.ofNat (numberOf 10 octet) := by
 obtain ⟨a, b, c, d, hparts, ha, hb, hc, hd⟩ := quad_parts h
 have hbyte : ∀ {octet : Text}, isOctet octet = true → toUint8 (parseInt octet 10) = UInt8.ofNat
  (numberOf 10 octet) := by
  intro octet hoctet
  rw [← octet_byte hoctet, UInt8.ofNat_toNat]
 simp only [ipv4ToBytes, hparts]
 simp [List.range_succ, hbyte ha, hbyte hb, hbyte hc, hbyte hd]

theorem parseIp_literal (h : isIPv6 (casing.toLowerCase address) = true →
   isIpv4Mapped (literalBytes (casing.toLowerCase address)) = false ∧
    ∀ zone, zoneOf (casing.toLowerCase address) = some zone →
     HarmlessZone (addressOf (casing.toLowerCase address)) zone) :
  (IsLiteral (casing.toLowerCase address) → ∃ canonical, parseIp casing address = .ok (some
   ⟨literalFamily (casing.toLowerCase address), canonical,
    literalBytes (casing.toLowerCase address), false⟩)) ∧
  (¬ IsLiteral (casing.toLowerCase address) → parseIp casing address = .ok none) := by
 generalize hlower : casing.toLowerCase address = lower at h
 constructor
 · intro hliteral
   by_cases hv4 : isIPv4 lower = true
   · refine ⟨lower, ?_⟩
     simp only [parseIp, hlower, hv4, if_true, literalFamily, literalBytes, ipv4ToBytes_octets hv4]
   · have hv6 := hliteral.resolve_left hv4
     obtain ⟨hmapped, hzone⟩ := h hv6
     rw [literalBytes, if_neg hv4] at hmapped
     have hread := (reads_iff hv6).2 hzone
     refine ⟨bytesToCanonicalIpv6 (rfcBytes (addressOf lower)), ?_⟩
     simp only [parseIp, hlower, hv4, hv6, if_true, hread, Except.map, hmapped, literalFamily,
      literalBytes, Bool.false_eq_true,
      if_false]
 · intro hnot
   rw [IsLiteral, not_or] at hnot
   simp only [parseIp, hlower, if_neg hnot.1, if_neg hnot.2]

end Literals

section Entries

variable {casing : LowerCasing} {entry address : Text} {n : ℕ}

theorem cutFirst_slash {digits : Text} : cutFirst ['/'] entry = some (address, digits) ↔
  entry = address ++ '/' :: digits ∧ '/' ∉ address := by
 constructor
 · intro hcut
   refine ⟨by simpa using cutFirst_some hcut, ?_⟩
   induction entry generalizing address with
   | nil => simp [cutFirst] at hcut
   | cons c entry ih =>
    rw [cutFirst] at hcut
    split at hcut
    · obtain ⟨rfl, -⟩ : [] = address ∧ _ := by simpa using hcut
      exact List.not_mem_nil
    · next hpre =>
      obtain ⟨inner, hinner, heq⟩ := Option.map_eq_some_iff.1 hcut
      obtain ⟨rfl, hdigits⟩ : c :: inner.1 = address ∧ inner.2 = digits := by simpa using heq
      have hc : '/' ≠ c := fun h => hpre (List.cons_prefix_cons.2 ⟨h, List.nil_prefix⟩)
      rw [List.mem_cons, not_or]
      have hsame : cutFirst ['/'] entry = some (inner.1, digits) := by rw [hinner, ← hdigits]
      exact ⟨hc, ih hsame⟩
 · rintro ⟨rfl, hfree⟩
   rw [cutFirst_append hfree]
   simp [cutFirst]

theorem maxPrefix_le (family : IpFamily) : maxPrefix family ≤ 128 := by
 cases family <;> decide

theorem wellFormed_iff (h : Readable casing entry) : WellFormed casing entry address n ↔
  ∃ digits canonical, cutFirst ['/'] entry = some (address, digits) ∧ parseInt digits 10 = some (n : ℤ) ∧
   parseIp casing address = .ok (some
    ⟨literalFamily (casing.toLowerCase address), canonical,
     literalBytes (casing.toLowerCase address), false⟩) ∧
   n ≤ maxPrefix (literalFamily (casing.toLowerCase address)) := by
 constructor
 · rintro ⟨⟨digits, hentry, hfree, hplain, hvalue⟩, hliteral, hbound⟩
   have hcut := cutFirst_slash.2 ⟨hentry, hfree⟩
   obtain ⟨canonical, hparse⟩ := (parseIp_literal (h address digits hcut).2).1 hliteral
   have hread := (parseInt_bounded hplain (maxPrefix_le _)).2 ⟨hvalue, hbound⟩
   exact ⟨digits, canonical, hcut, hread.1, hparse, hbound⟩
 · rintro ⟨digits, canonical, hcut, hread, hparse, hbound⟩
   obtain ⟨hentry, hfree⟩ := cutFirst_slash.1 hcut
   obtain ⟨hplain, hzone⟩ := h address digits hcut
   have hliteral : IsLiteral (casing.toLowerCase address) := by
    by_contra hnot
    rw [(parseIp_literal hzone).2 hnot] at hparse
    cases hparse
   have hdigits : PlainNumber digits := hplain n hread hliteral hbound
   have hvalue := (parseInt_bounded hdigits (maxPrefix_le _)).1 ⟨hread, hbound⟩
   exact ⟨⟨digits, hentry, hfree, hdigits, hvalue.1⟩, hliteral, hbound⟩

theorem WellFormed.denotes (hwell : WellFormed casing entry address n) (h : Readable casing entry) :
  Denotes casing entry
  ⟨literalFamily (casing.toLowerCase address),
   addressNumber (literalBytes (casing.toLowerCase address)), n⟩ := by
 obtain ⟨digits, canonical, hcut, hread, hparse, hbound⟩ := (wellFormed_iff h).1 hwell
 exact ⟨address, digits, _, hcut, hread, hparse, hbound, rfl, rfl⟩

theorem denotes_wellFormed (h : Readable casing entry) {range : Range}
  (hrange : Denotes casing entry range) :
  ∃ address n, WellFormed casing entry address n := by
 obtain ⟨address, digits, ip, hcut, hread, hparse, hbound, hfamily, -⟩ := hrange
 have hliteral := parseIp_literal (h address digits hcut).2
 by_cases his : IsLiteral (casing.toLowerCase address)
 · obtain ⟨canonical, hsame⟩ := hliteral.1 his
   rw [hsame] at hparse
   obtain rfl := Option.some.inj (Except.ok.inj hparse)
   rw [hfamily] at hbound
   exact ⟨address, range.prefixLength,
    (wellFormed_iff h).2 ⟨digits, canonical, hcut, hread, hsame, hbound⟩⟩
 · rw [hliteral.2 his] at hparse
   cases hparse

theorem readable_parses (h : Readable casing entry) :
  ∃ result, parseCidr casing entry = .ok result := by
 cases hparse : parseCidr casing entry with
 | ok result => exact ⟨result, rfl⟩
 | error e =>
  obtain ⟨address, digits, -, hcut, -, -, hover⟩ := (parseCidr_error_iff casing entry).1 ⟨e, hparse⟩
  obtain ⟨e', herror⟩ := (parseIp_error_iff casing address).2 hover
  have hliteral := parseIp_literal (h address digits hcut).2
  by_cases his : IsLiteral (casing.toLowerCase address)
  · obtain ⟨canonical, hsame⟩ := hliteral.1 his
    rw [hsame] at herror
    cases herror
  · rw [hliteral.2 his] at herror
    cases herror

end Entries

section Bits

variable {bytes : List UInt8} {n : ℕ}

theorem addressNumber_inj {a b : List UInt8} (hlen : a.length = b.length)
  (h : addressNumber a = addressNumber b) : a = b := by
 induction a generalizing b with
 | nil => exact (List.length_eq_zero_iff.1 hlen.symm).symm
 | cons x a ih =>
  cases b with
  | nil => simp at hlen
  | cons y b =>
   have hlen' : a.length = b.length := by simpa using hlen
   rw [addressNumber_cons, addressNumber_cons, hlen', Nat.mul_comm x.toNat, Nat.mul_comm y.toNat,
    mul_add_inj (hlen' ▸ addressNumber_lt a) (addressNumber_lt b), UInt8.toNat_inj] at h
   rw [h.1, ih hlen' h.2]

theorem addressNumber_split (a b : List UInt8) :
  addressNumber (a ++ b) = addressNumber a * 2 ^ (8 * b.length) + addressNumber b := by
 rw [← addressNumber_append, addressNumber, List.foldl_append]
 rfl

theorem mapped_number (h : bytes.length = 4) :
  addressNumber (mappedForm .v4 bytes) = 0xffff * 2 ^ 32 + addressNumber bytes := by
 have hfront : addressNumber (List.replicate 10 0 ++ [0xff, 0xff]) = 0xffff := by decide
 rw [mappedForm, addressNumber_split, hfront, h]

theorem mapped_of_front (hlen : bytes.length = 16) (h : addressNumber bytes / 2 ^ 32 = 0xffff) :
  isIpv4Mapped bytes = true := by
 have hfront : addressNumber (List.replicate 10 0 ++ [0xff, 0xff]) = 0xffff := by decide
 have hdrop : (bytes.drop 12).length = 4 := by simp [hlen]
 have hlt := addressNumber_lt (bytes.drop 12)
 rw [hdrop] at hlt
 have hsplit := addressNumber_split (bytes.take 12) (bytes.drop 12)
 rw [List.take_append_drop, hdrop] at hsplit
 have htake : bytes.take 12 = List.replicate 10 0 ++ [0xff, 0xff] := by
  apply addressNumber_inj (by simp [hlen])
  rw [hfront]
  omega
 rw [← List.take_append_drop 12 bytes, htake]
 simp [isIpv4Mapped, hlen]

theorem contains_iff_shares {casing : LowerCasing} {t : Text} {ip : ParsedIp} {family : IpFamily}
  (hlen : 8 * bytes.length = maxPrefix family) (hn : n ≤ maxPrefix family)
  (hip : parseIp casing t = .ok (some ip)) :
  Range.Contains ⟨family, addressNumber bytes, n⟩ ip ↔ (family = .v6 → ip.family = .v6) ∧
   SharesBits (mappedPrefix family n) (mappedForm family bytes) (mappedForm ip.family ip.bytes) := by
 have hiplen := parseIp_bytes_length hip
 have hunmapped : ip.family = .v6 → isIpv4Mapped ip.bytes = false := by
  intro hv6
  rcases parseIp_cases hip with ⟨lower, -, rfl⟩ | ⟨bytes, -, rfl⟩ | ⟨bytes, -, hnot, rfl⟩
  · cases hv6
  · cases hv6
  · exact hnot
 unfold Range.Contains
 cases family with
 | v6 =>
  cases hfamily : ip.family with
  | v4 => simp
  | v6 => simp [SharesBits, mappedPrefix, mappedForm, maxPrefix, eq_comm]
 | v4 =>
  have hbytes : bytes.length = 4 := by
   simp only [maxPrefix] at hlen
   omega
  simp only [maxPrefix] at hn
  have hexp : 128 - mappedPrefix .v4 n = 32 - n := by
   simp only [mappedPrefix]
   omega
  have hpow : 2 ^ 32 = 2 ^ (32 - n) * 2 ^ n := by rw [← pow_add, Nat.sub_add_cancel hn]
  cases hfamily : ip.family with
  | v4 =>
   rw [hfamily] at hiplen
   have hipbytes : ip.bytes.length = 4 := by
    simp only [maxPrefix] at hiplen
    omega
   have hquot : ∀ x, (0xffff * 2 ^ 32 + x) / 2 ^ (32 - n) = 0xffff * 2 ^ n + x / 2 ^ (32 - n) := by
    intro x
    have hmul : 0xffff * 2 ^ 32 = 2 ^ (32 - n) * (0xffff * 2 ^ n) := by rw [hpow]; ring
    rw [hmul, Nat.mul_add_div (by positivity)]
   rw [SharesBits, hexp, mapped_number hbytes, mapped_number hipbytes, hquot, hquot]
   simp [maxPrefix, eq_comm]
  | v6 =>
   rw [hfamily] at hiplen
   have hipbytes : ip.bytes.length = 16 := by
    simp only [maxPrefix] at hiplen
    omega
   refine iff_of_false (by simp) fun hboth => ?_
   have hshares := hboth.2
   rw [SharesBits, hexp, mapped_number hbytes] at hshares
   have hdiv := congrArg (· / 2 ^ n) hshares
   simp only [Nat.div_div_eq_div_mul, ← hpow] at hdiv
   have hlt := addressNumber_lt bytes
   rw [hbytes] at hlt
   have hfront : addressNumber ip.bytes / 2 ^ 32 = 0xffff := by
    rw [mappedForm] at hdiv
    omega
   rw [mapped_of_front hipbytes hfront] at hunmapped
   exact absurd (hunmapped hfamily) (by simp)

end Bits

/-- `parseCidr` accepts the grammar, and membership is agreement on the leading
    bits within a family. -/
theorem parseCidr_grammar (casing : LowerCasing) (entry : Text) (h : Readable casing entry) :
    (∃ result, parseCidr casing entry = .ok result ∧
      (result.isSome = true ↔ ∃ address n, WellFormed casing entry address n)) ∧
    ∀ cidr address n, parseCidr casing entry = .ok (some cidr) → WellFormed casing entry address n →
      ∀ t ip, parseIp casing t = .ok (some ip) → (cidrContains cidr ip = true ↔
        (literalFamily (casing.toLowerCase address) = .v6 → ip.family = .v6) ∧
          SharesBits (mappedPrefix (literalFamily (casing.toLowerCase address)) n)
            (mappedForm (literalFamily (casing.toLowerCase address))
             (literalBytes (casing.toLowerCase address)))
            (mappedForm ip.family ip.bytes)) := by
 constructor
 · obtain ⟨result, hresult⟩ := readable_parses h
   refine ⟨result, hresult, fun hsome => ?_, fun hwell => ?_⟩
   · obtain ⟨cidr, rfl⟩ := Option.isSome_iff_exists.1 hsome
     obtain ⟨ip, hdenotes, -⟩ := parseCidr_some hresult
     exact denotes_wellFormed h hdenotes
   · obtain ⟨address, n, hwell⟩ := hwell
     obtain ⟨cidr, hcidr⟩ := denotes_parses (hwell.denotes h)
     obtain rfl := Except.ok.inj (hresult.symm.trans hcidr)
     rfl
 · intro cidr address n hcidr hwell t ip hip
   have hdenotes := hwell.denotes h
   obtain ⟨digits, canonical, -, -, hparse, hbound⟩ := (wellFormed_iff h).1 hwell
   rw [cidrContains_iff hcidr (parseIp_bytes_length hip),
    ← contains_iff_shares (parseIp_bytes_length hparse) hbound hip]
   constructor
   · rintro ⟨range, hrange, hin⟩
     exact denotes_unique hrange hdenotes ▸ hin
   · exact fun hin => ⟨_, hdenotes, hin⟩

theorem uniqueLocal_readable : Readable asciiLowerCasing "FC00::/7".toList := by
 intro address digits hcut
 have hparts : cutFirst ['/'] "FC00::/7".toList = some ("FC00::".toList, "7".toList) := by decide
 obtain ⟨rfl, rfl⟩ : "FC00::".toList = address ∧
  "7".toList = digits := by simpa using hparts.symm.trans hcut
 refine ⟨fun _ _ _ _ => ⟨by decide, List.all_eq_true.1 (by decide)⟩, fun _ =>
  ⟨by decide, fun zone hzone => ?_⟩⟩
 have hnone : zoneOf (asciiLowerCasing.toLowerCase "FC00::".toList) = none := by decide
 rw [hnone] at hzone
 cases hzone

theorem uniqueLocal_contains : (∃ result, parseCidr asciiLowerCasing "FC00::/7".toList = .ok result ∧
      (result.isSome = true ↔ ∃ address n, WellFormed asciiLowerCasing "FC00::/7".toList address n)) ∧
    ∃ cidr ip, parseCidr asciiLowerCasing "FC00::/7".toList = .ok (some cidr) ∧
      parseIp asciiLowerCasing "fd00::5".toList = .ok (some ip) ∧
      (cidrContains cidr ip = true ↔
        (literalFamily (asciiLowerCasing.toLowerCase "FC00::".toList) = .v6 → ip.family = .v6) ∧
          SharesBits (mappedPrefix (literalFamily (asciiLowerCasing.toLowerCase "FC00::".toList)) 7)
            (mappedForm (literalFamily (asciiLowerCasing.toLowerCase "FC00::".toList))
              (literalBytes (asciiLowerCasing.toLowerCase "FC00::".toList)))
               (mappedForm ip.family ip.bytes)) := by
 have hgrammar := parseCidr_grammar asciiLowerCasing "FC00::/7".toList uniqueLocal_readable
 have hwell : WellFormed asciiLowerCasing "FC00::/7".toList "FC00::".toList 7 :=
  ⟨⟨"7".toList, by decide +kernel, by decide, ⟨by decide, List.all_eq_true.1 (by decide +kernel)⟩, by decide +kernel⟩,
   .inr (by decide +kernel), by decide +kernel⟩
 have hcidr : parseCidr asciiLowerCasing "FC00::/7".toList = .ok
  (some ⟨.v6, 0xfc :: List.replicate 15 0, 7⟩) := by
  decide +kernel
 have hip : parseIp asciiLowerCasing "fd00::5".toList =
   .ok (some ⟨.v6, "fd00::5".toList, 0xfd :: List.replicate 14 0 ++ [5], false⟩) := by decide +kernel
 exact ⟨hgrammar.1, _, _, hcidr, hip, hgrammar.2 _ _ _ hcidr hwell _ _ hip⟩

/-- The range of all IPv6 addresses holds no IPv4 address, though their mapped
    forms agree with it on its no bits. -/
theorem everyIpv6_excludes_ipv4 : ∃ cidr ip, parseCidr asciiLowerCasing "::/0".toList = .ok (some cidr) ∧
    WellFormed asciiLowerCasing "::/0".toList "::".toList 0 ∧
    parseIp asciiLowerCasing "1.2.3.4".toList = .ok (some ip) ∧
    SharesBits (mappedPrefix .v6 0) (mappedForm .v6 (literalBytes "::".toList))
     (mappedForm ip.family ip.bytes) ∧
    cidrContains cidr ip = false := by
 refine ⟨⟨.v6, List.replicate 16 0, 0⟩, ⟨.v4, "1.2.3.4".toList, [1, 2, 3, 4], false⟩, by decide +kernel,
  ⟨⟨"0".toList, by decide +kernel, by decide, ⟨by decide, List.all_eq_true.1 (by decide +kernel)⟩, by decide +kernel⟩, .inr (by decide +kernel), by decide +kernel⟩,
  by decide +kernel, ?_, by decide +kernel⟩
 rw [SharesBits]
 decide +kernel

end BoardGamesEmpire.SecureHttpCidr
