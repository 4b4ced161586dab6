import BoardGamesEmpire.SecureHttpIpRoundTrip

set_option autoImplicit false

/-!
# CIDR ranges of the secure HTTP client

The byte-wise mask and comparison of the code, and the range of addresses an
entry denotes, stated on the address taken as one number.
-/
namespace BoardGamesEmpire.SecureHttpCidr
open JsText SecureHttpIp SecureHttpIpRoundTrip

structure ParsedCidr where
  family : IpFamily
  baseBytes : List UInt8
  prefixLength : ℕ
deriving DecidableEq, Repr

/-- `(0xff << (8 - bits)) & 0xff`. -/
def prefixMask (bits : ℕ) : UInt8 := UInt8.ofNat (0xff <<< (8 - bits))

def applyPrefixMask : List UInt8 → ℕ → List UInt8
  | [], _ => []
  | b :: bytes, bitsRemaining =>
    if 8 ≤ bitsRemaining then b :: applyPrefixMask bytes (bitsRemaining - 8)
    else if bitsRemaining = 0 then 0 :: applyPrefixMask bytes 0
    else (b &&& prefixMask bitsRemaining) :: applyPrefixMask bytes 0

def maxPrefix : IpFamily → ℕ
  | .v4 => 32
  | .v6 => 128

/-- `none` is the code's `null`; the error is what the address parser throws. -/
def parseCidr (casing : LowerCasing) (input : Text) : Except RangeError (Option ParsedCidr) :=
  match cutFirst ['/'] input with
  | none => .ok none
  | some (addrPart, prefixPart) =>
    match parseInt prefixPart 10 with
    | none => .ok none
    | some prefixLength =>
      if prefixLength < 0 then .ok none
      else
        (parseIp casing addrPart).map fun
          | none => none
          | some ip =>
            if (maxPrefix ip.family : ℤ) < prefixLength then none
            else some ⟨ip.family, applyPrefixMask ip.bytes prefixLength.toNat, prefixLength.toNat⟩

def cidrContains (cidr : ParsedCidr) (ip : ParsedIp) : Bool :=
  let masked := applyPrefixMask ip.bytes cidr.prefixLength
  cidr.family == ip.family &&
    (List.range masked.length).all fun i => masked[i]? == cidr.baseBytes[i]?

def parseCidrList (casing : LowerCasing) : List Text → Except RangeError (List ParsedCidr)
  | [] => .ok []
  | entry :: rest => do
    let parsed ← parseCidr casing entry
    let result ← parseCidrList casing rest
    return parsed.toList ++ result

def findContainingCidr (cidrs : List ParsedCidr) (ip : ParsedIp) : Option ParsedCidr :=
  cidrs.find? fun cidr => cidrContains cidr ip

def addressNumber (bytes : List UInt8) : ℕ := bytes.foldl (fun n b => n * 256 + b.toNat) 0

/-- A range of addresses: those that share the leading `prefixLength` bits. -/
structure Range where
  family : IpFamily
  base : ℕ
  prefixLength : ℕ

def Range.Contains (range : Range) (ip : ParsedIp) : Prop :=
  range.family = ip.family ∧
    addressNumber ip.bytes / 2 ^ (maxPrefix range.family - range.prefixLength) =
      range.base / 2 ^ (maxPrefix range.family - range.prefixLength)

/-- `entry` reads `address/prefix` with a prefix its family allows. -/
def Denotes (casing : LowerCasing) (entry : Text) (range : Range) : Prop :=
  ∃ addrPart prefixPart ip, cutFirst ['/'] entry = some (addrPart, prefixPart) ∧
    parseInt prefixPart 10 = some (range.prefixLength : ℤ) ∧
    parseIp casing addrPart = .ok (some ip) ∧ range.prefixLength ≤ maxPrefix range.family ∧
    range.family = ip.family ∧ range.base = addressNumber ip.bytes

def InEntry (casing : LowerCasing) (entry : Text) (ip : ParsedIp) : Prop :=
  ∃ range, Denotes casing entry range ∧ range.Contains ip

/-- An IPv6 literal whose zone carries so many colons that more than eight
    groups stand around its `::`. -/
def Overflows (casing : LowerCasing) (s : Text) : Prop :=
  isIPv4 (casing.toLowerCase s) = false ∧ isIPv6 (casing.toLowerCase s) = true ∧
    ∃ left right, cutFirst [':', ':'] (normalizeTail (casing.toLowerCase s)) = some (left, right) ∧
      8 < (groupsOf left).length + (groupsOf right).length

def EntryOverflows (casing : LowerCasing) (entry : Text) : Prop :=
  ∃ addrPart prefixPart prefixLength, cutFirst ['/'] entry = some (addrPart, prefixPart) ∧
    parseInt prefixPart 10 = some prefixLength ∧ 0 ≤ prefixLength ∧ Overflows casing addrPart

theorem addressNumber_append (n : ℕ) (bytes : List UInt8) :
  bytes.foldl (fun n b => n * 256 + b.toNat) n =
   n * 2 ^ (8 * bytes.length) + addressNumber bytes := by
 unfold addressNumber
 induction bytes generalizing n with
 | nil => simp
 | cons b bytes ih =>
  simp only [List.foldl_cons, List.length_cons]
  rw [ih (n * 256 + b.toNat), ih (0 * 256 + b.toNat), Nat.mul_add 8, pow_add]
  ring

theorem addressNumber_cons (b : UInt8) (bytes : List UInt8) :
  addressNumber (b :: bytes) = b.toNat * 2 ^ (8 * bytes.length) + addressNumber bytes := by
 rw [addressNumber, List.foldl_cons, addressNumber_append]
 simp

theorem addressNumber_lt (bytes : List UInt8) : addressNumber bytes < 2 ^ (8 * bytes.length) := by
 induction bytes with
 | nil => simp [addressNumber]
 | cons b bytes ih =>
  have hb := b.toNat_lt
  rw [addressNumber_cons, List.length_cons, Nat.mul_add 8, pow_add]
  have : (b.toNat + 1) * 2 ^ (8 * bytes.length) ≤ 2 ^ 8 * 2 ^ (8 * bytes.length) :=
   Nat.mul_le_mul_right _ (by omega)
  rw [Nat.add_mul] at this
  omega

theorem applyPrefixMask_length (bytes : List UInt8) (bits : ℕ) :
  (applyPrefixMask bytes bits).length = bytes.length := by
 induction bytes generalizing bits with
 | nil => rfl
 | cons b bytes ih =>
  unfold applyPrefixMask
  split_ifs <;> simp [ih]

theorem applyPrefixMask_zero (a b : List UInt8) (h : a.length = b.length) :
  applyPrefixMask a 0 = applyPrefixMask b 0 := by
 induction a generalizing b with
 | nil =>
  cases b with
  | nil => rfl
  | cons y b => simp at h
 | cons x a ih =>
  cases b with
  | nil => simp at h
  | cons y b => simp [applyPrefixMask, ih b (by simpa using h)]

theorem prefixMask_eq_iff {bits : ℕ} (h0 : bits ≠ 0) (h8 : bits < 8) (x y : UInt8) :
  x &&& prefixMask bits = y &&& prefixMask bits ↔
   x.toNat / 2 ^ (8 - bits) = y.toNat / 2 ^ (8 - bits) := by
 have hmask : ∀ bits < 8, bits ≠ 0 → ∀ n < 256,
   (n &&& (prefixMask bits).toNat) = n / 2 ^ (8 - bits) * 2 ^ (8 - bits) := by decide +kernel
 rw [← UInt8.toNat_inj, UInt8.toNat_and, UInt8.toNat_and,
  hmask bits h8 h0 _ x.toNat_lt, hmask bits h8 h0 _ y.toNat_lt]
 exact Nat.mul_left_inj (by positivity)

theorem leadingBits_first {bits : ℕ} (h8 : bits < 8) (b : UInt8) (bytes : List UInt8) :
  addressNumber (b :: bytes) / 2 ^ (8 * (bytes.length + 1) - bits) =
   b.toNat / 2 ^ (8 - bits) := by
 have hexp : 8 * (bytes.length + 1) - bits = 8 * bytes.length + (8 - bits) := by omega
 have hrest := Nat.div_eq_of_lt (addressNumber_lt bytes)
 rw [addressNumber_cons, hexp, pow_add, ← Nat.div_div_eq_div_mul, Nat.mul_comm,
  Nat.mul_add_div (by positivity), hrest, Nat.add_zero]

theorem leadingBits_cons {bits : ℕ} (h8 : 8 ≤ bits) (b : UInt8) (bytes : List UInt8)
  (hbits : bits ≤ 8 * (bytes.length + 1)) :
  addressNumber (b :: bytes) / 2 ^ (8 * (bytes.length + 1) - bits) =
   2 ^ (bits - 8) * b.toNat + addressNumber bytes / 2 ^ (8 * bytes.length - (bits - 8)) := by
 have hexp : 8 * (bytes.length + 1) - bits = 8 * bytes.length - (bits - 8) := by omega
 have hpow : 2 ^ (8 * bytes.length) =
   2 ^ (8 * bytes.length - (bits - 8)) * 2 ^ (bits - 8) := by
  rw [← pow_add]
  congr 1
  omega
 rw [addressNumber_cons, hexp, Nat.mul_comm b.toNat, hpow, Nat.mul_assoc,
  Nat.mul_add_div (by positivity)]

theorem leadingBits_lt {bits : ℕ} (bytes : List UInt8) (hbits : bits ≤ 8 * bytes.length) :
  addressNumber bytes / 2 ^ (8 * bytes.length - bits) < 2 ^ bits := by
 rw [Nat.div_lt_iff_lt_mul (by positivity), ← pow_add]
 have : bits + (8 * bytes.length - bits) = 8 * bytes.length := by omega
 rw [this]
 exact addressNumber_lt bytes

theorem mul_add_inj {n q r q' r' : ℕ} (hr : r < n) (hr' : r' < n) :
  n * q + r = n * q' + r' ↔ q = q' ∧ r = r' := by
 constructor
 · intro heq
   have hquot := congrArg (· / n) heq
   have hrem := congrArg (· % n) heq
   simp only [Nat.mul_add_div (by omega : n > 0), Nat.mul_add_mod, Nat.div_eq_of_lt hr,
    Nat.div_eq_of_lt hr', Nat.mod_eq_of_lt hr, Nat.mod_eq_of_lt hr', Nat.add_zero] at hquot hrem
   exact ⟨hquot, hrem⟩
 · rintro ⟨rfl, rfl⟩
   rfl

theorem applyPrefixMask_eq_iff (a b : List UInt8) (bits : ℕ) (hlen : a.length = b.length)
  (hbits : bits ≤ 8 * a.length) : applyPrefixMask a bits = applyPrefixMask b bits ↔
   addressNumber a / 2 ^ (8 * a.length - bits) = addressNumber b / 2 ^ (8 * b.length - bits) := by
 induction a generalizing b bits with
 | nil =>
  cases b with
  | nil => simp
  | cons y b => simp at hlen
 | cons x a ih =>
  cases b with
  | nil => simp at hlen
  | cons y b =>
   have hlen' : a.length = b.length := by simpa using hlen
   simp only [List.length_cons] at hbits ⊢
   unfold applyPrefixMask
   by_cases h8 : 8 ≤ bits
   · rw [leadingBits_cons h8 x a hbits, leadingBits_cons h8 y b (by omega),
      mul_add_inj (leadingBits_lt a (by omega)) (leadingBits_lt b (by omega))]
     simp only [h8, ↓reduceIte, List.cons.injEq]
     rw [ih b (bits - 8) hlen' (by omega), UInt8.toNat_inj]
   · rw [leadingBits_first (by omega), leadingBits_first (by omega)]
     by_cases h0 : bits = 0
     · have hx : x.toNat / 256 = 0 := Nat.div_eq_of_lt x.toNat_lt
       have hy : y.toNat / 256 = 0 := Nat.div_eq_of_lt y.toNat_lt
       simp [h0, hx, hy, applyPrefixMask_zero a b hlen']
     · simp only [h8, h0, ↓reduceIte, List.cons.injEq, applyPrefixMask_zero a b hlen', and_true]
       exact prefixMask_eq_iff h0 (by omega) x y

variable {casing : LowerCasing}

theorem parseIp_bytes_length {s : Text} {ip : ParsedIp}
  (h : parseIp casing s = .ok (some ip)) : 8 * ip.bytes.length = maxPrefix ip.family := by
 rcases parseIp_cases h with ⟨lower, -, rfl⟩ | ⟨bytes, hlen, rfl⟩ | ⟨bytes, hlen, -, rfl⟩
 · simp [ipv4ToBytes, maxPrefix]
 · simp [hlen, maxPrefix]
 · simp [hlen, maxPrefix]

theorem expandGroups_error_iff (normalized : Text) :
  (∃ e, expandGroups normalized = .error e) ↔
   ∃ left right, cutFirst [':', ':'] normalized = some (left, right) ∧
    8 < (groupsOf left).length + (groupsOf right).length := by
 unfold expandGroups
 cases hcut : cutFirst [':', ':'] normalized with
 | none => simp
 | some cut =>
  obtain ⟨left, right⟩ := cut
  simp only [Option.some.injEq, Prod.mk.injEq]
  split
  · rename_i hneg
    exact ⟨fun _ => ⟨left, right, ⟨rfl, rfl⟩, by omega⟩, fun _ => ⟨_, rfl⟩⟩
  · rename_i hpos
    constructor
    · rintro ⟨e, he⟩
      cases he
    · rintro ⟨l, r, ⟨rfl, rfl⟩, hlt⟩
      omega

theorem except_map_error_iff {ε α β : Type} (f : α → β) (x : Except ε α) :
  (∃ e, x.map f = .error e) ↔ ∃ e, x = .error e := by
 cases x with
 | error e => simp [Except.map]
 | ok a => simp [Except.map]

theorem parseIp_error_iff (casing : LowerCasing) (s : Text) :
  (∃ e, parseIp casing s = .error e) ↔ Overflows casing s := by
 unfold parseIp Overflows
 simp only
 split
 · rename_i hv4
   simp [hv4]
 · rename_i hv4
   split
   · rename_i hv6
     rw [except_map_error_iff, ipv6ToBytes, except_map_error_iff, expandGroups_error_iff]
     simp [hv4, hv6]
   · rename_i hv6
     simp [hv6]

theorem parseCidr_error_iff (casing : LowerCasing) (entry : Text) :
  (∃ e, parseCidr casing entry = .error e) ↔ EntryOverflows casing entry := by
 unfold parseCidr EntryOverflows
 split
 · rename_i hcut
   simp [hcut]
 · rename_i addrPart prefixPart hcut
   split
   · rename_i hint
     simp only [hcut, Option.some.injEq, Prod.mk.injEq]
     constructor
     · rintro ⟨e, he⟩
       cases he
     · rintro ⟨a, p, n, ⟨rfl, rfl⟩, hn, -⟩
       simp [hint] at hn
   · rename_i n hint
     split
     · rename_i hneg
       constructor
       · rintro ⟨e, he⟩
         cases he
       · rintro ⟨a, p, n', hcut', hn, hpos, -⟩
         simp only [hcut, Option.some.injEq, Prod.mk.injEq] at hcut'
         obtain ⟨rfl, rfl⟩ := hcut'
         rw [hint] at hn
         cases hn
         omega
     · rename_i hpos
       rw [except_map_error_iff, parseIp_error_iff]
       constructor
       · intro hover
         exact ⟨addrPart, prefixPart, n, hcut, hint, by omega, hover⟩
       · rintro ⟨a, p, n', hcut', hn, -, hover⟩
         simp only [hcut, Option.some.injEq, Prod.mk.injEq] at hcut'
         obtain ⟨rfl, rfl⟩ := hcut'
         exact hover

variable {entry : Text}

theorem parseCidr_some {cidr : ParsedCidr}
  (h : parseCidr casing entry = .ok (some cidr)) : ∃ ip : ParsedIp,
   Denotes casing entry ⟨cidr.family, addressNumber ip.bytes, cidr.prefixLength⟩ ∧
   8 * ip.bytes.length = maxPrefix cidr.family ∧
   cidr.baseBytes = applyPrefixMask ip.bytes cidr.prefixLength := by
 unfold parseCidr at h
 split at h
 · cases h
 · rename_i addrPart prefixPart hcut
   split at h
   · cases h
   · rename_i n hint
     split at h
     · cases h
     · rename_i hpos
       cases hip : parseIp casing addrPart with
       | error e => simp [hip, Except.map] at h
       | ok found =>
        cases found with
        | none => simp [hip, Except.map] at h
        | some ip =>
         simp only [hip, Except.map, Except.ok.injEq] at h
         split at h
         · cases h
         · rename_i hmax
           cases h
           refine ⟨ip, ⟨addrPart, prefixPart, ip, hcut, ?_, hip, ?_, rfl, rfl⟩,
            parseIp_bytes_length hip, rfl⟩
           · simpa [Int.toNat_of_nonneg (by omega : 0 ≤ n)] using hint
           · simp only
             omega

theorem denotes_unique {a b : Range}
  (ha : Denotes casing entry a) (hb : Denotes casing entry b) : a = b := by
 obtain ⟨addr, pre, ip, hcut, hint, hip, -, hfam, hbase⟩ := ha
 obtain ⟨addr', pre', ip', hcut', hint', hip', -, hfam', hbase'⟩ := hb
 rw [hcut] at hcut'
 cases hcut'
 rw [hint] at hint'
 rw [hip] at hip'
 cases hip'
 cases a
 cases b
 simp_all

theorem denotes_parses {range : Range}
  (h : Denotes casing entry range) : ∃ cidr, parseCidr casing entry = .ok (some cidr) := by
 obtain ⟨addr, pre, ip, hcut, hint, hip, hmax, hfam, -⟩ := h
 refine ⟨⟨ip.family, applyPrefixMask ip.bytes range.prefixLength, range.prefixLength⟩, ?_⟩
 rw [hfam] at hmax
 simp only [parseCidr, hcut, hint, hip, Except.map]
 rw [if_neg (by omega), if_neg (by omega)]
 simp

theorem masked_eq_iff (a b : List UInt8) (h : a.length = b.length) :
  ((List.range a.length).all fun i => a[i]? == b[i]?) = true ↔ a = b := by
 simp only [List.all_eq_true, List.mem_range, beq_iff_eq]
 constructor
 · intro hall
   apply List.ext_getElem? 
   intro i
   by_cases hi : i < a.length
   · exact hall i hi
   · rw [List.getElem?_eq_none (by omega), List.getElem?_eq_none (by omega)]
 · rintro rfl i _
   rfl

theorem cidrContains_iff {cidr : ParsedCidr} (h : parseCidr casing entry = .ok (some cidr))
  {ip : ParsedIp} (hip : 8 * ip.bytes.length = maxPrefix ip.family) :
  cidrContains cidr ip = true ↔ InEntry casing entry ip := by
 obtain ⟨base, hden, hlen, hbase⟩ := parseCidr_some h
 have hentry : InEntry casing entry ip ↔
   Range.Contains ⟨cidr.family, addressNumber base.bytes, cidr.prefixLength⟩ ip := by
  constructor
  · rintro ⟨range, hrange, hin⟩
    exact denotes_unique hrange hden ▸ hin
  · exact fun hin => ⟨_, hden, hin⟩
 rw [hentry]
 simp only [cidrContains, Bool.and_eq_true, beq_iff_eq, Range.Contains, and_congr_right_iff]
 intro hfam
 have hsame : ip.bytes.length = base.bytes.length := by
  rw [hfam] at hlen
  omega
 have hmax : cidr.prefixLength ≤ 8 * ip.bytes.length := by
  obtain ⟨_, _, _, -, -, -, hle, -, -⟩ := hden
  simp only [hfam] at hle
  omega
 rw [hbase, masked_eq_iff _ _ (by simp [applyPrefixMask_length, hsame]),
  applyPrefixMask_eq_iff _ _ _ hsame hmax, hlen, hip, hfam]

theorem parseCidrList_error_iff (casing : LowerCasing) (entries : List Text) :
  (∃ e, parseCidrList casing entries = .error e) ↔
   ∃ entry ∈ entries, EntryOverflows casing entry := by
 induction entries with
 | nil => simp [parseCidrList]
 | cons entry rest ih =>
  have hentry := parseCidr_error_iff casing entry
  simp only [parseCidrList, List.mem_cons, exists_eq_or_imp, ← hentry, ← ih]
  cases parseCidr casing entry with
  | error e => exact ⟨fun _ => .inl ⟨e, rfl⟩, fun _ => ⟨e, rfl⟩⟩
  | ok parsed =>
   cases parseCidrList casing rest with
   | error e => simp [bind, Except.bind]
   | ok result => simp [bind, Except.bind, pure, Except.pure]

theorem mem_parseCidrList {entries : List Text} {cidrs : List ParsedCidr}
  (h : parseCidrList casing entries = .ok cidrs) (cidr : ParsedCidr) :
  cidr ∈ cidrs ↔ ∃ entry ∈ entries, parseCidr casing entry = .ok (some cidr) := by
 induction entries generalizing cidrs with
 | nil =>
  cases h
  simp
 | cons entry rest ih =>
  simp only [parseCidrList, bind, Except.bind] at h
  cases hentry : parseCidr casing entry with
  | error e => simp [hentry] at h
  | ok parsed =>
   cases hrest : parseCidrList casing rest with
   | error e => simp [hentry, hrest] at h
   | ok result =>
    simp only [hentry, hrest, pure, Except.pure, Except.ok.injEq] at h
    rw [← h]
    simp [ih hrest, hentry, eq_comm]

theorem findContainingCidr_iff {entries : List Text}
  {cidrs : List ParsedCidr} (h : parseCidrList casing entries = .ok cidrs) {ip : ParsedIp}
  (hip : 8 * ip.bytes.length = maxPrefix ip.family) :
  (findContainingCidr cidrs ip).isSome = true ↔ ∃ entry ∈ entries, InEntry casing entry ip := by
 simp only [findContainingCidr, List.find?_isSome]
 constructor
 · rintro ⟨cidr, hcidr, hin⟩
   obtain ⟨entry, hentry, hparsed⟩ := (mem_parseCidrList h cidr).1 hcidr
   exact ⟨entry, hentry, (cidrContains_iff hparsed hip).1 hin⟩
 · rintro ⟨entry, hentry, hin⟩
   obtain ⟨cidr, hparsed⟩ := denotes_parses hin.choose_spec.1
   exact ⟨cidr, (mem_parseCidrList h cidr).2 ⟨entry, hentry, hparsed⟩,
    (cidrContains_iff hparsed hip).2 hin⟩

end BoardGamesEmpire.SecureHttpCidr
