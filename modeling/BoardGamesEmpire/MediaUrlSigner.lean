import BoardGamesEmpire.JsonObject

set_option autoImplicit false

/-!
# Signatures over media URLs

A payload is written as one JSON document and the document is signed. Payloads
that mean different things are never the same document.
-/
namespace BoardGamesEmpire.MediaUrlSigner
open JsText JsonText

section Payloads

inductive StorageOp where
  | get
  | put
deriving DecidableEq

def StorageOp.text : StorageOp → Text
  | .get => "get".toList
  | .put => "put".toList

/-- A `Record<string, string>`. -/
structure Bindings where
  entries : List (Text × Text)
  distinct : (entries.map Prod.fst).Nodup

/-- A number of ECMAScript, its finite ones in `ν`, where 0 and -0 are one. -/
inductive JsNumber (ν : Type) where
  | finite (n : ν)
  | infinity
  | negativeInfinity
  | nan
deriving DecidableEq

/-- Numbers and their texts. A finite number is read back from its text, an
    integer below 10^21 prints its digits, and one of up to 53 bits is exact. -/
structure Numbers (ν : Type) extends NumberFormat ν where
  number : Text → JsNumber ν
  ofInt : ℤ → ν
  value : ν → ℚ
  number_print : ∀ n, number (print n) = .finite n
  print_ofInt : ∀ n : ℤ, |n| < 10 ^ 21 → ∃ digits : Text, digits ≠ [] ∧ digits.all Char.isDigit = true ∧
    (print (ofInt n) = digits ∨ print (ofInt n) = '-' :: digits)
  value_ofInt : ∀ n : ℤ, |n| ≤ 2 ^ 53 → value (ofInt n) = n

structure SignaturePayload (ν : Type) where
  slug : Text
  key : Text
  op : StorageOp
  expiresAt : JsNumber ν
  contentType : Option Text
  bindings : Option Bindings

variable {ν : Type}

/-- `payload.bindings ?? {}` as pairs. -/
def SignaturePayload.claims (payload : SignaturePayload ν) :
    List (Text × Text) := (payload.bindings.map Bindings.entries).getD []

def JsNumber.json : JsNumber ν → Json ν
  | .finite n => .num n
  | _ => .null

def SignaturePayload.document (payload : SignaturePayload ν) : Json ν :=
  .arr [.str payload.op.text, .str payload.slug, .str payload.key, payload.expiresAt.json,
   (payload.contentType.map Json.str).getD .null,
    .arr ((sortMembers payload.claims).map fun claim => .arr [.str claim.1, .str claim.2])]

def canonicalize (N : Numbers ν) (payload : SignaturePayload ν) : Text :=
    stringify N.toNumberFormat payload.document

structure Same (p q : SignaturePayload ν) : Prop where
  op : p.op = q.op
  slug : p.slug = q.slug
  key : p.key = q.key
  expiresAt : p.expiresAt = q.expiresAt
  contentType : p.contentType = q.contentType
  bindings : ∀ claim, claim ∈ p.claims ↔ claim ∈ q.claims

theorem StorageOp.text_injective {op op' : StorageOp} (h : op.text = op'.text) : op = op' := by
 cases op <;> cases op' <;> first | rfl | exact absurd h (by decide)

theorem SignaturePayload.claims_distinct (payload : SignaturePayload ν) :
  (payload.claims.map Prod.fst).Nodup := by
 unfold claims
 cases payload.bindings with
 | none => exact List.nodup_nil
 | some bindings => exact bindings.distinct

theorem contentJson_injective {a b : Option Text}
  (h : (a.map Json.str).getD .null = ((b.map Json.str).getD .null : Json ν)) : a = b := by
 cases a <;> cases b <;> simp_all

theorem claimJson_injective :
  Function.Injective fun claim : Text × Text => (Json.arr [.str claim.1, .str claim.2] : Json ν) := by
 rintro ⟨key, value⟩ ⟨key', value'⟩ h
 simpa using h

theorem canonicalize_eq_iff (N : Numbers ν) (p q : SignaturePayload ν) {n : ν}
  (hfinite : p.expiresAt = .finite n) :
  canonicalize N p = canonicalize N q ↔ Same p q := by
 constructor
 · intro h
   have hdocument := stringify_injective h
   simp only [SignaturePayload.document, Json.arr.injEq, List.cons.injEq, Json.str.injEq,
    and_true] at hdocument
   obtain ⟨hop, hslug, hkey, hexpiry, hcontent, hclaims⟩ := hdocument
   have hclaims := (List.map_injective_iff.2 claimJson_injective) hclaims
   refine ⟨StorageOp.text_injective hop, hslug, hkey, ?_, contentJson_injective hcontent, fun claim => ?_⟩
   · rw [hfinite] at hexpiry ⊢
     cases hq : q.expiresAt with
     | finite m =>
       rw [hq] at hexpiry
       cases hexpiry
       rfl
     | infinity => rw [hq] at hexpiry; cases hexpiry
     | negativeInfinity => rw [hq] at hexpiry; cases hexpiry
     | nan => rw [hq] at hexpiry; cases hexpiry
   · rw [← (sortMembers_perm p.claims).mem_iff, hclaims, (sortMembers_perm q.claims).mem_iff]
 · intro h
   have hperm : p.claims.Perm q.claims :=
    (List.perm_ext_iff_of_nodup (List.Nodup.of_map _ p.claims_distinct)
     (List.Nodup.of_map _ q.claims_distinct)).2 h.bindings
   rw [canonicalize, canonicalize, SignaturePayload.document, SignaturePayload.document, h.op,
    h.slug, h.key, h.expiresAt, h.contentType,
    sortMembers_congr hperm p.claims_distinct]

end Payloads

section Signatures

variable {ν : Type}

def isLowerHex (c : Char) : Bool := c.isDigit || (decide ('a' ≤ c) && decide (c ≤ 'f'))

def nibble (c : Char) : ℕ := if c.isDigit then c.toNat - 48 else c.toNat - 87

/-- `Buffer.from(s, 'hex')` of lower-case digits; an odd last one is no byte. -/
def hexBytes : Text → List ℕ
  | high :: low :: rest => (16 * nibble high + nibble low) :: hexBytes rest
  | _ => []

/-- HMAC-SHA256 under one secret, as hexadecimal text. No two messages have one digest. -/
structure Hmac where
  digest : Text → Text
  injective : Function.Injective digest
  ne_nil : ∀ message, digest message ≠ []
  hex : ∀ message, (digest message).all isLowerHex = true
  whole : ∀ message, 2 ∣ (digest message).length

inductive SignatureError where
  | invalid
  | expired
deriving DecidableEq

variable (N : Numbers ν) (hmac : Hmac)

def sign (payload : SignaturePayload ν) : Text := hmac.digest (canonicalize N payload)

def constantTimeEquals (expected actual : Text) : Bool :=
  if actual.length ≠ expected.length ∨ actual = [] ∨ actual.all isLowerHex = false then false
  else decide (hexBytes expected = hexBytes actual)

/-- `expiresAt * 1000 < Date.now()`; rounding the product moves no integer expiry past a time. -/
def Numbers.past : JsNumber ν → ℤ → Bool
  | .finite n, now => decide (N.value n * 1000 < now)
  | .negativeInfinity, _ => true
  | _, _ => false

def verify (payload : SignaturePayload ν) (signature : Text) (now : ℤ) : Except SignatureError Unit :=
  if constantTimeEquals (sign N hmac payload) signature = false then .error .invalid
  else if N.past payload.expiresAt now then .error .expired
  else .ok ()

theorem lowerHex_cases {c : Char} (h : isLowerHex c = true) :
  (48 ≤ c.toNat ∧ c.toNat ≤ 57 ∧ nibble c = c.toNat - 48) ∨
   (97 ≤ c.toNat ∧ c.toNat ≤ 102 ∧ nibble c = c.toNat - 87) := by
 have hval : c.toNat = c.val.toNat := rfl
 unfold isLowerHex at h
 unfold nibble
 by_cases hdigit : c.isDigit = true
 · rw [if_pos hdigit]
   simp only [Char.isDigit, Bool.and_eq_true, decide_eq_true_eq, ge_iff_le,
    UInt32.le_iff_toNat_le] at hdigit
   exact .inl ⟨by rw [hval]; exact hdigit.1, by rw [hval]; exact hdigit.2, rfl⟩
 · rw [if_neg hdigit]
   simp only [hdigit, Bool.false_or, Bool.and_eq_true, decide_eq_true_eq, Char.le_def,
    UInt32.le_iff_toNat_le] at h
   exact .inr ⟨by rw [hval]; exact h.1, by rw [hval]; exact h.2, rfl⟩

theorem nibble_lt {c : Char} (h : isLowerHex c = true) : nibble c < 16 := by
 rcases lowerHex_cases h with ⟨-, hle, heq⟩ | ⟨-, hle, heq⟩ <;> omega

theorem nibble_injective {c d : Char} (hc : isLowerHex c = true) (hd : isLowerHex d = true)
  (h : nibble c = nibble d) : c = d := by
 have hnat : c.toNat = d.toNat := by
  rcases lowerHex_cases hc with ⟨hlow, hhigh, heq⟩ | ⟨hlow, hhigh, heq⟩ <;>
    rcases lowerHex_cases hd with ⟨hlow', hhigh', heq'⟩ | ⟨hlow', hhigh', heq'⟩ <;> omega
 exact Char.toNat_inj.1 hnat

theorem hexBytes_injective (s t : Text) (hs : s.all isLowerHex = true)
  (ht : t.all isLowerHex = true) (hlength : s.length = t.length)
  (hwhole : 2 ∣ s.length) (h : hexBytes s = hexBytes t) : s = t := by
 induction s using hexBytes.induct generalizing t with
 | case1 high low rest ih =>
   obtain _ | ⟨high', _ | ⟨low', rest'⟩⟩ := t
   · cases hlength
   · simp at hlength
   · simp only [List.all_cons, Bool.and_eq_true] at hs ht
     simp only [hexBytes, List.cons.injEq] at h
     have hlow := nibble_lt hs.2.1
     have hlow' := nibble_lt ht.2.1
     rw [nibble_injective hs.1 ht.1 (by omega), nibble_injective hs.2.1 ht.2.1 (by omega),
      ih rest' hs.2.2 ht.2.2 (by simpa using hlength)
       (by simpa [Nat.dvd_add_right (Nat.dvd_refl 2), Nat.add_assoc] using hwhole) h.2]
 | case2 s hshort =>
   obtain _ | ⟨c, _ | ⟨d, rest⟩⟩ := s
   · exact (List.length_eq_zero_iff.1 hlength.symm).symm
   · simp at hwhole
   · exact absurd rfl (hshort c d rest)

theorem constantTimeEquals_iff (message actual : Text) :
  constantTimeEquals (hmac.digest message) actual = true ↔ actual = hmac.digest message := by
 unfold constantTimeEquals
 constructor
 · intro h
   split at h
   · cases h
   · next hshape =>
     simp only [not_or, not_not, Bool.not_eq_false] at hshape
     exact (hexBytes_injective _ _ (hmac.hex message) hshape.2.2 hshape.1.symm (hmac.whole message)
      (of_decide_eq_true h)).symm
 · rintro rfl
   rw [if_neg]
   · exact decide_eq_true rfl
   · simp only [not_or, not_not, Bool.not_eq_false]
     exact ⟨trivial, hmac.ne_nil message, hmac.hex message⟩

theorem verify_ok_iff (payload : SignaturePayload ν) (signature : Text) (now : ℤ) :
  verify N hmac payload signature now = .ok () ↔ signature = sign N hmac payload ∧
   N.past payload.expiresAt now = false := by
 unfold verify
 by_cases hsame : constantTimeEquals (sign N hmac payload) signature = true
 · rw [if_neg (by rw [hsame]; decide)]
   have heq := (constantTimeEquals_iff hmac _ _).1 hsame
   by_cases hpast : N.past payload.expiresAt now = true
   · simp [hpast]
   · simp [hpast, heq, sign]
 · have hne : signature ≠ sign N hmac payload := fun heq => hsame ((constantTimeEquals_iff hmac _ _).2 heq)
   simp [hsame, hne]

end Signatures

end BoardGamesEmpire.MediaUrlSigner
