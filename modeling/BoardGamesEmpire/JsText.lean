import Mathlib

set_option autoImplicit false

/-!
# JavaScript text and numbers

The string and number operations of ECMAScript that the modelled services
call, on strings taken as lists of characters. Nothing here knows which
service calls it.
-/
namespace BoardGamesEmpire.JsText

abbrev Text := List Char

/-- `toLowerCase`. ECMAScript fixes it on ASCII text by the plain letter map;
    the Unicode tables that decide the rest stay open. -/
structure LowerCasing where
  toLowerCase : Text → Text
  ascii : ∀ s : Text, (∀ c ∈ s, c.toNat < 128) → toLowerCase s = s.map Char.toLower

def asciiLowerCasing : LowerCasing where
  toLowerCase s := s.map Char.toLower
  ascii _ _ := rfl

/-- The characters `parseInt` trims from the front of its input. -/
def whitespace (c : Char) : Bool :=
  let n := c.toNat
  (0x09 ≤ n && n ≤ 0x0d) || n == 0x20 || n == 0xa0 || n == 0x1680 || (0x2000 ≤ n && n ≤ 0x200a) ||
    n == 0x2028 || n == 0x2029 || n == 0x202f || n == 0x205f || n == 0x3000 || n == 0xfeff

def digitValue (c : Char) : Option ℕ :=
  if '0' ≤ c ∧ c ≤ '9' then some (c.toNat - '0'.toNat)
  else if 'a' ≤ c ∧ c ≤ 'z' then some (c.toNat - 'a'.toNat + 10)
  else if 'A' ≤ c ∧ c ≤ 'Z' then some (c.toNat - 'A'.toNat + 10)
  else none

def isDigit (radix : ℕ) (c : Char) : Bool :=
  match digitValue c with
  | some d => decide (d < radix)
  | none => false

def digitsPrefix (radix : ℕ) : Text → List ℕ
  | [] => []
  | c :: s =>
    match digitValue c with
    | some d => if d < radix then d :: digitsPrefix radix s else []
    | none => []

def ofDigits (radix : ℕ) (ds : List ℕ) : ℕ := ds.foldl (fun n d => n * radix + d) 0

/-- The double nearest to a natural number, ties to even; `none` is infinity. -/
def toNumber (n : ℕ) : Option ℕ :=
  if n < 2 ^ 53 then some n
  else
    let ulp := 2 ^ (Nat.log2 n - 52)
    let q := n / ulp
    let r := n % ulp
    let rounded := (if ulp < 2 * r ∨ (2 * r = ulp ∧ q % 2 = 1) then q + 1 else q) * ulp
    if rounded < 2 ^ 1024 then some rounded else none

def signed : Text → Bool × Text
  | '-' :: s => (true, s)
  | '+' :: s => (false, s)
  | s => (false, s)

def stripHexPrefix : Text → Text
  | '0' :: 'x' :: s => s
  | '0' :: 'X' :: s => s
  | s => s

/-- `Number.parseInt(s, radix)`; `none` is `NaN` or an infinity, which every
    caller here treats alike. -/
def parseInt (s : Text) (radix : ℕ) : Option ℤ :=
  let (negative, body) := signed (s.dropWhile whitespace)
  let digits := digitsPrefix radix (if radix = 16 then stripHexPrefix body else body)
  if digits = [] then none
  else (toNumber (ofDigits radix digits)).map fun n : ℕ => if negative then -(n : ℤ) else (n : ℤ)

/-- Storing a number into a `Uint8Array` cell. -/
def toUint8 : Option ℤ → UInt8
  | none => 0
  | some z => UInt8.ofNat (z % 256).toNat

/-- `(value >> shift) & 0xff`, on the two's complement of an integral value. -/
def byteAt (shift : ℕ) : Option ℤ → UInt8
  | none => 0
  | some z => UInt8.ofNat (z / 2 ^ shift % 256).toNat

/-- `n.toString(radix)` for a natural number. -/
def toText (radix n : ℕ) : Text := Nat.toDigits radix n

/-- `s.indexOf(pat)` together with the slices before and after the match. -/
def cutFirst (pat : Text) : Text → Option (Text × Text)
  | [] => if pat = [] then some ([], []) else none
  | c :: s =>
    if pat <+: c :: s then some ([], (c :: s).drop pat.length)
    else (cutFirst pat s).map fun cut => (c :: cut.1, cut.2)

/-- `new Map(entries).get(key)`: a later entry replaces an earlier one. -/
def mapGet {κ ν : Type} [DecidableEq κ] (entries : List (κ × ν)) (key : κ) : Option ν :=
  (entries.reverse.find? fun entry => entry.1 = key).map Prod.snd

/-- `s.slice(s.lastIndexOf(c) + 1)`. -/
def afterLast (c : Char) (s : Text) : Text := (s.reverse.takeWhile (· ≠ c)).reverse

/-- `s.slice(0, s.lastIndexOf(c) + 1)`. -/
def throughLast (c : Char) (s : Text) : Text := (s.reverse.dropWhile (· ≠ c)).reverse

/-- `s.toLowerCase()` of a text whose capitals are ASCII. -/
def lowerCase (s : Text) : Text := s.map Char.toLower

/-- `s.trim()`. -/
def trim (s : Text) : Text := ((s.dropWhile whitespace).reverse.dropWhile whitespace).reverse

theorem digitValue_digitChar : ∀ d < 16, digitValue (Nat.digitChar d) = some d := by decide

theorem whitespace_digitChar : ∀ d < 16, whitespace (Nat.digitChar d) = false := by decide

theorem digitChar_lower : ∀ d < 16, (Nat.digitChar d).toNat < 128 ∧
  (Nat.digitChar d).toLower = Nat.digitChar d ∧ Nat.digitChar d ≠ ':' ∧
  Nat.digitChar d ≠ '.' ∧ Nat.digitChar d ≠ '%' ∧ Nat.digitChar d ≠ 'x' ∧
  Nat.digitChar d ≠ 'X' ∧ Nat.digitChar d ≠ '-' ∧ Nat.digitChar d ≠ '+' := by decide

variable {radix : ℕ}

theorem toText_digits (h2 : 1 < radix) (h16 : radix ≤ 16) (n : ℕ) :
  ∃ ds : List ℕ, toText radix n = ds.map Nat.digitChar ∧ ds ≠ [] ∧
   (∀ d ∈ ds, d < radix) ∧ ofDigits radix ds = n := by
 induction n using Nat.strongRecOn with
 | ind n ih =>
  unfold toText at *
  rw [Nat.toDigits_eq_if h2]
  split
  · rename_i h
    exact ⟨[n], rfl, by simp, by simpa using h, by simp [ofDigits]⟩
  · rename_i h
    obtain ⟨ds, hds, hne, hlt, hval⟩ := ih (n / radix) (Nat.div_lt_self (by omega) h2)
    refine ⟨ds ++ [n % radix], by simp [hds], by simp, ?_, ?_⟩
    · intro d hd
      rcases List.mem_append.1 hd with hd | hd
      · exact hlt d hd
      · rw [List.mem_singleton.1 hd]
        exact Nat.mod_lt n (by omega)
    · unfold ofDigits at hval ⊢
      rw [List.foldl_append, hval]
      simp only [List.foldl_cons, List.foldl_nil]
      rw [Nat.mul_comm]
      exact Nat.div_add_mod n radix

theorem digitsPrefix_digitChars (h16 : radix ≤ 16) (ds : List ℕ)
  (h : ∀ d ∈ ds, d < radix) : digitsPrefix radix (ds.map Nat.digitChar) = ds := by
 induction ds with
 | nil => rfl
 | cons d ds ih =>
  have hd : d < radix := h d List.mem_cons_self
  have hrest := ih fun e he => h e (List.mem_cons_of_mem _ he)
  simp only [List.map_cons, digitsPrefix, digitValue_digitChar d (by omega), hd, ↓reduceIte, hrest]

theorem digitChars_trimmed (ds : List ℕ) (h : ∀ d ∈ ds, d < 16) :
  (ds.map Nat.digitChar).dropWhile whitespace = ds.map Nat.digitChar := by
 cases ds with
 | nil => rfl
 | cons d ds => simp [whitespace_digitChar d (h d List.mem_cons_self)]

theorem signed_digitChars (ds : List ℕ) (h : ∀ d ∈ ds, d < 16) :
  signed (ds.map Nat.digitChar) = (false, ds.map Nat.digitChar) := by
 cases ds with
 | nil => rfl
 | cons d ds =>
  obtain ⟨-, -, -, -, -, -, -, hminus, hplus⟩ := digitChar_lower d (h d List.mem_cons_self)
  unfold signed
  split
  · rename_i s heq
    exact absurd (List.cons.inj heq).1 hminus
  · rename_i s heq
    exact absurd (List.cons.inj heq).1 hplus
  · rfl

theorem stripHexPrefix_digitChars (ds : List ℕ) (h : ∀ d ∈ ds, d < 16) :
  stripHexPrefix (ds.map Nat.digitChar) = ds.map Nat.digitChar := by
 unfold stripHexPrefix
 split
 · rename_i s heq
   obtain ⟨d, hd, hx⟩ := List.mem_map.1 (heq ▸ (by simp : 'x' ∈ '0' :: 'x' :: s))
   exact absurd hx (digitChar_lower d (h d hd)).2.2.2.2.2.1
 · rename_i s heq
   obtain ⟨d, hd, hx⟩ := List.mem_map.1 (heq ▸ (by simp : 'X' ∈ '0' :: 'X' :: s))
   exact absurd hx (digitChar_lower d (h d hd)).2.2.2.2.2.2.1
 · rfl

theorem parseInt_toText (h2 : 1 < radix) (h16 : radix ≤ 16) (n : ℕ)
  (hn : n < 2 ^ 53) : parseInt (toText radix n) radix = some (n : ℤ) := by
 obtain ⟨ds, hds, hne, hlt, hval⟩ := toText_digits h2 h16 n
 have hlt16 : ∀ d ∈ ds, d < 16 := fun d hd => lt_of_lt_of_le (hlt d hd) h16
 have hbody : (if radix = 16 then stripHexPrefix (ds.map Nat.digitChar)
   else ds.map Nat.digitChar) = ds.map Nat.digitChar := by
  split
  · exact stripHexPrefix_digitChars ds hlt16
  · rfl
 simp only [parseInt, hds, digitChars_trimmed ds hlt16, signed_digitChars ds hlt16, hbody,
  digitsPrefix_digitChars h16 ds hlt, hne, ↓reduceIte, hval, toNumber, hn, Option.map_some,
  Bool.false_eq_true]

theorem toText_injective {m n : ℕ} (h : toText 10 m = toText 10 n) : m = n := by
 obtain ⟨ds, hds, -, hlt, hm⟩ := toText_digits (by decide : 1 < 10) (by decide) m
 obtain ⟨es, hes, -, hlt', hn⟩ := toText_digits (by decide : 1 < 10) (by decide) n
 rw [hds, hes] at h
 have hread : ∀ l : List ℕ, (∀ d ∈ l, d < 10) → (l.map Nat.digitChar).map digitValue = l.map some := by
  intro l hl
  rw [List.map_map]
  exact List.map_congr_left fun d hd => digitValue_digitChar d (Nat.lt_trans (hl d hd) (by decide))
 have hsame : ds.map some = es.map some := by rw [← hread ds hlt, ← hread es hlt', h]
 rw [← hm, ← hn, List.map_injective_iff.2 (Option.some_injective ℕ) hsame]

theorem toText_chars (h2 : 1 < radix) (h16 : radix ≤ 16) (n : ℕ) :
  ∀ c ∈ toText radix n, ∃ d < 16, c = Nat.digitChar d := by
 obtain ⟨ds, hds, -, hlt, -⟩ := toText_digits h2 h16 n
 intro c hc
 rw [hds] at hc
 obtain ⟨d, hd, rfl⟩ := List.mem_map.1 hc
 exact ⟨d, lt_of_lt_of_le (hlt d hd) h16, rfl⟩

theorem cutFirst_some {pat s : Text} {cut : Text × Text} (h : cutFirst pat s = some cut) :
  s = cut.1 ++ pat ++ cut.2 := by
 induction s generalizing cut with
 | nil =>
  simp only [cutFirst] at h
  split at h
  · rename_i hp
    cases h
    simp [hp]
  · cases h
 | cons c s ih =>
  simp only [cutFirst] at h
  split at h
  · rename_i hp
    cases h
    obtain ⟨t, ht⟩ := hp
    rw [← ht]
    simp
  · obtain ⟨inner, hinner, rfl⟩ := Option.map_eq_some_iff.1 h
    have := ih hinner
    simp [this]

variable {c : Char}

theorem digitValue_toNat {d : ℕ} (h : digitValue c = some d) :
  (48 ≤ c.toNat ∧ c.toNat ≤ 57 ∧ d = c.toNat - 48) ∨
   (97 ≤ c.toNat ∧ c.toNat ≤ 122 ∧ d = c.toNat - 97 + 10) ∨
   (65 ≤ c.toNat ∧ c.toNat ≤ 90 ∧ d = c.toNat - 65 + 10) := by
 unfold digitValue at h
 split at h
 · next hrange => exact .inl ⟨hrange.1, hrange.2, (Option.some.inj h).symm⟩
 · split at h
   · next hrange => exact .inr (.inl ⟨hrange.1, hrange.2, (Option.some.inj h).symm⟩)
   · split at h
     · next hrange => exact .inr (.inr ⟨hrange.1, hrange.2, (Option.some.inj h).symm⟩)
     · cases h

theorem isDigit_iff : isDigit radix c = true ↔ ∃ d < radix, digitValue c = some d := by
 unfold isDigit
 cases digitValue c with
 | none => simp
 | some d => simp

variable {s : Text}

theorem digitsPrefix_eq (h : ∀ c ∈ s, isDigit radix c = true) :
  digitsPrefix radix s = s.filterMap digitValue := by
 induction s with
 | nil => rfl
 | cons c s ih =>
  obtain ⟨d, hlt, hd⟩ := isDigit_iff.1 (h c List.mem_cons_self)
  rw [digitsPrefix, hd, List.filterMap_cons_some hd, ← ih fun c' hc' => h c' (List.mem_cons_of_mem _ hc')]
  exact if_pos hlt

theorem isDigit_plain (h : isDigit 16 c = true) : whitespace c = false ∧ c ≠ '-' ∧ c ≠ '+' ∧
  c ≠ 'x' ∧ c ≠ 'X' ∧ c ≠ '%' ∧ c ≠ ':' ∧ c ≠ '.' ∧ c ≠ '/' ∧ c.toNat < 128 := by
 obtain ⟨d, hlt, hd⟩ := isDigit_iff.1 h
 have hrange := digitValue_toNat hd
 have hne : ∀ other : Char, (other.toNat < 48 ∨ (57 < other.toNat ∧ other.toNat < 65) ∨
   (90 < other.toNat ∧ other.toNat < 97) ∨ 102 < other.toNat ∨
    (70 < other.toNat ∧ other.toNat < 97)) → c ≠ other := by
  intro other hother heq
  rw [heq] at hrange
  omega
 refine ⟨?_, hne _ (by decide), hne _ (by decide), hne _ (by decide), hne _ (by decide), hne _ (by decide),
  hne _ (by decide), hne _ (by decide), hne _ (by decide), by omega⟩
 simp only [whitespace, Bool.or_eq_false_iff, Bool.and_eq_false_iff, decide_eq_false_iff_not,
  beq_eq_false_iff_ne]
 omega

theorem isDigit_mono (h16 : radix ≤ 16) (h : isDigit radix c = true) :
  isDigit 16 c = true := by
 obtain ⟨d, hlt, hd⟩ := isDigit_iff.1 h
 exact isDigit_iff.2 ⟨d, hlt.trans_le h16, hd⟩

theorem parseInt_digits (h16 : radix ≤ 16) (hne : s ≠ []) (h : ∀ c ∈ s, isDigit radix c = true) :
  parseInt s radix = (toNumber (ofDigits radix (s.filterMap digitValue))).map fun n : ℕ => (n : ℤ) := by
 have hplain : ∀ c ∈ s, _ := fun c hc => isDigit_plain (isDigit_mono h16 (h c hc))
 have htrim : s.dropWhile whitespace = s := by
  cases s with
  | nil => rfl
  | cons c s => simp [(hplain c List.mem_cons_self).1]
 have hsigned : signed s = (false, s) := by
  unfold signed
  split
  · exact absurd rfl (hplain '-' List.mem_cons_self).2.1
  · exact absurd rfl (hplain '+' List.mem_cons_self).2.2.1
  · rfl
 have hstrip : stripHexPrefix s = s := by
  unfold stripHexPrefix
  split
  · exact absurd rfl (hplain 'x' (by simp)).2.2.2.1
  · exact absurd rfl (hplain 'X' (by simp)).2.2.2.2.1
  · rfl
 have hdigits : s.filterMap digitValue ≠ [] := by
  cases s with
  | nil => exact absurd rfl hne
  | cons c s =>
   obtain ⟨d, -, hd⟩ := isDigit_iff.1 (h c List.mem_cons_self)
   rw [List.filterMap_cons_some hd]
   simp
 simp only [parseInt, htrim, hsigned, hstrip, ite_self, digitsPrefix_eq h, if_neg hdigits,
  Bool.false_eq_true, if_false]

theorem digitsPrefix_append (hc : digitValue c = none) (s t : Text) :
  digitsPrefix radix (s ++ c :: t) = digitsPrefix radix s := by
 induction s with
 | nil => simp [digitsPrefix, hc]
 | cons d s ih =>
  rw [List.cons_append, digitsPrefix, digitsPrefix, ih]

theorem parseInt_stop (hdigit : digitValue c = none) (hspace : whitespace c = false)
  (hminus : c ≠ '-') (hplus : c ≠ '+') (s t : Text) (radix : ℕ) :
  parseInt (s ++ c :: t) radix = parseInt s radix := by
 have hx : c ≠ 'x' ∧ c ≠ 'X' := by
  constructor <;> rintro rfl <;> exact absurd hdigit (by decide)
 have htrim : (s ++ c :: t).dropWhile whitespace = s.dropWhile whitespace ++ c :: t := by
  induction s with
  | nil => simp [hspace]
  | cons d s ih =>
   rw [List.cons_append, List.dropWhile_cons, List.dropWhile_cons]
   split
   · exact ih
   · rfl
 have hsigned : ∀ u : Text, signed (u ++ c :: t) = ((signed u).1, (signed u).2 ++ c :: t) := by
  intro u
  cases u with
  | nil => simp [signed, hminus, hplus]
  | cons d u =>
   by_cases hdminus : d = '-'
   · rw [hdminus]
     rfl
   · by_cases hdplus : d = '+'
     · rw [hdplus]
       rfl
     · simp [signed, hdminus, hdplus]
 have hstrip : ∀ u : Text, stripHexPrefix (u ++ c :: t) = stripHexPrefix u ++ c :: t := by
  intro u
  rcases u with _ | ⟨d, _ | ⟨d', u⟩⟩
  · cases t with
    | nil => simp [stripHexPrefix]
    | cons e t =>
     have hzero : c ≠ '0' := by
      rintro rfl
      exact absurd hdigit (by decide)
     simp [stripHexPrefix, hzero]
  · by_cases hzero : d = '0'
    · simp [stripHexPrefix, hzero, hx.1, hx.2]
    · simp [stripHexPrefix, hzero]
  · by_cases hzero : d = '0'
    · by_cases hdx : d' = 'x'
      · rw [hzero, hdx]
        rfl
      · by_cases hdX : d' = 'X'
        · rw [hzero, hdX]
          rfl
        · simp [stripHexPrefix, hzero, hdx, hdX]
    · simp [stripHexPrefix, hzero]
 simp only [parseInt, htrim, hsigned, hstrip]
 by_cases hradix : radix = 16
 · simp only [if_pos hradix, digitsPrefix_append hdigit]
 · simp only [if_neg hradix, digitsPrefix_append hdigit]

theorem cutFirst_absent {p : Char} {pat s : Text} (h : p ∉ s) : cutFirst (p :: pat) s = none := by
 induction s with
 | nil => rfl
 | cons c s ih =>
  have hne : p ≠ c := fun heq => h (heq ▸ List.mem_cons_self)
  have hpre : ¬ p :: pat <+: c :: s := fun hp => hne (List.cons_prefix_cons.1 hp).1
  simp only [cutFirst, hpre, ↓reduceIte, ih fun hmem => h (List.mem_cons_of_mem _ hmem),
   Option.map_none]

theorem cutFirst_append {p : Char} {pat s rest : Text} (h : p ∉ s) :
  cutFirst (p :: pat) (s ++ rest) =
   (cutFirst (p :: pat) rest).map fun cut => (s ++ cut.1, cut.2) := by
 induction s with
 | nil => simp
 | cons c s ih =>
  have hne : p ≠ c := fun heq => h (heq ▸ List.mem_cons_self)
  have hpre : ¬ p :: pat <+: c :: (s ++ rest) := fun hp => hne (List.cons_prefix_cons.1 hp).1
  simp only [List.cons_append, cutFirst, hpre, ↓reduceIte,
   ih fun hmem => h (List.mem_cons_of_mem _ hmem), Option.map_map]
  rfl

theorem mem_join {sep : Char} {groups : List Text}
  (h : c ∈ [sep].intercalate groups) : c = sep ∨ ∃ g ∈ groups, c ∈ g := by
 induction groups with
 | nil => simp [List.intercalate] at h
 | cons g gs ih =>
  cases gs with
  | nil => exact .inr ⟨g, by simp, by simpa [List.intercalate] using h⟩
  | cons g2 gs =>
   simp only [List.intercalate_cons_cons, List.mem_append, List.mem_singleton] at h
   rcases h with (h | h) | h
   · exact .inr ⟨g, by simp, h⟩
   · exact .inl h
   · rcases ih h with h | ⟨g', hg', hc⟩
     · exact .inl h
     · exact .inr ⟨g', List.mem_cons_of_mem _ hg', hc⟩

theorem splitOn_absent (h : c ∉ s) : s.splitOn c = [s] := by
 have hjoined : (List.intercalate [c] [s]).splitOn c = [s] :=
  List.splitOn_intercalate c (by simpa using h) (by simp)
 simpa [List.intercalate] using hjoined

theorem cutFirst_char (h : c ∈ s) : ∃ cut, cutFirst [c] s = some cut := by
 induction s with
 | nil => simp at h
 | cons d s ih =>
  by_cases heq : c = d
  · exact ⟨([], s), by simp [cutFirst, heq]⟩
  · obtain ⟨cut, hcut⟩ := ih ((List.mem_cons.1 h).resolve_left heq)
    have hpre : ¬ [c] <+: d :: s := fun hp => heq (List.cons_prefix_cons.1 hp).1
    exact ⟨(d :: cut.1, cut.2), by simp [cutFirst, heq, hcut]⟩

theorem mapGet_mem {κ ν : Type} [DecidableEq κ] {entries : List (κ × ν)} {key : κ} {value : ν}
  (h : mapGet entries key = some value) : (key, value) ∈ entries := by
 obtain ⟨⟨k, v⟩, hfind, hvalue⟩ := Option.map_eq_some_iff.1 h
 have hkey := List.find?_some hfind
 simp only [decide_eq_true_eq] at hkey hvalue
 subst hkey hvalue
 exact List.mem_reverse.1 (List.mem_of_find?_eq_some hfind)

theorem mapGet_none {κ ν : Type} [DecidableEq κ] {entries : List (κ × ν)} {key : κ}
  (h : mapGet entries key = none) : ∀ value, (key, value) ∉ entries := by
 intro value hmem
 have := List.find?_eq_none.1 (Option.map_eq_none_iff.1 h) _ (List.mem_reverse.2 hmem)
 simp at this

theorem mapGet_iff {κ ν : Type} [DecidableEq κ] {entries : List (κ × ν)}
  (hfun : ∀ k v v', (k, v) ∈ entries → (k, v') ∈ entries → v = v') {key : κ} {value : ν} :
  mapGet entries key = some value ↔ (key, value) ∈ entries := by
 constructor
 · exact mapGet_mem
 · intro hmem
   cases hget : mapGet entries key with
   | none => exact absurd hmem (mapGet_none hget value)
   | some found => rw [hfun key found value (mapGet_mem hget) hmem]

theorem trim_eq_self (h : ∀ c ∈ s, whitespace c = false) : trim s = s := by
 have hleft : ∀ t : Text, (∀ c ∈ t, whitespace c = false) → t.dropWhile whitespace = t := by
  intro t ht
  cases t with
  | nil => rfl
  | cons c t => rw [List.dropWhile_cons, ht c List.mem_cons_self, if_neg Bool.false_ne_true]
 rw [trim, hleft s h, hleft s.reverse fun c hc => h c (List.mem_reverse.1 hc), List.reverse_reverse]

theorem filter_dropWhile {p : Char → Bool} (h : ∀ c, whitespace c = true → p c = false) :
  (s.dropWhile whitespace).filter p = s.filter p := by
 induction s with
 | nil => rfl
 | cons c s ih =>
  rw [List.dropWhile_cons]
  by_cases hc : whitespace c = true
  · rw [if_pos hc, ih, List.filter_cons, h c hc, if_neg Bool.false_ne_true]
  · rw [if_neg hc]

theorem filter_trim {p : Char → Bool} (h : ∀ c, whitespace c = true → p c = false) :
  (trim s).filter p = s.filter p := by
 rw [trim, List.filter_reverse, filter_dropWhile h, List.filter_reverse, List.reverse_reverse,
  filter_dropWhile h]

section Distinct

variable {α : Type} [BEq α] [LawfulBEq α]

theorem nodup_eraseDups (values : List α) : values.eraseDups.Nodup := by
 induction h : values.length using Nat.strong_induction_on generalizing values with
 | _ n ih =>
  cases values with
  | nil => simp
  | cons a rest =>
   rw [List.eraseDups_cons, List.nodup_cons]
   have hlt : (rest.filter fun b => !b == a).length < n := by
    rw [← h, List.length_cons]
    exact Nat.lt_succ_of_le (List.length_filter_le _ _)
   refine ⟨?_, ih _ hlt _ rfl⟩
   rw [List.mem_eraseDups]
   simp

theorem eraseDups_of_nodup {values : List α} (h : values.Nodup) : values.eraseDups = values := by
 induction values with
 | nil => rfl
 | cons a rest ih =>
  obtain ⟨ha, hrest⟩ := List.nodup_cons.1 h
  have hkept : (rest.filter fun b => !b == a) = rest := by
   refine List.filter_eq_self.2 fun b hb => ?_
   have hne : b ≠ a := fun heq => ha (heq ▸ hb)
   simp [hne]
  rw [List.eraseDups_cons, hkept, ih hrest]

end Distinct

end BoardGamesEmpire.JsText
