import BoardGamesEmpire.SecureHttpIpZones

set_option autoImplicit false

/-!
# The case of an address

`parseIp` reads the lower-cased text. A map of the characters that keeps digits
and punctuation keeps what the grammar accepts and what an address stands for.
-/
namespace BoardGamesEmpire.SecureHttpIpZones
open JsText SecureHttpIp SecureHttpIpRoundTrip SeparatedText

section Letters

variable {f : Char → Char} {s : Text}

/-- A map of the letters: digits keep their value, and nothing else becomes a
    character of the grammar. -/
structure KeepsGrammar (f : Char → Char) : Prop where
  digit : ∀ c, digitValue (f c) = digitValue c
  punctuation : ∀ d ∈ [':', '.', '%', '-', '0'], ∀ c, f c = d ↔ c = d

theorem toLower_cases (c : Char) : c.toLower = c ∨ ∃ n, n < 26 ∧ c = Char.ofNat (65 + n) := by
 by_cases hupper : c.isUpper = true
 · right
   obtain ⟨hge, hle⟩ := of_decide_eq_true hupper
   have hlow : 65 ≤ c.toNat := UInt32.le_iff_toNat_le.1 hge
   have hhigh : c.toNat ≤ 90 := UInt32.le_iff_toNat_le.1 hle
   refine ⟨c.toNat - 65, by omega, ?_⟩
   rw [Nat.add_sub_cancel' hlow, Char.ofNat_toNat]
 · exact .inl (Char.toLower_eq_of_not_isUpper hupper)

theorem toLower_keepsGrammar : KeepsGrammar Char.toLower := by
 constructor
 · intro c
   rcases toLower_cases c with h | ⟨n, hn, rfl⟩
   · rw [h]
   · have hall : ∀ n < 26, digitValue (Char.ofNat (65 + n)).toLower = digitValue
      (Char.ofNat (65 + n)) := by
      decide
     exact hall n hn
 · intro d hd c
   rcases toLower_cases c with h | ⟨n, hn, rfl⟩
   · rw [h]
   · have hletters : ∀ n < 26, (Char.ofNat (65 + n)).toLower.toNat = 97 + n ∧
      (Char.ofNat (65 + n)).toNat = 65 + n := by
      decide
     have hbelow : d.toNat < 65 := by
      simp only [List.mem_cons, List.not_mem_nil, or_false] at hd
      rcases hd with rfl | rfl | rfl | rfl | rfl <;> decide
     obtain ⟨hlower, hupper⟩ := hletters n hn
     refine iff_of_false ?_ ?_ <;> rintro rfl <;> omega

theorem splitOn_map {c : Char} (hc : ∀ d, f d = c ↔ d = c) (s : Text) :
  (s.map f).splitOn c = (s.splitOn c).map (List.map f) := by
 induction s with
 | nil => simp
 | cons d s ih =>
  obtain ⟨first, rest, hs⟩ := List.exists_cons_of_ne_nil (List.splitOn_ne_nil c s)
  rw [hs, List.map_cons] at ih
  by_cases hd : d = c
  · rw [List.map_cons, (hc d).2 hd, hd, splitOn_cons_self, splitOn_cons_self, ih, hs]
    rfl
  · rw [List.map_cons, splitOn_cons_ne (fun h => hd ((hc d).1 h)) ih, splitOn_cons_ne hd hs]
    rfl

theorem prefix_map {pat : Text} (hpat : ∀ p ∈ pat, ∀ d, f d = p ↔ d = p) (s : Text) :
  pat <+: s.map f ↔ pat <+: s := by
 induction pat generalizing s with
 | nil => simp
 | cons p pat ih =>
  cases s with
  | nil => simp
  | cons d s =>
   rw [List.map_cons, List.cons_prefix_cons, List.cons_prefix_cons,
    ih fun q hq => hpat q (List.mem_cons_of_mem _ hq)]
   have hp := hpat p List.mem_cons_self d
   rw [eq_comm, hp, eq_comm]

theorem cutFirst_map {pat : Text} (hpat : ∀ p ∈ pat, ∀ d, f d = p ↔ d = p) (s : Text) :
  cutFirst pat (s.map f) = (cutFirst pat s).map fun cut => (cut.1.map f, cut.2.map f) := by
 induction s with
 | nil =>
  rw [List.map_nil, cutFirst]
  split <;> rfl
 | cons c s ih =>
  have hpre : pat <+: f c :: s.map f ↔ pat <+: c :: s := prefix_map hpat (c :: s)
  rw [List.map_cons, cutFirst, cutFirst]
  by_cases hstart : pat <+: c :: s
  · rw [if_pos hstart, if_pos (hpre.2 hstart), ← List.map_cons, ← List.map_drop]
    rfl
  · rw [if_neg hstart, if_neg fun h => hstart (hpre.1 h), ih, Option.map_map, Option.map_map]
    rfl

variable (hf : KeepsGrammar f)

include hf

theorem isDigit_map (radix : ℕ) (c : Char) : isDigit radix (f c) = isDigit radix c := by
 rw [isDigit, isDigit, hf.digit]

theorem digitsPrefix_map (radix : ℕ) (s : Text) :
  digitsPrefix radix (s.map f) = digitsPrefix radix s := by
 induction s with
 | nil => rfl
 | cons c s ih => rw [List.map_cons, digitsPrefix, digitsPrefix, hf.digit, ih]

theorem numberOf_map (radix : ℕ) (s : Text) : numberOf radix (s.map f) = numberOf radix s := by
 rw [numberOf, numberOf, List.filterMap_map]
 have hsame : digitValue ∘ f = digitValue := funext hf.digit
 rw [hsame]

theorem isHexGroup_map (s : Text) : isHexGroup (s.map f) = isHexGroup s := by
 have hdigits : isDigit 16 ∘ f = isDigit 16 := funext (isDigit_map hf 16)
 rw [isHexGroup, isHexGroup, List.length_map, List.all_map, hdigits]

theorem isOctet_map (s : Text) : isOctet (s.map f) = isOctet s := by
 have hdigits : isDigit 10 ∘ f = isDigit 10 := funext (isDigit_map hf 10)
 have hhead : ((s.map f).head? != some '0') = (s.head? != some '0') := by
  cases s with
  | nil => rfl
  | cons c s =>
   have hzero := hf.punctuation '0' (by simp) c
   rw [Bool.eq_iff_iff]
   simp [hzero]
 rw [isOctet, isOctet, List.length_map, List.all_map, hdigits, hhead, digitsPrefix_map hf,
  List.isEmpty_map]

theorem isIPv4_map (s : Text) : isIPv4 (s.map f) = isIPv4 s := by
 have hoctets : isOctet ∘ List.map f = isOctet := funext (isOctet_map hf)
 simp only [isIPv4, splitOn_map (hf.punctuation '.' (by simp)), List.length_map, List.all_map, hoctets]

theorem groupsOf_map (s : Text) : groupsOf (s.map f) = (groupsOf s).map (List.map f) := by
 rw [groupsOf, groupsOf, splitOn_map (hf.punctuation ':' (by simp))]
 cases s with
 | nil => rfl
 | cons c s => rw [if_neg (by simp), if_neg (by simp)]

theorem tailWidth_map (parts : List Text) :
  tailWidth (parts.map (List.map f)) = tailWidth parts := by
 induction parts with
 | nil => rfl
 | cons part parts ih =>
  cases parts with
  | nil => simp only [List.map_cons, List.map_nil, tailWidth, isHexGroup_map hf, isIPv4_map hf]
  | cons next parts =>
   have hstep : ∀ (part next : Text) (parts : List Text), tailWidth (part :: next :: parts) =
     if isHexGroup part = true then (tailWidth (next :: parts)).map (· + 1) else none := fun _ _ _ => rfl
   rw [List.map_cons] at ih
   rw [List.map_cons, List.map_cons, hstep, hstep, isHexGroup_map hf, ih]

theorem isIPv6Address_map (s : Text) : isIPv6Address (s.map f) = isIPv6Address s := by
 have hgroups : isHexGroup ∘ List.map f = isHexGroup := funext (isHexGroup_map hf)
 have hcolon := hf.punctuation ':' (by simp)
 unfold isIPv6Address
 rw [cutFirst_map (by simp [hcolon]), splitOn_map hcolon]
 cases hcut : cutFirst [':', ':'] s with
 | none => simp only [Option.map_none, tailWidth_map hf]
 | some cut =>
  simp only [Option.map_some, groupsOf_map hf, List.all_map, hgroups, tailWidth_map hf, List.length_map]

theorem isZone_map (s : Text) : isZone (s.map f) = isZone s := by
 have hchars : (fun c => isDigit 36 c || c == '-' || c == '.' || c == ':') ∘ f =
   fun c => isDigit 36 c || c == '-' || c == '.' || c == ':' := by
  funext c
  have hdash := hf.punctuation '-' (by simp) c
  have hdot := hf.punctuation '.' (by simp) c
  have hcolon := hf.punctuation ':' (by simp) c
  simp [isDigit_map hf, BEq.beq, hdash, hdot, hcolon]
 rw [isZone, isZone, List.isEmpty_map, List.all_map, hchars]

theorem isIPv6_map (s : Text) : isIPv6 (s.map f) = isIPv6 s := by
 have hpercent := hf.punctuation '%' (by simp)
 unfold isIPv6
 rw [cutFirst_map (by simp [hpercent])]
 cases hcut : cutFirst ['%'] s with
 | none => simp only [Option.map_none, isIPv6Address_map hf]
 | some cut => simp only [Option.map_some, isIPv6Address_map hf, isZone_map hf]

theorem addressOf_map (s : Text) : addressOf (s.map f) = (addressOf s).map f := by
 have hpercent := hf.punctuation '%' (by simp)
 rw [addressOf, addressOf, cutFirst_map (by simp [hpercent])]
 cases cutFirst ['%'] s with
 | none => rfl
 | some cut => rfl

theorem partWords_map (part : Text) : partWords (part.map f) = partWords part := by
 have hnumbers : numberOf 10 ∘ List.map f = numberOf 10 := funext (numberOf_map hf 10)
 simp only [partWords, quadWords, isHexGroup_map hf, numberOf_map hf,
  splitOn_map (hf.punctuation '.' (by simp)),
  List.map_map, hnumbers]

theorem rfcWords_map (s : Text) : rfcWords (s.map f) = rfcWords s := by
 have hparts : (fun part => partWords (List.map f part)) = partWords := funext (partWords_map hf)
 have hcolon := hf.punctuation ':' (by simp)
 unfold rfcWords
 rw [cutFirst_map (by simp [hcolon]), splitOn_map hcolon]
 cases cutFirst [':', ':'] s with
 | none => simp only [Option.map_none, List.flatMap_map, hparts]
 | some cut => simp only [Option.map_some, groupsOf_map hf, List.flatMap_map, hparts]

end Letters

section Characters

variable {s address quad : Text} {c : Char}

theorem quad_char (h : isIPv4 quad = true) (hc : c ∈ quad) : c = '.' ∨ isDigit 10 c = true := by
 simp only [isIPv4, Bool.and_eq_true, List.all_eq_true] at h
 rcases mem_piece hc with hdot | ⟨octet, hoctet, hin⟩
 · exact .inl hdot
 · exact .inr ((octet_digits (h.2 octet hoctet)).1 c hin)

theorem Shape.piece (h : Shape address) {g : Text} (hg : g ∈ address.splitOn ':') :
  g = [] ∨ isHexGroup g = true ∨ isIPv4 g = true := by
 cases h with
 | groups q p h hp _ =>
  rw [h.pieces, List.mem_append, List.mem_singleton] at hg
  rcases hg with hg | rfl
  · exact .inr (.inl (h.hq g hg))
  · exact .inr (.inl hp)
 | quad q p h hp _ =>
  rw [h.pieces, List.mem_append, List.mem_singleton] at hg
  rcases hg with hg | rfl
  · exact .inr (.inl (h.hq g hg))
  · exact .inr (.inr hp)
 | gap left right l q p h =>
  rw [h.pieces, List.mem_append, List.mem_cons, List.mem_append, List.mem_singleton] at hg
  rcases hg with hg | rfl | hg | rfl
  · have hgroups := h.hgroups
    unfold trim at hgroups
    split at hgroups
    · next hnil =>
      rw [hnil, List.mem_singleton] at hg
      exact .inl hg
    · exact .inr (.inl (hgroups g hg))
  · exact .inl rfl
  · exact .inr (.inl (h.hq g hg))
  · exact h.hp.imp_left fun hnil => hnil.2

theorem address_char (h : isIPv6Address address = true) (hc : c ∈ address) :
  c = ':' ∨ c = '.' ∨ isDigit 16 c = true := by
 rcases mem_piece (c := ':') hc with hcolon | ⟨g, hg, hin⟩
 · exact .inl hcolon
 · right
   rcases (shape_of_address h).piece hg with rfl | hgroup | hquad
   · exact absurd hin List.not_mem_nil
   · exact .inr ((hexGroup_digits hgroup).2.2 c hin)
   · exact (quad_char hquad hin).imp_right (isDigit_mono (by omega))

theorem address_colon (h : isIPv6Address address = true) : ':' ∈ address := by
 by_contra hnone
 have hone : (address.splitOn ':').length = 1 := by rw [splitOn_absent hnone]; rfl
 cases shape_of_address h with
 | groups q p h _ hlen =>
  rw [h.pieces, List.length_append, List.length_singleton] at hone
  omega
 | quad q p h _ hlen =>
  rw [h.pieces, List.length_append, List.length_singleton] at hone
  omega
 | gap left right l q p h =>
  rw [h.pieces] at hone
  simp only [List.length_append, List.length_cons, List.length_nil] at hone
  omega

theorem isIPv6_cases (h : isIPv6 s = true) : isIPv6Address (addressOf s) = true ∧
  ((zoneOf s = none ∧ addressOf s = s) ∨
   ∃ zone, zoneOf s = some zone ∧ isZone zone = true ∧ s = addressOf s ++ '%' :: zone) := by
 unfold isIPv6 at h
 rw [addressOf, zoneOf]
 cases hcut : cutFirst ['%'] s with
 | none =>
  rw [hcut] at h
  exact ⟨h, .inl ⟨rfl, rfl⟩⟩
 | some cut =>
  obtain ⟨address, zone⟩ := cut
  simp only [hcut, Bool.and_eq_true] at h
  exact ⟨h.1, .inr ⟨zone, rfl, h.2, by simpa using cutFirst_some hcut⟩⟩

theorem isIPv6_ascii (h : isIPv6 s = true) (hc : c ∈ s) : c.toNat < 128 := by
 have haddress : ∀ c ∈ addressOf s, c.toNat < 128 := by
  intro c hin
  rcases address_char (isIPv6_cases h).1 hin with rfl | rfl | hdigit
  · decide
  · decide
  · exact (isDigit_plain hdigit).2.2.2.2.2.2.2.2.2
 rcases (isIPv6_cases h).2 with ⟨-, heq⟩ | ⟨zone, -, hzone, heq⟩
 · exact haddress c (by rwa [heq])
 · rw [heq] at hc
   rcases List.mem_append.1 hc with hin | hin
   · exact haddress c hin
   · rcases List.mem_cons.1 hin with rfl | hin
     · decide
     · simp only [isZone, Bool.and_eq_true, List.all_eq_true, Bool.or_eq_true, beq_iff_eq] at hzone
       rcases hzone.2 c hin with ((hdigit | rfl) | rfl) | rfl
       · obtain ⟨d, -, hd⟩ := isDigit_iff.1 hdigit
         have := digitValue_toNat hd
         omega
       · decide
       · decide
       · decide

theorem isIPv6_not_isIPv4 (h : isIPv6 s = true) : isIPv4 s = false := by
 by_contra hquad
 have hcolon : ':' ∈ s := by
  have hin := address_colon (isIPv6_cases h).1
  rcases (isIPv6_cases h).2 with ⟨-, heq⟩ | ⟨zone, -, -, heq⟩
  · rwa [heq] at hin
  · rw [heq]
    exact List.mem_append_left _ hin
 rcases quad_char (by simpa using hquad) hcolon with hdot | hdigit
 · cases hdot
 · exact absurd hdigit (by decide)

/-- What `parseIp` reads of an accepted text is accepted, with the same value. -/
theorem lower_isIPv6 (casing : LowerCasing) (h : isIPv6 s = true) :
  isIPv6 (casing.toLowerCase s) = true ∧
  isIPv4 (casing.toLowerCase s) = false ∧
   rfcBytes (addressOf (casing.toLowerCase s)) = rfcBytes (addressOf s) := by
 have hlower := casing.ascii s fun c hc => isIPv6_ascii h hc
 have haccepted : isIPv6 (s.map Char.toLower) = true := (isIPv6_map toLower_keepsGrammar s).trans h
 rw [hlower]
 refine ⟨haccepted, isIPv6_not_isIPv4 haccepted, ?_⟩
 rw [rfcBytes, rfcBytes, addressOf_map toLower_keepsGrammar, rfcWords_map toLower_keepsGrammar]

end Characters

end BoardGamesEmpire.SecureHttpIpZones
