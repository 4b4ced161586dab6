import BoardGamesEmpire.SecureHttpIpRoundTrip
import BoardGamesEmpire.SeparatedText

set_option autoImplicit false

/-!
# IPv6 literals with a zone

The value of an address text by RFC 4291, and what `ipv6ToBytes` reads when a
zone follows the address: its pieces between colons are read as groups, and the
dots of its last piece as a dotted quad.
-/
namespace BoardGamesEmpire.SecureHttpIpZones
open JsText SecureHttpIp SecureHttpIpRoundTrip SeparatedText

section Values

def numberOf (radix : ℕ) (digits : Text) : ℕ := ofDigits radix (digits.filterMap digitValue)

def quadWords (quad : Text) : List ℕ :=
  match (quad.splitOn '.').map (numberOf 10) with
  | [a, b, c, d] => [a * 256 + b, c * 256 + d]
  | _ => []

def partWords (part : Text) : List ℕ := if isHexGroup part then [numberOf 16 part] else quadWords part

/-- The eight words of an address text: `::` stands for the zero words that the
    others leave. -/
def rfcWords (address : Text) : List ℕ :=
  match cutFirst [':', ':'] address with
  | none => (address.splitOn ':').flatMap partWords
  | some (left, right) =>
    let before := (groupsOf left).flatMap partWords
    let after := (groupsOf right).flatMap partWords
    before ++ List.replicate (8 - (before.length + after.length)) 0 ++ after

def wordBytes (word : ℕ) : List UInt8 := [UInt8.ofNat (word / 256), UInt8.ofNat (word % 256)]

def rfcBytes (address : Text) : List UInt8 := (rfcWords address).flatMap wordBytes

/-- The part before any `%`, and the part after it. -/
def addressOf (s : Text) : Text := ((cutFirst ['%'] s).map Prod.fst).getD s

def zoneOf (s : Text) : Option Text := (cutFirst ['%'] s).map Prod.snd

end Values

section Readings

def wordOf (value : Option ℤ) : ℕ := (value.getD 0 % 65536).toNat

/-- A piece read as a group: the hexadecimal number that it starts with. -/
def hexWord (piece : Text) : ℕ := wordOf (parseInt piece 16)

/-- A piece read as a dotted quad: the decimal numbers that its parts start with. -/
def dotWords (piece : Text) : List ℕ :=
  let v4 := ipv4ToBytes piece
  [(v4.getD 0 0).toNat * 256 + (v4.getD 1 0).toNat, (v4.getD 2 0).toNat * 256 + (v4.getD 3 0).toNat]

/-- The last piece of a text is a dotted quad to the parser once it has a dot. -/
def lastWords (piece : Text) : List ℕ := if '.' ∈ piece then dotWords piece else [hexWord piece]

def lastGroups (piece : Text) : List Text :=
    if '.' ∈ piece then (dotWords piece).map (toText 16) else [piece]

/-- A side of `::` with no text has no groups. -/
def trim (pieces : List Text) : List Text := if pieces = [[]] then [] else pieces

variable {s t : Text} {q ps l r : List Text} {p : Text}

theorem byteAt_wordOf (value : Option ℤ) :
  [byteAt 8 value, byteAt 0 value] = wordBytes (wordOf value) := by
 cases value with
 | none => rfl
 | some z =>
  have hhigh : (z / 2 ^ 8 % 256).toNat = (z % 65536).toNat / 256 := by omega
  have hlow : (z / 2 ^ 0 % 256).toNat = (z % 65536).toNat % 256 := by omega
  simp only [byteAt, wordBytes, wordOf, Option.getD_some, hhigh, hlow]

theorem wordOf_groupValue (piece : Text) : wordOf (groupValue (some piece)) = hexWord piece := by
 cases piece with
 | nil => decide
 | cons c piece => rfl

theorem wordOf_lt (value : Option ℤ) : wordOf value < 65536 := by
 unfold wordOf
 omega

theorem groupsToBytes_words {groups : List Text} (h : 8 ≤ groups.length) :
  groupsToBytes groups = ((groups.take 8).map hexWord).flatMap wordBytes := by
 have hwords :
  (List.range 8).map (fun i => wordOf (groupValue groups[i]?)) = (groups.take 8).map hexWord := by
  apply List.ext_getElem
  · simp [h]
  · intro i hi _
    have hlt : i < groups.length := by
     simp at hi
     omega
    simp [List.getElem?_eq_getElem hlt, wordOf_groupValue]
 rw [← hwords, List.flatMap_map]
 simp only [groupsToBytes, byteAt_wordOf]

theorem wordBytes_inj {a b : List ℕ} (ha : ∀ w ∈ a, w < 65536) (hb : ∀ w ∈ b, w < 65536)
  (h : a.flatMap wordBytes = b.flatMap wordBytes) : a = b := by
 induction a generalizing b with
 | nil =>
  cases b with
  | nil => rfl
  | cons w b => simp [wordBytes] at h
 | cons v a ih =>
  cases b with
  | nil => simp [wordBytes] at h
  | cons w b =>
   simp only [List.flatMap_cons, wordBytes, List.cons_append, List.nil_append, List.cons.injEq] at h
   obtain ⟨hhigh, hlow, hrest⟩ := h
   have hv := ha v List.mem_cons_self
   have hw := hb w List.mem_cons_self
   rw [← UInt8.toNat_inj, UInt8.toNat_ofNat', UInt8.toNat_ofNat'] at hhigh hlow
   have hhead : v = w := by omega
   rw [hhead, ih (fun u hu => ha u (List.mem_cons_of_mem _ hu))
    (fun u hu => hb u (List.mem_cons_of_mem _ hu)) hrest]

theorem dotWords_lt {w : ℕ} (h : w ∈ dotWords p) : w < 65536 := by
 have hlt : ∀ i, ((ipv4ToBytes p).getD i 0).toNat < 256 := fun i => UInt8.toNat_lt _
 simp only [dotWords, List.mem_cons, List.not_mem_nil, or_false] at h
 have h0 := hlt 0
 have h1 := hlt 1
 have h2 := hlt 2
 have h3 := hlt 3
 omega

theorem hexWord_toText {w : ℕ} (h : w < 65536) : hexWord (toText 16 w) = w := by
 rw [hexWord, parseInt_toText (by omega) (by omega) w (by omega), wordOf, Option.getD_some]
 omega

theorem lastGroups_words (p : Text) : (lastGroups p).map hexWord = lastWords p := by
 unfold lastGroups lastWords
 split
 · rw [List.map_map]
   exact (List.map_congr_left fun w hw => hexWord_toText (dotWords_lt hw)).trans (List.map_id _)
 · rfl

theorem toText_plain {radix n : ℕ} (h2 : 1 < radix) (h16 : radix ≤ 16) :
  toText radix n ≠ [] ∧ ':' ∉ toText radix n ∧ '.' ∉ toText radix n := by
 obtain ⟨hne, hplain⟩ := toText_group h2 h16 n
 exact ⟨hne, fun h => (hplain _ h).1 rfl, fun h => (hplain _ h).2.1 rfl⟩

theorem normalizeTail_pieces (hs : s.splitOn ':' = q ++ [p]) :
  (normalizeTail s).splitOn ':' = q ++ lastGroups p := by
 obtain ⟨htail, hthrough⟩ := splitOn_cutLast hs
 by_cases hdot : '.' ∈ p
 · have hfree : ∀ n, ':' ∉ toText 16 n := fun n => (toText_plain (by omega) (by omega)).2.1
   simp only [normalizeTail, htail, if_pos hdot, lastGroups, dotWords, List.append_assoc, hthrough,
    List.singleton_append, List.splitOn_append_cons_self, splitOn_absent (hfree _), List.map_cons,
     List.map_nil]
 · simp only [normalizeTail, htail, if_neg hdot, lastGroups, hs]

theorem groupsOf_pieces (hfree : ∀ g ∈ l, ':' ∉ g) (hl : l ≠ []) :
  groupsOf ([':'].intercalate l) = trim l := by
 have hsplit : ([':'].intercalate l).splitOn ':' = l := List.splitOn_intercalate ':' hfree hl
 rw [groupsOf, hsplit, trim]
 by_cases hnil : l = [[]]
 · simp [hnil]
 · rw [if_neg hnil, if_neg]
   intro htext
   rw [htext, List.splitOn_nil] at hsplit
   exact hnil hsplit.symm

theorem expandGroups_none (h : gap (t.splitOn ':') = none) :
  expandGroups t = .ok (t.splitOn ':') := by
 have hcut : cutFirst [':', ':'] t = none := by
  rw [← join_splitOn ':' t, cutFirst_join fun g hg => not_mem_piece hg, h]
  rfl
 rw [expandGroups, hcut]

theorem expandGroups_some (h : gap (t.splitOn ':') = some (l, r)) : expandGroups t =
  if 8 < (trim l).length + (trim r).length then .error .invalidArrayLength
  else .ok (trim l ++ List.replicate (8 - ((trim l).length + (trim r).length)) ['0'] ++ trim r) := by
 obtain ⟨hpieces, hl, hr, -⟩ := gap_spec h
 have hfree : ∀ g ∈ l ++ [] :: r, ':' ∉ g := fun g hg => not_mem_piece (hpieces ▸ hg)
 have hcut : cutFirst [':', ':'] t = some ([':'].intercalate l, [':'].intercalate r) := by
  rw [← join_splitOn ':' t, cutFirst_join fun g hg => not_mem_piece hg, h]
  rfl
 have hleft : groupsOf ([':'].intercalate l) = trim l :=
  groupsOf_pieces (fun g hg => hfree g (List.mem_append_left _ hg)) hl
 have hright : groupsOf ([':'].intercalate r) = trim r :=
  groupsOf_pieces (fun g hg => hfree g (List.mem_append_right _ (List.mem_cons_of_mem _ hg))) hr
 simp only [expandGroups, hcut, hleft, hright]
 by_cases hover : 8 < (trim l).length + (trim r).length
 · rw [if_pos hover, if_pos (by omega)]
 · have hzeros : (8 - ((trim l).length : ℤ) - ((trim r).length : ℤ)).toNat = 8 -
    ((trim l).length + (trim r).length) := by
    omega
   rw [if_neg hover, if_neg (by omega), hzeros]

theorem ipv6ToBytes_none (hs : s.splitOn ':' = q ++ [p]) (h : gap (q ++ lastGroups p) = none)
  (hlen : 8 ≤ q.length + (lastGroups p).length) :
  ipv6ToBytes s = .ok (((q.map hexWord ++ lastWords p).take 8).flatMap wordBytes) := by
 have hpieces := normalizeTail_pieces hs
 rw [ipv6ToBytes, expandGroups_none (hpieces ▸ h), hpieces, Except.map,
  groupsToBytes_words (by rwa [List.length_append]), List.map_take, List.map_append, lastGroups_words]

theorem ipv6ToBytes_some (hs : s.splitOn ':' = q ++ [p]) (h : gap (q ++ lastGroups p) = some (l, r)) :
  ipv6ToBytes s = if 8 < (trim l).length + (trim r).length then .error .invalidArrayLength
   else .ok (((trim l).map hexWord ++ List.replicate (8 - ((trim l).length + (trim r).length)) 0 ++
    (trim r).map hexWord).flatMap wordBytes) := by
 have hzero : hexWord ['0'] = 0 := by decide
 rw [ipv6ToBytes, expandGroups_some (normalizeTail_pieces hs ▸ h)]
 split
 · rfl
 · next hfits =>
   have hlen : (trim l ++ List.replicate (8 - ((trim l).length + (trim r).length))
    ['0'] ++ trim r).length = 8 := by
    simp only [List.length_append, List.length_replicate]
    omega
   rw [Except.map, groupsToBytes_words hlen.ge, List.take_of_length_le hlen.le]
   simp [hzero]

def addedWords (pieces : List Text) : List ℕ :=
  pieces.dropLast.map hexWord ++ (pieces.getLast?.map lastWords).getD []

def SameWords (a b : List ℕ) : Prop := a.dropWhile (· = 0) = b.dropWhile (· = 0)

/-- The words read right of `::` fit, and stand for what is written there. -/
def SameAfter (left right : Text) (after : List ℕ) : Prop :=
  (groupsOf left).length + after.length ≤ 8 ∧ SameWords after ((groupsOf right).flatMap partWords)

/-- A zone with dots takes the last group of the address into a dotted quad. -/
def HarmlessDots (address zone : Text) : Prop :=
  let read := dotWords (afterLast ':' address ++ '%' :: zone)
  match cutFirst [':', ':'] address with
  | none => (rfcWords address)[7]? = read[0]?
  | some (left, right) => SameAfter left right ((groupsOf right).dropLast.map hexWord ++ read)

/-- A zone with colons adds its later pieces to the groups, and a dotted quad
    before them is one group. -/
def HarmlessColons (address zone : Text) : Prop :=
  let added := (zone.splitOn ':').tail
  match cutFirst [':', ':'] address with
  | none =>
    if '.' ∈ address then
      (rfcWords address)[6]? = some 0 ∧
        (([] ∉ added.dropLast ∧ (rfcWords address)[7]? = (addedWords added)[0]?) ∨
          (∃ piece, '.' ∉ piece ∧ added = [[], piece] ∧ (rfcWords address)[7]? = some (hexWord piece)) ∨
          ∃ piece, piece ≠ [] ∧ added = [piece, [], []] ∧ (rfcWords address)[7]? = some (hexWord piece))
    else [] ∉ added.dropLast ∨ added = [[], []]
  | some (left, right) =>
    SameAfter left right
     ((if groupsOf right = [] then [0] else (groupsOf right).map hexWord) ++ addedWords added)

/-- The zones behind which an address is still read for what it stands for. -/
def HarmlessZone (address zone : Text) : Prop :=
  if ':' ∈ zone then HarmlessColons address zone
  else '.' ∈ zone → '.' ∉ address → HarmlessDots address zone

end Readings

section Parts

variable {g quad z : Text} {parts : List Text} {width : ℕ}

theorem ofDigits_lt {radix : ℕ} (ds : List ℕ) (h : ∀ d ∈ ds, d < radix) :
  ofDigits radix ds < radix ^ ds.length := by
 induction ds using List.reverseRecOn with
 | nil => simp [ofDigits]
 | append_singleton ds d ih =>
  have hd : d < radix := h d (by simp)
  have hrest := ih fun e he => h e (List.mem_append_left _ he)
  have hsplit : ofDigits radix (ds ++ [d]) = ofDigits radix ds * radix + d := by
   rw [ofDigits, List.foldl_append]
   rfl
  rw [hsplit, List.length_append, List.length_singleton, pow_succ]
  calc ofDigits radix ds * radix + d < (ofDigits radix ds + 1) * radix := by
        rw [Nat.add_one_mul]
        omega
   _ ≤ radix ^ ds.length * radix := Nat.mul_le_mul_right _ hrest

theorem digitValues_lt {radix : ℕ} (h : ∀ c ∈ g, isDigit radix c = true) {d : ℕ}
  (hd : d ∈ g.filterMap digitValue) :
  d < radix := by
 obtain ⟨c, hc, hvalue⟩ := List.mem_filterMap.1 hd
 obtain ⟨d', hlt, hd'⟩ := isDigit_iff.1 (h c hc)
 rw [hvalue] at hd'
 exact Option.some.inj hd' ▸ hlt

theorem parseInt_number {radix : ℕ} (h16 : radix ≤ 16) (hne : g ≠ [])
  (hall : ∀ c ∈ g, isDigit radix c = true) (hlt : numberOf radix g < 2 ^ 53) :
  parseInt g radix = some (numberOf radix g : ℤ) := by
 rw [parseInt_digits h16 hne hall, ← numberOf.eq_1, toNumber, if_pos hlt, Option.map_some]

theorem hexGroup_digits (h : isHexGroup g = true) :
  g ≠ [] ∧ g.length ≤ 4 ∧ ∀ c ∈ g, isDigit 16 c = true := by
 simp only [isHexGroup, Bool.and_eq_true, decide_eq_true_eq, List.all_eq_true] at h
 obtain ⟨⟨hpos, hle⟩, hall⟩ := h
 refine ⟨fun hnil => ?_, hle, hall⟩
 rw [hnil] at hpos
 simp at hpos

theorem hexGroup_lt (h : isHexGroup g = true) : numberOf 16 g < 65536 := by
 obtain ⟨-, hle, hall⟩ := hexGroup_digits h
 have hlen : (g.filterMap digitValue).length ≤ 4 := (List.length_filterMap_le _ _).trans hle
 calc numberOf 16 g < 16 ^ (g.filterMap digitValue).length :=
  ofDigits_lt _ fun d hd => digitValues_lt hall hd
  _ ≤ 16 ^ 4 := Nat.pow_le_pow_right (by omega) hlen

theorem hexWord_group (h : isHexGroup g = true) : hexWord g = numberOf 16 g := by
 obtain ⟨hne, -, hall⟩ := hexGroup_digits h
 have hlt := hexGroup_lt h
 rw [hexWord, parseInt_number (by omega) hne hall (by omega), wordOf, Option.getD_some]
 omega

theorem parseInt_percent (s t : Text) (radix : ℕ) :
  parseInt (s ++ '%' :: t) radix = parseInt s radix :=
 parseInt_stop (by decide) (by decide) (by decide) (by decide) s t radix

theorem hexWord_percent (g z : Text) : hexWord (g ++ '%' :: z) = hexWord g := by
 rw [hexWord, hexWord, parseInt_percent]

theorem octet_digits (h : isOctet g = true) : (∀ c ∈ g, isDigit 10 c = true) ∧ g ≠ [] ∧
  (g.length = 1 ∨ g.head? ≠ some '0') ∧ numberOf 10 g ≤ 255 := by
 simp only [isOctet, Bool.and_eq_true, Bool.or_eq_true, decide_eq_true_eq, List.all_eq_true, beq_iff_eq,
  bne_iff_ne, Bool.not_eq_true', List.isEmpty_eq_false_iff] at h
 obtain ⟨⟨hall, hform⟩, hle⟩ := h
 refine ⟨hall, ?_, hform.imp_right fun hhead => hhead.1, ?_⟩
 · rcases hform with hone | hhead
   · exact List.ne_nil_of_length_pos (by omega)
   · exact hhead.2
 · rwa [digitsPrefix_eq hall] at hle

theorem octet_byte (h : isOctet g = true) : (toUint8 (parseInt g 10)).toNat = numberOf 10 g := by
 obtain ⟨hall, hne, -, hle⟩ := octet_digits h
 rw [parseInt_number (by omega) hne hall (by omega), toUint8, UInt8.toNat_ofNat']
 omega

theorem quad_parts (h : isIPv4 quad = true) : ∃ a b c d, quad.splitOn '.' = [a, b, c, d] ∧
  isOctet a = true ∧ isOctet b = true ∧ isOctet c = true ∧ isOctet d = true := by
 simp only [isIPv4, Bool.and_eq_true, beq_iff_eq] at h
 obtain ⟨hlen, hall⟩ := h
 obtain ⟨a, b, c, d, hparts⟩ := List.length_eq_four.1 hlen
 rw [hparts] at hall
 simp only [List.all_cons, List.all_nil, Bool.and_true, Bool.and_eq_true] at hall
 exact ⟨a, b, c, d, hparts, hall⟩

theorem dotWords_of_parts {a b c d : Text} {rest : List Text}
  (h : g.splitOn '.' = a :: b :: c :: d :: rest) :
  dotWords g = [(toUint8 (parseInt a 10)).toNat * 256 + (toUint8 (parseInt b 10)).toNat,
   (toUint8 (parseInt c 10)).toNat * 256 + (toUint8 (parseInt d 10)).toNat] := by
 simp only [dotWords, ipv4ToBytes, h]
 rfl

theorem dotWords_quad (h : isIPv4 quad = true) : dotWords quad = quadWords quad ∧
  dotWords (quad ++ '%' :: z) = quadWords quad := by
 obtain ⟨a, b, c, d, hparts, ha, hb, hc, hd⟩ := quad_parts h
 obtain ⟨first, rest, hz⟩ := List.exists_cons_of_ne_nil (List.splitOn_ne_nil '.' z)
 have hpercent : ('%' :: z).splitOn '.' = ('%' :: first) :: rest := splitOn_cons_ne (by decide) hz
 have hjoined : (quad ++ '%' :: z).splitOn '.' = a :: b :: c :: (d ++ '%' :: first) :: rest := by
  have := splitOn_append (q := [a, b, c]) (p := d) (by rw [hparts]; rfl) hpercent
  simpa using this
 have hwords :
  quadWords quad = [numberOf 10 a * 256 + numberOf 10 b, numberOf 10 c * 256 + numberOf 10 d] := by
  rw [quadWords, hparts]
  rfl
 rw [dotWords_of_parts hparts, dotWords_of_parts hjoined, parseInt_percent, octet_byte ha,
  octet_byte hb, octet_byte hc,
  octet_byte hd, hwords]
 exact ⟨rfl, rfl⟩

theorem quad_dot (h : isIPv4 quad = true) : '.' ∈ quad := by
 by_contra hnone
 obtain ⟨a, b, c, d, hparts, -⟩ := quad_parts h
 rw [splitOn_absent hnone] at hparts
 simp at hparts

theorem hexGroup_plain (h : isHexGroup g = true) : '.' ∉ g ∧ ':' ∉ g ∧ '%' ∉ g ∧ g ≠ [] := by
 obtain ⟨hne, -, hall⟩ := hexGroup_digits h
 exact ⟨fun hmem => (isDigit_plain (hall _ hmem)).2.2.2.2.2.2.2.1 rfl, fun hmem =>
  (isDigit_plain (hall _ hmem)).2.2.2.2.2.2.1 rfl,
  fun hmem => (isDigit_plain (hall _ hmem)).2.2.2.2.2.1 rfl, hne⟩

theorem not_hexGroup_of_dot (h : '.' ∈ g) : isHexGroup g = false := by
 by_contra hgroup
 exact (hexGroup_plain (by simpa using hgroup)).1 h

theorem tailWidth_cases (h : tailWidth parts = some width) : (parts = [] ∧ width = 0) ∨
  ∃ q p, parts = q ++ [p] ∧ (∀ g ∈ q, isHexGroup g = true) ∧
   ((isHexGroup p = true ∧ width = q.length + 1) ∨ (isIPv4 p = true ∧ width = q.length + 2)) := by
 induction parts generalizing width with
 | nil =>
  obtain rfl : 0 = width := by simpa [tailWidth] using h
  exact .inl ⟨rfl, rfl⟩
 | cons g parts ih =>
  right
  cases parts with
  | nil =>
   refine ⟨[], g, rfl, by simp, ?_⟩
   rw [tailWidth] at h
   split at h
   · next hgroup => exact .inl ⟨hgroup, (Option.some.inj h).symm⟩
   · split at h
     · next hquad => exact .inr ⟨hquad, (Option.some.inj h).symm⟩
     · cases h
  | cons g' parts =>
   simp only [tailWidth] at h
   split at h
   · next hgroup =>
     obtain ⟨rest, hrest, rfl⟩ := Option.map_eq_some_iff.1 h
     rcases ih hrest with ⟨hnil, -⟩ | ⟨q, p, hparts, hall, hlast⟩
     · cases hnil
     · refine ⟨g :: q, p, by rw [hparts, List.cons_append], ?_, ?_⟩
       · simpa [hgroup] using hall
       · simpa [Nat.add_right_comm] using hlast
   · cases h

theorem hexGroups_words {q : List Text} (h : ∀ g ∈ q, isHexGroup g = true) :
  q.flatMap partWords = q.map hexWord := by
 induction q with
 | nil => rfl
 | cons g q ih =>
  have hg : isHexGroup g = true := h g List.mem_cons_self
  rw [List.flatMap_cons, List.map_cons, ih fun g' hg' => h g' (List.mem_cons_of_mem _ hg'),
   partWords, if_pos hg,
   hexWord_group hg]
  rfl

theorem quadWords_eq (h : isIPv4 quad = true) :
  ∃ a b c d, isOctet a = true ∧ quad.splitOn '.' = [a, b, c, d] ∧
  quadWords quad = [numberOf 10 a * 256 + numberOf 10 b, numberOf 10 c * 256 + numberOf 10 d] := by
 obtain ⟨a, b, c, d, hparts, ha, -⟩ := quad_parts h
 refine ⟨a, b, c, d, ha, hparts, ?_⟩
 rw [quadWords, hparts]
 rfl

theorem quadWords_length (h : isIPv4 quad = true) : (quadWords quad).length = 2 := by
 obtain ⟨a, b, c, d, -, -, hwords⟩ := quadWords_eq h
 rw [hwords]
 rfl

theorem quad_words {p : Text} (h : isIPv4 p = true) : partWords p = quadWords p := by
 rw [partWords, not_hexGroup_of_dot (quad_dot h), if_neg (by simp)]

end Parts

section Shapes

variable {address : Text}

/-- An address without `::`: groups and a last part. -/
structure PlainShape (address : Text) (q : List Text) (p : Text) : Prop where
  pieces : address.splitOn ':' = q ++ [p]
  cut : cutFirst [':', ':'] address = none
  hq : ∀ g ∈ q, isHexGroup g = true

/-- An address with `::`: the pieces left of it, the groups right of it and a
    last part, which is empty where nothing stands there. -/
structure GapShape (address left right : Text) (l q : List Text) (p : Text) : Prop where
  pieces : address.splitOn ':' = l ++ [] :: (q ++ [p])
  cut : cutFirst [':', ':'] address = some (left, right)
  hl : l ≠ []
  inner : [] ∉ l.tail
  hleft : groupsOf left = trim l
  hright : groupsOf right = trim (q ++ [p])
  hgroups : ∀ g ∈ trim l, isHexGroup g = true
  hq : ∀ g ∈ q, isHexGroup g = true
  hp : (q = [] ∧ p = []) ∨ isHexGroup p = true ∨ isIPv4 p = true
  length : (trim l).length + ((trim (q ++ [p])).flatMap partWords).length ≤ 7

inductive Shape (address : Text) : Prop where
  | groups (q : List Text) (p : Text) (h : PlainShape address q p) (hp : isHexGroup p = true) (length : q.length = 7)
  | quad (q : List Text) (p : Text) (h : PlainShape address q p) (hp : isIPv4 p = true) (length : q.length = 6)
  | gap (left right : Text) (l q : List Text) (p : Text) (h : GapShape address left right l q p)

theorem shape_of_address (h : isIPv6Address address = true) : Shape address := by
 unfold isIPv6Address at h
 split at h
 · next hcut =>
   rcases tailWidth_cases (by simpa using h) with ⟨hnil, -⟩ | ⟨q, p, hpieces, hq, ⟨hp, hlen⟩ | ⟨hp, hlen⟩⟩
   · exact absurd hnil (List.splitOn_ne_nil ':' address)
   · exact .groups q p ⟨hpieces, hcut, hq⟩ hp (by omega)
   · exact .quad q p ⟨hpieces, hcut, hq⟩ hp (by omega)
 · next left right hcut =>
   obtain ⟨hgroups, hwidth⟩ : (∀ g ∈ groupsOf left, isHexGroup g = true) ∧
     ∃ width, tailWidth (groupsOf right) = some width ∧ (groupsOf left).length + width ≤ 7 := by
    rw [Bool.and_eq_true, List.all_eq_true] at h
    refine ⟨h.1, ?_⟩
    cases hwidth : tailWidth (groupsOf right) with
    | none => simp [hwidth] at h
    | some width => exact ⟨width, rfl, by simpa [hwidth] using h.2⟩
   obtain ⟨width, hwidth, hle⟩ := hwidth
   have hgap := hcut
   rw [← join_splitOn ':' address, cutFirst_join fun g hg => not_mem_piece hg,
    Option.map_eq_some_iff] at hgap
   obtain ⟨⟨l, r⟩, hgap, heq⟩ := hgap
   obtain ⟨rfl, rfl⟩ : [':'].intercalate l = left ∧ [':'].intercalate r = right := by simpa using heq
   obtain ⟨hpieces, hl, hr, hinner⟩ := gap_spec hgap
   have hfree : ∀ g ∈ l ++ [] :: r, ':' ∉ g := fun g hg => not_mem_piece (hpieces ▸ hg)
   have hleft := groupsOf_pieces (fun g hg => hfree g (List.mem_append_left _ hg)) hl
   have hright :=
    groupsOf_pieces (fun g hg => hfree g (List.mem_append_right _ (List.mem_cons_of_mem _ hg))) hr
   rw [hleft] at hgroups hle
   rw [hright] at hwidth
   by_cases hempty : r = [[]]
   · refine .gap _ _ l [] [] ⟨by rw [hpieces, hempty, List.nil_append], hcut, hl, hinner, hleft,
      by rw [hright, hempty, List.nil_append], hgroups, by simp, .inl ⟨rfl, rfl⟩, ?_⟩
     have htrim : trim [[]] = [] := rfl
     rw [List.nil_append, htrim, List.flatMap_nil, List.length_nil]
     omega
   · have htrim : trim r = r := if_neg hempty
     rw [htrim] at hwidth hright
     rcases tailWidth_cases hwidth with ⟨hnil, -⟩ | ⟨q, p, hrp, hq, hlast⟩
     · exact absurd hnil hr
     · have hwords : (r.flatMap partWords).length = width := by
        rw [hrp, List.flatMap_append, List.length_append, hexGroups_words hq, List.length_map,
         List.flatMap_singleton]
        rcases hlast with ⟨hp, rfl⟩ | ⟨hp, rfl⟩
        · rw [partWords, if_pos hp, List.length_singleton]
        · rw [quad_words hp, quadWords_length hp]
       refine .gap _ _ l q p
        ⟨by rw [hpieces, hrp], hcut, hl, hinner, hleft, by rw [hright, ← hrp, htrim], hgroups, hq,
        .inr (hlast.imp (·.1) (·.1)), ?_⟩
       rw [← hrp, htrim, hwords]
       exact hle

end Shapes

end BoardGamesEmpire.SecureHttpIpZones
