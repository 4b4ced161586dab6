import BoardGamesEmpire.SecureHttpIp

set_option autoImplicit false

/-!
# The canonical text of an address reads back as the same address

The compressor and the `::` expander are separate code. Both are reduced to
the eight groups: the compressor only ever cuts out a block of zero groups, and
the expander puts back as many as are missing.
-/
namespace BoardGamesEmpire.SecureHttpIpRoundTrip
open JsText SecureHttpIp

def Group (g : Text) : Prop :=
  g ≠ [] ∧ ∀ c ∈ g, c ≠ ':' ∧ c ≠ '.' ∧ c ≠ '%' ∧ c.toNat < 128 ∧ c.toLower = c

theorem toText_group {radix : ℕ} (h2 : 1 < radix) (h16 : radix ≤ 16) (n : ℕ) :
  Group (toText radix n) := by
 refine ⟨Nat.toDigits_ne_nil, fun c hc => ?_⟩
 obtain ⟨d, hd, rfl⟩ := toText_chars h2 h16 n c hc
 obtain ⟨hascii, hlower, hcolon, hdot, hpercent, -⟩ := digitChar_lower d hd
 exact ⟨hcolon, hdot, hpercent, hascii, hlower⟩

theorem toLowerCase_fixed (casing : LowerCasing) (s : Text)
  (h : ∀ c ∈ s, c.toNat < 128 ∧ c.toLower = c) : casing.toLowerCase s = s := by
 rw [casing.ascii s fun c hc => (h c hc).1]
 exact (List.map_congr_left fun c hc => (h c hc).2).trans (List.map_id s)

variable {groups : List Text}

theorem join_ne_nil {sep : Char} (hg : ∀ g ∈ groups, Group g)
  (hne : groups ≠ []) : [sep].intercalate groups ≠ [] := by
 cases groups with
 | nil => exact absurd rfl hne
 | cons g gs =>
  have := (hg g (by simp)).1
  cases gs with
  | nil => simpa [List.intercalate] using this
  | cons g2 gs => simp [List.intercalate_cons_cons]

theorem join_cons (sep : Char) (g : Text) (gs : List Text) :
  ∃ tail, [sep].intercalate (g :: gs) = g ++ tail := by
 cases gs with
 | nil => exact ⟨[], by simp [List.intercalate]⟩
 | cons g2 gs =>
  exact ⟨[sep] ++ [sep].intercalate (g2 :: gs), by
   rw [List.intercalate_cons_cons, List.append_assoc]⟩

theorem groupsOf_join (hg : ∀ g ∈ groups, Group g) :
  groupsOf (joinGroups groups) = groups := by
 unfold groupsOf joinGroups
 by_cases hne : groups = []
 · simp [hne, List.intercalate]
 · rw [if_neg (join_ne_nil hg hne)]
   exact List.splitOn_intercalate ':' (fun g hmem hc => ((hg g hmem).2 ':' hc).1 rfl) hne

theorem cutFirst_colon {g rest : Text} (hg : Group g) :
  cutFirst [':', ':'] (':' :: (g ++ rest)) =
   (cutFirst [':', ':'] (g ++ rest)).map fun cut => (':' :: cut.1, cut.2) := by
 obtain ⟨hne, hc⟩ := hg
 cases g with
 | nil => exact absurd rfl hne
 | cons c g =>
  have hpre : ¬ [':', ':'] <+: ':' :: (c :: g ++ rest) := by
   intro hp
   have := (List.cons_prefix_cons.1 (List.cons_prefix_cons.1 hp).2).1
   exact (hc c List.mem_cons_self).1 this.symm
  rw [cutFirst, if_neg hpre]

theorem cutFirst_join (hg : ∀ g ∈ groups, Group g) (rest : Text) :
  cutFirst [':', ':'] (joinGroups groups ++ [':', ':'] ++ rest) =
   some (joinGroups groups, rest) := by
 have hcut : cutFirst [':', ':'] ([':', ':'] ++ rest) = some ([], rest) := by
  simp [cutFirst]
 unfold joinGroups
 induction groups with
 | nil => simpa [List.intercalate] using hcut
 | cons g gs ih =>
  have hcolon : ':' ∉ g := fun hmem => ((hg g (by simp)).2 ':' hmem).1 rfl
  cases gs with
  | nil =>
   simp only [List.intercalate, List.intersperse_singleton, List.flatten_cons, List.flatten_nil,
    List.append_nil]
   rw [List.append_assoc, cutFirst_append hcolon, hcut]
   simp
  | cons g2 gs =>
   have hrest := ih fun g' hmem => hg g' (List.mem_cons_of_mem _ hmem)
   obtain ⟨tail, htail⟩ := join_cons ':' g2 gs
   rw [List.intercalate_cons_cons]
   simp only [List.append_assoc] at hrest ⊢
   rw [cutFirst_append hcolon]
   rw [htail] at hrest ⊢
   simp only [List.append_assoc, List.cons_append, List.nil_append] at hrest ⊢
   rw [cutFirst_colon (hg g2 (by simp)), hrest]
   simp

theorem cutFirst_join_none (hg : ∀ g ∈ groups, Group g) :
  cutFirst [':', ':'] (joinGroups groups) = none := by
 unfold joinGroups
 induction groups with
 | nil => simp [List.intercalate, cutFirst]
 | cons g gs ih =>
  have hcolon : ':' ∉ g := fun hmem => ((hg g (by simp)).2 ':' hmem).1 rfl
  cases gs with
  | nil => simpa [List.intercalate] using (cutFirst_absent hcolon : cutFirst [':', ':'] g = none)
  | cons g2 gs =>
   have hrest := ih fun g' hmem => hg g' (List.mem_cons_of_mem _ hmem)
   obtain ⟨tail, htail⟩ := join_cons ':' g2 gs
   rw [List.intercalate_cons_cons, List.append_assoc, cutFirst_append hcolon]
   rw [htail] at hrest ⊢
   simp only [List.cons_append, List.nil_append]
   rw [cutFirst_colon (hg g2 (by simp)), hrest]
   rfl

/-- The best run found so far is a block of zero groups, and the current run
    ends where the scan stands. -/
structure RunsTo (groups : List Text) (k : ℕ) (run : ZeroRun) : Prop where
  best : 0 < run.bestLen → ∃ start, run.bestStart = some start ∧ start + run.bestLen ≤ k ∧
    ∀ j, start ≤ j → j < start + run.bestLen → groups[j]? = some ['0']
  current : ∀ start, run.curStart = some start → start + run.curLen = k ∧
    ∀ j, start ≤ j → j < k → groups[j]? = some ['0']
  idle : run.curStart = none → run.curLen = 0

theorem scanGroup_runsTo {k : ℕ} {run : ZeroRun}
  (h : RunsTo groups k run) : RunsTo groups (k + 1) (scanGroup groups run k) := by
 unfold scanGroup
 by_cases hzero : groups[k]? = some ['0']
 · simp only [hzero, ↓reduceIte]
   have hcur : run.curStart.getD k + (run.curLen + 1) = k + 1 ∧
     ∀ j, run.curStart.getD k ≤ j → j < k + 1 → groups[j]? = some ['0'] := by
    cases hs : run.curStart with
    | none =>
     have := h.idle hs
     refine ⟨by simp [this], fun j hj hk => ?_⟩
     have : j = k := by simp at hj; omega
     rw [this, hzero]
    | some start =>
     obtain ⟨hlen, hall⟩ := h.current start hs
     refine ⟨by simp; omega, fun j hj hk => ?_⟩
     by_cases heq : j = k
     · rw [heq, hzero]
     · exact hall j (by simpa using hj) (by omega)
   split
   · refine ⟨fun _ => ⟨_, rfl, ?_, fun j hj hk => hcur.2 j hj ?_⟩, fun start hs => ?_, nofun⟩
     · simp only
       omega
     · simp only at hk
       omega
     · cases hs
       exact hcur
   · refine ⟨fun hpos => ?_, fun start hs => ?_, nofun⟩
     swap
     · cases hs
       exact hcur
     obtain ⟨start, hs, hle, hall⟩ := h.best hpos
     exact ⟨start, hs, by simp only at hle ⊢; omega, hall⟩
 · simp only [hzero, ↓reduceIte]
   refine ⟨fun hpos => ?_, nofun, fun _ => rfl⟩
   obtain ⟨start, hs, hle, hall⟩ := h.best hpos
   exact ⟨start, hs, by simp only at hle ⊢; omega, hall⟩

theorem scan_runsTo (groups : List Text) (k : ℕ) :
  RunsTo groups k ((List.range k).foldl (scanGroup groups) ⟨none, 0, none, 0⟩) := by
 induction k with
 | zero => exact ⟨fun h => absurd h (by simp), nofun, fun _ => rfl⟩
 | succ k ih =>
  rw [List.range_succ, List.foldl_append]
  exact scanGroup_runsTo ih

theorem longestZeroRun_block (hlen : groups.length = 8) (h : 2 ≤ (longestZeroRun groups).bestLen) :
  groups = groups.take ((longestZeroRun groups).bestStart.getD 0) ++
   List.replicate (longestZeroRun groups).bestLen ['0'] ++
   groups.drop ((longestZeroRun groups).bestStart.getD 0 + (longestZeroRun groups).bestLen) ∧
  (longestZeroRun groups).bestStart.getD 0 + (longestZeroRun groups).bestLen ≤ 8 := by
 obtain ⟨start, hs, hle, hall⟩ := (scan_runsTo groups 8).best (by
  change 0 < (longestZeroRun groups).bestLen
  omega)
 change (longestZeroRun groups).bestStart = some start at hs
 change start + (longestZeroRun groups).bestLen ≤ 8 at hle
 change ∀ j, start ≤ j → j < start + (longestZeroRun groups).bestLen → _ at hall
 rw [hs]
 simp only [Option.getD_some]
 refine ⟨?_, hle⟩
 have hmid : (groups.drop start).take (longestZeroRun groups).bestLen =
   List.replicate (longestZeroRun groups).bestLen ['0'] := by
  rw [List.eq_replicate_iff]
  refine ⟨by simp; omega, fun g hg => ?_⟩
  obtain ⟨i, hi, rfl⟩ := List.mem_iff_getElem.1 hg
  simp only [List.length_take, List.length_drop] at hi
  have := hall (start + i) (by omega) (by omega)
  rw [List.getElem?_eq_getElem (by omega)] at this
  simpa using this
 rw [← hmid, List.append_assoc, ← List.drop_drop, List.take_append_drop, List.take_append_drop]

theorem hexGroups_length (bytes : List UInt8) : (hexGroups bytes).length = 8 := by
 simp [hexGroups]

theorem hexGroups_group {bytes : List UInt8} {g : Text} (hg : g ∈ hexGroups bytes) : Group g := by
 obtain ⟨i, -, rfl⟩ := List.mem_map.1 hg
 exact toText_group (by omega) (by omega) _

theorem digit_hex : ∀ d < 16, isDigit 16 (Nat.digitChar d) = true := by decide

theorem toText_isHexGroup {n : ℕ} (hn : n < 65536) : isHexGroup (toText 16 n) = true := by
 have hpos : 1 ≤ (toText 16 n).length := Nat.length_toDigits_pos
 have hle : (toText 16 n).length ≤ 4 := (Nat.length_toDigits_le_iff (by omega) (by omega)).2 hn
 have hall : (toText 16 n).all (isDigit 16) = true := by
  rw [List.all_eq_true]
  intro c hc
  obtain ⟨d, hd, rfl⟩ := toText_chars (by omega) (by omega) n c hc
  exact digit_hex d hd
 simp [isHexGroup, hpos, hle, hall]

theorem hexGroups_isHexGroup (bytes : List UInt8) {g : Text} (hg : g ∈ hexGroups bytes) :
  isHexGroup g = true := by
 obtain ⟨i, -, rfl⟩ := List.mem_map.1 hg
 apply toText_isHexGroup
 have hhi := (bytes.getD (2 * i) 0).toNat_lt
 have hlo := (bytes.getD (2 * i + 1) 0).toNat_lt
 omega

theorem tailWidth_hex (h : ∀ g ∈ groups, isHexGroup g = true) :
  tailWidth groups = some groups.length := by
 induction groups with
 | nil => rfl
 | cons g gs ih =>
  have hg := h g (by simp)
  have hrest := ih fun g' hmem => h g' (List.mem_cons_of_mem _ hmem)
  cases gs with
  | nil => simp [tailWidth, hg]
  | cons g2 gs => simp [tailWidth, hg, hrest]

theorem canonical_shape (bytes : List UInt8) :
  bytesToCanonicalIpv6 bytes = joinGroups (hexGroups bytes) ∨
  ∃ (before after : List Text) (n : ℕ), 2 ≤ n ∧
   hexGroups bytes = before ++ List.replicate n ['0'] ++ after ∧
   bytesToCanonicalIpv6 bytes = joinGroups before ++ [':', ':'] ++ joinGroups after := by
 unfold bytesToCanonicalIpv6
 by_cases h : 2 ≤ (longestZeroRun (hexGroups bytes)).bestLen
 · right
   obtain ⟨hblock, -⟩ := longestZeroRun_block (hexGroups_length bytes) h
   exact ⟨_, _, _, h, hblock, by simp only [h, ↓reduceIte]⟩
 · left
   simp only [h, ↓reduceIte]

variable {c : Char}

theorem canonical_chars {bytes : List UInt8} (hc : c ∈ bytesToCanonicalIpv6 bytes) :
  c = ':' ∨ ∃ g, Group g ∧ c ∈ g := by
 have hjoin : ∀ gs : List Text, (∀ g ∈ gs, g ∈ hexGroups bytes) → c ∈ joinGroups gs →
   c = ':' ∨ ∃ g, Group g ∧ c ∈ g := by
  intro gs hsub hmem
  rcases mem_join hmem with h | ⟨g, hg, hcg⟩
  · exact .inl h
  · exact .inr ⟨g, hexGroups_group (hsub g hg), hcg⟩
 rcases canonical_shape bytes with h | ⟨before, after, n, -, hgroups, h⟩
 · rw [h] at hc
   exact hjoin _ (fun _ hg => hg) hc
 · rw [h] at hc
   simp only [List.append_assoc, List.mem_append, List.mem_cons, List.not_mem_nil, or_false] at hc
   rcases hc with hc | (hc | hc) | hc
   · exact hjoin before (fun g hg => hgroups ▸ by simp [hg]) hc
   · exact .inl hc
   · exact .inl hc
   · exact hjoin after (fun g hg => hgroups ▸ by simp [hg]) hc

theorem canonical_plain {bytes : List UInt8} (hc : c ∈ bytesToCanonicalIpv6 bytes) :
  c ≠ '.' ∧ c ≠ '%' ∧ c.toNat < 128 ∧ c.toLower = c := by
 rcases canonical_chars hc with rfl | ⟨g, hg, hcg⟩
 · decide
 · exact (hg.2 c hcg).2

theorem normalizeTail_plain {s : Text} (h : '.' ∉ s) : normalizeTail s = s := by
 have htail : '.' ∉ afterLast ':' s := by
  intro hmem
  rw [afterLast, List.mem_reverse] at hmem
  exact h (List.mem_reverse.1 ((List.takeWhile_prefix _).subset hmem))
 simp only [normalizeTail, htail, ↓reduceIte]

theorem expandGroups_canonical (bytes : List UInt8) :
  expandGroups (bytesToCanonicalIpv6 bytes) = .ok (hexGroups bytes) := by
 have hg : ∀ g ∈ hexGroups bytes, Group g := fun g hg => hexGroups_group hg
 have hlen := hexGroups_length bytes
 unfold expandGroups
 rcases canonical_shape bytes with h | ⟨before, after, n, hn, hgroups, h⟩
 · have hsplit := groupsOf_join hg
   have hne : joinGroups (hexGroups bytes) ≠ [] := join_ne_nil hg (by intro h0; simp [h0] at hlen)
   rw [groupsOf, if_neg hne] at hsplit
   rw [h, cutFirst_join_none hg]
   simp only [hsplit]
 · have hb : ∀ g ∈ before, Group g := fun g hmem => hg g (hgroups ▸ by simp [hmem])
   have ha : ∀ g ∈ after, Group g := fun g hmem => hg g (hgroups ▸ by simp [hmem])
   have hsum : before.length + n + after.length = 8 := by
    rw [hgroups] at hlen
    simp at hlen
    omega
   have hzeros : (8 : ℤ) - before.length - after.length = n := by omega
   rw [h, cutFirst_join hb]
   simp only [groupsOf_join hb, groupsOf_join ha, hzeros]
   rw [if_neg (by omega), hgroups]
   simp

theorem isIPv6_canonical (bytes : List UInt8) : isIPv6 (bytesToCanonicalIpv6 bytes) = true := by
 have hg : ∀ g ∈ hexGroups bytes, Group g := fun g hg => hexGroups_group hg
 have hlen := hexGroups_length bytes
 have hpercent : '%' ∉ bytesToCanonicalIpv6 bytes := fun hmem => (canonical_plain hmem).2.1 rfl
 unfold isIPv6
 rw [cutFirst_absent hpercent]
 change isIPv6Address (bytesToCanonicalIpv6 bytes) = true
 unfold isIPv6Address
 rcases canonical_shape bytes with h | ⟨before, after, n, hn, hgroups, h⟩
 · have hsplit := groupsOf_join hg
   have hne : joinGroups (hexGroups bytes) ≠ [] := join_ne_nil hg (by intro h0; simp [h0] at hlen)
   rw [groupsOf, if_neg hne] at hsplit
   rw [h, cutFirst_join_none hg]
   simp only [hsplit, tailWidth_hex fun g hmem => hexGroups_isHexGroup bytes hmem, hlen, beq_self_eq_true]
 · have hb : ∀ g ∈ before, Group g := fun g hmem => hg g (hgroups ▸ by simp [hmem])
   have ha : ∀ g ∈ after, Group g := fun g hmem => hg g (hgroups ▸ by simp [hmem])
   have hbHex : before.all isHexGroup = true := by
    rw [List.all_eq_true]
    exact fun g hmem => hexGroups_isHexGroup bytes (hgroups ▸ by simp [hmem])
   have haHex : ∀ g ∈ after, isHexGroup g = true :=
    fun g hmem => hexGroups_isHexGroup bytes (hgroups ▸ by simp [hmem])
   have hsum : before.length + n + after.length = 8 := by
    rw [hgroups] at hlen
    simp at hlen
    omega
   rw [h, cutFirst_join hb]
   simp only [groupsOf_join hb, groupsOf_join ha, hbHex, tailWidth_hex haHex, Bool.true_and,
    decide_eq_true_eq]
   omega

theorem isIPv4_canonical (bytes : List UInt8) : isIPv4 (bytesToCanonicalIpv6 bytes) = false := by
 have hdot : '.' ∉ bytesToCanonicalIpv6 bytes := fun hmem => (canonical_plain hmem).1 rfl
 simp [isIPv4, splitOn_absent hdot]

theorem groupValue_toText (n : ℕ) (hn : n < 65536) :
  groupValue (some (toText 16 n)) = some (n : ℤ) := by
 have hne : toText 16 n ≠ [] := Nat.toDigits_ne_nil
 have hvalue : parseInt (toText 16 n) 16 = some (n : ℤ) :=
  parseInt_toText (by omega) (by omega) n (by omega)
 cases htext : toText 16 n with
 | nil => exact absurd htext hne
 | cons c t =>
  rw [htext] at hvalue
  exact hvalue

theorem word_bytes (hi lo : UInt8) :
  [byteAt 8 (some ((hi.toNat * 256 + lo.toNat : ℕ) : ℤ)),
   byteAt 0 (some ((hi.toNat * 256 + lo.toNat : ℕ) : ℤ))] = [hi, lo] := by
 have hhi := hi.toNat_lt
 have hlo := lo.toNat_lt
 have h8 : (((hi.toNat * 256 + lo.toNat : ℕ) : ℤ) / 2 ^ 8 % 256).toNat = hi.toNat := by omega
 have h0 : (((hi.toNat * 256 + lo.toNat : ℕ) : ℤ) / 2 ^ 0 % 256).toNat = lo.toNat := by omega
 simp only [byteAt, h8, h0, UInt8.ofNat_toNat]

theorem groupsToBytes_hexGroups {bytes : List UInt8} (hlen : bytes.length = 16) :
  groupsToBytes (hexGroups bytes) = bytes := by
 have hword : ∀ i < 8, [byteAt 8 (groupValue (hexGroups bytes)[i]?),
   byteAt 0 (groupValue (hexGroups bytes)[i]?)] =
   [bytes.getD (2 * i) 0, bytes.getD (2 * i + 1) 0] := by
  intro i hi
  have hget : (hexGroups bytes)[i]? = some (toText 16
    ((bytes.getD (2 * i) 0).toNat * 256 + (bytes.getD (2 * i + 1) 0).toNat)) := by
   simp [hexGroups, hi]
  have hhi := (bytes.getD (2 * i) 0).toNat_lt
  have hlo := (bytes.getD (2 * i + 1) 0).toNat_lt
  rw [hget, groupValue_toText _ (by omega), word_bytes]
 have hpairs : groupsToBytes (hexGroups bytes) =
   (List.range 8).flatMap fun i => [bytes.getD (2 * i) 0, bytes.getD (2 * i + 1) 0] :=
  List.flatMap_congr fun i hi => hword i (List.mem_range.1 hi)
 rw [hpairs]
 apply List.ext_getElem
 · simp [hlen]
 · intro j hj _
   simp only [List.length_flatMap, List.length_cons, List.length_nil, List.map_const',
    List.length_range, List.sum_replicate, smul_eq_mul] at hj
   have : j < 16 := by omega
   interval_cases j <;> simp [List.range_succ, List.getD_eq_getElem?_getD, hlen]

theorem ipv6ToBytes_canonical {bytes : List UInt8} (hlen : bytes.length = 16) :
  ipv6ToBytes (bytesToCanonicalIpv6 bytes) = .ok bytes := by
 have hdot : '.' ∉ bytesToCanonicalIpv6 bytes := fun hmem => (canonical_plain hmem).1 rfl
 rw [ipv6ToBytes, normalizeTail_plain hdot, expandGroups_canonical]
 simp only [Except.map, groupsToBytes_hexGroups hlen]

theorem groupsToBytes_length (groups : List Text) : (groupsToBytes groups).length = 16 := by
 simp [groupsToBytes]

theorem ipv6ToBytes_length {input : Text} {bytes : List UInt8}
  (h : ipv6ToBytes input = .ok bytes) : bytes.length = 16 := by
 unfold ipv6ToBytes at h
 cases hexp : expandGroups (normalizeTail input) with
 | error e => simp [hexp, Except.map] at h
 | ok groups =>
  simp only [hexp, Except.map, Except.ok.injEq] at h
  rw [← h, groupsToBytes_length]

theorem octet_text (b : UInt8) :
  isOctet (toText 10 b.toNat) = true ∧ toUint8 (parseInt (toText 10 b.toNat) 10) = b := by
 have hb := b.toNat_lt
 constructor
 · have : ∀ n < 256, isOctet (toText 10 n) = true := by decide +kernel
   exact this b.toNat hb
 · rw [parseInt_toText (by omega) (by omega) _ (by omega)]
   have : ((b.toNat : ℤ) % 256).toNat = b.toNat := by omega
   simp only [toUint8, this, UInt8.ofNat_toNat]

theorem dottedQuad_parts (bytes : List UInt8) : (dottedQuad bytes).splitOn '.' =
  (List.range 4).map fun i => toText 10 (bytes.getD i 0).toNat := by
 apply List.splitOn_intercalate
 · intro part hpart hdot
   obtain ⟨i, -, rfl⟩ := List.mem_map.1 hpart
   exact ((toText_group (by omega) (by omega) _).2 '.' hdot).2.1 rfl
 · simp

theorem isIPv4_dottedQuad (bytes : List UInt8) : isIPv4 (dottedQuad bytes) = true := by
 simp only [isIPv4, dottedQuad_parts, List.length_map, List.length_range, beq_self_eq_true,
  Bool.true_and, List.all_map, List.all_eq_true]
 intro i _
 exact (octet_text (bytes.getD i 0)).1

theorem ipv4ToBytes_dottedQuad {bytes : List UInt8} (hlen : bytes.length = 4) :
  ipv4ToBytes (dottedQuad bytes) = bytes := by
 have hpart : ∀ i < 4, toUint8 (((dottedQuad bytes).splitOn '.')[i]?.bind
   fun part => parseInt part 10) = bytes.getD i 0 := by
  intro i hi
  rw [dottedQuad_parts, List.getElem?_map, List.getElem?_range hi]
  exact (octet_text (bytes.getD i 0)).2
 apply List.ext_getElem
 · simp [ipv4ToBytes, hlen]
 · intro i hi hi'
   have := hpart i (by omega)
   simpa [ipv4ToBytes, List.getD_eq_getElem?_getD, hi'] using this

theorem octet_char (h : isDigit 10 c = true) : c.toNat < 128 ∧ c.toLower = c := by
 unfold isDigit digitValue at h
 split_ifs at h with h1 h2 h3
 · have hle : c.toNat ≤ 57 := h1.2
   have hlow : ¬ (65 ≤ c.toNat ∧ c.toNat ≤ 90) := by omega
   refine ⟨by omega, ?_⟩
   unfold Char.toLower
   rw [dif_neg]
   exact hlow
 · simp at h
 · simp at h

theorem isIPv4_plain {s : Text} (h : isIPv4 s = true) (hc : c ∈ s) :
  c.toNat < 128 ∧ c.toLower = c := by
 simp only [isIPv4, Bool.and_eq_true, List.all_eq_true] at h
 have hjoined : List.intercalate ['.'] (s.splitOn '.') = s := List.intercalate_splitOn '.'
 rw [← hjoined] at hc
 rcases mem_join hc with rfl | ⟨part, hpart, hcp⟩
 · decide
 · have hoctet := h.2 part hpart
   simp only [isOctet, Bool.and_eq_true, List.all_eq_true] at hoctet
   exact octet_char (hoctet.1.1 c hcp)

theorem dottedQuad_plain {bytes : List UInt8} (hc : c ∈ dottedQuad bytes) :
  c.toNat < 128 ∧ c.toLower = c := isIPv4_plain (isIPv4_dottedQuad bytes) hc

theorem parseIp_cases {casing : LowerCasing} {s : Text} {p : ParsedIp}
  (h : parseIp casing s = .ok (some p)) :
  (∃ lower, isIPv4 lower = true ∧ p = ⟨.v4, lower, ipv4ToBytes lower, false⟩) ∨
  (∃ bytes : List UInt8, bytes.length = 4 ∧ p = ⟨.v4, dottedQuad bytes, bytes, true⟩) ∨
  (∃ bytes : List UInt8, bytes.length = 16 ∧ isIpv4Mapped bytes = false ∧
   p = ⟨.v6, bytesToCanonicalIpv6 bytes, bytes, false⟩) := by
 unfold parseIp at h
 simp only at h
 split at h
 · rename_i hv4
   cases h
   exact .inl ⟨_, hv4, rfl⟩
 · split at h
   · cases hbytes : ipv6ToBytes (casing.toLowerCase s) with
     | error e => simp [hbytes, Except.map] at h
     | ok bytes =>
      have hlen := ipv6ToBytes_length hbytes
      simp only [hbytes, Except.map, Except.ok.injEq] at h
      split at h
      · cases h
        exact .inr (.inl ⟨_, by simp [hlen], rfl⟩)
      · rename_i hmapped
        cases h
        exact .inr (.inr ⟨_, hlen, by simpa using hmapped, rfl⟩)
   · cases h

/-- The address the dispatcher is pinned to is the address the range checks
    judged: the canonical text parses, to the same family and bytes. -/
theorem parseIp_canonical (casing : LowerCasing) (s : Text) (p : ParsedIp)
    (h : parseIp casing s = .ok (some p)) :
    parseIp casing p.canonical = .ok (some { p with wasIpv4Mapped := false }) := by
 rcases parseIp_cases h with ⟨lower, hv4, rfl⟩ | ⟨bytes, hlen, rfl⟩ | ⟨bytes, hlen, hmapped, rfl⟩
 · have hfixed := toLowerCase_fixed casing lower fun c hc => isIPv4_plain hv4 hc
   simp only [parseIp, hfixed, hv4, ↓reduceIte]
 · have hfixed := toLowerCase_fixed casing (dottedQuad bytes) fun c hc => dottedQuad_plain hc
   simp only [parseIp, hfixed, isIPv4_dottedQuad, ↓reduceIte, ipv4ToBytes_dottedQuad hlen]
 · have hfixed := toLowerCase_fixed casing (bytesToCanonicalIpv6 bytes)
    fun c hc => (canonical_plain hc).2.2
   simp only [parseIp, hfixed, isIPv4_canonical, isIPv6_canonical, ↓reduceIte,
    ipv6ToBytes_canonical hlen, Except.map, hmapped, Bool.false_eq_true]

theorem parseIp_canonical_mapped :
    parseIp asciiLowerCasing "::FFFF:10.0.0.1".toList =
        .ok (some ⟨.v4, "10.0.0.1".toList, [10, 0, 0, 1], true⟩) ∧
      parseIp asciiLowerCasing "10.0.0.1".toList =
        .ok (some ⟨.v4, "10.0.0.1".toList, [10, 0, 0, 1], false⟩) := by
 have h : parseIp asciiLowerCasing "::FFFF:10.0.0.1".toList =
   .ok (some ⟨.v4, "10.0.0.1".toList, [10, 0, 0, 1], true⟩) := by decide +kernel
 exact ⟨h, parseIp_canonical asciiLowerCasing _ _ h⟩

end BoardGamesEmpire.SecureHttpIpRoundTrip
