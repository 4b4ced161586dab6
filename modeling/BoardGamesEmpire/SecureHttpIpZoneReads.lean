import BoardGamesEmpire.SecureHttpIpLetters

set_option autoImplicit false

/-!
# Zones that leave the address as it is

The bytes read behind a zone against the value of the address, by the shape of
the address: one lemma for texts with `::` and one for those without.
-/
namespace BoardGamesEmpire.SecureHttpIpZones
open JsText SecureHttpIp SecureHttpIpRoundTrip SeparatedText

section Reads

variable {s address : Text} {l q m : List Text} {p e : Text} {after : List ℕ}

theorem pad_dropWhile {n : ℕ} (words : List ℕ) (h : words.length ≤ n) :
  List.replicate (n - words.length) 0 ++ words =
   List.replicate (n - (words.dropWhile (· = 0)).length) 0 ++ words.dropWhile (· = 0) := by
 induction words with
 | nil => rfl
 | cons w words ih =>
  rw [List.length_cons] at h
  by_cases hw : w = 0
  · have hcount : n - words.length = (n - (words.length + 1)) + 1 := by omega
    rw [List.dropWhile_cons_of_pos (by simpa using hw), ← ih (by omega), hcount, List.replicate_succ', hw,
     List.append_assoc, List.length_cons]
    rfl
  · rw [List.dropWhile_cons_of_neg (by simpa using hw)]

theorem pad_eq_iff {n : ℕ} {a b : List ℕ} (ha : a.length ≤ n) (hb : b.length ≤ n) :
  List.replicate (n - a.length) 0 ++ a = List.replicate (n - b.length) 0 ++ b ↔ SameWords a b := by
 constructor
 · intro heq
   have hdrop : ∀ (k : ℕ) (words : List ℕ),
     (List.replicate k 0 ++ words).dropWhile (· = 0) = words.dropWhile (· = 0) := by
    intro k words
    induction k with
    | zero => rfl
    | succ k ih => rw [List.replicate_succ, List.cons_append, List.dropWhile_cons_of_pos (by simp), ih]
   rw [SameWords, ← hdrop (n - a.length) a, heq, hdrop]
 · intro hsame
   rw [pad_dropWhile a ha, pad_dropWhile b hb, hsame]

theorem lastWords_lt {w : ℕ} (h : w ∈ lastWords e) : w < 65536 := by
 unfold lastWords at h
 split at h
 · exact dotWords_lt h
 · rw [List.mem_singleton.1 h]
   exact wordOf_lt _

theorem hexWords_lt {w : ℕ} (h : w ∈ m.map hexWord) : w < 65536 := by
 obtain ⟨g, -, rfl⟩ := List.mem_map.1 h
 exact wordOf_lt _

theorem lastGroups_length (e : Text) : (lastGroups e).length = (lastWords e).length := by
 rw [← lastGroups_words, List.length_map]

theorem gap_reads_iff (hs : s.splitOn ':' = l ++ [] :: (m ++ [e])) (hl : l ≠ [])
  (inner : [] ∉ l.tail) (hne : m ++ lastGroups e ≠ [[]]) (hafter : ∀ w ∈ after, w < 65536)
  (hlen : (trim l).length + after.length ≤ 8) :
  ipv6ToBytes s = .ok (((trim l).map hexWord ++ List.replicate (8 - ((trim l).length + after.length)) 0 ++
    after).flatMap wordBytes) ↔
   (trim l).length + (m.map hexWord ++ lastWords e).length ≤ 8 ∧
    SameWords (m.map hexWord ++ lastWords e) after := by
 have hright : m ++ lastGroups e ≠ [] := by
  unfold lastGroups
  split
  · simp [dotWords]
  · simp
 have hgap : gap ((l ++ [] :: m) ++ lastGroups e) = some (l, m ++ lastGroups e) := by
  rw [List.append_assoc, List.cons_append]
  exact gap_eq_some hl hright inner
 have htrim : trim (m ++ lastGroups e) = m ++ lastGroups e := if_neg hne
 have hcount : (m ++ lastGroups e).length = (m.map hexWord ++ lastWords e).length := by
  rw [List.length_append, List.length_append, List.length_map, lastGroups_length]
 rw [ipv6ToBytes_some (q := l ++ [] :: m) (p := e) (by rw [hs, List.append_assoc, List.cons_append])
  hgap, htrim, hcount,
  List.map_append, lastGroups_words]
 generalize hread : m.map hexWord ++ lastWords e = read
 have hreadlt : ∀ w ∈ read, w < 65536 := by
  rw [← hread]
  intro w hw
  exact (List.mem_append.1 hw).elim hexWords_lt lastWords_lt
 by_cases hover : 8 < (trim l).length + read.length
 · rw [if_pos hover]
   constructor
   · intro h
     cases h
   · intro h
     omega
 · rw [if_neg hover]
   have hlt : ∀ (k : ℕ) (words : List ℕ), (∀ w ∈ words, w < 65536) →
     ∀ w ∈ (trim l).map hexWord ++ List.replicate k 0 ++ words, w < 65536 := by
    intro k words hwords w hw
    rw [List.append_assoc, List.mem_append, List.mem_append, List.mem_replicate] at hw
    rcases hw with hw | ⟨-, rfl⟩ | hw
    · exact hexWords_lt hw
    · omega
    · exact hwords w hw
   have hbytes := fun h => wordBytes_inj (hlt (8 - ((trim l).length + read.length)) read hreadlt)
    (hlt (8 - ((trim l).length + after.length)) after hafter) h
   rw [Except.ok.injEq]
   have hpad : ∀ k : ℕ, 8 - ((trim l).length + k) = 8 - (trim l).length - k := fun k => by omega
   rw [hpad, hpad] at hbytes ⊢
   rw [← pad_eq_iff (n := 8 - (trim l).length) (by omega) (by omega)]
   constructor
   · intro h
     have hwords := hbytes h
     rw [List.append_assoc, List.append_assoc, List.append_cancel_left_eq] at hwords
     exact ⟨by omega, hwords⟩
   · intro h
     rw [List.append_assoc, List.append_assoc, h.2]

end Reads

section Gaps

variable {address left right zone : Text} {l q : List Text} {p : Text}

theorem hexWord_nil : hexWord [] = 0 := by decide

theorem trim_words (h : (q = [] ∧ p = []) ∨ isHexGroup p = true ∨ isIPv4 p = true)
  (hq : ∀ g ∈ q, isHexGroup g = true) :
  (trim (q ++ [p])).flatMap partWords = q.map hexWord ++ (if p = [] then [] else partWords p) := by
 rcases h with ⟨rfl, rfl⟩ | hp
 · rfl
 · have hne : p ≠ [] := by
    rcases hp with hp | hp
    · exact (hexGroup_plain hp).2.2.2
    · exact List.ne_nil_of_mem (quad_dot hp)
   have htrim : trim (q ++ [p]) = q ++ [p] := if_neg fun heq => by
    have hlast : q ++ [p] = [] ++ [[]] := heq
    exact hne (concat_inj hlast).2
   rw [htrim, List.flatMap_append, hexGroups_words hq, List.flatMap_singleton, if_neg hne]

theorem partWords_lt (h : isHexGroup p = true ∨ isIPv4 p = true) {w : ℕ} (hw : w ∈ partWords p) :
  w < 65536 := by
 rcases h with hp | hp
 · rw [partWords, if_pos hp, List.mem_singleton] at hw
   rw [hw]
   exact hexGroup_lt hp
 · rw [quad_words hp, ← (dotWords_quad (z := []) hp).1] at hw
   exact dotWords_lt hw

theorem GapShape.words_lt (h : GapShape address left right l q p) {w : ℕ}
  (hw : w ∈ (trim (q ++ [p])).flatMap partWords) : w < 65536 := by
 rw [trim_words h.hp h.hq, List.mem_append] at hw
 rcases hw with hw | hw
 · exact hexWords_lt hw
 · split at hw
   · simp at hw
   · next hne => exact partWords_lt (h.hp.resolve_left fun hnil => hne hnil.2) hw

theorem GapShape.rfcWords (h : GapShape address left right l q p) :
  rfcWords address = (trim l).map hexWord ++
   List.replicate (8 - ((trim l).length + ((trim (q ++ [p])).flatMap partWords).length)) 0 ++
    (trim (q ++ [p])).flatMap partWords := by
 simp only [SecureHttpIpZones.rfcWords, h.cut, h.hleft, h.hright, hexGroups_words h.hgroups,
  List.length_map]

theorem GapShape.dot_iff (h : GapShape address left right l q p) : '.' ∈ address ↔ '.' ∈ p := by
 constructor
 · intro hmem
   rcases mem_piece (c := ':') hmem with hcolon | ⟨g, hg, hdot⟩
   · cases hcolon
   · have hplain : ∀ g ∈ l, '.' ∉ g := by
      intro g hg
      have hgroups := h.hgroups
      unfold trim at hgroups
      split at hgroups
      · next hnil =>
        rw [hnil, List.mem_singleton] at hg
        rw [hg]
        exact List.not_mem_nil
      · exact (hexGroup_plain (hgroups g hg)).1
     rw [h.pieces, List.mem_append, List.mem_cons, List.mem_append, List.mem_singleton] at hg
     rcases hg with hg | rfl | hg | rfl
     · exact absurd hdot (hplain g hg)
     · exact absurd hdot List.not_mem_nil
     · exact absurd hdot (hexGroup_plain (h.hq g hg)).1
     · exact hdot
 · exact mem_of_piece (c := ':') (by rw [h.pieces]; simp)

theorem GapShape.reads_iff (h : GapShape address left right l q p) {s : Text} {m : List Text}
  {e : Text} (hs : s.splitOn ':' = l ++ [] :: (m ++ [e])) (hne : m ++ lastGroups e ≠ [[]]) :
  ipv6ToBytes s = .ok (rfcBytes address) ↔ SameAfter left right (m.map hexWord ++ lastWords e) := by
 rw [rfcBytes, h.rfcWords, gap_reads_iff hs h.hl h.inner hne (fun w => h.words_lt)
  (h.length.trans (by omega)),
  SameAfter, h.hleft, h.hright]

theorem trim_dropLast (q : List Text) (p : Text) : (trim (q ++ [p])).dropLast = q := by
 unfold trim
 split
 · next hnil =>
   have hlast : q ++ [p] = [] ++ [[]] := hnil
   rw [(concat_inj hlast).1]
   rfl
 · exact List.dropLast_concat

theorem trim_hexWords (q : List Text) (p : Text) :
  (if trim (q ++ [p]) = [] then [0] else (trim (q ++ [p])).map hexWord) = (q ++ [p]).map hexWord := by
 unfold trim
 by_cases hnil : q ++ [p] = [[]]
 · rw [if_pos hnil, if_pos rfl, hnil, List.map_singleton, hexWord_nil]
 · rw [if_neg hnil, if_neg (by simp)]

theorem lastWords_percent (hp : p = [] ∨ isHexGroup p = true ∨ isIPv4 p = true)
  (hdot : '.' ∈ zone → '.' ∈ p) :
  lastWords (p ++ '%' :: zone) = if p = [] then [0] else partWords p := by
 have hmem : '.' ∈ p ++ '%' :: zone ↔ '.' ∈ p := by
  simp only [List.mem_append, List.mem_cons]
  constructor
  · rintro (h | h | h)
    · exact h
    · cases h
    · exact hdot h
  · exact .inl
 rw [lastWords]
 rcases hp with rfl | hp | hp
 · rw [if_neg (by simpa using hmem), hexWord_percent, hexWord_nil, if_pos rfl]
 · rw [if_neg (fun h => (hexGroup_plain hp).1 (hmem.1 h)), hexWord_percent,
    if_neg (hexGroup_plain hp).2.2.2, partWords, if_pos hp,
    hexWord_group hp]
 · rw [if_pos (hmem.2 (quad_dot hp)), (dotWords_quad hp).2,
    if_neg (List.ne_nil_of_mem (quad_dot hp)), quad_words hp]

theorem lastGroups_percent_ne (m : List Text) (p zone : Text) :
  m ++ lastGroups (p ++ '%' :: zone) ≠ [[]] := by
 intro heq
 have hlast : (m ++ lastGroups (p ++ '%' :: zone)).getLast? = some [] := by rw [heq]; rfl
 unfold lastGroups at hlast
 split at hlast
 · simp only [dotWords, List.map_cons, List.map_nil, List.getLast?_append, List.getLast?_cons_cons,
    List.getLast?_singleton,
    Option.some_or, Option.some.injEq] at hlast
   exact (toText_plain (by omega) (by omega)).1 hlast
 · simp at hlast

theorem GapShape.zone_iff (h : GapShape address left right l q p) (zone : Text) :
  ipv6ToBytes (address ++ '%' :: zone) = .ok (rfcBytes address) ↔ HarmlessZone address zone := by
 have haddress : address.splitOn ':' = (l ++ [] :: q) ++ [p] := by
  rw [h.pieces, List.append_assoc, List.cons_append]
 have hp : p = [] ∨ isHexGroup p = true ∨ isIPv4 p = true := h.hp.imp_left fun hnil => hnil.2
 rcases splitOn_cases ':' zone with ⟨hcolon, hzone⟩ | ⟨hcolon, z, zs, e, hzone⟩
 · have hpercent : ('%' :: zone).splitOn ':' = ['%' :: zone] := splitOn_cons_ne (by decide) hzone
   have hs : (address ++ '%' :: zone).splitOn ':' = l ++ [] :: (q ++ [p ++ '%' :: zone]) := by
    rw [splitOn_append haddress hpercent, List.append_assoc, List.cons_append]
   rw [h.reads_iff hs (lastGroups_percent_ne q p zone), HarmlessZone, if_neg hcolon]
   by_cases hdot : '.' ∈ zone ∧ '.' ∉ address
   · have hread : lastWords (p ++ '%' :: zone) = dotWords (p ++ '%' :: zone) := if_pos (by simp [hdot.1])
     have hlast : afterLast ':' address = p := (splitOn_cutLast haddress).1
     simp only [HarmlessDots, hdot.1, hdot.2, not_false_eq_true, true_implies, h.cut, h.hright,
      trim_dropLast, hread, hlast]
   · have hquad : '.' ∈ zone → '.' ∈ p := fun hin => h.dot_iff.1 (by
      by_contra hnot
      exact hdot ⟨hin, hnot⟩)
     have htrue : '.' ∈ zone → '.' ∉ address → HarmlessDots address zone :=
      fun hin hnot => absurd ⟨hin, hnot⟩ hdot
     refine iff_of_true ?_ htrue
     rw [SameAfter, h.hleft, h.hright, trim_words h.hp h.hq, lastWords_percent hp hquad]
     have hlength := h.length
     rw [trim_words h.hp h.hq] at hlength
     by_cases hnil : p = []
     · obtain ⟨rfl, -⟩ : q = [] ∧ p = [] := h.hp.resolve_right fun hp => hp.elim
        (fun hp => (hexGroup_plain hp).2.2.2 hnil) fun hp => List.ne_nil_of_mem (quad_dot hp) hnil
       simp only [if_pos hnil, List.map_nil, List.nil_append, List.length_nil,
        List.length_singleton] at hlength ⊢
       exact ⟨by omega, rfl⟩
     · simp only [if_neg hnil] at hlength ⊢
       exact ⟨hlength.trans (by omega), rfl⟩
 · have hpercent : ('%' :: zone).splitOn ':' = ('%' :: z) :: (zs ++ [e]) :=
    splitOn_cons_ne (by decide) hzone
   have hs : (address ++ '%' :: zone).splitOn ':' = l ++ [] :: ((q ++ (p ++ '%' :: z) :: zs) ++ [e]) := by
    rw [splitOn_append haddress hpercent]
    simp
   have hne : (q ++ (p ++ '%' :: z) :: zs) ++ lastGroups e ≠ [[]] := by
    intro heq
    have hlen := congrArg List.length heq
    have hlast : 0 < (lastGroups e).length := by
     unfold lastGroups
     split
     · simp [dotWords]
     · simp
    simp only [List.length_append, List.length_cons, List.length_nil] at hlen
    omega
   rw [h.reads_iff hs hne, HarmlessZone, if_pos hcolon]
   simp only [HarmlessColons, h.cut, hzone, List.tail_cons, h.hright, trim_hexWords]
   have hwords : (q ++ (p ++ '%' :: z) :: zs).map hexWord ++ lastWords e = (q ++ [p]).map
    hexWord ++ addedWords (zs ++ [e]) := by
    simp [addedWords, hexWord_percent]
   rw [hwords]

end Gaps

section Plains

variable {s address zone : Text} {pre zs q l r : List Text} {p e : Text}

theorem lastGroups_inner (e : Text) : [] ∉ (lastGroups e).dropLast := by
 unfold lastGroups
 split
 · have hne : ∀ n, toText 16 n ≠ [] := fun n => (toText_plain (by omega) (by omega)).1
   simpa [dotWords] using (hne _).symm
 · simp

theorem lastGroups_pos (e : Text) : lastGroups e ≠ [] := by
 unfold lastGroups
 split
 · simp [dotWords]
 · simp

theorem lastGroups_of_length (h : (lastGroups e).length = 1) : '.' ∉ e ∧ lastGroups e = [e] := by
 unfold lastGroups at h ⊢
 split at h
 · simp [dotWords] at h
 · next hdot => exact ⟨hdot, if_neg hdot⟩

theorem plain_reads (hs : s.splitOn ':' = pre ++ (zs ++ [e])) (hpre : ∀ g ∈ pre, g ≠ [])
  (hinner : [] ∉ zs) (hlen : 8 ≤ pre.length + (zs ++ lastGroups e).length) :
  ipv6ToBytes s = .ok
   (((pre.map hexWord ++ (zs.map hexWord ++ lastWords e)).take 8).flatMap wordBytes) := by
 have hgap : gap ((pre ++ zs) ++ lastGroups e) = none := by
  rw [gap_eq_none_iff]
  intro hmem
  rw [← List.tail_dropLast, List.dropLast_append_of_ne_nil (lastGroups_pos e)] at hmem
  rcases List.mem_append.1 (List.mem_of_mem_tail hmem) with hin | hin
  · rcases List.mem_append.1 hin with hin | hin
    · exact hpre [] hin rfl
    · exact hinner hin
  · exact lastGroups_inner e hin
 have hread := ipv6ToBytes_none (q := pre ++ zs) (p := e) (by rw [hs, List.append_assoc]) hgap (by
  rw [List.length_append] at hlen ⊢
  omega)
 rw [hread, List.map_append, List.append_assoc]

theorem plain_reads_gap (hs : s.splitOn ':' = pre ++ (zs ++ [e])) (hpre : ∀ g ∈ pre, g ≠ [])
  (hlen : 2 ≤ pre.length) (hinner : [] ∈ zs) :
  ∃ l r, zs ++ lastGroups e = l ++ [] :: r ∧ r ≠ [] ∧ [] ∉ l ∧
   ipv6ToBytes s = if 8 < pre.length + l.length + (trim r).length then .error .invalidArrayLength
    else .ok ((pre.map hexWord ++ (l.map hexWord ++
     (List.replicate (8 - (pre.length + l.length + (trim r).length)) 0 ++ (trim r).map
      hexWord))).flatMap wordBytes) := by
 obtain ⟨l, r, hzs, hfirst⟩ := List.eq_append_cons_of_mem hinner
 have hr : r ++ lastGroups e ≠ [] := by simp [lastGroups_pos]
 have hpieces : (pre ++ zs) ++ lastGroups e = (pre ++ l) ++ [] :: (r ++ lastGroups e) := by simp [hzs]
 have hleft : pre ++ l ≠ [] := by
  intro hnil
  rw [(List.append_eq_nil_iff.1 hnil).1] at hlen
  simp at hlen
 have hgap : gap ((pre ++ zs) ++ lastGroups e) = some (pre ++ l, r ++ lastGroups e) := by
  rw [hpieces]
  refine gap_eq_some hleft hr fun hmem => ?_
  rcases List.mem_append.1 (List.mem_of_mem_tail hmem) with hin | hin
  · exact hpre [] hin rfl
  · exact hfirst hin
 have htrim : trim (pre ++ l) = pre ++ l := if_neg fun heq => by
  have hcount := congrArg List.length heq
  rw [List.length_append, List.length_singleton] at hcount
  omega
 refine ⟨l, r ++ lastGroups e, by rw [hzs, List.append_assoc, List.cons_append], hr, hfirst, ?_⟩
 rw [ipv6ToBytes_some (q := pre ++ zs) (p := e) (by rw [hs, List.append_assoc]) hgap, htrim,
  List.length_append]
 simp only [List.map_append, List.append_assoc]

theorem PlainShape.rfcWords (h : PlainShape address q p) :
  rfcWords address = q.map hexWord ++ partWords p := by
 simp only [SecureHttpIpZones.rfcWords, h.cut, h.pieces, List.flatMap_append, hexGroups_words h.hq,
  List.flatMap_singleton]

theorem PlainShape.dot_iff (h : PlainShape address q p) : '.' ∈ address ↔ '.' ∈ p := by
 constructor
 · intro hmem
   rcases mem_piece (c := ':') hmem with hcolon | ⟨g, hg, hdot⟩
   · cases hcolon
   · rw [h.pieces, List.mem_append, List.mem_singleton] at hg
     rcases hg with hg | rfl
     · exact absurd hdot (hexGroup_plain (h.hq g hg)).1
     · exact hdot
 · exact mem_of_piece (c := ':') (by rw [h.pieces]; simp)

theorem reads_iff_words {words words' : List ℕ} (hs : ipv6ToBytes s = .ok (words.flatMap wordBytes))
  (hwords : ∀ w ∈ words, w < 65536) (hwords' : ∀ w ∈ words', w < 65536) :
  ipv6ToBytes s = .ok (words'.flatMap wordBytes) ↔ words = words' := by
 rw [hs, Except.ok.injEq]
 exact ⟨wordBytes_inj hwords hwords', fun h => by rw [h]⟩

theorem PlainShape.words_lt (h : PlainShape address q p) (hp : isHexGroup p = true ∨
  isIPv4 p = true) {w : ℕ}
  (hw : w ∈ SecureHttpIpZones.rfcWords address) : w < 65536 := by
 rw [h.rfcWords, List.mem_append] at hw
 exact hw.elim hexWords_lt (partWords_lt hp)

theorem take_concat {words : List ℕ} {w : ℕ} (rest : List ℕ) {n : ℕ} (h : words.length + 1 = n) :
  (words ++ w :: rest).take n = words ++ [w] := by
 have hsplit : words ++ w :: rest = (words ++ [w]) ++ rest := by simp
 rw [hsplit, List.take_left' (by simpa using h)]

theorem trim_length (hr : r ≠ []) : (trim r).length = 0 ↔ r = [[]] := by
 unfold trim
 split
 · next hnil => simp [hnil]
 · next hnil => simp [hnil, hr]

theorem lastGroups_single (hinner : [] ∈ zs) (h : (zs ++ lastGroups e).length = 2) :
  '.' ∉ e ∧ lastGroups e = [e] := by
 have hzs : 0 < zs.length := List.length_pos_of_mem hinner
 have hlast : 0 < (lastGroups e).length := List.length_pos_iff.2 (lastGroups_pos e)
 rw [List.length_append] at h
 exact lastGroups_of_length (by omega)

theorem groups_zone_iff (h : PlainShape address q p) (hp : isHexGroup p = true)
  (hlen : q.length = 7) (zone : Text) :
  ipv6ToBytes (address ++ '%' :: zone) = .ok (rfcBytes address) ↔ HarmlessZone address zone := by
 have hdotless : '.' ∉ address := fun hdot => (hexGroup_plain hp).1 (h.dot_iff.1 hdot)
 have hrfc : SecureHttpIpZones.rfcWords address = q.map hexWord ++ [hexWord p] := by
  rw [h.rfcWords, partWords, if_pos hp, hexWord_group hp]
 have hq : ∀ g ∈ q, g ≠ [] := fun g hg => (hexGroup_plain (h.hq g hg)).2.2.2
 have hwords : ∀ {words : List ℕ}, (∀ w ∈ words, w < 65536) →
   ipv6ToBytes (address ++ '%' :: zone) = .ok (words.flatMap wordBytes) →
   (ipv6ToBytes (address ++ '%' :: zone) = .ok (rfcBytes address) ↔
    words = q.map hexWord ++ [hexWord p]) := by
  intro words hlt hread
  rw [rfcBytes, reads_iff_words hread hlt fun w => h.words_lt (.inl hp), hrfc]
 rcases splitOn_cases ':' zone with ⟨hcolon, hzone⟩ | ⟨hcolon, z, zs, e, hzone⟩
 · have hpercent : ('%' :: zone).splitOn ':' = ['%' :: zone] := splitOn_cons_ne (by decide) hzone
   have hs : (address ++ '%' :: zone).splitOn ':' = q ++ ([] ++ [p ++ '%' :: zone]) :=
    splitOn_append h.pieces hpercent
   have hcount : 1 ≤ (lastGroups (p ++ '%' :: zone)).length := List.length_pos_iff.2 (lastGroups_pos _)
   have hread := plain_reads hs hq List.not_mem_nil (by rw [List.nil_append, hlen]; omega)
   rw [HarmlessZone, if_neg hcolon]
   by_cases hdot : '.' ∈ zone
   · have hlast : lastWords (p ++ '%' :: zone) = dotWords (p ++ '%' :: zone) := if_pos (by simp [hdot])
     have hafter : afterLast ':' address = p := (splitOn_cutLast h.pieces).1
     obtain ⟨high, low, hdots⟩ : ∃ high low, dotWords (p ++ '%' :: zone) = [high, low] := ⟨_, _, rfl⟩
     have hhigh : high < 65536 := dotWords_lt (p := p ++ '%' :: zone) (by simp [hdots])
     rw [hlast, hdots, List.map_nil, List.nil_append, take_concat _ (by simpa using hlen)] at hread
     have hlt : ∀ w ∈ q.map hexWord ++ [high], w < 65536 := by
      intro w hw
      rcases List.mem_append.1 hw with hw | hw
      · exact hexWords_lt hw
      · rwa [List.mem_singleton.1 hw]
     rw [hwords hlt hread]
     simp only [HarmlessDots, hdot, hdotless, not_false_eq_true, true_implies, h.cut, hafter, hrfc, hdots]
     have hseventh : (q.map hexWord ++ [hexWord p])[7]? = some (hexWord p) := by
      rw [List.getElem?_append_right (by simp [hlen])]
      simp [hlen]
     rw [hseventh, List.append_cancel_left_eq]
     simp [eq_comm]
   · have hlast : lastWords (p ++ '%' :: zone) = [hexWord p] := by
      rw [lastWords_percent (.inr (.inl hp)) fun hin => absurd hin hdot,
       if_neg (hexGroup_plain hp).2.2.2, partWords,
       if_pos hp, hexWord_group hp]
     rw [hlast, List.map_nil, List.nil_append, take_concat _ (by simpa using hlen)] at hread
     refine iff_of_true ?_ fun hin => absurd hin hdot
     exact (hwords (fun w hw => h.words_lt (.inl hp) (hrfc ▸ hw)) hread).2 rfl
 · have hpercent : ('%' :: zone).splitOn ':' = ('%' :: z) :: (zs ++ [e]) :=
    splitOn_cons_ne (by decide) hzone
   have hs : (address ++ '%' :: zone).splitOn ':' = (q ++ [p ++ '%' :: z]) ++ (zs ++ [e]) := by
    rw [splitOn_append h.pieces hpercent, List.append_cons]
   have hpre : ∀ g ∈ q ++ [p ++ '%' :: z], g ≠ [] := by
    intro g hg
    rcases List.mem_append.1 hg with hg | hg
    · exact hq g hg
    · rw [List.mem_singleton.1 hg]
      simp
   have hprelen : (q ++ [p ++ '%' :: z]).length = 8 := by simp [hlen]
   have hprewords : (q ++ [p ++ '%' :: z]).map hexWord = q.map hexWord ++ [hexWord p] := by
    rw [List.map_append, List.map_singleton, hexWord_percent]
   have hharmless : HarmlessZone address zone ↔ [] ∉ zs ∨ zs ++ [e] = [[], []] := by
    simp only [HarmlessZone, if_pos hcolon, HarmlessColons, h.cut, if_neg hdotless, hzone,
     List.tail_cons, List.dropLast_concat]
   rw [hharmless]
   by_cases hinner : [] ∈ zs
   · obtain ⟨l, r, hpieces, hr, hl, hread⟩ := plain_reads_gap hs hpre (by omega) hinner
     rw [hprelen, hprewords] at hread
     by_cases hfits : l = [] ∧ r = [[]]
     · rw [hfits.1, hfits.2, List.nil_append] at hpieces
       have hlast := (lastGroups_single hinner (by rw [hpieces]; rfl)).2
       refine iff_of_true ?_ (.inr (hlast ▸ hpieces))
       rw [if_neg (by simp [hfits.1, (trim_length hr).2 hfits.2])] at hread
       refine (hwords (fun w hw => h.words_lt (.inl hp) (hrfc ▸ hw)) ?_).2 rfl
       rw [hread]
       simp [hfits.1, hfits.2, trim]
     · have hover : 8 < 8 + l.length + (trim r).length := by
        by_contra hle
        exact hfits ⟨List.length_eq_zero_iff.1 (by omega), (trim_length hr).1 (by omega)⟩
       rw [if_pos hover] at hread
       refine iff_of_false (fun hok => ?_) fun hor => ?_
       · rw [hread] at hok
         cases hok
       · have hzs := hor.resolve_left fun hnot => hnot hinner
         have hpair : zs ++ [e] = [[]] ++ [[]] := hzs
         obtain ⟨hone, rfl⟩ := concat_inj hpair
         have hlast : lastGroups [] = [[]] := rfl
         rw [hone, hlast] at hpieces
         cases l with
         | nil => exact hfits ⟨rfl, by simpa using hpieces.symm⟩
         | cons g l =>
          obtain ⟨hg, -⟩ := List.cons.inj hpieces
          exact hl (hg ▸ List.mem_cons_self)
   · have hread := plain_reads hs hpre hinner (by rw [hprelen]; omega)
     rw [hprewords, List.take_left' (by simp [hlen])] at hread
     refine iff_of_true ?_ (.inl hinner)
     exact (hwords (fun w hw => h.words_lt (.inl hp) (hrfc ▸ hw)) hread).2 rfl

theorem octet_length (h : isOctet p = true) : p.length ≤ 3 := by
 obtain ⟨hall, hne, hform, hle⟩ := octet_digits h
 by_contra hlong
 rcases p with _ | ⟨a, _ | ⟨b, _ | ⟨c, _ | ⟨d, rest⟩⟩⟩⟩
 · simp at hlong
 · simp at hlong
 · simp at hlong
 · simp at hlong
 · have hgrows : ∀ (ds : List ℕ) (n : ℕ), n ≤ ds.foldl (fun n d => n * 10 + d) n := by
    intro ds
    induction ds with
    | nil => exact fun n => le_refl n
    | cons e ds ih =>
     intro n
     exact le_trans (by omega) (ih (n * 10 + e))
   obtain ⟨va, -, ha⟩ := isDigit_iff.1 (hall a (by simp))
   obtain ⟨vb, -, hb⟩ := isDigit_iff.1 (hall b (by simp))
   obtain ⟨vc, -, hc⟩ := isDigit_iff.1 (hall c (by simp))
   obtain ⟨vd, -, hd⟩ := isDigit_iff.1 (hall d (by simp))
   have hlead : va ≠ 0 := by
    rintro rfl
    have hzero : a = '0' := by
     apply Char.toNat_inj.1
     have := digitValue_toNat ha
     simp only [show '0'.toNat = 48 from rfl]
     omega
    rcases hform with hone | hhead
    · simp at hone
    · exact hhead (by rw [hzero]; rfl)
   have hvalue : numberOf 10 (a :: b :: c :: d :: rest) =
     (rest.filterMap digitValue).foldl (fun n d => n * 10 + d)
      ((((0 * 10 + va) * 10 + vb) * 10 + vc) * 10 + vd) := by
    simp only [numberOf, ofDigits, List.filterMap_cons_some ha, List.filterMap_cons_some hb,
     List.filterMap_cons_some hc,
     List.filterMap_cons_some hd, List.foldl_cons]
   have hbig := hgrows (rest.filterMap digitValue) ((((0 * 10 + va) * 10 + vb) * 10 + vc) * 10 + vd)
   omega

theorem octet_hex_le (h : isOctet p = true) : numberOf 16 p ≤ 3 * numberOf 10 p := by
 obtain ⟨hall, -⟩ := octet_digits h
 have hlen : (p.filterMap digitValue).length ≤ 3 := (List.length_filterMap_le _ _).trans (octet_length h)
 have hsmall : ∀ d ∈ p.filterMap digitValue, d < 10 := fun d hd => digitValues_lt hall hd
 unfold numberOf
 generalize p.filterMap digitValue = ds at hlen hsmall ⊢
 rcases ds with _ | ⟨a, _ | ⟨b, _ | ⟨c, _ | ⟨d, ds⟩⟩⟩⟩
 · simp [ofDigits]
 · simp [ofDigits]
   omega
 · simp [ofDigits]
   omega
 · simp [ofDigits]
   omega
 · simp only [List.length_cons] at hlen
   omega

theorem hexWord_quad (h : isIPv4 p = true) {x y : ℕ} (hwords : quadWords p = [x, y]) :
  hexWord p = x ↔ x = 0 := by
 obtain ⟨a, b, c, d, ha, hparts, heq⟩ := quadWords_eq h
 rw [hwords] at heq
 obtain ⟨rfl, -⟩ : x = numberOf 10 a * 256 + numberOf 10 b ∧ _ := by simpa using heq
 obtain ⟨hall, hne, -, hle⟩ := octet_digits ha
 have hhex := octet_hex_le ha
 have htext : p = a ++ '.' :: ['.'].intercalate [b, c, d] := by
  rw [← join_splitOn '.' p, hparts, List.intercalate_cons_cons, List.append_assoc]
  rfl
 have hread : hexWord p = numberOf 16 a := by
  rw [hexWord, htext, parseInt_stop (by decide) (by decide) (by decide) (by decide),
   parseInt_number (by omega) hne (fun c hc => isDigit_mono (by omega) (hall c hc)) (by omega),
    wordOf, Option.getD_some]
  omega
 rw [hread]
 omega

theorem filled_cases (hinner : [] ∈ zs) (hr : r ≠ []) (hl : [] ∉ l)
  (hpieces : zs ++ lastGroups e = l ++ [] :: r) {y : ℕ} : (l.length + (trim r).length ≤ 1 ∧
   l.map hexWord ++ (List.replicate (1 - (l.length + (trim r).length)) 0 ++ (trim r).map hexWord) = [y]) ↔
  (∃ piece, '.' ∉ piece ∧ zs ++ [e] = [[], piece] ∧ y = hexWord piece) ∨
   ∃ piece, piece ≠ [] ∧ zs ++ [e] = [piece, [], []] ∧ y = hexWord piece := by
 constructor
 · rintro ⟨hle, hword⟩
   cases l with
   | nil =>
    left
    rw [List.nil_append] at hpieces
    by_cases hempty : r = [[]]
    · rw [hempty] at hpieces
      obtain ⟨hdot, hlast⟩ := lastGroups_single hinner (by rw [hpieces]; rfl)
      refine ⟨[], List.not_mem_nil, hlast ▸ hpieces, ?_⟩
      rw [hexWord_nil]
      simpa [hempty, trim, eq_comm] using hword
    · have htrim : trim r = r := if_neg hempty
      rw [htrim] at hle hword
      obtain ⟨piece, rfl⟩ : ∃ piece, r = [piece] := by
       apply List.length_eq_one_iff.1
       have := List.length_pos_iff.2 hr
       simp only [List.length_nil] at hle
       omega
      obtain ⟨hdot, hlast⟩ := lastGroups_single hinner (by rw [hpieces]; rfl)
      have hpair : zs ++ [e] = [[], piece] := hlast ▸ hpieces
      have hends : zs ++ [e] = [[]] ++ [piece] := hpair
      obtain ⟨-, rfl⟩ := concat_inj hends
      exact ⟨e, hdot, hpair, by simpa [eq_comm] using hword⟩
   | cons piece l =>
    right
    simp only [List.length_cons] at hle
    obtain rfl : l = [] := List.length_eq_zero_iff.1 (by omega)
    have hempty : r = [[]] := (trim_length hr).1 (by omega)
    have hne : piece ≠ [] := fun hnil => hl (hnil ▸ List.mem_cons_self)
    rw [hempty] at hpieces
    have hlast : lastGroups e = [e] := by
     unfold lastGroups
     split
     · exfalso
       have hend : (zs ++ lastGroups e).getLast? = some [] := by rw [hpieces]; rfl
       rename_i hdot
       simp only [lastGroups, if_pos hdot, dotWords, List.map_cons, List.map_nil, List.getLast?_append,
        List.getLast?_cons_cons, List.getLast?_singleton, Option.some_or, Option.some.injEq] at hend
       exact (toText_plain (by omega) (by omega)).1 hend
     · rfl
    refine ⟨piece, hne, hlast ▸ hpieces, ?_⟩
    simpa [hempty, trim, eq_comm] using hword
 · rintro (⟨piece, hdot, hpair, rfl⟩ | ⟨piece, hne, htriple, rfl⟩)
   · have hends : zs ++ [e] = [[]] ++ [piece] := hpair
     obtain ⟨rfl, rfl⟩ := concat_inj hends
     rw [lastGroups, if_neg hdot] at hpieces
     cases l with
     | cons g l =>
      obtain ⟨hg, -⟩ := List.cons.inj hpieces
      exact absurd (hg ▸ List.mem_cons_self) hl
     | nil =>
      obtain rfl : [e] = r := by simpa using hpieces
      by_cases hnil : e = []
      · subst hnil
        exact ⟨by decide, by rw [hexWord_nil]; rfl⟩
      · simp [trim, hnil]
   · have hends : zs ++ [e] = [piece, []] ++ [[]] := htriple
     obtain ⟨rfl, rfl⟩ := concat_inj hends
     have hlast : lastGroups [] = [[]] := rfl
     rw [hlast] at hpieces
     rcases l with _ | ⟨g, _ | ⟨g', l⟩⟩
     · exact absurd (List.cons.inj hpieces).1 hne
     · obtain ⟨rfl, rfl⟩ : piece = g ∧ [[]] = r := by simpa using hpieces
       exact ⟨by simp [trim], by simp [trim]⟩
     · obtain ⟨-, hrest⟩ := List.cons.inj hpieces
       obtain ⟨hg, -⟩ := List.cons.inj hrest
       exact absurd (hg ▸ List.mem_cons_of_mem _ List.mem_cons_self) hl

theorem quad_zone_iff (h : PlainShape address q p) (hp : isIPv4 p = true) (hlen : q.length = 6)
  (zone : Text) :
  ipv6ToBytes (address ++ '%' :: zone) = .ok (rfcBytes address) ↔ HarmlessZone address zone := by
 have hdot : '.' ∈ address := h.dot_iff.2 (quad_dot hp)
 obtain ⟨x, y, hxy⟩ : ∃ x y, quadWords p = [x, y] := by
  obtain ⟨a, b, c, d, -, -, hwords⟩ := quadWords_eq hp
  exact ⟨_, _, hwords⟩
 have hrfc : SecureHttpIpZones.rfcWords address = q.map
  hexWord ++ [x, y] := by rw [h.rfcWords, quad_words hp, hxy]
 have hq : ∀ g ∈ q, g ≠ [] := fun g hg => (hexGroup_plain (h.hq g hg)).2.2.2
 have hwords : ∀ {words : List ℕ}, (∀ w ∈ words, w < 65536) →
   ipv6ToBytes (address ++ '%' :: zone) = .ok (words.flatMap wordBytes) →
   (ipv6ToBytes (address ++ '%' :: zone) = .ok (rfcBytes address) ↔ words = q.map hexWord ++ [x, y]) := by
  intro words hlt hread
  rw [rfcBytes, reads_iff_words hread hlt fun w => h.words_lt (.inr hp), hrfc]
 rcases splitOn_cases ':' zone with ⟨hcolon, hzone⟩ | ⟨hcolon, z, zs, e, hzone⟩
 · have hpercent : ('%' :: zone).splitOn ':' = ['%' :: zone] := splitOn_cons_ne (by decide) hzone
   have hs : (address ++ '%' :: zone).splitOn ':' = q ++ ([] ++ [p ++ '%' :: zone]) :=
    splitOn_append h.pieces hpercent
   have hlast : lastWords (p ++ '%' :: zone) = [x, y] := by
    rw [lastWords_percent (.inr (.inr hp)) fun _ => quad_dot hp,
     if_neg (List.ne_nil_of_mem (quad_dot hp)), quad_words hp, hxy]
   have hcount : (lastGroups (p ++ '%' :: zone)).length = 2 := by rw [lastGroups_length, hlast]; rfl
   have hread := plain_reads hs hq List.not_mem_nil (by rw [List.nil_append, hlen, hcount])
   rw [hlast, List.map_nil, List.nil_append, List.take_of_length_le (by simp [hlen])] at hread
   rw [HarmlessZone, if_neg hcolon]
   refine iff_of_true ?_ fun _ hnot => absurd hdot hnot
   exact (hwords (fun w hw => h.words_lt (.inr hp) (hrfc ▸ hw)) hread).2 rfl
 · have hpercent : ('%' :: zone).splitOn ':' = ('%' :: z) :: (zs ++ [e]) :=
    splitOn_cons_ne (by decide) hzone
   have hs : (address ++ '%' :: zone).splitOn ':' = (q ++ [p ++ '%' :: z]) ++ (zs ++ [e]) := by
    rw [splitOn_append h.pieces hpercent, List.append_cons]
   have hpre : ∀ g ∈ q ++ [p ++ '%' :: z], g ≠ [] := by
    intro g hg
    rcases List.mem_append.1 hg with hg | hg
    · exact hq g hg
    · rw [List.mem_singleton.1 hg]
      simp
   have hprelen : (q ++ [p ++ '%' :: z]).length = 7 := by simp [hlen]
   have hprewords : (q ++ [p ++ '%' :: z]).map hexWord = q.map hexWord ++ [hexWord p] := by
    rw [List.map_append, List.map_singleton, hexWord_percent]
   have hsixth : (q.map hexWord ++ [x, y])[6]? = some x ∧ (q.map hexWord ++ [x, y])[7]? = some y := by
    rw [List.getElem?_append_right (by simp [hlen]), List.getElem?_append_right (by simp [hlen])]
    simp [hlen]
   have hharmless : HarmlessZone address zone ↔ x = 0 ∧
     (([] ∉ zs ∧ some y = (zs.map hexWord ++ lastWords e)[0]?) ∨
      (∃ piece, '.' ∉ piece ∧ zs ++ [e] = [[], piece] ∧ y = hexWord piece) ∨
      ∃ piece, piece ≠ [] ∧ zs ++ [e] = [piece, [], []] ∧ y = hexWord piece) := by
    simp only [HarmlessZone, if_pos hcolon, HarmlessColons, h.cut, if_pos hdot, hzone,
     List.tail_cons, List.dropLast_concat,
     hrfc, hsixth.1, hsixth.2, addedWords, List.getLast?_concat, Option.map_some, Option.getD_some,
      Option.some.injEq]
   have hheads : ∀ {rest : List ℕ}, (∀ w ∈ rest, w < 65536) →
     ipv6ToBytes (address ++ '%' :: zone) = .ok ((q.map hexWord ++ hexWord p :: rest).flatMap wordBytes) →
     (ipv6ToBytes (address ++ '%' :: zone) = .ok (rfcBytes address) ↔ x = 0 ∧ rest = [y]) := by
    intro rest hlt hread
    rw [hwords ?_ hread, List.append_cancel_left_eq, List.cons.injEq, hexWord_quad hp hxy]
    intro w hw
    rcases List.mem_append.1 hw with hw | hw
    · exact hexWords_lt hw
    · rcases List.mem_cons.1 hw with rfl | hw
      · exact wordOf_lt _
      · exact hlt w hw
   rw [hharmless]
   by_cases hinner : [] ∈ zs
   · obtain ⟨l, r, hpieces, hr, hl, hread⟩ := plain_reads_gap hs hpre (by omega) hinner
     have hcases := filled_cases hinner hr hl hpieces (y := y)
     have hnot : ¬ ([] ∉ zs ∧ some y = (zs.map hexWord ++ lastWords e)[0]?) := fun hboth => hboth.1 hinner
     rw [or_iff_right hnot, ← hcases]
     rw [hprelen, hprewords, List.append_assoc, List.singleton_append] at hread
     by_cases hover : 8 < 7 + l.length + (trim r).length
     · rw [if_pos hover] at hread
       refine iff_of_false (fun hok => ?_) fun hboth => ?_
       · rw [hread] at hok
         cases hok
       · have := hboth.2.1
         omega
     · rw [if_neg hover] at hread
       have hone : 8 - (7 + l.length + (trim r).length) = 1 - (l.length + (trim r).length) := by omega
       rw [hone] at hread
       rw [hheads ?_ hread]
       · exact and_congr_right fun _ => (and_iff_right (by omega)).symm
       · intro w hw
         rcases List.mem_append.1 hw with hw | hw
         · exact hexWords_lt hw
         · rcases List.mem_append.1 hw with hw | hw
           · rw [(List.mem_replicate.1 hw).2]
             omega
           · exact hexWords_lt hw
   · have hnever : ∀ {front : List Text} {last : Text}, zs ++ [e] = front ++ [last] → [] ∉ front := by
      intro front last heq
      rw [← (concat_inj heq).1]
      exact hinner
     have hread := plain_reads hs hpre hinner (by
      have := List.length_pos_iff.2 (lastGroups_pos e)
      rw [hprelen, List.length_append]
      omega)
     have hlt : ∀ w ∈ zs.map hexWord ++ lastWords e, w < 65536 := fun w hw =>
      (List.mem_append.1 hw).elim hexWords_lt lastWords_lt
     have hne : zs.map hexWord ++ lastWords e ≠ [] := by
      intro hnil
      have hlast := (List.append_eq_nil_iff.1 hnil).2
      rw [← lastGroups_words, List.map_eq_nil_iff] at hlast
      exact lastGroups_pos e hlast
     obtain ⟨first, rest, hadded⟩ := List.exists_cons_of_ne_nil hne
     rw [hadded] at hread hlt ⊢
     rw [hprewords, take_concat rest (by simp [hlen]), List.append_assoc, List.singleton_append] at hread
     rw [hheads (fun w hw => hlt w (by rw [List.mem_singleton.1 hw]; exact List.mem_cons_self)) hread]
     refine and_congr_right fun _ => ⟨fun heq => .inl ⟨hinner, ?_⟩, fun hor => ?_⟩
     · simpa [eq_comm] using heq
     · rcases hor with ⟨-, hfirst⟩ | ⟨piece, -, hpair, -⟩ | ⟨piece, -, htriple, -⟩
       · simpa [eq_comm] using hfirst
       · exact absurd List.mem_cons_self (@hnever [[]] _ hpair)
       · exact absurd (by simp) (@hnever [piece, []] _ htriple)

end Plains

section Result

variable {s address : Text} {q : List Text} {p : Text}

theorem plain_reads_address (h : PlainShape address q p)
  (hp : isHexGroup p = true ∨ isIPv4 p = true) (hlen : q.length + (partWords p).length = 8) :
  ipv6ToBytes address = .ok (rfcBytes address) := by
 have hlast : lastWords p = partWords p := by
  rw [lastWords]
  rcases hp with hp | hp
  · rw [if_neg (hexGroup_plain hp).1, partWords, if_pos hp, hexWord_group hp]
  · rw [if_pos (quad_dot hp), quad_words hp, (dotWords_quad (z := []) hp).1]
 have hpieces : address.splitOn ':' = q ++ ([] ++ [p]) := h.pieces
 have hread := plain_reads hpieces (fun g hg => (hexGroup_plain (h.hq g hg)).2.2.2) List.not_mem_nil (by
  rw [List.nil_append, lastGroups_length, hlast]
  exact hlen.ge)
 rw [hread, hlast, List.map_nil, List.nil_append, List.take_of_length_le (by simpa using hlen.le),
  rfcBytes, h.rfcWords]

theorem reads_address (h : isIPv6Address address = true) :
  ipv6ToBytes address = .ok (rfcBytes address) := by
 cases shape_of_address h with
 | groups q p h hp hlen =>
  exact plain_reads_address h (.inl hp) (by rw [partWords, if_pos hp, List.length_singleton, hlen])
 | quad q p h hp hlen =>
  exact plain_reads_address h (.inr hp) (by rw [quad_words hp, quadWords_length hp, hlen])
 | gap left right l q p h =>
  rcases h.hp with ⟨rfl, rfl⟩ | hp
  · have hgap : gap ((l ++ [[]]) ++ lastGroups []) = some (l, [[]]) := by
     rw [List.append_assoc]
     exact gap_eq_some h.hl (lastGroups_pos []) h.inner
    have hnil : trim [[]] = [] := rfl
    have hlen := h.length
    rw [ipv6ToBytes_some (q := l ++ [[]]) (p := []) (by rw [h.pieces, List.append_assoc]; rfl) hgap,
     hnil, List.length_nil,
     if_neg (by omega), rfcBytes, h.rfcWords]
    rfl
  · have hne : q ++ lastGroups p ≠ [[]] := by
     intro heq
     have hone := congrArg List.length heq
     rw [List.length_append, List.length_singleton] at hone
     have hpos := List.length_pos_iff.2 (lastGroups_pos p)
     have hlast := (lastGroups_of_length (e := p) (by omega)).2
     obtain rfl : q = [] := List.length_eq_zero_iff.1 (by omega)
     rw [hlast, List.nil_append] at heq
     obtain rfl : p = [] := by simpa using heq
     exact hp.elim (fun hp => (hexGroup_plain hp).2.2.2 rfl) fun hp =>
      absurd (quad_dot hp) List.not_mem_nil
    rw [h.reads_iff h.pieces hne, SameAfter, h.hleft, h.hright, trim_words h.hp h.hq]
    have hlast : lastWords p = if p = [] then [] else partWords p := by
     rw [lastWords]
     rcases hp with hp | hp
     · rw [if_neg (hexGroup_plain hp).1, if_neg (hexGroup_plain hp).2.2.2, partWords, if_pos hp,
        hexWord_group hp]
     · rw [if_pos (quad_dot hp), if_neg (List.ne_nil_of_mem (quad_dot hp)), quad_words hp,
        (dotWords_quad (z := []) hp).1]
    have hlen := h.length
    rw [trim_words h.hp h.hq] at hlen
    rw [hlast]
    exact ⟨hlen.trans (by omega), rfl⟩

theorem reads_iff (h : isIPv6 s = true) : ipv6ToBytes s = .ok (rfcBytes (addressOf s)) ↔
  ∀ zone, zoneOf s = some zone → HarmlessZone (addressOf s) zone := by
 obtain ⟨haddress, hzone⟩ := isIPv6_cases h
 rcases hzone with ⟨hnone, heq⟩ | ⟨zone, hsome, -, heq⟩
 · rw [heq] at haddress ⊢
   refine iff_of_true (reads_address haddress) fun zone hzone => ?_
   rw [hnone] at hzone
   cases hzone
 · have hiff : ipv6ToBytes (addressOf s ++ '%' :: zone) = .ok (rfcBytes (addressOf s)) ↔
     HarmlessZone (addressOf s) zone := by
    cases shape_of_address haddress with
    | groups q p h hp hlen => exact groups_zone_iff h hp hlen zone
    | quad q p h hp hlen => exact quad_zone_iff h hp hlen zone
    | gap left right l q p h => exact h.zone_iff zone
   rw [← heq] at hiff
   rw [hiff]
   constructor
   · intro hharmless other hother
     obtain rfl := Option.some.inj (hsome.symm.trans hother)
     exact hharmless
   · exact fun hall => hall zone hsome

/-- The address that `parseIp` makes of its sixteen bytes. -/
def ofBytes (bytes : List UInt8) : ParsedIp :=
  if isIpv4Mapped bytes then ⟨.v4, dottedQuad (bytes.drop 12), bytes.drop 12, true⟩
  else ⟨.v6, bytesToCanonicalIpv6 bytes, bytes, false⟩

theorem mapped_take {bytes : List UInt8} (h : isIpv4Mapped bytes = true) :
  bytes.length = 16 ∧ bytes.take 12 = List.replicate 10 0 ++ [0xff, 0xff] := by
 simp only [isIpv4Mapped, Bool.and_eq_true, beq_iff_eq, List.all_eq_true] at h
 obtain ⟨⟨⟨hlen, hzeros⟩, hten⟩, heleven⟩ := h
 refine ⟨hlen, List.ext_getElem (by simp [hlen]) fun i hi hi' => ?_⟩
 have hlt : i < 12 := by simpa using hi'
 rw [List.getElem_take]
 by_cases hfirst : i < 10
 · rw [List.getElem_append_left (by simpa using hfirst), List.getElem_replicate]
   refine hzeros _ (List.mem_iff_getElem.2 ⟨i, by simpa [hlen] using hfirst, ?_⟩)
   rw [List.getElem_take]
 · have hcases : i = 10 ∨ i = 11 := by omega
   rcases hcases with rfl | rfl
   · rwa [List.getD_eq_getElem _ _ (by omega)] at hten
   · rwa [List.getD_eq_getElem _ _ (by omega)] at heleven

theorem ofBytes_inj {a b : List UInt8} (h : ofBytes a = ofBytes b) : a = b := by
 unfold ofBytes at h
 split at h
 · next ha =>
   split at h
   · next hb =>
     obtain ⟨-, -, hdrop, -⟩ := ParsedIp.mk.inj h
     rw [← List.take_append_drop 12 a, ← List.take_append_drop 12 b, (mapped_take ha).2,
      (mapped_take hb).2, hdrop]
   · cases h
 · split at h
   · cases h
   · exact (ParsedIp.mk.inj h).2.2.1

/-- `parseIp` judges the address that stands before the zone exactly when the
    zone is harmless. -/
theorem parseIp_judges_iff (casing : LowerCasing) (s : Text) (h : isIPv6 s = true) :
    parseIp casing s = .ok (some (ofBytes (rfcBytes (addressOf s)))) ↔
      ∀ zone, zoneOf (casing.toLowerCase s) = some zone →
       HarmlessZone (addressOf (casing.toLowerCase s)) zone := by
 obtain ⟨hv6, hv4, hvalue⟩ := lower_isIPv6 casing h
 have hparse :
  parseIp casing s = (ipv6ToBytes (casing.toLowerCase s)).map fun bytes => some (ofBytes bytes) := by
  simp only [parseIp, hv4, hv6, if_true, Bool.false_eq_true, if_false]
  congr 1
  funext bytes
  rw [ofBytes]
  split <;> rfl
 rw [← reads_iff hv6, hparse, hvalue]
 cases ipv6ToBytes (casing.toLowerCase s) with
 | error e => simp [Except.map]
 | ok bytes =>
  simp only [Except.map, Except.ok.injEq, Option.some.injEq]
  exact ⟨ofBytes_inj, fun heq => by rw [heq]⟩

theorem linkLocal_judged : parseIp asciiLowerCasing "FE80::1%Eth0".toList =
    .ok (some (ofBytes (rfcBytes "FE80::1".toList))) := by
 refine (parseIp_judges_iff asciiLowerCasing "FE80::1%Eth0".toList (by decide +kernel)).2
  fun zone hzone => ?_
 have hplain : (zoneOf (asciiLowerCasing.toLowerCase "FE80::1%Eth0".toList)).all
   (fun zone => !zone.contains ':' && !zone.contains '.') = true := by decide +kernel
 rw [hzone] at hplain
 have hzone : ':' ∉ zone ∧ '.' ∉ zone := by simpa using hplain
 rw [HarmlessZone, if_neg hzone.1]
 exact fun hdot => absurd hdot hzone.2

/-- A dot in the zone turns the loopback address into another one. -/
theorem loopback_misjudged : isIPv6 "::1%a.b".toList = true ∧
    parseIp asciiLowerCasing "::1%a.b".toList = .ok (some (ofBytes (rfcBytes "::100:0".toList))) ∧
    parseIp asciiLowerCasing "::1%a.b".toList ≠ .ok
     (some (ofBytes (rfcBytes (addressOf "::1%a.b".toList)))) := by
 decide +kernel

end Result

end BoardGamesEmpire.SecureHttpIpZones
