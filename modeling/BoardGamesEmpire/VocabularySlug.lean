import BoardGamesEmpire.JsText

set_option autoImplicit false

/-!
# The slug of a vocabulary's name

`toSlug` folds marks and case, keeps ASCII letters, digits, spaces and hyphens,
and joins the words with hyphens. A record is found by the slug of its name.
-/
namespace BoardGamesEmpire.Vocabulary
open JsText

section Slug

def asciiLetterOrDigit (c : Char) : Bool :=
  (decide ('a' ≤ c) && decide (c ≤ 'z')) || (decide ('A' ≤ c) && decide (c ≤ 'Z'))
   || (decide ('0' ≤ c) && decide (c ≤ '9'))

structure Unicode extends LowerCasing where
  normalizeNFD : Text → Text
  normalizeNFD_ascii : ∀ s : Text, (∀ c ∈ s, c.toNat < 128) → normalizeNFD s = s
  letterOrDigit : Char → Bool
  letterOrDigit_ascii : ∀ c : Char, c.toNat < 128 → letterOrDigit c = asciiLetterOrDigit c

/-- `[\u0300-\u036f]`. -/
def combiningMark (c : Char) : Bool := decide (0x300 ≤ c.toNat) && decide (c.toNat ≤ 0x36f)

/-- `[a-z0-9]`. -/
def slugChar (c : Char) : Bool :=
    (decide ('a' ≤ c) && decide (c ≤ 'z')) || (decide ('0' ≤ c) && decide (c ≤ '9'))

/-- `[\s-]`. -/
def gap (c : Char) : Bool := whitespace c || c == '-'

/-- `s.replace(/[\s-]+/g, '-')`, inside a run or not. -/
def hyphenated : Bool → Text → Text
  | _, [] => []
  | inRun, c :: s =>
    if gap c then if inRun then hyphenated true s else '-' :: hyphenated true s
    else c :: hyphenated false s

def folded (unicode : Unicode) (name : Text) : Text :=
  unicode.toLowerCase ((unicode.normalizeNFD name).filter fun c => !combiningMark c)

def toSlug (unicode : Unicode) (name : Text) : Text :=
  hyphenated false (trim ((folded unicode name).filter fun c => slugChar c || gap c))

def letters (unicode : Unicode) (name : Text) : Text := (folded unicode name).filter unicode.letterOrDigit

/-- Folded, the name has no letter or digit but `[a-z0-9]`. -/
def Plain (unicode : Unicode) (name : Text) : Prop :=
  ∀ c ∈ folded unicode name, unicode.letterOrDigit c = true → slugChar c = true

variable {c : Char}

theorem slugChar_range (h : slugChar c = true) :
  (97 ≤ c.toNat ∧ c.toNat ≤ 122) ∨ (48 ≤ c.toNat ∧ c.toNat ≤ 57) := by
 simp only [slugChar, Bool.or_eq_true, Bool.and_eq_true, decide_eq_true_eq] at h
 exact h

theorem slugChar_ascii (h : slugChar c = true) :
  asciiLetterOrDigit c = true ∧ gap c = false ∧ c.toNat < 128 := by
 have hrange := slugChar_range h
 refine ⟨?_, ?_, by omega⟩
 · simp only [slugChar, Bool.or_eq_true] at h
   simp only [asciiLetterOrDigit, Bool.or_eq_true]
   rcases h with h | h
   · exact .inl (.inl h)
   · exact .inr h
 · have hne : c ≠ '-' := by
    rintro rfl
    exact absurd h (by decide)
   have hspace : whitespace c = false := by
    simp only [whitespace, Bool.or_eq_false_iff, Bool.and_eq_false_iff, beq_eq_false_iff_ne,
     decide_eq_false_iff_not]
    omega
   rw [gap, hspace, Bool.false_or, beq_eq_false_iff_ne]
   exact hne

theorem slugChar_of_gap (h : gap c = true) : slugChar c = false := by
 rw [← Bool.not_eq_true]
 intro hslug
 rw [(slugChar_ascii hslug).2.1] at h
 cases h

theorem letterOrDigit_slugChar (unicode : Unicode) (h : slugChar c = true) :
  unicode.letterOrDigit c = true := by
 obtain ⟨hascii, -, hlt⟩ := slugChar_ascii h
 rw [unicode.letterOrDigit_ascii c hlt, hascii]

theorem mem_hyphenated {inRun : Bool} {s : Text} (h : c ∈ hyphenated inRun s) :
  c = '-' ∨ (c ∈ s ∧ gap c = false) := by
 induction s generalizing inRun with
 | nil => cases h
 | cons d s ih =>
  have hrest : ∀ {run : Bool}, c ∈ hyphenated run s → c = '-' ∨ (c ∈ d :: s ∧ gap c = false) := by
   intro run hmem
   exact (ih hmem).imp_right fun hkept => ⟨List.mem_cons_of_mem _ hkept.1, hkept.2⟩
  unfold hyphenated at h
  split at h
  · split at h
    · exact hrest h
    · exact (List.mem_cons.1 h).elim .inl hrest
  · next hgap =>
    rcases List.mem_cons.1 h with rfl | hmem
    · exact .inr ⟨List.mem_cons_self, Bool.eq_false_iff.2 hgap⟩
    · exact hrest hmem

theorem filter_hyphenated {p : Char → Bool} (h : ∀ c, gap c = true → p c = false) (inRun : Bool)
  (s : Text) :
  (hyphenated inRun s).filter p = s.filter p := by
 induction s generalizing inRun with
 | nil => rfl
 | cons c s ih =>
  unfold hyphenated
  split
  · next hgap =>
    rw [List.filter_cons_of_neg (by rw [h c hgap]; exact Bool.false_ne_true)]
    split
    · exact ih true
    · rw [List.filter_cons_of_neg (by rw [h '-' rfl]; exact Bool.false_ne_true), ih true]
  · rw [List.filter_cons, List.filter_cons, ih false]

theorem hyphenated_hyphenated (inRun : Bool) (s : Text) :
  hyphenated inRun (hyphenated inRun s) = hyphenated inRun s := by
 have hhyphen : gap '-' = true := rfl
 induction s generalizing inRun with
 | nil => rfl
 | cons c s ih =>
  by_cases hgap : gap c = true
  · cases inRun with
    | true => rw [hyphenated, if_pos hgap, if_pos rfl, ih true]
    | false => rw [hyphenated, if_pos hgap, if_neg Bool.false_ne_true, hyphenated, if_pos hhyphen,
     if_neg Bool.false_ne_true, ih true]
  · rw [hyphenated, if_neg hgap, hyphenated, if_neg hgap, ih false]

theorem trim_sublist (s : Text) : (trim s).Sublist s := by
 have hright :
  ((s.dropWhile whitespace).reverse.dropWhile whitespace).Sublist (s.dropWhile whitespace).reverse :=
  List.dropWhile_sublist _
 have hleft := hright.reverse
 rw [List.reverse_reverse] at hleft
 exact hleft.trans (List.dropWhile_sublist _)

variable (unicode : Unicode)

theorem mem_toSlug {name : Text} (h : c ∈ toSlug unicode name) :
  c = '-' ∨ slugChar c = true := by
 refine (mem_hyphenated h).imp_right fun hkept => ?_
 have hclass := (List.mem_filter.1 ((trim_sublist _).subset hkept.1)).2
 rw [hkept.2, Bool.or_false] at hclass
 exact hclass

/-- A slug has the letters and digits that the folded name has among `[a-z0-9]`. -/
theorem filter_toSlug (name : Text) :
  (toSlug unicode name).filter slugChar = (folded unicode name).filter slugChar := by
 have hspace : ∀ c, whitespace c = true → slugChar c = false := fun c hc =>
  slugChar_of_gap (by rw [gap, hc, Bool.true_or])
 rw [toSlug, filter_hyphenated (fun c => slugChar_of_gap), filter_trim hspace, List.filter_filter]
 refine List.filter_congr fun c _ => ?_
 cases slugChar c <;> rfl

theorem folded_toSlug (name : Text) :
  folded unicode (toSlug unicode name) = toSlug unicode name := by
 have hascii : ∀ c ∈ toSlug unicode name, c.toNat < 128 := by
  intro c hc
  rcases mem_toSlug unicode hc with rfl | hslug
  · decide
  · exact (slugChar_ascii hslug).2.2
 have hunmarked : (toSlug unicode name).filter (fun c => !combiningMark c) = toSlug unicode name := by
  refine List.filter_eq_self.2 fun c hc => ?_
  have hlt := hascii c hc
  have hbelow : ¬ 0x300 ≤ c.toNat := by omega
  rw [combiningMark, decide_eq_false hbelow, Bool.false_and, Bool.not_false]
 have hlower : ∀ c ∈ toSlug unicode name, c.toLower = c := by
  intro c hc
  rcases mem_toSlug unicode hc with rfl | hslug
  · rfl
  · have hrange := slugChar_range hslug
    have hupper : c.isUpper = false := by
     rw [Char.isUpper, decide_eq_false_iff_not]
     rintro ⟨hlow, hhigh⟩
     have h65 : 65 ≤ c.toNat := hlow
     have h90 : c.toNat ≤ 90 := hhigh
     omega
    exact Char.toLower_eq_of_not_isUpper (by rw [hupper]; exact Bool.false_ne_true)
 rw [folded, unicode.normalizeNFD_ascii _ hascii, hunmarked, unicode.ascii _ hascii]
 exact (List.map_congr_left hlower).trans (List.map_id' _)

theorem toSlug_toSlug (name : Text) :
  toSlug unicode (toSlug unicode name) = toSlug unicode name := by
 have hkept : (toSlug unicode name).filter (fun c => slugChar c || gap c) = toSlug unicode name := by
  refine List.filter_eq_self.2 fun c hc => ?_
  rcases mem_toSlug unicode hc with rfl | hslug
  · rfl
  · rw [hslug, Bool.true_or]
 have hspace : ∀ c ∈ toSlug unicode name, whitespace c = false := by
  intro c hc
  rcases mem_toSlug unicode hc with rfl | hslug
  · rfl
  · exact (Bool.or_eq_false_iff.1 (slugChar_ascii hslug).2.1).1
 rw [toSlug, folded_toSlug, hkept, trim_eq_self hspace]
 exact hyphenated_hyphenated false _

theorem plain_toSlug (name : Text) : Plain unicode (toSlug unicode name) := by
 intro c hc hletter
 rw [folded_toSlug] at hc
 rcases mem_toSlug unicode hc with rfl | hslug
 · rw [unicode.letterOrDigit_ascii '-' (by decide)] at hletter
   exact absurd hletter (by decide)
 · exact hslug

theorem letters_of_plain {name : Text} (h : Plain unicode name) :
  letters unicode name = (folded unicode name).filter slugChar := by
 refine List.filter_congr fun c hc => ?_
 rw [Bool.eq_iff_iff]
 exact ⟨h c hc, letterOrDigit_slugChar unicode⟩

theorem letters_toSlug_iff (name : Text) :
  letters unicode (toSlug unicode name) = letters unicode name ↔ Plain unicode name := by
 have hslug : letters unicode (toSlug unicode name) = (folded unicode name).filter slugChar := by
  rw [letters_of_plain unicode (plain_toSlug unicode name), folded_toSlug, filter_toSlug]
 constructor
 · intro h c hc hletter
   have hmem : c ∈ letters unicode name := List.mem_filter.2 ⟨hc, hletter⟩
   rw [← h, hslug] at hmem
   exact (List.mem_filter.1 hmem).2
 · intro h
   rw [hslug, letters_of_plain unicode h]

theorem letters_eq_of_slug {name other : Text} (hname : Plain unicode name)
  (hother : Plain unicode other) (h : toSlug unicode name = toSlug unicode other) :
  letters unicode name = letters unicode other := by
 rw [← (letters_toSlug_iff unicode name).2 hname, h, (letters_toSlug_iff unicode other).2 hother]

end Slug

section Records

structure VocabularyRecord (unicode : Unicode) where
  id : ℕ
  name : Text
  slug : Text
  named : slug = toSlug unicode name

variable {unicode : Unicode}

def findBySlug (records : List (VocabularyRecord unicode)) (slug : Text) :
    Option (VocabularyRecord unicode) :=
  records.find? fun record => record.slug = slug

/-- The record an entry of this name is resolved to: by its slug, else, where the
    vocabulary has a table for it, by a similar name. -/
def matchRecord (records : List (VocabularyRecord unicode)) (findSimilar : Option (Text → Option ℕ))
    (slug name : Text) : Option ℕ :=
  match findBySlug records slug with
  | some record => some record.id
  | none => findSimilar.bind (· name)

theorem matchRecord_slug {records : List (VocabularyRecord unicode)} {name : Text} {id : ℕ}
  (h : matchRecord records none (toSlug unicode name) name = some id) :
  ∃ record ∈ records, record.id = id ∧ toSlug unicode record.name = toSlug unicode name := by
 unfold matchRecord at h
 cases hfind : findBySlug records (toSlug unicode name) with
 | none =>
  rw [hfind] at h
  cases h
 | some record =>
  rw [hfind] at h
  cases h
  have hslug := List.find?_some hfind
  exact ⟨record, List.mem_of_find?_eq_some hfind, rfl, record.named.symm.trans (of_decide_eq_true hslug)⟩

end Records

section Apartness

/-- Slugs keep names apart just as long as the names' letters and digits are
    those that a slug can hold. -/
theorem toSlug_apart (unicode : Unicode) :
    (∀ names : Set Text, (∀ name ∈ names, toSlug unicode name ∈ names) →
      ((∀ name ∈ names, ∀ other ∈ names, toSlug unicode name = toSlug unicode other →
       letters unicode name = letters unicode other) ↔
        ∀ name ∈ names, Plain unicode name)) ∧
    (∀ name other, Plain unicode name → Plain unicode other → toSlug unicode name = toSlug unicode other →
      letters unicode name = letters unicode other) ∧
    (∀ name, toSlug unicode (toSlug unicode name) = toSlug unicode name) ∧
    ∀ (records : List (VocabularyRecord unicode)) (name : Text) (id : ℕ),
      matchRecord records none (toSlug unicode name) name = some id → Plain unicode name →
      ∃ record ∈ records, record.id = id ∧
       (Plain unicode record.name → letters unicode record.name = letters unicode name) := by
 refine ⟨fun names hslugs => ⟨fun hapart name hname => ?_, fun hplain name hname other hother => ?_⟩,
  fun _ _ => letters_eq_of_slug unicode, toSlug_toSlug unicode, fun records name id hmatch hname => ?_⟩
 · -- a name that is not plain shares its slug with that slug itself
   exact (letters_toSlug_iff unicode name).1
    (hapart _ (hslugs name hname) name hname (toSlug_toSlug unicode name))
 · exact letters_eq_of_slug unicode (hplain name hname) (hplain other hother)
 · obtain ⟨record, hrecord, hid, hslug⟩ := matchRecord_slug hmatch
   exact ⟨record, hrecord, hid, fun hplain => letters_eq_of_slug unicode hplain hname hslug⟩

def cyrillicTables : Unicode where
  toLowerCase s := s.map fun c => if 0x410 ≤ c.toNat ∧
   c.toNat ≤ 0x42f then Char.ofNat (c.toNat + 0x20) else c.toLower
  ascii s h := List.map_congr_left fun c hc => by
    have hlt := h c hc
    rw [if_neg (by omega)]
  normalizeNFD s := s
  normalizeNFD_ascii _ _ := rfl
  letterOrDigit c := asciiLetterOrDigit c || (decide (0x410 ≤ c.toNat) && decide (c.toNat ≤ 0x44f))
  letterOrDigit_ascii c h := by
    have hbelow : ¬ 0x410 ≤ c.toNat := by omega
    rw [decide_eq_false hbelow, Bool.false_and, Bool.or_false]

example : VocabularyRecord cyrillicTables :=
  ⟨1, "Worker Placement".toList, "worker-placement".toList, by decide⟩

/-- Го and Шахматы both have the empty slug. -/
theorem toSlug_cyrillic :
  ¬ ∀ name other : Text, toSlug cyrillicTables name = toSlug cyrillicTables other →
    letters cyrillicTables name = letters cyrillicTables other := by
 intro hapart
 exact absurd (hapart ['Г', 'о'] ['Ш', 'а', 'х', 'м', 'а', 'т', 'ы'] (by decide)) (by decide)

end Apartness

end BoardGamesEmpire.Vocabulary
