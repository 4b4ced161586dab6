import BoardGamesEmpire.SeparatedText

set_option autoImplicit false

/-!
# Keys joined from escaped parts

`encodeURIComponent` leaves nothing of a text out and no divider in it, and
parts without the divider can be told apart in what they are joined to.
-/
namespace BoardGamesEmpire.UriComponent
open JsText SeparatedText

section Escape

/-- The characters `encodeURIComponent` leaves as they are. -/
def unreserved (c : Char) : Bool := c.isAlphanum || "-_.!~*'()".toList.contains c

def hexDigit (n : ℕ) : Char := "0123456789ABCDEF".toList.getD n '0'

def hexValue (c : Char) : ℕ := "0123456789ABCDEF".toList.idxOf c

def escapeByte (b : UInt8) : Text := ['%', hexDigit (b.toNat / 16), hexDigit (b.toNat % 16)]

def encodeURIComponent (s : Text) : Text :=
  s.flatMap fun c => if unreserved c then [c] else (String.utf8EncodeChar c).flatMap escapeByte

def bytes : Text → List UInt8
  | '%' :: h :: l :: rest => UInt8.ofNat (hexValue h * 16 + hexValue l) :: bytes rest
  | c :: rest => UInt8.ofNat c.toNat :: bytes rest
  | [] => []

theorem hexValue_hexDigit : ∀ n < 16, hexValue (hexDigit n) = n := by decide

theorem bytes_escapeByte (b : UInt8) (t : Text) : bytes (escapeByte b ++ t) = b :: bytes t := by
 have hlt := b.toNat_lt
 have hvalue : b.toNat / 16 * 16 + b.toNat % 16 = b.toNat := by omega
 have hhigh := hexValue_hexDigit (b.toNat / 16) (by omega)
 have hlow := hexValue_hexDigit (b.toNat % 16) (by omega)
 have hread : bytes (escapeByte b ++ t) =
   UInt8.ofNat (hexValue (hexDigit (b.toNat / 16)) * 16 + hexValue
    (hexDigit (b.toNat % 16))) :: bytes t := by
  simp only [escapeByte, List.cons_append, List.nil_append, bytes]
 rw [hread, hhigh, hlow, hvalue, UInt8.ofNat_toNat]

theorem bytes_escaped (bs : List UInt8) (t : Text) :
  bytes (bs.flatMap escapeByte ++ t) = bs ++ bytes t := by
 induction bs with
 | nil => rfl
 | cons b bs ih => rw [List.flatMap_cons, List.append_assoc, bytes_escapeByte, ih, List.cons_append]

theorem unreserved_ascii {c : Char} (h : unreserved c = true) : c ≠ '%' ∧ c.toNat < 128 := by
 have hother : ∀ d ∈ "-_.!~*'()".toList, d ≠ '%' ∧ d.toNat < 128 := by simp
 rcases Bool.or_eq_true_iff.1 h with halpha | hlisted
 · simp only [Char.isAlphanum, Char.isAlpha, Char.isUpper, Char.isLower, Char.isDigit,
    Bool.or_eq_true, Bool.and_eq_true,
    decide_eq_true_eq, ge_iff_le, UInt32.le_iff_toNat_le] at halpha
   have hval : c.toNat = c.val.toNat := rfl
   refine ⟨?_, ?_⟩
   · rintro rfl
     revert halpha
     decide
   · have hupper : 'Z'.val.toNat = 90 := rfl
     have hlower : 'z'.val.toNat = 122 := rfl
     have hdigit : '9'.val.toNat = 57 := rfl
     omega
 · exact hother c (List.contains_iff_mem.1 hlisted)

theorem bytes_unreserved {c : Char} (h : unreserved c = true) (t : Text) :
  bytes (c :: t) = String.utf8EncodeChar c ++ bytes t := by
 obtain ⟨hpercent, hlt⟩ := unreserved_ascii h
 have hencode : String.utf8EncodeChar c = [UInt8.ofNat c.toNat] := by
  have hle : c.val.toNat ≤ 0x7f := Nat.lt_succ_iff.1 hlt
  rw [String.utf8EncodeChar, if_pos hle]
  rfl
 have hstep : bytes (c :: t) = UInt8.ofNat c.toNat :: bytes t := by
  rw [bytes]
  rintro h' l' rest rfl
  exact absurd rfl hpercent
 rw [hstep, hencode, List.singleton_append]

theorem bytes_encodeURIComponent (s : Text) :
  bytes (encodeURIComponent s) = s.flatMap String.utf8EncodeChar := by
 induction s with
 | nil => rfl
 | cons c s ih =>
  rw [encodeURIComponent, List.flatMap_cons, List.flatMap_cons, ← ih]
  split
  · next h => exact bytes_unreserved h _
  · exact bytes_escaped _ _

theorem encodeURIComponent_injective {s t : Text} (h : encodeURIComponent s = encodeURIComponent t)
  : s = t := by
 have hbytes : s.flatMap String.utf8EncodeChar = t.flatMap String.utf8EncodeChar := by
  rw [← bytes_encodeURIComponent, ← bytes_encodeURIComponent, h]
 have hencode : s.utf8Encode = t.utf8Encode := congrArg List.toByteArray hbytes
 have hdecode : some s.toArray = some t.toArray := by
  rw [← List.utf8Decode?_utf8Encode, ← List.utf8Decode?_utf8Encode, hencode]
 exact Array.toList_inj.2 (Option.some.inj hdecode)

theorem encodeURIComponent_chars {s : Text} {c : Char} (h : c ∈ encodeURIComponent s) :
  unreserved c = true ∨ c = '%' := by
 obtain ⟨d, -, hmem⟩ := List.mem_flatMap.1 h
 split at hmem
 · next hd =>
   obtain rfl := List.mem_singleton.1 hmem
   exact .inl hd
 · obtain ⟨b, -, hb⟩ := List.mem_flatMap.1 hmem
   have hdigit : ∀ n < 16, unreserved (hexDigit n) = true := by decide
   have hlt := b.toNat_lt
   simp only [escapeByte, List.mem_cons, List.not_mem_nil, or_false] at hb
   rcases hb with rfl | rfl | rfl
   · exact .inr rfl
   · exact .inl (hdigit _ (by omega))
   · exact .inl (hdigit _ (by omega))

theorem colon_notMem_encodeURIComponent (s : Text) : ':' ∉ encodeURIComponent s := by
 intro h
 rcases encodeURIComponent_chars h with hreserved | hpercent
 · exact absurd hreserved (by decide)
 · exact absurd hpercent (by decide)

end Escape

section Join

variable {sep : Char}

theorem intercalate_injective {parts parts' : List Text} (hne : parts ≠ [])
  (hne' : parts' ≠ []) (h : ∀ part ∈ parts, sep ∉ part) (h' : ∀ part ∈ parts', sep ∉ part)
  (hjoin : [sep].intercalate parts = [sep].intercalate parts') : parts = parts' := by
 rw [← List.splitOn_intercalate sep h hne, ← List.splitOn_intercalate sep h' hne', hjoin]

theorem intercalate_eq_nil {parts : List Text} (h : ∀ part ∈ parts, part ≠ [])
  (hjoin : [sep].intercalate parts = []) : parts = [] := by
 cases parts with
 | nil => rfl
 | cons part rest =>
  cases rest with
  | nil => exact absurd (by simpa [List.intercalate] using hjoin) (h part List.mem_cons_self)
  | cons next rest => simp [List.intercalate_cons_cons] at hjoin

theorem intercalate_injective_of_ne {parts parts' : List Text}
  (h : ∀ part ∈ parts, sep ∉ part ∧ part ≠ []) (h' : ∀ part ∈ parts', sep ∉ part ∧ part ≠ [])
  (hjoin : [sep].intercalate parts = [sep].intercalate parts') :
  parts = parts' := by
 have hempty : ∀ {ps qs : List Text}, (∀ part ∈ ps, sep ∉ part ∧ part ≠ []) → qs = [] →
   [sep].intercalate ps = [sep].intercalate qs → ps = qs := by
  rintro ps qs hps rfl hsame
  exact intercalate_eq_nil (fun part hpart => (hps part hpart).2) hsame
 by_cases hne' : parts' = []
 · exact hempty h hne' hjoin
 · by_cases hne : parts = []
   · exact (hempty h' hne hjoin.symm).symm
   · exact intercalate_injective hne hne' (fun part hpart => (h part hpart).1)
      (fun part hpart => (h' part hpart).1) hjoin

theorem append_parts_inj {head head' : Text} (parts : List Text) :
  ∀ {parts' : List Text},
  parts.length = parts'.length → (∀ part ∈ parts, sep ∉ part) → (∀ part ∈ parts', sep ∉ part) →
   head ++ parts.flatMap (sep :: ·) = head' ++ parts'.flatMap (sep :: ·) → head = head' ∧
    parts = parts' := by
 induction parts using List.reverseRecOn with
 | nil =>
  intro parts' hlength _ _ h
  obtain rfl := List.eq_nil_of_length_eq_zero hlength.symm
  exact ⟨by simpa using h, rfl⟩
 | append_singleton parts part ih =>
  intro parts' hlength hparts hparts' h
  obtain ⟨init, last, rfl⟩ : ∃ init last, parts' = init ++ [last] := by
   rcases List.eq_nil_or_concat parts' with rfl | ⟨init, last, hlast⟩
   · simp at hlength
   · exact ⟨init, last, by rw [hlast, List.concat_eq_append]⟩
  simp only [List.flatMap_append, List.flatMap_singleton, ← List.append_assoc] at h
  obtain ⟨hinit, rfl⟩ := append_sep_inj (hparts part (by simp)) (hparts' last (by simp)) h
  obtain ⟨rfl, rfl⟩ := ih (by simpa using hlength) (fun p hp => hparts p (by simp [hp]))
   (fun p hp => hparts' p (by simp [hp]))
   hinit
  exact ⟨rfl, rfl⟩

theorem intercalate_cons (sep : Char) (part : Text) (parts : List Text) :
  [sep].intercalate (part :: parts) = part ++ parts.flatMap (sep :: ·) := by
 induction parts generalizing part with
 | nil => simp [List.intercalate]
 | cons next parts ih => rw [List.intercalate_cons_cons, ih, List.flatMap_cons]; simp

end Join

end BoardGamesEmpire.UriComponent
