import BoardGamesEmpire.MustacheTemplate

set_option autoImplicit false

/-!
# Rendering a serialized JSON value

A tag whose variable is a plain name holds neither a quote nor a backslash, so
it lies inside one string of the value. Where no key opens a tag, the rendered
text is the text of the value with its strings filled in.
-/
namespace BoardGamesEmpire.MustacheTemplate
open JsText JsonText

def nameChar (c : Char) : Bool := c.isAlpha || c == '.'

/-- What the values of a rendering are assumed to be: plain names, and texts a
    JSON string holds as they are. -/
structure PlainValues (value : Text → Option Text) : Prop where
  path_ne_nil : ∀ path s, value path = some s → path ≠ []
  path_chars : ∀ path s, value path = some s → ∀ c ∈ path, nameChar c = true
  value_chars : ∀ path s, value path = some s → ∀ c ∈ s, escapeChar c = [c]

section Tags

variable {value : Text → Option Text}

theorem nameChar_ne {c : Char} (h : nameChar c = true) :
  c ≠ '"' ∧ c ≠ '\\' ∧ c ≠ '{' ∧ c ≠ '}' ∧ c ≠ '&' := by
 refine ⟨?_, ?_, ?_, ?_, ?_⟩ <;>
 · rintro rfl
   revert h
   decide

theorem whitespace_ne {c : Char} (h : whitespace c = true) :
  c ≠ '"' ∧ c ≠ '\\' ∧ c ≠ '{' ∧ c ≠ '}' ∧ c ≠ '&' := by
 refine ⟨?_, ?_, ?_, ?_, ?_⟩ <;>
 · rintro rfl
   revert h
   decide

theorem nameChar_not_whitespace {c : Char} (h : nameChar c = true) : whitespace c = false := by
 have hnat : c.toNat < 128 ∧ 33 ≤ c.toNat := by
  simp only [nameChar, Char.isAlpha, Char.isUpper, Char.isLower, Bool.or_eq_true, beq_iff_eq,
   Bool.and_eq_true, decide_eq_true_eq] at h
  rcases h with (h | h) | rfl
  · have h1 := h.1
    have h2 := h.2
    simp only [UInt32.le_iff_toNat_le] at h1 h2
    constructor
    · exact lt_of_le_of_lt h2 (by decide)
    · exact le_trans (by decide) h1
  · have h1 := h.1
    have h2 := h.2
    simp only [UInt32.le_iff_toNat_le] at h1 h2
    constructor
    · exact lt_of_le_of_lt h2 (by decide)
    · exact le_trans (by decide) h1
  · decide
 simp only [whitespace, Bool.or_eq_false_iff, Bool.and_eq_false_iff, decide_eq_false_iff_not,
  beq_eq_false_iff_ne]
 omega

theorem whitespace_not_nameChar {c : Char} (h : whitespace c = true) : nameChar c = false := by
 by_contra hname
 rw [Bool.not_eq_false] at hname
 rw [nameChar_not_whitespace hname] at h
 cases h

theorem TagText.chars {path tag : Text} {escaped : Bool} (h : TagText path escaped tag)
  (hpath : ∀ c ∈ path, nameChar c = true) : ∀ c ∈ tag, c ≠ '"' ∧ c ≠ '\\' := by
 have hname : ∀ c ∈ path, c ≠ '"' ∧ c ≠ '\\' := fun c hc =>
  ⟨(nameChar_ne (hpath c hc)).1, (nameChar_ne (hpath c hc)).2.1⟩
 have hblank : ∀ s : Text, Blank s → ∀ c ∈ s, c ≠ '"' ∧ c ≠ '\\' := fun s hs c hc =>
  ⟨(whitespace_ne (hs c hc)).1, (whitespace_ne (hs c hc)).2.1⟩
 intro c hc
 cases h with
 | double before after hbefore hafter =>
  simp only [opening, List.mem_append, List.mem_cons, List.not_mem_nil, or_false] at hc
  rcases hc with (rfl | rfl) | hc | hc | hc | rfl | rfl
  all_goals first | decide | exact hname c hc | exact hblank _ hbefore c hc | exact hblank _ hafter c hc
 | ampersand before between after hbefore hbetween hafter =>
  simp only [opening, List.mem_append, List.mem_cons, List.not_mem_nil, or_false] at hc
  rcases hc with (rfl | rfl) | (hc | rfl | hc) | hc | hc | rfl | rfl
  all_goals first | decide | exact hname c hc | exact hblank _ hbefore c hc |
   exact hblank _ hbetween c hc | exact hblank _ hafter c hc
 | triple before between after hbefore hbetween hafter =>
  simp only [opening, List.mem_append, List.mem_cons, List.not_mem_nil, or_false] at hc
  rcases hc with (rfl | rfl) | (hc | rfl | hc) | hc | hc | rfl | rfl | rfl
  all_goals first | decide | exact hname c hc | exact hblank _ hbefore c hc |
   exact hblank _ hbetween c hc | exact hblank _ hafter c hc

theorem escape_front {tag t s rest : Text} (htag : ∀ c ∈ tag, c ≠ '"' ∧ c ≠ '\\')
  (h : tag ++ t = escape s ++ '"' :: rest) :
  ∃ s', s = tag ++ s' ∧ t = escape s' ++ '"' :: rest := by
 induction tag generalizing s with
 | nil => exact ⟨s, rfl, h⟩
 | cons d tag ih =>
  have hd := htag d List.mem_cons_self
  cases s with
  | nil =>
   simp only [escape, List.flatMap_nil, List.nil_append, List.cons_append, List.cons.injEq] at h
   exact absurd h.1 hd.1
  | cons c s =>
   have hesc : escape (c :: s) = escapeChar c ++ escape s := rfl
   rw [hesc] at h
   rcases escapeChar_cases c with ⟨hc, -⟩ | ⟨e, hc, -⟩ | ⟨-, hc⟩
   · rw [hc] at h
     simp only [List.cons_append, List.nil_append, List.cons.injEq] at h
     obtain ⟨rfl, h⟩ := h
     obtain ⟨s', rfl, ht⟩ := ih (fun x hx => htag x (List.mem_cons_of_mem _ hx)) h
     exact ⟨s', rfl, ht⟩
   all_goals
    rw [hc] at h
    simp only [List.cons_append, List.cons.injEq] at h
    exact absurd h.1 hd.2

variable {s rest out : Text}

theorem escape_plain (h : ∀ c ∈ s, escapeChar c = [c]) : escape s = s := by
 induction s with
 | nil => rfl
 | cons c s ih =>
  change escapeChar c ++ escape s = c :: s
  rw [h c List.mem_cons_self, ih fun d hd => h d (List.mem_cons_of_mem _ hd)]
  rfl

theorem escape_append (s t : Text) : escape (s ++ t) = escape s ++ escape t :=
 List.flatMap_append

theorem opening_escape (h : opening <+: s) : opening <+: escape s ++ rest := by
 obtain ⟨t, rfl⟩ := h
 rw [escape_append]
 exact ⟨escape t ++ rest, by simp [opening, escape, escapeChar_plain]⟩

theorem hex_ne : ∀ n < 32, '{' ∉ hex n := by decide

theorem escapeChar_brace {c : Char} (h : escapeChar c ≠ [c]) : ∀ d ∈ escapeChar c, d ≠ '{' := by
 rcases escapeChar_cases c with ⟨hc, -⟩ | ⟨e, hc, -, he⟩ | ⟨hlt, hc⟩
 · exact absurd hc h
 · rw [hc]
   intro d hd
   simp only [List.mem_cons, List.not_mem_nil, or_false] at hd
   rcases hd with rfl | rfl
   · decide
   · rintro rfl
     simp [unescape] at he
 · rw [hc]
   intro d hd
   simp only [List.mem_cons] at hd
   rcases hd with rfl | rfl | rfl | rfl | hd
   · decide
   · decide
   · decide
   · decide
   · rintro rfl
     exact hex_ne c.toNat hlt hd

theorem Renders.escapeChar_inv {c : Char}
  (h : Renders value (escapeChar c ++ (escape s ++ rest)) out)
  (hopen : ¬ opening <+: escapeChar c ++ (escape s ++ rest)) :
  ∃ out', out = escapeChar c ++ out' ∧ Renders value (escape s ++ rest) out' := by
 by_cases hplain : escapeChar c = [c]
 · rw [hplain] at h hopen ⊢
   exact h.char_inv hopen
 · exact h.skip (escapeChar_brace hplain)

theorem Renders.string (hvalues : PlainValues value)
  (h : Renders value (escape s ++ '"' :: rest) out) :
  ∃ s' out', out = escape s' ++ '"' :: out' ∧ Renders value s s' ∧ Renders value rest out' := by
 induction hlength : s.length using Nat.strong_induction_on generalizing s out with
 | _ n ih =>
  cases s with
  | nil =>
   obtain ⟨out', rfl, hrest⟩ := h.char_inv (by simp [opening])
   exact ⟨[], out', rfl, .nil, hrest⟩
  | cons c s =>
   have hescape : escape (c :: s) ++ '"' :: rest = escapeChar c ++ (escape s ++ '"' :: rest) := by
    rw [← List.append_assoc]
    rfl
   by_cases hopen : opening <+: escape (c :: s) ++ '"' :: rest
   · generalize htext : escape (c :: s) ++ '"' :: rest = text at h hopen
     cases h with
     | nil => simp [opening] at hopen
     | char d t out' hc _ => exact absurd hopen hc
     | tag path v tag escaped t out' htag hvalue hrest =>
      have hchars := htag.chars (hvalues.path_chars path v hvalue)
      obtain ⟨s', hs, rfl⟩ := escape_front hchars htext.symm
      have hpositive : 0 < tag.length := by
       cases htag <;> simp [opening]
      have hshorter : s'.length < n := by
       rw [← hlength, hs, List.length_append]
       omega
      obtain ⟨filled, after, rfl, hfilled, hafter⟩ := ih s'.length hshorter hrest rfl
      refine ⟨v ++ filled, after, ?_, ?_, hafter⟩
      · rw [escape_append, escape_plain (hvalues.value_chars path v hvalue), List.append_assoc]
      · rw [hs]
        exact .tag path v tag escaped s' filled htag hvalue hfilled
   · rw [hescape] at h hopen
     obtain ⟨out', rfl, hrest⟩ := h.escapeChar_inv hopen
     obtain ⟨filled, after, rfl, hfilled, hafter⟩ :=
      ih s.length (by rw [← hlength]; simp) hrest rfl
     refine ⟨c :: filled, after, ?_, .char c s filled (fun hc => hopen ?_) hfilled, hafter⟩
     · rw [← List.append_assoc]
       rfl
     · rw [← hescape]
       exact opening_escape hc

theorem Renders.eq_of_noTag (h : Renders value s out) (hs : ¬ opening <:+: s) : out = s := by
 induction h with
 | nil => rfl
 | char c t out _ _ ih =>
  rw [ih fun hsub => hs (hsub.trans (List.suffix_cons c t).isInfix)]
 | tag path v tag escaped t out htag _ _ _ => exact absurd (htag.opens t).isInfix hs

theorem renders_nil (h : Renders value [] out) : out = [] := by
 generalize hnil : ([] : Text) = empty at h
 cases h with
 | nil => rfl
 | char d t out' => cases hnil
 | tag path s tag escaped t out' htag hvalue hrest =>
  have hopen := htag.opens t
  rw [← hnil] at hopen
  simp [opening] at hopen

end Tags

section Values

variable {ν : Type} (F : NumberFormat ν) {value : Text → Option Text}

inductive Filled (value : Text → Option Text) : Json ν → Json ν → Prop where
  | null : Filled value .null .null
  | bool (b : Bool) : Filled value (.bool b) (.bool b)
  | num (n : ν) : Filled value (.num n) (.num n)
  | str (s s' : Text) (h : Renders value s s') : Filled value (.str s) (.str s')
  | arr (items items' : List (Json ν)) (h : List.Forall₂ (Filled value) items items') :
      Filled value (.arr items) (.arr items')
  | obj (members members' : List (Text × Json ν))
      (hkeys : members.map Prod.fst = members'.map Prod.fst)
      (h : List.Forall₂ (Filled value) (members.map Prod.snd) (members'.map Prod.snd)) :
      Filled value (.obj members) (.obj members')

def hasTemplatedKey : Json ν → Bool :=
  fold { null := false, bool := fun _ => false, num := fun _ => false, str := fun _ => false,
         arr := fun items => items.any id,
         obj := fun members => members.any fun m => decide (opening <:+: m.1) || m.2 }

theorem renders_closed {α : Type} {close : Char} (hclose : close ≠ '{') {text : α → Text}
  {R : α → α → Prop} {items : List α} {rest out : Text}
  (h : Renders value (closed close (items.map text) ++ rest) out)
  (hitem : ∀ item ∈ items, ∀ rest out, Renders value (text item ++ rest) out →
   ∃ item' out', out = text item' ++ out' ∧ Renders value rest out' ∧ R item item') :
  ∃ items' out', out = closed close (items'.map text) ++ out' ∧ Renders value rest out' ∧
   List.Forall₂ R items items' := by
 have hchar : ∀ (c : Char) (t out : Text), c ≠ '{' → Renders value (c :: t) out →
   ∃ out', out = c :: out' ∧ Renders value t out' := by
  intro c t out hc h
  exact h.char_inv (by simp [opening, Ne.symm hc])
 induction items generalizing out with
 | nil =>
  obtain ⟨out', rfl, hrest⟩ := hchar close rest out hclose h
  exact ⟨[], out', rfl, hrest, .nil⟩
 | cons item items ih =>
  have hfirst := hitem item List.mem_cons_self
  cases items with
  | nil =>
   simp only [List.map_cons, List.map_nil, closed, List.append_assoc] at h
   obtain ⟨item', out', rfl, hout', hR⟩ := hfirst _ _ h
   obtain ⟨after, rfl, hrest⟩ := hchar close rest out' hclose hout'
   exact ⟨[item'], after, by simp [closed], hrest, .cons hR .nil⟩
  | cons next items =>
   simp only [List.map_cons, closed, List.append_assoc, List.cons_append] at h
   obtain ⟨item', out', rfl, hout', hR⟩ := hfirst _ _ h
   obtain ⟨after, rfl, hafter⟩ := hchar ',' _ out' (by decide) hout'
   obtain ⟨items', last, rfl, hlast, hRs⟩ :=
    ih hafter fun item hmem => hitem item (List.mem_cons_of_mem _ hmem)
   cases hRs with
   | cons hRnext hRrest =>
    exact ⟨item' :: _ :: _, last, by simp [closed], hlast, .cons hR (.cons hRnext hRrest)⟩

theorem hasTemplatedKey_arr {items : List (Json ν)} (h : hasTemplatedKey (.arr items) = false) :
  ∀ v ∈ items, hasTemplatedKey v = false := by
 rw [hasTemplatedKey, fold_arr] at h
 change (items.map hasTemplatedKey).any id = false at h
 simpa using h

theorem hasTemplatedKey_obj {members : List (Text × Json ν)}
  (h : hasTemplatedKey (.obj members) = false) :
  ∀ m ∈ members, ¬ opening <:+: m.1 ∧ hasTemplatedKey m.2 = false := by
 rw [hasTemplatedKey, fold_obj] at h
 simp only [List.any_map, List.any_eq_false, Function.comp_apply, Bool.or_eq_true,
  decide_eq_true_eq, not_or, Bool.not_eq_true] at h
 exact h

theorem filled_obj {members members' : List (Text × Json ν)}
  (h : List.Forall₂ (fun m m' => m.1 = m'.1 ∧ Filled value m.2 m'.2) members members') :
  Filled value (.obj members) (.obj members') := by
 refine .obj members members' ?_ ?_
 · induction h with
   | nil => rfl
   | cons hm _ ih => rw [List.map_cons, List.map_cons, hm.1, ih]
 · induction h with
   | nil => exact .nil
   | cons hm _ ih => exact .cons hm.2 ih

theorem Renders.member (hvalues : PlainValues value) {m : Text × Json ν} (hkey : ¬ opening <:+: m.1)
  (hvalue : ∀ rest out, Renders value (stringify F m.2 ++ rest) out →
   ∃ v' out', out = stringify F v' ++ out' ∧ Renders value rest out' ∧ Filled value m.2 v')
  {rest out : Text} (h : Renders value (memberText F m ++ rest) out) :
  ∃ m' out', out = memberText F m' ++ out' ∧ Renders value rest out' ∧
   (m.1 = m'.1 ∧ Filled value m.2 m'.2) := by
 simp only [memberText, quote, List.cons_append, List.append_assoc, List.nil_append] at h
 obtain ⟨out₁, rfl, h₁⟩ := h.char_inv (by simp [opening])
 obtain ⟨key, out₂, rfl, hfilled, h₂⟩ := h₁.string hvalues
 obtain rfl : key = m.1 := hfilled.eq_of_noTag hkey
 obtain ⟨out₃, rfl, h₃⟩ := h₂.char_inv (by simp [opening])
 obtain ⟨v', out₄, rfl, hrest, hv⟩ := hvalue rest out₃ h₃
 exact ⟨(m.1, v'), out₄, by simp [memberText, quote], hrest, rfl, hv⟩

theorem Renders.json (hvalues : PlainValues value) (v : Json ν) (hkeys : hasTemplatedKey v = false) :
  ∀ rest out, Renders value (stringify F v ++ rest) out →
   ∃ v' out', out = stringify F v' ++ out' ∧ Renders value rest out' ∧ Filled value v v' := by
 induction v using Json.induction with
 | null =>
  intro rest out h
  change Renders value (['n', 'u', 'l', 'l'] ++ rest) out at h
  obtain ⟨out', rfl, hrest⟩ := h.skip (by simp)
  exact ⟨.null, out', rfl, hrest, .null⟩
 | bool b =>
  intro rest out h
  change Renders value ((if b then ['t', 'r', 'u', 'e'] else ['f', 'a', 'l', 's', 'e']) ++ rest) out at h
  obtain ⟨out', rfl, hrest⟩ := h.skip (by cases b <;> simp)
  exact ⟨.bool b, out', rfl, hrest, .bool b⟩
 | num n =>
  intro rest out h
  have hchars : ∀ c ∈ F.print n, c ≠ '{' := by
   rintro c hc rfl
   exact absurd (F.print_chars n _ hc) (by decide)
  obtain ⟨out', rfl, hrest⟩ := h.skip hchars
  exact ⟨.num n, out', rfl, hrest, .num n⟩
 | str s =>
  intro rest out h
  change Renders value ('"' :: (escape s ++ ['"']) ++ rest) out at h
  simp only [List.cons_append, List.append_assoc, List.nil_append] at h
  obtain ⟨out₁, rfl, h₁⟩ := h.char_inv (by simp [opening])
  obtain ⟨s', out₂, rfl, hfilled, hrest⟩ := h₁.string hvalues
  exact ⟨.str s', out₂, by simp [stringify, fold, stringifyAlgebra, quote], hrest, .str s s' hfilled⟩
 | arr items ih =>
  intro rest out h
  rw [stringify_arr, List.cons_append] at h
  obtain ⟨out₁, rfl, h₁⟩ := h.char_inv (by simp [opening])
  obtain ⟨items', out₂, rfl, hrest, hitems⟩ := renders_closed (by decide) h₁ fun v hv =>
   ih v hv (hasTemplatedKey_arr hkeys v hv)
  exact ⟨.arr items', out₂, by rw [stringify_arr, List.cons_append], hrest, .arr _ _ hitems⟩
 | obj members ih =>
  intro rest out h
  rw [stringify_obj, List.cons_append] at h
  have hbrace : ¬ opening <+: '{' :: (closed '}' (members.map (memberText F)) ++ rest) := by
   cases members with
   | nil => simp [opening, closed]
   | cons m members => cases members <;> simp [opening, closed, memberText, quote]
  obtain ⟨out₁, rfl, h₁⟩ := h.char_inv hbrace
  obtain ⟨members', out₂, rfl, hrest, hmembers⟩ := renders_closed (by decide) h₁ fun m hm rest out h =>
   Renders.member F hvalues (hasTemplatedKey_obj hkeys m hm).1
    (ih m hm (hasTemplatedKey_obj hkeys m hm).2) h
  exact ⟨.obj members', out₂, by rw [stringify_obj, List.cons_append], hrest, filled_obj hmembers⟩

theorem exists_left_of_forall₂ {α β : Type} {R : α → β → Prop} {l : List α} {l' : List β}
  (h : List.Forall₂ R l l') {x : α} (hx : x ∈ l) : ∃ y ∈ l', R x y := by
 induction h with
 | nil => cases hx
 | cons hR _ ih =>
  rcases List.mem_cons.1 hx with rfl | hx
  · exact ⟨_, List.mem_cons_self, hR⟩
  · obtain ⟨y, hy, hxy⟩ := ih hx
    exact ⟨y, List.mem_cons_of_mem _ hy, hxy⟩

theorem exists_right_of_forall₂ {α β : Type} {R : α → β → Prop} {l : List α} {l' : List β}
  (h : List.Forall₂ R l l') {y : β} (hy : y ∈ l') : ∃ x ∈ l, R x y :=
 exists_left_of_forall₂ h.flip hy

theorem Filled.members {members members' : List (Text × Json ν)}
  (h : Filled value (.obj members) (.obj members')) :
  List.Forall₂ (fun m m' => m.1 = m'.1 ∧ Filled value m.2 m'.2) members members' := by
 cases h with
 | obj _ _ hkeys hvalues =>
  induction members generalizing members' with
  | nil =>
   cases members' with
   | nil => exact .nil
   | cons m' members' => cases hkeys
  | cons m members ih =>
   cases members' with
   | nil => cases hkeys
   | cons m' members' =>
    simp only [List.map_cons, List.cons.injEq] at hkeys
    cases hvalues with
    | cons hvalue hvalues => exact .cons ⟨hkeys.1, hvalue⟩ (ih hkeys.2 hvalues)

theorem properMembers_keys {members : List (Text × Json ν)} : properMembers members = true ↔
  (members.map Prod.fst).Nodup ∧ (members.map Prod.fst).Pairwise fun a b => ownBefore a b = true := by
 rw [properMembers_iff, List.pairwise_map]

theorem Filled.proper {v v' : Json ν} (h : Filled value v v') (hv : proper v = true) :
  JsonText.proper v' = true := by
 induction v using Json.induction generalizing v' with
 | null => cases h; exact hv
 | bool b => cases h; exact hv
 | num n => cases h; exact hv
 | str s => cases h; rfl
 | arr items ih =>
  cases h with
  | arr _ items' hitems =>
   have hall : ∀ w ∈ items', JsonText.proper w = true := by
    intro w hw
    obtain ⟨x, hx, hfilled⟩ := exists_right_of_forall₂ hitems hw
    exact ih x hx hfilled (proper_arr hv x hx)
   rw [JsonText.proper, fold_arr]
   change (items'.map JsonText.proper).all id = true
   simpa using hall
 | obj members ih =>
  cases h with
  | obj _ members' hkeys hvalues =>
   obtain ⟨hmembers, hproper⟩ := proper_obj.1 hv
   have hfilled := (Filled.obj members members' hkeys hvalues).members
   refine proper_obj.2 ⟨?_, fun m' hm' => ?_⟩
   · rw [properMembers_keys] at hmembers ⊢
     rw [← hkeys]
     exact hmembers
   · obtain ⟨m, hm, -, hvalue⟩ := exists_right_of_forall₂ hfilled hm'
     exact ih m hm hvalue (hproper m hm)

theorem parse_rendered (hvalues : PlainValues value) {v : Json ν} (hproper : proper v = true)
  (hkeys : hasTemplatedKey v = false) {out : Text} (h : Renders value (stringify F v) out) :
  ∃ v', parse F out = some v' ∧ Filled value v v' := by
 have h' : Renders value (stringify F v ++ []) out := by
  rw [List.append_nil]
  exact h
 obtain ⟨v', rest, rfl, hrest, hfilled⟩ := Renders.json F hvalues v hkeys [] out h'
 refine ⟨v', ?_, hfilled⟩
 rw [renders_nil hrest, List.append_nil, parse_stringify F (hfilled.proper hproper)]

end Values

section SoleTag

theorem front_unique {p : Char → Bool} {a a' b b' : Text} (ha : ∀ c ∈ a, p c = true)
  (ha' : ∀ c ∈ a', p c = true) (hb : ∀ c ∈ b.head?, p c = false) (hb' : ∀ c ∈ b'.head?, p c = false)
  (h : a ++ b = a' ++ b') : a = a' ∧ b = b' := by
 induction a generalizing a' with
 | nil =>
  cases a' with
  | nil => exact ⟨rfl, h⟩
  | cons d a' =>
   have hd : b.head? = some d := by rw [← List.nil_append b, h]; rfl
   exact absurd (ha' d List.mem_cons_self) (by rw [hb d hd]; decide)
 | cons c a ih =>
  cases a' with
  | nil =>
   have hc : b'.head? = some c := by rw [← List.nil_append b', ← h]; rfl
   exact absurd (ha c List.mem_cons_self) (by rw [hb' c hc]; decide)
  | cons d a' =>
   simp only [List.cons_append, List.cons.injEq] at h
   obtain ⟨rfl, h⟩ := h
   obtain ⟨rfl, rfl⟩ := ih (fun x hx => ha x (List.mem_cons_of_mem _ hx))
    (fun x hx => ha' x (List.mem_cons_of_mem _ hx)) h
   exact ⟨rfl, rfl⟩

def braces (lead : Text) : Text := if '{' ∈ lead then ['}', '}', '}'] else ['}', '}']

theorem TagText.parts {path tag : Text} {escaped : Bool} (h : TagText path escaped tag) :
  ∃ lead after, tag = opening ++ (lead ++ (path ++ (after ++ braces lead))) ∧
   (∀ c ∈ lead, nameChar c = false) ∧ Blank after := by
 cases h with
 | double before after hbefore hafter =>
  have hnot : '{' ∉ before := fun hmem => (whitespace_ne (hbefore _ hmem)).2.2.1 rfl
  exact ⟨before, after, by simp [braces, hnot], fun c hc => whitespace_not_nameChar (hbefore c hc), hafter⟩
 | ampersand before between after hbefore hbetween hafter =>
  have hnot : '{' ∉ before ++ '&' :: between := by
   intro hmem
   simp only [List.mem_append, List.mem_cons] at hmem
   rcases hmem with hmem | hmem | hmem
   · exact (whitespace_ne (hbefore _ hmem)).2.2.1 rfl
   · exact absurd hmem (by decide)
   · exact (whitespace_ne (hbetween _ hmem)).2.2.1 rfl
  refine ⟨before ++ '&' :: between, after, by rw [braces, if_neg hnot], fun c hc => ?_, hafter⟩
  simp only [List.mem_append, List.mem_cons] at hc
  rcases hc with hc | rfl | hc
  · exact whitespace_not_nameChar (hbefore c hc)
  · decide
  · exact whitespace_not_nameChar (hbetween c hc)
 | triple before between after hbefore hbetween hafter =>
  refine ⟨before ++ '{' :: between, after, by simp [braces], fun c hc => ?_, hafter⟩
  simp only [List.mem_append, List.mem_cons] at hc
  rcases hc with hc | rfl | hc
  · exact whitespace_not_nameChar (hbefore c hc)
  · decide
  · exact whitespace_not_nameChar (hbetween c hc)

theorem braces_head (lead s : Text) (c : Char) (hc : c ∈ (braces lead ++ s).head?) :
  whitespace c = false ∧ nameChar c = false := by
 unfold braces at hc
 split at hc <;>
 · simp only [List.cons_append, List.head?_cons, Option.mem_def, Option.some.injEq] at hc
   subst hc
   decide

theorem after_head {after lead : Text} (hafter : Blank after) (t : Text) (c : Char)
  (hc : c ∈ (after ++ (braces lead ++ t)).head?) : nameChar c = false := by
 cases after with
 | nil => exact (braces_head lead t c hc).2
 | cons d after =>
  simp only [List.cons_append, List.head?_cons, Option.mem_def, Option.some.injEq] at hc
  subst hc
  exact whitespace_not_nameChar (hafter d List.mem_cons_self)

theorem TagText.unique {path path' tag tag' t : Text} {escaped escaped' : Bool}
  (h : TagText path escaped tag) (h' : TagText path' escaped' tag') (hpath : path ≠ [])
  (hpath' : path' ≠ []) (hchars : ∀ c ∈ path, nameChar c = true)
  (hchars' : ∀ c ∈ path', nameChar c = true) (heq : tag ++ t = tag') : path = path' ∧ t = [] := by
 obtain ⟨lead, after, rfl, hlead, hafter⟩ := h.parts
 obtain ⟨lead', after', rfl, hlead', hafter'⟩ := h'.parts
 have hhead : ∀ {p s : Text}, p ≠ [] → (∀ c ∈ p, nameChar c = true) →
   ∀ c ∈ (p ++ s).head?, (!nameChar c) = false := by
  intro p s hp hall c hc
  cases p with
  | nil => exact absurd rfl hp
  | cons d p =>
   simp only [List.cons_append, List.head?_cons, Option.mem_def, Option.some.injEq] at hc
   subst hc
   rw [hall d List.mem_cons_self]
   rfl
 have hbody : lead ++ (path ++ (after ++ (braces lead ++ t))) =
   lead' ++ (path' ++ (after' ++ (braces lead' ++ []))) := by
  simpa [opening] using heq
 obtain ⟨rfl, hnamed⟩ := @front_unique (fun c => !nameChar c) _ _ _ _
  (fun c hc => by rw [hlead c hc]; rfl) (fun c hc => by rw [hlead' c hc]; rfl)
  (hhead hpath hchars) (hhead hpath' hchars') hbody
 obtain ⟨hsame, hrest⟩ :=
  front_unique hchars hchars' (after_head hafter t) (after_head hafter' []) hnamed
 obtain ⟨-, hclosed⟩ := front_unique hafter hafter' (fun c hc => (braces_head lead t c hc).1)
  (fun c hc => (braces_head lead [] c hc).1) hrest
 exact ⟨hsame, by simpa using hclosed⟩

theorem Renders.sole {value : Text → Option Text} (hvalues : PlainValues value)
  {path s tag out : Text} {escaped : Bool} (htag : TagText path escaped tag)
  (hvalue : value path = some s) (h : Renders value tag out) : out = s := by
 have hopen := htag.opens []
 rw [List.append_nil] at hopen
 generalize htext : tag = text at h hopen
 cases h with
 | nil => simp [opening] at hopen
 | char c t out hc _ => exact absurd hopen hc
 | tag path' s' tag' escaped' t out htag' hvalue' hrest =>
  obtain ⟨rfl, rfl⟩ := htag'.unique htag (hvalues.path_ne_nil _ _ hvalue')
   (hvalues.path_ne_nil _ _ hvalue) (hvalues.path_chars _ _ hvalue') (hvalues.path_chars _ _ hvalue)
   htext.symm
  rw [renders_nil hrest, List.append_nil]
  exact Option.some.inj (hvalue'.symm.trans hvalue)

end SoleTag

end BoardGamesEmpire.MustacheTemplate
