import BoardGamesEmpire.JsText

set_option autoImplicit false

/-!
# JSON values and their text

JSON documents as ECMAScript holds them, `JSON.stringify`, `JSON.parse` and the
own-key order of objects. Numbers stay abstract: only how they print and read
matters here.
-/
namespace BoardGamesEmpire.JsonText
open JsText

inductive Json (ν : Type) where
  | null
  | bool (value : Bool)
  | num (value : ν)
  | str (value : Text)
  | arr (items : List (Json ν))
  | obj (members : List (Text × Json ν))

structure Algebra (ν α : Type) where
  null : α
  bool : Bool → α
  num : ν → α
  str : Text → α
  arr : List α → α
  obj : List (Text × α) → α

section Fold

variable {ν α : Type}

mutual

def fold (a : Algebra ν α) : Json ν → α
  | .null => a.null
  | .bool b => a.bool b
  | .num n => a.num n
  | .str s => a.str s
  | .arr items => a.arr (foldItems a items)
  | .obj members => a.obj (foldMembers a members)
termination_by structural v => v

def foldItems (a : Algebra ν α) : List (Json ν) → List α
  | [] => []
  | v :: items => fold a v :: foldItems a items
termination_by structural items => items

def foldMembers (a : Algebra ν α) : List (Text × Json ν) → List (Text × α)
  | [] => []
  | member :: members => foldMember a member :: foldMembers a members
termination_by structural members => members

def foldMember (a : Algebra ν α) : Text × Json ν → Text × α
  | (key, v) => (key, fold a v)
termination_by structural member => member

end

theorem foldItems_eq (a : Algebra ν α) (items : List (Json ν)) :
  foldItems a items = items.map (fold a) := by
 induction items with
 | nil => rfl
 | cons v items ih => simp [foldItems, ih]

theorem foldMembers_eq (a : Algebra ν α) (members : List (Text × Json ν)) :
  foldMembers a members = members.map fun m => (m.1, fold a m.2) := by
 induction members with
 | nil => rfl
 | cons member members ih =>
  obtain ⟨key, v⟩ := member
  simp [foldMembers, foldMember, ih]

theorem fold_arr (a : Algebra ν α) (items : List (Json ν)) :
  fold a (.arr items) = a.arr (items.map (fold a)) := by
 rw [fold, foldItems_eq]

theorem fold_obj (a : Algebra ν α) (members : List (Text × Json ν)) :
  fold a (.obj members) = a.obj (members.map fun m => (m.1, fold a m.2)) := by
 rw [fold, foldMembers_eq]

@[elab_as_elim]
theorem Json.induction {motive : Json ν → Prop} (null : motive .null)
  (bool : ∀ b, motive (.bool b)) (num : ∀ n, motive (.num n)) (str : ∀ s, motive (.str s))
  (arr : ∀ items, (∀ v ∈ items, motive v) → motive (.arr items))
  (obj : ∀ members, (∀ m ∈ members, motive m.2) → motive (.obj members)) (v : Json ν) :
  motive v := by
 apply @Json.rec ν motive (fun items => ∀ v ∈ items, motive v)
  (fun members => ∀ m ∈ members, motive m.2) (fun m => motive m.2) null bool num str arr obj
 · simp
 · intro v items hv hitems w hw
   cases List.mem_cons.mp hw with
   | inl h => rw [h]; exact hv
   | inr h => exact hitems w h
 · simp
 · intro m members hm hmembers w hw
   cases List.mem_cons.mp hw with
   | inl h => rw [h]; exact hm
   | inr h => exact hmembers w h
 · intro key v hv
   exact hv

end Fold

def isNumberChar (c : Char) : Bool :=
  c.isDigit || c == '-' || c == '+' || c == '.' || c == 'e' || c == 'E'

/-- How the numbers of a document print and read. ECMAScript reads back the
    number it printed. -/
structure NumberFormat (ν : Type) where
  print : ν → Text
  read : Text → Option ν
  read_print : ∀ n, read (print n) = some n
  print_chars : ∀ n, ∀ c ∈ print n, isNumberChar c = true
  print_ne_nil : ∀ n, print n ≠ []

def literalFormat : NumberFormat { s : Text // s ≠ [] ∧ s.all isNumberChar = true } where
  print n := n.val
  read s := if h : s ≠ [] ∧ s.all isNumberChar = true then some ⟨s, h⟩ else none
  read_print n := dif_pos n.2
  print_chars n := List.all_eq_true.mp n.2.2
  print_ne_nil n := n.2.1

def hex (n : ℕ) : Text := [Nat.digitChar (n / 16), Nat.digitChar (n % 16)]

def escapeChar (c : Char) : Text :=
  if c = '"' then ['\\', '"']
  else if c = '\\' then ['\\', '\\']
  else if c.toNat = 8 then ['\\', 'b']
  else if c.toNat = 9 then ['\\', 't']
  else if c.toNat = 10 then ['\\', 'n']
  else if c.toNat = 12 then ['\\', 'f']
  else if c.toNat = 13 then ['\\', 'r']
  else if c.toNat < 32 then '\\' :: 'u' :: '0' :: '0' :: hex c.toNat
  else [c]

def escape (s : Text) : Text := s.flatMap escapeChar

def quote (s : Text) : Text := '"' :: (escape s ++ ['"'])

def closed (close : Char) : List Text → Text
  | [] => [close]
  | [t] => t ++ [close]
  | t :: ts => t ++ ',' :: closed close ts

section Stringify

variable {ν : Type} (F : NumberFormat ν)

def stringifyAlgebra : Algebra ν Text where
  null := ['n', 'u', 'l', 'l']
  bool b := if b then ['t', 'r', 'u', 'e'] else ['f', 'a', 'l', 's', 'e']
  num := F.print
  str := quote
  arr texts := '[' :: closed ']' texts
  obj texts := '{' :: closed '}' (texts.map fun m => quote m.1 ++ ':' :: m.2)

/-- `JSON.stringify`. -/
def stringify : Json ν → Text := fold (stringifyAlgebra F)

theorem stringify_arr (items : List (Json ν)) :
  stringify F (.arr items) = '[' :: closed ']' (items.map (stringify F)) :=
 fold_arr _ _

def memberText (m : Text × Json ν) : Text := quote m.1 ++ ':' :: stringify F m.2

theorem stringify_obj (members : List (Text × Json ν)) :
  stringify F (.obj members) = '{' :: closed '}' (members.map (memberText F)) := by
 rw [stringify, fold_obj]
 simp only [stringifyAlgebra, List.map_map]
 rfl

end Stringify

def isJsonSpace (c : Char) : Bool := c == ' ' || c.toNat == 9 || c.toNat == 10 || c.toNat == 13

def skip (s : Text) : Text := s.dropWhile isJsonSpace

def unescape (c : Char) : Option Char :=
  if c = '"' ∨ c = '\\' ∨ c = '/' then some c
  else if c = 'b' then some (Char.ofNat 8)
  else if c = 't' then some (Char.ofNat 9)
  else if c = 'n' then some (Char.ofNat 10)
  else if c = 'f' then some (Char.ofNat 12)
  else if c = 'r' then some (Char.ofNat 13)
  else none

/-- The character a `\u` escape names. A surrogate half names none here: texts
    are lists of characters, and `stringify` prints no such escape. -/
def unicode (digits : Text) : Option Char :=
  match digits.mapM digitValue with
  | some ds =>
    if ds.all (· < 16) then
      let n := ofDigits 16 ds
      if n.isValidChar then some (Char.ofNat n) else none
    else none
  | none => none

def readString : Text → Option (Text × Text)
  | [] => none
  | '\\' :: 'u' :: a :: b :: c :: d :: rest =>
    match unicode [a, b, c, d], readString rest with
    | some e, some (s, rest) => some (e :: s, rest)
    | _, _ => none
  | '\\' :: c :: rest =>
    match unescape c, readString rest with
    | some e, some (s, rest) => some (e :: s, rest)
    | _, _ => none
  | c :: rest =>
    if c = '"' then some ([], rest)
    else if c.toNat < 32 then none
    else (readString rest).map fun p => (c :: p.1, p.2)

def stripText (expected s : Text) : Option Text :=
  if expected.isPrefixOf s then some (s.drop expected.length) else none

section Read

variable {ν : Type} (F : NumberFormat ν)

mutual

def readValue : ℕ → Text → Option (Json ν × Text)
  | 0, _ => none
  | fuel + 1, s =>
    match skip s with
    | [] => none
    | c :: rest =>
      if c = '"' then (readString rest).map fun p => (.str p.1, p.2)
      else if c = '[' then
        match skip rest with
        | ']' :: rest => some (.arr [], rest)
        | rest => (readItems fuel rest).map fun p => (.arr p.1, p.2)
      else if c = '{' then
        match skip rest with
        | '}' :: rest => some (.obj [], rest)
        | rest => (readMembers fuel rest).map fun p => (.obj p.1, p.2)
      else if c = 'n' then (stripText ['u', 'l', 'l'] rest).map fun rest => (.null, rest)
      else if c = 't' then (stripText ['r', 'u', 'e'] rest).map fun rest => (.bool true, rest)
      else if c = 'f' then (stripText ['a', 'l', 's', 'e'] rest).map fun rest => (.bool false, rest)
      else
        (F.read ((c :: rest).takeWhile isNumberChar)).map fun n =>
          (.num n, (c :: rest).dropWhile isNumberChar)

def readItems : ℕ → Text → Option (List (Json ν) × Text)
  | 0, _ => none
  | fuel + 1, s =>
    match readValue fuel s with
    | none => none
    | some (v, rest) =>
      match skip rest with
      | ',' :: rest => (readItems fuel rest).map fun p => (v :: p.1, p.2)
      | ']' :: rest => some ([v], rest)
      | _ => none

def readMembers : ℕ → Text → Option (List (Text × Json ν) × Text)
  | 0, _ => none
  | fuel + 1, s =>
    match skip s with
    | '"' :: rest =>
      match readString rest with
      | none => none
      | some (key, rest) =>
        match skip rest with
        | ':' :: rest =>
          match readValue fuel rest with
          | none => none
          | some (v, rest) =>
            match skip rest with
            | ',' :: rest => (readMembers fuel rest).map fun p => ((key, v) :: p.1, p.2)
            | '}' :: rest => some ([(key, v)], rest)
            | _ => none
        | _ => none
    | _ => none

end

/-- The value a whole text spells, its members in the order of the text. -/
def readText (s : Text) : Option (Json ν) :=
  match readValue F (s.length + 1) s with
  | some (v, rest) => if skip rest = [] then some v else none
  | none => none

end Read

theorem escapeChar_plain {c : Char} (hq : c ≠ '"') (hb : c ≠ '\\') (hc : 32 ≤ c.toNat) :
  escapeChar c = [c] := by
 simp only [escapeChar, if_neg hq, if_neg hb]
 repeat rw [if_neg (by omega)]

theorem ofNat_of_toNat {c : Char} {n : ℕ} (h : c.toNat = n) : Char.ofNat n = c := by
 rw [← h, Char.ofNat_toNat]

theorem escapeChar_cases (c : Char) :
  (escapeChar c = [c] ∧ c ≠ '"' ∧ c ≠ '\\' ∧ 32 ≤ c.toNat) ∨
   (∃ e, escapeChar c = ['\\', e] ∧ e ≠ 'u' ∧ unescape e = some c) ∨
   (c.toNat < 32 ∧ escapeChar c = '\\' :: 'u' :: '0' :: '0' :: hex c.toNat) := by
 unfold escapeChar
 split_ifs with hq hb h8 h9 h10 h12 h13 h32
 · exact .inr (.inl ⟨'"', rfl, by decide, by rw [hq]; rfl⟩)
 · exact .inr (.inl ⟨'\\', rfl, by decide, by rw [hb]; rfl⟩)
 · exact .inr (.inl ⟨'b', rfl, by decide, congrArg some (ofNat_of_toNat h8)⟩)
 · exact .inr (.inl ⟨'t', rfl, by decide, congrArg some (ofNat_of_toNat h9)⟩)
 · exact .inr (.inl ⟨'n', rfl, by decide, congrArg some (ofNat_of_toNat h10)⟩)
 · exact .inr (.inl ⟨'f', rfl, by decide, congrArg some (ofNat_of_toNat h12)⟩)
 · exact .inr (.inl ⟨'r', rfl, by decide, congrArg some (ofNat_of_toNat h13)⟩)
 · exact .inr (.inr ⟨h32, rfl⟩)
 · exact .inl ⟨rfl, hq, hb, by omega⟩

theorem unicode_hex : ∀ n < 32, unicode ('0' :: '0' :: hex n) = some (Char.ofNat n) := by decide

theorem readString_escapeChar (c : Char) (rest : Text) :
  readString (escapeChar c ++ rest) = (readString rest).map fun p => (c :: p.1, p.2) := by
 rcases escapeChar_cases c with ⟨h, hq, hb, hc⟩ | ⟨e, h, hu, he⟩ | ⟨hc, h⟩
 · have hlt : ¬ c.toNat < 32 := by omega
   rw [h, List.cons_append, List.nil_append, readString]
   · simp [hq, hlt]
   · simp [hb]
   · simp [hb]
 · rw [h, List.cons_append, List.cons_append, List.nil_append, readString]
   · rw [he]
     cases readString rest <;> rfl
   · simp [hu]
 · rw [h]
   simp only [hex, List.cons_append, List.nil_append, readString]
   have hcode := unicode_hex c.toNat hc
   rw [hex, ofNat_of_toNat rfl] at hcode
   rw [hcode]
   cases readString rest <;> rfl

theorem readString_escape (s rest : Text) :
  readString (escape s ++ '"' :: rest) = some (s, rest) := by
 induction s with
 | nil => simp [escape, readString]
 | cons c s ih =>
  rw [escape, List.flatMap_cons, List.append_assoc, readString_escapeChar]
  change Option.map _ (readString (escape s ++ '"' :: rest)) = _
  rw [ih]
  rfl

def Stops (rest : Text) : Prop := ∀ c s, rest = c :: s → isNumberChar c = false

theorem stops_cons {c : Char} {s : Text} (h : isNumberChar c = false) : Stops (c :: s) := by
 intro d t hd
 cases hd
 exact h

section RoundTrip

variable {ν : Type} (F : NumberFormat ν)

theorem read_number (n : ν) {rest : Text} (hrest : Stops rest) :
  (F.print n ++ rest).takeWhile isNumberChar = F.print n ∧
   (F.print n ++ rest).dropWhile isNumberChar = rest := by
 have hstop : rest.takeWhile isNumberChar = [] ∧ rest.dropWhile isNumberChar = rest := by
  cases rest with
  | nil => exact ⟨rfl, rfl⟩
  | cons c s =>
   have hc := hrest c s rfl
   simp [hc]
 rw [List.takeWhile_append_of_pos (F.print_chars n), List.dropWhile_append_of_pos (F.print_chars n),
  hstop.1, hstop.2, List.append_nil]
 exact ⟨rfl, rfl⟩

theorem numberChar_ne {c : Char} (h : isNumberChar c = true) : c ≠ ']' ∧ c ≠ '}' ∧ c ≠ '"' ∧
  c ≠ '[' ∧ c ≠ '{' ∧ c ≠ 'n' ∧ c ≠ 't' ∧ c ≠ 'f' := by
 refine ⟨?_, ?_, ?_, ?_, ?_, ?_, ?_, ?_⟩ <;> (intro hc; rw [hc] at h; revert h; decide)

theorem numberChar_space {c : Char} (h : isNumberChar c = true) : isJsonSpace c = false := by
 by_contra hs
 simp only [isJsonSpace, Bool.not_eq_false, Bool.or_eq_true, beq_iff_eq] at hs
 rcases hs with ((hs | hs) | hs) | hs
 · rw [hs] at h
   revert h
   decide
 all_goals
  rw [← ofNat_of_toNat hs] at h
  revert h
  decide

theorem print_cons (n : ν) : ∃ c s, F.print n = c :: s ∧ isNumberChar c = true := by
 cases hp : F.print n with
 | nil => exact absurd hp (F.print_ne_nil n)
 | cons c s => exact ⟨c, s, rfl, F.print_chars n c (by rw [hp]; exact List.mem_cons_self)⟩

theorem stringify_head (v : Json ν) : ∃ c s, stringify F v = c :: s ∧ isJsonSpace c = false ∧
  c ≠ ']' ∧ c ≠ '}' := by
 cases v with
 | null => exact ⟨_, _, rfl, by decide⟩
 | bool b => cases b <;> exact ⟨_, _, rfl, by decide⟩
 | num n =>
  obtain ⟨c, s, hs, hc⟩ := print_cons F n
  have hne := numberChar_ne hc
  exact ⟨c, s, hs, numberChar_space hc, hne.1, hne.2.1⟩
 | str s => exact ⟨_, _, rfl, by decide⟩
 | arr items => exact ⟨_, _, stringify_arr F items, by decide⟩
 | obj members => exact ⟨_, _, stringify_obj F members, by decide⟩

theorem skip_cons {c : Char} {s : Text} (h : isJsonSpace c = false) : skip (c :: s) = c :: s := by
 simp [skip, h]

theorem closed_cons_cons (close : Char) (t u : Text) (ts : List Text) :
  closed close (t :: u :: ts) = t ++ ',' :: closed close (u :: ts) := rfl

def Reads (v : Json ν) : Prop :=
  ∀ fuel rest, (stringify F v).length ≤ fuel → Stops rest →
    readValue F fuel (stringify F v ++ rest) = some (v, rest)

variable {F}

theorem readItems_closed {items : List (Json ν)} (hitems : ∀ v ∈ items, Reads F v)
  (hne : items ≠ []) (fuel : ℕ) (rest : Text)
  (hfuel : (closed ']' (items.map (stringify F))).length ≤ fuel) :
  readItems F fuel (closed ']' (items.map (stringify F)) ++ rest) = some (items, rest) := by
 induction items generalizing fuel with
 | nil => exact absurd rfl hne
 | cons v items ih =>
  have hv := hitems v List.mem_cons_self
  cases items with
  | nil =>
   simp only [List.map_cons, List.map_nil, closed, List.length_append, List.length_cons,
    List.length_nil] at hfuel
   obtain ⟨fuel, rfl⟩ : ∃ n, fuel = n + 1 := ⟨fuel - 1, by omega⟩
   have hread := hv fuel (']' :: rest) (by omega) (stops_cons (by decide))
   simp only [List.map_cons, List.map_nil, closed, List.append_assoc, List.cons_append,
    List.nil_append, readItems, hread]
   rw [skip_cons (by decide)]
   rfl
  | cons w items =>
   simp only [List.map_cons, closed_cons_cons, List.length_append, List.length_cons] at hfuel
   obtain ⟨fuel, rfl⟩ : ∃ n, fuel = n + 1 := ⟨fuel - 1, by omega⟩
   have hrec := ih (fun u hu => hitems u (List.mem_cons_of_mem _ hu)) (by simp) fuel
    (by simp only [List.map_cons]; omega)
   have hread := hv fuel (',' :: (closed ']' (stringify F w :: items.map (stringify F)) ++ rest))
    (by omega) (stops_cons (by decide))
   simp only [List.map_cons, closed_cons_cons, List.append_assoc, List.cons_append, readItems,
    hread]
   rw [skip_cons (by decide)]
   simp only [List.map_cons] at hrec
   simp only [hrec, Option.map_some]

theorem memberText_cons (key : Text) (v : Json ν) (rest : Text) :
  memberText F (key, v) ++ rest = '"' :: (escape key ++ '"' :: ':' :: (stringify F v ++ rest)) := by
 simp [memberText, quote]

theorem readMembers_closed {members : List (Text × Json ν)} (hmembers : ∀ m ∈ members, Reads F m.2)
  (hne : members ≠ []) (fuel : ℕ) (rest : Text)
  (hfuel : (closed '}' (members.map (memberText F))).length ≤ fuel) :
  readMembers F fuel (closed '}' (members.map (memberText F)) ++ rest) = some (members, rest) := by
 induction members generalizing fuel with
 | nil => exact absurd rfl hne
 | cons m members ih =>
  obtain ⟨key, v⟩ := m
  have hv : Reads F v := hmembers (key, v) List.mem_cons_self
  have hlen : (stringify F v).length < (memberText F (key, v)).length := by
   simp only [memberText, quote, List.length_append, List.length_cons]
   omega
  cases members with
  | nil =>
   simp only [List.map_cons, List.map_nil, closed, List.length_append, List.length_cons,
    List.length_nil] at hfuel
   obtain ⟨fuel, rfl⟩ : ∃ n, fuel = n + 1 := ⟨fuel - 1, by omega⟩
   have hread := hv fuel ('}' :: rest) (by omega) (stops_cons (by decide))
   simp only [List.map_cons, List.map_nil, closed, List.append_assoc, List.cons_append,
    List.nil_append, memberText_cons, readMembers]
   simp only [skip_cons (show isJsonSpace '"' = false by decide), readString_escape,
    skip_cons (show isJsonSpace ':' = false by decide), hread,
    skip_cons (show isJsonSpace '}' = false by decide)]
  | cons w members =>
   simp only [List.map_cons, closed_cons_cons, List.length_append, List.length_cons] at hfuel
   obtain ⟨fuel, rfl⟩ : ∃ n, fuel = n + 1 := ⟨fuel - 1, by omega⟩
   have hrec := ih (fun u hu => hmembers u (List.mem_cons_of_mem _ hu)) (by simp) fuel
    (by simp only [List.map_cons]; omega)
   have hread := hv fuel
    (',' :: (closed '}' (memberText F w :: members.map (memberText F)) ++ rest))
    (by omega) (stops_cons (by decide))
   simp only [List.map_cons] at hrec
   simp only [List.map_cons, closed_cons_cons, List.append_assoc, List.cons_append,
    memberText_cons, readMembers]
   simp only [skip_cons (show isJsonSpace '"' = false by decide), readString_escape,
    skip_cons (show isJsonSpace ':' = false by decide), hread,
    skip_cons (show isJsonSpace ',' = false by decide), hrec, Option.map_some]

theorem closed_head (close : Char) {ts : List Text} (hne : ts ≠ []) (rest : Text) :
  ∃ t ∈ ts, ∃ tail, closed close ts ++ rest = t ++ tail := by
 cases ts with
 | nil => exact absurd rfl hne
 | cons t ts =>
  refine ⟨t, List.mem_cons_self, ?_⟩
  cases ts with
  | nil => exact ⟨_, by simp [closed]; rfl⟩
  | cons u ts => exact ⟨_, by rw [closed_cons_cons, List.append_assoc]⟩

theorem reads_num (n : ν) : Reads F (.num n) := by
 intro fuel rest hfuel hrest
 obtain ⟨c, s, hs, hc⟩ := print_cons F n
 have hprint : stringify F (.num n) = F.print n := rfl
 obtain ⟨htake, hdrop⟩ := read_number F n hrest
 rw [hprint, hs] at hfuel ⊢
 rw [hs] at htake hdrop
 cases fuel with
 | zero => simp at hfuel
 | succ fuel =>
  have hread : F.read (c :: s) = some n := by rw [← hs, F.read_print]
  obtain ⟨_, _, hq, ha, ho, hn, ht, hf⟩ := numberChar_ne hc
  simp only [List.cons_append] at htake hdrop ⊢
  simp only [readValue, skip_cons (numberChar_space hc), if_neg hq, if_neg ha, if_neg ho,
   if_neg hn, if_neg ht, if_neg hf, htake, hdrop, hread, Option.map_some]

theorem reads_arr {items : List (Json ν)} (hitems : ∀ v ∈ items, Reads F v) :
  Reads F (.arr items) := by
 intro fuel rest hfuel hrest
 rw [stringify_arr] at hfuel ⊢
 simp only [List.length_cons] at hfuel
 obtain ⟨fuel, rfl⟩ : ∃ n, fuel = n + 1 := ⟨fuel - 1, by omega⟩
 rw [List.cons_append, readValue]
 simp only [skip_cons (show isJsonSpace '[' = false by decide)]
 rw [if_neg (by decide), if_pos trivial]
 cases hi : items with
 | nil => rfl
 | cons v vs =>
  have hne : items ≠ [] := by simp [hi]
  rw [← hi]
  have hread := readItems_closed hitems hne fuel rest (by omega)
  have hmap : items.map (stringify F) ≠ [] := by simpa using hne
  obtain ⟨t, ht, tail, heq⟩ := closed_head ']' hmap rest
  obtain ⟨u, _, rfl⟩ := List.mem_map.mp ht
  obtain ⟨c, s, hs, hspace, hclose, _⟩ := stringify_head F u
  rw [hs, List.cons_append] at heq
  rw [heq] at hread ⊢
  rw [skip_cons hspace]
  split
  · rename_i h
    exact absurd (List.cons.inj h).1 hclose
  · rw [hread]
    rfl

theorem reads_obj {members : List (Text × Json ν)} (hmembers : ∀ m ∈ members, Reads F m.2) :
  Reads F (.obj members) := by
 intro fuel rest hfuel hrest
 rw [stringify_obj] at hfuel ⊢
 simp only [List.length_cons] at hfuel
 obtain ⟨fuel, rfl⟩ : ∃ n, fuel = n + 1 := ⟨fuel - 1, by omega⟩
 rw [List.cons_append, readValue]
 simp only [skip_cons (show isJsonSpace '{' = false by decide)]
 rw [if_neg (by decide), if_neg (by decide), if_pos trivial]
 cases hi : members with
 | nil => rfl
 | cons m ms =>
  have hne : members ≠ [] := by simp [hi]
  rw [← hi]
  have hread := readMembers_closed hmembers hne fuel rest (by omega)
  have hmap : members.map (memberText F) ≠ [] := by simpa using hne
  obtain ⟨t, ht, tail, heq⟩ := closed_head '}' hmap rest
  obtain ⟨u, _, rfl⟩ := List.mem_map.mp ht
  rw [memberText_cons] at heq
  rw [heq] at hread ⊢
  rw [skip_cons (by decide)]
  split
  · rename_i h
    exact absurd (List.cons.inj h).1 (by decide)
  · rw [hread]
    rfl

theorem reads (v : Json ν) : Reads F v := by
 induction v using Json.induction with
 | null =>
  intro fuel rest hfuel _
  cases fuel with
  | zero => simp [stringify, fold, stringifyAlgebra] at hfuel
  | succ fuel => rfl
 | bool b =>
  intro fuel rest hfuel _
  cases fuel with
  | zero => cases b <;> simp [stringify, fold, stringifyAlgebra] at hfuel
  | succ fuel => cases b <;> rfl
 | num n => exact reads_num n
 | str s =>
  intro fuel rest hfuel _
  cases fuel with
  | zero => simp [stringify, fold, stringifyAlgebra, quote] at hfuel
  | succ fuel =>
   have htext : stringify F (.str s) ++ rest = '"' :: (escape s ++ '"' :: rest) := by
    simp [stringify, fold, stringifyAlgebra, quote]
   rw [htext, readValue]
   simp only [skip_cons (show isJsonSpace '"' = false by decide), readString_escape, if_pos,
    Option.map_some]
 | arr items ih => exact reads_arr ih
 | obj members ih => exact reads_obj ih

theorem readText_stringify (v : Json ν) : readText F (stringify F v) = some v := by
 have hread := reads (F := F) v ((stringify F v).length + 1) [] (by omega) (by intro c s h; cases h)
 rw [List.append_nil] at hread
 simp [readText, hread, skip]

theorem stringify_injective {v w : Json ν} (h : stringify F v = stringify F w) : v = w := by
 have hv := readText_stringify (F := F) v
 rw [h, readText_stringify] at hv
 exact (Option.some.inj hv).symm

end RoundTrip

end BoardGamesEmpire.JsonText
