import BoardGamesEmpire.JsonText
import BoardGamesEmpire.SeparatedText

set_option autoImplicit false

/-!
# The hash of a gateway's connection settings

Two gateways have the same hash only if they are connected alike: the parts of
the hash can be told apart, although a URL or a parameter may hold its divider.
-/
namespace BoardGamesEmpire.GatewayDriver
open JsText JsonText
open SeparatedText (append_sep_inj)

section Settings

inductive AuthType where
  | mutualTls
  | bearer
  | none
deriving DecidableEq

def AuthType.text : AuthType → Text
  | .mutualTls => "MutualTls".toList
  | .bearer => "Bearer".toList
  | .none => "None".toList

variable {ν : Type}

structure GatewayConnectionOptions (ν : Type) where
  gatewayId : ℕ
  connectionUrl : Text
  connectionPort : ℕ
  authType : AuthType
  authParameters : Option (Json ν)

/-- `authParameters ?? \x7b\x7d`. -/
def parametersOr : Option (Json ν) → Json ν
  | none | some .null => .obj []
  | some parameters => parameters

/-- What a connection depends on: no parameters are the same as empty ones. -/
structure ConnectionSettings (ν : Type) where
  connectionUrl : Text
  connectionPort : ℕ
  authType : AuthType
  authParameters : Json ν

def GatewayConnectionOptions.settings (options : GatewayConnectionOptions ν) : ConnectionSettings ν :=
  ⟨options.connectionUrl, options.connectionPort, options.authType, parametersOr options.authParameters⟩

variable (F : NumberFormat ν)

def ConnectionSettings.hash (settings : ConnectionSettings ν) : Text :=
  settings.connectionUrl ++ '|' :: (toText 10 settings.connectionPort ++ '|' ::
    (settings.authType.text ++ '|' :: stringify F settings.authParameters))

def hashGatewayConfig (options : GatewayConnectionOptions ν) : Text := options.settings.hash F

end Settings

section Scan

/-- Where a reader of a JSON text stands: outside strings, in one, or after a
    backslash in one. -/
inductive Place where
  | out
  | inside
  | escaped
deriving DecidableEq

def Place.next : Place → Char → Option Place
  | .out, c => if c = '"' then some .inside else if c = '\\' ∨ c = '|' then none else some .out
  | .inside, c => if c = '"' then some .out else if c = '\\' then some .escaped else some .inside
  | .escaped, _ => some .inside

def scan : Place → Text → Option Place
  | place, [] => some place
  | place, c :: s => (place.next c).bind fun place' => scan place' s

theorem scan_append (place : Place) (s t : Text) :
  scan place (s ++ t) = (scan place s).bind fun place' => scan place' t := by
 induction s generalizing place with
 | nil => rfl
 | cons c s ih =>
  rw [List.cons_append, scan, scan, Option.bind_assoc]
  congr 1
  funext place'
  exact ih place'

theorem scan_out_plain {s : Text} (h : ∀ c ∈ s, c ≠ '"' ∧ c ≠ '\\' ∧ c ≠ '|') :
  scan .out s = some .out := by
 induction s with
 | nil => rfl
 | cons c s ih =>
  obtain ⟨hquote, hback, hbar⟩ := h c List.mem_cons_self
  rw [scan, Place.next, if_neg hquote, if_neg (by simp [hback, hbar]), Option.bind_some]
  exact ih fun c' hc' => h c' (List.mem_cons_of_mem _ hc')

theorem scan_inside_escapeChar (c : Char) : scan .inside (escapeChar c) = some .inside := by
 rcases escapeChar_cases c with ⟨hc, hquote, hback, -⟩ | ⟨e, hc, -, -⟩ | ⟨hlt, hc⟩
 · rw [hc, scan, Place.next, if_neg hquote, if_neg hback]
   rfl
 · rw [hc]
   rfl
 · have hhex : ∀ n < 32, scan .inside ('\\' :: 'u' :: '0' :: '0' :: hex n) = some .inside := by decide
   rw [hc, hhex _ hlt]

theorem scan_inside_escape (s : Text) : scan .inside (escape s) = some .inside := by
 induction s with
 | nil => rfl
 | cons c s ih =>
  have hescape : escape (c :: s) = escapeChar c ++ escape s := rfl
  rw [hescape, scan_append, scan_inside_escapeChar, Option.bind_some, ih]

theorem scan_quote (s : Text) : scan .out (quote s) = some .out := by
 have hopen : scan .out (quote s) = scan .inside (escape s ++ ['"']) := rfl
 rw [hopen, scan_append, scan_inside_escape]
 rfl

theorem scan_closed {close : Char} (hclose : close = ']' ∨ close = '}') {texts : List Text}
  (h : ∀ t ∈ texts, scan .out t = some .out) : scan .out (closed close texts) = some .out := by
 have hlast : scan .out [close] = some .out := by rcases hclose with rfl | rfl <;> rfl
 induction texts with
 | nil => exact hlast
 | cons t ts ih =>
  have ht := h t List.mem_cons_self
  cases ts with
  | nil => rw [closed, scan_append, ht, Option.bind_some, hlast]
  | cons u us =>
   have hcomma : ∀ s, scan .out (',' :: s) = scan .out s := fun _ => rfl
   rw [closed_cons_cons, scan_append, ht, Option.bind_some, hcomma]
   exact ih fun t' ht' => h t' (List.mem_cons_of_mem _ ht')

variable {ν : Type} (F : NumberFormat ν)

theorem scan_stringify (v : Json ν) : scan .out (stringify F v) = some .out := by
 induction v using Json.induction with
 | null => rfl
 | bool b => cases b <;> rfl
 | num n =>
  refine scan_out_plain fun c hc => ?_
  have hnumber := F.print_chars n c hc
  refine ⟨?_, ?_, ?_⟩ <;> rintro rfl <;> exact absurd hnumber (by decide)
 | str s => exact scan_quote s
 | arr items ih =>
  rw [stringify_arr]
  refine scan_closed (.inl rfl) fun t ht => ?_
  obtain ⟨v, hv, rfl⟩ := List.mem_map.1 ht
  exact ih v hv
 | obj members ih =>
  rw [stringify_obj]
  refine scan_closed (.inr rfl) fun t ht => ?_
  obtain ⟨m, hm, rfl⟩ := List.mem_map.1 ht
  have hcolon : ∀ s, scan .out (':' :: s) = scan .out s := fun _ => rfl
  rw [memberText, scan_append, scan_quote, Option.bind_some, hcolon]
  exact ih m hm

theorem scan_apart (s : Text) : ∀ {here there here' there' : Place},
  (here = .out ∧ there = .inside ∨ here = .inside ∧ there = .out) → scan here s = some here' →
   scan there s = some there' →
   here' ≠ .out ∨ there' ≠ .out := by
 induction s with
 | nil =>
  rintro here there here' there' hapart hhere hthere
  obtain rfl := Option.some.inj hhere
  obtain rfl := Option.some.inj hthere
  rcases hapart with ⟨-, rfl⟩ | ⟨rfl, -⟩
  · exact .inr (by decide)
  · exact .inl (by decide)
 | cons c s ih =>
  rintro here there here' there' hapart hhere hthere
  obtain ⟨next, hnext, hrest⟩ := Option.bind_eq_some_iff.1 hhere
  obtain ⟨next', hnext', hrest'⟩ := Option.bind_eq_some_iff.1 hthere
  refine ih ?_ hrest hrest'
  rcases hapart with ⟨rfl, rfl⟩ | ⟨rfl, rfl⟩ <;> simp only [Place.next] at hnext hnext' <;>
   split_ifs at hnext hnext' <;>
   simp_all

end Scan

section Injective

variable {ν : Type} (F : NumberFormat ν)

theorem bar_notMem_toText (n : ℕ) : '|' ∉ toText 10 n := by
 intro hmem
 obtain ⟨d, hd, hbar⟩ := toText_chars (by decide : 1 < 10) (by decide) n '|' hmem
 have hnone : ∀ d < 16, '|' ≠ Nat.digitChar d := by decide
 exact hnone d hd hbar

theorem bar_stringify {x : Text} {v w : Json ν} (h : stringify F v = x ++ '|' :: stringify F w) :
  False := by
 have hscan := scan_stringify F v
 rw [h, scan_append] at hscan
 obtain ⟨place, hplace, hrest⟩ := Option.bind_eq_some_iff.1 hscan
 obtain ⟨place', hbar, hread⟩ := Option.bind_eq_some_iff.1 hrest
 have hinside : place' = .inside := by
  cases place with
  | out => cases hbar
  | inside => exact (Option.some.inj hbar).symm
  | escaped => exact (Option.some.inj hbar).symm
 subst hinside
 rcases scan_apart (stringify F w) (.inl ⟨rfl, rfl⟩) (scan_stringify F w) hread with hne | hne
 · exact hne rfl
 · exact hne rfl

theorem append_stringify_inj {s s' : Text} {v w : Json ν}
  (h : s ++ '|' :: stringify F v = s' ++ '|' :: stringify F w) :
  s = s' ∧ v = w := by
 rcases List.append_eq_append_iff.1 h with ⟨x, hs, hx⟩ | ⟨x, hs, hx⟩
 · cases x with
   | nil => exact ⟨by simpa using hs.symm, stringify_injective (List.cons.inj hx).2⟩
   | cons c x => exact (bar_stringify F (List.cons.inj hx).2).elim
 · cases x with
   | nil => exact ⟨by simpa using hs, (stringify_injective (List.cons.inj hx).2).symm⟩
   | cons c x => exact (bar_stringify F (List.cons.inj hx).2).elim

theorem hash_injective {settings settings' : ConnectionSettings ν}
  (h : settings.hash F = settings'.hash F) :
  settings = settings' := by
 obtain ⟨url, port, auth, parameters⟩ := settings
 obtain ⟨url', port', auth', parameters'⟩ := settings'
 have hbar : ∀ a : AuthType, '|' ∉ a.text := by intro a; cases a <;> decide
 have hnames : ∀ a b : AuthType, a.text = b.text → a = b := by intro a b; cases a <;> cases b <;> decide
 simp only [ConnectionSettings.hash, ← List.cons_append, ← List.append_assoc] at h
 obtain ⟨hfront, rfl⟩ := append_stringify_inj F h
 obtain ⟨haddress, hauth⟩ := append_sep_inj (hbar auth) (hbar auth') hfront
 obtain ⟨rfl, hport⟩ := append_sep_inj (bar_notMem_toText port) (bar_notMem_toText port') haddress
 rw [hnames _ _ hauth, toText_injective hport]

end Injective

end BoardGamesEmpire.GatewayDriver
