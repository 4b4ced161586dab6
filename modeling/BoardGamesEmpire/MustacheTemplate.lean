import BoardGamesEmpire.JsonObject

set_option autoImplicit false

/-!
# Logic-less templates over JSON

What the rest relies on of a Mustache implementation: which text a parsed
interpolation stands for, and what rendering puts in its place. Rendering the
serialized text of a JSON value then comes to filling in its strings.
-/
namespace BoardGamesEmpire.MustacheTemplate
open JsText JsonText

/-- A token of a parsed template. `other` is a partial, a comment or a change
    of delimiters, by its type. -/
inductive Token where
  | text (value : Text)
  | name (path : Text)
  | unescaped (path : Text)
  | sect (path : Text) (body : List Token)
  | inverse (path : Text) (body : List Token)
  | other (type : Text) (value : Text)

def Token.plain : Token → Bool
  | .text _ | .name _ | .unescaped _ => true
  | .sect _ _ | .inverse _ _ | .other _ _ => false

def opening : Text := ['{', '{']

def Blank (s : Text) : Prop := ∀ c ∈ s, whitespace c = true

/-- The spellings of an interpolation; `escaped` tells the double braces from
    the triple ones and the ampersand. -/
inductive TagText (path : Text) : Bool → Text → Prop where
  | double (before after : Text) (hbefore : Blank before) (hafter : Blank after) :
      TagText path true (opening ++ (before ++ (path ++ (after ++ ['}', '}']))))
  | ampersand (before between after : Text) (hbefore : Blank before) (hbetween : Blank between)
      (hafter : Blank after) :
      TagText path false (opening ++ (before ++ '&' :: between ++ (path ++ (after ++ ['}', '}']))))
  | triple (before between after : Text) (hbefore : Blank before) (hbetween : Blank between)
      (hafter : Blank after) :
      TagText path false
        (opening ++ (before ++ '{' :: between ++ (path ++ (after ++ ['}', '}', '}']))))

/-- No tag opens inside `s`, with `rest` after it. -/
def NoTag (s rest : Text) : Prop := ∀ a b : Text, s = a ++ b → b ≠ [] → ¬ opening <+: b ++ rest

/-- The tokens, in order, make up the template, and every pair of braces that
    opens outside a tag opens one. -/
inductive Tiles : List Token → Text → Prop where
  | nil : Tiles [] []
  | text (s : Text) (tokens : List Token) (rest : Text) (hs : NoTag s rest) (h : Tiles tokens rest) :
      Tiles (.text s :: tokens) (s ++ rest)
  | name (path tag : Text) (tokens : List Token) (rest : Text) (htag : TagText path true tag)
      (h : Tiles tokens rest) : Tiles (.name path :: tokens) (tag ++ rest)
  | unescaped (path tag : Text) (tokens : List Token) (rest : Text) (htag : TagText path false tag)
      (h : Tiles tokens rest) : Tiles (.unescaped path :: tokens) (tag ++ rest)

def segments : Text → List Text
  | [] => [[]]
  | c :: s =>
    if c = '.' then [] :: segments s
    else
      match segments s with
      | [] => [[c]]
      | first :: rest => (c :: first) :: rest

section Context

variable {ν : Type}

def member? (members : List (Text × Json ν)) (key : Text) : Option (Json ν) :=
  (members.find? fun m => m.1 = key).map Prod.snd

def valueAt : Json ν → List Text → Option (Json ν)
  | v, [] => some v
  | .obj members, segment :: path =>
    match member? members segment with
    | some v => valueAt v path
    | none => none
  | _, _ :: _ => none

def lookup (context : Json ν) (path : Text) : Option Text :=
  match valueAt context (segments path) with
  | some (.str s) => some s
  | _ => none

def Token.rendered? (escapeHtml : Char → Text) (context : Json ν) : Token → Option Text
  | .text s => some s
  | .name path => (lookup context path).map (·.flatMap escapeHtml)
  | .unescaped path => lookup context path
  | .sect _ _ | .inverse _ _ | .other _ _ => none

end Context

def entity (c : Char) : Bool :=
  c == '&' || c == '<' || c == '>' || c == '"' || c == Char.ofNat 39 || c == '/' ||
    c == Char.ofNat 96 || c == '='

structure Mustache (ν : Type) where
  parse : Text → Except Text (List Token)
  render : Text → Json ν → Text
  escapeHtml : Char → Text
  escapeHtml_plain : ∀ c, entity c = false → escapeHtml c = [c]
  parse_tiles : ∀ template tokens, parse template = .ok tokens →
    (∀ token ∈ tokens, token.plain = true) → Tiles tokens template
  render_tokens : ∀ template context tokens texts, parse template = .ok tokens →
    tokens.mapM (Token.rendered? escapeHtml context) = some texts →
      render template context = texts.flatten

inductive Renders (value : Text → Option Text) : Text → Text → Prop where
  | nil : Renders value [] []
  | char (c : Char) (t out : Text) (hc : ¬ opening <+: c :: t) (h : Renders value t out) :
      Renders value (c :: t) (c :: out)
  | tag (path s tag : Text) (escaped : Bool) (t out : Text) (htag : TagText path escaped tag)
      (hvalue : value path = some s) (h : Renders value t out) : Renders value (tag ++ t) (s ++ out)

section Tags

variable {value : Text → Option Text}

theorem TagText.opens {path tag : Text} {escaped : Bool} (h : TagText path escaped tag) (t : Text) :
  opening <+: tag ++ t := by
 cases h <;> simp [opening]

theorem renders_noTag {s rest out : Text} (hs : NoTag s rest) (h : Renders value rest out) :
  Renders value (s ++ rest) (s ++ out) := by
 induction s with
 | nil => exact h
 | cons c s ih =>
  have hc : ¬ opening <+: c :: (s ++ rest) := hs [] (c :: s) rfl (by simp)
  have htail : NoTag s rest := fun a b hab hb => hs (c :: a) b (by simp [hab]) hb
  exact .char c _ _ hc (ih htail)

theorem Tiles.renders {ν : Type} {M : Mustache ν} {context : Json ν} {tokens : List Token}
  {template : Text} {texts : List Text} (htiles : Tiles tokens template)
  (htexts : tokens.mapM (Token.rendered? M.escapeHtml context) = some texts)
  (hvalue : ∀ path s, (.name path ∈ tokens ∨ .unescaped path ∈ tokens) →
   lookup context path = some s → value path = some s ∧ s.flatMap M.escapeHtml = s) :
  Renders value template texts.flatten := by
 induction htiles generalizing texts with
 | nil =>
  cases htexts
  exact .nil
 | text s tokens rest hs htiles ih =>
  rw [List.mapM_cons] at htexts
  obtain ⟨first, hfirst, htexts⟩ := Option.bind_eq_some_iff.1 htexts
  obtain ⟨others, hothers, htexts⟩ := Option.bind_eq_some_iff.1 htexts
  cases hfirst
  cases htexts
  have hrest := ih hothers fun path s h => hvalue path s
   (h.imp (List.mem_cons_of_mem _) (List.mem_cons_of_mem _))
  exact renders_noTag hs hrest
 | name path tag tokens rest htag htiles ih =>
  rw [List.mapM_cons] at htexts
  obtain ⟨first, hfirst, htexts⟩ := Option.bind_eq_some_iff.1 htexts
  obtain ⟨others, hothers, htexts⟩ := Option.bind_eq_some_iff.1 htexts
  cases htexts
  have hrest := ih hothers fun path s h => hvalue path s
   (h.imp (List.mem_cons_of_mem _) (List.mem_cons_of_mem _))
  obtain ⟨s, hs, rfl⟩ := Option.map_eq_some_iff.1 hfirst
  obtain ⟨hknown, hplain⟩ := hvalue path s (.inl List.mem_cons_self) hs
  rw [List.flatten_cons, hplain]
  exact .tag path s tag _ _ _ htag hknown hrest
 | unescaped path tag tokens rest htag htiles ih =>
  rw [List.mapM_cons] at htexts
  obtain ⟨first, hfirst, htexts⟩ := Option.bind_eq_some_iff.1 htexts
  obtain ⟨others, hothers, htexts⟩ := Option.bind_eq_some_iff.1 htexts
  cases htexts
  have hrest := ih hothers fun path s h => hvalue path s
   (h.imp (List.mem_cons_of_mem _) (List.mem_cons_of_mem _))
  obtain ⟨hknown, -⟩ := hvalue path first (.inr List.mem_cons_self) hfirst
  exact .tag path first tag _ _ _ htag hknown hrest

theorem Renders.char_inv {c : Char} {t out : Text} (h : Renders value (c :: t) out)
  (hc : ¬ opening <+: c :: t) : ∃ rest, out = c :: rest ∧ Renders value t rest := by
 generalize hs : c :: t = s at h
 cases h with
 | nil => cases hs
 | char d t' out' _ hrest =>
  cases hs
  exact ⟨out', rfl, hrest⟩
 | tag path v tag escaped t' out' htag _ _ =>
  rw [hs] at hc
  exact absurd (htag.opens t') hc

theorem Renders.skip {a t out : Text} (h : Renders value (a ++ t) out) (ha : ∀ c ∈ a, c ≠ '{') :
  ∃ rest, out = a ++ rest ∧ Renders value t rest := by
 induction a generalizing out with
 | nil => exact ⟨out, rfl, h⟩
 | cons c a ih =>
  have hne : c ≠ '{' := ha c List.mem_cons_self
  obtain ⟨rest, rfl, hrest⟩ := h.char_inv (by simp [opening, Ne.symm hne])
  obtain ⟨rest', rfl, hrest'⟩ := ih hrest fun d hd => ha d (List.mem_cons_of_mem _ hd)
  exact ⟨rest', rfl, hrest'⟩

end Tags

end BoardGamesEmpire.MustacheTemplate
