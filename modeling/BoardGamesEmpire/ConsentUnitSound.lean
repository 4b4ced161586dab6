import BoardGamesEmpire.ConsentUnitBinding

set_option autoImplicit false

/-!
# Soundness of the consent binding

A permission that binds a unit's consent confers, once its conditions are
rendered for the unit, authority over rows tied to that unit alone.
-/
namespace BoardGamesEmpire.ConsentUnitBinding
open JsText JsonText MustacheTemplate Catalog

/-- A row tied to a unit: by a column of its own that holds the unit's id, or by
    one of a row it is related to. -/
inductive BoundTo {ν Row : Type} (rows : Rows ν Row) (columnsOf : Text → Option ModelColumns)
    (unitModel : UnitModel) (id : Text) : Text → Row → Prop where
  | column (model : Text) (columns : ModelColumns) (key : Text) (row : Row)
      (hcolumns : columnsOf model = some columns) (hkey : key ∈ columns.ids unitModel)
      (hvalue : rows.column row key = .str id) : BoundTo rows columnsOf unitModel id model row
  | related (model : Text) (columns : ModelColumns) (key relatedModel : Text) (row other : Row)
      (hcolumns : columnsOf model = some columns) (hrelation : columns.relations key = some relatedModel)
      (hrelated : rows.related row key other)
       (h : BoundTo rows columnsOf unitModel id relatedModel other) :
      BoundTo rows columnsOf unitModel id model row

section Clauses

variable {ν Row : Type} {rows : Rows ν Row}

theorem satisfiesMembers_iff {members : List (Text × Json ν)} {row : Row} :
  SatisfiesMembers rows members row ↔ ∀ m ∈ members, SatisfiesMember rows m row := by
 induction members with
 | nil => simp [SatisfiesMembers]
 | cons m members ih => simp [SatisfiesMembers, ih]

theorem satisfiesEach_iff {items : List (Json ν)} {row : Row} :
  SatisfiesEach rows items row ↔ ∀ v ∈ items, Satisfies rows v row := by
 induction items with
 | nil => simp [SatisfiesEach]
 | cons v items ih => simp [SatisfiesEach, ih]

theorem satisfiesOperators_iff {members : List (Text × Json ν)} {key : Text} {row : Row} :
  SatisfiesOperators rows members key row ↔ ∀ m ∈ members, SatisfiesOperator rows m key row := by
 induction members with
 | nil => simp [SatisfiesOperators]
 | cons m members ih => simp [SatisfiesOperators, ih]

theorem satisfiesField_operator {members : List (Text × Json ν)} {key : Text} {row : Row}
  (h : SatisfiesField rows (.obj members) key row) {m : Text × Json ν} (hm : m ∈ members)
  (hne : m.1 ≠ "equals".toList) : SatisfiesOperator rows m key row := by
 cases members with
 | nil => cases hm
 | cons first members =>
  cases members with
  | nil =>
   obtain rfl := List.mem_singleton.1 hm
   rw [SatisfiesField, if_neg hne] at h
   exact h.1
  | cons second members =>
   rw [SatisfiesField] at h
   · exact satisfiesOperators_iff.1 h.1 m hm
   · simp

end Clauses

section Restriction

variable {ν : Type} {M : Mustache ν} {columnsOf : Text → Option ModelColumns} {unitId : UnitId}

theorem restrictsSome_mem {members : List (Text × Json ν)} {model : Text} {columns : ModelColumns}
  (h : restrictsSome M columnsOf unitId members model columns = true) :
  ∃ m ∈ members, restrictsMember M columnsOf unitId m model columns = true := by
 induction members with
 | nil => simp [restrictsSome] at h
 | cons m members ih =>
  rw [restrictsSome, Bool.or_eq_true] at h
  rcases h with h | h
  · exact ⟨m, List.mem_cons_self, h⟩
  · obtain ⟨m', hm', h'⟩ := ih h
    exact ⟨m', List.mem_cons_of_mem _ hm', h'⟩

theorem restrictsItems_mem {items : List (Json ν)} {model : Text}
  (h : restrictsItems M columnsOf unitId items model = true) :
  ∃ v ∈ items, restrictsToUnit M columnsOf unitId v model = true := by
 induction items with
 | nil => simp [restrictsItems] at h
 | cons v items ih =>
  rw [restrictsItems, Bool.or_eq_true] at h
  rcases h with h | h
  · exact ⟨v, List.mem_cons_self, h⟩
  · obtain ⟨v', hv', h'⟩ := ih h
    exact ⟨v', List.mem_cons_of_mem _ hv', h'⟩

theorem restrictsOperand_mem {members : List (Text × Json ν)} {related : Text}
  (h : restrictsOperand M columnsOf unitId members related = true) :
  ∃ m ∈ members, (m.1 = "is".toList ∨ m.1 = "some".toList) ∧
   restrictsToUnit M columnsOf unitId m.2 related = true := by
 induction members with
 | nil => simp [restrictsOperand] at h
 | cons m members ih =>
  rw [restrictsOperand, Bool.or_eq_true] at h
  rcases h with h | h
  · obtain ⟨key, v⟩ := m
    rw [restrictsOperator, Bool.and_eq_true, Bool.or_eq_true, beq_iff_eq, beq_iff_eq] at h
    exact ⟨(key, v), List.mem_cons_self, h⟩
  · obtain ⟨m', hm', h'⟩ := ih h
    exact ⟨m', List.mem_cons_of_mem _ hm', h'⟩

theorem tagText_of_isUnitIdTag {value : Json ν} {path : Text} (h : isUnitIdTag M value path = true) :
  ∃ s escaped, value = .str s ∧ TagText path escaped s := by
 unfold isUnitIdTag at h
 split at h
 · next s =>
   split at h
   · next named hparse =>
     obtain rfl := beq_iff_eq.1 h
     have htiles := M.parse_tiles s _ hparse (by simp [Token.plain])
     cases htiles with
     | name _ tag _ rest htag hrest =>
      cases hrest
      rw [List.append_nil]
      exact ⟨tag, true, rfl, htag⟩
   · next named hparse =>
     obtain rfl := beq_iff_eq.1 h
     have htiles := M.parse_tiles s _ hparse (by simp [Token.plain])
     cases htiles with
     | unescaped _ tag _ rest htag hrest =>
      cases hrest
      rw [List.append_nil]
      exact ⟨tag, false, rfl, htag⟩
   · cases h
 · cases h

variable {value : Text → Option Text} {id : Text}

theorem filled_unitIdTag (hvalues : PlainValues value) (hid : value unitId.path = some id)
  {v v' : Json ν} (htag : isUnitIdTag M v unitId.path = true) (h : Filled value v v') :
  v' = .str id := by
 obtain ⟨s, escaped, rfl, htext⟩ := tagText_of_isUnitIdTag htag
 cases h with
 | str _ s' hs => rw [hs.sole hvalues htext hid]

theorem column_of_isIdEquality {Row : Type} {rows : Rows ν Row} (hvalues : PlainValues value)
  (hid : value unitId.path = some id) {v v' : Json ν}
  (hequality : isIdEquality M v unitId.path = true) (h : Filled value v v') {key : Text} {row : Row}
  (hrow : SatisfiesField rows v' key row) :
  rows.column row key = .str id := by
 unfold isIdEquality at hequality
 rw [Bool.or_eq_true] at hequality
 rcases hequality with htag | hequals
 · rw [filled_unitIdTag hvalues hid htag h, SatisfiesField] at hrow
   exact hrow
 · split at hequals
   · next operator operand =>
     rw [Bool.and_eq_true, beq_iff_eq] at hequals
     obtain ⟨rfl, htag⟩ := hequals
     cases h with
     | obj _ members' hkeys hmembers =>
      have hfilled := (Filled.obj [("equals".toList, operand)] members' hkeys hmembers).members
      cases hfilled with
      | @cons _ m' _ rest hm hrest =>
       cases hrest
       obtain ⟨operator', operand'⟩ := m'
       obtain ⟨rfl, hoperand⟩ := hm
       rw [SatisfiesField, if_pos rfl] at hrow
       rw [hrow]
       exact filled_unitIdTag hvalues hid htag hoperand
   · cases hequals

variable (M columnsOf unitId value id) in
def Sound (v : Json ν) : Prop :=
  ∀ (Row : Type) (rows : Rows ν Row) (v' : Json ν) (model : Text) (row : Row),
    restrictsToUnit M columnsOf unitId v model = true → Filled value v v' → Satisfies rows v' row →
      BoundTo rows columnsOf unitId.model id model row

theorem sound_and {v v' : Json ν} {Row : Type} {rows : Rows ν Row} {row : Row} {model : Text}
  (hself : Sound M columnsOf unitId value id v)
  (hitems : ∀ items, v = .arr items → ∀ w ∈ items, Sound M columnsOf unitId value id w)
  (h : restrictsAnd M columnsOf unitId v model = true) (hfilled : Filled value v v')
  (hrow : SatisfiesAll rows v' row) : BoundTo rows columnsOf unitId.model id model row := by
 cases v with
 | arr items =>
  rw [restrictsAnd] at h
  obtain ⟨w, hw, hrestricts⟩ := restrictsItems_mem h
  cases hfilled with
  | arr _ items' hmembers =>
   obtain ⟨w', hw', hwfilled⟩ := exists_left_of_forall₂ hmembers hw
   rw [SatisfiesAll, satisfiesEach_iff] at hrow
   exact hitems items rfl w hw Row rows w' model row hrestricts hwfilled (hrow w' hw')
 | obj members =>
  have hrestricts : restrictsToUnit M columnsOf unitId (.obj members) model = true := h
  cases hfilled with
  | obj _ members' hkeys hmembers =>
   exact hself Row rows (.obj members') model row hrestricts (.obj _ _ hkeys hmembers) hrow
 | null | bool _ | num _ | str _ => simp [restrictsAnd] at h

theorem sound_related {v v' : Json ν} {Row : Type} {rows : Rows ν Row} {row : Row}
  {key relatedModel : Text}
  (hmembers : ∀ members, v = .obj members → ∀ m ∈ members, Sound M columnsOf unitId value id m.2)
  (h : restrictsRelated M columnsOf unitId v relatedModel = true) (hfilled : Filled value v v')
  (hrow : SatisfiesField rows v' key row) :
  ∃ other, rows.related row key other ∧ BoundTo rows columnsOf unitId.model id relatedModel other := by
 cases v with
 | obj members =>
  rw [restrictsRelated] at h
  obtain ⟨m, hm, hoperator, hrestricts⟩ := restrictsOperand_mem h
  cases hfilled with
  | obj _ members' hkeys hvalues =>
   obtain ⟨m', hm', hkey, hmfilled⟩ :=
    exists_left_of_forall₂ (Filled.obj members members' hkeys hvalues).members hm
   rw [hkey] at hoperator
   have hne : m'.1 ≠ "equals".toList := by
    rcases hoperator with h | h <;> rw [h] <;> decide
   have hrelation := satisfiesField_operator hrow hm' hne
   obtain ⟨operator, operand⟩ := m'
   rw [SatisfiesOperator, if_pos hoperator] at hrelation
   have hsound := hmembers members rfl m hm Row rows operand relatedModel
   -- Only an object restricts, and filling keeps it one.
   obtain ⟨_, clause⟩ := m
   cases hmfilled with
   | obj _ clauses' hkeys' hvalues' =>
    rw [SatisfiesRelated] at hrelation
    obtain ⟨other, hother, hsatisfies⟩ := hrelation
    exact ⟨other, hother, hsound other hrestricts (.obj _ _ hkeys' hvalues') hsatisfies⟩
   | null | bool | num | str | arr => simp [restrictsToUnit] at hrestricts
 | null | bool _ | num _ | str _ | arr _ => simp [restrictsRelated] at h

theorem sound_member (hvalues : PlainValues value) (hid : value unitId.path = some id) {key : Text}
  {v v' : Json ν} {Row : Type} {rows : Rows ν Row} {row : Row} {model : Text}
  {columns : ModelColumns} (hself : Sound M columnsOf unitId value id v)
  (hitems : ∀ items, v = .arr items → ∀ w ∈ items, Sound M columnsOf unitId value id w)
  (hmembers : ∀ members, v = .obj members → ∀ m ∈ members, Sound M columnsOf unitId value id m.2)
  (hcolumns : columnsOf model = some columns)
  (h : restrictsMember M columnsOf unitId (key, v) model columns = true)
  (hfilled : Filled value v v') (hrow : SatisfiesMember rows (key, v') row) :
  BoundTo rows columnsOf unitId.model id model row := by
 rw [restrictsMember] at h
 rw [SatisfiesMember] at hrow
 split at h
 · next hand =>
   rw [if_pos hand] at hrow
   exact sound_and hself hitems h hfilled hrow
 · next hand =>
   rw [if_neg hand] at hrow
   split at h
   · cases h
   · next hother =>
     rw [not_or] at hother
     rw [if_neg hother.1, if_neg hother.2] at hrow
     split at h
     · next hequality =>
       exact .column model columns key row hcolumns (List.contains_iff_mem.1 h)
        (column_of_isIdEquality hvalues hid hequality hfilled hrow)
     · split at h
       · next relatedModel hrelation =>
         obtain ⟨other, hother, hbound⟩ := sound_related hmembers h hfilled hrow
         exact .related model columns key relatedModel row other hcolumns hrelation hother hbound
       · cases h

theorem restrictsToUnit_sound (hvalues : PlainValues value) (hid : value unitId.path = some id)
  (v : Json ν) : Sound M columnsOf unitId value id v := by
 have hall : Sound M columnsOf unitId value id v ∧
   (∀ items, v = .arr items → ∀ w ∈ items, Sound M columnsOf unitId value id w) ∧
   ∀ members, v = .obj members → ∀ m ∈ members, Sound M columnsOf unitId value id m.2 := by
  induction v using Json.induction with
  | null | bool b | num n | str s =>
   refine ⟨fun Row rows v' model row h => ?_, fun items h => (by cases h), fun members h => (by cases h)⟩
   simp [restrictsToUnit] at h
  | arr items ih =>
   refine ⟨fun Row rows v' model row h => ?_, fun items' h w hw => ?_, fun members h => (by cases h)⟩
   · simp [restrictsToUnit] at h
   · cases h
     exact (ih w hw).1
  | obj members ih =>
   refine ⟨fun Row rows v' model row h hfilled hrow => ?_, fun items h => (by cases h),
    fun members' h m hm => ?_⟩
   · rw [restrictsToUnit] at h
     split at h
     · next columns hcolumns =>
       obtain ⟨m, hm, hrestricts⟩ := restrictsSome_mem h
       cases hfilled with
       | obj _ members' hkeys hfilledValues =>
        obtain ⟨m', hm', hkey, hmfilled⟩ :=
         exists_left_of_forall₂ (Filled.obj members members' hkeys hfilledValues).members hm
        rw [Satisfies, satisfiesMembers_iff] at hrow
        obtain ⟨key, clause⟩ := m
        obtain ⟨key', clause'⟩ := m'
        obtain rfl : key = key' := hkey
        obtain ⟨hself, hitems, hmembers⟩ := ih _ hm
        exact sound_member hvalues hid hself hitems hmembers hcolumns hrestricts hmfilled
         (hrow _ hm')
     · cases h
   · cases h
     exact (ih m hm).1
 exact hall.1

end Restriction

section Tokens

theorem walk_mem {tokens : List Token} {token : Token} (h : token ∈ tokens) :
  (∀ path ∈ (walkToken token).1, path ∈ (walk tokens).1) ∧
   ∀ problem ∈ (walkToken token).2, problem ∈ (walk tokens).2 := by
 induction tokens with
 | nil => cases h
 | cons first tokens ih =>
  rw [walk]
  rcases List.mem_cons.1 h with rfl | h
  · exact ⟨fun path hpath => List.mem_append_left _ hpath,
     fun problem hproblem => List.mem_append_left _ hproblem⟩
  · exact ⟨fun path hpath => List.mem_append_right _ ((ih h).1 path hpath),
     fun problem hproblem => List.mem_append_right _ ((ih h).2 problem hproblem)⟩

theorem plain_of_walk {tokens : List Token} (hproblems : (walk tokens).2 = [])
  (hsection : ∀ token ∈ tokens, ∀ path body, token ≠ .sect path body ∧ token ≠ .inverse path body) :
  ∀ token ∈ tokens, token.plain = true := by
 intro token htoken
 cases token with
 | text _ | name _ | unescaped _ => rfl
 | sect path body => exact absurd rfl (hsection _ htoken path body).1
 | inverse path body => exact absurd rfl (hsection _ htoken path body).2
 | other tokenType value =>
  have hmem := (walk_mem htoken).2 (.unsupportedTokenType tokenType) (by simp [walkToken])
  rw [hproblems] at hmem
  cases hmem

theorem path_of_token {tokens : List Token} {path : Text}
  (h : .name path ∈ tokens ∨ .unescaped path ∈ tokens) : path ∈ (walk tokens).1 := by
 rcases h with h | h
 · exact (walk_mem h).1 path (by simp [walkToken])
 · exact (walk_mem h).1 path (by simp [walkToken])

variable {ν : Type} {M : Mustache ν} {context : Json ν} {tokens : List Token}

theorem resolves_of_lookup {path s : Text} (hdot : path ≠ ".".toList)
  (h : lookup context path = some s) : resolves context path = !s.isEmpty := by
 unfold lookup at h
 have hvalue : valueAt context (segments path) = some (.str s) := by
  split at h
  · next found hfound =>
    cases h
    exact hfound
  · cases h
 rw [resolves, if_neg hdot, hvalue]

theorem refused_plain (hplain : ∀ token ∈ tokens, token.plain = true)
  (hlookup : ∀ path, (.name path ∈ tokens ∨ .unescaped path ∈ tokens) →
   path ≠ ".".toList ∧ ∃ s, lookup context path = some s) :
  refused context tokens = none ∨
   ∃ path, refused context tokens = some (.outOfContextVariable path) ∧ lookup context path = some [] := by
 induction tokens with
 | nil => exact .inl rfl
 | cons token tokens ih =>
  have hrest := ih (fun t ht => hplain t (List.mem_cons_of_mem _ ht)) fun path h =>
   hlookup path (h.imp (List.mem_cons_of_mem _) (List.mem_cons_of_mem _))
  have hfirst : refusedToken context token = none ∨ ∃ path,
    refusedToken context token = some (.outOfContextVariable path) ∧ lookup context path = some [] := by
   cases token with
   | text s => exact .inl rfl
   | name path | unescaped path =>
    obtain ⟨hdot, s, hs⟩ := hlookup path (by simp)
    rw [refusedToken, resolves_of_lookup hdot hs]
    cases s with
    | nil => exact .inr ⟨path, rfl, hs⟩
    | cons c s => exact .inl rfl
   | sect _ _ | inverse _ _ | other _ _ =>
    exact absurd (hplain _ List.mem_cons_self) (by simp [Token.plain])
  rw [refused]
  rcases hfirst with hnone | ⟨path, hrefused, hempty⟩
  · rw [hnone, Option.none_or]
    exact hrest
  · exact .inr ⟨path, by rw [hrefused, Option.some_or], hempty⟩

theorem rendered_plain (hplain : ∀ token ∈ tokens, token.plain = true)
  (hlookup : ∀ path, (.name path ∈ tokens ∨ .unescaped path ∈ tokens) →
   ∃ s, lookup context path = some s) :
  ∃ texts, tokens.mapM (Token.rendered? M.escapeHtml context) = some texts := by
 induction tokens with
 | nil => exact ⟨[], rfl⟩
 | cons token tokens ih =>
  obtain ⟨texts, htexts⟩ := ih (fun t ht => hplain t (List.mem_cons_of_mem _ ht)) fun path h =>
   hlookup path (h.imp (List.mem_cons_of_mem _) (List.mem_cons_of_mem _))
  have hfirst : ∃ text, token.rendered? M.escapeHtml context = some text := by
   cases token with
   | text s => exact ⟨s, rfl⟩
   | name path =>
    obtain ⟨s, hs⟩ := hlookup path (by simp)
    exact ⟨s.flatMap M.escapeHtml, by simp [Token.rendered?, hs]⟩
   | unescaped path =>
    obtain ⟨s, hs⟩ := hlookup path (by simp)
    exact ⟨s, hs⟩
   | sect _ _ | inverse _ _ | other _ _ =>
    exact absurd (hplain _ List.mem_cons_self) (by simp [Token.plain])
  obtain ⟨text, htext⟩ := hfirst
  exact ⟨text :: texts, by simp [List.mapM_cons, htext, htexts]⟩

end Tokens

section Context

variable {ν : Type} {M : Mustache ν} {plugin : PluginIdentity} {unit : PluginUnit}
  {scope : PluginUnitGrantScope}

variable (M) in
def Unchanged (s : Text) : Prop := ∀ c ∈ s, M.escapeHtml c = [c] ∧ escapeChar c = [c]

theorem scopeText_unchanged (scope : PluginUnitGrantScope) : Unchanged M scope.text := by
 have hplain : scope.text.all (fun c => !entity c && escapeChar c == [c]) = true := by
  cases scope <;> rfl
 intro c hc
 have h := List.all_eq_true.1 hplain c hc
 rw [Bool.and_eq_true, Bool.not_eq_true', beq_iff_eq] at h
 exact ⟨M.escapeHtml_plain c h.1, h.2⟩

theorem variable_chars {path : Text} (h : path ∈ PLUGIN_UNIT_RENDER_VARIABLES scope) :
  path ≠ [] ∧ path ≠ ".".toList ∧ ∀ c ∈ path, nameChar c = true := by
 have hall : ∀ path ∈ PLUGIN_UNIT_RENDER_VARIABLES scope,
   path ≠ [] ∧ path ≠ ".".toList ∧ path.all nameChar = true := by
  cases scope <;> decide
 obtain ⟨hne, hdot, hchars⟩ := hall path h
 exact ⟨hne, hdot, List.all_eq_true.1 hchars⟩

theorem lookup_variable {path : Text} (h : path ∈ PLUGIN_UNIT_RENDER_VARIABLES unit.scopeType) :
  ∃ s, lookup (renderContext plugin unit : Json ν) path = some s ∧
   (s = plugin.id ∨ s = plugin.slug ∨ s = unit.scopeType.text ∨ s = unit.id) := by
 obtain ⟨scope, id⟩ := unit
 cases scope <;>
 · simp only [PLUGIN_UNIT_RENDER_VARIABLES, List.mem_cons, List.not_mem_nil, or_false] at h
   rcases h with rfl | rfl | rfl | rfl
   · exact ⟨plugin.id, rfl, .inl rfl⟩
   · exact ⟨plugin.slug, rfl, .inr (.inl rfl)⟩
   · exact ⟨_, rfl, .inr (.inr (.inl rfl))⟩
   · exact ⟨id, rfl, .inr (.inr (.inr rfl))⟩

theorem lookup_unitId : lookup (renderContext plugin unit : Json ν) (UNIT_ID unit.scopeType).path =
  some unit.id := by
 obtain ⟨scope, id⟩ := unit
 cases scope <;> rfl

theorem unitId_variable : (UNIT_ID scope).path ∈ PLUGIN_UNIT_RENDER_VARIABLES scope := by
 cases scope <;> decide

variable (ν plugin unit) in
def unitValue (path : Text) : Option Text :=
  if (PLUGIN_UNIT_RENDER_VARIABLES unit.scopeType).contains path then
    lookup (renderContext plugin unit : Json ν) path
  else none

theorem unitValue_eq {path : Text} (h : path ∈ PLUGIN_UNIT_RENDER_VARIABLES unit.scopeType) :
  unitValue ν plugin unit path = lookup (renderContext plugin unit : Json ν) path :=
 if_pos (List.contains_iff_mem.2 h)

theorem variable_of_unitValue {path s : Text} (h : unitValue ν plugin unit path = some s) :
  path ∈ PLUGIN_UNIT_RENDER_VARIABLES unit.scopeType := by
 unfold unitValue at h
 split at h
 · next hmem => exact List.contains_iff_mem.1 hmem
 · cases h

theorem lookup_unchanged (hid : Unchanged M unit.id) (hplugin : Unchanged M plugin.id)
  (hslug : Unchanged M plugin.slug) {path s : Text}
  (h : path ∈ PLUGIN_UNIT_RENDER_VARIABLES unit.scopeType)
  (hs : lookup (renderContext plugin unit : Json ν) path = some s) : Unchanged M s := by
 obtain ⟨s', hs', hwhich⟩ := @lookup_variable ν plugin unit path h
 obtain rfl : s' = s := Option.some.inj (hs'.symm.trans hs)
 rcases hwhich with rfl | rfl | rfl | rfl
 · exact hplugin
 · exact hslug
 · exact scopeText_unchanged _
 · exact hid

theorem unitValue_plain (hid : Unchanged M unit.id) (hplugin : Unchanged M plugin.id)
  (hslug : Unchanged M plugin.slug) : PlainValues (unitValue ν plugin unit) where
 path_ne_nil path s h := (variable_chars (variable_of_unitValue h)).1
 path_chars path s h := (variable_chars (variable_of_unitValue h)).2.2
 value_chars path s h := by
  have hmem := variable_of_unitValue h
  rw [unitValue_eq hmem] at h
  exact fun c hc => (lookup_unchanged hid hplugin hslug hmem h c hc).2

theorem unchanged_flatMap {s : Text} (h : Unchanged M s) : s.flatMap M.escapeHtml = s := by
 induction s with
 | nil => rfl
 | cons c s ih =>
  rw [List.flatMap_cons, (h c List.mem_cons_self).1, ih fun d hd => h d (List.mem_cons_of_mem _ hd)]
  rfl

end Context

section Main

variable {ν : Type} {F : NumberFormat ν} {M : Mustache ν} {columnsOf : Text → Option ModelColumns}
  {catalog : List (PermissionSeedDefinition ν)} {permission : PermissionRule ν}

theorem binds_templated {scope : PluginUnitGrantScope}
  (hbinds : bindsConsentUnit F M columnsOf catalog permission scope = true)
  (htemplated : (parseTemplate F M permission.conditions.val).names ≠ []) :
  ∃ tokens, M.parse (stringify F permission.conditions.val) = .ok tokens ∧
   (∀ token ∈ tokens, token.plain = true) ∧
   (∀ path ∈ (walk tokens).1, path ∈ PLUGIN_UNIT_RENDER_VARIABLES scope) ∧
   hasTemplatedKey permission.conditions.val = false ∧
   restrictsToUnit M columnsOf (UNIT_ID scope) permission.conditions.val permission.subject = true := by
 unfold bindsConsentUnit at hbinds
 have hnames : (parseTemplate F M permission.conditions.val).names.isEmpty = false := by
  simpa using htemplated
 simp only [hnames, Bool.false_eq_true, if_false] at hbinds
 split at hbinds
 · cases hbinds
 · next hproblems =>
   simp only [Bool.and_eq_true, Bool.not_eq_true', List.all_eq_true] at hbinds
   obtain ⟨⟨⟨hvariables, hsection⟩, hkeys⟩, hrestricts⟩ := hbinds
   unfold parseTemplate at htemplated hproblems hvariables
   split at htemplated
   · next hbounding =>
     rw [if_pos hbounding] at hproblems hvariables
     unfold hasSection at hsection
     split at htemplated
     · exact absurd rfl htemplated
     · next tokens hparse =>
       rw [hparse] at hproblems hvariables hsection
       have hnone : (walk tokens).2 = [] := by simpa using hproblems
       refine ⟨tokens, hparse, plain_of_walk hnone fun token htoken path body => ?_, fun path hpath => ?_,
        hkeys, hrestricts⟩
       · have h := List.any_eq_false.1 hsection token htoken
         constructor
         · rintro rfl
           exact h rfl
         · rintro rfl
           exact h rfl
       · exact List.contains_iff_mem.1 (hvariables path (List.mem_eraseDups.2 hpath))
   · exact absurd rfl htemplated

theorem hasKeys_of_restricts {unitId : UnitId} {v : Json ν} {model : Text}
  (h : restrictsToUnit M columnsOf unitId v model = true) : hasKeys v = true := by
 cases v with
 | obj members =>
  cases members with
  | nil =>
   rw [restrictsToUnit] at h
   split at h <;> simp [restrictsSome] at h
  | cons m members => rfl
 | null | bool _ | num _ | str _ | arr _ => simp [restrictsToUnit] at h

theorem createForPlugin_singleton (plugin : PluginIdentity) (unit : PluginUnit) :
  createForPlugin F M plugin unit [permission] =
   (renderConditions F M (renderContext plugin unit) permission.conditions.val).map
    fun conditions => [applyRule permission conditions] := by
 unfold createForPlugin
 simp only [List.mapM_cons, List.mapM_nil]
 cases renderConditions F M (renderContext plugin unit) permission.conditions.val <;> rfl

/-- A permission that binds through its template renders, for every unit whose
    coordinates need no escaping, to a clause whose rows are tied to the unit;
    or the factory refuses it, for a coordinate that is empty. -/
theorem bindsConsentUnit_sound (plugin : PluginIdentity) (unit : PluginUnit)
    (hbinds : bindsConsentUnit F M columnsOf catalog permission unit.scopeType = true)
    (htemplated : (parseTemplate F M permission.conditions.val).names ≠ [])
    (hid : Unchanged M unit.id) (hplugin : Unchanged M plugin.id) (hslug : Unchanged M plugin.slug) :
    (∃ path, createForPlugin F M plugin unit [permission] = .error (.outOfContextVariable path) ∧
      lookup (renderContext plugin unit : Json ν) path = some []) ∨
    ∃ rendered, createForPlugin F M plugin unit [permission] =
        .ok [applyRule permission (some rendered)] ∧
      parse F (M.render (stringify F permission.conditions.val) (renderContext plugin unit)) =
        some rendered ∧
      ∀ (Row : Type) (rows : Rows ν Row) (row : Row), Satisfies rows rendered row →
        BoundTo rows columnsOf (UNIT_ID unit.scopeType).model unit.id permission.subject row := by
 obtain ⟨tokens, hparse, hplain, hvariables, hkeys, hrestricts⟩ := binds_templated hbinds htemplated
 have hlookup : ∀ path, (.name path ∈ tokens ∨ .unescaped path ∈ tokens) →
   path ≠ ".".toList ∧ ∃ s, lookup (renderContext plugin unit : Json ν) path = some s := by
  intro path h
  have hmem := hvariables path (path_of_token h)
  obtain ⟨s, hs, -⟩ := @lookup_variable ν plugin unit path hmem
  exact ⟨(variable_chars hmem).2.1, s, hs⟩
 rcases refused_plain hplain hlookup with hrefused | ⟨path, hrefused, hempty⟩
 · right
   obtain ⟨texts, htexts⟩ := @rendered_plain ν M _ _ hplain fun path h => (hlookup path h).2
   have hrenders : Renders (unitValue ν plugin unit) (stringify F permission.conditions.val)
     texts.flatten := by
    refine (M.parse_tiles _ _ hparse hplain).renders htexts fun path s h hs => ?_
    have hmem := hvariables path (path_of_token h)
    exact ⟨(unitValue_eq hmem).trans hs, unchanged_flatMap (lookup_unchanged hid hplugin hslug hmem hs)⟩
   have hvalues := @unitValue_plain ν M plugin unit hid hplugin hslug
   obtain ⟨rendered, hrendered, hfilled⟩ :=
    parse_rendered F hvalues permission.conditions.property hkeys hrenders
   rw [← M.render_tokens _ _ _ _ hparse htexts] at hrendered
   refine ⟨rendered, ?_, hrendered, fun Row rows row hrow => ?_⟩
   · rw [createForPlugin_singleton]
     simp [renderConditions, hasKeys_of_restricts hrestricts, assertTemplateWithinContext, hparse,
      hrefused, hrendered, bind, Except.bind, pure, Except.pure, Except.map]
   · have hvalue : unitValue ν plugin unit (UNIT_ID unit.scopeType).path = some unit.id :=
      (unitValue_eq unitId_variable).trans lookup_unitId
     exact restrictsToUnit_sound hvalues hvalue permission.conditions.val Row rows rendered
      permission.subject row hrestricts hfilled hrow
 · left
   refine ⟨path, ?_, hempty⟩
   rw [createForPlugin_singleton]
   simp [renderConditions, hasKeys_of_restricts hrestricts, assertTemplateWithinContext, hparse,
    hrefused, bind, Except.bind, Except.map]

end Main

section Sample

abbrev sampleNumbers := { s : Text // s ≠ [] ∧ s.all isNumberChar = true }

def htmlEscape (c : Char) : Text :=
  if c = '&' then "&amp;".toList
  else if c = '<' then "&lt;".toList
  else if c = '>' then "&gt;".toList
  else if c = '"' then "&quot;".toList
  else if c = Char.ofNat 39 then "&#39;".toList
  else if c = '/' then "&#x2F;".toList
  else if c = Char.ofNat 96 then "&#x60;".toList
  else if c = '=' then "&#x3D;".toList
  else [c]

theorem htmlEscape_plain (c : Char) (h : entity c = false) : htmlEscape c = [c] := by
 simp only [entity, Bool.or_eq_false_iff, beq_eq_false_iff_ne] at h
 obtain ⟨⟨⟨⟨⟨⟨⟨h1, h2⟩, h3⟩, h4⟩, h5⟩, h6⟩, h7⟩, h8⟩ := h
 simp [htmlEscape, h1, h2, h3, h4, h5, h6, h7, h8]

def sampleTag : Text := opening ++ ([' '] ++ ("unit.householdId".toList ++ ([' '] ++ ['}', '}'])))

def sampleFront : Text := ['{', '"', 'h', 'o', 'u', 's', 'e', 'h', 'o', 'l', 'd', 'I', 'd', '"', ':', '"']

def sampleConditions : Json sampleNumbers := .obj [("householdId".toList, .str sampleTag)]

def sampleParse (template : Text) : Except Text (List Token) :=
  if template = sampleTag then .ok [.name "unit.householdId".toList]
  else if template = sampleFront ++ (sampleTag ++ ['"', '}']) then
    .ok [.text sampleFront, .name "unit.householdId".toList, .text ['"', '}']]
  else .error "Unclosed tag".toList

theorem noTag_of_tails {s rest : Text}
  (h : s.tails.all (fun b => b.isEmpty || !opening.isPrefixOf (b ++ rest)) = true) :
  NoTag s rest := by
 intro a b hs hb hopen
 have hmem : b ∈ s.tails := (List.mem_tails b s).2 ⟨a, hs.symm⟩
 have hat := List.all_eq_true.1 h b hmem
 rw [Bool.or_eq_true, List.isEmpty_iff, Bool.not_eq_true'] at hat
 rcases hat with hnil | hnot
 · exact hb hnil
 · rw [List.isPrefixOf_iff_prefix.2 hopen] at hnot
   cases hnot

theorem sampleTag_text : TagText "unit.householdId".toList true sampleTag :=
 .double [' '] [' '] (by simp [Blank, whitespace]) (by simp [Blank, whitespace])

theorem sampleParse_tiles (template : Text) (tokens : List Token)
  (h : sampleParse template = .ok tokens) : Tiles tokens template := by
 unfold sampleParse at h
 split at h
 · next htemplate =>
   cases h
   have htiles := Tiles.name _ sampleTag [] [] sampleTag_text .nil
   rw [List.append_nil] at htiles
   rw [htemplate]
   exact htiles
 · split at h
   · next htemplate =>
     cases h
     rw [htemplate]
     have hback : Tiles [.text ['"', '}']] ['"', '}'] :=
      .text ['"', '}'] [] [] (noTag_of_tails (by decide)) .nil
     exact .text sampleFront _ _ (noTag_of_tails (by decide)) (.name _ sampleTag _ _ sampleTag_text hback)
   · cases h

def sampleMustache : Mustache sampleNumbers where
  parse := sampleParse
  render template context :=
    match sampleParse template with
    | .ok tokens => ((tokens.mapM (Token.rendered? htmlEscape context)).getD []).flatten
    | .error _ => []
  escapeHtml := htmlEscape
  escapeHtml_plain := htmlEscape_plain
  parse_tiles template tokens h _ := sampleParse_tiles template tokens h
  render_tokens template context tokens texts hparse htexts := by rw [hparse]; simp [htexts]

def sampleColumns (model : Text) : Option ModelColumns :=
  if model = "GameCollection".toList then
    some { ids := fun
             | .Household => ["householdId".toList]
             | .User => ["userId".toList]
           relations := fun _ => none }
  else none

def samplePermission : PermissionRule sampleNumbers :=
  { slug := ⟨"update:game_collection:household".toList, by decide⟩
    action := .update
    subject := "GameCollection".toList
    fields := []
    conditions := ⟨sampleConditions, by decide⟩
    inverted := false }

/-- The sample permission binds a household's consent, to the household. -/
theorem bindsConsentUnit_sound_household :
    (parseTemplate literalFormat sampleMustache sampleConditions).names ≠ [] ∧
    bindsConsentUnit literalFormat sampleMustache sampleColumns [] samplePermission .Household = true ∧
    ((∃ path, createForPlugin literalFormat sampleMustache ⟨"p1".toList, "acme".toList⟩
        ⟨.Household, "h1".toList⟩ [samplePermission] = .error (.outOfContextVariable path) ∧
      lookup (renderContext ⟨"p1".toList, "acme".toList⟩ ⟨.Household, "h1".toList⟩ : Json sampleNumbers)
        path = some []) ∨
    ∃ rendered, createForPlugin literalFormat sampleMustache ⟨"p1".toList, "acme".toList⟩
        ⟨.Household, "h1".toList⟩ [samplePermission] = .ok [applyRule samplePermission (some rendered)] ∧
      parse literalFormat (sampleMustache.render (stringify literalFormat samplePermission.conditions.val)
        (renderContext ⟨"p1".toList, "acme".toList⟩ ⟨.Household, "h1".toList⟩)) = some rendered ∧
      ∀ (Row : Type) (rows : Rows sampleNumbers Row) (row : Row), Satisfies rows rendered row →
        BoundTo rows sampleColumns .Household "h1".toList samplePermission.subject row) := by
 have htemplated : (parseTemplate literalFormat sampleMustache sampleConditions).names ≠ [] := by
  decide +kernel
 have hbinds : bindsConsentUnit literalFormat sampleMustache sampleColumns [] samplePermission
   .Household = true := by decide +kernel
 have hplain : ∀ s : Text, s.all (fun c => !entity c && escapeChar c == [c]) = true →
   Unchanged sampleMustache s := by
  intro s hs c hc
  have h := List.all_eq_true.1 hs c hc
  rw [Bool.and_eq_true, Bool.not_eq_true', beq_iff_eq] at h
  exact ⟨htmlEscape_plain c h.1, h.2⟩
 exact ⟨htemplated, hbinds, bindsConsentUnit_sound ⟨"p1".toList, "acme".toList⟩
  ⟨.Household, "h1".toList⟩ hbinds htemplated (hplain _ rfl) (hplain _ rfl) (hplain _ rfl)⟩

end Sample

end BoardGamesEmpire.ConsentUnitBinding
