import BoardGamesEmpire.JsText

set_option autoImplicit false

/-!
# Plugin manifests

The permission part of `validatePluginManifest` and the `plugin|slug|bare`
envelope. Fields that no modelled service reads are kept as one JSON text, so
that two stored documents are equal exactly when the database says so.
-/
namespace BoardGamesEmpire.Manifest
open JsText

inductive PluginConsentScope where
  | server | household | user
deriving DecidableEq

inductive PluginScope where
  | server | household
deriving DecidableEq

inductive PermissionCheckOrigin where
  | plugin | core
deriving DecidableEq

inductive OutboundDomains where
  | configured
  | listed (domains : List Text)
deriving DecidableEq

structure PluginPermissionRequest where
  slug : Text
  required : Bool
  consentScope : Option PluginConsentScope
deriving DecidableEq

structure PluginManifest where
  slug : Text
  version : Text
  scope : PluginScope
  declares : List Text
  checks : List PluginPermissionRequest
  outboundDomains : OutboundDomains
  writesCore : List Text
  configSchema : Text
  requiresHouseholdConfig : Bool
  rest : Text
deriving DecidableEq

/-- A stored or uploaded JSON document; `malformed` is one that is not of the
    manifest's shape at all. -/
inductive ManifestDocument where
  | manifest (m : PluginManifest)
  | malformed (json : Text)
deriving DecidableEq

structure NormalizedPermissionRequest where
  slug : Text
  required : Bool
  consentScope : PluginConsentScope
  origin : PermissionCheckOrigin
  canonicalSlug : Text
deriving DecidableEq

structure DeclaredPluginPermission where
  bareSlug : Text
  canonicalSlug : Text
deriving DecidableEq

structure PluginManifestValidationResult where
  manifest : PluginManifest
  permissionChecks : List NormalizedPermissionRequest
  declaredPermissions : List DeclaredPluginPermission
  externalPermissionChecks : List Text
deriving DecidableEq

inductive ManifestErrorCode where
  | scopeIncoherent | permissionDeclareDuplicate | permissionCheckShape | permissionCheckDuplicate
  | other
deriving DecidableEq

structure ManifestIssue where
  code : ManifestErrorCode
  path : Text
  message : Text
deriving DecidableEq

/-- `schemaInvalid` stands for the issues of the structural pass, whose texts
    are the schema library's. -/
inductive PluginManifestValidationError where
  | schemaInvalid
  | issues (issues : List ManifestIssue)
deriving DecidableEq

/-- The rules on the fields the model keeps as text: versions, locales, reasons,
    features, events, topics, jobs. The flag is `enforceBgeCompat`. -/
structure ManifestRules where
  otherIssues : Bool → PluginManifest → List ManifestIssue

def isLower (c : Char) : Bool := 'a' ≤ c && c ≤ 'z'

def isUpper (c : Char) : Bool := 'A' ≤ c && c ≤ 'Z'

def isDecimal (c : Char) : Bool := '0' ≤ c && c ≤ '9'

/-- `[a-z][a-z0-9_-]*`. -/
def isSegment : Text → Bool
  | [] => false
  | c :: s => isLower c && s.all fun d => isLower d || isDecimal d || d == '_' || d == '-'

/-- `PLUGIN_SLUG_PATTERN`. -/
def isPluginSlug : Text → Bool
  | [] => false
  | c :: s => isLower c && 2 ≤ s.length && s.length ≤ 63 &&
      s.all fun d => isLower d || isDecimal d || d == '-'

def permissionActionVerbs : List Text :=
  ["create", "read", "update", "delete", "manage"].map String.toList

/-- `BARE_PLUGIN_PERMISSION_SLUG_PATTERN`. -/
def isBareSlug (s : Text) : Bool :=
  match s.splitOn ':' with
  | verb :: segment :: rest => permissionActionVerbs.contains verb && (segment :: rest).all isSegment
  | _ => false

/-- `CORE_PERMISSION_SLUG_PATTERN`. -/
def isCoreSlug (s : Text) : Bool :=
  2 ≤ (s.splitOn ':').length && (s.splitOn ':').all isSegment

/-- `CORE_MODEL_NAME_PATTERN`. -/
def isModelName : Text → Bool
  | [] => false
  | c :: s => isUpper c && s.all fun d => isUpper d || isLower d || isDecimal d

def envelopePrefix : Text := "plugin|".toList

def isPluginPermissionSlug (slug : Text) : Bool := envelopePrefix.isPrefixOf slug

/-- What `expandPluginPermissionSlug` returns on two well-formed segments. -/
def envelope (pluginSlug bareSlug : Text) : Text := envelopePrefix ++ pluginSlug ++ '|' :: bareSlug

/-- `none` is the `RangeError` on a malformed segment. -/
def expandPluginPermissionSlug (pluginSlug bareSlug : Text) : Option Text :=
  if isPluginSlug pluginSlug && isBareSlug bareSlug then some (envelope pluginSlug bareSlug) else none

structure ParsedPluginPermissionSlug where
  pluginSlug : Text
  bareSlug : Text
  action : Text
  subjectPath : Text
deriving DecidableEq

/-- `none` is the `RangeError` on anything but a well-formed envelope. -/
def parsePluginPermissionSlug (slug : Text) : Option ParsedPluginPermissionSlug :=
  match slug.splitOn '|' with
  | [tag, pluginSlug, bareSlug] =>
    if tag = "plugin".toList ∧ isPluginSlug pluginSlug = true ∧ isBareSlug bareSlug = true then
      match cutFirst [':'] bareSlug with
      | some (action, subjectPath) => some ⟨pluginSlug, bareSlug, action, subjectPath⟩
      | none => none
    else none
  | _ => none

/-- The values whose equal stands earlier in the list, with their positions. -/
def eachDuplicate (values : List Text) : List (Text × ℕ) :=
  values.zipIdx.filter fun entry => (values.take entry.2).contains entry.1

def schemaValid (m : PluginManifest) : Bool :=
  isPluginSlug m.slug && 5 ≤ m.version.length && m.declares.all isBareSlug &&
    m.checks.all (fun check => 3 ≤ check.slug.length) && m.writesCore.all isModelName &&
    match m.outboundDomains with
    | .configured => true
    | .listed domains => domains.all fun domain => !domain.isEmpty

def effectiveScope (check : PluginPermissionRequest) : PluginConsentScope :=
  check.consentScope.getD .server

def indexed (name : String) (index : ℕ) (suffix : String) : Text :=
  name.toList ++ '[' :: toText 10 index ++ "]".toList ++ suffix.toList

def quoted (s : Text) : Text := "'".toList ++ s ++ "'".toList

def legacyNamespace : Text := "plugin:".toList

/-- Where a check is routed: declared slugs first, then the core partition. -/
def normalizeCheck (m : PluginManifest) (check : PluginPermissionRequest) :
    Option NormalizedPermissionRequest :=
  if check.slug ∈ m.declares then
    some ⟨check.slug, check.required, effectiveScope check, .plugin, envelope m.slug check.slug⟩
  else if '|' ∈ check.slug ∨ legacyNamespace.isPrefixOf check.slug = true then none
  else if isCoreSlug check.slug then
    some ⟨check.slug, check.required, effectiveScope check, .core, check.slug⟩
  else none

def shapeIssues (m : PluginManifest) (check : PluginPermissionRequest) (index : ℕ) :
    List ManifestIssue :=
  if check.slug ∈ m.declares then []
  else if '|' ∈ check.slug ∨ legacyNamespace.isPrefixOf check.slug = true then
    [⟨.permissionCheckShape, indexed "permissions.checks" index ".slug", quoted check.slug ++
      (" — write bare '<action>:<subject>' slugs; the 'plugin|' envelope is generated at activation " ++
        "and the Phase A 'plugin:' prefix convention is retired. Cross-plugin permission checks are " ++
        "not expressible.").toList⟩]
  else if isCoreSlug check.slug then []
  else
    [⟨.permissionCheckShape, indexed "permissions.checks" index ".slug", quoted check.slug ++
      (" is neither a declared bare slug nor shaped like a core permission slug " ++
        "(e.g. 'read:game')").toList⟩]

def scopeIssues (m : PluginManifest) (check : PluginPermissionRequest) (index : ℕ) :
    List ManifestIssue :=
  if m.scope = .server ∧ effectiveScope check = .household then
    [⟨.scopeIncoherent, indexed "permissions.checks" index ".consentScope", quoted check.slug ++
      (" requests household-scope consent, but a server-scope plugin has no HouseholdPlugin enable " ++
        "surface to collect it").toList⟩]
  else []

def configScopeIssues (m : PluginManifest) : List ManifestIssue :=
  if m.scope = .server ∧ m.requiresHouseholdConfig = true then
    [⟨.scopeIncoherent, "config.requiresHouseholdConfig".toList,
      ("A server-scope plugin has no HouseholdPlugin enable/config surface to collect household " ++
        "configuration").toList⟩]
  else []

def declareDuplicateIssues (m : PluginManifest) : List ManifestIssue :=
  (eachDuplicate m.declares).map fun (slug, index) =>
    ⟨.permissionDeclareDuplicate, indexed "permissions.declares" index "",
      quoted slug ++ " declared more than once".toList⟩

def checkDuplicateIssues (m : PluginManifest) : List ManifestIssue :=
  (eachDuplicate (m.checks.map PluginPermissionRequest.slug)).map fun (slug, index) =>
    ⟨.permissionCheckDuplicate, indexed "permissions.checks" index ".slug",
      quoted slug ++ " requested more than once".toList⟩

def permissionIssues (m : PluginManifest) : List ManifestIssue :=
  configScopeIssues m ++ declareDuplicateIssues m ++
    m.checks.zipIdx.flatMap
     (fun (check, index) => shapeIssues m check index ++ scopeIssues m check index) ++
    checkDuplicateIssues m

def permissionChecksOf (m : PluginManifest) : List NormalizedPermissionRequest :=
  m.checks.filterMap (normalizeCheck m)

def declaredPermissionsOf (m : PluginManifest) : List DeclaredPluginPermission :=
  m.declares.map fun bareSlug => ⟨bareSlug, envelope m.slug bareSlug⟩

def externalPermissionChecksOf (m : PluginManifest) : List Text :=
  ((permissionChecksOf m).filter fun check => check.origin == .core).map
    NormalizedPermissionRequest.canonicalSlug

def validatePluginManifest (rules : ManifestRules) (input : ManifestDocument)
    (enforceBgeCompat : Bool) :
    Except PluginManifestValidationError PluginManifestValidationResult :=
  match input with
  | .malformed _ => .error .schemaInvalid
  | .manifest m =>
    if schemaValid m then
      let issues := permissionIssues m ++ rules.otherIssues enforceBgeCompat m
      if issues = [] then
        .ok ⟨m, permissionChecksOf m, declaredPermissionsOf m, externalPermissionChecksOf m⟩
      else .error (.issues issues)
    else .error .schemaInvalid

theorem eachDuplicate_nil {values : List Text} (h : eachDuplicate values = []) :
  values.Nodup := by
 rw [List.nodup_iff_injective_getElem]
 intro i j hij
 by_contra hne
 wlog hlt : i.val < j.val generalizing i j
 · exact this hij.symm (Ne.symm hne) (by have := Fin.val_ne_of_ne hne; omega)
 have hmem : (values[j], j.val) ∈ eachDuplicate values := by
  simp only [eachDuplicate, List.mem_filter]
  refine ⟨by simp [List.mem_zipIdx_iff_getElem?], ?_⟩
  rw [List.contains_iff_mem]
  exact List.mem_take_iff_getElem.2 ⟨i.val, by omega, hij⟩
 simp [h] at hmem

structure Valid (m : PluginManifest) : Prop where
  slug : isPluginSlug m.slug = true
  declares : ∀ bare ∈ m.declares, isBareSlug bare = true
  declaresNodup : m.declares.Nodup
  checksNodup : (m.checks.map PluginPermissionRequest.slug).Nodup
  routed : ∀ check ∈ m.checks, ∃ normalized, normalizeCheck m check = some normalized
  householdScope : ∀ check ∈ m.checks, effectiveScope check = .household → m.scope = .household

variable {m : PluginManifest}

theorem shapeIssues_nil {check : PluginPermissionRequest} {index : ℕ}
  (h : shapeIssues m check index = []) :
  ∃ normalized, normalizeCheck m check = some normalized := by
 unfold shapeIssues at h
 unfold normalizeCheck
 split_ifs at h ⊢ with h1 h2 h3
 · exact ⟨_, rfl⟩
 · exact ⟨_, rfl⟩

theorem validatePluginManifest_ok {rules : ManifestRules} {input : ManifestDocument}
  {enforce : Bool} {result : PluginManifestValidationResult}
  (h : validatePluginManifest rules input enforce = .ok result) :
  ∃ m, input = .manifest m ∧ Valid m ∧ result = ⟨m, permissionChecksOf m,
   declaredPermissionsOf m, externalPermissionChecksOf m⟩ := by
 cases input with
 | malformed json => simp [validatePluginManifest] at h
 | manifest m =>
  simp only [validatePluginManifest] at h
  split at h
  swap
  · cases h
  rename_i hschema
  split at h
  swap
  · cases h
  rename_i hissues
  cases h
  refine ⟨m, rfl, ?_, rfl⟩
  simp only [schemaValid, Bool.and_eq_true, List.all_eq_true] at hschema
  simp only [permissionIssues, List.append_eq_nil_iff, List.flatMap_eq_nil_iff] at hissues
  obtain ⟨⟨⟨⟨-, hdeclares⟩, hchecks⟩, hduplicates⟩, -⟩ := hissues
  have hat : ∀ check ∈ m.checks, ∃ index,
    shapeIssues m check index = [] ∧ scopeIssues m check index = [] := by
   intro check hcheck
   obtain ⟨index, hlt, rfl⟩ := List.mem_iff_getElem.1 hcheck
   have hmem : (m.checks[index], index) ∈ m.checks.zipIdx := by
    simp [List.mem_zipIdx_iff_getElem?]
   exact ⟨index, List.append_eq_nil_iff.1 (List.append_eq_nil_iff.2 (hchecks _ hmem))⟩
  refine ⟨hschema.1.1.1.1.1, hschema.1.1.1.2, ?_, ?_, ?_, ?_⟩
  · exact eachDuplicate_nil (List.map_eq_nil_iff.1 hdeclares)
  · exact eachDuplicate_nil (List.map_eq_nil_iff.1 hduplicates)
  · intro check hcheck
    obtain ⟨index, hshape, -⟩ := hat check hcheck
    exact shapeIssues_nil hshape
  · intro check hcheck hscope
    obtain ⟨index, -, hcoherent⟩ := hat check hcheck
    unfold scopeIssues at hcoherent
    cases hs : m.scope with
    | household => rfl
    | server =>
     rw [if_pos ⟨hs, hscope⟩] at hcoherent
     exact absurd hcoherent (List.cons_ne_nil _ _)

variable {s : Text}

theorem isSegment_no_bar (h : isSegment s = true) : '|' ∉ s := by
 cases s with
 | nil => simp
 | cons c s =>
  simp only [isSegment, Bool.and_eq_true, List.all_eq_true] at h
  intro hmem
  rcases List.mem_cons.1 hmem with rfl | hmem
  · simp [isLower] at h
  · have := h.2 '|' hmem
    simp [isLower, isDecimal] at this

theorem isPluginSlug_no_bar (h : isPluginSlug s = true) : '|' ∉ s := by
 cases s with
 | nil => simp
 | cons c s =>
  simp only [isPluginSlug, Bool.and_eq_true, List.all_eq_true] at h
  intro hmem
  rcases List.mem_cons.1 hmem with rfl | hmem
  · simp [isLower] at h
  · have := h.2 '|' hmem
    simp [isLower, isDecimal] at this

theorem segments_no_bar (h : ∀ part ∈ s.splitOn ':', '|' ∉ part) : '|' ∉ s := by
 intro hmem
 have hjoin : [':'].intercalate (s.splitOn ':') = s := List.intercalate_splitOn ':'
 rw [← hjoin] at hmem
 rcases mem_join hmem with hsep | ⟨part, hpart, hin⟩
 · simp at hsep
 · exact h part hpart hin

theorem isCoreSlug_no_bar (h : isCoreSlug s = true) : '|' ∉ s := by
 simp only [isCoreSlug, Bool.and_eq_true, List.all_eq_true] at h
 exact segments_no_bar fun part hpart => isSegment_no_bar (h.2 part hpart)

theorem isBareSlug_no_bar (h : isBareSlug s = true) : '|' ∉ s := by
 unfold isBareSlug at h
 split at h
 · rename_i verb segment rest hsplit
   simp only [Bool.and_eq_true, List.all_eq_true, List.contains_iff_mem] at h
   apply segments_no_bar
   rw [hsplit]
   intro part hpart
   rcases List.mem_cons.1 hpart with rfl | hpart
   · have hverbs : ∀ verb ∈ permissionActionVerbs, '|' ∉ verb := by decide
     exact hverbs _ h.1
   · exact isSegment_no_bar (h.2 part hpart)
 · cases h

theorem envelope_splitOn {pluginSlug bareSlug : Text} (hp : '|' ∉ pluginSlug) (hb : '|' ∉ bareSlug) :
  (envelope pluginSlug bareSlug).splitOn '|' = ["plugin".toList, pluginSlug, bareSlug] := by
 have hjoin : envelope pluginSlug bareSlug =
   ['|'].intercalate ["plugin".toList, pluginSlug, bareSlug] := by
  have hprefix : envelopePrefix = "plugin".toList ++ ['|'] := by decide
  rw [envelope, hprefix, List.intercalate_cons_cons, List.intercalate_cons_cons,
   List.intercalate_singleton,
   List.append_assoc _ pluginSlug, List.append_assoc pluginSlug, List.singleton_append]
 rw [hjoin]
 apply List.splitOn_intercalate
 · intro part hpart
   rcases List.mem_cons.1 hpart with rfl | hpart
   · decide
   rcases List.mem_cons.1 hpart with rfl | hpart
   · exact hp
   · rw [List.mem_singleton.1 hpart]
     exact hb
 · exact List.cons_ne_nil _ _

theorem isBareSlug_colon (h : isBareSlug s = true) : ':' ∈ s := by
 by_contra habsent
 unfold isBareSlug at h
 rw [splitOn_absent habsent] at h
 cases h

theorem parse_envelope {pluginSlug bareSlug : Text} (hp : isPluginSlug pluginSlug = true)
  (hb : isBareSlug bareSlug = true) :
  ∃ parsed, parsePluginPermissionSlug (envelope pluginSlug bareSlug) = some parsed ∧
   parsed.pluginSlug = pluginSlug := by
 obtain ⟨⟨action, subjectPath⟩, hcut⟩ := cutFirst_char (isBareSlug_colon hb)
 refine ⟨⟨pluginSlug, bareSlug, action, subjectPath⟩, ?_, rfl⟩
 unfold parsePluginPermissionSlug
 rw [envelope_splitOn (isPluginSlug_no_bar hp) (isBareSlug_no_bar hb)]
 dsimp only
 rw [if_pos ⟨rfl, hp, hb⟩, hcut]

theorem isPluginPermissionSlug_envelope (pluginSlug bareSlug : Text) :
  isPluginPermissionSlug (envelope pluginSlug bareSlug) = true := by
 rw [isPluginPermissionSlug, List.isPrefixOf_iff_prefix]
 exact ⟨pluginSlug ++ '|' :: bareSlug, by simp [envelope]⟩

theorem isPluginPermissionSlug_no_bar (h : '|' ∉ s) :
  isPluginPermissionSlug s = false := by
 by_contra hyes
 obtain ⟨t, rfl⟩ := List.isPrefixOf_iff_prefix.1 (Bool.not_eq_false _ ▸ hyes)
 exact h (List.mem_append_left t (by decide))

theorem envelope_injective {pluginSlug a b : Text}
  (h : envelope pluginSlug a = envelope pluginSlug b) :
  a = b := by
 simpa [envelope] using h

theorem normalizeCheck_some {check : PluginPermissionRequest}
  {normalized : NormalizedPermissionRequest} (h : normalizeCheck m check = some normalized) :
  normalized.slug = check.slug ∧ normalized.required = check.required ∧
  normalized.consentScope = effectiveScope check ∧
  ((normalized.origin = .plugin ∧ check.slug ∈ m.declares ∧
    normalized.canonicalSlug = envelope m.slug check.slug) ∨
   (normalized.origin = .core ∧ check.slug ∉ m.declares ∧ '|' ∉ check.slug ∧
    normalized.canonicalSlug = check.slug)) := by
 unfold normalizeCheck at h
 split_ifs at h with h1 h2 h3
 · cases h
   exact ⟨rfl, rfl, rfl, .inl ⟨rfl, h1, rfl⟩⟩
 · cases h
   exact ⟨rfl, rfl, rfl, .inr ⟨rfl, h1, isCoreSlug_no_bar h3, rfl⟩⟩

theorem canonical_determines {a b : PluginPermissionRequest}
  {na nb : NormalizedPermissionRequest} (ha : normalizeCheck m a = some na)
  (hb : normalizeCheck m b = some nb) (h : na.canonicalSlug = nb.canonicalSlug) :
  a.slug = b.slug := by
 obtain ⟨-, -, -, ha⟩ := normalizeCheck_some ha
 obtain ⟨-, -, -, hb⟩ := normalizeCheck_some hb
 have hbar : ∀ s : Text, '|' ∈ envelope m.slug s := fun s => by simp [envelope]
 rcases ha with ⟨-, -, ha⟩ | ⟨-, -, hano, ha⟩ <;> rcases hb with ⟨-, -, hb⟩ | ⟨-, -, hbno, hb⟩
 · exact envelope_injective (ha ▸ hb ▸ h)
 · exact absurd (hbar a.slug) (by rw [← ha, h, hb]; exact hbno)
 · exact absurd (hbar b.slug) (by rw [← hb, ← h, ha]; exact hano)
 · rw [← ha, h, hb]

theorem filterMap_nodup {α β γ δ : Type} (f : α → Option β) (key : α → γ) (out : β → δ)
  (hinj : ∀ a b x y, f a = some x → f b = some y → out x = out y → key a = key b) (l : List α)
  (h : (l.map key).Nodup) : ((l.filterMap f).map out).Nodup := by
 induction l with
 | nil => simp
 | cons a l ih =>
  simp only [List.map_cons, List.nodup_cons] at h
  cases hf : f a with
  | none => simpa [hf] using ih h.2
  | some x =>
   simp only [List.filterMap_cons, hf, List.map_cons, List.nodup_cons]
   refine ⟨fun hmem => h.1 ?_, ih h.2⟩
   obtain ⟨y, hy, hout⟩ := List.mem_map.1 hmem
   obtain ⟨b, hb, hfb⟩ := List.mem_filterMap.1 hy
   exact List.mem_map.2 ⟨b, hb, hinj b a y x hfb hf hout⟩

theorem canonicalSlugs_nodup (h : Valid m) :
  ((permissionChecksOf m).map NormalizedPermissionRequest.canonicalSlug).Nodup :=
 filterMap_nodup (normalizeCheck m) PluginPermissionRequest.slug _
  (fun _ _ _ _ ha hb => canonical_determines ha hb) m.checks h.checksNodup

theorem check_namespace (h : Valid m) {check : NormalizedPermissionRequest}
  (hcheck : check ∈ permissionChecksOf m) :
  (check.origin = .plugin ∧ isPluginPermissionSlug check.canonicalSlug = true ∧
   ∃ parsed, parsePluginPermissionSlug check.canonicalSlug = some parsed ∧
    parsed.pluginSlug = m.slug) ∨
  (check.origin = .core ∧ isPluginPermissionSlug check.canonicalSlug = false) := by
 obtain ⟨request, -, hnorm⟩ := List.mem_filterMap.1 hcheck
 obtain ⟨-, -, -, ⟨horigin, hdecl, hslug⟩ | ⟨horigin, -, hbar, hslug⟩⟩ := normalizeCheck_some hnorm
 · left
   rw [hslug]
   exact ⟨horigin, isPluginPermissionSlug_envelope _ _, parse_envelope h.slug (h.declares _ hdecl)⟩
 · right
   rw [hslug]
   exact ⟨horigin, isPluginPermissionSlug_no_bar hbar⟩

theorem check_eq_of_slug (h : Valid m) {a b : NormalizedPermissionRequest}
  (ha : a ∈ permissionChecksOf m) (hb : b ∈ permissionChecksOf m)
  (hslug : a.canonicalSlug = b.canonicalSlug) : a = b :=
 List.inj_on_of_nodup_map (canonicalSlugs_nodup h) ha hb hslug

theorem declared_bar {declared : DeclaredPluginPermission}
  (h : declared ∈ declaredPermissionsOf m) : '|' ∈ declared.canonicalSlug := by
 obtain ⟨bare, -, rfl⟩ := List.mem_map.1 h
 simp [envelope]

theorem check_declared {check : NormalizedPermissionRequest}
  (hcheck : check ∈ permissionChecksOf m) :
  (check.origin = .plugin ∧
   ∃ declared ∈ declaredPermissionsOf m, declared.canonicalSlug = check.canonicalSlug) ∨
  (check.origin = .core ∧ '|' ∉ check.canonicalSlug) := by
 obtain ⟨request, -, hnorm⟩ := List.mem_filterMap.1 hcheck
 obtain ⟨-, -, -, ⟨horigin, hdecl, hslug⟩ | ⟨horigin, -, hbar, hslug⟩⟩ := normalizeCheck_some hnorm
 · exact .inl ⟨horigin, _, List.mem_map.2 ⟨_, hdecl, rfl⟩, hslug.symm⟩
 · exact .inr ⟨horigin, hslug ▸ hbar⟩

structure Validated (result : PluginManifestValidationResult) : Prop where
  valid : Valid result.manifest
  checks : result.permissionChecks = permissionChecksOf result.manifest
  declared : result.declaredPermissions = declaredPermissionsOf result.manifest
  external : result.externalPermissionChecks = externalPermissionChecksOf result.manifest

theorem validated_of_ok {rules : ManifestRules} {input : ManifestDocument} {enforce : Bool}
  {result : PluginManifestValidationResult}
  (h : validatePluginManifest rules input enforce = .ok result) : Validated result := by
 obtain ⟨m, -, hm, rfl⟩ := validatePluginManifest_ok h
 exact ⟨hm, rfl, rfl, rfl⟩

theorem Validated.check_eq {result : PluginManifestValidationResult} (h : Validated result)
  {a b : NormalizedPermissionRequest} (ha : a ∈ result.permissionChecks)
  (hb : b ∈ result.permissionChecks) (hslug : a.canonicalSlug = b.canonicalSlug) : a = b :=
 check_eq_of_slug h.valid (h.checks ▸ ha) (h.checks ▸ hb) hslug

end BoardGamesEmpire.Manifest
