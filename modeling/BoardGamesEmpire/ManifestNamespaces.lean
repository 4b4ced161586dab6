import BoardGamesEmpire.Manifest

set_option autoImplicit false

/-!
# The names a plugin owns

Permission slugs, emitted events, queues and own tables, each under a prefix
made of the plugin's slug. Three of the prefixes end in a character no slug
has; the table prefix ends in the one that a slug's hyphens become.
-/
namespace BoardGamesEmpire.ManifestNamespaces
open JsText Manifest

section Patterns

def pluginQueuePrefix (slug : Text) : Text := "plugin:".toList ++ slug ++ ":".toList

def pluginEmitPrefix (slug : Text) : Text := "plugin.".toList ++ slug ++ ".".toList

/-- `replace`, with every hyphen made an underscore. -/
def underscored (slug : Text) : Text := slug.map fun c => if c = '-' then '_' else c

def pluginTablePrefix (slug : Text) : Text := "plugin_".toList ++ underscored slug ++ "_".toList

/-- `EVENT_NAME_PATTERN`. -/
def isEventName (s : Text) : Bool := (s.splitOn '.').all isSegment

/-- `OWN_TABLE_SUFFIX_PATTERN`. -/
def isOwnTableSuffix : Text → Bool
  | [] => false
  | c :: s => isLower c && s.all fun d => isLower d || isDecimal d || d == '_'

end Patterns

section Validation

structure ManifestNames where
  emits : List Text
  queues : List Text
  ownTables : List Text
deriving DecidableEq

inductive NamespaceErrorCode where
  | eventEmitDuplicate | eventNameInvalid | eventEmitNamespace | queueNamespace | queueDuplicate | ownTablePrefix
  | ownTableDuplicate
deriving DecidableEq

structure NamespaceIssue where
  code : NamespaceErrorCode
  path : Text
  message : Text
deriving DecidableEq

def duplicateIssues (code : NamespaceErrorCode) (path : String) (names : List Text) :
    List NamespaceIssue :=
  (eachDuplicate names).map fun (name, index) =>
    ⟨code, indexed path index "", quoted name ++ " listed more than once".toList⟩

def emitIssues (slug name : Text) (index : ℕ) : List NamespaceIssue :=
  if !isEventName name then
    [⟨.eventNameInvalid, indexed "events.emits" index "",
     quoted name ++ " is not a valid dotted event name".toList⟩]
  else if !(pluginEmitPrefix slug).isPrefixOf name then
    [⟨.eventEmitNamespace, indexed "events.emits" index "",
      "Emitted events must be namespaced under ".toList ++ quoted (pluginEmitPrefix slug)⟩]
  else []

def queueIssues (slug queue : Text) (index : ℕ) : List NamespaceIssue :=
  if !(pluginQueuePrefix slug).isPrefixOf queue || queue.length == (pluginQueuePrefix slug).length then
    [⟨.queueNamespace, indexed "jobs.queues" index "",
      "Queue names must be namespaced under ".toList ++ quoted (pluginQueuePrefix slug)⟩]
  else []

def tableSuffix (slug table : Text) : Option Text :=
  if (pluginTablePrefix slug).isPrefixOf table then some
   (table.drop (pluginTablePrefix slug).length) else none

def tableIssues (slug table : Text) (index : ℕ) : List NamespaceIssue :=
  if (tableSuffix slug table).any isOwnTableSuffix then []
  else
    [⟨.ownTablePrefix, indexed "storage.ownTables" index "",
      quoted table ++ " must be snake_case and prefixed with ".toList ++ quoted (pluginTablePrefix slug)⟩]

def namespaceIssues (slug : Text) (names : ManifestNames) : List NamespaceIssue :=
  duplicateIssues .eventEmitDuplicate "events.emits" names.emits ++
    names.emits.zipIdx.flatMap (fun (name, index) => emitIssues slug name index) ++
    names.queues.zipIdx.flatMap (fun (queue, index) => queueIssues slug queue index) ++
    duplicateIssues .queueDuplicate "jobs.queues" names.queues ++
    names.ownTables.zipIdx.flatMap (fun (table, index) => tableIssues slug table index) ++
    duplicateIssues .ownTableDuplicate "storage.ownTables" names.ownTables

def NamespaceIssue.toManifestIssue (issue : NamespaceIssue) : ManifestIssue :=
    ⟨.other, issue.path, issue.message⟩

/-- The manifest rules with those on names spelled out: `namesOf` reads the
    names from the fields kept as text, `others` is what is left. -/
def namespaceRules (namesOf : Text → ManifestNames) (others : ManifestRules) : ManifestRules where
  otherIssues enforceBgeCompat m :=
    (namespaceIssues m.slug (namesOf m.rest)).map
     NamespaceIssue.toManifestIssue ++ others.otherIssues enforceBgeCompat m

end Validation

section Names

inductive NameKind where
  | permission | event | queue | table
deriving DecidableEq

def Accepts (slug name : Text) : NameKind → Prop
  | .permission => ∃ bareSlug, expandPluginPermissionSlug slug bareSlug = some name
  | .event => isEventName name = true ∧ (pluginEmitPrefix slug).isPrefixOf name = true
  | .queue => (pluginQueuePrefix slug).isPrefixOf name = true ∧
   name.length ≠ (pluginQueuePrefix slug).length
  | .table => (tableSuffix slug name).any isOwnTableSuffix = true

/-- The names of a kind that a manifest lists; its permissions in their
    canonical form. -/
def listed (namesOf : Text → ManifestNames) (m : PluginManifest) : NameKind → List Text
  | .permission => (declaredPermissionsOf m).map DeclaredPluginPermission.canonicalSlug
  | .event => (namesOf m.rest).emits
  | .queue => (namesOf m.rest).queues
  | .table => (namesOf m.rest).ownTables

def Accepted (namesOf : Text → ManifestNames) (others : ManifestRules) (m : PluginManifest) : Prop :=
  ∃ enforceBgeCompat result,
    validatePluginManifest (namespaceRules namesOf others) (.manifest m) enforceBgeCompat = .ok result

variable {namesOf : Text → ManifestNames} {others : ManifestRules} {m : PluginManifest}

theorem Accepted.valid (h : Accepted namesOf others m) : Valid m := by
 obtain ⟨enforce, result, hok⟩ := h
 obtain ⟨m', heq, hvalid, -⟩ := validatePluginManifest_ok hok
 cases heq
 exact hvalid

theorem Accepted.no_issues (h : Accepted namesOf others m) :
  namespaceIssues m.slug (namesOf m.rest) = [] := by
 obtain ⟨enforce, result, hok⟩ := h
 simp only [validatePluginManifest] at hok
 split at hok
 · split at hok
   · rename_i hissues
     have hother := (List.append_eq_nil_iff.1 hissues).2
     exact List.map_eq_nil_iff.1 (List.append_eq_nil_iff.1 hother).1
   · cases hok
 · cases hok

theorem of_zipIdx_nil {issues : Text → ℕ → List NamespaceIssue} {names : List Text}
  (h : names.zipIdx.flatMap (fun (name, index) => issues name index) = []) {name : Text}
  (hmem : name ∈ names) :
  ∃ index, issues name index = [] := by
 obtain ⟨index, hlt, rfl⟩ := List.mem_iff_getElem.1 hmem
 have hentry : (names[index], index) ∈ names.zipIdx := by simp [List.mem_zipIdx_iff_getElem?]
 exact ⟨index, List.flatMap_eq_nil_iff.1 h _ hentry⟩

theorem accepts_of_emitIssues {slug name : Text} {index : ℕ} (h : emitIssues slug name index = []) :
  Accepts slug name .event := by
 unfold emitIssues at h
 split_ifs at h with hname hprefix
 exact ⟨by simpa using hname, by simpa using hprefix⟩

theorem accepts_of_queueIssues {slug queue : Text} {index : ℕ}
  (h : queueIssues slug queue index = []) :
  Accepts slug queue .queue := by
 unfold queueIssues at h
 split_ifs at h with hqueue
 simp only [Bool.or_eq_true, not_or, Bool.not_eq_true', Bool.not_eq_false, beq_iff_eq] at hqueue
 exact hqueue

theorem accepts_of_tableIssues {slug table : Text} {index : ℕ}
  (h : tableIssues slug table index = []) :
  Accepts slug table .table := by
 unfold tableIssues at h
 split_ifs at h with htable
 exact htable

theorem Accepted.listed_accepts (h : Accepted namesOf others m) {kind : NameKind} {name : Text}
  (hname : name ∈ listed namesOf m kind) : Accepts m.slug name kind := by
 have hissues := h.no_issues
 simp only [namespaceIssues, List.append_eq_nil_iff] at hissues
 obtain ⟨⟨⟨⟨⟨-, hemits⟩, hqueues⟩, -⟩, htables⟩, -⟩ := hissues
 cases kind with
 | permission =>
  obtain ⟨declared, hdeclared, rfl⟩ := List.mem_map.1 hname
  obtain ⟨bare, hbare, rfl⟩ := List.mem_map.1 hdeclared
  refine ⟨bare, if_pos ?_⟩
  rw [h.valid.slug, h.valid.declares bare hbare]
  rfl
 | event =>
  obtain ⟨index, hnone⟩ := of_zipIdx_nil hemits hname
  exact accepts_of_emitIssues hnone
 | queue =>
  obtain ⟨index, hnone⟩ := of_zipIdx_nil hqueues hname
  exact accepts_of_queueIssues hnone
 | table =>
  obtain ⟨index, hnone⟩ := of_zipIdx_nil htables hname
  exact accepts_of_tableIssues hnone

end Names

section Prefixes

variable {sep : Char} {a b s t : Text}

theorem head_sep_inj (ha : sep ∉ a) (hb : sep ∉ b) (h : a ++ sep :: s = b ++ sep :: t) :
  a = b ∧ s = t := by
 induction a generalizing b with
 | nil =>
  cases b with
  | nil => exact ⟨rfl, (List.cons.inj h).2⟩
  | cons c b =>
   have hhead := (List.cons.inj h).1
   exact absurd (hhead ▸ List.mem_cons_self) hb
 | cons c a ih =>
  cases b with
  | nil =>
   have hhead := (List.cons.inj h).1
   exact absurd (hhead ▸ List.mem_cons_self) ha
  | cons d b =>
   obtain ⟨rfl, htail⟩ := List.cons.inj h
   obtain ⟨rfl, rfl⟩ := ih (fun hmem => ha (List.mem_cons_of_mem _ hmem))
    (fun hmem => hb (List.mem_cons_of_mem _ hmem)) htail
   exact ⟨rfl, rfl⟩

theorem slug_of_prefixes {tag name : Text} (ha : sep ∉ a) (hb : sep ∉ b)
  (hfirst : (tag ++ a ++ [sep]).isPrefixOf name = true)
  (hsecond : (tag ++ b ++ [sep]).isPrefixOf name = true) :
  a = b := by
 obtain ⟨s, rfl⟩ := List.isPrefixOf_iff_prefix.1 hfirst
 obtain ⟨t, hname⟩ := List.isPrefixOf_iff_prefix.1 hsecond
 simp only [List.append_assoc, List.append_cancel_left_eq] at hname
 exact (head_sep_inj hb ha hname).1.symm

theorem isPluginSlug_chars (h : isPluginSlug a = true) {c : Char} (hc : c ∈ a) :
  (isLower c || isDecimal c || c == '-') = true := by
 cases a with
 | nil => cases hc
 | cons d a =>
  simp only [isPluginSlug, Bool.and_eq_true, List.all_eq_true] at h
  rcases List.mem_cons.1 hc with rfl | hc
  · rw [h.1.1.1]
    rfl
  · exact h.2 c hc

theorem isPluginSlug_notMem (h : isPluginSlug a = true)
  (hsep : (isLower sep || isDecimal sep || sep == '-') = false) :
  sep ∉ a := by
 intro hmem
 rw [isPluginSlug_chars h hmem] at hsep
 cases hsep

end Prefixes

section Tables

variable {a b : Text}

def Extends (a b : Text) : Prop := ∃ c rest, isLower c = true ∧ b = a ++ '-' :: c :: rest

theorem underscored_append (a b : Text) :
  underscored (a ++ b) = underscored a ++ underscored b := List.map_append

theorem underscored_injective (ha : '_' ∉ a) (hb : '_' ∉ b) (h : underscored a = underscored b) :
  a = b := by
 induction a generalizing b with
 | nil => exact (List.map_eq_nil_iff.1 h.symm).symm
 | cons c a ih =>
  cases b with
  | nil => cases h
  | cons d b =>
   obtain ⟨hhead, htail⟩ := List.cons.inj h
   have hcd : c = d := by
    have hc : c ≠ '_' := fun heq => ha (heq ▸ List.mem_cons_self)
    have hd : d ≠ '_' := fun heq => hb (heq ▸ List.mem_cons_self)
    dsimp only at hhead
    split_ifs at hhead with hc' hd'
    · exact hc'.trans hd'.symm
    · exact absurd hhead.symm hd
    · exact absurd hhead hc
    · exact hhead
   rw [hcd, ih (fun hmem => ha (List.mem_cons_of_mem _ hmem))
    (fun hmem => hb (List.mem_cons_of_mem _ hmem)) htail]

theorem pluginTablePrefix_append (slug suffix : Text) :
  pluginTablePrefix slug ++ suffix = "plugin_".toList ++ (underscored slug ++ '_' :: suffix) := by
 have hend : "_".toList = ['_'] := rfl
 unfold pluginTablePrefix
 generalize "plugin_".toList = tag
 rw [hend, List.append_assoc, List.append_assoc]
 rfl

theorem tableSuffix_accepts {slug table : Text} (h : Accepts slug table .table) :
  ∃ suffix, table = pluginTablePrefix slug ++ suffix ∧ isOwnTableSuffix suffix = true := by
 obtain ⟨suffix, hsuffix, hshape⟩ := (Option.any_eq_true _ _).1 h
 unfold tableSuffix at hsuffix
 split_ifs at hsuffix with hprefix
 cases hsuffix
 exact ⟨_, (List.prefix_iff_eq_append.1 (List.isPrefixOf_iff_prefix.1 hprefix)).symm, hshape⟩

theorem accepts_of_suffix {slug suffix : Text} (h : isOwnTableSuffix suffix = true) :
  Accepts slug (pluginTablePrefix slug ++ suffix) .table := by
 have hprefix : (pluginTablePrefix slug).isPrefixOf (pluginTablePrefix slug ++ suffix) = true :=
  List.isPrefixOf_iff_prefix.2 (List.prefix_append _ _)
 simp only [Accepts, tableSuffix, if_pos hprefix, List.drop_left, Option.any_some]
 exact h

theorem extends_of_longer {rest suffix suffix' : Text} (ha : isPluginSlug a = true)
  (hb : isPluginSlug b = true) (hsuffix : isOwnTableSuffix suffix = true) (hne : a ≠ b)
  (hslug : underscored b = underscored a ++ rest) (hrest : '_' :: suffix = rest ++ '_' :: suffix') :
  Extends a b := by
 have hascore : '_' ∉ a := isPluginSlug_notMem ha (by decide)
 have hbscore : '_' ∉ b := isPluginSlug_notMem hb (by decide)
 cases rest with
 | nil =>
  rw [List.append_nil] at hslug
  exact absurd (underscored_injective hbscore hascore hslug).symm hne
 | cons c rest =>
  obtain ⟨rfl, htail⟩ := List.cons.inj hrest
  cases rest with
  | nil =>
   rw [htail] at hsuffix
   simp [isOwnTableSuffix, isLower] at hsuffix
  | cons c rest =>
   have hlower : isLower c = true := by
    rw [htail] at hsuffix
    simp only [List.append_eq, List.cons_append, isOwnTableSuffix, Bool.and_eq_true] at hsuffix
    exact hsuffix.1
   obtain ⟨front, back, rfl, hfront, hback⟩ := List.map_eq_append_iff.1 hslug
   obtain rfl : front = a :=
    underscored_injective (fun hmem => hbscore (List.mem_append_left _ hmem)) hascore hfront
   obtain ⟨hyphen, back, rfl, hhyphen, hback⟩ := List.map_eq_cons_iff.1 hback
   obtain ⟨letter, back, rfl, hletter, -⟩ := List.map_eq_cons_iff.1 hback
   have hmem : hyphen ∈ front ++ hyphen :: letter :: back := List.mem_append_right _ List.mem_cons_self
   have hyphenIs : hyphen = '-' := by
    split_ifs at hhyphen with heq
    · exact heq
    · exact absurd (hhyphen ▸ hmem) hbscore
   have hletterIs : letter = c := by
    split_ifs at hletter with heq
    · rw [← hletter] at hlower
      cases hlower
    · exact hletter
   exact ⟨c, back, hlower, by rw [hyphenIs, hletterIs]⟩

theorem extends_of_shared {table : Text} (ha : isPluginSlug a = true) (hb : isPluginSlug b = true)
  (hne : a ≠ b) (hfirst : Accepts a table .table) (hsecond : Accepts b table .table) :
  Extends a b ∨ Extends b a := by
 obtain ⟨suffix, rfl, hsuffix⟩ := tableSuffix_accepts hfirst
 obtain ⟨suffix', hname, hsuffix'⟩ := tableSuffix_accepts hsecond
 rw [pluginTablePrefix_append, pluginTablePrefix_append] at hname
 rcases List.append_eq_append_iff.1 (List.append_cancel_left hname) with ⟨rest, hslug, hrest⟩
  | ⟨rest, hslug, hrest⟩
 · exact .inl (extends_of_longer ha hb hsuffix hne hslug hrest)
 · exact .inr (extends_of_longer hb ha hsuffix' hne.symm hslug hrest)

theorem shared_of_extends (hb : isPluginSlug b = true) (h : Extends a b) :
  ∃ table, Accepts a table .table ∧ Accepts b table .table := by
 obtain ⟨c, rest, hlower, rfl⟩ := h
 refine ⟨pluginTablePrefix (a ++ '-' :: c :: rest) ++ ['x'], ?_, accepts_of_suffix (by decide)⟩
 have hplain :
  ∀ d ∈ c :: rest, (isLower (if d = '-' then '_' else d) || isDecimal (if d = '-' then '_' else d) ||
   (if d = '-' then '_' else d) == '_') = true := by
  intro d hd
  have hchar := isPluginSlug_chars hb (List.mem_append_right a (List.mem_cons_of_mem _ hd))
  split_ifs with heq
  · rfl
  · simp only [Bool.or_eq_true, beq_iff_eq, heq, or_false] at hchar
    simp only [Bool.or_eq_true]
    exact .inl hchar
 have hsame : pluginTablePrefix (a ++ '-' :: c :: rest) ++ ['x'] =
   pluginTablePrefix a ++ (underscored (c :: rest) ++ ['_', 'x']) := by
  rw [pluginTablePrefix_append, pluginTablePrefix_append, underscored_append, List.append_assoc]
  rfl
 rw [hsame]
 apply accepts_of_suffix
 have hc : c ≠ '-' := by
  rintro rfl
  cases hlower
 simp only [underscored, List.map_cons, if_neg hc, List.cons_append, isOwnTableSuffix, hlower,
  Bool.true_and,
  List.all_append, Bool.and_eq_true, List.all_eq_true]
 refine ⟨fun d hd => ?_, fun d hd => ?_⟩
 · obtain ⟨e, he, rfl⟩ := List.mem_map.1 hd
   exact hplain e (List.mem_cons_of_mem _ he)
 · rcases List.mem_cons.1 hd with rfl | hd
   · rfl
   · rw [List.mem_singleton.1 hd]
     rfl

end Tables

section Permissions

def pluginPermissionCaslSubject (parsed : ParsedPluginPermissionSlug) : Text :=
  envelopePrefix ++ parsed.pluginSlug ++ '|' :: parsed.subjectPath

theorem expandPluginPermissionSlug_some {pluginSlug bareSlug name : Text}
  (h : expandPluginPermissionSlug pluginSlug bareSlug = some name) :
  isPluginSlug pluginSlug = true ∧ isBareSlug bareSlug = true ∧ name = envelope pluginSlug bareSlug := by
 unfold expandPluginPermissionSlug at h
 split_ifs at h with hvalid
 cases h
 obtain ⟨hslug, hbare⟩ := (Bool.and_eq_true _ _).mp hvalid
 exact ⟨hslug, hbare, rfl⟩

theorem parsePluginPermissionSlug_some {slug : Text} {parsed : ParsedPluginPermissionSlug}
  (h : parsePluginPermissionSlug slug = some parsed) :
  isPluginSlug parsed.pluginSlug = true ∧ isBareSlug parsed.bareSlug = true ∧
   slug = envelope parsed.pluginSlug parsed.bareSlug ∧
    parsed.action ++ ':' :: parsed.subjectPath = parsed.bareSlug := by
 unfold parsePluginPermissionSlug at h
 split at h
 · rename_i tag pluginSlug bareSlug hsplit
   split_ifs at h with hvalid
   obtain ⟨rfl, hslug, hbare⟩ := hvalid
   split at h
   · rename_i action subjectPath hcut
     cases h
     refine ⟨hslug, hbare, ?_, ?_⟩
     · have hjoin : ['|'].intercalate (slug.splitOn '|') = slug := List.intercalate_splitOn '|'
       rw [hsplit] at hjoin
       rw [← hjoin]
       simp [envelope, envelopePrefix, List.intercalate]
     · have hparts := cutFirst_some hcut
       rw [List.append_assoc] at hparts
       exact hparts.symm
   · cases h
 · cases h

theorem parse_expand {pluginSlug bareSlug : Text} (hslug : isPluginSlug pluginSlug = true)
  (hbare : isBareSlug bareSlug = true) :
  ∃ parsed, (expandPluginPermissionSlug pluginSlug bareSlug).bind parsePluginPermissionSlug = some parsed ∧
   parsed.pluginSlug = pluginSlug ∧ parsed.bareSlug = bareSlug ∧
   parsed.action ++ ':' :: parsed.subjectPath = bareSlug := by
 have hexpand : expandPluginPermissionSlug pluginSlug bareSlug = some (envelope pluginSlug bareSlug) := by
  unfold expandPluginPermissionSlug
  rw [hslug, hbare]
  rfl
 obtain ⟨parsed, hparsed, hplugin⟩ := parse_envelope hslug hbare
 obtain ⟨-, -, henvelope, hparts⟩ := parsePluginPermissionSlug_some hparsed
 rw [hplugin] at henvelope
 have hsame : parsed.bareSlug = bareSlug := (envelope_injective henvelope).symm
 refine ⟨parsed, ?_, hplugin, hsame, hparts.trans hsame⟩
 rw [hexpand]
 exact hparsed

theorem expand_parse {slug : Text} {parsed : ParsedPluginPermissionSlug}
  (h : parsePluginPermissionSlug slug = some parsed) :
  expandPluginPermissionSlug parsed.pluginSlug parsed.bareSlug = some slug := by
 obtain ⟨hslug, hbare, rfl, -⟩ := parsePluginPermissionSlug_some h
 unfold expandPluginPermissionSlug
 rw [hslug, hbare]
 rfl

theorem envelope_slug {a b s t : Text} (ha : '|' ∉ a) (hb : '|' ∉ b)
  (h : envelope a s = envelope b t) :
  a = b ∧ s = t := by
 unfold envelope at h
 rw [List.append_assoc, List.append_assoc] at h
 exact head_sep_inj ha hb (List.append_cancel_left h)

theorem casl_injective {slug slug' : Text} {parsed parsed' : ParsedPluginPermissionSlug}
  (h : parsePluginPermissionSlug slug = some parsed)
  (h' : parsePluginPermissionSlug slug' = some parsed') (haction : parsed.action = parsed'.action)
  (hsubject : pluginPermissionCaslSubject parsed = pluginPermissionCaslSubject parsed') :
  parsed.pluginSlug = parsed'.pluginSlug ∧ parsed.bareSlug = parsed'.bareSlug := by
 obtain ⟨hslug, -, -, hparts⟩ := parsePluginPermissionSlug_some h
 obtain ⟨hslug', -, -, hparts'⟩ := parsePluginPermissionSlug_some h'
 obtain ⟨hplugin, hpath⟩ := envelope_slug (isPluginSlug_no_bar hslug) (isPluginSlug_no_bar hslug') hsubject
 refine ⟨hplugin, ?_⟩
 rw [← hparts, ← hparts', haction, hpath]

end Permissions

section Namespaces

variable {a b name : Text}

theorem slug_of_name {kind : NameKind} (hkind : kind ≠ .table) (ha : isPluginSlug a = true)
  (hb : isPluginSlug b = true) (hfirst : Accepts a name kind) (hsecond : Accepts b name kind) :
  a = b := by
 cases kind with
 | permission =>
  obtain ⟨bare, hbare⟩ := hfirst
  obtain ⟨bare', hbare'⟩ := hsecond
  obtain ⟨-, -, rfl⟩ := expandPluginPermissionSlug_some hbare
  obtain ⟨-, -, hname⟩ := expandPluginPermissionSlug_some hbare'
  exact (envelope_slug (isPluginSlug_no_bar ha) (isPluginSlug_no_bar hb) hname).1
 | event => exact slug_of_prefixes (isPluginSlug_notMem ha rfl) (isPluginSlug_notMem hb rfl) hfirst.2 hsecond.2
 | queue => exact slug_of_prefixes (isPluginSlug_notMem ha rfl) (isPluginSlug_notMem hb rfl) hfirst.1 hsecond.1
 | table => exact absurd rfl hkind

theorem not_core_of_permission (h : Accepts a name .permission) : isCoreSlug name = false := by
 obtain ⟨bare, hbare⟩ := h
 obtain ⟨-, -, rfl⟩ := expandPluginPermissionSlug_some hbare
 by_contra hcore
 have hbar : '|' ∈ envelope a bare := by simp [envelope]
 exact isCoreSlug_no_bar (Bool.not_eq_false _ ▸ hcore) hbar

def DisjointNames (a b : Text) : Prop := ∀ kind name, Accepts a name kind → ¬ Accepts b name kind

theorem disjoint_iff (ha : isPluginSlug a = true) (hb : isPluginSlug b = true) (hne : a ≠ b) :
  DisjointNames a b ↔ ¬ Extends a b ∧ ¬ Extends b a := by
 constructor
 · intro hdisjoint
   constructor
   · intro hextends
     obtain ⟨table, hfirst, hsecond⟩ := shared_of_extends hb hextends
     exact hdisjoint .table table hfirst hsecond
   · intro hextends
     obtain ⟨table, hsecond, hfirst⟩ := shared_of_extends ha hextends
     exact hdisjoint .table table hfirst hsecond
 · intro hapart kind name hfirst hsecond
   by_cases hkind : kind = .table
   · subst hkind
     rcases extends_of_shared ha hb hne hfirst hsecond with hextends | hextends
     · exact hapart.1 hextends
     · exact hapart.2 hextends
   · exact hne (slug_of_name hkind ha hb hfirst hsecond)

/-- Two plugins share no permission, event or queue; they share no table exactly
    if neither slug is the other one followed by a hyphen and a letter. The
    canonical permission slugs and their CASL pairs name their plugin and bare
    slug. -/
theorem plugin_namespaces (namesOf : Text → ManifestNames) (others : ManifestRules) :
    (∀ m m', Accepted namesOf others m → Accepted namesOf others m' → m.slug ≠ m'.slug →
      (DisjointNames m.slug m'.slug ↔ ¬ Extends m.slug m'.slug ∧ ¬ Extends m'.slug m.slug) ∧
      ∀ kind name, kind ≠ .table → Accepts m.slug name kind → ¬ Accepts m'.slug name kind) ∧
    (∀ m, Accepted namesOf others m →
      (∀ kind, ∀ name ∈ listed namesOf m kind, Accepts m.slug name kind) ∧
      ∀ name, Accepts m.slug name .permission → isCoreSlug name = false) ∧
    (∀ pluginSlug bareSlug, isPluginSlug pluginSlug = true → isBareSlug bareSlug = true →
      ∃ parsed, (expandPluginPermissionSlug pluginSlug bareSlug).bind parsePluginPermissionSlug
       = some parsed ∧
        parsed.pluginSlug = pluginSlug ∧ parsed.bareSlug = bareSlug ∧
        parsed.action ++ ':' :: parsed.subjectPath = bareSlug) ∧
    (∀ slug parsed, parsePluginPermissionSlug slug = some parsed →
      expandPluginPermissionSlug parsed.pluginSlug parsed.bareSlug = some slug) ∧
    ∀ slug slug' parsed parsed', parsePluginPermissionSlug slug = some parsed →
      parsePluginPermissionSlug slug' = some parsed' → parsed.action = parsed'.action →
      pluginPermissionCaslSubject parsed = pluginPermissionCaslSubject parsed' →
      parsed.pluginSlug = parsed'.pluginSlug ∧ parsed.bareSlug = parsed'.bareSlug := by
 refine ⟨fun m m' hm hm' hne => ⟨?_, ?_⟩, fun m hm => ⟨?_, ?_⟩, ?_, ?_, ?_⟩
 · exact disjoint_iff hm.valid.slug hm'.valid.slug hne
 · intro kind name hkind hfirst hsecond
   exact hne (slug_of_name hkind hm.valid.slug hm'.valid.slug hfirst hsecond)
 · intro kind name hname
   exact hm.listed_accepts hname
 · intro name hname
   exact not_core_of_permission hname
 · intro pluginSlug bareSlug hslug hbare
   exact parse_expand hslug hbare
 · intro slug parsed hparsed
   exact expand_parse hparsed
 · intro slug slug' parsed parsed' hparsed hparsed' haction hsubject
   exact casl_injective hparsed hparsed' haction hsubject

end Namespaces

section Samples

def sampleManifest (slug table : String) : PluginManifest where
  slug := slug.toList
  version := "1.0.0".toList
  scope := .server
  declares := []
  checks := []
  outboundDomains := .configured
  writesCore := []
  configSchema := []
  requiresHouseholdConfig := false
  rest := table.toList

def sampleNames (rest : Text) : ManifestNames := ⟨[], [], [rest]⟩

def sampleRules : ManifestRules := ⟨fun _ _ => []⟩

theorem accepted_sample {m : PluginManifest}
  (h : (validatePluginManifest (namespaceRules sampleNames sampleRules)
   (.manifest m) true).toOption.isSome = true) :
  Accepted sampleNames sampleRules m := by
 cases hresult : validatePluginManifest (namespaceRules sampleNames sampleRules) (.manifest m) true with
 | error error =>
  rw [hresult] at h
  cases h
 | ok result => exact ⟨true, result, hresult⟩

theorem plugin_namespaces_sample :
    DisjointNames (sampleManifest "scores" "plugin_scores_rounds").slug
     (sampleManifest "ratings" "plugin_ratings_x").slug ↔
      ¬ Extends "scores".toList "ratings".toList ∧ ¬ Extends "ratings".toList "scores".toList :=
 ((plugin_namespaces sampleNames sampleRules).1 (sampleManifest "scores" "plugin_scores_rounds")
  (sampleManifest "ratings" "plugin_ratings_x")
  (accepted_sample (by decide +kernel)) (accepted_sample (by decide +kernel)) (by decide)).1

/-- The slugs `abc` and `abc-d` with one table. -/
theorem tables_shared :
    ¬ ∀ (namesOf : Text → ManifestNames) (others : ManifestRules) (m m' : PluginManifest),
      Accepted namesOf others m → Accepted namesOf others m' → m.slug ≠ m'.slug →
      ∀ kind, ∀ name ∈ listed namesOf m kind, name ∉ listed namesOf m' kind := by
 intro hclaim
 have hshort : Accepted sampleNames sampleRules (sampleManifest "abc" "plugin_abc_d_x") :=
  accepted_sample (by decide +kernel)
 have hlong : Accepted sampleNames sampleRules (sampleManifest "abc-d" "plugin_abc_d_x") :=
  accepted_sample (by decide +kernel)
 exact hclaim sampleNames sampleRules _ _ hshort hlong (by decide) .table _ (List.mem_singleton.2 rfl)
  (List.mem_singleton.2 rfl)

end Samples

end BoardGamesEmpire.ManifestNamespaces
