import BoardGamesEmpire.PluginStaticAnalysis

set_option autoImplicit false

/-!
# What the static gate accepts

The forbidden specifiers of an artifact, said without findings: what its own
code imports and what its author declared. The report names exactly these, so
the gate passes just for their acknowledgement.
-/
namespace BoardGamesEmpire.PluginStaticAnalysis
open JsText JsonText

section Tree

variable {ν : Type} {node value : Json ν} {s : Text}

inductive Occurs (node : Json ν) : Json ν → Prop where
  | here (hnode : isEstreeNode node = true) : Occurs node node
  | item {items : List (Json ν)} {item : Json ν} (hitem : item ∈ items) (h : Occurs node item) :
   Occurs node (.arr items)
  | member {members : List (Text × Json ν)} {key : Text} {value : Json ν}
   (hnode : isEstreeNode (.obj members) = true)
    (hmember : (key, value) ∈ members) (hkey : key ≠ "type".toList) (h : Occurs node value) :
     Occurs node (.obj members)

theorem occurs_walkable (h : Occurs node value) :
  isArray value = true ∨ isEstreeNode value = true := by
 cases h with
 | here hnode => exact .inr hnode
 | item _ _ => exact .inl rfl
 | member hnode _ _ _ => exact .inr hnode

theorem walkItems_eq (lexerSucceeded : Bool) (items : List (Json ν)) :
  walkItems lexerSucceeded items = items.flatMap (walk lexerSucceeded) := by
 induction items with
 | nil => rfl
 | cons item items ih => rw [walkItems, ih, List.flatMap_cons]

theorem walkMembers_eq (lexerSucceeded : Bool) (members : List (Text × Json ν)) :
  walkMembers lexerSucceeded members = members.flatMap (walkMember lexerSucceeded) := by
 induction members with
 | nil => rfl
 | cons member members ih => rw [walkMembers, ih, List.flatMap_cons]

theorem mem_walk (lexerSucceeded : Bool) (mention : Mention) (value : Json ν) :
  mention ∈ walk lexerSucceeded value ↔ ∃ node, Occurs node value ∧
   mention ∈ nodeMentions lexerSucceeded node := by
 have hleaf : ∀ leaf : Json ν, walk lexerSucceeded leaf = [] → (∀ node, ¬ Occurs node leaf) →
   (mention ∈ walk lexerSucceeded leaf ↔ ∃ node, Occurs node leaf ∧
    mention ∈ nodeMentions lexerSucceeded node) := by
  intro leaf hwalk hnone
  rw [hwalk]
  refine iff_of_false List.not_mem_nil ?_
  rintro ⟨node, hoccurs, -⟩
  exact hnone node hoccurs
 have hbare : ∀ {leaf node : Json ν}, isArray leaf = false → isEstreeNode leaf = false →
  ¬ Occurs node leaf := by
  intro leaf node harray hnode hoccurs
  rcases occurs_walkable hoccurs with h | h
  · rw [harray] at h
    cases h
  · rw [hnode] at h
    cases h
 induction value using Json.induction with
 | null => exact hleaf _ rfl fun _ => hbare rfl rfl
 | bool b => exact hleaf _ rfl fun _ => hbare rfl rfl
 | num n => exact hleaf _ rfl fun _ => hbare rfl rfl
 | str text => exact hleaf _ rfl fun _ => hbare rfl rfl
 | arr items ih =>
  rw [walk, walkItems_eq, List.mem_flatMap]
  constructor
  · rintro ⟨item, hitem, hmention⟩
    obtain ⟨node, hoccurs, hnode⟩ := (ih item hitem).1 hmention
    exact ⟨node, .item hitem hoccurs, hnode⟩
  · rintro ⟨node, hoccurs, hnode⟩
    cases hoccurs with
    | here hestree => cases hestree
    | item hitem hinner => exact ⟨_, hitem, (ih _ hitem).2 ⟨node, hinner, hnode⟩⟩
 | obj members ih =>
  by_cases hestree : isEstreeNode (.obj members) = true
  · rw [walk, if_pos hestree, List.mem_append, walkMembers_eq, List.mem_flatMap]
    constructor
    · rintro (hmention | ⟨⟨key, inner⟩, hmember, hmention⟩)
      · exact ⟨_, .here hestree, hmention⟩
      · rw [walkMember] at hmention
        split at hmention
        · next hwalk =>
          rw [Bool.and_eq_true, decide_eq_true_eq] at hwalk
          obtain ⟨node, hoccurs, hnode⟩ := (ih _ hmember).1 hmention
          exact ⟨node, .member hestree hmember hwalk.1 hoccurs, hnode⟩
        · cases hmention
    · rintro ⟨node, hoccurs, hnode⟩
      cases hoccurs with
      | here _ => exact .inl hnode
      | @member _ key inner _ hmember hkey hinner =>
       have hwalk : (key ≠ "type".toList && (isArray inner || isEstreeNode inner)) = true := by
        rw [Bool.and_eq_true, decide_eq_true_eq, Bool.or_eq_true]
        exact ⟨hkey, occurs_walkable hinner⟩
       refine .inr ⟨(key, inner), hmember, ?_⟩
       rw [walkMember, if_pos hwalk]
       exact (ih _ hmember).2 ⟨node, hinner, hnode⟩
  · have hfalse := Bool.eq_false_iff.2 hestree
    exact hleaf _ (by rw [walk, if_neg hestree]) fun _ => hbare rfl hfalse

end Tree

section Mentions

variable {ν : Type} {s : Text}

/-- The string literal that a `require` call has as its argument. -/
def requiredText (node : Json ν) :
    Option Text := if isRequireCall node then literalText (firstArgument node) else none

/-- The string literal that an import or export declaration or an `import()` names. -/
def importedText (node : Json ν) : Option Text :=
  if isStaticEsm node || isImportExpression node then literalText (property "source" node) else none

def Forbids (mentions : List Mention) (s : Text) :
    Prop := ∃ mention ∈ mentions, mention.specifier = some s ∧ mention.severity = .forbidden

theorem forbids_append {mentions more : List Mention} :
  Forbids (mentions ++ more) s ↔ Forbids mentions s ∨ Forbids more s := by
 simp only [Forbids, List.mem_append, or_and_right, exists_or]

theorem forbids_flatMap {α : Type} {l : List α} {f : α → List Mention} :
  Forbids (l.flatMap f) s ↔ ∃ x ∈ l, Forbids (f x) s := by
 constructor
 · rintro ⟨mention, hmem, h⟩
   obtain ⟨x, hx, hmention⟩ := List.mem_flatMap.1 hmem
   exact ⟨x, hx, mention, hmention, h⟩
 · rintro ⟨x, hx, mention, hmention, h⟩
   exact ⟨mention, List.mem_flatMap.2 ⟨x, hx, hmention⟩, h⟩

theorem not_forbids_nil : ¬ Forbids [] s := by
 rintro ⟨_, hmem, -⟩
 cases hmem

theorem not_forbids_unscreened (kind : FindingKind) : ¬ Forbids [unscreened kind] s := by
 rintro ⟨mention, hmem, hspecifier, -⟩
 rw [List.mem_singleton.1 hmem] at hspecifier
 cases hspecifier

theorem forbids_classify {kind : FindingKind} {specifier : Text} :
  Forbids (classify kind specifier) s ↔ classifyImportSpecifier s = some .forbidden ∧ specifier = s := by
 unfold classify
 cases hverdict : classifyImportSpecifier specifier with
 | none =>
  refine iff_of_false not_forbids_nil ?_
  rintro ⟨hforbidden, rfl⟩
  rw [hverdict] at hforbidden
  cases hforbidden
 | some verdict =>
  constructor
  · rintro ⟨mention, hmem, hspecifier, hseverity⟩
    rw [List.mem_singleton.1 hmem] at hspecifier hseverity
    cases hspecifier
    cases hseverity
    exact ⟨hverdict, rfl⟩
  · rintro ⟨hforbidden, rfl⟩
    rw [hverdict] at hforbidden
    cases hforbidden
    exact ⟨_, List.mem_singleton_self _, rfl, rfl⟩

theorem forbids_require (node : Json ν) :
  Forbids (requireMentions node) s ↔ classifyImportSpecifier s = some .forbidden ∧
   requiredText node = some s := by
 unfold requireMentions requiredText
 by_cases hrequire : isRequireCall node = true
 · rw [if_pos hrequire, if_pos hrequire]
   cases literalText (firstArgument node) with
   | none => exact iff_of_false (not_forbids_unscreened _) fun h => by cases h.2
   | some specifier => rw [Option.some_inj]; exact forbids_classify
 · rw [if_neg hrequire, if_neg hrequire]
   exact iff_of_false not_forbids_nil fun h => by cases h.2

theorem forbids_import (node : Json ν) :
  Forbids (importMentions node) s ↔ classifyImportSpecifier s = some .forbidden ∧
   importedText node = some s := by
 unfold importMentions importedText
 by_cases himport : (isStaticEsm node || isImportExpression node) = true
 · rw [if_pos himport, if_pos himport]
   cases literalText (property "source" node) with
   | none =>
    refine iff_of_false ?_ fun h => by cases h.2
    dsimp only
    split
    · exact not_forbids_unscreened _
    · exact not_forbids_nil
   | some specifier => rw [Option.some_inj]; exact forbids_classify
 · rw [if_neg himport, if_neg himport]
   exact iff_of_false not_forbids_nil fun h => by cases h.2

theorem forbids_lexed (entry : LexedImport) :
  Forbids (lexedMentions entry) s ↔ classifyImportSpecifier s = some .forbidden ∧ entry.d ≠ -2 ∧
   entry.n = some s := by
 unfold lexedMentions
 by_cases hmeta : entry.d = -2
 · rw [if_pos hmeta]
   exact iff_of_false not_forbids_nil fun h => h.2.1 hmeta
 · rw [if_neg hmeta]
   cases entry.n with
   | none =>
    refine iff_of_false ?_ fun h => by cases h.2.2
    dsimp only
    split
    · exact not_forbids_unscreened _
    · exact not_forbids_nil
   | some specifier =>
    rw [Option.some_inj]
    exact forbids_classify.trans (and_congr_right fun _ => (and_iff_right hmeta).symm)

/-- A file's own imports: what it requires, and what the lexer gives, or the
    syntax tree where the lexer failed. -/
def Imports (file : SourceFile ν) (s : Text) : Prop :=
  (∃ program, file.program = some program ∧ ∃ node, Occurs node program ∧ requiredText node = some s) ∨
  (∃ imports, file.lexed = some imports ∧ ∃ entry ∈ imports, entry.d ≠ -2 ∧ entry.n = some s) ∨
  (file.lexed = none ∧ ∃ program, file.program = some program ∧ ∃ node, Occurs node program ∧
   importedText node = some s)

theorem forbids_walk (lexerSucceeded : Bool) (program : Json ν) :
  Forbids (walk lexerSucceeded program) s ↔
  classifyImportSpecifier s = some .forbidden ∧
   ((∃ node, Occurs node program ∧ requiredText node = some s) ∨
   (lexerSucceeded = false ∧ ∃ node, Occurs node program ∧ importedText node = some s)) := by
 have hwalk : Forbids (walk lexerSucceeded program) s ↔ ∃ node, Occurs node program ∧
  Forbids (nodeMentions lexerSucceeded node) s := by
  constructor
  · rintro ⟨mention, hmem, h⟩
    obtain ⟨node, hoccurs, hnode⟩ := (mem_walk lexerSucceeded mention program).1 hmem
    exact ⟨node, hoccurs, mention, hnode, h⟩
  · rintro ⟨node, hoccurs, mention, hnode, h⟩
    exact ⟨mention, (mem_walk lexerSucceeded mention program).2 ⟨node, hoccurs, hnode⟩, h⟩
 rw [hwalk]
 simp only [nodeMentions, forbids_append, forbids_require]
 cases lexerSucceeded with
 | true =>
  simp only [↓reduceIte, not_forbids_nil, or_false, Bool.true_eq_false, false_and]
  constructor
  · rintro ⟨node, hoccurs, hforbidden, htext⟩
    exact ⟨hforbidden, node, hoccurs, htext⟩
  · rintro ⟨hforbidden, node, hoccurs, htext⟩
    exact ⟨node, hoccurs, hforbidden, htext⟩
 | false =>
  simp only [Bool.false_eq_true, ↓reduceIte, forbids_import, true_and]
  constructor
  · rintro ⟨node, hoccurs, ⟨hforbidden, htext⟩ | ⟨hforbidden, htext⟩⟩
    · exact ⟨hforbidden, .inl ⟨node, hoccurs, htext⟩⟩
    · exact ⟨hforbidden, .inr ⟨node, hoccurs, htext⟩⟩
  · rintro ⟨hforbidden, ⟨node, hoccurs, htext⟩ | ⟨node, hoccurs, htext⟩⟩
    · exact ⟨node, hoccurs, .inl ⟨hforbidden, htext⟩⟩
    · exact ⟨node, hoccurs, .inr ⟨hforbidden, htext⟩⟩

theorem forbids_file (source : Option (SourceFile ν)) : Forbids (fileMentions source) s ↔
  classifyImportSpecifier s = some .forbidden ∧ ∃ file, source = some file ∧ Imports file s := by
 cases source with
 | none => exact iff_of_false (not_forbids_unscreened _) fun ⟨_, _, hnone, _⟩ => by cases hnone
 | some file =>
  have hsome : (∃ file', some file = some file' ∧ Imports file' s) ↔ Imports file s := by simp
  rw [hsome, fileMentions, forbids_append, forbids_flatMap]
  have hlexed : (∃ entry ∈ file.lexed.getD [], Forbids (lexedMentions entry) s) ↔
   classifyImportSpecifier s = some .forbidden ∧
    ∃ imports, file.lexed = some imports ∧ ∃ entry ∈ imports, entry.d ≠ -2 ∧ entry.n = some s := by
   simp only [forbids_lexed]
   cases file.lexed with
   | none => simp
   | some imports =>
    constructor
    · rintro ⟨entry, hentry, hforbidden, h⟩
      exact ⟨hforbidden, imports, rfl, entry, hentry, h⟩
    · rintro ⟨hforbidden, imports', himports, entry, hentry, h⟩
      cases himports
      exact ⟨entry, hentry, hforbidden, h⟩
  have hprogram : Forbids (programMentions file.lexed.isSome file.program) s ↔
   classifyImportSpecifier s = some .forbidden ∧
    ((∃ program, file.program = some program ∧ ∃ node, Occurs node program ∧ requiredText node = some s) ∨
     (file.lexed = none ∧ ∃ program, file.program = some program ∧ ∃ node, Occurs node program ∧
      importedText node = some s)) := by
   cases file.program with
   | none => exact iff_of_false (not_forbids_unscreened _) (by simp)
   | some program => simp [programMentions, forbids_walk]
  rw [hlexed, hprogram, ← and_or_left, Imports, or_left_comm]

end Mentions

section OwnFiles

variable {ν : Type} {source : Option (SourceFile ν)} {s : Text}

/-- A scannable file of a tree outside `node_modules`, by what is read of it. -/
inductive OwnFile (source : Option (SourceFile ν)) : FileNode ν → Prop where
  | here {entries : List (Text × FileNode ν)} {name : Text} (hfile : (name, .file source) ∈ entries)
   (hname : scannable name = true) :
    OwnFile source (.directory true entries)
  | inside {entries inner : List (Text × FileNode ν)} {name : Text} {listed : Bool}
   (hdirectory : (name, .directory listed inner) ∈ entries)
    (hname : name ≠ nodeModules) (h : OwnFile source (.directory listed inner)) :
     OwnFile source (.directory true entries)

theorem FileNode.induction {motive : FileNode ν → Prop} (file : ∀ source, motive (.file source))
  (directory : ∀ listed entries, (∀ entry ∈ entries, motive entry.2) →
   motive (.directory listed entries)) (link : motive .link)
  (node : FileNode ν) : motive node := by
 apply @FileNode.rec ν motive (fun entries => ∀ entry ∈ entries, motive entry.2)
  (fun entry => motive entry.2) file directory link
 · simp
 · intro entry entries hentry hentries other hother
   cases List.mem_cons.1 hother with
   | inl h => rw [h]; exact hentry
   | inr h => exact hentries other h
 · intro name node hnode
   exact hnode

theorem collectEntries_files (intoNodeModules : Bool) (path : List Text)
  (entries : List (Text × FileNode ν)) :
  (collectEntries intoNodeModules path entries).files = entries.flatMap fun entry =>
   (collectEntry intoNodeModules path entry).files := by
 induction entries with
 | nil => rfl
 | cons entry rest ih => rw [collectEntries, CollectedFiles.append, ih, List.flatMap_cons]

theorem mem_collectFiles (source : Option (SourceFile ν)) (node : FileNode ν) : ∀ path : List Text,
  (∃ file, (file, source) ∈ (collectFiles false path node).files) ↔ OwnFile source node := by
 induction node using FileNode.induction with
 | file _ => exact fun path => iff_of_false (fun ⟨_, hmem⟩ => by cases hmem) fun hown => by cases hown
 | link => exact fun path => iff_of_false (fun ⟨_, hmem⟩ => by cases hmem) fun hown => by cases hown
 | directory listed entries ih =>
  intro path
  cases listed with
  | false => exact iff_of_false (fun ⟨_, hmem⟩ => by cases hmem) fun hown => by cases hown
  | true =>
   simp only [collectFiles, collectEntries_files, List.mem_flatMap]
   constructor
   · rintro ⟨file, ⟨name, inner⟩, hentry, hmem⟩
     cases inner with
     | link => cases hmem
     | file read =>
      have hmem' : (file, source) ∈ if scannable name then [(path ++ [name], read)] else [] := hmem
      split at hmem'
      · next hname =>
        cases List.mem_singleton.1 hmem'
        exact .here hentry hname
      · cases hmem'
     | directory listed inner =>
      simp only [collectEntry, isDirectory, ↓reduceIte] at hmem
      split at hmem
      · cases hmem
      · next hname =>
         exact .inside hentry (by simpa using hname) ((ih _ hentry (path ++ [name])).1 ⟨file, hmem⟩)
   · intro hown
     cases hown with
     | @here _ name hfile hname =>
      refine ⟨path ++ [name], (name, .file source), hfile, ?_⟩
      simp [collectEntry, isDirectory, scannedFile, hname]
     | @inside _ inner name listed hdirectory hname hinner =>
      obtain ⟨file, hmem⟩ := (ih _ hdirectory (path ++ [name])).2 hinner
      refine ⟨file, (name, .directory listed inner), hdirectory, ?_⟩
      simp only [collectEntry, isDirectory, ↓reduceIte]
      rw [if_neg (by simpa using hname)]
      exact hmem

end OwnFiles

section Reports

variable {ν : Type} {s : Text}

def Gates (findings : List Finding) (s : Text) :
    Prop := ∃ finding ∈ findings, isGatingFinding finding = true ∧ finding.specifier = some s

theorem gates_append {findings more : List Finding} :
  Gates (findings ++ more) s ↔ Gates findings s ∨ Gates more s := by
 simp only [Gates, List.mem_append, or_and_right, exists_or]

theorem gates_flatMap {α : Type} {l : List α} {f : α → List Finding} :
  Gates (l.flatMap f) s ↔ ∃ x ∈ l, Gates (f x) s := by
 constructor
 · rintro ⟨finding, hmem, h⟩
   obtain ⟨x, hx, hfinding⟩ := List.mem_flatMap.1 hmem
   exact ⟨x, hx, finding, hfinding, h⟩
 · rintro ⟨x, hx, finding, hfinding, h⟩
   exact ⟨finding, List.mem_flatMap.2 ⟨x, hx, hfinding⟩, h⟩

theorem isGatingFinding_iff {finding : Finding} :
  isGatingFinding finding = true ↔ finding.severity = .forbidden ∧ finding.scanScope = .default := by
 rw [isGatingFinding, Bool.and_eq_true, decide_eq_true_eq, decide_eq_true_eq]

theorem forbidden_ne_nil (h : classifyImportSpecifier s = some .forbidden) : s ≠ [] := by
 rintro rfl
 exact absurd h (by decide)

def Mention.Sound (mention : Mention) : Prop := ∀ specifier, mention.specifier = some specifier →
  classifyImportSpecifier specifier = some mention.severity

theorem sound_unscreened (kind : FindingKind) : (unscreened kind).Sound := fun _ h => by cases h

theorem sound_classify {kind : FindingKind} {specifier : Text} :
  ∀ mention ∈ classify kind specifier, mention.Sound := by
 intro mention hmem
 unfold classify at hmem
 split at hmem
 · next verdict hverdict =>
   rw [List.mem_singleton.1 hmem]
   intro _ h
   cases h
   exact hverdict
 · cases hmem

theorem sound_lexed (entry : LexedImport) : ∀ mention ∈ lexedMentions entry, mention.Sound := by
 intro mention hmem
 unfold lexedMentions at hmem
 split at hmem
 · cases hmem
 · split at hmem
   · exact sound_classify mention hmem
   · split at hmem
     · rw [List.mem_singleton.1 hmem]
       exact sound_unscreened _
     · cases hmem

theorem sound_require (node : Json ν) : ∀ mention ∈ requireMentions node, mention.Sound := by
 intro mention hmem
 unfold requireMentions at hmem
 split at hmem
 · split at hmem
   · exact sound_classify mention hmem
   · rw [List.mem_singleton.1 hmem]
     exact sound_unscreened _
 · cases hmem

theorem sound_import (node : Json ν) : ∀ mention ∈ importMentions node, mention.Sound := by
 intro mention hmem
 unfold importMentions at hmem
 split at hmem
 · split at hmem
   · exact sound_classify mention hmem
   · split at hmem
     · rw [List.mem_singleton.1 hmem]
       exact sound_unscreened _
     · cases hmem
 · cases hmem

theorem sound_file (source : Option (SourceFile ν)) :
  ∀ mention ∈ fileMentions source, mention.Sound := by
 intro mention hmem
 cases source with
 | none =>
  rw [List.mem_singleton.1 hmem]
  exact sound_unscreened _
 | some file =>
  rw [fileMentions, List.mem_append] at hmem
  rcases hmem with hlexed | hprogram
  · obtain ⟨entry, -, hmention⟩ := List.mem_flatMap.1 hlexed
    exact sound_lexed entry mention hmention
  · cases hparsed : file.program with
    | none =>
     rw [hparsed] at hprogram
     rw [List.mem_singleton.1 hprogram]
     exact sound_unscreened _
    | some program =>
     rw [hparsed] at hprogram
     obtain ⟨node, -, hmention⟩ := (mem_walk _ mention program).1 hprogram
     rcases List.mem_append.1 hmention with h | h
     · exact sound_require node mention h
     · split at h
       · cases h
       · exact sound_import node mention h

theorem gates_scanFile (file : List Text) (source : Option (SourceFile ν)) :
  Gates (scanFile file source .default) s ↔ Forbids (fileMentions source) s := by
 let entry := fun mention : Mention =>
  (findingIdentity (mention.finding file .default), mention.finding file .default)
 have hmem : ∀ finding, finding ∈ scanFile file source .default ↔
   ∃ key, mapGet ((fileMentions source).map entry) key = some finding := by
  intro finding
  simp only [scanFile, List.mem_map, Prod.exists, exists_eq_right, mem_mapEntries]
  rfl
 constructor
 · rintro ⟨finding, hfinding, hgating, hspecifier⟩
   obtain ⟨key, hget⟩ := (hmem finding).1 hfinding
   obtain ⟨mention, hmention, heq⟩ := List.mem_map.1 (mapGet_mem hget)
   cases heq
   exact ⟨mention, hmention, hspecifier, (isGatingFinding_iff.1 hgating).1⟩
 · rintro ⟨mention, hmention, hspecifier, hseverity⟩
   have hforbidden : classifyImportSpecifier s = some
    .forbidden := by rw [sound_file source mention hmention s hspecifier, hseverity]
   cases hget : mapGet ((fileMentions source).map entry) (entry mention).1 with
   | none => exact absurd (List.mem_map_of_mem hmention) (mapGet_none hget _)
   | some finding =>
    -- what stands under the key names the same specifier, so it is forbidden too
    obtain ⟨kept, hkept, heq⟩ := List.mem_map.1 (mapGet_mem hget)
    have hname : kept.specifier.getD [] = s := by
     have hkey := congrArg (fun pair => pair.1.2) heq
     simpa [entry, findingIdentity, Mention.finding, hspecifier] using hkey
    have hspecifier' : kept.specifier = some s := by
     cases hcase : kept.specifier with
     | none =>
      rw [hcase] at hname
      exact absurd hname.symm (forbidden_ne_nil hforbidden)
     | some specifier =>
      rw [hcase] at hname
      exact congrArg some hname
    have hverdict := sound_file source kept hkept s hspecifier'
    rw [hforbidden, Option.some_inj] at hverdict
    cases congrArg Prod.snd heq
    exact ⟨_, (hmem _).2 ⟨_, hget⟩, isGatingFinding_iff.2 ⟨hverdict.symm, rfl⟩, hspecifier'⟩

end Reports

section Declared

variable {ν : Type} {s : Text}

/-- A package.json declares a package: as the key or the alias target of an entry
    of a gating field, or in its bundle list. -/
def Declares (packageJson : List (Text × Json ν)) (s : Text) : Prop :=
  (∃ field ∈ gatingDependencyFields, ∃ entries, packageJson.lookup field = some (.obj entries) ∧
    ∃ entry ∈ entries, entry.1 = s ∨ aliasOf entry.2 = some s) ∨
  ∃ names, bundledField packageJson = some (.arr names) ∧ .str s ∈ names

theorem mem_fieldNames {field : Text} {packageJson : List (Text × Json ν)} :
  s ∈ fieldNames field packageJson ↔
  ∃ entries, packageJson.lookup field = some (.obj entries) ∧ ∃ entry ∈ entries, entry.1 = s ∨
   aliasOf entry.2 = some s := by
 unfold fieldNames
 split
 · next entries hlookup =>
   simp only [hlookup, Option.some_inj, Json.obj.injEq, exists_eq_left', List.mem_flatMap,
    List.mem_cons, Option.mem_toList,
    eq_comm (a := s)]
 · next hother =>
   refine iff_of_false List.not_mem_nil ?_
   rintro ⟨entries, hlookup, -⟩
   exact hother entries hlookup

theorem mem_bundledNames {packageJson : List (Text × Json ν)} :
  s ∈ bundledNames packageJson ↔ ∃ names, bundledField packageJson = some (.arr names) ∧
   .str s ∈ names := by
 unfold bundledNames
 split
 · next names hbundled =>
   rw [hbundled, List.mem_filterMap]
   constructor
   · rintro ⟨name, hname, htext⟩
     cases name with
     | str text =>
      cases htext
      exact ⟨names, rfl, hname⟩
     | null => cases htext
     | bool _ => cases htext
     | num _ => cases htext
     | arr _ => cases htext
     | obj _ => cases htext
   · rintro ⟨names', hnames, hmem⟩
     cases hnames
     exact ⟨.str s, hmem, rfl⟩
 · next hother =>
   refine iff_of_false List.not_mem_nil ?_
   rintro ⟨names, hbundled, -⟩
   exact hother names hbundled

/-- What the calls of `screen` so far leave: every entry is the finding of a call
    that named a forbidden package, and a gating call left a gating entry. -/
structure Screened (screens : List Screen)
    (sets : List ((List Text × FindingKind × Text) × Finding)) : Prop where
  source : ∀ entry ∈ sets, ∃ screen ∈ screens, entry = (screen.identity, screen.finding) ∧
    classifyImportSpecifier screen.packageName = some .forbidden
  gating : ∀ screen ∈ screens, classifyImportSpecifier screen.packageName = some .forbidden →
   screen.severity = .forbidden →
    ∃ finding, mapGet sets screen.identity = some finding ∧ finding.severity = .forbidden

theorem screened_step {screens : List Screen}
  {sets : List ((List Text × FindingKind × Text) × Finding)} (h : Screened screens sets)
  (screen : Screen) : Screened (screens ++ [screen]) (screenName sets screen) := by
 have hsource :
  ∀ entry ∈ sets, ∃ screen' ∈ screens ++ [screen], entry = (screen'.identity, screen'.finding) ∧
   classifyImportSpecifier screen'.packageName = some .forbidden := by
  intro entry hentry
  obtain ⟨screen', hscreen', hrest⟩ := h.source entry hentry
  exact ⟨screen', List.mem_append_left _ hscreen', hrest⟩
 unfold screenName
 by_cases hverdict : classifyImportSpecifier screen.packageName = some .forbidden
 · rw [if_neg (not_not.2 hverdict)]
   by_cases hstands : (mapGet sets screen.identity).any (·.severity = .forbidden) = true
   · rw [if_pos hstands]
     refine ⟨hsource, ?_⟩
     intro screen' hscreen' hforbidden hseverity
     rcases List.mem_append.1 hscreen' with hold | hnew
     · exact h.gating screen' hold hforbidden hseverity
     · rw [List.mem_singleton.1 hnew]
       cases hget : mapGet sets screen.identity with
       | none =>
        rw [hget] at hstands
        cases hstands
       | some finding =>
        rw [hget] at hstands
        exact ⟨finding, rfl, of_decide_eq_true hstands⟩
   · rw [if_neg hstands]
     constructor
     · intro entry hentry
       rcases List.mem_append.1 hentry with hold | hnew
       · exact hsource entry hold
       · exact ⟨screen, List.mem_append_right _ (List.mem_singleton_self _),
          List.mem_singleton.1 hnew, hverdict⟩
     · intro screen' hscreen' hforbidden hseverity
       rw [mapGet_concat]
       rcases List.mem_append.1 hscreen' with hold | hnew
       · obtain ⟨finding, hget, hfinding⟩ := h.gating screen' hold hforbidden hseverity
         -- what stands as forbidden is not set again
         have hother : screen.identity ≠ screen'.identity := by
          intro heq
          rw [heq, hget] at hstands
          exact hstands (by simpa using hfinding)
         rw [if_neg hother]
         exact ⟨finding, hget, hfinding⟩
       · rw [List.mem_singleton.1 hnew] at hseverity ⊢
         rw [if_pos rfl]
         exact ⟨_, rfl, hseverity⟩
 · rw [if_pos hverdict]
   refine ⟨hsource, ?_⟩
   intro screen' hscreen' hforbidden hseverity
   rcases List.mem_append.1 hscreen' with hold | hnew
   · exact h.gating screen' hold hforbidden hseverity
   · rw [List.mem_singleton.1 hnew] at hforbidden
     exact absurd hforbidden hverdict

theorem screened_run (screens : List Screen) : Screened screens (screens.foldl screenName []) := by
 induction screens using List.reverseRecOn with
 | nil =>
  constructor
  · intro _ h
    cases h
  · intro _ h
    cases h
 | append_singleton screens screen ih =>
  rw [List.foldl_append]
  exact screened_step ih screen

theorem gates_screens (screens : List Screen) :
  Gates ((mapEntries (screens.foldl screenName [])).map Prod.snd) s ↔
  classifyImportSpecifier s = some .forbidden ∧ ∃ screen ∈ screens, screen.packageName = s ∧
   isGatingFinding screen.finding = true := by
 have hrun := screened_run screens
 constructor
 · rintro ⟨finding, hmem, hgating, hspecifier⟩
   obtain ⟨⟨key, finding'⟩, hentry, rfl⟩ := List.mem_map.1 hmem
   obtain ⟨screen, hscreen, heq, hverdict⟩ := hrun.source _ (mapGet_mem (mem_mapEntries.1 hentry))
   cases heq
   cases hspecifier
   exact ⟨hverdict, screen, hscreen, rfl, hgating⟩
 · rintro ⟨hverdict, screen, hscreen, rfl, hgating⟩
   obtain ⟨finding, hget, hseverity⟩ :=
    hrun.gating screen hscreen hverdict (isGatingFinding_iff.1 hgating).1
   obtain ⟨screen', hscreen', heq, -⟩ := hrun.source _ (mapGet_mem hget)
   have hname : screen.packageName = screen'.packageName := congrArg (fun entry => entry.1.2.2) heq
   refine ⟨finding, List.mem_map.2 ⟨_, mem_mapEntries.2 hget, rfl⟩, ?_⟩
   cases congrArg Prod.snd heq
   exact ⟨isGatingFinding_iff.2 ⟨hseverity, rfl⟩, congrArg some hname.symm⟩

theorem gating_packageScreens (packageJson : List (Text × Json ν)) :
  (∃ screen ∈ packageScreens (some (.obj packageJson)), screen.packageName = s ∧
   isGatingFinding screen.finding = true) ↔
   Declares packageJson s := by
 have hfield : ∀ (field : Text) (severity : Severity) (screen : Screen),
   screen ∈ (fieldNames field packageJson).map
    (fun name => (⟨name, packageJsonFile, .declaredDependency, severity⟩ : Screen)) ↔
    screen.packageName ∈ fieldNames field packageJson ∧
     screen = ⟨screen.packageName, packageJsonFile, .declaredDependency, severity⟩ := by
  intro field severity screen
  rw [List.mem_map]
  constructor
  · rintro ⟨name, hname, rfl⟩
    exact ⟨hname, rfl⟩
  · rintro ⟨hname, heq⟩
    exact ⟨_, hname, heq.symm⟩
 constructor
 · rintro ⟨screen, hscreen, rfl, hgating⟩
   rcases List.mem_append.1 hscreen with hfields | hbundled
   · rcases List.mem_append.1 hfields with hinstalled | hadvisory
     · obtain ⟨field, hmem, hname⟩ := List.mem_flatMap.1 hinstalled
       exact .inl ⟨field, hmem, mem_fieldNames.1 ((hfield field .forbidden screen).1 hname).1⟩
     · obtain ⟨field, -, hname⟩ := List.mem_flatMap.1 hadvisory
       rw [((hfield field .warning screen).1 hname).2] at hgating
       cases hgating
   · obtain ⟨name, hname, rfl⟩ := List.mem_map.1 hbundled
     exact .inr (mem_bundledNames.1 hname)
 · rintro (⟨field, hmem, hname⟩ | hbundled)
   · refine ⟨⟨s, packageJsonFile, .declaredDependency, .forbidden⟩, ?_, rfl, rfl⟩
     refine List.mem_append_left _ (List.mem_append_left _ (List.mem_flatMap.2 ⟨field, hmem, ?_⟩))
     exact (hfield field .forbidden _).2 ⟨mem_fieldNames.2 hname, rfl⟩
   · refine ⟨⟨s, packageJsonFile, .declaredDependency, .forbidden⟩, ?_, rfl, rfl⟩
     exact List.mem_append_right _ (List.mem_map_of_mem (mem_bundledNames.2 hbundled))

theorem gates_dependencies (artifact : Artifact ν) : Gates (screenDependencies artifact) s ↔
  classifyImportSpecifier s = some .forbidden ∧
   ∃ packageJson, artifact.packageJson = some (.obj packageJson) ∧
   Declares packageJson s := by
 rw [screenDependencies, gates_screens]
 refine and_congr_right fun _ => ?_
 constructor
 · rintro ⟨screen, hscreen, hname, hgating⟩
   rcases List.mem_append.1 hscreen with hpackage | hlockfile
   · unfold packageScreens at hpackage
     split at hpackage
     · next packageJson hread => exact ⟨packageJson, hread,
        (gating_packageScreens packageJson).1 ⟨screen, hpackage, hname, hgating⟩⟩
     · cases hpackage
   · obtain ⟨name, -, rfl⟩ := List.mem_map.1 hlockfile
     cases hgating
 · rintro ⟨packageJson, hread, hdeclares⟩
   obtain ⟨screen, hpackage, hrest⟩ := (gating_packageScreens packageJson).2 hdeclares
   refine ⟨screen, List.mem_append_left _ ?_, hrest⟩
   rw [hread]
   exact hpackage

end Declared

section Gate

variable {ν : Type} {s : Text}

/-- Every gating specifier seen so far is among the findings kept, and the caps
    count a specifier only once it is. -/
structure Capped (findings : List Finding) (caps : Caps) : Prop where
  source : ∀ finding ∈ caps.kept, finding ∈ findings
  counted : ∀ s ≠ [], (mapGet caps.examplesPerSpecifier s).isSome = true → Gates caps.kept s
  gating : ∀ s ≠ [], Gates findings s → Gates caps.kept s

theorem gates_singleton {finding : Finding} :
  Gates [finding] s ↔ isGatingFinding finding = true ∧ finding.specifier = some s := by
 simp only [Gates, List.mem_singleton, exists_eq_left]

theorem capped_step {findings : List Finding} {caps : Caps} (h : Capped findings caps)
  (finding : Finding) :
  Capped (findings ++ [finding]) (capFinding caps finding) := by
 have hsource : ∀ kept ∈ caps.kept, kept ∈ findings ++ [finding] := fun kept hkept =>
  List.mem_append_left _ (h.source kept hkept)
 have hsource' : ∀ kept ∈ caps.kept ++ [finding], kept ∈ findings ++ [finding] := by
  intro kept hkept
  rcases List.mem_append.1 hkept with hold | hnew
  · exact hsource kept hold
  · exact List.mem_append_right _ hnew
 -- once the finding is kept, what the findings gate is kept with it
 have hkeeps : ∀ s ≠ [], Gates (findings ++ [finding]) s → Gates (caps.kept ++ [finding]) s := by
  intro s hs hgates
  rw [gates_append] at hgates ⊢
  exact hgates.imp_left (h.gating s hs)
 unfold capFinding
 by_cases hgating : isGatingFinding finding = true
 · simp only [hgating, ↓reduceIte]
   split
   · refine ⟨hsource', ?_, hkeeps⟩
     intro s hs hcounted
     rw [gates_append]
     rw [mapGet_concat] at hcounted
     by_cases hkey : finding.specifier.getD [] = s
     · cases hspecifier : finding.specifier with
       | none =>
        rw [hspecifier] at hkey
        exact absurd hkey.symm hs
       | some specifier =>
        rw [hspecifier] at hkey
        exact .inr (gates_singleton.2 ⟨hgating, by rw [hspecifier, ← hkey]; rfl⟩)
     · rw [if_neg hkey] at hcounted
       exact .inl (h.counted s hs hcounted)
   · next hfull =>
     refine ⟨hsource, h.counted, ?_⟩
     intro s hs hgates
     rcases gates_append.1 hgates with hold | hnew
     · exact h.gating s hs hold
     · -- its examples are full, so one of them is kept
       rw [(gates_singleton.1 hnew).2, Option.getD_some] at hfull
       apply h.counted s hs
       cases hget : mapGet caps.examplesPerSpecifier s with
       | none =>
        rw [hget] at hfull
        exact absurd (by decide) hfull
       | some _ => rfl
 · have hnone : ∀ s, Gates (findings ++ [finding]) s → Gates findings s := by
    intro s hgates
    rcases gates_append.1 hgates with hold | hnew
    · exact hold
    · exact absurd (gates_singleton.1 hnew).1 hgating
   rw [if_neg hgating]
   split
   · exact ⟨hsource', fun s hs hcounted => gates_append.2 (.inl (h.counted s hs hcounted)), hkeeps⟩
   · exact ⟨hsource, h.counted, fun s hs hgates => h.gating s hs (hnone s hgates)⟩

theorem capped_run (findings : List Finding) : Capped findings (applyCaps findings) := by
 unfold applyCaps
 induction findings using List.reverseRecOn with
 | nil =>
  constructor
  · intro _ h
    cases h
  · intro _ _ h
    cases h
  · rintro _ _ ⟨_, h, -⟩
    cases h
 | append_singleton findings finding ih =>
  rw [List.foldl_append]
  exact capped_step ih finding

theorem gates_applyCaps (findings : List Finding)
  (hverdict : Gates findings s → classifyImportSpecifier s = some .forbidden) :
  Gates (applyCaps findings).kept s ↔ Gates findings s := by
 have hrun := capped_run findings
 constructor
 · rintro ⟨finding, hkept, h⟩
   exact ⟨finding, hrun.source finding hkept, h⟩
 · exact fun hgates => hrun.gating s (forbidden_ne_nil (hverdict hgates)) hgates

theorem not_gates_unreadable (directories : List (List Text)) (scanScope : ScanScope) :
  ¬ Gates (unreadableDirectoryFindings directories scanScope) s := by
 rintro ⟨finding, hmem, hgating, -⟩
 obtain ⟨directory, -, rfl⟩ := List.mem_map.1 hmem
 cases hgating

theorem scanScope_scanFile {file : List Text} {source : Option (SourceFile ν)}
  {scanScope : ScanScope} :
  ∀ finding ∈ scanFile file source scanScope, finding.scanScope = scanScope := by
 intro finding hmem
 obtain ⟨⟨key, _⟩, hentry, rfl⟩ := List.mem_map.1 hmem
 obtain ⟨mention, -, heq⟩ := List.mem_map.1 (mapGet_mem (mem_mapEntries.1 hentry))
 cases heq
 rfl

theorem dedupeFinding_mem {deduped : List ((FindingKind × Text) × Finding)} {finding : Finding}
  {entry : (FindingKind × Text) × Finding} (h : entry ∈ dedupeFinding deduped finding) :
   entry ∈ deduped ∨ entry.2 = finding := by
 unfold dedupeFinding at h
 split at h
 · exact .inl h
 · split at h
   · exact .inl h
   · refine (List.mem_append.1 h).imp_right fun hnew => ?_
     rw [List.mem_singleton.1 hnew]

theorem not_gates_deep (files : List (List Text × Option (SourceFile ν))) :
  ¬ Gates (deepFindings files) s := by
 have hdeep : ∀ entry ∈ (files.flatMap fun file => scanFile file.1 file.2 .deep).foldl dedupeFinding
  [], entry.2.scanScope = .deep := by
  apply List.foldlRecOn (motive := fun deduped : List ((FindingKind × Text) × Finding) =>
   ∀ entry ∈ deduped, entry.2.scanScope = ScanScope.deep)
  · intro _ h
    cases h
  · intro deduped hdeduped finding hfinding entry hentry
    rcases dedupeFinding_mem hentry with hold | hnew
    · exact hdeduped entry hold
    · obtain ⟨file, -, hscanned⟩ := List.mem_flatMap.1 hfinding
      rw [hnew]
      exact scanScope_scanFile finding hscanned
 rintro ⟨finding, hmem, hgating, -⟩
 obtain ⟨entry, hentry, rfl⟩ := List.mem_map.1 hmem
 have hdefault := (isGatingFinding_iff.1 hgating).2
 rw [hdeep entry hentry] at hdefault
 cases hdefault

/-- The forbidden specifiers of an artifact, said of its files and its package.json. -/
def Forbidden (artifact : Artifact ν) (s : Text) : Prop :=
  classifyImportSpecifier s = some .forbidden ∧
    ((∃ file, OwnFile (some file) artifact.root ∧ Imports file s) ∨
      ∃ packageJson, artifact.packageJson = some (.obj packageJson) ∧ Declares packageJson s)

theorem gates_files (root : FileNode ν) (path : List Text) :
  Gates ((collectFiles false path root).files.flatMap fun file => scanFile file.1 file.2 .default) s ↔
   classifyImportSpecifier s = some .forbidden ∧ ∃ file, OwnFile (some file) root ∧ Imports file s := by
 rw [gates_flatMap]
 simp only [gates_scanFile, forbids_file]
 constructor
 · rintro ⟨⟨path', source⟩, hmem, hverdict, file, rfl, himports⟩
   exact ⟨hverdict, file, (mem_collectFiles (some file) root path).1 ⟨path', hmem⟩, himports⟩
 · rintro ⟨hverdict, file, hown, himports⟩
   obtain ⟨path', hmem⟩ := (mem_collectFiles (some file) root path).2 hown
   exact ⟨(path', some file), hmem, hverdict, file, rfl, himports⟩

theorem gates_analyze (artifact : Artifact ν) (deepScan : Bool) :
  Gates (analyze artifact deepScan).findings s ↔ Forbidden artifact s := by
 have hdeep : ∀ deep : CollectedFiles ν, ¬ Gates (if deepScan then
   deepFindings deep.files ++ unreadableDirectoryFindings deep.unreadableDirectories .deep else []) s := by
  intro deep hgates
  split at hgates
  · exact (gates_append.1 hgates).elim (not_gates_deep deep.files)
     (not_gates_unreadable deep.unreadableDirectories .deep)
  · obtain ⟨_, hmem, -⟩ := hgates
    cases hmem
 have hfindings : ∀ (collected deep : CollectedFiles ν), collected = collectFiles false [] artifact.root →
   (Gates ((collected.files.flatMap fun file => scanFile file.1 file.2 .default) ++
    unreadableDirectoryFindings collected.unreadableDirectories .default ++ screenDependencies artifact ++
    if deepScan then deepFindings deep.files ++ unreadableDirectoryFindings
     deep.unreadableDirectories .deep else []) s ↔
    Forbidden artifact s) := by
  rintro collected deep rfl
  simp only [gates_append, gates_files, gates_dependencies, not_gates_unreadable, hdeep, or_false,
   ← and_or_left]
  rfl
 exact (gates_applyCaps _ fun hgates => ((hfindings _ _ rfl).1 hgates).1).trans (hfindings _ _ rfl)

theorem mem_reported (artifact : Artifact ν) (deepScan : Bool) (acknowledged : List Text) :
  s ∈ (resolveForbiddenSpecifierAcknowledgement (gatingFindings (analyze artifact deepScan))
   acknowledged).reported ↔
   Forbidden artifact s := by
 rw [← gates_analyze artifact deepScan]
 simp only [resolveForbiddenSpecifierAcknowledgement, (sortTexts_perm _).mem_iff,
  List.mem_eraseDups, List.mem_filterMap, Gates,
  gatingFindings, List.mem_filter, and_assoc]

theorem sorted_congr {texts texts' : List Text} (h : ∀ s, s ∈ texts ↔ s ∈ texts') :
  sortTexts texts.eraseDups = sortTexts texts'.eraseDups := by
 apply sortTexts_congr
 rw [List.perm_ext_iff_of_nodup (nodup_eraseDups texts) (nodup_eraseDups texts')]
 intro s
 rw [List.mem_eraseDups, List.mem_eraseDups, h]

theorem filter_notContains_nil {texts others : List Text} :
  (texts.filter fun s => !others.contains s) = [] ↔ ∀ s ∈ texts, s ∈ others := by
 rw [List.filter_eq_nil_iff]
 simp

theorem resolveForbiddenAcknowledgement_ok {gating : List Finding} {acknowledged : List Text} :
  (∃ accepted, resolveForbiddenAcknowledgement gating acknowledged = .ok accepted) ↔
   ∀ s, s ∈ acknowledged ↔
    s ∈ (resolveForbiddenSpecifierAcknowledgement gating acknowledged).reported := by
 let resolution := resolveForbiddenSpecifierAcknowledgement gating acknowledged
 have hreceived : ∀ s, s ∈ sortTexts acknowledged.eraseDups ↔ s ∈ acknowledged := by
  intro s
  rw [(sortTexts_perm _).mem_iff, List.mem_eraseDups]
 have hunexpected : resolution.unexpected = [] ↔ ∀ s ∈ acknowledged, s ∈ resolution.reported :=
  filter_notContains_nil.trans (forall_congr' fun s => imp_congr_left (hreceived s))
 have hunacknowledged : resolution.unacknowledged = [] ↔ ∀ s ∈ resolution.reported, s ∈ acknowledged :=
  filter_notContains_nil.trans (forall_congr' fun s => imp_congr_right fun _ => hreceived s)
 have hboth : (∀ s, s ∈ acknowledged ↔ s ∈ resolution.reported) ↔ resolution.unexpected = [] ∧
  resolution.unacknowledged = [] := by
  rw [hunexpected, hunacknowledged]
  exact ⟨fun h => ⟨fun s => (h s).1, fun s => (h s).2⟩, fun h s => ⟨h.1 s, h.2 s⟩⟩
 rw [hboth, resolveForbiddenAcknowledgement]
 constructor
 · rintro ⟨accepted, haccepted⟩
   split at haccepted
   · cases haccepted
   · next hun =>
     split at haccepted
     · cases haccepted
     · next hack => exact ⟨not_not.1 hun, not_not.1 hack⟩
 · rintro ⟨hun, hack⟩
   exact ⟨resolution.reported, by rw [if_neg (not_not.2 hun), if_neg (not_not.2 hack)]⟩

/-- The gate passes exactly for the acknowledgement of the forbidden specifiers, the
    report names these, and nothing else of the artifact or the scan decides either. -/
theorem staticGate_exact (artifact : Artifact ν) (deepScan : Bool) (acknowledged : List Text) :
    ((∃ accepted, staticGate artifact deepScan acknowledged = .ok accepted) ↔
     ∀ s, s ∈ acknowledged ↔ Forbidden artifact s) ∧
    (∀ s, s ∈ (resolveForbiddenSpecifierAcknowledgement (gatingFindings (analyze artifact deepScan))
     acknowledged).reported ↔
      Forbidden artifact s) ∧
    ∀ (artifact' : Artifact ν) (deepScan' : Bool), (∀ s, Forbidden artifact' s ↔ Forbidden artifact s) →
      resolveForbiddenSpecifierAcknowledgement (gatingFindings (analyze artifact' deepScan'))
       acknowledged =
        resolveForbiddenSpecifierAcknowledgement (gatingFindings (analyze artifact deepScan))
         acknowledged ∧
      (staticGate artifact' deepScan' acknowledged).toOption =
       (staticGate artifact deepScan acknowledged).toOption := by
 refine ⟨?_, fun s => mem_reported artifact deepScan acknowledged, ?_⟩
 · rw [staticGate, resolveForbiddenAcknowledgement_ok]
   exact forall_congr' fun s => by rw [mem_reported artifact deepScan acknowledged]
 · intro artifact' deepScan' hsame
   have hreported :
    (resolveForbiddenSpecifierAcknowledgement (gatingFindings (analyze artifact' deepScan'))
     acknowledged).reported =
     (resolveForbiddenSpecifierAcknowledgement (gatingFindings (analyze artifact deepScan))
      acknowledged).reported := by
    apply sorted_congr
    intro s
    have hnames := (mem_reported artifact' deepScan' acknowledged).trans
     ((hsame s).trans (mem_reported artifact deepScan acknowledged).symm)
    simpa only [resolveForbiddenSpecifierAcknowledgement, (sortTexts_perm _).mem_iff,
     List.mem_eraseDups] using hnames
   have hresolution : resolveForbiddenSpecifierAcknowledgement
    (gatingFindings (analyze artifact' deepScan')) acknowledged =
     resolveForbiddenSpecifierAcknowledgement (gatingFindings (analyze artifact deepScan))
      acknowledged := by
    simp only [resolveForbiddenSpecifierAcknowledgement] at hreported ⊢
    rw [hreported]
   refine ⟨hresolution, ?_⟩
   simp only [staticGate, resolveForbiddenAcknowledgement, hresolution]
   split
   · rfl
   · split
     · rfl
     · rfl

end Gate

end BoardGamesEmpire.PluginStaticAnalysis
