import BoardGamesEmpire.PluginEntrypoint

set_option autoImplicit false

/-!
# An imported module lies in its artifact

What the loader's checks of paths say of names, and what they say together: the
importer is handed a path inside the artifact that the row names.
-/
namespace BoardGamesEmpire.PluginEntrypoint
open JsText JsonText LinkedTree Manifest SeparatedText
open LocalDisk (Path joined relative resolve)

section Names

variable {p c : Path}

structure IsName (name : Text) : Prop where
  nonempty : name ≠ []
  notHere : name ≠ ".".toList
  notParent : name ≠ "..".toList
  noSlash : '/' ∉ name

theorem relative_cases (p c : Path) :
  (∃ rest, c = p ++ rest ∧ relative p c = rest) ∨
   (¬ p <+: c ∧ ∃ tail, relative p c = "..".toList :: tail) := by
 induction p generalizing c with
 | nil => exact .inl ⟨c, rfl, by cases c <;> rfl⟩
 | cons a p ih =>
  cases c with
  | nil => exact .inr ⟨fun h => (List.cons_ne_nil _ _) (List.prefix_nil.1 h), _, rfl⟩
  | cons b c =>
   rw [relative]
   split
   · next heq =>
     subst heq
     refine (ih c).imp ?_ ?_
     · rintro ⟨rest, hc, hrelative⟩
       exact ⟨rest, by rw [hc]; rfl, hrelative⟩
     · rintro ⟨hout, htail⟩
       exact ⟨fun h => hout (List.cons_prefix_cons.1 h).2, htail⟩
   · next hne => exact .inr ⟨fun h => hne (List.cons_prefix_cons.1 h).1, _, rfl⟩

theorem joined_cons (name : Text) (names : Path) :
  joined (name :: names) = name ∨ ∃ s, joined (name :: names) = name ++ '/' :: s := by
 cases names with
 | nil => exact .inl (by simp [joined, List.intercalate])
 | cons next names => exact .inr ⟨joined (next :: names), by simp [joined, List.intercalate]⟩

theorem escapes_parent (tail : Path) : escapes (joined ("..".toList :: tail)) = true := by
 rcases joined_cons "..".toList tail with h | ⟨s, h⟩
 · rw [h]
   rfl
 · rw [h]
   rfl

theorem isContained_extends (h : isContained p c = true) : ∃ rest, rest ≠ [] ∧ c = p ++ rest := by
 rw [isContained, Bool.and_eq_true, Bool.not_eq_true'] at h
 rcases relative_cases p c with ⟨rest, hc, hrelative⟩ | ⟨-, tail, hrelative⟩
 · refine ⟨rest, ?_, hc⟩
   rintro rfl
   rw [hrelative] at h
   cases h.1
 · rw [hrelative, escapes_parent] at h
   cases h.1

theorem splitOn_joined {names : Path} (h : ∀ name ∈ names, IsName name) (hne : names ≠ []) :
  (joined names).splitOn '/' = names :=
 List.splitOn_intercalate '/' (fun name hname => (h name hname).noSlash) hne

theorem isContained_iff (hc : ∀ name ∈ c, IsName name) :
  isContained p c = true ↔ p <+: c ∧ p ≠ c := by
 constructor
 · intro h
   obtain ⟨rest, hne, rfl⟩ := isContained_extends h
   exact ⟨List.prefix_append p rest, fun heq => hne (List.append_right_eq_self.1 heq.symm)⟩
 · rintro ⟨⟨rest, rfl⟩, hne⟩
   have hrest : rest ≠ [] := fun hnil => hne (by rw [hnil, List.append_nil])
   have hnames : ∀ name ∈ rest, IsName name := fun name hname => hc name (List.mem_append_right _ hname)
   have hrelative : relative p (p ++ rest) = rest := by
    rcases relative_cases p (p ++ rest) with ⟨rest', heq, h⟩ | ⟨hout, -⟩
    · rw [h, List.append_cancel_left heq]
    · exact absurd (List.prefix_append p rest) hout
   have hsplit := splitOn_joined hnames hrest
   rw [isContained, hrelative, Bool.and_eq_true, Bool.not_eq_true', Bool.not_eq_true']
   -- a first piece that is blank or a parent's would be a name
   have hpiece : ∀ piece pieces, (joined rest).splitOn '/' = piece :: pieces → IsName piece := by
    intro piece pieces h
    exact hnames piece (by rw [← hsplit, h]; exact List.mem_cons_self)
   constructor
   · rw [escapes, Bool.or_eq_false_iff, Bool.or_eq_false_iff, decide_eq_false_iff_not,
      decide_eq_false_iff_not, Bool.eq_false_iff]
     refine ⟨⟨fun hnil => ?_, fun hparent => ?_⟩, fun hprefixed => ?_⟩
     · exact (hpiece [] [] (by rw [hnil]; rfl)).nonempty rfl
     · exact (hpiece "..".toList [] (by rw [hparent]; decide)).notParent rfl
     · obtain ⟨s, hs⟩ := List.isPrefixOf_iff_prefix.1 hprefixed
       have hpieces : (joined rest).splitOn '/' = "..".toList :: s.splitOn '/' := by
        rw [← hs]
        exact List.splitOn_append_cons_self_of_not_mem (show '/' ∉ "..".toList by decide) s
       exact (hpiece _ _ hpieces).notParent rfl
   · rw [isAbsolute, decide_eq_false_iff_not]
     intro hhead
     obtain ⟨s, hs⟩ := List.head?_eq_some_iff.1 hhead
     exact (hpiece [] (s.splitOn '/') (by rw [hs, splitOn_cons_self])).nonempty rfl

theorem join_names {base parts : Path} (h : ∀ part ∈ parts, IsName part) :
  join base parts = base ++ parts := by
 induction parts generalizing base with
 | nil => exact (List.append_nil base).symm
 | cons part parts ih =>
  obtain ⟨hpart, hparts⟩ := List.forall_mem_cons.1 h
  have hone : join base (part :: parts) = join (base ++ [part]) parts := by
   simp only [join, List.foldl_cons, splitOn_absent hpart.noSlash, List.foldl_nil, hpart.nonempty,
    hpart.notHere, hpart.notParent,
    or_self, ↓reduceIte]
  rw [hone, ih hparts, List.append_assoc]
  rfl

theorem isName_slug {slug : Text} (h : isPluginSlug slug = true) : IsName slug := by
 cases slug with
 | nil => cases h
 | cons c s =>
  simp only [isPluginSlug, Bool.and_eq_true, decide_eq_true_eq, List.all_eq_true] at h
  obtain ⟨⟨⟨hlower, -⟩, -⟩, hrest⟩ := h
  have hdot : c ≠ '.' := by
   rintro rfl
   exact absurd hlower (by decide)
  refine ⟨List.cons_ne_nil _ _, fun heq => hdot (List.cons.inj heq).1,
   fun heq => hdot (List.cons.inj heq).1, fun hslash => ?_⟩
  rcases List.mem_cons.1 hslash with rfl | hmem
  · exact absurd hlower (by decide)
  · exact absurd (hrest _ hmem) (by decide)

theorem isName_sha256 {value : Text} (h : isArtifactSha256 value = true) : IsName value := by
 simp only [isArtifactSha256, Bool.and_eq_true, decide_eq_true_eq, List.all_eq_true] at h
 obtain ⟨hlength, hchars⟩ := h
 constructor
 · rintro rfl
   cases hlength
 · rintro rfl
   cases hlength
 · rintro rfl
   cases hlength
 · exact fun hslash => absurd (hchars _ hslash) (by decide)

theorem isName_filenames : IsName manifestFilename ∧ IsName packageJsonFilename := by
 refine ⟨⟨?_, ?_, ?_, ?_⟩, ?_, ?_, ?_, ?_⟩
 all_goals decide

end Names

section Exports

variable {ν : Type}

/-- The specifiers that an `exports` value may stand for. -/
inductive Offers : Json ν → Text → Prop where
  | specifier {s : Text} : Offers (.str s) s
  | alternative {alternatives : List (Json ν)} {value : Json ν} {s : Text}
   (hmem : value ∈ alternatives) (h : Offers value s) :
    Offers (.arr alternatives) s
  | member {record : List (Text × Json ν)} {key : Text} {value : Json ν} {s : Text} (hmem : (key, value) ∈ record)
    (hkey : key = ['.'] ∨ key ∈ honoredConditions) (h : Offers value s) : Offers (.obj record) s

/-- An outcome of resolving: `null`, a specifier that is offered, or a `TypeError`. -/
def Settles (offered : Text → Prop) : Except LoaderError (Option Text) → Prop
  | .ok none => True
  | .ok (some s) => offered s
  | .error e => e = .typeError

theorem Settles.imp {offered offered' : Text → Prop} (h : ∀ s, offered s → offered' s) :
  ∀ {outcome : Except LoaderError (Option Text)},
  Settles offered outcome → Settles offered' outcome
 | .ok none, _ => trivial
 | .ok (some s), hs => h s hs
 | .error _, he => he

theorem settles_first {offered : Text → Prop} {outcomes : List (Except LoaderError (Option Text))}
  (h : ∀ outcome ∈ outcomes, Settles offered outcome) :
  Settles offered (firstResolved outcomes) := by
 induction outcomes with
 | nil => trivial
 | cons outcome rest ih =>
  obtain ⟨houtcome, hrest⟩ := List.forall_mem_cons.1 h
  cases outcome with
  | error e => exact houtcome
  | ok found =>
   cases found with
   | none => exact ih hrest
   | some specifier => exact houtcome

theorem resolveAlternatives_eq (alternatives : List (Json ν)) :
  resolveAlternatives alternatives = firstResolved (alternatives.map resolveExports) := by
 induction alternatives with
 | nil => rfl
 | cons alternative rest ih =>
  rw [resolveAlternatives, List.map_cons]
  cases resolveExports alternative with
  | error e => rfl
  | ok found =>
   cases found with
   | none => exact ih
   | some specifier => rfl

theorem resolveMember_cases (key : Text) (record : List (Text × Json ν)) :
  resolveMember key record = .ok none ∨ ∃ value, (key, value) ∈ record ∧
   resolveMember key record = resolveExports value := by
 induction record with
 | nil => exact .inl rfl
 | cons member rest ih =>
  obtain ⟨name, value⟩ := member
  rw [resolveMember]
  split
  · next heq =>
    cases heq
    exact .inr ⟨value, List.mem_cons_self, rfl⟩
  · exact ih.imp_right fun ⟨value', hmem, hvalue⟩ => ⟨value', List.mem_cons_of_mem _ hmem, hvalue⟩

theorem resolveExports_settles (field : Json ν) :
  Settles (Offers field) (resolveExports field) := by
 induction field using Json.induction with
 | null => trivial
 | bool b => rfl
 | num n => rfl
 | str s => exact .specifier
 | arr alternatives ih =>
  rw [resolveExports, resolveAlternatives_eq]
  apply settles_first
  intro outcome houtcome
  obtain ⟨alternative, hmem, rfl⟩ := List.mem_map.1 houtcome
  exact (ih alternative hmem).imp fun s => .alternative hmem
 | obj record ih =>
  have hmember : ∀ key, key = ['.'] ∨
   key ∈ honoredConditions → Settles (Offers (.obj record)) (resolveMember key record) := by
   intro key hkey
   rcases resolveMember_cases key record with hnone | ⟨value, hmem, hvalue⟩
   · rw [hnone]
     trivial
   · rw [hvalue]
     exact (ih _ hmem).imp fun s => .member hmem hkey
  rw [resolveExports]
  split
  · exact hmember _ (.inl rfl)
  · apply settles_first
    intro outcome houtcome
    obtain ⟨condition, hmem, rfl⟩ := List.mem_map.1 houtcome
    exact hmember condition (.inr hmem)

end Exports

section Loads

variable {ν γ : Type} {host : PluginHost γ} {slug sha256 : Text} {directory : PluginArtifactDirectory}

theorem directory_root (host : PluginHost γ) : IsDirectory host.tree [] := ⟨host.entries, rfl⟩

theorem realpathOrNull_real {path real : Path} (h : host.realpathOrNull path = some real) :
  Real host.tree real :=
 realpathFrom_real (directory_root host) host.links (directory_root host) h

/-- What is read at a path of the artifact: a regular file, whose real path lies in it. -/
structure ContainedFile (host : PluginHost γ) (rootDir path : Path) : Prop where
  regular : ∃ content, stat host.tree host.links path = some (.file content)
  contained : ∃ rest, rest ≠ [] ∧ host.realpathOrNull path = some (rootDir ++ rest)

theorem assertContainedFile_ok {path rootDir : Path} {filename : Text}
  (h : assertContainedFile host slug path filename rootDir = .ok ()) :
  ContainedFile host rootDir path := by
 unfold assertContainedFile at h
 split at h
 · next hfile =>
   split at h
   · next hcontained =>
     constructor
     · cases hstat : stat host.tree host.links path with
       | none =>
        rw [hstat] at hfile
        cases hfile
       | some x =>
        rw [hstat] at hfile
        cases x with
        | file content => exact ⟨content, rfl⟩
        | special => cases hfile
        | dir _ => cases hfile
        | link _ _ => cases hfile
     · cases hreal : host.realpathOrNull path with
       | none =>
        rw [hreal] at hcontained
        cases hcontained
       | some real =>
        rw [hreal] at hcontained
        obtain ⟨rest, hrest, rfl⟩ := isContained_extends hcontained
        exact ⟨rest, hrest, rfl⟩
   · cases h
 · cases h

/-- The artifact's directory: where the row says, and no link in its last two names. -/
structure ResolvedArtifact (host : PluginHost γ) (slug sha256 : Text)
    (directory : PluginArtifactDirectory) : Prop where
  named : directory.slug = slug ∧ directory.sha256 = sha256
  rootDir : ∃ realRoot, host.realpathOrNull (LocalDisk.resolve host.cwd host.pluginsRoot) = some realRoot ∧
    directory.rootDir = realRoot ++ [slug, sha256] ∧ IsDirectory host.tree (realRoot ++ [slug])
  isDirectory : IsDirectory host.tree directory.rootDir
  manifestPath : directory.manifestPath = directory.rootDir ++ [manifestFilename]
  packageJsonPath : directory.packageJsonPath = directory.rootDir ++ [packageJsonFilename]
  manifest : ContainedFile host directory.rootDir directory.manifestPath
  packageJson : ContainedFile host directory.rootDir directory.packageJsonPath

theorem isDirectory_of_stat {path : Path} (hreal : host.realpathOrNull path = some path)
  (hstat : (stat host.tree host.links path).any Node.isDirectory = true) :
  IsDirectory host.tree path := by
 have hself : realpath host.tree host.links path = some path := hreal
 rw [stat, hself, Option.bind_some] at hstat
 cases hnode : nodeAt path host.tree with
 | none =>
  rw [hnode] at hstat
  cases hstat
 | some x =>
  rw [hnode] at hstat
  cases x with
  | dir entries => exact ⟨entries, hnode⟩
  | file _ => cases hstat
  | special => cases hstat
  | link _ _ => cases hstat

theorem resolveArtifact_ok {parsed : Text} {realRoot : Path} (hslug : IsName slug)
  (hparsed : IsName parsed) (h : resolveArtifact host slug parsed realRoot = .ok directory) :
   directory = ⟨slug, parsed, realRoot ++ [slug, parsed],
   realRoot ++ [slug, parsed] ++ [manifestFilename], realRoot ++ [slug, parsed] ++ [packageJsonFilename]⟩ ∧
   IsDirectory host.tree directory.rootDir ∧ ContainedFile host directory.rootDir directory.manifestPath ∧
   ContainedFile host directory.rootDir directory.packageJsonPath := by
 have hpath : join realRoot [slug, parsed] = realRoot ++ [slug, parsed] :=
  join_names (List.forall_mem_cons.2
   ⟨hslug, List.forall_mem_cons.2 ⟨hparsed, fun _ hnil => by cases hnil⟩⟩)
 have hfile : ∀ {base : Path} {filename : Text}, IsName filename →
  join base [filename] = base ++ [filename] := fun hname =>
  join_names (List.forall_mem_cons.2 ⟨hname, fun _ hnil => by cases hnil⟩)
 rw [resolveArtifact, hpath] at h
 dsimp only at h
 split at h
 · next hstat =>
   split at h
   · cases h
   · next rootDir hroot =>
     split at h
     · cases h
     · next hself =>
       rw [not_not] at hself
       subst hself
       rw [hfile isName_filenames.1, hfile isName_filenames.2] at h
       split at h
       · cases h
       · cases h
       · next hmanifest hpackageJson =>
         cases h
         have hreal := (Option.filter_eq_some_iff.1 hroot).1
         exact ⟨rfl, isDirectory_of_stat hreal hstat, assertContainedFile_ok hmanifest,
          assertContainedFile_ok hpackageJson⟩
 · cases h

theorem resolve_ok (h : host.resolve slug sha256 = .ok directory) :
  ResolvedArtifact host slug sha256 directory := by
 unfold PluginHost.resolve at h
 split at h
 · cases h
 · next hslug =>
   split at h
   · cases h
   · next parsed hparsed =>
     have hsha : isArtifactSha256 sha256 = true ∧ sha256 = parsed := by
      unfold parsePluginArtifactSha256 at hparsed
      split at hparsed
      · next hsha => exact ⟨hsha, Option.some_inj.1 hparsed⟩
      · cases hparsed
     obtain ⟨hsha, rfl⟩ := hsha
     dsimp only at h
     split at h
     · cases h
     · next realRoot hroot =>
       have hslug' := isName_slug (Bool.not_eq_false _ ▸ hslug)
       obtain ⟨rfl, hdirectory, hmanifest, hpackageJson⟩ :=
        resolveArtifact_ok hslug' (isName_sha256 hsha) h
       refine ⟨⟨rfl, rfl⟩, ⟨realRoot, hroot, rfl, ?_⟩, hdirectory, rfl, rfl, hmanifest, hpackageJson⟩
       have habove := directory_dropLast hdirectory
       rwa [List.dropLast_append_of_ne_nil (List.cons_ne_nil _ _)] at habove

theorem entrypoint_contained {entrypointPath realEntrypoint : Path}
  (hdirectory : IsDirectory host.tree directory.rootDir)
  (h : assertResolvedEntrypointContained host slug entrypointPath directory.rootDir = .ok realEntrypoint) :
  Real host.tree realEntrypoint ∧ ∃ rest, rest ≠ [] ∧ realEntrypoint = directory.rootDir ++ rest := by
 have hself : host.realpathOrNull directory.rootDir = some directory.rootDir :=
  (realpath_iff (directory_root host) host.links _).2 (real_of_directory hdirectory)
 unfold assertResolvedEntrypointContained at h
 rw [hself] at h
 dsimp only at h
 split at h
 · cases h
 · next real hreal =>
   split at h
   · next hcontained =>
     cases h
     exact ⟨realpathOrNull_real hreal, isContained_extends hcontained⟩
   · cases h

end Loads

section Containment

variable {ν γ : Type}

/-- Where a load succeeds up to its import, the importer is handed a real path
    strictly inside the artifact's directory, which is no link, as are the files
    read before it; containment is a proper prefix of names; and every `exports`
    value settles. -/
theorem entrypoint_stays (host : PluginHost γ) :
    (∀ (slug sha256 : Text) (descriptor : List (Text × Json ν)) (directory : PluginArtifactDirectory) (entrypoint : Path),
      importedPath host slug sha256 descriptor = .ok (directory, entrypoint) → ResolvedArtifact host slug sha256 directory ∧
        Real host.tree entrypoint ∧ ∃ rest, rest ≠ [] ∧ entrypoint = directory.rootDir ++ rest) ∧
    (∀ directory resolved : PluginArtifactDirectory, host.confirm directory = .ok resolved →
      ResolvedArtifact host directory.slug directory.sha256 resolved ∧
       host.realpathOrNull directory.rootDir = some resolved.rootDir) ∧
    (∀ p c : Path, (∀ name ∈ p, IsName name) → (∀ name ∈ c, IsName name) →
     (isContained p c = true ↔ p <+: c ∧ p ≠ c)) ∧
    ∀ field : Json ν, Settles (Offers field) (resolveExports field) := by
 refine ⟨fun slug sha256 descriptor directory entrypoint h => ?_, fun directory resolved h => ?_,
  fun p c _ hc => isContained_iff hc,
  resolveExports_settles⟩
 · unfold importedPath at h
   split at h
   · cases h
   · next found hfound =>
     split at h
     · cases h
     · split at h
       · cases h
       · next real hreal =>
         cases h
         have hresolved := resolve_ok hfound
         exact ⟨hresolved, entrypoint_contained hresolved.isDirectory hreal⟩
 · unfold PluginHost.confirm at h
   split at h
   · cases h
   · next found hfound =>
     split at h
     · cases h
     · next hsame =>
       cases h
       exact ⟨resolve_ok hfound, not_not.1 hsame⟩

end Containment

end BoardGamesEmpire.PluginEntrypoint
