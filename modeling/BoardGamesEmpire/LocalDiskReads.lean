import BoardGamesEmpire.LocalDiskStore

set_option autoImplicit false

/-!
# The local-disk driver as a key-value store

What `head`, `get` and `list` read of a disk that holds a store, and when that is
what the store holds.
-/
namespace BoardGamesEmpire.LocalDisk
open JsText JsonText FileTree

section Reads

variable {ν : Type} {d : LocalDiskDriver ν} {t : FileSystem} {s : Store}

/-- The marker file of the `sentinel` check is the one file under the root that
    is no object's. -/
def Unmarked (d : LocalDiskDriver ν) : Prop := ∀ sentinelFile, d.mountCheck ≠ .sentinel sentinelFile

theorem probeRoot_unmarked (hmount : Unmarked d) (t : FileSystem) : probeRoot d t = none := by
 unfold probeRoot
 split
 · rfl
 · rfl
 · rename_i sentinelFile hcheck
   exact absurd hcheck (hmount sentinelFile)

theorem readFailure_missing (hmount : Unmarked d) (key : Text) :
  readFailure d t key .enoent = .objectNotFound key := by
 rw [readFailure, if_pos rfl, classifyEnoent, probeRoot_unmarked hmount]
 rfl

theorem readFailure_notDirectory (key : Text) :
  readFailure d t key .enotdir = .errno .enotdir := rfl

theorem readFailure_refused (key : Text) :
  readFailure d t key .errInvalidArgValue = .errno .errInvalidArgValue := rfl

theorem object_read {key : Text} (hnul : '\x00' ∉ key) : holdsNul (objectPath d key) = false := by
 rw [holdsNul_object]
 simpa using hnul

theorem sidecar_read {key : Text} (hnul : '\x00' ∉ key) :
  holdsNul (objectPath d (key ++ sidecarSuffix)) = false := by
 rw [holdsNul_sidecar]
 simpa using hnul

theorem properMembers_of_keys (keys : List Text) {members : List (Text × Json ν)}
  (h : members.map Prod.fst = keys) (hnodup : keys.Nodup)
  (horder : keys.Pairwise fun a b => ownBefore a b = true) : properMembers members = true := by
 refine properMembers_iff.2 ⟨by rw [h]; exact hnodup, ?_⟩
 rw [← h, List.pairwise_map] at horder
 exact horder

theorem proper_document (sidecar : Sidecar) : proper (sidecar.document : Json ν) = true := by
 unfold Sidecar.document
 split
 · refine proper_obj.2 ⟨properMembers_of_keys
    ["contentType".toList, "checksum".toList, "etag".toList] rfl (by decide) (by decide), ?_⟩
   simp [proper, fold]
 · refine proper_obj.2 ⟨properMembers_of_keys
    ["contentType".toList, "checksum".toList, "etag".toList, "originalName".toList] rfl (by decide)
     (by decide), ?_⟩
   simp [proper, fold]

theorem toStoredObject_document (key : Text) (info : Stats) (sidecar : Sidecar) :
  toStoredObject key info (sidecar.document : Json ν) = .ok
   ⟨key, info.size, some (.str sidecar.contentType),
   some (.str sidecar.checksum), some (.str sidecar.etag), info.mtime, slug⟩ := by
 have hproper := proper_document (ν := ν) sidecar
 have hfields : ∃ members, (sidecar.document : Json ν) = .obj members ∧
   ("contentType".toList, Json.str sidecar.contentType) ∈ members ∧
   ("checksum".toList, Json.str sidecar.checksum) ∈ members ∧
    ("etag".toList, Json.str sidecar.etag) ∈ members := by
  unfold Sidecar.document
  split <;> exact ⟨_, rfl, by simp⟩
 obtain ⟨members, hdocument, hcontentType, hchecksum, hetag⟩ := hfields
 rw [hdocument] at hproper ⊢
 have hkeys := (properMembers_iff.1 (proper_obj.1 hproper).1).1
 have hfun : ∀ name v v', (name, v) ∈ members → (name, v') ∈ members → v = v' := by
  intro name v v' hv hv'
  exact congrArg Prod.snd (member_eq hkeys hv hv' rfl)
 rw [toStoredObject, property, property, property, (mapGet_iff hfun).2 hcontentType,
  (mapGet_iff hfun).2 hchecksum,
  (mapGet_iff hfun).2 hetag]

theorem readSidecar_stored {key : Text} {u : Upload} (hnul : '\x00' ∉ key)
  (h : look (objectPath d (key ++ sidecarSuffix)) t = .ok (.file (sidecarFile d u))) (info : Stats) :
  ∃ sidecar, readSidecar d t key (objectPath d key) = .ok sidecar ∧ toStoredObject key info sidecar =
   .ok ⟨key, info.size, some (.str u.objectMeta.contentType), some (.str (d.sha256 u.bytes)),
    some (.str (d.sha256 u.bytes)),
    info.mtime, slug⟩ := by
 rw [readSidecar, sidecarPath_object, h, calling_ok (sidecar_read hnul)]
 dsimp only [sidecarFile]
 rw [decodeUtf8_encodeUtf8, sidecarText, parse_stringify d.numbers (proper_document _)]
 exact ⟨_, rfl, toStoredObject_document key info _⟩

theorem head_stored (h : Holds d t s) {key : Text} {u : Upload} (hu : s key = some u)
  (timing : Timing) :
  head d timing t key = .ok (uploaded d key u.bytes u.objectMeta u.now) := by
 obtain ⟨hkey, -⟩ := h.keys key u hu
 obtain ⟨hfile, hsidecar⟩ := h.stored key u hu
 have hstat : statOrThrow d t key (objectPath d key) = .ok ⟨u.bytes.size, u.now⟩ := by
  rw [statOrThrow, hfile, calling_ok (object_read (h.read key u hu))]
 obtain ⟨sidecar, hread, hobject⟩ := readSidecar_stored (h.read key u hu) hsidecar ⟨u.bytes.size, u.now⟩
 rw [head, resolveKey_ok d hkey]
 dsimp only
 rw [hstat, hread]
 exact hobject

theorem get_stored (h : Holds d t s) {key : Text} {u : Upload} (hu : s key = some u)
  (timing : Timing) :
  get d timing t key = .ok (u.bytes, uploaded d key u.bytes u.objectMeta u.now) := by
 obtain ⟨hkey, -⟩ := h.keys key u hu
 obtain ⟨hfile, -⟩ := h.stored key u hu
 rw [get, head_stored h hu]
 dsimp only
 rw [resolve_canonical d.root hkey, show d.root ++ names key = objectPath d key from rfl, hfile,
  calling_ok (object_read (h.read key u hu))]

theorem get_refused {timing : Timing} {key : Text} {e : StorageError}
  (h : head d timing t key = .error e) :
  get d timing t key = .error e := by
 rw [get, h]

theorem prefix_concat {α : Type} {p q : List α} {a : α} :
  (p <+: q ++ [a] ∧ p ≠ q ++ [a]) ↔ p <+: q := by
 constructor
 · rintro ⟨hp, hne⟩
   rcases List.prefix_concat_iff.1 hp with heq | hp
   · exact absurd heq hne
   · exact hp
 · intro hp
   refine ⟨hp.trans (List.prefix_append _ _), fun heq => ?_⟩
   have hlength := hp.length_le
   rw [heq, List.length_append] at hlength
   simp at hlength

theorem above_sidecar {p : Path} {key : Text} :
  (p <+: objectPath d (key ++ sidecarSuffix) ∧ p ≠ objectPath d (key ++ sidecarSuffix)) ↔
  (p <+: objectPath d key ∧ p ≠ objectPath d key) := by
 rw [objectPath, objectPath, names_sidecar, names_eq key, ← List.append_assoc, ← List.append_assoc,
  prefix_concat, prefix_concat]
 simp

theorem sidecar_notDirectory (key : Text) :
  look (objectPath d (key ++ sidecarSuffix)) t = .error .notDirectory ↔
  look (objectPath d key) t = .error .notDirectory := by
 rw [look_notDirectory, look_notDirectory]
 constructor
 · rintro ⟨p, hp, hne, hfile⟩
   obtain ⟨hp, hne⟩ := above_sidecar.1 ⟨hp, hne⟩
   exact ⟨p, hp, hne, hfile⟩
 · rintro ⟨p, hp, hne, hfile⟩
   obtain ⟨hp, hne⟩ := above_sidecar.2 ⟨hp, hne⟩
   exact ⟨p, hp, hne, hfile⟩

theorem below_iff (h : Holds d t s) (key : Text) :
  Below s key ↔ look (objectPath d key) t = .error .notDirectory := by
 rw [look_notDirectory]
 constructor
 · rintro ⟨owner, howner, hbelow⟩
   obtain ⟨u, hu⟩ := Option.isSome_iff_exists.1 howner
   obtain ⟨hfile, hsidecar⟩ := h.stored owner u hu
   rcases hbelow with ⟨hp, hne⟩ | ⟨hp, hne⟩
   · exact ⟨objectPath d owner, (List.prefix_append_right_inj _).2 hp,
      fun heq => hne (objectPath_injective d heq), _, hfile⟩
   · exact ⟨objectPath d (owner ++ sidecarSuffix), (List.prefix_append_right_inj _).2 hp,
      fun heq => hne (objectPath_injective d heq), _, hsidecar⟩
 · rintro ⟨p, hp, hne, content, hfile⟩
   rcases List.prefix_or_prefix_of_prefix hp (List.prefix_append d.root (names key)) with hroot | hroot
   · -- a directory on the way to the root, or the root itself, is no file
     by_cases heq : p = d.root
     · rw [heq, h.root] at hfile
       cases hfile
     · rw [look_parent h.root hroot heq] at hfile
       cases hfile
   · obtain ⟨q, rfl⟩ := hroot
     obtain ⟨owner, howner, hq⟩ := h.files q content hfile
     have hp' : q <+: names key := (List.prefix_append_right_inj _).1 hp
     refine ⟨owner, howner, ?_⟩
     rcases hq with rfl | rfl
     · exact .inl ⟨hp', fun heq => hne (by rw [heq]; rfl)⟩
     · exact .inr ⟨hp', fun heq => hne (by rw [heq]; rfl)⟩

theorem sidecar_absent (h : Holds d t s) {key : Text} (hkey : Canonical key) (hnone : s key = none) :
  ∃ fault, look (objectPath d (key ++ sidecarSuffix)) t = .error fault := by
 cases hlook : look (objectPath d (key ++ sidecarSuffix)) t with
 | error fault => exact ⟨fault, rfl⟩
 | ok kind =>
  cases kind with
  | dir => exact absurd hlook (h.dirs key hkey)
  | file content =>
   obtain ⟨other, hother, hq⟩ := h.files _ content hlook
   obtain ⟨u, hu⟩ := Option.isSome_iff_exists.1 hother
   rcases hq with hq | hq
   · exact absurd (names_injective hq).symm (plain_ne_sidecar (h.keys other u hu).2)
   · rw [sidecar_injective (names_injective hq), hu] at hnone
     cases hnone

theorem head_absent (h : Holds d t s) (hmount : Unmarked d) {key : Text} (hkey : Canonical key)
  (hnul : '\x00' ∉ key) (hnone : s key = none) (hbelow : ¬ Below s key) (timing : Timing) :
   head d timing t key = .error (.objectNotFound key) := by
 have hway : look (objectPath d key) t ≠ .error .notDirectory :=
  fun heq => hbelow ((below_iff h key).2 heq)
 have hsidecar : readSidecar d t key (objectPath d key) = .error (.objectNotFound key) := by
  obtain ⟨fault, hfault⟩ := sidecar_absent h hkey hnone
  have hmissing : fault = .missing := by
   rcases look_error hfault with hmissing | hnot
   · exact hmissing
   · rw [hnot, sidecar_notDirectory] at hfault
     exact absurd hfault hway
  rw [readSidecar, sidecarPath_object, hfault, hmissing, calling_error (sidecar_read hnul)]
  exact congrArg Except.error (readFailure_missing hmount key)
 rw [head, resolveKey_ok d hkey]
 dsimp only
 rw [hsidecar]
 cases hstat : statOrThrow d t key (objectPath d key) with
 | ok info => rfl
 | error e =>
  have he : e = .objectNotFound key := by
   cases hlook : look (objectPath d key) t with
   | ok kind =>
    rw [statOrThrow, hlook, calling_ok (object_read hnul)] at hstat
    cases kind <;> cases hstat
   | error fault =>
    rcases look_error hlook with rfl | rfl
    · rw [statOrThrow, hlook, calling_error (object_read hnul)] at hstat
      cases hstat
      exact readFailure_missing hmount key
    · exact absurd hlook hway
  rw [he]
  simp

theorem head_below (h : Holds d t s) {key : Text} (hkey : Canonical key) (hnul : '\x00' ∉ key)
  (hbelow : Below s key) (timing : Timing) :
  head d timing t key = .error (.errno .enotdir) := by
 have hway := (below_iff h key).1 hbelow
 have hstat : statOrThrow d t key (objectPath d key) = .error (.errno .enotdir) := by
  rw [statOrThrow, hway, calling_error (object_read hnul)]
  exact congrArg Except.error (readFailure_notDirectory key)
 have hsidecar : readSidecar d t key (objectPath d key) = .error (.errno .enotdir) := by
  rw [readSidecar, sidecarPath_object, (sidecar_notDirectory key).2 hway,
   calling_error (sidecar_read hnul)]
  exact congrArg Except.error (readFailure_notDirectory key)
 rw [head, resolveKey_ok d hkey]
 dsimp only
 rw [hstat, hsidecar]
 simp

theorem head_refused {key : Text} (hkey : Canonical key) (hnul : '\x00' ∈ key) (timing : Timing) :
  head d timing t key = .error (.errno .errInvalidArgValue) := by
 have hcontains : key.contains '\x00' = true := List.contains_iff_mem.2 hnul
 have hstat : statOrThrow d t key (objectPath d key) = .error (.errno .errInvalidArgValue) := by
  rw [statOrThrow, calling_refused ((holdsNul_object d key).trans hcontains)]
  exact congrArg Except.error (readFailure_refused key)
 have hsidecar : readSidecar d t key (objectPath d key) = .error (.errno .errInvalidArgValue) := by
  rw [readSidecar, sidecarPath_object, calling_refused ((holdsNul_sidecar d key).trans hcontains)]
  exact congrArg Except.error (readFailure_refused key)
 rw [head, resolveKey_ok d hkey]
 dsimp only
 rw [hstat, hsidecar]
 simp

theorem stored_not_below (h : Holds d t s) {key : Text} (hsome : (s key).isSome) :
  ¬ Below s key := by
 intro hbelow
 obtain ⟨u, hu⟩ := Option.isSome_iff_exists.1 hsome
 have hway := (below_iff h key).1 hbelow
 rw [(h.stored key u hu).1] at hway
 cases hway

theorem head_ok_iff (h : Holds d t s) (hmount : Unmarked d) (timing : Timing) (key : Text) :
  (∃ object, head d timing t key = .ok object) ↔ (s key).isSome := by
 constructor
 · rintro ⟨object, hobject⟩
   have hkey : Canonical key := by
    cases hresolve : resolveKey d key with
    | error e => rw [head, hresolve] at hobject; cases hobject
    | ok filePath => exact (canonical_of_resolveKey d hresolve).1
   cases hu : s key with
   | some u => rfl
   | none =>
    by_cases hnul : '\x00' ∈ key
    · rw [head_refused hkey hnul] at hobject
      cases hobject
    · by_cases hbelow : Below s key
      · rw [head_below h hkey hnul hbelow] at hobject
        cases hobject
      · rw [head_absent h hmount hkey hnul hu hbelow] at hobject
        cases hobject
 · intro hsome
   obtain ⟨u, hu⟩ := Option.isSome_iff_exists.1 hsome
   exact ⟨_, head_stored h hu timing⟩

end Reads

section Listing

variable {ν : Type} {d : LocalDiskDriver ν} {t : FileSystem} {s : Store}

theorem relative_append (root names : Path) : relative root (root ++ names) = names := by
 induction root with
 | nil => cases names <;> rfl
 | cons a root ih => rw [List.cons_append, relative, if_pos rfl, ih]

theorem keep_iff (name : Text) :
  (!sidecarSuffix.isSuffixOf name) = true ↔ ¬ sidecarSuffix <:+ name := by
 rw [Bool.not_eq_true', ← List.isSuffixOf_iff_suffix, Bool.not_eq_true]

theorem find_dir {p : Path} (h : look p t = .ok .dir) :
  ∃ entries, find p t = .ok (.dir entries) := by
 unfold look at h
 cases hfind : find p t with
 | error fault => rw [hfind] at h; cases h
 | ok x =>
  cases x with
  | file content => rw [hfind] at h; cases h
  | dir entries => exact ⟨entries, rfl⟩

theorem walk_dir (h : Holds d t s) {dirNames : Path} (hread : holdsNul dirNames = false)
  (hdir : look (d.root ++ dirNames) t = .ok .dir) :
  ∃ found, walk d t (d.root ++ dirNames) = .ok found ∧ found.Nodup ∧
   ∀ key, key ∈ found ↔ (s key).isSome ∧ dirNames <+: names key := by
 obtain ⟨entries, hfind⟩ := find_dir hdir
 have hlists :=
  lists_paths (fun name => !sidecarSuffix.isSuffixOf name) entries (distinct_find h.distinct hfind)
 have hlook : ∀ q, look q (.dir entries) = look (d.root ++ (dirNames ++ q)) t := by
  intro q
  rw [← List.append_assoc, look_append, hfind]
  rfl
 have hfound : ∀ q, q ∈ paths (fun name => !sidecarSuffix.isSuffixOf name) entries ↔
   ∃ key, (s key).isSome ∧ dirNames ++ q = names key := by
  intro q
  rw [hlists.mem, hlook]
  constructor
  · rintro ⟨⟨content, hfile⟩, name, hname, hkeep⟩
    obtain ⟨key, hkey, hq⟩ := h.files _ content hfile
    rcases hq with hq | hq
    · exact ⟨key, hkey, hq⟩
    · have hlast : (dirNames ++ q).getLast? = some name := by rw [List.getLast?_append, hname]; rfl
      rw [hq, names_sidecar, List.getLast?_concat] at hlast
      cases hlast
      exact absurd (List.suffix_append _ _) ((keep_iff _).1 hkeep)
  · rintro ⟨key, hkey, hq⟩
    obtain ⟨u, hu⟩ := Option.isSome_iff_exists.1 hkey
    have hfile : look (d.root ++ (dirNames ++ q)) t = .ok
     (.file ⟨u.bytes, u.now⟩) := by rw [hq]; exact (h.stored key u hu).1
    have hne : q ≠ [] := by
     rintro rfl
     rw [List.append_nil, hdir] at hfile
     cases hfile
    refine ⟨⟨_, hfile⟩, lastName key, ?_, (keep_iff _).2 (h.keys key u hu).2.last⟩
    have hlast : (dirNames ++ q).getLast? = some
     (lastName key) := by rw [hq, names_eq, List.getLast?_concat]
    rw [List.getLast?_append, List.getLast?_eq_some_getLast hne] at hlast
    rw [List.getLast?_eq_some_getLast hne]
    exact hlast
 have hkey : ∀ q, joined (relative d.root (d.root ++ dirNames ++ q)) = joined (dirNames ++ q) := by
  intro q
  rw [List.append_assoc, relative_append]
 have hplain :
  holdsNul (d.root ++ dirNames) = false := by rw [holdsNul_append, d.root_read, hread, Bool.or_self]
 refine ⟨_, by rw [walk, hfind, calling_ok hplain], ?_, fun key => ?_⟩
 · refine List.Nodup.map_on (fun q hq q' hq' heq => ?_) hlists.nodup
   obtain ⟨key, -, hnames⟩ := (hfound q).1 hq
   obtain ⟨key', -, hnames'⟩ := (hfound q').1 hq'
   rw [hkey, hkey, hnames, hnames', joined_names, joined_names] at heq
   rw [heq, ← hnames'] at hnames
   exact List.append_cancel_left hnames
 · rw [List.mem_map]
   constructor
   · rintro ⟨q, hq, rfl⟩
     obtain ⟨key, hstored, hnames⟩ := (hfound q).1 hq
     rw [hkey, hnames, joined_names]
     exact ⟨hstored, q, hnames⟩
   · rintro ⟨hstored, q, hnames⟩
     exact ⟨q, (hfound q).2 ⟨key, hstored, hnames⟩, by rw [hkey, hnames, joined_names]⟩

theorem walk_root (h : Holds d t s) : ∃ found, walk d t d.root = .ok found ∧ found.Nodup ∧
  ∀ key, key ∈ found ↔ (s key).isSome := by
 have hroot : look (d.root ++ []) t = .ok .dir := by
  rw [List.append_nil]
  exact h.root
 obtain ⟨found, hwalk, hnodup, hmem⟩ := walk_dir h (show holdsNul [] = false from rfl) hroot
 rw [List.append_nil] at hwalk
 exact ⟨found, hwalk, hnodup, fun key => (hmem key).trans (and_iff_left List.nil_prefix)⟩

theorem settleAll_ok {α β : Type} (n : ℕ) (name : β → α) (read : α → Except StorageError β)
  (keys : List α) (h : ∀ key ∈ keys, ∃ object, read key = .ok object ∧ name object = key) :
  ∃ objects, settleAll n (keys.map read) = .ok objects ∧ objects.map name = keys := by
 have hnone : (keys.map read).filterMap refusal = [] := by
  refine List.filterMap_eq_nil_iff.2 fun r hr => ?_
  obtain ⟨key, hkey, rfl⟩ := List.mem_map.1 hr
  obtain ⟨object, hobject, -⟩ := h key hkey
  rw [hobject]
  rfl
 refine ⟨_, by rw [settleAll, hnone], ?_⟩
 clear hnone
 induction keys with
 | nil => rfl
 | cons key keys ih =>
  obtain ⟨object, hobject, hname⟩ := h key (by simp)
  have hrest := ih fun k hk => h k (List.mem_cons_of_mem _ hk)
  rw [List.map_cons, hobject]
  exact congrArg₂ List.cons hname hrest

theorem sortTexts_sorted (keys : List Text) :
  (sortTexts keys).Pairwise fun a b => textLe a b = true := by
 apply List.pairwise_mergeSort
 · intro a b c hab hbc
   exact textLe_trans hab hbc
 · intro a b
   exact textLe_total a b

/-- `list('')` answers the objects whose `head` succeeds, each once, in order. -/
structure ListsStore (d : LocalDiskDriver ν) (timing : Timing) (t : FileSystem)
    (objects : List (StoredObject ν)) : Prop where
  listed : list d timing t [] ⟨none, none⟩ = .ok ⟨objects, none⟩
  sorted : (objects.map StoredObject.key).Pairwise fun a b => textLe a b = true
  once : (objects.map StoredObject.key).Nodup
  heads : ∀ key, key ∈ objects.map StoredObject.key ↔ ∃ object, head d timing t key = .ok object

theorem lists_store (h : Holds d t s) (hmount : Unmarked d) (timing : Timing) :
  ∃ objects, ListsStore d timing t objects := by
 obtain ⟨found, hwalk, hnodup, hmem⟩ := walk_root h
 have hperm := sortTexts_perm found
 obtain ⟨objects, hobjects, hkeys⟩ := settleAll_ok timing.firstRefused StoredObject.key
  (head d timing t) (sortTexts found)
  fun key hkey => by
   obtain ⟨u, hu⟩ := Option.isSome_iff_exists.1 ((hmem key).1 (hperm.mem_iff.1 hkey))
   exact ⟨_, head_stored h hu timing, rfl⟩
 refine ⟨objects, ?_, ?_, ?_, ?_⟩
 · have hdir : resolvePrefixDir d
    [] = .ok d.root := by simp [resolvePrefixDir, assertCanonicalPrefix, joined, resolve]
   have hall : found.filter (fun key => ([] : Text).isPrefixOf key) = found := List.filter_eq_self.2
    fun key _ => by cases key <;> rfl
   rw [list, hdir]
   dsimp only
   rw [hwalk]
   dsimp only
   rw [hall]
   simp only [pageLimit, List.drop_zero]
   rw [hobjects]
   simp
 · rw [hkeys]
   exact sortTexts_sorted found
 · rw [hkeys]
   exact hperm.nodup_iff.2 hnodup
 · intro key
   rw [hkeys, hperm.mem_iff, hmem, head_ok_iff h hmount]

end Listing

section KeyValue

variable {ν : Type} (d : LocalDiskDriver ν)

/-- What `head` of a store answers: the last upload's metadata, or not found. -/
def storedHead (key : Text) : Option Upload → Except StorageError (StoredObject ν)
  | some u => .ok (uploaded d key u.bytes u.objectMeta u.now)
  | none => .error (.objectNotFound key)

def storedGet (key : Text) : Option Upload → Except StorageError (ByteArray × StoredObject ν)
  | some u => .ok (u.bytes, uploaded d key u.bytes u.objectMeta u.now)
  | none => .error (.objectNotFound key)

def ReadsAs (t : FileSystem) (key : Text) (upload : Option Upload) : Prop :=
  ∀ timing, head d timing t key = storedHead d key upload ∧ get d timing t key = storedGet d key upload

def ReadsRefused (t : FileSystem) (key : Text) (code : Errno) : Prop :=
  ∀ timing, head d timing t key = .error (.errno code) ∧ get d timing t key = .error (.errno code)

def SameRead (t t' : FileSystem) (key : Text) : Prop :=
  ∀ timing, head d timing t' key = head d timing t key ∧ get d timing t' key = get d timing t key

variable {d} {t t' : FileSystem} {s s' : Store}

variable {key : Text}

theorem reads_below (h : Holds d t s) (hkey : Canonical key) (hnul : '\x00' ∉ key)
  (hbelow : Below s key) :
  ReadsRefused d t key .enotdir := by
 intro timing
 have hhead := head_below h hkey hnul hbelow timing
 exact ⟨hhead, get_refused hhead⟩

theorem reads_refused (hkey : Canonical key) (hnul : '\x00' ∈ key) :
  ReadsRefused d t key .errInvalidArgValue := by
 intro timing
 have hhead : head d timing t key = .error (.errno .errInvalidArgValue) := head_refused hkey hnul timing
 exact ⟨hhead, get_refused hhead⟩

theorem ReadsRefused.same {code : Errno} (h : ReadsRefused d t key code)
  (h' : ReadsRefused d t' key code) :
  SameRead d t t' key :=
 fun timing => ⟨(h' timing).1.trans (h timing).1.symm, (h' timing).2.trans (h timing).2.symm⟩

theorem reads_as (h : Holds d t s) (hmount : Unmarked d) (hkey : Canonical key)
  (hnul : '\x00' ∉ key) (hbelow : ¬ Below s key) :
  ReadsAs d t key (s key) := by
 intro timing
 cases hu : s key with
 | some u => exact ⟨head_stored h hu timing, get_stored h hu timing⟩
 | none =>
  have hhead := head_absent h hmount hkey hnul hu hbelow timing
  exact ⟨hhead, get_refused hhead⟩

theorem reads_as_iff (h : Holds d t s) (hmount : Unmarked d) (hkey : Canonical key) :
  ReadsAs d t key (s key) ↔ '\x00' ∉ key ∧ ¬ Below s key := by
 refine ⟨fun hreads => ?_, fun hread => reads_as h hmount hkey hread.1 hread.2⟩
 have hhead := (hreads ⟨fun _ => true, 0⟩).1
 have hnul : '\x00' ∉ key := by
  intro hnul
  rw [head_refused hkey hnul] at hhead
  unfold storedHead at hhead
  split at hhead <;> cases hhead
 refine ⟨hnul, fun hbelow => ?_⟩
 have hnone : s key = none := by
  rw [← Option.not_isSome_iff_eq_none]
  exact fun hsome => stored_not_below h hsome hbelow
 rw [hnone, head_below h hkey hnul hbelow] at hhead
 cases hhead

theorem same_read_iff (h : Holds d t s) (h' : Holds d t' s') (hmount : Unmarked d)
  (hkey : Canonical key)
  (hsame : s' key = s key) : SameRead d t t' key ↔ '\x00' ∈ key ∨ (Below s key ↔ Below s' key) := by
 by_cases hnul : '\x00' ∈ key
 · exact iff_of_true ((reads_refused hkey hnul).same (reads_refused hkey hnul)) (.inl hnul)
 rw [or_iff_right hnul]
 by_cases hbelow : Below s key
 · have hread := reads_below h hkey hnul hbelow
   by_cases hbelow' : Below s' key
   · exact iff_of_true (hread.same (reads_below h' hkey hnul hbelow')) (iff_of_true hbelow hbelow')
   · refine iff_of_false (fun hsameRead => ?_) fun hiff => hbelow' (hiff.1 hbelow)
     refine ((reads_as_iff h hmount hkey).1 fun timing => ?_).2 hbelow
     have hread' := reads_as h' hmount hkey hnul hbelow' timing
     rwa [hsame, (hsameRead timing).1, (hsameRead timing).2] at hread'
 · have hread := reads_as h hmount hkey hnul hbelow
   by_cases hbelow' : Below s' key
   · refine iff_of_false (fun hsameRead => ?_) fun hiff => hbelow (hiff.2 hbelow')
     refine ((reads_as_iff h' hmount hkey).1 fun timing => ?_).2 hbelow'
     rw [hsame, (hsameRead timing).1, (hsameRead timing).2]
     exact hread timing
   · refine iff_of_true (fun timing => ?_) (iff_of_false hbelow hbelow')
     have hread' := reads_as h' hmount hkey hnul hbelow' timing
     rw [hsame] at hread'
     exact ⟨hread'.1.trans (hread timing).1.symm, hread'.2.trans (hread timing).2.symm⟩

theorem apply_other (s : Store) (call : Call) (hne : key ≠ call.key) :
  call.apply s key = s key := by
 cases call with
 | put other body objectMeta now => exact Function.update_of_ne hne _ _
 | delete other => exact Function.update_of_ne hne _ _

theorem lastPuts_append (calls : List Call) (call : Call) :
  lastPuts (calls ++ [call]) = call.apply (lastPuts calls) := by
 rw [lastPuts, List.foldl_append]
 rfl

/-- The driver is a key-value store as long as no call touches another object's
    files: every key reads as its last upload or as not found, but for the keys
    that hold a NUL or are below a stored object's file. -/
theorem disk_is_store (d : LocalDiskDriver ν) (hmount : Unmarked d) {t₀ t : FileSystem}
    (h₀ : Provisioned d t₀) {calls : List Call} (hclear : Clear (fun _ => none) calls)
    (hrun : run d t₀ calls = some t) :
    (∀ key, Canonical key → ∃ filePath, resolveKey d key = .ok filePath ∧ d.root <+: filePath ∧
     filePath ≠ d.root) ∧
    (∀ key, Canonical key →
     (ReadsAs d t key (lastPuts calls key) ↔ '\x00' ∉ key ∧ ¬ Below (lastPuts calls) key)) ∧
    (∀ timing, ∃ objects, ListsStore d timing t objects) ∧
    ∀ call t', Allowed (lastPuts calls) call → succeeded d t call = some t' → ∀ key, Canonical key →
     key ≠ call.key →
      (SameRead d t t' key ↔ '\x00' ∈ key ∨
       (Below (lastPuts calls) key ↔ Below (lastPuts (calls ++ [call])) key)) := by
 have hholds : Holds d t (lastPuts calls) := holds_run (holds_provisioned h₀) hclear hrun
 refine ⟨fun key hkey => ?_, fun key hkey => reads_as_iff hholds hmount hkey, lists_store hholds hmount,
  fun call t' hallowed hok key hkey hne => ?_⟩
 · exact ⟨objectPath d key, resolveKey_ok d hkey, List.prefix_append _ _, (root_ne_objectPath key).symm⟩
 · have hholds' : Holds d t' (lastPuts (calls ++ [call])) := by
    rw [lastPuts_append]
    exact holds_step hholds hallowed hok
   refine same_read_iff hholds hholds' hmount hkey ?_
   rw [lastPuts_append]
   exact apply_other _ _ hne

end KeyValue

section Samples

def sampleSha256 (_bytes : ByteArray) :
    Text := "2cf24dba5fb0a30e26e83b2ac5b9e29e1b161e5c1fa7425e73043362938b9824".toList

def sampleDriver : LocalDiskDriver { s : Text // s ≠ [] ∧ s.all isNumberChar = true } where
  root := ["srv".toList, "media".toList]
  root_read := by decide
  mountCheck := .off
  sha256 := sampleSha256
  numbers := literalFormat
  directoryStats _ := ⟨4096, 0⟩

def sampleDisk : FileSystem := .dir [("srv".toList, .dir [("media".toList, .dir [])])]

def samplePut (key : String) (now : ℤ) :
    Call := .put key.toList ⟨encodeUtf8 "hello".toList, true⟩ ⟨"text/plain".toList, none⟩ now

theorem distinct_single (n : Text) {x : FileSystem} (hx : Distinct x) :
  Distinct (.dir [(n, x)]) := by
 refine distinct_dir.2 ⟨by simp, fun m y hm => ?_⟩
 rw [lookup_cons] at hm
 split at hm
 · cases hm; exact hx
 · cases hm

theorem sampleDisk_provisioned : Provisioned sampleDriver sampleDisk where
 distinct := distinct_single _ (distinct_single _ distinct_empty)
 empty := rfl

theorem disk_is_store_sample :
  ∃ t, run sampleDriver sampleDisk [samplePut "a/b" 1, samplePut "a/c" 2, .delete "a/b".toList] = some t ∧
    ∀ key, Canonical key →
     (ReadsAs sampleDriver t key
      (lastPuts [samplePut "a/b" 1, samplePut "a/c" 2, .delete "a/b".toList] key) ↔
      '\x00' ∉ key ∧
       ¬ Below (lastPuts [samplePut "a/b" 1, samplePut "a/c" 2, .delete "a/b".toList]) key) := by
 have hok : (run sampleDriver sampleDisk
  [samplePut "a/b" 1, samplePut "a/c" 2, .delete "a/b".toList]).isSome = true := by
  decide +kernel
 obtain ⟨t, ht⟩ := Option.isSome_iff_exists.1 hok
 have hclear : Clear (fun _ => none) [samplePut "a/b" 1, samplePut "a/c" 2, .delete "a/b".toList] := by
  refine ⟨(by decide : Plain "a/b".toList), (by decide : Plain "a/c".toList),
   fun owner howner => ?_, trivial⟩
  exact absurd howner (plain_ne_sidecar (by decide : Plain "a/b".toList))
 exact ⟨t, ht, (disk_is_store sampleDriver (fun _ h => by cases h) sampleDisk_provisioned hclear ht).2.1⟩

/-- A deletion of one object's key takes the sidecar of another. -/
theorem sidecar_deleted :
  ∃ t, run sampleDriver sampleDisk [samplePut "a" 1, .delete "a.meta.json".toList] = some t ∧
    Canonical "a".toList ∧ Canonical "a.meta.json".toList ∧
    ¬ ReadsAs sampleDriver t "a".toList
     (lastPuts [samplePut "a" 1, .delete "a.meta.json".toList] "a".toList) := by
 have hread : (run sampleDriver sampleDisk [samplePut "a" 1, .delete "a.meta.json".toList]).map
   (fun t => refusal (head sampleDriver ⟨fun _ => true, 0⟩ t "a".toList)) = some
    (some (.objectNotFound "a".toList)) := by
  decide +kernel
 obtain ⟨t, ht, hrefused⟩ := Option.map_eq_some_iff.1 hread
 refine ⟨t, ht, by decide, by decide, fun hreads => ?_⟩
 have hlast : lastPuts [samplePut "a" 1, .delete "a.meta.json".toList] "a".toList =
   some ⟨encodeUtf8 "hello".toList, ⟨"text/plain".toList, none⟩, 1⟩ := by
  have hne : "a".toList ≠ (Call.delete "a.meta.json".toList).key := by decide
  refine (apply_other (Call.apply (fun _ => none) (samplePut "a" 1)) _ hne).trans ?_
  rw [samplePut, Call.apply, Function.update_self]
 rw [(hreads ⟨fun _ => true, 0⟩).1, hlast] at hrefused
 cases hrefused

end Samples

end BoardGamesEmpire.LocalDisk
