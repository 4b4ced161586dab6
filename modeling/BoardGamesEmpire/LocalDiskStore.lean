import BoardGamesEmpire.LocalDisk
import BoardGamesEmpire.SeparatedText

set_option autoImplicit false

/-!
# Writes and deletes on the local disk

The names of keys, sequences of calls that succeed, the store of last puts they
denote, and the disk that holds it.
-/
namespace BoardGamesEmpire.LocalDisk
open JsText JsonText FileTree

section Keys

def names (key : Text) : Path := key.splitOn '/'

/-- A key `assertCanonicalKey` accepts. -/
def Canonical (key : Text) : Prop := assertCanonicalKey key = .ok ()

instance (key : Text) : Decidable (Canonical key) := by unfold Canonical; exact inferInstance

theorem joined_names (key : Text) : joined (names key) = key := List.intercalate_splitOn '/'

theorem names_injective {key key' : Text} (h : names key = names key') : key = key' := by
 rw [← joined_names key, h, joined_names]

theorem names_ne_nil (key : Text) : names key ≠ [] := List.splitOn_ne_nil '/' key

theorem canonical_iff {key : Text} : Canonical key ↔ key ≠ [] ∧ '\\' ∉ key ∧
  ∀ name ∈ names key, name ≠ [] ∧ name ≠ ".".toList ∧ name ≠ "..".toList := by
 unfold Canonical assertCanonicalKey
 split
 · rename_i h
   refine iff_of_false (fun h => by cases h) fun hkey => ?_
   rcases h with h | h
   · exact hkey.1 h
   · exact hkey.2.1 h
 · rename_i h
   rw [not_or] at h
   split
   · rename_i hany
     refine iff_of_false (fun h => by cases h) fun hkey => ?_
     obtain ⟨name, hname, hbad⟩ := List.any_eq_true.1 hany
     have hgood := hkey.2.2 name hname
     rcases of_decide_eq_true hbad with h | h | h
     · exact hgood.1 h
     · exact hgood.2.1 h
     · exact hgood.2.2 h
   · rename_i hany
     refine iff_of_true rfl ⟨h.1, h.2, fun name hname => ?_⟩
     have hgood : ¬ (name = [] ∨ name = ".".toList ∨ name = "..".toList) := by
      intro hbad
      exact hany (List.any_eq_true.2 ⟨name, hname, by simpa using hbad⟩)
     simpa [not_or] using hgood

theorem foldl_names (base segments : Path) (h : ∀ name ∈ segments, name ≠ [] ∧ name ≠ ".".toList ∧
  name ≠ "..".toList) :
  segments.foldl (fun path name => if name = [] ∨ name = ".".toList then path
   else if name = "..".toList then path.dropLast else path ++ [name]) base = base ++ segments := by
 induction segments generalizing base with
 | nil => simp
 | cons name segments ih =>
  obtain ⟨hempty, hdot, hdots⟩ := h name (by simp)
  rw [List.foldl_cons, if_neg (not_or.2 ⟨hempty, hdot⟩), if_neg hdots,
   ih _ fun n hn => h n (List.mem_cons_of_mem _ hn)]
  simp

theorem resolve_canonical (base : Path) {key : Text} (h : Canonical key) :
  resolve base key = base ++ names key := by
 obtain ⟨hne, -, hnames⟩ := canonical_iff.1 h
 have hslash : key.head? ≠ some '/' := by
  intro hhead
  cases key with
  | nil => cases hhead
  | cons c key =>
   cases hhead
   have hmem : ([] : Text) ∈ names ('/' :: key) := by
    rw [names, List.splitOn_cons_eq_if_modifyHead]
    simp
   exact (hnames [] hmem).1 rfl
 unfold resolve
 rw [if_neg hslash]
 exact foldl_names base _ hnames

theorem slash_notMem_suffix : '/' ∉ sidecarSuffix := by decide

theorem splitOn_append_plain {c : Char} {b : Text} (hb : c ∉ b) (a : Text) :
  (a ++ b).splitOn c = (a.splitOn c).dropLast ++ [(a.splitOn c).getLast (List.splitOn_ne_nil c a) ++ b] :=
 SeparatedText.splitOn_append (List.dropLast_append_getLast (List.splitOn_ne_nil c a)).symm
  (splitOn_absent hb)

def lastName (key : Text) : Text := (names key).getLast (names_ne_nil key)

theorem names_eq (key : Text) : names key = (names key).dropLast ++ [lastName key] :=
 (List.dropLast_append_getLast (names_ne_nil key)).symm

theorem names_sidecar (key : Text) :
  names (key ++ sidecarSuffix) = (names key).dropLast ++ [lastName key ++ sidecarSuffix] :=
 splitOn_append_plain slash_notMem_suffix key

theorem lastName_sidecar (key : Text) :
  lastName (key ++ sidecarSuffix) = lastName key ++ sidecarSuffix := by
 unfold lastName
 simp only [names_sidecar, List.getLast_append_singleton]
 rfl

theorem sidecarPath_names (base : Path) (key : Text) :
  sidecarPath (base ++ names key) = base ++ names (key ++ sidecarSuffix) := by
 have hlast : (base ++ names key).getLast? = some (lastName key) := by
  rw [names_eq, ← List.append_assoc, List.getLast?_append, List.getLast?_singleton]
  rfl
 rw [sidecarPath, hlast, names_sidecar, List.dropLast_append_of_ne_nil (names_ne_nil key)]
 exact List.append_assoc _ _ _

theorem lastName_ne_nil {key : Text} (h : Canonical key) : lastName key ≠ [] :=
 ((canonical_iff.1 h).2.2 _ (List.getLast_mem _)).1

theorem sidecar_injective {key key' : Text} (h : key ++ sidecarSuffix = key' ++ sidecarSuffix) :
  key = key' :=
 List.append_cancel_right h

/-- A key whose files cannot be taken for another object's: its last name is no
    sidecar's, and no directory above it has the name of a sidecar. -/
structure Plain (key : Text) : Prop where
  last : ¬ sidecarSuffix <:+ lastName key
  above : ∀ name ∈ (names key).dropLast, sidecarSuffix <:+ name → name = sidecarSuffix

instance (key : Text) : Decidable (Plain key) :=
  decidable_of_iff (¬ sidecarSuffix <:+ lastName key ∧
   ∀ name ∈ (names key).dropLast, sidecarSuffix <:+ name → name = sidecarSuffix)
    ⟨fun h => ⟨h.1, h.2⟩, fun h => ⟨h.1, h.2⟩⟩

theorem plain_ne_sidecar {key key' : Text} (h : Plain key) : key ≠ key' ++ sidecarSuffix := by
 intro heq
 refine h.last ?_
 rw [heq, lastName_sidecar]
 exact List.suffix_append _ _

theorem plain_above {key key' : Text} (h : Plain key) (hkey' : Canonical key') :
  ¬ names (key' ++ sidecarSuffix) <+: (names key).dropLast := by
 intro hp
 have hmem : lastName key' ++ sidecarSuffix ∈ (names key).dropLast :=
  hp.subset (by rw [names_sidecar]; simp)
 have heq := h.above _ hmem (List.suffix_append _ _)
 exact lastName_ne_nil hkey' (List.append_left_eq_self.1 heq)

theorem holdsNul_names (key : Text) : holdsNul (names key) = key.contains '\x00' := by
 rw [Bool.eq_iff_iff, holdsNul, List.any_eq_true, List.contains_iff_mem]
 constructor
 · rintro ⟨name, hname, hnul⟩
   exact SeparatedText.mem_of_piece hname (List.contains_iff_mem.1 hnul)
 · intro hnul
   obtain heq | ⟨name, hname, hmem⟩ := SeparatedText.mem_piece (c := '/') hnul
   · cases heq
   · exact ⟨name, hname, List.contains_iff_mem.2 hmem⟩

end Keys

section Calls

variable {ν : Type}

inductive Call where
  | put (key : Text) (body : Body) (objectMeta : ObjectMeta) (now : ℤ)
  | delete (key : Text)

def Call.key : Call → Text
  | .put key _ _ _ => key
  | .delete key => key

def succeeded (d : LocalDiskDriver ν) (t : FileSystem) : Call → Option FileSystem
  | .put key body objectMeta now =>
    match put d key body objectMeta now t with
    | (.ok _, t') => some t'
    | (.error _, _) => none
  | .delete key =>
    match delete d key t with
    | (.ok _, t') => some t'
    | (.error _, _) => none

def run (d : LocalDiskDriver ν) : FileSystem → List Call → Option FileSystem
  | t, [] => some t
  | t, call :: calls => (succeeded d t call).bind fun t' => run d t' calls

/-- What a `put` stores. -/
structure Upload where
  bytes : ByteArray
  objectMeta : ObjectMeta
  now : ℤ

abbrev Store : Type := Text → Option Upload

def Call.apply (s : Store) : Call → Store
  | .put key body objectMeta now => Function.update s key (some ⟨body.bytes, objectMeta, now⟩)
  | .delete key => Function.update s key none

/-- The last `put` of each key that no later `delete` followed. -/
def lastPuts (calls : List Call) : Store := calls.foldl Call.apply fun _ => none

def Allowed (s : Store) : Call → Prop
  | .put key _ _ _ => Plain key
  | .delete key => ∀ owner, key = owner ++ sidecarSuffix → s owner = none

def Clear : Store → List Call → Prop
  | _, [] => True
  | s, call :: calls => Allowed s call ∧ Clear (call.apply s) calls

def Below (s : Store) (key : Text) : Prop :=
  ∃ owner, (s owner).isSome ∧ ((names owner <+: names key ∧ owner ≠ key) ∨
    (names (owner ++ sidecarSuffix) <+: names key ∧ owner ++ sidecarSuffix ≠ key))

variable (d : LocalDiskDriver ν)

def objectPath (key : Text) : Path := d.root ++ names key

theorem objectPath_injective {key key' : Text} (h : objectPath d key = objectPath d key') :
  key = key' :=
 names_injective (List.append_cancel_left h)

theorem resolveKey_ok {key : Text} (h : Canonical key) :
  resolveKey d key = .ok (objectPath d key) := by
 rw [resolveKey, show assertCanonicalKey key = .ok () from h]
 exact congrArg Except.ok (resolve_canonical d.root h)

theorem canonical_of_resolveKey {key : Text} {filePath : Path} (h : resolveKey d key = .ok filePath) :
  Canonical key ∧ filePath = objectPath d key := by
 have hkey : Canonical key := by
  unfold resolveKey at h
  split at h
  · cases h
  · assumption
 rw [resolveKey_ok d hkey] at h
 cases h
 exact ⟨hkey, rfl⟩

theorem sidecarPath_object (key : Text) :
  sidecarPath (objectPath d key) = objectPath d (key ++ sidecarSuffix) :=
 sidecarPath_names d.root key

theorem holdsNul_object (key : Text) : holdsNul (objectPath d key) = key.contains '\x00' := by
 rw [objectPath, holdsNul_append, d.root_read, Bool.false_or, holdsNul_names]

theorem holdsNul_sidecar (key : Text) :
  holdsNul (objectPath d (key ++ sidecarSuffix)) = key.contains '\x00' := by
 have hsuffix : sidecarSuffix.contains '\x00' = false := by decide
 rw [holdsNul_object, List.contains_append, hsuffix, Bool.or_false]

theorem put_succeeded {t t' : FileSystem} {key : Text} {body : Body} {objectMeta : ObjectMeta}
  {now : ℤ} (h : succeeded d t (.put key body objectMeta now) = some t') :
  Canonical key ∧ '\x00' ∉ key ∧ ∃ t₁ t₂,
   mkdirs (objectPath d key).dropLast t = .ok t₁ ∧
    writeFile (objectPath d key) ⟨body.bytes, now⟩ t₁ = .ok t₂ ∧
   writeFile (objectPath d (key ++ sidecarSuffix))
    ⟨encodeUtf8 (sidecarText d (uploadSidecar d body.bytes objectMeta)), now⟩ t₂ = .ok t' := by
 unfold succeeded at h
 dsimp only at h
 split at h
 · rename_i stored t'' hput
   cases h
   unfold put at hput
   split at hput
   · cases hput
   · rename_i filePath hresolve
     obtain ⟨hkey, rfl⟩ := canonical_of_resolveKey d hresolve
     refine ⟨hkey, ?_⟩
     split at hput
     · cases hput
     · unfold writeObject putFailed at hput
       split at hput
       · cases hput
       · rename_i t₁ hmkdirs
         split at hput
         · cases hput
         · rename_i t₂ hwrite
           split at hput
           · cases hput
           · split at hput
             · cases hput
             · rename_i t₃ hsidecar
               rw [sidecarPath_object] at hsidecar
               cases hput
               obtain ⟨hnul, hwrite⟩ := ok_of_calling hwrite
               rw [holdsNul_object] at hnul
               exact ⟨by simpa using hnul, t₁, t₂, (ok_of_calling hmkdirs).2, hwrite, (ok_of_calling hsidecar).2⟩
 · cases h

theorem delete_succeeded {t t' : FileSystem} {key : Text}
  (h : succeeded d t (.delete key) = some t') : Canonical key ∧
  ∃ t₁, rm (objectPath d key) t = .ok t₁ ∧ rm (objectPath d (key ++ sidecarSuffix)) t₁ = .ok t' := by
 unfold succeeded at h
 dsimp only at h
 split at h
 · rename_i stored t'' hdelete
   cases h
   unfold delete at hdelete
   split at hdelete
   · cases hdelete
   · rename_i filePath hresolve
     obtain ⟨hkey, rfl⟩ := canonical_of_resolveKey d hresolve
     refine ⟨hkey, ?_⟩
     split at hdelete
     · cases hdelete
     · rename_i t₁ hrm
       split at hdelete
       · cases hdelete
       · rename_i t₂ hrm'
         rw [sidecarPath_object] at hrm'
         cases hdelete
         exact ⟨t₁, hrm, hrm'⟩
 · cases h

end Calls

section Removal

theorem rm_cases {p : Path} {t t' : FileSystem} (h : rm p t = .ok t') :
  removeFile p t = .ok t' ∨ (look p t = .error .missing ∧ t' = t) := by
 unfold rm at h
 split at h
 · rename_i hremove
   cases h
   exact .inl (ok_of_calling hremove).2
 · rename_i hremove
   cases h
   exact .inr ⟨removeFile_missing (missing_of_calling hremove), rfl⟩
 · cases h
 · cases h

theorem rm_keeps {p q : Path} {kind : Kind File} {t t' : FileSystem} (h : rm p t = .ok t')
  (hq : look q t = .ok kind) (hne : q ≠ p) : look q t' = .ok kind := by
 rcases rm_cases h with hremove | ⟨-, rfl⟩
 · exact removeFile_keeps hremove hq hne
 · exact hq

theorem rm_from {p q : Path} {kind : Kind File} {t t' : FileSystem} (h : rm p t = .ok t')
  (hq : look q t' = .ok kind) :
  q ≠ p ∧ look q t = .ok kind := by
 rcases rm_cases h with hremove | ⟨hmissing, rfl⟩
 · exact removeFile_from hremove hq
 · refine ⟨fun heq => ?_, hq⟩
   rw [heq, hmissing] at hq
   cases hq

theorem distinct_rm {p : Path} {t t' : FileSystem} (ht : Distinct t) (h : rm p t = .ok t') :
  Distinct t' := by
 rcases rm_cases h with hremove | ⟨-, rfl⟩
 · exact distinct_removeFile ht hremove
 · exact ht

end Removal

section Invariant

variable {ν : Type} (d : LocalDiskDriver ν)

def sidecarFile (u : Upload) : File :=
    ⟨encodeUtf8 (sidecarText d (uploadSidecar d u.bytes u.objectMeta)), u.now⟩

/-- The disk holds the two files of every stored object under the root, and no
    other file; and no directory stands where a sidecar would. -/
structure Holds (t : FileSystem) (s : Store) : Prop where
  distinct : Distinct t
  root : look d.root t = .ok .dir
  keys : ∀ key u, s key = some u → Canonical key ∧ Plain key
  read : ∀ key u, s key = some u → '\x00' ∉ key
  stored : ∀ key u, s key = some u → look (objectPath d key) t = .ok (.file ⟨u.bytes, u.now⟩) ∧
    look (objectPath d (key ++ sidecarSuffix)) t = .ok (.file (sidecarFile d u))
  files : ∀ q content, look (d.root ++ q) t = .ok (.file content) →
    ∃ key, (s key).isSome ∧ (q = names key ∨ q = names (key ++ sidecarSuffix))
  dirs : ∀ key, Canonical key → look (objectPath d (key ++ sidecarSuffix)) t ≠ .ok .dir

structure Provisioned (t : FileSystem) : Prop where
  distinct : Distinct t
  empty : find d.root t = .ok (.dir [])

variable {d}

theorem root_ne_objectPath (key : Text) : d.root ≠ objectPath d key := by
 intro heq
 exact names_ne_nil key (List.append_right_eq_self.1 heq.symm)

theorem sidecar_ne (key : Text) : key ≠ key ++ sidecarSuffix := by
 intro heq
 exact absurd (List.append_right_eq_self.1 heq.symm) (by decide)

variable {t t' : FileSystem}

theorem holds_provisioned (h : Provisioned d t) : Holds d t fun _ => none where
 distinct := h.distinct
 root := by rw [look, h.empty]; rfl
 keys := fun key u hu => by cases hu
 read := fun key u hu => by cases hu
 stored := fun key u hu => by cases hu
 files := fun q content hfile => by
  rw [look_append, h.empty] at hfile
  cases q with
  | nil => cases hfile
  | cons n q => cases hfile
 dirs := fun key hkey hdir => by
  rw [objectPath, look_append, h.empty] at hdir
  cases hnames : names (key ++ sidecarSuffix) with
  | nil => exact names_ne_nil _ hnames
  | cons n q => rw [hnames] at hdir; cases hdir

theorem objectPath_above (key : Text) :
  (objectPath d key).dropLast = d.root ++ (names key).dropLast :=
 List.dropLast_append_of_ne_nil (names_ne_nil key)

variable {s : Store}

theorem holds_put (h : Holds d t s) {key : Text} {body : Body} {objectMeta : ObjectMeta}
  {now : ℤ} (hplain : Plain key) (hput : succeeded d t (.put key body objectMeta now) = some t') :
  Holds d t' (Call.apply s (.put key body objectMeta now)) := by
 obtain ⟨hkey, hnul, t₁, t₂, hmkdirs, hwrite, hsidecar⟩ := put_succeeded d hput
 have happly : Call.apply s (.put key body objectMeta now) = Function.update s key
  (some ⟨body.bytes, objectMeta, now⟩) := rfl
 rw [happly]
 -- a file or directory that is neither of the two written stays what it was
 have hkeep : ∀ {q kind}, look q t = .ok kind → q ≠ objectPath d key →
  q ≠ objectPath d (key ++ sidecarSuffix) →
   look q t' = .ok kind := by
  intro q kind hq hne hne'
  exact writeFile_keeps hsidecar (writeFile_keeps hwrite (mkdirs_keeps hmkdirs hq) hne) hne'
 have hsome : ∀ {other}, (s other).isSome →
  (Function.update s key (some (⟨body.bytes, objectMeta, now⟩ : Upload)) other).isSome := by
  intro other hother
  by_cases heq : other = key
  · rw [heq, Function.update_self]; rfl
  · rw [Function.update_of_ne heq]; exact hother
 have hself : (Function.update s key (some (⟨body.bytes, objectMeta, now⟩ : Upload)) key).isSome := by
  rw [Function.update_self]; rfl
 constructor
 · exact distinct_writeFile (distinct_writeFile (distinct_mkdirs h.distinct hmkdirs) hwrite) hsidecar
 · exact hkeep h.root (root_ne_objectPath key) (root_ne_objectPath _)
 · intro other u hu
   by_cases heq : other = key
   · rw [heq]
     exact ⟨hkey, hplain⟩
   · rw [Function.update_of_ne heq] at hu
     exact h.keys other u hu
 · intro other u hu
   by_cases heq : other = key
   · rw [heq]
     exact hnul
   · rw [Function.update_of_ne heq] at hu
     exact h.read other u hu
 · intro other u hu
   by_cases heq : other = key
   · subst heq
     rw [Function.update_self] at hu
     cases hu
     have hne : objectPath d other ≠ objectPath d (other ++ sidecarSuffix) := fun h =>
      sidecar_ne other (objectPath_injective d h)
     exact ⟨writeFile_keeps hsidecar (writeFile_written hwrite) hne, writeFile_written hsidecar⟩
   · rw [Function.update_of_ne heq] at hu
     obtain ⟨hother, hotherPlain⟩ := h.keys other u hu
     obtain ⟨hfile, hfile'⟩ := h.stored other u hu
     constructor
     · refine hkeep hfile (fun heq' => heq (objectPath_injective d heq')) fun heq' => ?_
       exact plain_ne_sidecar hotherPlain (objectPath_injective d heq')
     · refine hkeep hfile' (fun heq' => ?_) fun heq' => ?_
       · exact plain_ne_sidecar hplain (objectPath_injective d heq').symm
       · exact heq (sidecar_injective (objectPath_injective d heq'))
 · intro q content hfile
   rcases writeFile_from hsidecar hfile with ⟨hq, -⟩ | hfile
   · exact ⟨key, hself, .inr (List.append_cancel_left hq)⟩
   rcases writeFile_from hwrite hfile with ⟨hq, -⟩ | hfile
   · exact ⟨key, hself, .inl (List.append_cancel_left hq)⟩
   rcases mkdirs_from hmkdirs hfile with ⟨-, hkind⟩ | hfile
   · cases hkind
   obtain ⟨other, hother, hq⟩ := h.files q content hfile
   exact ⟨other, hsome hother, hq⟩
 · intro other hother hdir
   rcases writeFile_from hsidecar hdir with ⟨-, hkind⟩ | hdir
   · cases hkind
   rcases writeFile_from hwrite hdir with ⟨-, hkind⟩ | hdir
   · cases hkind
   rcases mkdirs_from hmkdirs hdir with ⟨hp, -⟩ | hdir
   · rw [objectPath_above, objectPath, List.prefix_append_right_inj] at hp
     exact plain_above hplain hother hp
   · exact h.dirs other hother hdir

theorem holds_delete (h : Holds d t s) {key : Text}
  (hfree : ∀ owner, key = owner ++ sidecarSuffix → s owner = none)
  (hdelete : succeeded d t (.delete key) = some t') :
  Holds d t' (Call.apply s (.delete key)) := by
 obtain ⟨hkey, t₁, hrm, hrm'⟩ := delete_succeeded d hdelete
 have happly : Call.apply s (.delete key) = Function.update s key none := rfl
 rw [happly]
 have hkeep : ∀ {q kind}, look q t = .ok kind → q ≠ objectPath d key →
  q ≠ objectPath d (key ++ sidecarSuffix) →
   look q t' = .ok kind := by
  intro q kind hq hne hne'
  exact rm_keeps hrm' (rm_keeps hrm hq hne) hne'
 have hfrom : ∀ {q kind}, look q t' = .ok kind → q ≠ objectPath d key ∧
  q ≠ objectPath d (key ++ sidecarSuffix) ∧
   look q t = .ok kind := by
  intro q kind hq
  obtain ⟨hne', hq₁⟩ := rm_from hrm' hq
  obtain ⟨hne, hq₀⟩ := rm_from hrm hq₁
  exact ⟨hne, hne', hq₀⟩
 have hold : ∀ {other u}, Function.update s key none other = some u → other ≠ key ∧ s other = some u := by
  intro other u hu
  by_cases heq : other = key
  · rw [heq, Function.update_self] at hu
    cases hu
  · rw [Function.update_of_ne heq] at hu
    exact ⟨heq, hu⟩
 constructor
 · exact distinct_rm (distinct_rm h.distinct hrm) hrm'
 · exact hkeep h.root (root_ne_objectPath key) (root_ne_objectPath _)
 · intro other u hu
   exact h.keys other u (hold hu).2
 · intro other u hu
   exact h.read other u (hold hu).2
 · intro other u hu
   obtain ⟨hne, hu⟩ := hold hu
   obtain ⟨-, hplain⟩ := h.keys other u hu
   obtain ⟨hfile, hfile'⟩ := h.stored other u hu
   constructor
   · refine hkeep hfile (fun heq => hne (objectPath_injective d heq)) fun heq => ?_
     exact plain_ne_sidecar hplain (objectPath_injective d heq)
   · refine hkeep hfile' (fun heq => ?_) fun heq => ?_
     · rw [hfree other (objectPath_injective d heq).symm] at hu
       cases hu
     · exact hne (sidecar_injective (objectPath_injective d heq))
 · intro q content hfile
   obtain ⟨hne, hne', hfile⟩ := hfrom hfile
   obtain ⟨other, hother, hq⟩ := h.files q content hfile
   refine ⟨other, ?_, hq⟩
   have hother' : other ≠ key := by
    intro heq
    rw [heq] at hq
    rcases hq with rfl | rfl
    · exact hne rfl
    · exact hne' rfl
   rw [Function.update_of_ne hother']
   exact hother
 · intro other hother hdir
   exact h.dirs other hother (hfrom hdir).2.2

theorem holds_step (h : Holds d t s) {call : Call} (hallowed : Allowed s call)
  (hok : succeeded d t call = some t') : Holds d t' (call.apply s) := by
 cases call with
 | put key body objectMeta now => exact holds_put h hallowed hok
 | delete key => exact holds_delete h hallowed hok

theorem holds_run {calls : List Call} (h : Holds d t s) (hclear : Clear s calls)
  (hrun : run d t calls = some t') : Holds d t' (calls.foldl Call.apply s) := by
 induction calls generalizing t s with
 | nil => cases hrun; exact h
 | cons call calls ih =>
  obtain ⟨t₁, hok, hrest⟩ := Option.bind_eq_some_iff.1 hrun
  exact ih (holds_step h hclear.1 hok) hclear.2 hrest

end Invariant

end BoardGamesEmpire.LocalDisk
