import BoardGamesEmpire.CursorPaging
import BoardGamesEmpire.LocalDiskReads

set_option autoImplicit false

/-!
# Listing in pages while objects come and go

A consumer that asks `list` for page after page, with puts and deletes between
the calls. A call resumes where the last page ended only while the key of its
cursor is still there.
-/
namespace BoardGamesEmpire.LocalDisk
open JsText JsonText FileTree CursorPaging SeparatedText

section Order

/-- One text before another in the order of `sort`. -/
def Before (a b : Text) : Prop := textLe a b = true ∧ a ≠ b

instance (a b : Text) : Decidable (Before a b) := by unfold Before; exact inferInstance

instance : Std.Irrefl Before := ⟨fun _ h => h.2 rfl⟩

instance : IsTrans Text Before := ⟨by
  rintro a b c ⟨hab, hne⟩ ⟨hbc, -⟩
  refine ⟨textLe_trans hab hbc, ?_⟩
  rintro rfl
  exact hne (textLe_antisymm hab hbc)⟩

theorem before_total {a b : Text} (hne : a ≠ b) : Before a b ∨ Before b a := by
 rcases Bool.or_eq_true _ _ ▸ textLe_total a b with h | h
 · exact .inl ⟨h, hne⟩
 · exact .inr ⟨h, hne.symm⟩

theorem ordered_unique {keys keys' : List Text} (h : keys.Pairwise Before)
  (h' : keys'.Pairwise Before) (hmem : ∀ key, key ∈ keys ↔ key ∈ keys') : keys = keys' := by
 have hperm : keys.Perm keys' :=
  (List.perm_ext_iff_of_nodup (h.imp fun hlt => hlt.2) (h'.imp fun hlt => hlt.2)).2 hmem
 exact hperm.eq_of_pairwise (fun _ _ _ _ hab hba => textLe_antisymm hab.1 hba.1) h h'

theorem sorted_before {keys : List Text} (hnodup : keys.Nodup) : (sortTexts keys).Pairwise Before :=
 (sortTexts_sorted keys).imp₂ (fun _ _ hle hne => ⟨hle, hne⟩) ((sortTexts_perm keys).nodup_iff.2 hnodup)

end Order

section Prefixes

variable {ν : Type} {d : LocalDiskDriver ν} {t : FileSystem} {s : Store} {pre : Text}

def dirNames (pre : Text) : Path := (pre.splitOn '/').dropLast

def Unblocked (s : Store) (pre : Text) : Prop :=
  ∀ owner, (s owner).isSome → ¬ names owner <+: dirNames pre ∧
   ¬ names (owner ++ sidecarSuffix) <+: dirNames pre

theorem dirNames_prefix {key : Text} (h : pre <+: key) : dirNames pre <+: names key := by
 obtain ⟨rest, rfl⟩ := h
 obtain ⟨above, last, hpre⟩ := splitOn_concat '/' pre
 obtain ⟨first, names', hrest⟩ := List.exists_cons_of_ne_nil (List.splitOn_ne_nil '/' rest)
 rw [dirNames, hpre, List.dropLast_concat, names, splitOn_append hpre hrest]
 exact List.prefix_append above _

theorem dirNames_proper (h : assertCanonicalPrefix pre = .ok ()) :
  '\\' ∉ pre ∧ ∀ name ∈ dirNames pre, name ≠ [] ∧ name ≠ ".".toList ∧ name ≠ "..".toList := by
 unfold assertCanonicalPrefix at h
 by_cases hempty : pre = []
 · subst hempty
   exact ⟨List.not_mem_nil, fun name hname => by cases hname⟩
 · rw [if_neg hempty] at h
   split at h
   · cases h
   · next hslash =>
     split at h
     · cases h
     · next hdots =>
       split at h
       · cases h
       · next hblank =>
         refine ⟨hslash, fun name hname => ?_⟩
         have hmem := List.mem_of_mem_dropLast hname
         simp only [List.any_eq_true, decide_eq_true_eq, not_exists, not_and, not_or] at hdots
         refine ⟨?_, hdots name hmem⟩
         rintro rfl
         exact hblank (List.contains_iff_mem.2 hname)

theorem names_joined (hne : dirNames pre ≠ []) : names (joined (dirNames pre)) = dirNames pre :=
 List.splitOn_intercalate '/' (fun _ hname => not_mem_piece (List.mem_of_mem_dropLast hname)) hne

theorem resolvePrefixDir_ok (h : assertCanonicalPrefix pre = .ok ()) :
  resolvePrefixDir d pre = .ok (d.root ++ dirNames pre) := by
 obtain ⟨hslash, hnames⟩ := dirNames_proper h
 have hresolve : resolve d.root (joined (dirNames pre)) = d.root ++ dirNames pre := by
  by_cases hne : dirNames pre = []
  · rw [hne, joined, List.intercalate_nil, resolve]
    simp
  · have hcanonical : Canonical (joined (dirNames pre)) := by
     rw [canonical_iff, names_joined hne]
     refine ⟨fun hnil => ?_, fun hmem => ?_, hnames⟩
     · have hjoined := names_joined hne
       rw [hnil] at hjoined
       exact (hnames [] (hjoined ▸ List.mem_singleton_self _)).1 rfl
     · rcases mem_piece (c := '/') hmem with heq | ⟨name, hname, hback⟩
       · exact absurd heq (by decide)
       · rw [← names, names_joined hne] at hname
         exact hslash (mem_of_piece (List.mem_of_mem_dropLast hname) hback)
    rw [resolve_canonical d.root hcanonical, names_joined hne]
 rw [resolvePrefixDir, h]
 exact congrArg Except.ok hresolve

theorem unblocked_iff (h : Holds d t s) : Unblocked s pre ↔
  look (d.root ++ dirNames pre) t = .ok .dir ∨ look (d.root ++ dirNames pre) t = .error .missing := by
 constructor
 · intro hfree
   have hfile : ∀ q content, q <+: dirNames pre → look (d.root ++ q) t ≠ .ok (.file content) := by
    intro q content hq hlook
    obtain ⟨owner, howner, rfl | rfl⟩ := h.files q content hlook
    · exact (hfree owner howner).1 hq
    · exact (hfree owner howner).2 hq
   cases hlook : look (d.root ++ dirNames pre) t with
   | ok kind =>
    cases kind with
    | dir => exact .inl rfl
    | file content => exact absurd hlook (hfile _ content List.prefix_rfl)
   | error fault =>
    rcases look_error hlook with rfl | rfl
    · exact .inr rfl
    · obtain ⟨p, hp, hne, content, hfound⟩ := look_notDirectory.1 hlook
      rcases List.prefix_or_prefix_of_prefix hp (List.prefix_append d.root _) with habove | ⟨q, rfl⟩
      · by_cases heq : p = d.root
        · rw [heq, h.root] at hfound
          cases hfound
        · rw [look_parent h.root habove heq] at hfound
          cases hfound
      · exact absurd hfound (hfile q content ((List.prefix_append_right_inj _).1 hp))
 · intro hlook owner howner
   obtain ⟨u, hu⟩ := Option.isSome_iff_exists.1 howner
   have hblocks : ∀ q content, look (d.root ++ q) t = .ok (.file content) → ¬ q <+: dirNames pre := by
    intro q content hfile hq
    by_cases heq : q = dirNames pre
    · rw [← heq, hfile] at hlook
      rcases hlook with hdir | hmissing
      · cases hdir
      · cases hmissing
    · have hfault := look_notDirectory.2 ⟨d.root ++ q, (List.prefix_append_right_inj d.root).2 hq,
       fun hsame => heq (List.append_cancel_left hsame), content, hfile⟩
      rw [hfault] at hlook
      rcases hlook with hdir | hmissing
      · cases hdir
      · cases hmissing
   exact ⟨hblocks _ _ (h.stored owner u hu).1, hblocks _ _ (h.stored owner u hu).2⟩

theorem find_missing {p : Path} (h : look p t = .error .missing) : find p t = .error .missing := by
 unfold look at h
 cases hfind : find p t with
 | error fault =>
  rw [hfind] at h
  cases h
  rfl
 | ok x =>
  rw [hfind] at h
  cases h

theorem walk_prefix (h : Holds d t s) (hmount : Unmarked d)
  (hread : holdsNul (dirNames pre) = false) (hfree : Unblocked s pre) : ∃ found,
  walk d t (d.root ++ dirNames pre) = .ok found ∧ found.Nodup ∧
   ∀ key, key ∈ found ↔ (s key).isSome ∧ dirNames pre <+: names key := by
 rcases (unblocked_iff h).1 hfree with hdir | hmissing
 · exact walk_dir h hread hdir
 · refine ⟨[], ?_, List.nodup_nil, fun key => iff_of_false List.not_mem_nil ?_⟩
   · have hplain : holdsNul (d.root ++ dirNames pre)
      = false := by rw [holdsNul_append, d.root_read, hread, Bool.or_self]
     rw [walk, find_missing hmissing, calling_error hplain]
     dsimp only [Errno.ofFault]
     rw [probeRoot_unmarked hmount]
   · rintro ⟨hkey, hbelow⟩
     obtain ⟨u, hu⟩ := Option.isSome_iff_exists.1 hkey
     have hfile := (h.stored key u hu).1
     by_cases heq : dirNames pre = names key
     · rw [objectPath, ← heq, hmissing] at hfile
       cases hfile
     · have hparent := look_parent hfile ((List.prefix_append_right_inj d.root).2 hbelow)
        fun hsame => heq (List.append_cancel_left hsame)
       rw [hmissing] at hparent
       cases hparent

theorem walk_refused (hnul : holdsNul (dirNames pre) = true) :
  ∃ e, walk d t (d.root ++ dirNames pre) = .error e := by
 have hrefused : holdsNul (d.root ++ dirNames pre) = true := by rw [holdsNul_append, hnul, Bool.or_true]
 refine ⟨.errno .errInvalidArgValue, ?_⟩
 rw [walk, calling_refused hrefused]
 rfl

theorem walk_blocked (h : Holds d t s) (hblocked : ¬ Unblocked s pre) :
  ∃ e, walk d t (d.root ++ dirNames pre) = .error e := by
 rw [unblocked_iff h, not_or] at hblocked
 unfold walk
 split
 · next entries hfind => exact absurd (by rw [look, (ok_of_calling hfind).2]; rfl) hblocked.1
 · exact ⟨_, rfl⟩
 · next hfind => exact absurd (by rw [look, missing_of_calling hfind]; rfl) hblocked.2
 · exact ⟨_, rfl⟩

end Prefixes

section Listings

variable {ν : Type} {d : LocalDiskDriver ν} {t : FileSystem} {s : Store} {pre : Text}

def keysUnder (s : Store) (pre : Text) : Set Text := fun key => (s key).isSome ∧ pre <+: key

def startOf (keys : List Text) : Option Text → ℕ
  | some cursor => if cursor = [] ∨ keys.contains cursor = false then 0 else keys.idxOf cursor + 1
  | none => 0

theorem list_page (h : Holds d t s) (hmount : Unmarked d)
  (haccepted : assertCanonicalPrefix pre = .ok ()) (hread : holdsNul (dirNames pre) = false)
  (hfree : Unblocked s pre) (cursor : Option Text) {limit : ℕ} (hlimit : 0 < limit) :
  ∃ keys : List Text, keys.Pairwise Before ∧
   (∀ key, key ∈ keys ↔ key ∈ keysUnder s pre) ∧
    ∀ timing, ∃ result, list d timing t pre ⟨cursor, some limit⟩ = .ok result ∧
    result.objects.map StoredObject.key = (keys.drop (startOf keys cursor)).take limit ∧
    result.nextCursor = if limit < (keys.drop (startOf keys cursor)).length then
     ((keys.drop (startOf keys cursor)).take limit).getLast? else none := by
 obtain ⟨found, hwalk, hnodup, hmem⟩ := walk_prefix h hmount hread hfree
 let keys := sortTexts (found.filter fun key => pre.isPrefixOf key)
 have hkeys : ∀ key, key ∈ keys ↔ key ∈ keysUnder s pre := by
  intro key
  rw [(sortTexts_perm _).mem_iff, List.mem_filter, hmem, List.isPrefixOf_iff_prefix]
  exact ⟨fun hkey => ⟨hkey.1.1, hkey.2⟩, fun hkey => ⟨⟨hkey.1, dirNames_prefix hkey.2⟩, hkey.2⟩⟩
 refine ⟨keys, sorted_before (hnodup.filter _), hkeys, fun timing => ?_⟩
 let rest := keys.drop (startOf keys cursor)
 obtain ⟨objects, hobjects, hnames⟩ := settleAll_ok timing.firstRefused StoredObject.key
  (head d timing t) (rest.take limit)
  fun key hkey => by
   obtain ⟨u, hu⟩ :=
    Option.isSome_iff_exists.1 ((hkeys key).1 (List.mem_of_mem_drop (List.mem_of_mem_take hkey))).1
   exact ⟨_, head_stored h hu timing, rfl⟩
 have hpage : pageLimit ⟨cursor, some (limit : ℤ)⟩ = some limit := by
  simp [pageLimit, hlimit]
 have hmore : (startOf keys cursor + (rest.take limit).length < keys.length) ↔ limit < rest.length := by
  rw [List.length_take, List.length_drop]
  omega
 refine ⟨⟨objects, if limit < rest.length then (rest.take limit).getLast? else none⟩, ?_, hnames, rfl⟩
 rw [list, resolvePrefixDir_ok haccepted]
 dsimp only
 rw [hwalk]
 dsimp only
 rw [hpage]
 split
 · next e herror => cases herror.symm.trans hobjects
 · next answered hanswered =>
   cases hanswered.symm.trans hobjects
   change Except.ok (ListResult.mk objects (if (some limit).isSome = true ∧
     startOf keys cursor + (rest.take limit).length <
      keys.length then (rest.take limit).getLast? else none)) = _
   simp only [Option.isSome_some, true_and, hmore]

theorem list_blocked (h : Holds d t s) (haccepted : assertCanonicalPrefix pre = .ok ())
  (hblocked : ¬ (holdsNul (dirNames pre) = false ∧ Unblocked s pre)) (timing : Timing)
  (options : ListOptions) :
  ∃ e, list d timing t pre options = .error e := by
 have hwalk : ∃ e, walk d t (d.root ++ dirNames pre) = .error e := by
  by_cases hread : holdsNul (dirNames pre) = false
  · exact walk_blocked h fun hfree => hblocked ⟨hread, hfree⟩
  · exact walk_refused (Bool.not_eq_false _ ▸ hread)
 obtain ⟨e, hwalk⟩ := hwalk
 refine ⟨e, ?_⟩
 rw [list, resolvePrefixDir_ok haccepted]
 dsimp only
 rw [hwalk]

def Resumable (page : Page Text) : Prop := ∀ c, page.cursor = some c → c ∈ page.stored ∨
    ∀ key ∈ page.stored, Before c key

def pageOf (s : Store) (pre : Text) (cursor : Option Text) (result : ListResult ν) : Page Text :=
  ⟨keysUnder s pre, cursor, result.objects.map StoredObject.key, result.nextCursor⟩

/-- What can be said of one answered call: it resumes where it can, and starts
    over where it cannot. -/
structure Answered (page : Page Text) : Prop where
  next : page.next = none ∨ page.next = page.keys.getLast?
  keys : ∀ key ∈ page.keys, key ∈ page.stored
  resumes : Resumable page → page.Resumes Before
  restarts : ¬ Resumable page → ∃ c, page.cursor = some c ∧ ∃ key ∈ page.keys, Before key c

theorem startOf_absent {keys : List Text} {c : Text} (h : c ∉ keys) : startOf keys (some c) = 0 :=
 if_pos (.inr (Bool.eq_false_iff.2 fun hc => h (List.contains_iff_mem.1 hc)))

theorem startOf_present {keys : List Text} {c : Text} (h : c ∈ keys) (hne : c ≠ []) :
  startOf keys (some c) = keys.idxOf c + 1 := by
 refine if_neg ?_
 rw [List.contains_iff_mem.2 h]
 simp [hne]

theorem answered_list (h : Holds d t s) (hmount : Unmarked d)
  (haccepted : assertCanonicalPrefix pre = .ok ()) {limit : ℕ} (hlimit : 0 < limit)
  {cursor : Option Text} {timing : Timing} {result : ListResult ν}
  (hok : list d timing t pre ⟨cursor, some limit⟩ = .ok result) :
  Answered (pageOf s pre cursor result) := by
 have hfree : holdsNul (dirNames pre) = false ∧ Unblocked s pre := by
  by_contra hblocked
  obtain ⟨e, herror⟩ := list_blocked h haccepted hblocked timing ⟨cursor, some limit⟩
  rw [hok] at herror
  cases herror
 obtain ⟨keys, hordered, hkeys, hpage⟩ := list_page h hmount haccepted hfree.1 hfree.2 cursor hlimit
 obtain ⟨result', hok', hobjects, hnext⟩ := hpage timing
 rw [hok] at hok'
 cases hok'
 have hcanonical : ∀ key ∈ keys, key ≠ [] := by
  intro key hkey
  obtain ⟨u, hu⟩ := Option.isSome_iff_exists.1 ((hkeys key).1 hkey).1
  exact (canonical_iff.1 (h.keys key u hu).1).1
 constructor
 · rw [pageOf, hnext, hobjects]
   dsimp only
   split
   · exact .inr rfl
   · exact .inl rfl
 · intro key hkey
   rw [pageOf, hobjects] at hkey
   exact (hkeys key).1 (List.mem_of_mem_drop (List.mem_of_mem_take hkey))
 · intro hresumable
   rw [pageOf, hobjects]
   refine resumes_cut hlimit (hordered.sublist (List.drop_sublist _ _)) (fun key => ?_) hnext
   cases hcursor : cursor with
   | none => exact (hkeys key).trans (iff_self_and.2 fun _ _ hc => by cases hc)
   | some c =>
    have hafter : After Before (some c) key ↔
     Before c key := ⟨fun hall => hall c rfl, fun hlt c' hc' => by cases hc'; exact hlt⟩
    rw [hafter]
    by_cases hc : c ∈ keys
    · rw [startOf_present hc (hcanonical c hc), mem_drop_idxOf hordered hc, hkeys]
    · rw [startOf_absent hc, List.drop_zero, hkeys]
      refine iff_self_and.2 fun hkey => ?_
      exact (hresumable c hcursor).resolve_left (fun hstored => hc ((hkeys c).2 hstored)) key hkey
 · intro hlost
   simp only [Resumable, not_forall, not_or] at hlost
   obtain ⟨c, hcursor, hgone, key, hkey, hbefore⟩ := hlost
   have hc : c ∉ keys := fun hc => hgone ((hkeys c).1 hc)
   refine ⟨c, hcursor, ?_⟩
   have hcursor' : cursor = some c := hcursor
   rw [pageOf, hobjects, hcursor', startOf_absent hc, List.drop_zero]
   have hmem := (hkeys key).2 hkey
   cases hlist : keys with
   | nil =>
    rw [hlist] at hmem
    cases hmem
   | cons first rest =>
    have hkeyc : Before key c := (before_total fun heq : key = c => hc (heq ▸ hmem)).resolve_right hbefore
    refine ⟨first, ?_, ?_⟩
    · rw [List.take_cons hlimit]
      exact List.mem_cons_self
    · rw [hlist] at hmem hordered
      rcases List.mem_cons.1 hmem with rfl | hrest
      · exact hkeyc
      · exact trans_of Before ((List.pairwise_cons.1 hordered).1 key hrest) hkeyc

end Listings

section Runs

variable {ν : Type} {d : LocalDiskDriver ν} {pre : Text} {limit : ℕ} {t₀ : FileSystem}

/-- A listing under way: the disk and what it holds, the pages answered so far,
    and the keys that were ever put. -/
structure Paging where
  disk : FileSystem
  store : Store
  pages : List (Page Text)
  puts : List Text

def Call.puts : Call → List Text
  | .put key _ _ _ => [key]
  | .delete _ => []

inductive Reached (d : LocalDiskDriver ν) (pre : Text) (limit : ℕ) (t₀ : FileSystem) : Paging → Prop where
  | start : Reached d pre limit t₀ ⟨t₀, fun _ => none, [], []⟩
  | call {p : Paging} {call : Call} {t : FileSystem} (h : Reached d pre limit t₀ p) (hallowed : Allowed p.store call)
    (hok : succeeded d p.disk call = some t) :
     Reached d pre limit t₀ ⟨t, call.apply p.store, p.pages, p.puts ++ call.puts⟩
  | page {p : Paging} {timing : Timing} {result : ListResult ν} (h : Reached d pre limit t₀ p)
   (hunfinished : Unfinished p.pages)
    (hok : list d timing p.disk pre ⟨cursorAfter p.pages, some limit⟩ = .ok result) :
    Reached d pre limit t₀
     ⟨p.disk, p.store, p.pages ++ [pageOf p.store pre (cursorAfter p.pages) result], p.puts⟩

structure Kept (d : LocalDiskDriver ν) (p : Paging) : Prop where
  holds : Holds d p.disk p.store
  stored : ∀ key, (p.store key).isSome → key ∈ p.puts
  chained : Chained p.pages
  answered : ∀ page ∈ p.pages, Answered page ∧ ∀ key ∈ page.keys, key ∈ p.puts

variable {p : Paging}

theorem kept_call (h : Kept d p) {call : Call} {t : FileSystem}
  (hallowed : Allowed p.store call) (hok : succeeded d p.disk call = some t) :
  Kept d ⟨t, call.apply p.store, p.pages, p.puts ++ call.puts⟩ where
 holds := holds_step h.holds hallowed hok
 stored := by
  intro key hkey
  rw [List.mem_append]
  cases call with
  | put other body objectMeta now =>
   by_cases heq : key = other
   · exact .inr (List.mem_singleton.2 heq)
   · exact .inl (h.stored key (apply_other p.store (.put other body objectMeta now) heq ▸ hkey))
  | delete other =>
   by_cases heq : key = other
   · have hgone : (Function.update p.store other none key).isSome = true := hkey
     rw [heq, Function.update_self] at hgone
     cases hgone
   · exact .inl (h.stored key (apply_other p.store (.delete other) heq ▸ hkey))
 chained := h.chained
 answered := fun page hpage => (h.answered page hpage).imp_right fun hkeys key hkey =>
  List.mem_append_left _ (hkeys key hkey)

theorem kept_page (hmount : Unmarked d) (haccepted : assertCanonicalPrefix pre = .ok ())
  (hlimit : 0 < limit) (h : Kept d p)
  {timing : Timing} {result : ListResult ν} (hunfinished : Unfinished p.pages)
  (hok : list d timing p.disk pre ⟨cursorAfter p.pages, some limit⟩ = .ok result) :
  Kept d ⟨p.disk, p.store, p.pages ++ [pageOf p.store pre (cursorAfter p.pages) result], p.puts⟩ := by
 have hanswered := answered_list h.holds hmount haccepted hlimit hok
 refine ⟨h.holds, h.stored, .page h.chained hunfinished rfl hanswered.next, fun page hpage => ?_⟩
 rcases List.mem_append.1 hpage with hearlier | hnew
 · exact h.answered page hearlier
 · rw [List.mem_singleton.1 hnew]
   exact ⟨hanswered, fun key hkey => h.stored key (hanswered.keys key hkey).1⟩

theorem kept_reached (hmount : Unmarked d) (h₀ : Provisioned d t₀)
  (haccepted : assertCanonicalPrefix pre = .ok ()) (hlimit : 0 < limit)
  (h : Reached d pre limit t₀ p) : Kept d p := by
 induction h with
 | start =>
  refine ⟨holds_provisioned h₀, fun key hkey => ?_, .start, fun page hpage => ?_⟩
  · cases hkey
  · cases hpage
 | call _ hallowed hok ih => exact kept_call ih hallowed hok
 | page _ hunfinished hok ih => exact kept_page hmount haccepted hlimit ih hunfinished hok

theorem ordered_iff (hmount : Unmarked d) (h₀ : Provisioned d t₀)
  (haccepted : assertCanonicalPrefix pre = .ok ()) (hlimit : 0 < limit)
  (h : Reached d pre limit t₀ p) :
   (listed p.pages).Pairwise Before ↔ ∀ page ∈ p.pages, Resumable page := by
 have hkept := kept_reached hmount h₀ haccepted hlimit h
 refine ⟨fun hordered => ?_, fun hresumable => ?_⟩
 · induction h with
   | start => exact fun page hpage => by cases hpage
   | call h hallowed hok ih => exact ih (kept_reached hmount h₀ haccepted hlimit h) hordered
   | @page p timing result h hunfinished hok ih =>
    rw [listed_concat, List.pairwise_append] at hordered
    obtain ⟨hearlier, -, hbetween⟩ := hordered
    intro page hpage
    rcases List.mem_append.1 hpage with hold | hnew
    · exact ih (kept_reached hmount h₀ haccepted hlimit h) hearlier page hold
    · by_contra hlost
      -- a call that starts over answers a key before its cursor, which is listed
      obtain ⟨c, hcursor, key, hkey, hbefore⟩ := (hkept.answered page hpage).1.restarts hlost
      rw [List.mem_singleton.1 hnew] at hcursor hkey
      have hchained := (kept_reached hmount h₀ haccepted hlimit h).chained
      exact irrefl_of Before c
       (trans_of Before (hbetween c (cursorAfter_mem hchained hcursor) key hkey) hbefore)
 · exact (progress_chained hkept.chained fun page hpage =>
    (hkept.answered page hpage).1.resumes (hresumable page hpage)).ordered

end Runs

section Resumption

variable {ν : Type}

/-- A listing in pages throws only where the prefix's directory has a NUL in its path
    or a stored object's file in its place, and stays in order just as long as every
    call finds the key of its cursor or nothing up to it; then it misses nothing that
    stays, and it ends after as many pages as there are puts, and one. -/
theorem listing_resumes (d : LocalDiskDriver ν) (hmount : Unmarked d) {t₀ : FileSystem}
  (h₀ : Provisioned d t₀) {pre : Text} (haccepted : assertCanonicalPrefix pre = .ok ()) {limit : ℕ}
  (hlimit : 0 < limit) {p : Paging} (h : Reached d pre limit t₀ p) :
    (∀ timing, (∃ result, list d timing p.disk pre ⟨cursorAfter p.pages, some limit⟩ = .ok result) ↔
      holdsNul (dirNames pre) = false ∧ Unblocked p.store pre) ∧
    ((listed p.pages).Pairwise Before ↔ ∀ page ∈ p.pages, Resumable page) ∧
    ((∀ page ∈ p.pages, Resumable page) →
      (¬ Unfinished p.pages → ∀ key, (∀ page ∈ p.pages, key ∈ page.stored) → key ∈ listed p.pages) ∧
      p.pages.length ≤ p.puts.length + 1) := by
 have hkept := kept_reached hmount h₀ haccepted hlimit h
 have hordered := ordered_iff hmount h₀ haccepted hlimit h
 refine ⟨fun timing => ?_, hordered, fun hresumable => ⟨fun hfinished key hstored => ?_, ?_⟩⟩
 · constructor
   · rintro ⟨result, hok⟩
     by_contra hblocked
     obtain ⟨e, herror⟩ :=
      list_blocked hkept.holds haccepted hblocked timing ⟨cursorAfter p.pages, some limit⟩
     rw [hok] at herror
     cases herror
   · intro hfree
     obtain ⟨keys, -, -, hpage⟩ := list_page hkept.holds hmount haccepted hfree.1 hfree.2
      (cursorAfter p.pages) hlimit
     obtain ⟨result, hok, -⟩ := hpage timing
     exact ⟨result, hok⟩
 · have hprogress := progress_chained hkept.chained fun page hpage =>
    (hkept.answered page hpage).1.resumes (hresumable page hpage)
   exact (hprogress.ahead key hstored).resolve_right fun hahead => hfinished hahead.1
 · have hnodup : (listed p.pages).Nodup := (hordered.2 hresumable).imp fun hbefore => hbefore.2
   have hputs : listed p.pages ⊆ p.puts := by
    intro key hkey
    obtain ⟨page, hpage, hmem⟩ := List.mem_flatMap.1 hkey
    exact (hkept.answered page hpage).2 key hmem
   have hkeys := (hnodup.subperm hputs).length_le
   have hpages := (chained_length hkept.chained).1
   omega

def threePuts : List Call := [samplePut "a" 1, samplePut "b" 2, samplePut "c" 3]

def sampleTiming : Timing := ⟨fun _ => true, 0⟩

theorem reached_puts {t : FileSystem} (h : run sampleDriver sampleDisk threePuts = some t) :
  Reached sampleDriver [] 2 sampleDisk ⟨t, lastPuts threePuts, [],
   ["a".toList, "b".toList, "c".toList]⟩ := by
 obtain ⟨t₁, h₁, hrest⟩ := Option.bind_eq_some_iff.1 h
 obtain ⟨t₂, h₂, hrest'⟩ := Option.bind_eq_some_iff.1 hrest
 obtain ⟨t₃, h₃, hdone⟩ := Option.bind_eq_some_iff.1 hrest'
 cases hdone
 refine Reached.call (Reached.call (Reached.call .start ?_ h₁) ?_ h₂) ?_ h₃
 · exact (by decide : Plain "a".toList)
 · exact (by decide : Plain "b".toList)
 · exact (by decide : Plain "c".toList)

theorem samplePage {t : FileSystem} {s : Store} (h : Holds sampleDriver t s) (cursor : Option Text)
  {keys : List Text}
  (hordered : keys.Pairwise Before) (hkeys : ∀ key, key ∈ keys ↔ (s key).isSome) :
  ∃ result, list sampleDriver sampleTiming t [] ⟨cursor, some (2 : ℕ)⟩ = .ok result ∧
   result.objects.map StoredObject.key = (keys.drop (startOf keys cursor)).take 2 ∧
   result.nextCursor = if 2 < (keys.drop (startOf keys cursor)).length then
    ((keys.drop (startOf keys cursor)).take 2).getLast? else none := by
 have hfree : Unblocked s [] := fun owner _ =>
  ⟨fun hp => names_ne_nil _ (List.prefix_nil.1 hp), fun hp => names_ne_nil _ (List.prefix_nil.1 hp)⟩
 obtain ⟨keys', hordered', hkeys', hpage⟩ := list_page h (fun _ h => by cases h) rfl rfl hfree
  cursor (show 0 < 2 by decide)
 have heq : keys' = keys := ordered_unique hordered' hordered fun key =>
  (hkeys' key).trans ((and_iff_left List.nil_prefix).trans (hkeys key).symm)
 exact heq ▸ hpage sampleTiming

theorem stored_puts (key : Text) :
  (lastPuts threePuts key).isSome ↔ key ∈ ["a".toList, "b".toList, "c".toList] := by
 simp only [lastPuts, threePuts, samplePut, List.foldl_cons, List.foldl_nil, Call.apply,
  Function.update_apply]
 split
 · next h => simp [h]
 · split
   · next h => simp [h]
   · split
     · next h => simp [h]
     · simp_all

theorem run_puts :
  ∃ t, run sampleDriver sampleDisk threePuts = some t ∧ Holds sampleDriver t (lastPuts threePuts) := by
 have hok : (run sampleDriver sampleDisk threePuts).isSome = true := by decide
 obtain ⟨t, ht⟩ := Option.isSome_iff_exists.1 hok
 have hclear : Clear (fun _ => none) threePuts :=
  ⟨(by decide : Plain "a".toList), (by decide : Plain "b".toList), (by decide : Plain "c".toList), trivial⟩
 exact ⟨t, ht, holds_run (holds_provisioned sampleDisk_provisioned) hclear ht⟩

def remaining (key : Text) :
    List Text := ["a".toList, "b".toList, "c".toList].filter fun other => decide (other ≠ key)

theorem reached_deleted {key : Text} {rest : List Text} (hplain : Plain key) (hrest : remaining key = rest)
  (hdeleted : ((run sampleDriver sampleDisk threePuts).bind fun t => succeeded sampleDriver t
   (.delete key)).isSome = true) :
  ∃ p first second, Reached sampleDriver [] 2 sampleDisk p ∧ p.pages = [first, second] ∧
   first.cursor = none ∧ first.keys = ["a".toList, "b".toList] ∧ second.cursor = some "b".toList ∧
   second.keys = (rest.drop (startOf rest (some "b".toList))).take 2 ∧
    (∀ other, other ∈ rest → other ∈ second.stored) ∧
   second.next = if 2 <
    (rest.drop (startOf rest (some "b".toList))).length then second.keys.getLast? else none := by
 obtain ⟨t, ht, hholds⟩ := run_puts
 rw [ht] at hdeleted
 obtain ⟨t', hdelete⟩ := Option.isSome_iff_exists.1 hdeleted
 have hallowed : Allowed (lastPuts threePuts) (.delete key) := fun owner howner =>
  absurd howner (plain_ne_sidecar hplain)
 have hordered : rest.Pairwise Before := hrest ▸ List.Pairwise.filter _ (by decide)
 have hstored : ∀ other, other ∈ rest ↔ ((Call.delete key).apply (lastPuts threePuts) other).isSome := by
  intro other
  rw [← hrest, remaining, List.mem_filter, ← stored_puts, Call.apply, Function.update_apply,
   decide_eq_true_iff]
  split
  · next h => exact iff_of_false (fun hother => hother.2 h) (by simp)
  · next h => exact and_iff_left h
 obtain ⟨result, hok, hkeys, hnext⟩ := samplePage hholds none (by decide) fun key => (stored_puts key).symm
 have hfirst : result.nextCursor = some "b".toList := hnext
 obtain ⟨result', hok', hkeys', hnext'⟩ := samplePage (holds_step hholds hallowed hdelete)
  (some "b".toList) hordered hstored
 have hlisted := Reached.call (Reached.page (reached_puts ht) (.inl rfl) hok) hallowed hdelete
 have hunfinished : Unfinished ([] ++ [pageOf (lastPuts threePuts) [] none result]) :=
  .inr (by rw [List.nil_append]; exact congrArg Option.isSome hfirst)
 rw [← hfirst] at hok'
 refine ⟨_, _, _, Reached.page hlisted hunfinished hok', rfl, rfl, hkeys, hfirst, hkeys',
  fun other hother => ?_, ?_⟩
 · exact ⟨(hstored other).1 hother, List.nil_prefix⟩
 · rw [pageOf, hnext', hkeys']

/-- A consumer that deletes what it listed, but not the key of its cursor. -/
theorem listing_resumes_deleted : ∃ p, Reached sampleDriver [] 2 sampleDisk p ∧ p.pages.length = 2 ∧
    (listed p.pages).Pairwise Before ∧ ∀ key, (∀ page ∈ p.pages, key ∈ page.stored) →
     key ∈ listed p.pages := by
 obtain ⟨p, first, second, hreached, hpages, hfirst, -, hsecond, -, hstored, hnext⟩ :=
  reached_deleted (by decide : Plain "a".toList) (show _ = ["b".toList, "c".toList] by decide)
   (by decide +kernel)
 obtain ⟨-, hordered, hcomplete⟩ := listing_resumes sampleDriver (fun _ h => by cases h)
  sampleDisk_provisioned rfl (by decide) hreached
 have hresumable : ∀ page ∈ p.pages, Resumable page := by
  intro page hpage c hc
  rw [hpages] at hpage
  rcases List.mem_pair.1 hpage with rfl | rfl
  · rw [hfirst] at hc
    cases hc
  · rw [hsecond] at hc
    cases hc
    exact .inl (hstored _ (by decide))
 have hfinished : ¬ Unfinished p.pages := by
  rw [hpages]
  rintro (hnil | hmore)
  · cases hnil
  · have hlast : second.next = none := hnext
    rw [cursorAfter, List.getLast?_cons_cons, List.getLast?_singleton, Option.bind_some, hlast] at hmore
    cases hmore
 exact ⟨p, hreached, by rw [hpages]; rfl, hordered.2 hresumable, (hcomplete hresumable).1 hfinished⟩

/-- With the key of the cursor deleted between two pages, the second one starts over. -/
theorem listing_restarts :
  ∃ p, Reached sampleDriver [] 2 sampleDisk p ∧ ¬ (listed p.pages).Nodup := by
 obtain ⟨p, first, second, hreached, hpages, -, hkeys, -, hkeys', -, -⟩ :=
  reached_deleted (by decide : Plain "b".toList) (show _ = ["a".toList, "c".toList] by decide)
   (by decide +kernel)
 have hall : listed p.pages = ["a".toList, "b".toList, "a".toList, "c".toList] := by
  rw [hpages, listed, List.flatMap_cons, List.flatMap_singleton, hkeys, hkeys']
  decide
 exact ⟨p, hreached, fun hnodup => absurd (hall ▸ hnodup) (by decide)⟩

end Resumption

end BoardGamesEmpire.LocalDisk
