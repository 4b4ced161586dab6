import BoardGamesEmpire.SecureHttpIpPolicy

set_option autoImplicit false

/-!
# Spellings of a blocked host

DNS takes two names for one when they differ in letter case or in the trailing
dot of the root. The block lists compare texts, after lower-casing the host.
-/
namespace BoardGamesEmpire.SecureHttpHostnames
open JsText SecureHttpIp SecureHttpIpRoundTrip SecureHttpCidr SecureHttpIpPolicy

def unrooted (name : Text) : Text := if name.getLast? = some '.' then name.dropLast else name

def toggleRoot (name : Text) : Text := if name.getLast? = some '.' then name.dropLast else name ++ ['.']

def SameName (a b : Text) : Prop := lowerCase (unrooted a) = lowerCase (unrooted b)

instance (a b : Text) : Decidable (SameName a b) := inferInstanceAs (Decidable (_ = _))

def NameBlocked (snapshot : SafeHttpPolicySnapshot) (name : Text) : Prop :=
  name ∈ permanentBlockedHostnames ∨
   hostnameMatchesAny name snapshot.blockedHosts (!snapshot.strictMode) = true

def Rejects (outcome : Except EvaluateError IpPolicyDecision) : Prop :=
  ∃ decision, outcome = .ok (.reject decision)

def BlockedSpelling (snapshot : SafeHttpPolicySnapshot) (host : Text) : Prop :=
  ∃ name, NameBlocked snapshot name ∧ SameName host name

section Decisions

variable {casing : LowerCasing} {url : Url} {snapshot : SafeHttpPolicySnapshot}

theorem evaluate_hosts (hscheme : url.protocol = "http:".toList ∨ url.protocol = "https:".toList)
  (resolveAll : Text → DnsAnswer) :
  (NameBlocked snapshot (casing.toLowerCase url.hostname) →
   Rejects (evaluate casing resolveAll url snapshot)) ∧
  (¬ NameBlocked snapshot (casing.toLowerCase url.hostname) →
   resolveAll (casing.toLowerCase url.hostname) = .otherError →
    evaluate casing resolveAll url snapshot = .error .resolver) := by
 obtain ⟨⟨permanent, hpermanent⟩, defaultPrivate, hprivate⟩ := constants_parse casing
 have hscheme' : ¬ (url.protocol ≠ "http:".toList ∧ url.protocol ≠ "https:".toList) := by tauto
 simp only [evaluate, hpermanent, hprivate, liftRange, bind, Except.bind, List.contains_iff_mem]
 rw [if_neg hscheme']
 by_cases hhost : casing.toLowerCase url.hostname ∈ permanentBlockedHostnames
 · rw [if_pos hhost]
   exact ⟨fun _ => ⟨_, rfl⟩, fun hnot => absurd (.inl hhost) hnot⟩
 rw [if_neg hhost]
 by_cases hlisted : hostnameMatchesAny (casing.toLowerCase url.hostname) snapshot.blockedHosts
   (!snapshot.strictMode) = true
 · rw [if_pos hlisted]
   exact ⟨fun _ => ⟨_, rfl⟩, fun hnot => absurd (.inr hlisted) hnot⟩
 rw [if_neg hlisted]
 constructor
 · rintro (h | h)
   · exact absurd h hhost
   · exact absurd h hlisted
 · intro _ hdns
   rw [hdns]

/-- A host is rejected in every spelling of a blocked name exactly when the
    spelling at hand is listed itself. -/
theorem spellings_rejected_iff (casing : LowerCasing) (url : Url) (snapshot : SafeHttpPolicySnapshot)
    (hscheme : url.protocol = "http:".toList ∨ url.protocol = "https:".toList) :
    (BlockedSpelling snapshot url.hostname → ∀ resolveAll allowedHosts allowedCidrs,
      Rejects (evaluate casing resolveAll url
        { snapshot with allowedHosts := allowedHosts, allowedCidrs := allowedCidrs })) ↔
      (BlockedSpelling snapshot url.hostname →
       NameBlocked snapshot (casing.toLowerCase url.hostname)) := by
 constructor
 · intro hrejects hspelling
   by_contra hnot
   obtain ⟨decision, hdecision⟩ := hrejects hspelling (fun _ => .otherError) [] []
   have hthrows := (evaluate_hosts hscheme fun _ => .otherError).2
    (show ¬ NameBlocked { snapshot with allowedHosts := [], allowedCidrs := [] } _ from hnot) rfl
   rw [hthrows] at hdecision
   cases hdecision
 · intro hlisted hspelling resolveAll allowedHosts allowedCidrs
   exact (evaluate_hosts hscheme resolveAll).1 (hlisted hspelling)

/-- A public host behind a metadata name that ends in the root dot. -/
theorem rooted_metadata_allowed :
    ¬ ∀ (casing : LowerCasing) (url : Url) (snapshot : SafeHttpPolicySnapshot) (name : Text),
      url.protocol = "http:".toList ∨ url.protocol = "https:".toList → NameBlocked snapshot name →
      SameName url.hostname name → ∀ resolveAll allowedHosts allowedCidrs,
        Rejects (evaluate casing resolveAll url
          { snapshot with allowedHosts := allowedHosts, allowedCidrs := allowedCidrs }) := by
 intro h
 obtain ⟨decision, hdecision⟩ := h asciiLowerCasing
  ⟨"http:".toList, "metadata.google.internal.".toList⟩ (blocking [])
  "metadata.google.internal".toList (.inl rfl) (.inl (by decide)) (by decide) publicResolver [] []
 have hallowed : evaluate asciiLowerCasing publicResolver
   ⟨"http:".toList, "metadata.google.internal.".toList⟩ (blocking []) =
    .ok (.allow ⟨"metadata.google.internal.".toList, "93.184.216.34".toList, .v4⟩) := by decide +kernel
 cases hallowed.symm.trans hdecision

theorem plain_metadata_rejected : Rejects (evaluate asciiLowerCasing publicResolver
    ⟨"http:".toList, "metadata.google.internal".toList⟩ (blocking [])) :=
 (spellings_rejected_iff asciiLowerCasing ⟨"http:".toList, "metadata.google.internal".toList⟩
  (blocking []) (.inl rfl)).2
  (fun _ => .inl (by decide)) ⟨"metadata.google.internal".toList, .inl (by decide), rfl⟩
   publicResolver [] []

end Decisions

section Spellings

variable {snapshot : SafeHttpPolicySnapshot} {name host : Text}

theorem rooted_cases (name : Text) :
  (name.getLast? ≠ some '.' ∧ unrooted name = name) ∨
   (name.getLast? = some '.' ∧ name = unrooted name ++ ['.']) := by
 by_cases hlast : name.getLast? = some '.'
 · right
   obtain ⟨front, rfl⟩ := List.getLast?_eq_some_iff.1 hlast
   exact ⟨hlast, by rw [unrooted, if_pos hlast, List.dropLast_concat]⟩
 · exact .inl ⟨hlast, if_neg hlast⟩

theorem toLower_eq_dot (c : Char) : c.toLower = '.' ↔ c = '.' := by
 constructor
 · intro h
   have halpha : c.isAlpha = false := by
    rw [← Char.isAlpha_toLower_eq_isAlpha, h]
    rfl
   rw [← h]
   refine (Char.toLower_eq_of_not_isUpper ?_).symm
   intro hupper
   simp [Char.isAlpha, hupper] at halpha
 · rintro rfl
   rfl

theorem unrooted_concat (front : Text) : unrooted (front ++ ['.']) = front := by
 simp [unrooted]

theorem lower_unrooted (name : Text) : lowerCase (unrooted name) = unrooted (lowerCase name) := by
 rcases rooted_cases name with ⟨hlast, hplain⟩ | ⟨hlast, hrooted⟩
 · have hlower : (lowerCase name).getLast? ≠ some '.' := by
    rw [lowerCase, List.getLast?_map]
    cases hname : name.getLast? with
    | none => simp
    | some c =>
     rw [Option.map_some]
     intro h
     exact hlast (hname.trans (congrArg some ((toLower_eq_dot c).1 (Option.some.inj h))))
   rw [hplain, unrooted, if_neg hlower]
 · have hlower : lowerCase name = lowerCase (unrooted name) ++ ['.'] := by
    conv_lhs => rw [hrooted, lowerCase, List.map_append]
    rfl
   rw [hlower, unrooted_concat]

theorem NameBlocked.lower (h : NameBlocked snapshot name)
  (hlists : ∀ entry ∈ snapshot.blockedHosts, lowerCase entry = entry) :
  NameBlocked snapshot (lowerCase name) := by
 rcases h with hpermanent | hlisted
 · left
   have hfixed : ∀ entry ∈ permanentBlockedHostnames, lowerCase entry = entry := by decide
   rw [hfixed name hpermanent]
   exact hpermanent
 · obtain ⟨entry, hentry, hmatches⟩ := (hostnameMatchesAny_iff _ _ _).1 hlisted
   refine .inr ((hostnameMatchesAny_iff _ _ _).2 ⟨entry, hentry, ?_⟩)
   have hfixed := hlists entry hentry
   rcases hmatches with ⟨rest, label, rfl, hstrict, hlabel, rfl⟩ | ⟨hexact, rfl⟩
   · have hrest : lowerCase ('.' :: rest) = '.' :: rest := (List.cons.inj hfixed).2
     refine .inl ⟨rest, lowerCase label, rfl, hstrict, ?_, ?_⟩
     · intro hnil
       exact hlabel (List.map_eq_nil_iff.1 hnil)
     · rw [lowerCase, List.map_append]
       exact congrArg _ hrest
   · rw [hfixed]
     exact .inr ⟨hexact, rfl⟩

/-- Over lower-case lists a spelling of a blocked name can miss only by its root dot. -/
theorem blockedSpelling_root (hlists : ∀ entry ∈ snapshot.blockedHosts, lowerCase entry = entry)
  (hhost : lowerCase host = host) (h : BlockedSpelling snapshot host) :
  NameBlocked snapshot host ∨ NameBlocked snapshot (toggleRoot host) := by
 obtain ⟨name, hblocked, hsame⟩ := h
 have hlower := hblocked.lower hlists
 rw [SameName, lower_unrooted, lower_unrooted, hhost] at hsame
 have hspelled : lowerCase name = host ∨ lowerCase name = toggleRoot host := by
  rcases rooted_cases host with ⟨hlast, hplain⟩ | ⟨hlast, hrooted⟩
  · rcases rooted_cases (lowerCase name) with ⟨-, hname⟩ | ⟨-, hname⟩
    · exact .inl (hname.symm.trans (hsame.symm.trans hplain))
    · right
      rw [hname, ← hsame, hplain, toggleRoot, if_neg hlast]
  · rcases rooted_cases (lowerCase name) with ⟨-, hname⟩ | ⟨-, hname⟩
    · right
      rw [← hname, ← hsame, toggleRoot, if_pos hlast, unrooted, if_pos hlast]
    · left
      rw [hname, ← hsame, ← hrooted]
 rcases hspelled with heq | heq
 · exact .inl (heq ▸ hlower)
 · exact .inr (heq ▸ hlower)

theorem blockedSpelling_root_dot :
  NameBlocked ⟨true, [], [], ["intranet.local".toList], []⟩ "intranet.local.".toList ∨
    NameBlocked ⟨true, [], [], ["intranet.local".toList], []⟩ "intranet.local".toList :=
 @blockedSpelling_root ⟨true, [], [], ["intranet.local".toList], []⟩ "intranet.local.".toList
  (by decide) (by decide)
  ⟨"intranet.local".toList, .inr (by decide), by decide⟩

end Spellings

end BoardGamesEmpire.SecureHttpHostnames
