import BoardGamesEmpire.EventBallotSafe
import BoardGamesEmpire.EventLifecycleRuns

set_option autoImplicit false

/-!
# The outcomes of nominations, over whole runs

That an outcome is final and counted once, whatever overlaps, and when the
votes it counts were cast within the nomination's window.
-/
namespace BoardGamesEmpire.EventPlanning
open JsText ReadCommitted ReadCommittedProtocol

section Sound

variable (percentOf : ℕ → ℕ → ℕ)

theorem safe_of_plain {code : EventProgram} (h : Plain [] code) (σ : State) :
  Safe (ballot percentOf) code [] [] σ :=
 safe_of_stepwise composes_ballotRow
  (fun _ _ _ _ _ _ hrows hplain => ballotStep_of_rows hrows hplain) code [] [] [] σ h
  (List.nil_subset _) fun _ _ => composes_ballotRow.refl _ _ _

theorem ballot_safe_program (request : Request) (σ : State) :
  Safe (ballot percentOf) (program percentOf request) [] [] σ := by
 cases request with
 | createEvent userId mayCreate invitable dto =>
  exact safe_of_plain percentOf (plain_createEvent userId mayCreate invitable dto) σ
 | updateEvent ceiling dto relations =>
  exact safe_of_plain percentOf (plain_updateEvent ceiling dto relations) σ
 | deleteEvent userId ceiling => exact safe_of_plain percentOf (plain_deleteEvent userId ceiling) σ
 | cancelEvent userId ceiling reason =>
  exact safe_of_plain percentOf (plain_cancelEvent userId ceiling reason) σ
 | reopenEvent userId ceiling => exact safe_of_plain percentOf (plain_reopenEvent userId ceiling) σ
 | archiveEvent ceiling => exact safe_of_plain percentOf (plain_archiveEvent ceiling) σ
 | unarchiveEvent ceiling => exact safe_of_plain percentOf (plain_unarchiveEvent ceiling) σ
 | addOccurrence mayCreate dto => exact safe_of_plain percentOf (plain_addOccurrence mayCreate dto) σ
 | updateOccurrence ceiling id dto =>
  exact safe_of_plain percentOf (plain_updateOccurrence ceiling id dto) σ
 | removeOccurrence ceiling id => exact safe_of_plain percentOf (plain_removeOccurrence ceiling id) σ
 | confirmOccurrence ceiling id =>
  exact safe_of_plain percentOf (plain_query fun _ _ => plain_transitionStatus ceiling) σ
 | declineOccurrence ceiling id =>
  exact safe_of_plain percentOf (plain_query fun _ _ => plain_transitionStatus ceiling) σ
 | cancelOccurrence userId ceiling id reason =>
  exact safe_of_plain percentOf (plain_query fun _ _ => plain_transitionStatus ceiling) σ
 | nominate userId mayCreate dto => exact safe_nominate userId mayCreate dto σ
 | withdraw userId ceiling id => exact safe_of_plain percentOf (plain_withdraw userId ceiling id) σ
 | castVote userId mayVote id dto => exact safe_castVote userId mayVote id dto σ
 | resolveNomination ceiling id => exact safe_resolveNomination ceiling id σ
 | hostApprove ceiling id => exact safe_hostDecision ceiling id .approved σ
 | hostReject ceiling id => exact safe_hostDecision ceiling id .rejected σ
 | directAddGame userId mayCreate dto =>
  exact safe_of_plain percentOf (plain_directAddGame userId mayCreate dto) σ
 | addAttendee userId mayCreate invitable dto =>
  exact safe_of_plain percentOf (plain_addAttendee userId mayCreate invitable dto) σ
 | removeAttendee ceiling id => exact safe_of_plain percentOf (plain_removeAttendee ceiling id) σ
 | updateStatus ceiling id dto => exact safe_of_plain percentOf (plain_updateStatus ceiling id dto) σ
 | addGameToList mayCreate attendeeId collectionId =>
  exact safe_of_plain percentOf (plain_addGameToList mayCreate attendeeId collectionId) σ
 | removeGameFromList ceiling attendeeId gameListId =>
  exact safe_of_plain percentOf (plain_removeGameFromList ceiling attendeeId gameListId) σ

theorem lookup_outside {σ : State} {w : Write Row} (hw : outside w.key = true) {k : Key}
  (hk : outside k = false) :
  (applyWrite σ.db w).lookup k = σ.db.lookup k := by
 apply lookup_applyWrite_ne
 rintro rfl
 rw [hw] at hk
 cases hk

theorem ballot_sound : Sound (ballot percentOf) (program percentOf) where
 safe request σ _ := ballot_safe_program percentOf request σ
 tick _ h := h
 commit _ _ _ hinv heffect := heffect.tallied hinv
 outside σ w hinv hw n := by
  refine (hinv n).trans ?_
  change _ = if won (applyWrite σ.db w) n then 1 else 0
  rw [won, won, nomination?, nomination?, lookup_outside hw rfl]

theorem ballot_induction (motive : State → Prop) (hstart : motive ⟨∅, 0, []⟩)
  (hmoves : ∀ σ σ', Tallied σ → motive σ → Moves (ballot percentOf) σ σ' → motive σ')
  {s : Sys Row Advisory Mutation} (h : EventReachable percentOf s) : motive s.shared :=
 reachable_induction (ballot_sound percentOf) (fun n => by simp [everCreated, won]) motive hstart hmoves h

end Sound

section Outcomes

variable {percentOf : ℕ → ℕ → ℕ} {s : Sys Row Advisory Mutation}

def KeptIn (db db' : Db) : Prop :=
  ∀ n row, nomination? db n = some row → ∃ row', nomination? db' n = some row' ∧ Kept row row'

theorem KeptIn.trans {db db' db'' : Db} (h : KeptIn db db') (h' : KeptIn db' db'') :
  KeptIn db db'' := by
 intro n row hrow
 obtain ⟨row', hrow', hkept⟩ := h n row hrow
 obtain ⟨row'', hrow'', hkept'⟩ := h' n row' hrow'
 exact ⟨row'', hrow'', hkept.trans hkept'⟩

theorem keptIn_outside {σ : State} {w : Write Row} (hw : outside w.key = true) :
  KeptIn σ.db (applyWrite σ.db w) :=
 fun _ row hrow => ⟨row, (lookup_outside hw rfl).trans hrow, .refl row⟩

def KeptFrom (σ : State) : Prop :=
  (∀ (i j : ℕ) entry entry', i ≤ j → σ.ledger[i]? = some entry → σ.ledger[j]? = some entry' →
    KeptIn entry.after entry'.after) ∧
  ∀ entry ∈ σ.ledger, KeptIn entry.after σ.db

theorem KeptFrom.commit {σ : State} {m : Mutation} {db' : Db} (h : KeptFrom σ)
  (hkept : KeptIn σ.db db') :
  KeptFrom (σ.commit m db') := by
 have hself : KeptIn db' db' := fun _ row hrow => ⟨row, hrow, .refl row⟩
 refine ⟨fun i j entry entry' hij hi hj => ?_, fun entry hentry => ?_⟩
 · rcases getElem?_concat_cases hj with hjold | ⟨hjlast, rfl⟩
   · rcases getElem?_concat_cases hi with hiold | ⟨hilast, -⟩
     · exact h.1 i j entry entry' hij hiold hjold
     · have hlt := (List.getElem?_eq_some_iff.1 hjold).1
       omega
   · rcases getElem?_concat_cases hi with hiold | ⟨-, rfl⟩
     · exact (h.2 entry (List.mem_of_getElem? hiold)).trans hkept
     · exact hself
 · rcases List.mem_append.1 hentry with hold | hnew
   · exact (h.2 entry hold).trans hkept
   · rw [List.mem_singleton.1 hnew]
     exact hself

structure Fair (percentOf : ℕ → ℕ → ℕ) (entry : Entry Row Mutation) : Prop where
  kept : KeptIn entry.before entry.after
  games : ∀ n, createdFor n entry.before entry.after = if won entry.after n && !won entry.before
   n then 1 else 0
  cast : ∀ n attendeeId old new, entry.event = .voteCast n attendeeId old new →
    (nomination? entry.before n).any (·.status = .open) = true ∧ vote? entry.after n attendeeId = some new
  votes : ∀ n attendeeId, vote? entry.after n attendeeId ≠ vote? entry.before n attendeeId →
    ∃ old new, entry.event = .voteCast n attendeeId old new
  counted : ∀ id updated gameId counted voters takenOn,
    entry.event = .nominationResolved id updated gameId counted voters takenOn →
      Counted percentOf entry.before entry.after id updated counted voters takenOn

theorem BallotStep.fair {σ : State} {m : Mutation} {db' : Db} (h : BallotStep percentOf σ m db') :
  Fair percentOf ⟨m, σ.clock, σ.db, db'⟩ := ⟨h.kept, h.games, h.cast, h.votes, h.counted⟩

theorem reachable_fair (h : EventReachable percentOf s) :
  KeptFrom s.shared ∧ Tallied s.shared ∧ ∀ entry ∈ s.shared.ledger, Fair percentOf entry := by
 refine ballot_induction percentOf
  (fun σ => KeptFrom σ ∧ Tallied σ ∧ ∀ entry ∈ σ.ledger, Fair percentOf entry) ?_ ?_ h
 · exact ⟨⟨by simp, by simp⟩, fun n => by simp [everCreated, won], by simp⟩
 · intro σ σ' hinv hheld hmove
   obtain ⟨hkept, htallied, hfair⟩ := hheld
   cases hmove with
   | tick => exact ⟨hkept, htallied, hfair⟩
   | outside w hw =>
    refine ⟨⟨hkept.1, fun entry hentry => (hkept.2 entry hentry).trans (keptIn_outside hw)⟩, ?_, hfair⟩
    exact (ballot_sound percentOf).outside σ w htallied hw
   | commit m db' hstep =>
    refine ⟨hkept.commit hstep.kept, hstep.tallied hinv, fun entry hentry => ?_⟩
    rcases List.mem_append.1 hentry with hold | hnew
    · exact hfair entry hold
    · rw [List.mem_singleton.1 hnew]
      exact hstep.fair

/-- An outcome is final; a nomination that won had one game and no other had
    any; votes are written while their nomination is open; and a resolve stores
    the count of the votes it took its lock on. -/
theorem nomination_outcomes (h : EventReachable percentOf s) :
    (∀ (i j : ℕ) entry entry', i ≤ j → s.shared.ledger[i]? = some entry →
     s.shared.ledger[j]? = some entry' →
      ∀ n row, nomination? entry.after n = some row → isFinal row.status = true →
        ∃ row', nomination? entry'.after n = some row' ∧ row'.status = row.status) ∧
    (∀ n, ((∃ entry ∈ s.shared.ledger, won entry.after n = true) → everCreated n s.shared.ledger = 1) ∧
      ((∀ entry ∈ s.shared.ledger, won entry.after n = false) → everCreated n s.shared.ledger = 0)) ∧
    ∀ entry ∈ s.shared.ledger, Fair percentOf entry := by
 obtain ⟨hkept, htallied, hfair⟩ := reachable_fair h
 refine ⟨fun i j entry entry' hij hi hj n row hrow hfinal => ?_, fun n => ⟨?_, ?_⟩, hfair⟩
 · obtain ⟨row', hrow', hrows⟩ := hkept.1 i j entry entry' hij hi hj n row hrow
   exact ⟨row', hrow', hrows.final hfinal⟩
 · rintro ⟨entry, hentry, hwon⟩
   have hnow : won s.shared.db n = true := by
    cases hrow : nomination? entry.after n with
    | none => simp [won, hrow] at hwon
    | some row =>
     obtain ⟨row', hrow', hrows⟩ := hkept.2 entry hentry n row hrow
     rw [won, hrow, Option.any_some] at hwon
     rw [won, hrow', Option.any_some, hrows.final (isFinal_of_elevates hwon)]
     exact hwon
   rw [htallied n, hnow, if_pos rfl]
 · intro hnever
   refine List.sum_eq_zero fun created hcreated => ?_
   obtain ⟨entry, hentry, rfl⟩ := List.mem_map.1 hcreated
   rw [(hfair entry hentry).games n, hnever entry hentry]
   rfl

end Outcomes

section Window

variable {percentOf : ℕ → ℕ → ℕ} {s : Sys Row Advisory Mutation}

def ClosedInTime (entry : Entry Row Mutation) : Prop :=
  ∀ n row deadline, nomination? entry.before n = some row → row.status = .open →
   row.votingDeadline = some deadline →
    entry.time ≤ deadline

structure LastCast (earlier : List (Entry Row Mutation)) (n attendeeId : ℕ) (vote : GameVote)
    (past : List (Entry Row Mutation)) (cast : Entry Row Mutation)
     (since : List (Entry Row Mutation)) : Prop where
  split : earlier = past ++ cast :: since
  wrote : ∃ old, cast.event = .voteCast n attendeeId old vote
  last : ∀ entry ∈ since, ∀ old new, entry.event ≠ .voteCast n attendeeId old new

def Cast (db : Db) (earlier : List (Entry Row Mutation)) : Prop :=
  ∀ n attendeeId vote, vote? db n attendeeId = some vote →
    ∃ past cast since, LastCast earlier n attendeeId vote past cast since

theorem Cast.commit {σ : State} {m : Mutation} {db' : Db} (h : Cast σ.db σ.ledger)
  (hstep : BallotStep percentOf σ m db') :
  Cast db' (σ.commit m db').ledger := by
 intro n attendeeId vote hvote
 by_cases hcast : ∃ old new, m = .voteCast n attendeeId old new
 · obtain ⟨old, new, rfl⟩ := hcast
   obtain rfl := Option.some.inj ((hstep.cast n attendeeId old new rfl).2.symm.trans hvote)
   exact ⟨σ.ledger, _, [], rfl, ⟨old, rfl⟩, fun entry hentry => absurd hentry List.not_mem_nil⟩
 · have hsame : vote? db' n attendeeId = vote? σ.db n attendeeId := by
    by_contra hne
    exact hcast (hstep.votes n attendeeId hne)
   obtain ⟨past, cast, since, hsplit, hwrote, hlast⟩ := h n attendeeId vote (hsame.symm.trans hvote)
   refine ⟨past, cast, since ++ [⟨m, σ.clock, σ.db, db'⟩], ?_, hwrote,
    fun entry hentry old new hevent => ?_⟩
   · rw [Shared.commit, hsplit, List.append_assoc, List.cons_append]
   · rcases List.mem_append.1 hentry with hold | hnew
     · exact hlast entry hold old new hevent
     · rw [List.mem_singleton.1 hnew] at hevent
       exact hcast ⟨old, new, hevent⟩

theorem reachable_cast (h : EventReachable percentOf s) : Cast s.shared.db s.shared.ledger ∧
  ∀ earlier entry later, s.shared.ledger = earlier ++ entry :: later → Cast entry.before earlier := by
 refine ballot_induction percentOf (fun σ => Cast σ.db σ.ledger ∧
  ∀ earlier entry later, σ.ledger = earlier ++ entry :: later → Cast entry.before earlier) ?_ ?_ h
 · exact ⟨fun n attendeeId vote hvote => by simp at hvote, fun earlier entry later hsplit => by simp at hsplit⟩
 · intro σ σ' _ hheld hmove
   obtain ⟨hcast, hbefore⟩ := hheld
   cases hmove with
   | tick => exact ⟨hcast, hbefore⟩
   | outside w hw =>
    exact ⟨fun n attendeeId vote hvote => hcast n attendeeId vote
     ((lookup_outside hw rfl).symm.trans hvote), hbefore⟩
   | commit m db' hstep =>
    refine ⟨hcast.commit hstep, fun earlier entry later hsplit => ?_⟩
    have hsplit' : σ.ledger ++ [⟨m, σ.clock, σ.db, db'⟩] = earlier ++ entry :: later := hsplit
    rcases List.eq_nil_or_concat later with rfl | ⟨later', last, rfl⟩
    · obtain ⟨rfl, hlast⟩ := List.append_inj' hsplit' rfl
      obtain rfl := (List.cons.inj hlast).1
      exact hcast
    · rw [List.concat_eq_append, ← List.cons_append, ← List.append_assoc] at hsplit'
      obtain ⟨hold, -⟩ := List.append_inj' hsplit' rfl
      exact hbefore earlier entry later' hold

def CountedInTime (ledger : List (Entry Row Mutation)) : Prop :=
  ∀ earlier entry later, ledger = earlier ++ entry :: later →
    ∀ id updated gameId counted voters takenOn deadline,
      entry.event = .nominationResolved id updated gameId counted voters takenOn →
      updated.votingDeadline = some deadline → ∀ attendeeId vote, (attendeeId, vote) ∈ votesOn takenOn id →
        ∃ past cast since, LastCast earlier id attendeeId vote past cast since ∧ cast.time ≤ deadline

/-- What a run counts is in time if its nominations are resolved, withdrawn or
    paused by their deadlines, however long a vote waits to be counted. -/
theorem votes_within_window (h : EventReachable percentOf s)
    (hclosed : ∀ entry ∈ s.shared.ledger, ClosedInTime entry) : CountedInTime s.shared.ledger := by
 intro earlier entry later hsplit id updated gameId counted voters takenOn deadline hevent hdeadline attendeeId vote hvote
 obtain ⟨hkept, -, hfair⟩ := reachable_fair h
 have hentry : entry ∈ s.shared.ledger := by
  rw [hsplit]
  exact List.mem_append_right _ List.mem_cons_self
 have hcounted := (hfair entry hentry).counted _ _ _ _ _ _ hevent
 obtain ⟨past, cast, since, hlast⟩ := (reachable_cast h).2 earlier entry later hsplit id attendeeId vote
  ((hcounted.same.2 attendeeId).trans (mem_votesOn.1 hvote))
 refine ⟨past, cast, since, hlast, ?_⟩
 have hledger : s.shared.ledger = past ++ cast :: (since ++ entry :: later) := by
  rw [hsplit, hlast.split, List.append_assoc, List.cons_append]
 have hmem : cast ∈ s.shared.ledger := by
  rw [hledger]
  exact List.mem_append_right _ List.mem_cons_self
 -- the deadline the vote was cast under is the one the resolve finds
 obtain ⟨old, hwrote⟩ := hlast.wrote
 have hopen := ((hfair cast hmem).cast _ _ _ _ hwrote).1
 cases hrow : nomination? cast.before id with
 | none =>
  rw [hrow] at hopen
  cases hopen
 | some row =>
  obtain ⟨row', hrow', hkept'⟩ := (hfair cast hmem).kept id row hrow
  have hcast : s.shared.ledger[past.length]? = some cast := by simp [hledger]
  have hresolve : s.shared.ledger[earlier.length]? = some entry := by simp [hsplit]
  have hbefore : past.length ≤ earlier.length := by
   rw [hlast.split, List.length_append]
   omega
  obtain ⟨row'', hrow'', hkept''⟩ := hkept.1 _ _ cast entry hbefore hcast hresolve id row' hrow'
  obtain rfl := Option.some.inj (hrow''.symm.trans hcounted.stored.1)
  have hsame : row.votingDeadline = some deadline :=
   (hkept''.deadline.trans hkept'.deadline).symm.trans hdeadline
  have hstatus : row.status = .open := by simpa [hrow] using hopen
  exact hclosed cast hmem id row deadline hrow hstatus hsame

end Window

section Samples

def votingEvent : CreateEvent :=
  { sampleEvent with policy := ⟨.requiresVote, .simpleMajority, none, .none, none, .allAttendees, .asAbstain, some 1⟩ }

def nominated : List (Action Row Request) :=
  [.outside ⟨.collection 100, some ⟨1, 7, none⟩⟩, .outside ⟨.voteGrant .host, some ()⟩,
    .spawn (.createEvent 1 (fun _ => true) anyone votingEvent)] ++ steps 0 6 ++
    .spawn (.addGameToList (fun _ _ => true) 6 100) :: steps 1 7

def votedOn : List (Action Row Request) :=
  nominated ++ .spawn (.nominate 1 (fun _ => true) ⟨7, 15, none⟩) :: steps 2 9

def voteThenResolve : List (Action Row Request) :=
  .spawn (.castVote 1 (fun _ => true) 25 ⟨.inFavour, none, none⟩) :: steps 3 6 ++
    .spawn (.resolveNomination anyone 25) :: steps 4 11

def outcomes (s : Sys Row Advisory Mutation) : List (ℕ × Bool) × ℕ :=
  ((nominations s.shared.db).map fun n => (n.1, elevates n.2.status), everCreated 25 s.shared.ledger)

theorem nomination_outcomes_passed :
  ∃ s : Sys Row Advisory Mutation, outcomes s = ([(25, true)], 1) ∧
    (∀ (i j : ℕ) entry entry', i ≤ j → s.shared.ledger[i]? = some entry →
     s.shared.ledger[j]? = some entry' →
      ∀ n row, nomination? entry.after n = some row → isFinal row.status = true →
        ∃ row', nomination? entry'.after n = some row' ∧ row'.status = row.status) ∧
    (∀ n, ((∃ entry ∈ s.shared.ledger, won entry.after n = true) → everCreated n s.shared.ledger = 1) ∧
      ((∀ entry ∈ s.shared.ledger, won entry.after n = false) → everCreated n s.shared.ledger = 0)) ∧
    ∀ entry ∈ s.shared.ledger, Fair ceilPercent entry := by
 have hrun : (run (program ceilPercent) outside (initial ∅) (votedOn ++ voteThenResolve)).map outcomes =
   some ([(25, true)], 1) := by decide +kernel
 obtain ⟨s, hs, houtcomes⟩ := Option.map_eq_some_iff.1 hrun
 exact ⟨s, houtcomes, nomination_outcomes (reachable_of_run hs)⟩

def closedInTime (entry : Entry Row Mutation) : Bool :=
  (nominations entry.before).all fun n =>
    n.2.status != .open || n.2.votingDeadline.all fun deadline => entry.time ≤ deadline

theorem closedInTime_of_check {entry : Entry Row Mutation} (h : closedInTime entry = true) :
  ClosedInTime entry := by
 intro n row deadline hrow hstatus hdeadline
 have hmem : (n, row) ∈ nominations entry.before := mem_select.2 ⟨.nomination n, row, hrow, rfl⟩
 have hchecked := List.all_eq_true.1 h (n, row) hmem
 simpa [hstatus, hdeadline] using hchecked

def ballots (s : Sys Row Advisory Mutation) : List (ℕ × Bool) :=
  (votesOn s.shared.db 25).map fun vote => (vote.1, vote.2.voteType == .inFavour)

theorem votes_counted_in_time : ∃ s : Sys Row Advisory Mutation, outcomes s = ([(25, true)], 1) ∧
    ballots s = [(6, true)] ∧ CountedInTime s.shared.ledger := by
 have hrun : (run (program ceilPercent) outside (initial ∅) (votedOn ++ voteThenResolve)).map
   (fun s => ((outcomes s, ballots s), s.shared.ledger.all closedInTime)) =
   some ((([(25, true)], 1), [(6, true)]), true) := by decide +kernel
 obtain ⟨s, hs, hcheck⟩ := Option.map_eq_some_iff.1 hrun
 obtain ⟨hresult, hclosed⟩ := Prod.mk.inj hcheck
 obtain ⟨houtcomes, hballots⟩ := Prod.mk.inj hresult
 exact ⟨s, houtcomes, hballots, votes_within_window (reachable_of_run hs) fun entry hentry =>
  closedInTime_of_check (List.all_eq_true.1 hclosed entry hentry)⟩

def countsBy (deadline : ℕ) (entry : Entry Row Mutation) : Bool :=
  match entry.event with
  | .nominationResolved id updated _ _ _ takenOn => updated.votingDeadline == some deadline &&
   !(votesOn takenOn id).isEmpty
  | _ => false

def castsAfter (deadline : ℕ) (entry : Entry Row Mutation) : Bool :=
  match entry.event with
  | .voteCast _ _ _ _ => deadline < entry.time
  | _ => true

theorem not_countedInTime {ledger : List (Entry Row Mutation)} {deadline : ℕ}
  (hcast : ledger.all (castsAfter deadline) = true)
  (hcounts : ledger.any (countsBy deadline) = true) :
  ¬ CountedInTime ledger := by
 intro h
 obtain ⟨entry, hentry, hby⟩ := List.any_eq_true.1 hcounts
 obtain ⟨earlier, later, hsplit⟩ := List.append_of_mem hentry
 cases hevent : entry.event with
 | nominationResolved id updated gameId counted voters takenOn =>
  have hvoted : updated.votingDeadline = some deadline ∧ votesOn takenOn id ≠ [] := by
   simpa [countsBy, hevent] using hby
  obtain ⟨⟨attendeeId, vote⟩, hvote⟩ := List.exists_mem_of_ne_nil _ hvoted.2
  obtain ⟨past, cast, since, hlast, htime⟩ :=
   h earlier entry later hsplit id updated gameId counted voters takenOn deadline hevent hvoted.1
    attendeeId vote hvote
  have hmem : cast ∈ ledger := by simp [hsplit, hlast.split]
  obtain ⟨old, hwrote⟩ := hlast.wrote
  have hlate : deadline <
   cast.time := by simpa [castsAfter, hwrote] using List.all_eq_true.1 hcast cast hmem
  omega
 | _ => simp [countsBy, hevent] at hby

/-- A vote an hour after the nomination is stored, and counted. -/
theorem late_vote_counted :
  ¬ ∀ (percentOf : ℕ → ℕ → ℕ) (s : Sys Row Advisory Mutation), EventReachable percentOf s →
    CountedInTime s.shared.ledger := by
 intro hclaim
 have hrun : (((run (program ceilPercent) outside (initial ∅) votedOn).filter fun s => 2 <
  s.procs.length).bind
   fun s => run (program ceilPercent) outside (s.idle 2 3600000) voteThenResolve).map
   (fun s => (s.shared.ledger.all (castsAfter 3600023), s.shared.ledger.any (countsBy 3600023))) =
   some (true, true) := by decide +kernel
 obtain ⟨s', hs', hcheck⟩ := Option.map_eq_some_iff.1 hrun
 obtain ⟨hcast, hcounts⟩ := Prod.mk.inj hcheck
 obtain ⟨s, hs, hrest⟩ := Option.bind_eq_some_iff.1 hs'
 obtain ⟨hvoted, hlength⟩ := Option.filter_eq_some_iff.1 hs
 have hidle := (reachable_of_run hvoted).idle (of_decide_eq_true hlength) 3600000
 exact not_countedInTime hcast hcounts (hclaim ceilPercent s' (hidle.run hrest))

end Samples

end BoardGamesEmpire.EventPlanning
