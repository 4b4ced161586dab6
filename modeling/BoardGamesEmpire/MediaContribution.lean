import BoardGamesEmpire.JsText
import BoardGamesEmpire.ReadCommittedSection

set_option autoImplicit false

/-!
# Contributing media and reviewing it

Contributions give a media object away: they wait for a reviewer or approve
themselves, and a rejected one may be reclaimed. Every decision checks a row it
read before its transaction and then writes by id.
-/
namespace BoardGamesEmpire.MediaContribution
open JsText ReadCommitted ReadCommittedProtocol

section Rows

inductive Reach where
  | privateReach
  | publicReach
deriving DecidableEq

inductive MediaContributionStatus where
  | pending
  | approved
  | rejected
  | reclaimed
deriving DecidableEq

inductive ContributionOrigin where
  | existingMedia
  | directUpload
deriving DecidableEq

inductive SubjectType where
  | game
  | event
deriving DecidableEq

structure Subject where
  subjectType : SubjectType
  subjectId : ℕ
deriving DecidableEq

/-- Where the bytes of an object are: its driver, and the key
    `users/<userId>/<mediaObjectId>` it was stored under. -/
structure StorageLocator where
  driverSlug : ℕ
  userId : ℕ
  mediaObjectId : ℕ
deriving DecidableEq

/-- Of the `driverKey` the row keeps the user: the other half is its own id. -/
structure MediaObject where
  ownerId : ℕ
  uploaderId : ℕ
  reach : Reach
  driverSlug : ℕ
  storedFor : ℕ
  mimeType : Text
deriving DecidableEq

def MediaObject.locator (row : MediaObject) (id : ℕ) : StorageLocator :=
    ⟨row.driverSlug, row.storedFor, id⟩

structure Contribution where
  mediaObjectId : ℕ
  subject : Subject
  category : Option Text
  status : MediaContributionStatus
  origin : ContributionOrigin
  contributedById : ℕ
  reviewedById : Option ℕ
  reviewedAt : Option ℕ
  rejectionReason : Option Text
  reclaimDeadline : Option ℕ
deriving DecidableEq

/-- A row of the join table of a subject; only those of documents have a category. -/
structure Attachment where
  category : Option Text
deriving DecidableEq

structure SystemSetting where
  requireContributionApproval : Bool
  contributionReclaimDays : ℕ
deriving DecidableEq

structure PurgeContributionJob where
  contributionId : ℕ
  mediaObjectId : ℕ
  driverSlug : ℕ
  storedFor : ℕ
  contributedById : ℕ
  subject : Subject
deriving DecidableEq

def PurgeContributionJob.locator (job : PurgeContributionJob) : StorageLocator :=
  ⟨job.driverSlug, job.storedFor, job.mediaObjectId⟩

/-- The rows of the database, and beside them the stored bytes and the queued
    jobs. A presentation is the `Media` row of an object. -/
inductive Key where
  | media (id : ℕ)
  | presentation (mediaObjectId : ℕ)
  | attachment (mediaObjectId : ℕ) (subject : Subject)
  | contribution (id : ℕ)
  | subject (subject : Subject)
  | systemSetting
  | serviceAccount
  | bytes (locator : StorageLocator)
  | job (contributionId : ℕ)
deriving DecidableEq

abbrev Row : Key → Type
  | .media _ => MediaObject
  | .presentation _ => Unit
  | .attachment _ _ => Attachment
  | .contribution _ => Contribution
  | .subject _ => Unit
  | .systemSetting => SystemSetting
  | .serviceAccount => ℕ
  | .bytes _ => Unit
  | .job _ => PurgeContributionJob

abbrev Db := AList Row

abbrev media? (v : Db) (id : ℕ) : Option MediaObject := v.lookup (.media id)

abbrev contribution? (v : Db) (id : ℕ) : Option Contribution := v.lookup (.contribution id)

/-- A row that others refer to: while it is referenced it is not deleted. -/
inductive Referenced where
  | mediaObject (id : ℕ)
deriving DecidableEq

def asContribution : (k : Key) → Row k → Option (ℕ × Contribution)
  | .contribution id, row => some (id, row)
  | _, _ => none

def contributions (v : Db) : List (ℕ × Contribution) := select asContribution v

def Contribution.live (row : Contribution) : Bool := row.status == .pending || row.status == .approved

/-- `findFirst` over the object's pending and approved contributions. -/
def liveContribution (v : Db) (mediaObjectId : ℕ) : Option (ℕ × Contribution) :=
  (contributions v).find? fun c => c.2.mediaObjectId == mediaObjectId && c.2.live

end Rows

section Links

inductive MediaKind where
  | image
  | document
deriving DecidableEq

def mediaKindForMime (mimeType : Text) : Option MediaKind :=
  if "image/".toList.isPrefixOf mimeType then some .image
  else if mimeType = "application/pdf".toList then some .document
  else none

def canLink (mimeType : Text) (_subjectType : SubjectType) : Bool := (mediaKindForMime mimeType).isSome

def linked (kind : MediaKind) (category : Option Text) : Option Attachment → Attachment
  | none => ⟨if kind = .document then category else none⟩
  | some old => if kind = .document ∧ category.isSome then ⟨category⟩ else old

end Links

section Service

inductive Mutation where
  | bytesStored (locator : StorageLocator)
  | bytesDropped (locator : StorageLocator)
  | contributed (contributionId mediaObjectId : ℕ) (status : MediaContributionStatus)
  | approved (contributionId : ℕ) (checked : Contribution)
  | rejected (contributionId : ℕ) (checked : Contribution)
  | reclaimed (contributionId actorId : ℕ) (checked : Contribution)
  | attached (mediaObjectId : ℕ)
  | reachSet (mediaObjectId : ℕ)
  | swept (selected : List (ℕ × Contribution))
  | enqueued (contributionId : ℕ)
  | bytesPurged (job : PurgeContributionJob)
  | rowPurged (job : PurgeContributionJob)
  | jobDone (contributionId : ℕ)

abbrev MediaProgram := Code Row Referenced Mutation

def Code.attempt (locks : Db → List (Lock Key Referenced))
    (writes : ℕ → Db → Option (List (Write Row))) (refused : MediaProgram)
    (next : ℕ → Db → MediaProgram) : MediaProgram :=
  .stmt locks (fun clock v => (writes clock v).getD [])
    fun clock v => if (writes clock v).isSome then next clock v else .rollback refused

structure Actor where
  userId : ℕ
  updatesMedia : MediaObject → Bool
  updatesContribution : Contribution → Bool
  readsSubject : Subject → Bool

structure ContributeMediaDto where
  subject : Subject
  category : Option Text

def referring (mediaObjectId : ℕ) (_ : Db) :
    List (Lock Key Referenced) := [⟨.advisory (.mediaObject mediaObjectId), false⟩]

def flipped (serviceAccountId : ℕ) (row : MediaObject) : MediaObject :=
  { row with ownerId := serviceAccountId, reach := .publicReach }

def flipOwnership (mediaObjectId serviceAccountId : ℕ) (refused next : MediaProgram) : MediaProgram :=
  Code.attempt (fun _ => [])
    (fun _ v => (media? v mediaObjectId).map fun row =>
     [⟨.media mediaObjectId, some (flipped serviceAccountId row)⟩])
    refused fun _ _ => next

def upsertPresentation (mediaObjectId : ℕ) (refused next : MediaProgram) : MediaProgram :=
  Code.attempt (referring mediaObjectId)
    (fun _ v =>
      if (v.lookup (.presentation mediaObjectId)).isSome then some []
      else (media? v mediaObjectId).map fun _ => [⟨.presentation mediaObjectId, some ()⟩])
    refused fun _ _ => next

def createAttachment (mediaObjectId : ℕ) (kind : MediaKind) (subject : Subject) (category : Option Text)
    (refused next : MediaProgram) : MediaProgram :=
  Code.attempt (referring mediaObjectId)
    (fun _ v =>
      if (v.lookup (.presentation mediaObjectId)).isSome ∧ (v.lookup (.subject subject)).isSome then
        some [⟨.attachment mediaObjectId subject,
         some (linked kind category (v.lookup (.attachment mediaObjectId subject)))⟩]
      else none)
    refused fun _ _ => next

def attachWithin (mediaObjectId : ℕ) (subject : Subject) (category : Option Text)
    (refused next : MediaProgram) : MediaProgram :=
  .query fun _ v =>
    match media? v mediaObjectId with
    | none => .rollback refused
    | some media =>
      match mediaKindForMime media.mimeType with
      | none => .rollback refused
      | some kind =>
        upsertPresentation mediaObjectId refused <|
          createAttachment mediaObjectId kind subject category refused next

section Clock

-- the time of day at each tick
variable (wall : ℕ → ℕ)

def createContribution (row : ℕ → Contribution) (refused : MediaProgram) (next : ℕ → MediaProgram) :
    MediaProgram :=
  Code.attempt (fun v => referring (row 0).mediaObjectId v)
    (fun clock v =>
      if (contribution? v clock).isNone ∧ (media? v (row clock).mediaObjectId).isSome then
        some [⟨.contribution clock, some (row clock)⟩]
      else none)
    refused fun clock _ => next clock

def contributionRow (mediaObjectId : ℕ) (dto : ContributeMediaDto) (origin : ContributionOrigin)
    (actorId : ℕ)
    (status : MediaContributionStatus) (reviewedAt : Option ℕ) : Contribution :=
  ⟨mediaObjectId, dto.subject, dto.category, status, origin, actorId, none, reviewedAt, none, none⟩

def createContributionWithin (mediaObjectId : ℕ) (dto : ContributeMediaDto)
    (origin : ContributionOrigin) (actor : Actor)
    (refused : MediaProgram) : MediaProgram :=
  .query fun _ v =>
    match media? v mediaObjectId with
    | none => .rollback refused
    | some media =>
      .query fun _ v =>
        if (liveContribution v mediaObjectId).isSome then .rollback refused
        else if canLink media.mimeType dto.subject.subjectType = false then .rollback refused
        else
          .query fun _ v =>
            if (v.lookup (.subject dto.subject)).isNone ∨
             actor.readsSubject dto.subject = false then .rollback refused
            else
              .query fun _ v =>
                if (v.lookup .systemSetting).any (·.requireContributionApproval) then
                  createContribution (fun _ => contributionRow mediaObjectId dto origin actor.userId
                   .pending none) refused
                    fun id => .commit (.contributed id mediaObjectId .pending) .halt
                else
                  .query fun _ v =>
                    match v.lookup .serviceAccount with
                    | none => .rollback refused
                    | some serviceAccountId =>
                      createContribution
                        (fun clock => contributionRow mediaObjectId dto origin actor.userId
                         .approved (some (wall clock))) refused
                        fun id =>
                          flipOwnership mediaObjectId serviceAccountId refused <|
                            attachWithin mediaObjectId dto.subject dto.category refused <|
                              .commit (.contributed id mediaObjectId .approved) .halt

def contribute (actor : Actor) (mediaObjectId : ℕ) (dto : ContributeMediaDto) : MediaProgram :=
  .query fun _ v =>
    match (media? v mediaObjectId).filter actor.updatesMedia with
    | none => .halt
    | some media =>
      if media.ownerId ≠ actor.userId then .halt
      else createContributionWithin wall mediaObjectId dto .existingMedia actor .halt

structure UploadedMediaFile where
  mimeType : Text
  driverSlug : ℕ

def ALLOWED_UPLOAD_MIME_TYPES : List Text :=
  ["image/jpeg".toList, "image/png".toList, "image/gif".toList, "image/webp".toList, "image/avif".toList,
    "application/pdf".toList, "video/mp4".toList, "video/webm".toList, "audio/mpeg".toList,
     "audio/ogg".toList,
    "audio/wav".toList]

def dropBytes (locator : StorageLocator) : MediaProgram :=
  Code.attempt (fun _ => []) (fun _ _ => some [⟨.bytes locator, none⟩]) .halt
    fun _ _ => .commit (.bytesDropped locator) .halt

/-- `withinQuota` is the early check of the quota and `consumed` the one in the
    transaction. -/
def uploadAndContribute (actor : Actor) (file : UploadedMediaFile) (dto : ContributeMediaDto)
    (withinQuota consumed : Bool) :
    MediaProgram :=
  if ALLOWED_UPLOAD_MIME_TYPES.contains file.mimeType = false then .halt
  else if canLink file.mimeType dto.subject.subjectType = false ∨ withinQuota = false then .halt
  else
    Code.attempt (fun _ => [])
      (fun clock _ => some [⟨.bytes ⟨file.driverSlug, actor.userId, clock⟩, some ()⟩]) .halt fun id _ =>
        let locator : StorageLocator := ⟨file.driverSlug, actor.userId, id⟩
        .commit (.bytesStored locator) <|
          if consumed = false then .rollback (dropBytes locator)
          else
            Code.attempt (fun _ => [])
              (fun _ v =>
                if (media? v id).isNone then
                  some [⟨.media id, some ⟨actor.userId, actor.userId, .privateReach,
                   file.driverSlug, actor.userId, file.mimeType⟩⟩]
                else none)
              (dropBytes locator) fun _ _ =>
                createContributionWithin wall id dto .directUpload actor (dropBytes locator)

def pendingFor (actor : Actor) (v : Db) (contributionId : ℕ) : Option Contribution :=
  ((contribution? v contributionId).filter actor.updatesContribution).filter fun row =>
   row.status == .pending

def updateContribution (contributionId : ℕ) (data : ℕ → Contribution → Contribution)
    (next : MediaProgram) : MediaProgram :=
  Code.attempt (fun _ => [])
    (fun clock v => (contribution? v contributionId).map fun row =>
     [⟨.contribution contributionId, some (data (wall clock) row)⟩])
    .halt fun _ _ => next

def approvedRow (reviewerId now : ℕ) (row : Contribution) : Contribution :=
  { row with status := .approved, reviewedById := some reviewerId, reviewedAt := some now }

def rejectedRow (reviewerId now : ℕ) (reason : Option Text) (reclaimDeadline : Option ℕ)
    (row : Contribution) : Contribution :=
  { row with
    status := .rejected, rejectionReason := reason, reviewedById := some reviewerId, reviewedAt :=
     some now,
    reclaimDeadline := reclaimDeadline }

def approve (actor : Actor) (contributionId : ℕ) : MediaProgram :=
  .query fun _ v =>
    match pendingFor actor v contributionId with
    | none => .halt
    | some checked =>
      .query fun _ v =>
        match v.lookup .serviceAccount with
        | none => .halt
        | some serviceAccountId =>
          flipOwnership checked.mediaObjectId serviceAccountId .halt <|
            attachWithin checked.mediaObjectId checked.subject checked.category .halt <|
              updateContribution wall contributionId (approvedRow actor.userId) <|
                .commit (.approved contributionId checked) .halt

def dayMs : ℕ := 24 * 60 * 60 * 1000

def reclaimDays (v : Db) : ℕ := ((v.lookup .systemSetting).map (·.contributionReclaimDays)).getD 14

def reject (actor : Actor) (contributionId : ℕ) (reason : Option Text) : MediaProgram :=
  .query fun clock v =>
    match pendingFor actor v contributionId with
    | none => .halt
    | some checked =>
      .query fun _ v =>
        let reclaimDeadline := if checked.origin = .directUpload then some
         (wall clock + reclaimDays v * dayMs) else none
        updateContribution wall contributionId
         (fun now => rejectedRow actor.userId now reason reclaimDeadline) <|
          .commit (.rejected contributionId checked) .halt

def reclaim (actor : Actor) (contributionId : ℕ) : MediaProgram :=
  .query fun clock v =>
    match (contribution? v contributionId).filter actor.updatesContribution with
    | none => .halt
    | some checked =>
      if checked.contributedById ≠ actor.userId then .halt
      else if checked.status ≠ .rejected then .halt
      else if checked.reclaimDeadline.any fun deadline => decide (deadline < wall clock) then .halt
      else
        updateContribution wall contributionId (fun _ row => { row with status := .reclaimed }) <|
          .commit (.reclaimed contributionId actor.userId checked) .halt

inductive Review where
  | contribute (actor : Actor) (mediaObjectId : ℕ) (dto : ContributeMediaDto)
  | uploadAndContribute (actor : Actor) (file : UploadedMediaFile) (dto : ContributeMediaDto)
   (withinQuota consumed : Bool)
  | approve (actor : Actor) (contributionId : ℕ)
  | reject (actor : Actor) (contributionId : ℕ) (reason : Option Text)
  | reclaim (actor : Actor) (contributionId : ℕ)

def reviewProgram : Review → MediaProgram
  | .contribute actor mediaObjectId dto => contribute wall actor mediaObjectId dto
  | .uploadAndContribute actor file dto withinQuota consumed =>
   uploadAndContribute wall actor file dto withinQuota consumed
  | .approve actor contributionId => approve wall actor contributionId
  | .reject actor contributionId reason => reject wall actor contributionId reason
  | .reclaim actor contributionId => reclaim wall actor contributionId

end Clock

def outside : Key → Bool
  | .systemSetting => true
  | _ => false

end Service

end BoardGamesEmpire.MediaContribution
