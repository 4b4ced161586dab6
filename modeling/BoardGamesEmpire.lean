import BoardGamesEmpire.CatalogReconcile
import BoardGamesEmpire.ConsentUnitSound
import BoardGamesEmpire.SecureHttpRequest
import BoardGamesEmpire.QuotaCap
import BoardGamesEmpire.PermissionCache
import BoardGamesEmpire.PluginConsentAgreement
import BoardGamesEmpire.PluginStaging
import BoardGamesEmpire.FriendshipRuns
import BoardGamesEmpire.EventBallotRuns
import BoardGamesEmpire.HouseholdRecovery
import BoardGamesEmpire.GatewayStaleRuns
import BoardGamesEmpire.GameSearchReplay
import BoardGamesEmpire.MediaContributionReview
import BoardGamesEmpire.MediaSweep
import BoardGamesEmpire.PluginServerAuthority
import BoardGamesEmpire.OwnerElectionRuns
import BoardGamesEmpire.PluginLifecycleRuns
import BoardGamesEmpire.PluginConfigRuns
import BoardGamesEmpire.WebhookSubscriptionRuns
import BoardGamesEmpire.ManifestNamespaces
import BoardGamesEmpire.PluginRevocationRuns
import BoardGamesEmpire.PluginUninstallRuns
import BoardGamesEmpire.GameSharingRuns
import BoardGamesEmpire.ConsentSuspensionRuns
import BoardGamesEmpire.VoteResolverLaws
import BoardGamesEmpire.VotePercent
import BoardGamesEmpire.SecureHttpHostnames
import BoardGamesEmpire.HouseholdDormancyPass
import BoardGamesEmpire.DataMigrationsApply
import BoardGamesEmpire.UpcomingEvents
import BoardGamesEmpire.InviteSweepDrains
import BoardGamesEmpire.SecureHttpCidrGrammar
import BoardGamesEmpire.GameSearchNarrowing
import BoardGamesEmpire.GatewayAutoDisable
import BoardGamesEmpire.KeyedCreate
import BoardGamesEmpire.PluginLoaderPass
import BoardGamesEmpire.ReleaseHierarchy
import BoardGamesEmpire.VocabularySlug
import BoardGamesEmpire.PluginStaticAnalysisGate
import BoardGamesEmpire.LocalDiskPaging
import BoardGamesEmpire.PluginContainment
import BoardGamesEmpire.BbcodeKeeps
import BoardGamesEmpire.RandomSampleReads
import BoardGamesEmpire.ResourceAccess
import BoardGamesEmpire.WebhookFanOutRuns
import BoardGamesEmpire.CollectionCatchUpRuns
import BoardGamesEmpire.MediaSignedUrlRuns
import BoardGamesEmpire.BootSequenceSafe
