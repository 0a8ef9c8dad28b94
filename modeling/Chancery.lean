import Chancery.Core.Run
import Chancery.Core.Table
import Chancery.Core.Py
import Chancery.Core.Json
import Chancery.Core.Digest
import Chancery.Services.AuditChain
import Chancery.Services.AuditSealing
import Chancery.Scenarios.AuditVerifier
import Chancery.Scenarios.AuditRetention
import Chancery.Scenarios.AuditSealing
import Chancery.Services.Acme.Jws
import Chancery.Services.Acme.Accounts
import Chancery.Scenarios.AcmeAccountKeys
import Chancery.Services.San
import Chancery.Services.CertService
import Chancery.Services.Acme.Validation
import Chancery.Services.Acme.Orders
import Chancery.Services.Acme.Finalize
import Chancery.Scenarios.AcmeCertificateNames
import Chancery.Scenarios.IssuedNames
import Chancery.Routes.Acme
import Chancery.Routes.Csr
import Chancery.Services.Acme.Writes
import Chancery.Scenarios.AcmeControl
import Chancery.Scenarios.AcmeSubjectAltNames
import Chancery.Scenarios.AcmeHostNames
import Chancery.Scenarios.AcmeLifeCycle
import Chancery.Scenarios.AcmeFinalizeAtomic
import Chancery.Core.Workers
import Chancery.Scenarios.AcmeOneCertificate
import Chancery.Scenarios.AcmeNonces
import Chancery.Scenarios.AcmeAccountBinding
import Chancery.Scenarios.CsrDecision
import Chancery.Core.Cascade
import Chancery.Core.Levels
import Chancery.Services.Crl
import Chancery.Scenarios.OcspAgrees
import Chancery.Services.CaService
import Chancery.Services.OcspResponder
import Chancery.Routes.Ca
import Chancery.Routes.CaEffects
import Chancery.Scenarios.RevocationCascade
import Chancery.Scenarios.FinalCrl
import Chancery.Scenarios.CertificateEnds
import Chancery.Scenarios.PathLengths
import Chancery.Scenarios.CrlRace
import Chancery.Services.AuthService
import Chancery.Services.DualControl
import Chancery.Routes.Auth
import Chancery.Routes.CaCommits
import Chancery.Scenarios.PendingCa
import Chancery.Scenarios.AdminLockout
import Chancery.Scenarios.CodeGuessing
import Chancery.Scenarios.LoginRace
import Chancery.Routes.Users
import Chancery.Scenarios.UserApproval
import Chancery.Routes.Process
import Chancery.Routes.BasicCache
import Chancery.Scenarios.CachedBasic
import Chancery.Routes.Cookies
import Chancery.Scenarios.OldCredentials
import Chancery.Routes.Dispatch
import Chancery.Services.ApiTokens
import Chancery.Scenarios.ReadOnlyToken
import Chancery.Core.JsonLoads
import Chancery.Routes.Profiles
import Chancery.Scenarios.IssuedUsage
import Chancery.Services.Profiles
import Chancery.Scenarios.AllowList
import Chancery.Scenarios.ProfileReferences
import Chancery.Scenarios.AuditFalseAlarm
import Chancery.Core.Traced
import Chancery.Services.KeyUse
import Chancery.Scenarios.UnapprovedKeys
import Chancery.Services.OcspWorkers
import Chancery.Scenarios.StaleGood
import Chancery.Scenarios.SchedulerLease
import Chancery.Services.Scheduler
import Chancery.Scenarios.NameDecision
import Chancery.Scenarios.WildcardNames
import Chancery.Services.NameConstraintEntries
import Chancery.Scenarios.OutboundTargets
import Chancery.Services.Acme.Outbound
import Chancery.Scenarios.ActiveAdmin
import Chancery.Services.Passphrase
import Chancery.Scenarios.PassphraseRotation
import Chancery.Services.KeyMigration
import Chancery.Scenarios.MigratedKeys
import Chancery.Services.ExpiryEvents
import Chancery.Scenarios.ExpiryOnce
import Chancery.Services.ProfileExport
import Chancery.Services.CertificatePolicies
import Chancery.Services.ProfileCatalogue
import Chancery.Scenarios.ProfileRoundTrip
import Chancery.Scenarios.PolicyRoundTrip
import Chancery.Scenarios.ResponderRotation
import Chancery.Services.TotpService
import Chancery.Scenarios.SecondFactor
import Chancery.Services.ChainOrder
import Chancery.Scenarios.BundleOrder
import Chancery.Scenarios.DnsBudget
import Chancery.Core.Follow
import Chancery.Services.CaChain
import Chancery.Scenarios.ServedChains
import Chancery.Scenarios.SanRoundTrip
import Chancery.Scenarios.ConstraintRoundTrip
import Chancery.Core.Like
import Chancery.Core.Calendar
import Chancery.Services.Listing
import Chancery.Routes.AuditFilters
import Chancery.Scenarios.LiteralFilters
import Chancery.Services.ExpiryStatus
import Chancery.Scenarios.ExpiryClasses
import Chancery.Core.Percent
import Chancery.Services.Filenames
import Chancery.Scenarios.DownloadNames
import Chancery.Services.UpdateCheck
import Chancery.Scenarios.UpdateRefresh
import Chancery.Core.Faithful
import Chancery.Scenarios.AuditTampering
import Chancery.Core.Frame
import Chancery.Scenarios.AcmeOwnership
import Chancery.Core.Csv
import Chancery.Core.JsonSorted
import Chancery.Services.AuditExport
import Chancery.Scenarios.AuditExports
import Chancery.Core.Bearer
import Chancery.Core.Bulletin
import Chancery.Services.MetricsTokens
import Chancery.Services.TokenIssue
import Chancery.Scenarios.BearerTokens
import Chancery.Scenarios.CrlHistory
