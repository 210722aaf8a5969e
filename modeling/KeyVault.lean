import KeyVault.Programs
import KeyVault.Interleaving
import KeyVault.InsertionMap
import KeyVault.Tables
import KeyVault.Timestamps
import KeyVault.Utf16
import KeyVault.JsValue
import KeyVault.JsObjects
import KeyVault.Errors
import KeyVault.Acl
import KeyVault.IpMatch
import KeyVault.KeyGen
import KeyVault.Vault
import KeyVault.CallEffects
import KeyVault.KeyStore
import KeyVault.Handlers
import KeyVault.KeyOperations
import KeyVault.HandlerCalls
import KeyVault.HandlerRuns
import KeyVault.ServerAuth
import KeyVault.Server
import KeyVault.KvAdmin
import KeyVault.CommandCalls
import KeyVault.Dispatch
import KeyVault.Fixtures
import KeyVault.StrictCoupling
import KeyVault.Denials
import KeyVault.FailedRequests
import KeyVault.Masking
import KeyVault.UnwrapCache
import KeyVault.KeyInvariant
import KeyVault.KeyLifecycle
import KeyVault.Durability
import KeyVault.Freshness
import KeyVault.KeyHalves
import KeyVault.RoundTrip
import KeyVault.AdminFailures
import KeyVault.ProxyChain
import KeyVault.AclNormal
import KeyVault.Processes
import KeyVault.AclInvariant
import KeyVault.KeySpecs
import KeyVault.GenerateKeyRuns
import KeyVault.AcceptedSpecs
import KeyVault.ExplicitAcls
import KeyVault.AuditTrail
import KeyVault.Ownership
import KeyVault.DbMigrate
import KeyVault.Migrations
import KeyVault.ExpirySweep
import KeyVault.Rewrap
import KeyVault.UserUpdates
import KeyVault.Numerals
import KeyVault.AddressGrammar
import KeyVault.PrefixMasks
import KeyVault.AllowedAddresses
import KeyVault.AddressSpellings
import KeyVault.EchoedOps
import KeyVault.Base64url
import KeyVault.KekValidation
import KeyVault.ValidityWindow
import KeyVault.ListedKeys
import KeyVault.Provenance
import KeyVault.Revocation
import KeyVault.AlgConfusion
import KeyVault.AclMeaning
import KeyVault.CoOwners
import KeyVault.CacheContent
import KeyVault.UuidSpellings
import KeyVault.SecretTerms
import KeyVault.EntryTexts
import KeyVault.RequestChecks
import KeyVault.SealedVault
import KeyVault.SecretFlow
import KeyVault.SecretRequests
import KeyVault.AdminOptions
import KeyVault.SecretCommands
import KeyVault.LastWrites
import KeyVault.UserWrites
import KeyVault.ServedRequests
import KeyVault.Credentials
import KeyVault.AccountLimits
import KeyVault.Confinement
import KeyVault.KeyRuns
import KeyVault.Registry
import KeyVault.VaultRegistry
import KeyVault.Answers
import KeyVault.KekCoverage
import KeyVault.Profiles
import KeyVault.ProfileRuns
import KeyVault.Refusals
