import Rustberg.Prefixes
import Rustberg.Catalog.Listing
import Rustberg.Catalog.LostUpdate
import Rustberg.Catalog.Storage
import Rustberg.Catalog.OneName
import Rustberg.Auth.Cedar
import Rustberg.Api.Ownership
import Rustberg.Api.Handler
import Rustberg.Api.Guard
import Rustberg.Api.Namespace
import Rustberg.Api.Updates
import Rustberg.Api.Owners
import Rustberg.Base.Formula
import Rustberg.Query.Schema
import Rustberg.Query.Widening
import Rustberg.Query.Masks
import Rustberg.Query.Restrictions
import Rustberg.Query.Agreement
import Rustberg.Query.Plan
import Rustberg.Query.Pruning
import Rustberg.Catalog.Purge
import Rustberg.Auth.Entities
import Rustberg.Idempotency.Receipts
import Rustberg.Auth.SigningKeys
import Rustberg.Auth.Principals
import Rustberg.Idempotency.Key
import Rustberg.Idempotency.Replay
import Rustberg.Management.Policies
import Rustberg.Management.Recorded
import Rustberg.Management.InForce
import Rustberg.Catalog.SameCommit
import Rustberg.Idempotency.Expiry
import Rustberg.Api.Pagination
import Rustberg.Base.Net
import Rustberg.Base.Pattern
import Rustberg.Catalog.Confinement
import Rustberg.Catalog.Federated
import Rustberg.Catalog.Mounting
import Rustberg.Catalog.Rest
import Rustberg.Catalog.RootListing
import Rustberg.Credentials.Providers
import Rustberg.Credentials.Scope
import Rustberg.RemoteIp
import Rustberg.V1.Revalidation
import Rustberg.Containment
import Rustberg.Auth.ClientIp
import Rustberg.Auth.Obligations
import Rustberg.Management.RevisionLog
import Rustberg.V1.Bucket
import Rustberg.V1.CopySource
import Rustberg.Catalog.PurgeTable
import Rustberg.V1.Namespaces
import Rustberg.V1.Service
import Rustberg.V1.Protection
import Rustberg.Catalog.DefaultLocation
import Rustberg.Query.Columns
import Rustberg.Query.Installed
import Rustberg.Query.Projections
import Rustberg.Auth.Bans
import Rustberg.V1.ObjectUrl
import Rustberg.Base.Xml
import Rustberg.V1.DeleteBody
import Rustberg.V1.KeyElements
import Rustberg.V1.Spelling
import Rustberg.ViewChain
import Rustberg.Catalog.KeySpace
import Rustberg.Query.BinaryLiteral
import Rustberg.Catalog.MetadataVersion
import Rustberg.Auth.KeyStore
import Rustberg.Auth.Refetches
import Rustberg.Auth.AuditSink
import Rustberg.Ui.Diff
import Rustberg.Base.Layers
import Rustberg.V1.Authority
import Rustberg.Catalog.Abstract
import Rustberg.Auth.Refusals
