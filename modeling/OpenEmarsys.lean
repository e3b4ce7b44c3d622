import OpenEmarsys.Auth.Revocation
import OpenEmarsys.Auth.Refusal
import OpenEmarsys.Keyring.Agreement
import OpenEmarsys.OAuth.Revocations
import OpenEmarsys.Tenancy.Scoping
import OpenEmarsys.Tenancy.Pooling
import OpenEmarsys.Migrations.Applied
import OpenEmarsys.Tenants.Seeding
import OpenEmarsys.Users.LastAdmin
import OpenEmarsys.Users.Acceptance
import OpenEmarsys.Users.Invite
import OpenEmarsys.Chx.Conservation
import OpenEmarsys.Contacts.Keys
import OpenEmarsys.Contacts.GetData
import OpenEmarsys.Contacts.Filters
import OpenEmarsys.Contacts.Normalization
import OpenEmarsys.Contacts.Choices
import OpenEmarsys.Fields.Freshness
import OpenEmarsys.Relational.Columns
import OpenEmarsys.Relational.Upsert
import OpenEmarsys.Jobs.Lifecycle
import OpenEmarsys.Jobs.Fencing
import OpenEmarsys.Exports.Agreement
import OpenEmarsys.Nats.Lossless
import OpenEmarsys.Nats.Explorer
import OpenEmarsys.Gdpr.Lifecycle
import OpenEmarsys.Importer.Determined
import OpenEmarsys.Importer.Recovery
import OpenEmarsys.Streaming.Released
import OpenEmarsys.Exports.Reread
import OpenEmarsys.Nats.Backoff
import OpenEmarsys.Audit.Redact
import OpenEmarsys.Postgres.Like
import OpenEmarsys.Contacts.Search
import OpenEmarsys.Importer.Sniffing
import OpenEmarsys.Jwks.Verifier
import OpenEmarsys.Drafts.Once
import OpenEmarsys.Keyset.Complete
import OpenEmarsys.Contacts.Permanence
import OpenEmarsys.Contacts.Results
