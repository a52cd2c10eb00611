import FastPki.Acme.Caa
import FastPki.Acme.CaaLookup
import FastPki.Acme.Deactivate
import FastPki.Acme.Device
import FastPki.Acme.Dial
import FastPki.Acme.Finalize
import FastPki.Acme.Http01
import FastPki.Acme.Inert
import FastPki.Acme.Live
import FastPki.Acme.Nonce
import FastPki.Acme.Once
import FastPki.Acme.Ready
import FastPki.Acme.Routes
import FastPki.Acme.Threads
import FastPki.Attest.Apple
import FastPki.Attest.Object
import FastPki.Attest.Versions
import FastPki.Audit.Append
import FastPki.Audit.Chain
import FastPki.Audit.Forward
import FastPki.Audit.Handle
import FastPki.Audit.Retry
import FastPki.Auth.Authenticate
import FastPki.Auth.Backoff
import FastPki.Auth.EnrolCreds
import FastPki.Auth.Login
import FastPki.Auth.Password
import FastPki.Auth.Providers
import FastPki.Auth.Sessions
import FastPki.Auth.Spellings
import FastPki.Backup.Config
import FastPki.Backup.Envelope
import FastPki.Backup.Faithful
import FastPki.Backup.Restore
import FastPki.Ca.Cascade
import FastPki.Ca.Chain
import FastPki.Ca.Instance
import FastPki.Ca.Renew
import FastPki.Ca.Trust
import FastPki.Cbor.Reader
import FastPki.Certs.Credential
import FastPki.Certs.Doors
import FastPki.Certs.Handle
import FastPki.Certs.Insert
import FastPki.Certs.Inventory
import FastPki.Certs.Levels
import FastPki.Certs.Quota
import FastPki.Certs.Revocation
import FastPki.Certs.Store
import FastPki.Cmp.Identity
import FastPki.Cmp.Sender
import FastPki.Cmp.Server
import FastPki.Cmp.Status
import FastPki.Cmp.Transactions
import FastPki.Config.Editor
import FastPki.Config.File
import FastPki.Config.Render
import FastPki.Crl.Coverage
import FastPki.Crl.Delta
import FastPki.Crl.Generate
import FastPki.Crl.Number
import FastPki.Crl.Publish
import FastPki.Crl.Race
import FastPki.Crl.Republish
import FastPki.Crl.Serial
import FastPki.Db.Connection
import FastPki.Db.Liveness
import FastPki.Est.SelfRenewal
import FastPki.Framework.Ascii
import FastPki.Framework.Backtrack
import FastPki.Framework.Base64
import FastPki.Framework.Bits
import FastPki.Framework.Carry
import FastPki.Framework.Decimal
import FastPki.Framework.Digits
import FastPki.Framework.DistinguishedName
import FastPki.Framework.EncodedWord
import FastPki.Framework.Evict
import FastPki.Framework.Except
import FastPki.Framework.Hex
import FastPki.Framework.History
import FastPki.Framework.InternetMessage
import FastPki.Framework.Json
import FastPki.Framework.KeyValue
import FastPki.Framework.Lines
import FastPki.Framework.Loop
import FastPki.Framework.Narrow
import FastPki.Framework.OrderedMap
import FastPki.Framework.Pattern
import FastPki.Framework.Percent
import FastPki.Framework.Regex
import FastPki.Framework.Replica
import FastPki.Framework.Routine
import FastPki.Framework.Rows
import FastPki.Framework.Scan
import FastPki.Framework.SearchFilter
import FastPki.Framework.Sextets
import FastPki.Framework.Substring
import FastPki.Framework.Supersede
import FastPki.Framework.Url
import FastPki.Framework.Utf8
import FastPki.Framework.Watermark
import FastPki.Framework.Xml
import FastPki.Intune.Poll
import FastPki.Issue.Builders
import FastPki.Issue.Csr
import FastPki.Issue.Held
import FastPki.Issue.Leaf
import FastPki.Issue.Names
import FastPki.Issue.Nocheck
import FastPki.Issue.Origin
import FastPki.Issue.Subject
import FastPki.Issue.Succession
import FastPki.Issue.Usages
import FastPki.Issue.Wildcard
import FastPki.Jws.Base64url
import FastPki.Jws.Verify
import FastPki.Ldap.Directory
import FastPki.Ldap.Escape
import FastPki.Ldap.Groups
import FastPki.License.Date
import FastPki.License.Status
import FastPki.License.Text
import FastPki.Mesh.Lww
import FastPki.Mesh.Merge
import FastPki.Mesh.Revocation
import FastPki.Mesh.Serial
import FastPki.Ms.Named
import FastPki.Ms.Subject
import FastPki.Ms.Template
import FastPki.Ms.Usages
import FastPki.Ms.Wstep
import FastPki.Net.Address
import FastPki.Net.Cidr
import FastPki.Net.Forwarded
import FastPki.Notify.Email
import FastPki.Notify.Once
import FastPki.Ocsp.Responder
import FastPki.Oidc.Client
import FastPki.Oidc.Login
import FastPki.Pkcs11.Uri
import FastPki.Policy.DnsName
import FastPki.Policy.Domains
import FastPki.Policy.Issuance
import FastPki.Policy.Stall
import FastPki.Profile.CertProfile
import FastPki.Profile.Evaluate
import FastPki.Profile.Merge
import FastPki.Profile.Resolve
import FastPki.Profile.Rule
import FastPki.Rbac.Accounts
import FastPki.Rbac.Assign
import FastPki.Rbac.DeleteUser
import FastPki.Rbac.Gate
import FastPki.Rbac.Lockout
import FastPki.Rbac.RevokeRoute
import FastPki.Rbac.Users
import FastPki.Saml.Consume
import FastPki.Saml.Login
import FastPki.Saml.Relay
import FastPki.Saml.Signature
import FastPki.Scep.Approval
import FastPki.Scep.Decide
import FastPki.Scep.Enrol
import FastPki.Service.Gate
import FastPki.Smtp.Mail
import FastPki.Smtp.Send
import FastPki.Smtp.Wire
import FastPki.Tls.ClientCert
import FastPki.Webauthn.Assertion
import FastPki.Webauthn.AuthData
import FastPki.Webauthn.Passkeys
import FastPki.Webauthn.Signin
import FastPki.X509.Extension
