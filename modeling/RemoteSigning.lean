import RemoteSigning.Base64
import RemoteSigning.Ceremony.Challenge
import RemoteSigning.Ceremony.Credential
import RemoteSigning.Ceremony.Envelope
import RemoteSigning.Ceremony.Kind
import RemoteSigning.Ceremony.Options
import RemoteSigning.Collection.Basic
import RemoteSigning.Collection.Collector
import RemoteSigning.Collection.Task
import RemoteSigning.CommandLine.Arguments
import RemoteSigning.CommandLine.Command
import RemoteSigning.CommandLine.ExitCode
import RemoteSigning.CommandLine.Report
import RemoteSigning.CommandLine.Run
import RemoteSigning.CommandLine.Watch
import RemoteSigning.Environment
import RemoteSigning.Failure
import RemoteSigning.Hash.Hmac
import RemoteSigning.Hash.Sha256
import RemoteSigning.Json.Decoder
import RemoteSigning.Json.Document
import RemoteSigning.Json.Error
import RemoteSigning.Json.Fault
import RemoteSigning.Json.Lenient
import RemoteSigning.Json.Number
import RemoteSigning.Json.Printer
import RemoteSigning.Json.Value
import RemoteSigning.Main
import RemoteSigning.Network.Http
import RemoteSigning.Number.Binary64
import RemoteSigning.Number.Decimal
import RemoteSigning.Number.Power
import RemoteSigning.Number.Shortest
import RemoteSigning.Outcome
import RemoteSigning.Proofs.Base64
import RemoteSigning.Proofs.Base64.Spelling
import RemoteSigning.Proofs.Ceremony.Binaries
import RemoteSigning.Proofs.Ceremony.Challenges
import RemoteSigning.Proofs.Ceremony.Credentials
import RemoteSigning.Proofs.Ceremony.Envelopes
import RemoteSigning.Proofs.Ceremony.Expiry
import RemoteSigning.Proofs.Ceremony.Messages
import RemoteSigning.Proofs.Ceremony.Options
import RemoteSigning.Proofs.Ceremony.Reencoding
import RemoteSigning.Proofs.Ceremony.Refusals
import RemoteSigning.Proofs.Collection.Cancellations
import RemoteSigning.Proofs.Collection.Courses
import RemoteSigning.Proofs.Collection.InstantAnswers
import RemoteSigning.Proofs.Collection.Interfaces
import RemoteSigning.Proofs.Collection.Owners
import RemoteSigning.Proofs.Collection.Tasks
import RemoteSigning.Proofs.Collection.Timing
import RemoteSigning.Proofs.CommandLine.Displaying
import RemoteSigning.Proofs.CommandLine.Endings
import RemoteSigning.Proofs.CommandLine.ExitCodes
import RemoteSigning.Proofs.CommandLine.Notices
import RemoteSigning.Proofs.CommandLine.Tokens
import RemoteSigning.Proofs.CommandLine.Watching
import RemoteSigning.Proofs.Hash.Hmac
import RemoteSigning.Proofs.Json.Canonical
import RemoteSigning.Proofs.Json.Documents
import RemoteSigning.Proofs.Json.Integers
import RemoteSigning.Proofs.Json.Laws
import RemoteSigning.Proofs.Json.Lenient
import RemoteSigning.Proofs.Json.Orders
import RemoteSigning.Proofs.Json.Parsing
import RemoteSigning.Proofs.Json.Ranges
import RemoteSigning.Proofs.Json.Records
import RemoteSigning.Proofs.Json.Reprinting
import RemoteSigning.Proofs.Json.Rewriting
import RemoteSigning.Proofs.Json.Strings
import RemoteSigning.Proofs.Lists
import RemoteSigning.Proofs.Outcomes
import RemoteSigning.Proofs.Relay.Devices
import RemoteSigning.Proofs.Relay.Handover
import RemoteSigning.Proofs.Relay.Hubs
import RemoteSigning.Proofs.Relay.Isolation
import RemoteSigning.Proofs.Relay.Logs
import RemoteSigning.Proofs.Relay.Meetings
import RemoteSigning.Proofs.Relay.Occupancy
import RemoteSigning.Proofs.Relay.Registry
import RemoteSigning.Proofs.Relay.Roles
import RemoteSigning.Proofs.Relay.Routing
import RemoteSigning.Proofs.RelyingParty.Answers
import RemoteSigning.Proofs.RelyingParty.Repetitions
import RemoteSigning.Proofs.RelyingParty.Requests
import RemoteSigning.Proofs.RelyingParty.Resources
import RemoteSigning.Proofs.Results
import RemoteSigning.Proofs.Session.Calls
import RemoteSigning.Proofs.Session.Failures
import RemoteSigning.Proofs.Session.Frames
import RemoteSigning.Proofs.Session.Handles
import RemoteSigning.Proofs.Session.Hosts
import RemoteSigning.Proofs.Session.Messages
import RemoteSigning.Proofs.Session.Methods
import RemoteSigning.Proofs.Session.Recognition
import RemoteSigning.Proofs.Session.Runs
import RemoteSigning.Proofs.Text.Digits
import RemoteSigning.Proofs.Text.Utf8
import RemoteSigning.Proofs.Time.Calendar
import RemoteSigning.Proofs.Time.Instants
import RemoteSigning.Proofs.Token.Links
import RemoteSigning.Proofs.Token.RegisteredClaims
import RemoteSigning.Proofs.Token.Rotations
import RemoteSigning.Proofs.Token.Secrets
import RemoteSigning.Proofs.Token.Segments
import RemoteSigning.Proofs.Token.Verification
import RemoteSigning.Proofs.Url.Addresses
import RemoteSigning.Proofs.Url.Authorities
import RemoteSigning.Proofs.Url.Domains
import RemoteSigning.Proofs.Url.Escapes
import RemoteSigning.Proofs.Url.Hosts
import RemoteSigning.Proofs.Url.Paths
import RemoteSigning.Proofs.Url.Punycode
import RemoteSigning.Proofs.Url.References
import RemoteSigning.Proofs.Url.Reparsing
import RemoteSigning.Relay.Address
import RemoteSigning.Relay.Api
import RemoteSigning.Relay.Config
import RemoteSigning.Relay.Cors
import RemoteSigning.Relay.Http
import RemoteSigning.Relay.Hub
import RemoteSigning.Relay.Peer
import RemoteSigning.Relay.RateLimit
import RemoteSigning.Relay.Router
import RemoteSigning.RelyingParty.Client
import RemoteSigning.RelyingParty.Config
import RemoteSigning.RelyingParty.Request
import RemoteSigning.RelyingParty.Scripted
import RemoteSigning.Secret
import RemoteSigning.Session.Basic
import RemoteSigning.Session.Client
import RemoteSigning.Session.Frame
import RemoteSigning.Session.Handle
import RemoteSigning.Session.Room
import RemoteSigning.Text.Blank
import RemoteSigning.Text.Hex
import RemoteSigning.Text.Printable
import RemoteSigning.Text.Quoted
import RemoteSigning.Text.Search
import RemoteSigning.Text.Utf8
import RemoteSigning.Time.Calendar
import RemoteSigning.Time.Instant
import RemoteSigning.Token.Basic
import RemoteSigning.Token.Claims
import RemoteSigning.Token.Display
import RemoteSigning.Token.Header
import RemoteSigning.Token.Link
import RemoteSigning.Url.Basic
import RemoteSigning.Url.Domain
import RemoteSigning.Url.Form
import RemoteSigning.Url.Ipv4
import RemoteSigning.Url.Ipv6
import RemoteSigning.Url.Parse
import RemoteSigning.Url.Percent
import RemoteSigning.Url.Punycode
import RemoteSigning.Version
import RemoteSigning.Proofs.Relay.Rendezvous
import RemoteSigning.Proofs.Relay.Origins
import RemoteSigning.Proofs.Relay.Peers
