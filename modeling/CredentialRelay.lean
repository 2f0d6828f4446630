import CredentialRelay.Bytes
import CredentialRelay.Bytes.Base64
import CredentialRelay.Bytes.Hex
import CredentialRelay.Bytes.Lossy
import CredentialRelay.Cache.Credentials
import CredentialRelay.Cache.Expiry
import CredentialRelay.Cache.FaultyStore
import CredentialRelay.Cache.Local
import CredentialRelay.Cache.MemoryStore
import CredentialRelay.Cache.Shared
import CredentialRelay.Cache.Station
import CredentialRelay.Cache.Store
import CredentialRelay.Cache.Timeline
import CredentialRelay.CommandLine
import CredentialRelay.Error
import CredentialRelay.Frame
import CredentialRelay.Http.CookieMap
import CredentialRelay.Http.Field
import CredentialRelay.Http.Layout
import CredentialRelay.Http.Message
import CredentialRelay.Http.Scan
import CredentialRelay.Json
import CredentialRelay.Json.Path
import CredentialRelay.Json.Printer
import CredentialRelay.Json.Reader
import CredentialRelay.LessonForm
import CredentialRelay.Main
import CredentialRelay.Number.Binary64
import CredentialRelay.Number.Shortest
import CredentialRelay.Proofs.Bytes.Base64
import CredentialRelay.Proofs.Bytes.Cut
import CredentialRelay.Proofs.Bytes.Hex
import CredentialRelay.Proofs.Bytes.Utf8
import CredentialRelay.Proofs.Cache.Agreement
import CredentialRelay.Proofs.Cache.Answers
import CredentialRelay.Proofs.Cache.Eviction
import CredentialRelay.Proofs.Cache.FlatStore
import CredentialRelay.Proofs.Cache.Interleaving
import CredentialRelay.Proofs.Cache.Interruptions
import CredentialRelay.Proofs.Cache.Lifetime
import CredentialRelay.Proofs.Cache.Poisoning
import CredentialRelay.Proofs.Cache.Removal
import CredentialRelay.Proofs.Cache.Sparing
import CredentialRelay.Proofs.Cache.Stations
import CredentialRelay.Proofs.Cache.Stores
import CredentialRelay.Proofs.Cache.Sweepers
import CredentialRelay.Proofs.Frame.Grammar
import CredentialRelay.Proofs.Frame.Wire
import CredentialRelay.Proofs.Http.Bodies
import CredentialRelay.Proofs.Http.CookieLookup
import CredentialRelay.Proofs.Http.CookieRoundTrip
import CredentialRelay.Proofs.Http.Cookies
import CredentialRelay.Proofs.Http.Edits
import CredentialRelay.Proofs.Http.Exchange
import CredentialRelay.Proofs.Http.Fields
import CredentialRelay.Proofs.Http.Headers
import CredentialRelay.Proofs.Http.Lines
import CredentialRelay.Proofs.Http.Offsets
import CredentialRelay.Proofs.Http.Outline
import CredentialRelay.Proofs.Http.Scanning
import CredentialRelay.Proofs.Http.Values
import CredentialRelay.Proofs.Json.Formed
import CredentialRelay.Proofs.Json.Integers
import CredentialRelay.Proofs.Json.Positions
import CredentialRelay.Proofs.Json.RoundTrip
import CredentialRelay.Proofs.Json.Saturation
import CredentialRelay.Proofs.LessonForm
import CredentialRelay.Proofs.Number.Value
import CredentialRelay.Proofs.Relay.Confinement
import CredentialRelay.Proofs.Relay.Emission
import CredentialRelay.Proofs.Relay.Filing
import CredentialRelay.Proofs.Relay.Footprint
import CredentialRelay.Proofs.Relay.Forms
import CredentialRelay.Proofs.Relay.History
import CredentialRelay.Proofs.Relay.Independence
import CredentialRelay.Proofs.Relay.Inquiries
import CredentialRelay.Proofs.Relay.Learning
import CredentialRelay.Proofs.Relay.Past
import CredentialRelay.Proofs.Relay.Renewal
import CredentialRelay.Proofs.Relay.Sessions
import CredentialRelay.Proofs.Relay.Settling
import CredentialRelay.Proofs.Relay.Steps
import CredentialRelay.Proofs.Relay.Stream
import CredentialRelay.Proofs.Relay.Survival
import CredentialRelay.Proofs.Relay.Teaching
import CredentialRelay.Proofs.Settings.Addresses
import CredentialRelay.Proofs.Settings.Precedence
import CredentialRelay.Proofs.Text.Percent
import CredentialRelay.Proofs.Text.Pieces
import CredentialRelay.Proofs.Token.Reading
import CredentialRelay.Proofs.Token.Subjects
import CredentialRelay.Proofs.Toml.Texts
import CredentialRelay.Relay.Learning
import CredentialRelay.Relay.Renewal
import CredentialRelay.Relay.Rules
import CredentialRelay.Relay.Stream
import CredentialRelay.ResponseBody
import CredentialRelay.Settings.Address
import CredentialRelay.Settings.Basic
import CredentialRelay.Settings.Document
import CredentialRelay.Table
import CredentialRelay.Text.Blank
import CredentialRelay.Text.Decimal
import CredentialRelay.Text.Percent
import CredentialRelay.Token
import CredentialRelay.Toml
import CredentialRelay.Toml.Reader
import CredentialRelay.Toml.Scalar
