import Wiretap.Main
import Wiretap.Tap.Stream
import Wiretap.Cert.Office
import Wiretap.Cert.Upkeep
import Wiretap.Proofs.Cert.Once
import Wiretap.Proofs.Cert.Alone
import Wiretap.Proofs.Cert.Root
import Wiretap.Proofs.Cert.Issuer
import Wiretap.Proofs.Cert.Confined
import Wiretap.Proofs.Occurrence
import Wiretap.Proofs.Http.Heads
import Wiretap.Proofs.Http.Growth
import Wiretap.Proofs.Http.Encoding
import Wiretap.Proofs.Http.Marker
import Wiretap.Proofs.Http.Truncation
import Wiretap.Proofs.Http.Decoding
import Wiretap.Proofs.Http.Noise
import Wiretap.Proofs.Http.Room
import Wiretap.Proofs.Text.Valid
import Wiretap.Proofs.Tap.Frames
import Wiretap.Proofs.Tap.Reading
import Wiretap.Proofs.Tap.Content
import Wiretap.Proofs.Tunnel.Response
import Wiretap.Proofs.Tunnel.Receive
import Wiretap.Proofs.Tunnel.Run
import Wiretap.Proofs.Tunnel.Fidelity
import Wiretap.Proofs.Tunnel.Breakdown
import Wiretap.Proofs.Tunnel.Segments
import Wiretap.Proofs.Tunnel.Reset
import Wiretap.Proofs.Tunnel.Visits
import Wiretap.Proofs.Tunnel.Ending
import Wiretap.Proofs.Tunnel.Requests
import Wiretap.Proofs.Tunnel.Anew
import Wiretap.Proofs.Tunnel.Renewed
import Wiretap.Proofs.Tunnel.Carried
import Wiretap.Proofs.Tunnel.Refusal
import Wiretap.Proofs.Tunnel.Asking
import Wiretap.Proofs.Tunnel.Rounds
import Wiretap.Proofs.Tunnel.Pieces
import Wiretap.Proofs.Outbound.Grant
import Wiretap.Proofs.Outbound.Messages
import Wiretap.Proofs.Net.Targets
import Wiretap.Proofs.Outbound.Requests
import Wiretap.Proofs.Outbound.Urls
import Wiretap.Session
import Wiretap.Proofs.Outbound.Ways
import Wiretap.Proofs.Session.Opening
import Wiretap.Proofs.Session.Headers
import Wiretap.Proofs.Session.Blind
import Wiretap.Proofs.Session.Policy
import Wiretap.Proofs.Session.Idle
import Wiretap.Proofs.Json.Numerals
import Wiretap.Proofs.Json.Printed
import Wiretap.Proofs.Json.Members
import Wiretap.Proofs.Json.Doubles
import Wiretap.Proofs.Number.Rounding
import Wiretap.Proofs.Number.Decimals
import Wiretap.Proofs.Tap.Arguments
import Wiretap.Proofs.Tap.Woven
import Wiretap.Proofs.Tap.Calls
import Wiretap.Proofs.Tap.Payloads
import Wiretap.Proofs.Tap.Streamed
import Wiretap.Proofs.Tap.Backlog
import Wiretap.Proofs.Tap.Distinct
import Wiretap.Proofs.Tap.Matches
import Wiretap.Proofs.Text.Encoded
import Wiretap.Proofs.Text.Base64
import Wiretap.Proofs.Text.Percent
import Wiretap.Proofs.Published
