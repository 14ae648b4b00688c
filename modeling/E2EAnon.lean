import E2EAnon.Lib.Machine
import E2EAnon.Lib.Counter
import E2EAnon.Lib.History
import E2EAnon.Relay.Refine
import E2EAnon.Relay.Sessions
import E2EAnon.Relay.Admission
import E2EAnon.Relay.Inflight
import E2EAnon.Relay.Caps
import E2EAnon.Relay.Channels
import E2EAnon.Relay.Authorship
import E2EAnon.Relay.Cleanup
import E2EAnon.Relay.Authority
import E2EAnon.Relay.Issuers
import E2EAnon.Relay.Order
import E2EAnon.Relay.Backlog
import E2EAnon.Relay.Welcome
import E2EAnon.Relay.Origins
import E2EAnon.Net.Presence
import E2EAnon.Net.Kinds
import E2EAnon.Web.Keys
import E2EAnon.Web.Guess
import E2EAnon.Web.Spake2
import E2EAnon.Web.Stale
import E2EAnon.Web.Zeroing
import E2EAnon.Net.Rollback
import E2EAnon.Net.Files
import E2EAnon.Http.ClientIP
import E2EAnon.Web.Transcript
import E2EAnon.Web.Chunking
import E2EAnon.Relay.Decisions
import E2EAnon.Relay.Transfers
import E2EAnon.Relay.Janitor
import E2EAnon.Relay.Invites
import E2EAnon.Relay.Consent
import E2EAnon.Relay.Refusal
import E2EAnon.Web.Limits
import E2EAnon.Web.Payload
import E2EAnon.Relay.Settle
import E2EAnon.Relay.Blind
import E2EAnon.Http.Server
import E2EAnon.Net.Texts
import E2EAnon.Web.Invite
import E2EAnon.Web.Hiding
import E2EAnon.Relay.Notice
import E2EAnon.Relay.Shutdown
import E2EAnon.Net.Agreement
import E2EAnon.Net.Delivery
