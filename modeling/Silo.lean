import Silo.Core.Journal
import Silo.Core.Quota
import Silo.Harness.Dialogue
import Silo.Harness.Waiters
import Silo.Harness.Outlive
import Silo.Harness.Interrupts
import Silo.Harness.Completions
import Silo.Harness.AwaitAny
import Silo.Harness.Limits
import Silo.Harness.Audience
import Silo.Clients.TuiCatchUp
import Silo.Clients.BusyFlag
import Silo.Clients.SecretStoreRuns
import Silo.Clients.HarnessRegistryRuns
import Silo.Clients.AppConnectionRuns
import Silo.Llm.FullMessages
import Silo.Llm.ChatBody
import Silo.Llm.Continuation
import Silo.Harness.Teardown
import Silo.Shell.JournalGuard
import Silo.Shell.AllowlistVerdict
import Silo.Shell.Mirror
import Silo.Clients.StoreCatchUp
import Silo.Frontend.EventPump
import Silo.Frontend.AdmissionRuns
import Silo.Frontend.Answers
import Silo.Frontend.Nesting
import Silo.Frontend.Auth
import Silo.Codec.Codecs
import Silo.Proxy.Allowlist
import Silo.Proxy.Dns
import Silo.Proxy.Egress
import Silo.Replay.Tools
import Silo.Replay.Confluence
import Silo.Replay.Mismatch
import Silo.Workspace.RegistryLock
import Silo.Workspace.Attachments
import Silo.Workspace.Manager
import Silo.Workspace.Changes
import Silo.Harness.SendFile
import Silo.Harness.StoreUpload
import Silo.Harness.Uploads
import Silo.Harness.InterruptedTurns
import Silo.Sandbox.HelperCalls
import Silo.Sandbox.ServeRuns
import Silo.Sandbox.ToolImpl
import Silo.Sandbox.HelperLeavings
import Silo.Sandbox.EditFile
import Silo.Sandbox.Paging
import Silo.Harness.Commands
import Silo.Harness.CommandSteps
import Silo.Harness.CommandRuns
import Silo.Proxy.Ranges
import Silo.Lib.Sexp
import Silo.Sandbox.Profile
import Silo.Sandbox.ScratchEnv
import Silo.Clients.HarnessRegistryUnique
import Silo.Clients.LegacyMigration
import Silo.Clients.WireEvents
import Silo.Tui.Editor
import Silo.Frontend.RequestHead
import Silo.Sandbox.SearchCoding
import Silo.Sandbox.Capped
import Silo.Clients.LocalHarness
import Silo.Proxy.ReplayedStreams
import Silo.Lib.Crash
import Silo.Workspace.Copies
import Silo.Workspace.Images
import Silo.Llm.Realtime
import Silo.Frontend.CostWatcher
