import Archiviste.Base.Run
import Archiviste.Base.Text
import Archiviste.Base.Regex
import Archiviste.Base.Spells
import Archiviste.Base.Brackets
import Archiviste.Base.FirstSeen
import Archiviste.Base.Normalization
import Archiviste.Base.Js
import Archiviste.Base.Lines
import Archiviste.Base.Escape
import Archiviste.Base.Framing
import Archiviste.Base.Dict
import Archiviste.Base.Eff
import Archiviste.Base.Prog
import Archiviste.Base.Float
import Archiviste.Base.Chrono
import Archiviste.Base.Json
import Archiviste.Base.Replace
import Archiviste.Base.JsonText
import Archiviste.Base.Redaction
import Archiviste.Base.Uuid
import Archiviste.Base.Yaml
import Archiviste.Base.Versioned
import Archiviste.Base.FileTree
import Archiviste.Base.Log
import Archiviste.Generate.Prompt
import Archiviste.Generate.Parser
import Archiviste.Generate.Llm
import Archiviste.Generate.Acl
import Archiviste.Generate.Memory
import Archiviste.Generate.MemoryWindow
import Archiviste.Generate.Models
import Archiviste.Generate.Pipeline
import Archiviste.Generate.Router
import Archiviste.Generate.StreamRouter
import Archiviste.Contradiction.Judges
import Archiviste.Contradiction.Sources
import Archiviste.Generate.NonInterference
import Archiviste.Generate.StreamGrammar
import Archiviste.Generate.Parity
import Archiviste.Gateway.Throttle
import Archiviste.Gateway.Identity
import Archiviste.Gateway.Session
import Archiviste.Gateway.Login
import Archiviste.Gateway.Tokens
import Archiviste.Gateway.Chat
import Archiviste.Conversation.Post
import Archiviste.Conversation.Transcript
import Archiviste.Conversation.Ownership
import Archiviste.Conversation.QueryLog
import Archiviste.Conversation.Ordinals
import Archiviste.Conversation.Rejection
import Archiviste.Conversation.Delete
import Archiviste.Conversation.Pairing
import Archiviste.Ingest.Frontmatter
import Archiviste.Ingest.Pipeline
import Archiviste.Ingest.Normalize
import Archiviste.Tickets.Service
import Archiviste.Sync.Paths
import Archiviste.Sync.Slugs
import Archiviste.Sync.DocsRenderer
import Archiviste.Sync.LocalDrift
import Archiviste.Sync.Frontmatter
import Archiviste.Sync.Model
import Archiviste.Sync.Allocations
import Archiviste.Sync.Effects
import Archiviste.Sync.Tabs
import Archiviste.Sync.Tracking
import Archiviste.Sync.UserValues
import Archiviste.Sync.Verdicts
import Archiviste.Sync.Entries
import Archiviste.Sync.Containment
import Archiviste.Sync.Counts
import Archiviste.Sync.DryRun
import Archiviste.Sync.Sidecars
import Archiviste.Sync.SavedPaths
import Archiviste.Sync.CleanRuns
import Archiviste.Sync.Idempotence
import Archiviste.Sync.LiveFiles
import Archiviste.Sync.Announced
import Archiviste.Sync.UpToDate
import Archiviste.Eval.Gates
import Archiviste.Eval.Runner
import Archiviste.Eval.Degraded
import Archiviste.Eval.RunWriter
import Archiviste.Retrieve.Validation
import Archiviste.Frontend.PersistedAnswer
import Archiviste.Frontend.SseStream
import Archiviste.Frontend.ChatForm
import Archiviste.Frontend.StreamingAnswer
import Archiviste.Frontend.ReloadedAnswer
import Archiviste.Frontend.RemarkCitations
import Archiviste.Frontend.ChatShell
import Archiviste.Frontend.Selection
import Archiviste.Frontend.Deletion
import Archiviste.Sync.RoundTrip
import Archiviste.Sync.StateFile
import Archiviste.Base.FormUrl
import Archiviste.Tickets.Board
