import Uclip.Lib.HashMap
import Uclip.Lib.Bounded
import Uclip.Lib.System
import Uclip.Lib.Text
import Uclip.Lib.Lines
import Uclip.Lib.Channel
import Uclip.Lib.Broadcast
import Uclip.Lib.Ledger
import Uclip.Lib.Spans
import Uclip.Lib.Json
import Uclip.Lib.JsonText
import Uclip.Lib.StableSort
import Uclip.Lib.Trace
import Uclip.Config
import Uclip.Mime
import Uclip.PickReference
import Uclip.Content
import Uclip.ContentLaws
import Uclip.Shape
import Uclip.ClipState
import Uclip.StoreLaws
import Uclip.HashOrder
import Uclip.Types
import Uclip.AppState
import Uclip.Published
import Uclip.SourceLaws
import Uclip.Drain
import Uclip.Dispatch
import Uclip.Effects
import Uclip.EventLoop
import Uclip.DrainLaws
import Uclip.DrainReference
import Uclip.Drained
import Uclip.LoopLaws
import Uclip.Passes
import Uclip.Selection
import Uclip.Mirror
import Uclip.Stored
import Uclip.Setup
import Uclip.Echo
import Uclip.Collision
import Uclip.Adjacent
import Uclip.Compositor
import Uclip.RequestLaws
import Uclip.SelfRead
import Uclip.Ownership
import Uclip.OfferLife
import Uclip.Connection
import Uclip.Unread
import Uclip.Pipes
import Uclip.Dialogue
import Uclip.Provenance
import Uclip.Handler
import Uclip.Paging
import Uclip.Framing
import Uclip.Wire
import Uclip.Conversation
import Uclip.Server
import Uclip.ServerLaws
import Uclip.Backpressure
import Uclip.Replies
import Uclip.Delivery
import Uclip.ServerRun
import Uclip.Announced
import Uclip.Accounting
import Uclip.Roundtrip
import Uclip.Replica
import Uclip.Pipeline
import Uclip.Unordered
import Uclip.Timestamps
import Uclip.Cuts
import Uclip.Tasks
import Uclip.EndToEnd
import Uclip.Unseen
import Uclip.CatchUp
