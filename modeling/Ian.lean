import Ian.Lib.Run
import Ian.Happy.Ast
import Ian.Happy.Parser
import Ian.Happy.Simulation
import Ian.Happy.Buffer
import Ian.Happy.Lexing
import Ian.Happy.Scanning
import Ian.Happy.Grammar
import Ian.Happy.Deciding
import Ian.Happy.Fuel
import Ian.Happy.Correctness
import Ian.Cluster.Connection
import Ian.Cluster.Decoding
import Ian.Common.Outbound
import Ian.Cluster.Writing
import Ian.Front.WsConnection
import Ian.Front.WsWriting
import Ian.Cluster.Peers
import Ian.Common.Acceptor
import Ian.Cluster.Acceptor
import Ian.Front.WsAcceptor
import Ian.Lib.Chain
import Ian.Front.Main
import Ian.Common.Teardown
import Ian.Cluster.Teardown
import Ian.Cluster.Layers
import Ian.Front.WsTeardown
import Ian.Front.Ending
import Ian.Front.Deadline
import Ian.Front.Upgrading
import Ian.Front.RateLimit
import Ian.Front.Server
import Ian.Front.Overload
import Ian.Happy.Printing
import Ian.Happy.ReadBack
import Ian.Happy.Placing
import Ian.Happy.ArraySize
import Ian.Happy.Stopping
import Ian.Happy.Fragments
import Ian.Common.Config
import Ian.Common.ConfigChilds
import Ian.Front.Refreshing
import Ian.Happy.WholeStream
import Ian.Happy.Positions
import Ian.Lib.Viable
import Ian.Happy.Language
import Ian.Happy.FirstBadToken
import Ian.Happy.Consuming
import Ian.Lib.Radix
import Ian.Core.Magic
import Ian.Core.Network
import Ian.Lib.Progress
import Ian.Cluster.Failures
import Ian.Cluster.Delivery
import Ian.Common.Attendance
import Ian.Cluster.Lifetime
import Ian.Front.WsLifetime
import Ian.Front.WsCourse
import Ian.Front.MainRun
import Ian.Happy.Layout
import Ian.Happy.Spacing
import Ian.Cluster.Closing
import Ian.Front.WsClosing
import Ian.Cluster.Watching
import Ian.Common.Returning
import Ian.Front.Returning
import Ian.Front.Reloading
import Ian.Happy.Joining
