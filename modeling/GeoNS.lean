import GeoNS.Runs
import GeoNS.CString
import GeoNS.SqlLexer
import GeoNS.Core
import GeoNS.Db.Table
import GeoNS.Db.Faithful
import GeoNS.Db.Uniqueness
import GeoNS.Db.Schema
import GeoNS.Db.Handles
import GeoNS.Inet
import GeoNS.Parson.Parser
import GeoNS.Parson.Laws
import GeoNS.Geonsp.Protocol
import GeoNS.Geonsp.Answers
import GeoNS.Geonsp.Residue
import GeoNS.Geonsp.Caller
import GeoNS.Geonsp.Ping
import GeoNS.Geonsp.Session
import GeoNS.Geonsp.Listing
import GeoNS.Geonsp.Transfer
import GeoNS.Geonsp.Pruning
import GeoNS.Http.Specs
import GeoNS.Http.Parser
import GeoNS.Http.Router
import GeoNS.Http.Server
import GeoNS.Http.Routing
import GeoNS.Http.Containment
import GeoNS.Http.OneAnswer
import GeoNS.LinkedList
import GeoNS.SlotTable
import GeoNS.Socket.Server
import GeoNS.Socket.Connections
import GeoNS.Socket.Descriptors
import GeoNS.Socket.Ownership
import GeoNS.Socket.Roster
import GeoNS.Socket.Lifecycle
import GeoNS.Socket.Release
import GeoNS.Socket.Killing
import GeoNS.Socket.Shutdown
import GeoNS.Db.Lifetimes
import GeoNS.Http.Capacity
import GeoNS.Parson.Dotted
import GeoNS.Parson.Locality
import GeoNS.Config.Manager
import GeoNS.Config.Store
import GeoNS.Config.Startup
import GeoNS.Db.Rounds
import GeoNS.Http.Response
import GeoNS.AssocMap
import GeoNS.Http.Matching
import GeoNS.Http.Headers
import GeoNS.Http.Framing
import GeoNS.Http.RequestLine
import GeoNS.Http.Methods
import GeoNS.Http.Terminated
import GeoNS.Http.Section
import GeoNS.Http.Bodies
import GeoNS.Http.Arrival
import GeoNS.Geonsp.Received
import GeoNS.Geonsp.Reply
import GeoNS.Geonsp.Dispatch
import GeoNS.Geonsp.Ports
import GeoNS.Holdings
import GeoNS.CArray
import GeoNS.Http.RouteTable
import GeoNS.Socket.Chunks
import GeoNS.Socket.Drain
import GeoNS.Geonsp.Availability
import GeoNS.Parson.Lengths
import GeoNS.Geonsp.ReplySize
import GeoNS.Io.BaseDir
import GeoNS.Io.Paths
import GeoNS.Io.Entries
import GeoNS.Http.Lengths
import GeoNS.Http.Releases
import GeoNS.Gossip
import GeoNS.Geonsp.Network
import GeoNS.Geonsp.Origin
import GeoNS.Geonsp.Mesh
import GeoNS.Parson.Pretty
import GeoNS.Parson.Accepted
import GeoNS.Parson.Alike
import GeoNS.Config.Updates
import GeoNS.Http.Wire
import GeoNS.Lockstep
import GeoNS.Cli.Argparse
import GeoNS.Cli.InPlace
import GeoNS.Cli.Render
import GeoNS.StrMapBlocks
import GeoNS.Http.Teardown
import GeoNS.Http.RouteMemory
import GeoNS.Io.LogFile
import GeoNS.Probing
import GeoNS.Parson.HashTable
import GeoNS.Parson.HashSearch
import GeoNS.Parson.HashRemoval
import GeoNS.Parson.HashRuns
