import Metaproxy.LoadBalance.Impl
import Metaproxy.LoadBalance.Sessions
import Metaproxy.Util
import Metaproxy.VirtualDB.Frontend
import Metaproxy.VirtualDB.Sets
import Metaproxy.Lib.Formula
import Metaproxy.SessionShared.Query
import Metaproxy.Lib.Rounds
import Metaproxy.Multi.FrontendSet
import Metaproxy.Multi.Merge
import Metaproxy.SessionShared.References
import Metaproxy.Lib.Window
import Metaproxy.Multi.MergedIndex
import Metaproxy.SessionShared.BackendClass
import Metaproxy.SessionShared.Frontend
import Metaproxy.SessionShared.Rep
import Metaproxy.SessionShared.Moves
import Metaproxy.Lib.Pool
import Metaproxy.SessionShared.ClassRuns
import Metaproxy.SessionShared.Ownership
import Metaproxy.SessionShared.TargetSets
import Metaproxy.SessionShared.Acquire
import Metaproxy.SessionShared.Limit
import Metaproxy.SessionShared.Registry
import Metaproxy.SessionShared.Eviction
import Metaproxy.Clients.Rep
import Metaproxy.Clients.Exclusion
import Metaproxy.ThreadPool.Messages
import Metaproxy.FrontendNet.Child
import Metaproxy.FrontendNet.Outstanding
import Metaproxy.FrontendNet.Order
import Metaproxy.BackendTest
import Metaproxy.SessionShared.Present
import Metaproxy.Multi.Frontend
import Metaproxy.Multi.Jobs
import Metaproxy.Multi.Answered
import Metaproxy.Lib.Slice
import Metaproxy.Multi.Merged
import Metaproxy.Multi.Returned
import Metaproxy.Multi.Range
import Metaproxy.Multi.Availability
import Metaproxy.Clients.Closing
import Metaproxy.Clients.Filters
import Metaproxy.SessionShared.InitKey
import Metaproxy.AuthSimple
import Metaproxy.Lib.Cql
import Metaproxy.Zoom.Torus
import Metaproxy.PresentChunk
import Metaproxy.FilterSort.Frontend
import Metaproxy.FilterSort.Closing
import Metaproxy.SRUtoZ3950.Closing
import Metaproxy.HTMLParser
import Metaproxy.HTMLParser.Reparsed
import Metaproxy.HttpRewrite.Rule
import Metaproxy.HttpRewrite.Phase
import Metaproxy.HttpRewrite.Lossless
import Metaproxy.HttpRewrite.Configure
import Metaproxy.HttpRewrite.Exceptions
import Metaproxy.Zoom.Backend
import Metaproxy.Zoom.Databases
import Metaproxy.Zoom.Search
import Metaproxy.Lib.Arrival
import Metaproxy.Zoom.Proxies
import Metaproxy.Zoom.Retries
import Metaproxy.Zoom.Presents
import Metaproxy.Z3950Client.Connections
import Metaproxy.Lib.Checked
import Metaproxy.Multi.Machine
import Metaproxy.Multi.Negotiate
import Metaproxy.Multi.Overflow
import Metaproxy.Multi.ScanBuffer
import Metaproxy.Multi.ServeOrder
import Metaproxy.Piggyback
import Metaproxy.Lib.Greedy
import Metaproxy.LoadBalance.Targets
import Metaproxy.LoadBalance.Packages
import Metaproxy.Lib.Filling
import Metaproxy.PresentChunk.Bounds
import Metaproxy.PresentChunk.Whole
import Metaproxy.FilterSort.Lists
import Metaproxy.FilterSort.PageOrder
import Metaproxy.FilterSort.Forms
import Metaproxy.FilterSort.Prefetching
import Metaproxy.FilterSort.Windows
import Metaproxy.SRUtoZ3950.Bounds
import Metaproxy.SRUtoZ3950.Positions
import Metaproxy.SRUtoZ3950.Window
import Metaproxy.Lib.LastWins
import Metaproxy.Lib.Seek
import Metaproxy.Lib.Slots
import Metaproxy.Zoom.Arguments
import Metaproxy.Zoom.Explain
import Metaproxy.Zoom.TorusRecord
import Metaproxy.HttpRewrite.Progress
import Metaproxy.AuthSimple.Register
import Metaproxy.SruUtil
import Metaproxy.HttpFile
import Metaproxy.Log
import Metaproxy.UrlRecipe
import Metaproxy.HttpRewrite.Leftmost
import Metaproxy.HttpRewrite.Literals
import Metaproxy.HttpRewrite.Groups
import Metaproxy.HTMLParser.Document
import Metaproxy.HttpRewrite.Nesting
import Metaproxy.HTMLParser.Pointers
import Metaproxy.HTMLParser.Spans
import Metaproxy.FrontendNet.Forwarded
import Metaproxy.FrontendNet.PeerStat
import Metaproxy.VirtualDB.Combine
import Metaproxy.VirtualDB.DatabaseNames
import Metaproxy.Lib.Forest
import Metaproxy.RouterFleXML.Accepted
import Metaproxy.RouterFleXML.Pos
import Metaproxy.AuthSimple.Sessions
import Metaproxy.BackendTest.Sessions
import Metaproxy.FrontendNet.Requests
import Metaproxy.Lib.Program
import Metaproxy.Lib.Stage
import Metaproxy.Proxy
import Metaproxy.RecordTransform
import Metaproxy.RouterChain
import Metaproxy.VirtualDB.Conversation
import Metaproxy.VirtualDB.OnBackendTest
import Metaproxy.Clients.Conversations
import Metaproxy.SDRemove
import Metaproxy.SessionShared.Histories
import Metaproxy.Lib.Exchange
import Metaproxy.Z3950Client.Answers
import Metaproxy.Z3950Client.Parting
