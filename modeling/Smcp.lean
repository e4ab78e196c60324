import Smcp.Lib.Memory
import Smcp.Lib.OptionFormat
import Smcp.Lib.LinkedTree
import Smcp.Lib.TreeContext
import Smcp.Lib.Run
import Smcp.Lib.Congruential
import Smcp.Lib.Ring
import Smcp.Lib.LinkedList
import Smcp.Lib.IndexList
import Smcp.Lib.CString
import Smcp.Lib.StringBuffer
import Smcp.Lib.Numeral
import Smcp.Decimal
import Smcp.Coap.Decode
import Smcp.Coap.Verify
import Smcp.Coap.Encode
import Smcp.Coap.Codec
import Smcp.Url.Escape
import Smcp.Url.Count
import Smcp.Url.Parse
import Smcp.Url.Render
import Smcp.Url.Change
import Smcp.Url.Shorten
import Smcp.Btree
import Smcp.Btree.Store
import Smcp.Btree.Balance
import Smcp.Btree.Lookup
import Smcp.Node.Basic
import Smcp.Node.Store
import Smcp.Node.Path
import Smcp.Node.Replace
import Smcp.Instance
import Smcp.Timer
import Smcp.Transaction.Basic
import Smcp.Timer.Convert
import Smcp.Outbound.Compose
import Smcp.Outbound.Options
import Smcp.Outbound.Size
import Smcp.Outbound.Bookkeeping
import Smcp.Outbound.Automatic
import Smcp.Outbound.Reply
import Smcp.Inbound.Parse
import Smcp.Inbound.Request
import Smcp.Inbound.Iterator
import Smcp.Inbound.Strequal
import Smcp.Inbound.Vhost
import Smcp.Node.Route
import Smcp.Observable
import Smcp.Transaction.Response
import Smcp.Inbound.Finish
import Smcp.Transaction.Core
import Smcp.World
import Smcp.Transaction.Store
import Smcp.Transaction.Ids
import Smcp.Transaction.Refine
import Smcp.Observable.Refine
import Smcp.Transaction.Evolve
import Smcp.Application
import Smcp.Transaction.Runs
import Smcp.Timer.Queue
import Smcp.Timer.Cancel
import Smcp.Timer.Wait
import Smcp.Transaction.Expiry
import Smcp.Observable.Table
import Smcp.Observable.Numbers
import Smcp.Observable.Numbering
import Smcp.Transaction.Retransmit
import Smcp.Transaction.MaxAge
import Smcp.Transaction.Notify
import Smcp.Transaction.Callbacks
import Smcp.Transaction.Pool
import Smcp.Transaction.PoolRuns
import Smcp.Inbound.Respond
import Smcp.Inbound.Duplicate
import Smcp.Inbound.Reject
import Smcp.Inbound.Checks
import Smcp.Outbound.RoundTrip
import Smcp.Outbound.Uri
import Smcp.Inbound.Path
import Smcp.Inbound.PathBuffer
import Smcp.Outbound.Response
import Smcp.Variable.Basic
import Smcp.Variable.Listing
import Smcp.Variable.Quoted
import Smcp.Variable.Form
import Smcp.Node.Handle
import Smcp.Node.Payload
import Smcp.Node.Critical
import Smcp.Inbound.Answered
import Smcp.Inbound.MessageLayer
import Smcp.Inbound.Network
import Smcp.Transaction.Passive
import Smcp.Transaction.Exchange
import Smcp.Transaction.ExchangeRuns
import Smcp.Node.Writes
import Smcp.Node.Answers
import Smcp.Node.Faults
import Smcp.Node.OneReply
import Smcp.Outbound.Bare
import Smcp.Node.ListRequest
import Smcp.Cgi.Node
import Smcp.Plugtest.Large
import Smcp.Ctl.LinkFormat
import Smcp.Ctl.LinkScan
import Smcp.Ctl.Listing
import Smcp.Cgi.States
import Smcp.Cgi.Output
import Smcp.Cgi.Exchange
import Smcp.Cgi.Fetch
