import CassandraApi.C.Memory
import CassandraApi.C.CString
import CassandraApi.C.Span
import CassandraApi.C.StringArray
import CassandraApi.Lib.Ring
import CassandraApi.Lib.Json
import CassandraApi.Lib.Machine
import CassandraApi.Lib.Slots
import CassandraApi.Lib.TwoRuns
import CassandraApi.Lib.Circular
import CassandraApi.Lib.Join
import CassandraApi.Lib.Reduce
import CassandraApi.Lib.Blocks
import CassandraApi.Linkedlist
import CassandraApi.Rings
import CassandraApi.BaseEpoll
import CassandraApi.Events
import CassandraApi.Rauthen
import CassandraApi.Rhosts
import CassandraApi.Codec.UrlEncode
import CassandraApi.Codec.UrlBuffer
import CassandraApi.Codec.Base64
import CassandraApi.Codec.Md5
import CassandraApi.Ber.Length
import CassandraApi.Ber.Write
import CassandraApi.Ber.Tlv
import CassandraApi.Ldap.Types
import CassandraApi.Ldap.Encode
import CassandraApi.Ldap.Wire
import CassandraApi.Ldap.Requests
import CassandraApi.Ldap.Frame
import CassandraApi.Ldap.Framing
import CassandraApi.Ldap.DecodeResponse
import CassandraApi.Ldap.Queues
import CassandraApi.Ldap.Client
import CassandraApi.Ldap.Pool
import CassandraApi.Ldap.PoolRefines
import CassandraApi.Ldap.Agreement
import CassandraApi.Ldap.ConnStep
import CassandraApi.Ldap.SendPath
import CassandraApi.Ldap.Window
import CassandraApi.Ldap.Entries
import CassandraApi.Ldap.Filter
import CassandraApi.Ldap.FilterOctets
import CassandraApi.Ldap.FilterRoom
import CassandraApi.Ldap.FilterPrint
import CassandraApi.Ldap.FilterText
import CassandraApi.Ldap.MatchingRule
import CassandraApi.Ldap.Substrings
import CassandraApi.Ldap.DecodeRequest
import CassandraApi.Ldap.Respond
import CassandraApi.Ldap.Session
import CassandraApi.Ldap.Bind
import CassandraApi.Ldap.Login
import CassandraApi.Ldap.Overload
import CassandraApi.Ldap.ConnTimers
import CassandraApi.Ldap.Timers
import CassandraApi.Ldap.Sweeps
import CassandraApi.Ldap.Serving
import CassandraApi.Ldap.SessionTable
import CassandraApi.Ldap.Outstanding
import CassandraApi.Ldap.Idle
import CassandraApi.Ldap.Access
import CassandraApi.Ldap.Statistics
import CassandraApi.Ldap.ClientStatistics
import CassandraApi.Ldap.Outbound
import CassandraApi.Ldap.Channel
import CassandraApi.Ldap.FailedSend
import CassandraApi.Ldap.Hostile
import CassandraApi.Ldap.Controls
import CassandraApi.Ldap.Spans
import CassandraApi.Ldap.Loops
import CassandraApi.Ldap.DecodeEnds
import CassandraApi.Ldap.Reading
import CassandraApi.Ldap.Rename
import CassandraApi.Ldap.Responses
import CassandraApi.Ldap.Arriving
import CassandraApi.Ldap.Inbound
import CassandraApi.Ldap.Conversation
import CassandraApi.Ldap.Lists
import CassandraApi.Ldap.WriteRequests
import CassandraApi.Ldap.AttrList
import CassandraApi.Ldap.Objects
import CassandraApi.Ldap.SearchObjects
import CassandraApi.Ldap.AttrString
import CassandraApi.Ldap.ResultText
import CassandraApi.Ldap.ResultGroups
import CassandraApi.Ldap.JsonResults
import CassandraApi.Ldap.ObjectRing
import CassandraApi.Ldap.ListBounds
import CassandraApi.Ldap.Searching
import CassandraApi.Ldap.AnySearch
import CassandraApi.Ldap.Controlled
import CassandraApi.Ldap.FilterJourney
import CassandraApi.Ldap.Lengths
import CassandraApi.Ldap.MessageIds
import CassandraApi.Ldap.BerBuffer
import CassandraApi.Http.Session
import CassandraApi.Http.Gather
import CassandraApi.Http.Cut
import CassandraApi.Http.Rejected
import CassandraApi.Http.SessionTable
import CassandraApi.Http.Pages
import CassandraApi.Http.Leftover
import CassandraApi.Http.Writing
import CassandraApi.Http.Room
import CassandraApi.Http.Announced
import CassandraApi.Http.RequestLine
import CassandraApi.Opening
import CassandraApi.Watch
import CassandraApi.Sdf.Log
import CassandraApi.Sdf.Trace
import CassandraApi.Sdf.Xml
import CassandraApi.Sdf.XmlReads
import CassandraApi.Sdf.Escape
import CassandraApi.Sdf.XmlTree
import CassandraApi.Sdf.Attributes
import CassandraApi.Sdf.ByName
import CassandraApi.Sdf.Config
import CassandraApi.Spark.Reports
import CassandraApi.Spark.Summary
import CassandraApi.ResultColumns
