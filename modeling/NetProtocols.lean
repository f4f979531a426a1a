import NetProtocols.Lib.Arith
import NetProtocols.Lib.Bytes
import NetProtocols.Lib.Run
import NetProtocols.Lib.KeyList
import NetProtocols.Lib.Framing
import NetProtocols.Lib.Channel
import NetProtocols.Lib.Packing
import NetProtocols.Lib.Serial
import NetProtocols.Lib.Elapsed
import NetProtocols.Lib.Backoff
import NetProtocols.Lib.Estimator
import NetProtocols.Lib.Text
import NetProtocols.Lib.Reach
import NetProtocols.Lib.Demand
import NetProtocols.Kcp.Segment
import NetProtocols.Kcp.Kcb
import NetProtocols.Kcp.Input
import NetProtocols.Kcp.Flush
import NetProtocols.Kcp.Endpoint
import NetProtocols.Kcp.Frames
import NetProtocols.Kcp.FlushSteps
import NetProtocols.Kcp.RecvInv
import NetProtocols.Kcp.Fragments
import NetProtocols.Kcp.Reassembly
import NetProtocols.Kcp.Arrival
import NetProtocols.Kcp.SendInv
import NetProtocols.Kcp.Acks
import NetProtocols.Kcp.Congestion
import NetProtocols.Kcp.Link
import NetProtocols.Kcp.Reading
import NetProtocols.Kcp.Checked
import NetProtocols.Kcp.Offers
import NetProtocols.Kcp.Stall
import NetProtocols.Kcp.Delivery
import NetProtocols.Kcp.Discard
import NetProtocols.Kcp.Shift
import NetProtocols.Kcp.Steady
import NetProtocols.Kcp.Wrap
import NetProtocols.Kcp.Integrity
import NetProtocols.Kcp.Emission
import NetProtocols.Kcp.Outgoing
import NetProtocols.Kcp.Trace
import NetProtocols.Kcp.Outbound
import NetProtocols.Kcp.Probe
import NetProtocols.Kcp.OneFlush
import NetProtocols.Kcp.Retransmit
import NetProtocols.Kcp.Clock
import NetProtocols.Kcp.Reopen
import NetProtocols.Kcp.Codec
import NetProtocols.Kcp.Timers
import NetProtocols.Kcp.Schedule
import NetProtocols.Kcp.Stages
import NetProtocols.Kcp.Window
import NetProtocols.Kcp.Estimate
import NetProtocols.Kcp.Abandoned
import NetProtocols.Kcp.Sending
import NetProtocols.Kcp.Output
import NetProtocols.Kcp.Stream
import NetProtocols.Kcp.TryRead
import NetProtocols.Kcp.Silent
import NetProtocols.Kcp.Datagrams
import NetProtocols.Kcp.Reader
import NetProtocols.Kcp.Readable
import NetProtocols.Kcp.ReadLoop
import NetProtocols.Kcp.Writer
import NetProtocols.Kcp.Listener
import NetProtocols.Kcp.Serving
import NetProtocols.Kcp.Calls
import NetProtocols.Kcp.Server
import NetProtocols.Kcp.Foreign
import NetProtocols.Kcp.Heard
import NetProtocols.Kcp.Told
import NetProtocols.Kcp.Healthy
import NetProtocols.Kcp.Progress
import NetProtocols.Kcp.Pacing
import NetProtocols.Kcp.Origin
import NetProtocols.Kcp.Footprint
import NetProtocols.Kcp.Timeouts
import NetProtocols.Socks.Address
import NetProtocols.Socks.Header
import NetProtocols.Socks.Acceptor
import NetProtocols.Socks.Panics
import NetProtocols.Socks.Negotiation
import NetProtocols.Socks.FromStr
import NetProtocols.Connector.Relay
import NetProtocols.Connector.Handshake
