import Rdmapp.Asio.Buffer
import Rdmapp.Asio.Regions
import Rdmapp.Atomics
import Rdmapp.BlockingQueue
import Rdmapp.CqCapacity
import Rdmapp.CqPoller.Resumption
import Rdmapp.Delivery
import Rdmapp.Handshake.Wiring
import Rdmapp.Immediate
import Rdmapp.LocalMrMoves
import Rdmapp.Objects.OpenHandles
import Rdmapp.Pollers
import Rdmapp.Rpc.Answers
import Rdmapp.Rpc.DefaultHandler
import Rdmapp.Rpc.Failure
import Rdmapp.Rpc.Isolation
import Rdmapp.Rpc.AsyncRpc
import Rdmapp.Rpc.Packets
import Rdmapp.Rpc.Poller
import Rdmapp.Rpc.Queues
import Rdmapp.SendBw
import Rdmapp.Sessions.Helloworld
import Rdmapp.Sessions.Programs
import Rdmapp.Task
import Rdmapp.Transfer
