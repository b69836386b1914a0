import WorkflowKernel.Lib.Transition
import WorkflowKernel.MsgQueue.Unbounded
import WorkflowKernel.MsgQueue.Deque
import WorkflowKernel.Communicator.Datagram
import WorkflowKernel.Poller.Read
import WorkflowKernel.Poller.Mpoller
import WorkflowKernel.Resources.Communicator
import WorkflowKernel.Poller.Registry.Laws
import WorkflowKernel.Send.Stream
import WorkflowKernel.ListHead.Sequence
import WorkflowKernel.SubTask.Completion
import WorkflowKernel.Communicator.Server.Disposition
import WorkflowKernel.Communicator.Server.Entries
import WorkflowKernel.Communicator.Service.Lifetime
import WorkflowKernel.Communicator.Service.Binding
import WorkflowKernel.Communicator.Timeout.Receive
import WorkflowKernel.Communicator.Timeout.Send
import WorkflowKernel.IoService.Unbinding
import WorkflowKernel.ThreadPool.Join
import WorkflowKernel.Poller.Sweep.Stop
import WorkflowKernel.Communicator.Client.Lifecycle
import WorkflowKernel.Poller.Tree.Order
