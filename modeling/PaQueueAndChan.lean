import PaQueueAndChan.Priority.Closing
import PaQueueAndChan.Priority.WakeUp
import PaQueueAndChan.Priority.Polling
import PaQueueAndChan.Priority.Wakers
import PaQueueAndChan.Priority.Sequential
import PaQueueAndChan.KeyChannel.EndOfStream
import PaQueueAndChan.KeyChannel.Draining
import PaQueueAndChan.KeyChannel.Refinement
import PaQueueAndChan.KeyChannel.KvMpscMultik.SingleKey
import PaQueueAndChan.KeyChannel.KvMpscMultik.Order
import PaQueueAndChan.KeyChannel.KvMpscMultik.Conservation
import PaQueueAndChan.KeyChannel.KvMpscMultik.KeysStates
import PaQueueAndChan.KeyChannel.KvMpscMultik.WaitingIds
import PaQueueAndChan.LinkQueue.Drop
import PaQueueAndChan.LinkQueue.Safety
import PaQueueAndChan.LinkQueue.LockFree
import PaQueueAndChan.NoOrderQueue.Draining
import PaQueueAndChan.TimeoutParker.Progress
import PaQueueAndChan.AtomicWaker.Delivery
import PaQueueAndChan.LightSync
