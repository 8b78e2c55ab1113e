import BVisor.Bpf.Decoder
import BVisor.Kernel.SeccompCache
import BVisor.Egress.GateSafety
import BVisor.Egress.Lifecycle
import BVisor.Ingress.Fidelity
import BVisor.Ingress.Decoding
import BVisor.Network.Accounting
import BVisor.Network.Cutting
import BVisor.Tcp.Window
import BVisor.Tcp.Delivery
import BVisor.FileLock.Blocking
import BVisor.FileLock.Testing
import BVisor.Auth.IDMap
import BVisor.Auth.Identity
import BVisor.State.RoundTrip
import BVisor.Futex.Waking
import BVisor.Descriptors.Consistency
import BVisor.Lisafs.RoundTrip
import BVisor.Lisafs.Donation
import BVisor.Nftables.Verdicts
import BVisor.Nftables.Loops
import BVisor.ConnTrack.Translation
import BVisor.SharedMem.Pipe
import BVisor.Ports.Ephemeral
import BVisor.Semaphore.Operations
import BVisor.MessageQueue.Queue
import BVisor.Pipe.Blocking
