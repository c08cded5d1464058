import Edgelet.Auth.Projection
import Edgelet.Data.Promotion
import Edgelet.DnsResolver.Snapshot
import Edgelet.EdgeGuard.Sensitivity
import Edgelet.EdgeletAPI.Control
import Edgelet.Engine.Drift
import Edgelet.FieldAgent.ControllerReconcile
import Edgelet.FieldAgent.DesiredChanges
import Edgelet.FieldAgent.DesiredList
import Edgelet.FieldAgent.LogDeadlock
import Edgelet.FieldAgent.Reprovision
import Edgelet.FieldAgent.SessionOutput
import Edgelet.FieldAgent.SessionPoll
import Edgelet.FieldAgent.StatusAuth
import Edgelet.FieldAgent.StatusReport
import Edgelet.FieldAgent.TransportClose
import Edgelet.LocalWorkload.Edits
import Edgelet.LocalWorkload.Observed
import Edgelet.Healthcheck.Runner
import Edgelet.Logging.Follow
import Edgelet.Logging.Rotation
import Edgelet.ModelManager.Generations
import Edgelet.ModelPull.Blob
import Edgelet.ModelPull.Collect
import Edgelet.ModelPull.Download
import Edgelet.ModelPull.Incomplete
import Edgelet.ModelPull.Unpack
import Edgelet.ProcessManager.Deadlines
import Edgelet.ProcessManager.Drain
import Edgelet.ProcessManager.ExecApart
import Edgelet.ProcessManager.ExitText
import Edgelet.ProcessManager.Gate
import Edgelet.ProcessManager.Grace
import Edgelet.ProcessManager.InFlight
import Edgelet.ProcessManager.Quiesce
import Edgelet.ProcessManager.Shutdown
import Edgelet.ProcessManager.Skips
import Edgelet.Pruning.Images
import Edgelet.RuntimeAPI.VolumeUsage
import Edgelet.Supervisor.EngineReload
import Edgelet.Supervisor.EngineSwitch
import Edgelet.VolumeMount.HostPath
import Edgelet.VolumeMount.Rotation
import Edgelet.VolumeReclaim.Prune
