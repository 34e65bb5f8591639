import Nvx.Exec.PeerEnding
import Nvx.Exec.SystemInput
import Nvx.Exec.SystemVerdict
import Nvx.Protocol.Nvxs.GuestLaws
import Nvx.Protocol.Nvxs.HostLaws
import Nvx.Protocol.ExecRoundTrip
import Nvx.Protocol.CmdlineKernel
import Nvx.Host.Egress.Exact
import Nvx.Host.Template.LogSearch
import Nvx.Net.Cidr
import Nvx.Activation.RoundTrip
import Nvx.Host.Template.KeyRoundTrip
import Nvx.Gpt.WellFormed
import Nvx.Gpt.Checksum
import Nvx.Guest.Dispatch
import Nvx.Host.Filesystem.GuestTable
import Nvx.Guest.Mappings.Protection
import Nvx.Host.Filesystem.Writes
import Nvx.Exec.Inert
import Nvx.Exec.Deadlines
import Nvx.Guest.Time.Samples
import Nvx.Guest.Time.SuppressionRuns
import Nvx.Host.Template.Progress
import Nvx.Guest.Ingress.Settling
