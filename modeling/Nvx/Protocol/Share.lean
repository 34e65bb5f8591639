import Mathlib.Init

namespace Nvx.Protocol

/-! The guest targets that the container runtime takes for itself
(`protocol/share.rs`). -/

/-- No share is in one of these trees, or holds one. -/
def reservedMountTargets : List String :=
  ["/proc", "/sys", "/dev", "/.nvx-agent", "/etc/machine-id", "/etc/resolv.conf", "/run/nvx/time"]

/-- No share is at one of these paths, though it may be below. -/
def reservedExactMountTargets : List String := ["/etc", "/run", "/run/nvx"]

end Nvx.Protocol
