import Mathlib.Init

namespace Nvx.Guest

/-! The errors of the guest's kernel. -/

abbrev Errno : Type := Nat

def ENOENT : Errno := 2
def EAGAIN : Errno := 11
def EEXIST : Errno := 17
def ENOTDIR : Errno := 20
def EINVAL : Errno := 22
def ELOOP : Errno := 40
def EPROTO : Errno := 71
def EMSGSIZE : Errno := 90
def ENOTSUP : Errno := 95

end Nvx.Guest
