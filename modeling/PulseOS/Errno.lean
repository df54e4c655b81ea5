import Mathlib.Tactic

/-!
# Linux error numbers

The error type shared by every subsystem (`LinuxError` of the kernel).
-/

namespace PulseOS

inductive LinuxError where
  | EPERM | ENOENT | ESRCH | EINTR | EIO | ENXIO | E2BIG | EBADF | ECHILD | EAGAIN | ENOMEM
  | EACCES | EFAULT | ENOTBLK | EBUSY | EEXIST | ENODEV | ENOTDIR | EISDIR | EINVAL | EMFILE
  | ENOTTY | ETXTBSY | EFBIG | ENOSPC | ESPIPE | EROFS | EPIPE | ERANGE | ENAMETOOLONG | ENOSYS
  | ELOOP | EIDRM | ENOTSOCK | EDESTADDRREQ | EMSGSIZE | EPROTOTYPE | ENOPROTOOPT
  | EPROTONOSUPPORT | ESOCKTNOSUPPORT | EOPNOTSUPP | EAFNOSUPPORT | EADDRINUSE | EADDRNOTAVAIL
  | EISCONN | ENOTCONN | ETIMEDOUT | ECONNREFUSED | EINPROGRESS
  deriving DecidableEq, Repr

namespace LinuxError

def code : LinuxError → Nat
  | EPERM => 1 | ENOENT => 2 | ESRCH => 3 | EINTR => 4 | EIO => 5 | ENXIO => 6 | E2BIG => 7
  | EBADF => 9 | ECHILD => 10 | EAGAIN => 11 | ENOMEM => 12 | EACCES => 13 | EFAULT => 14
  | ENOTBLK => 15 | EBUSY => 16 | EEXIST => 17 | ENODEV => 19 | ENOTDIR => 20 | EISDIR => 21
  | EINVAL => 22 | EMFILE => 24 | ENOTTY => 25 | ETXTBSY => 26 | EFBIG => 27 | ENOSPC => 28
  | ESPIPE => 29 | EROFS => 30 | EPIPE => 32 | ERANGE => 34 | ENAMETOOLONG => 36 | ENOSYS => 38
  | ELOOP => 40 | EIDRM => 43 | ENOTSOCK => 88 | EDESTADDRREQ => 89 | EMSGSIZE => 90
  | EPROTOTYPE => 91 | ENOPROTOOPT => 92 | EPROTONOSUPPORT => 93 | ESOCKTNOSUPPORT => 94
  | EOPNOTSUPP => 95 | EAFNOSUPPORT => 97 | EADDRINUSE => 98 | EADDRNOTAVAIL => 99
  | EISCONN => 106 | ENOTCONN => 107 | ETIMEDOUT => 110 | ECONNREFUSED => 111
  | EINPROGRESS => 115

/-- The variant name, as `{:?}` prints it. -/
def name : LinuxError → String
  | EPERM => "EPERM" | ENOENT => "ENOENT" | ESRCH => "ESRCH" | EINTR => "EINTR" | EIO => "EIO"
  | ENXIO => "ENXIO" | E2BIG => "E2BIG" | EBADF => "EBADF" | ECHILD => "ECHILD"
  | EAGAIN => "EAGAIN" | ENOMEM => "ENOMEM" | EACCES => "EACCES" | EFAULT => "EFAULT"
  | ENOTBLK => "ENOTBLK" | EBUSY => "EBUSY" | EEXIST => "EEXIST" | ENODEV => "ENODEV"
  | ENOTDIR => "ENOTDIR" | EISDIR => "EISDIR" | EINVAL => "EINVAL" | EMFILE => "EMFILE"
  | ENOTTY => "ENOTTY" | ETXTBSY => "ETXTBSY" | EFBIG => "EFBIG" | ENOSPC => "ENOSPC"
  | ESPIPE => "ESPIPE" | EROFS => "EROFS" | EPIPE => "EPIPE" | ERANGE => "ERANGE"
  | ENAMETOOLONG => "ENAMETOOLONG" | ENOSYS => "ENOSYS" | ELOOP => "ELOOP" | EIDRM => "EIDRM"
  | ENOTSOCK => "ENOTSOCK" | EDESTADDRREQ => "EDESTADDRREQ" | EMSGSIZE => "EMSGSIZE"
  | EPROTOTYPE => "EPROTOTYPE" | ENOPROTOOPT => "ENOPROTOOPT"
  | EPROTONOSUPPORT => "EPROTONOSUPPORT" | ESOCKTNOSUPPORT => "ESOCKTNOSUPPORT"
  | EOPNOTSUPP => "EOPNOTSUPP" | EAFNOSUPPORT => "EAFNOSUPPORT" | EADDRINUSE => "EADDRINUSE"
  | EADDRNOTAVAIL => "EADDRNOTAVAIL" | EISCONN => "EISCONN" | ENOTCONN => "ENOTCONN"
  | ETIMEDOUT => "ETIMEDOUT" | ECONNREFUSED => "ECONNREFUSED" | EINPROGRESS => "EINPROGRESS"

end LinuxError

end PulseOS
