/-!
# Error numbers

The values of `errno` that the modelled calls set, as an enumeration; `ok` is the
cleared value `0`.
-/

namespace Catpilot

/-- The values of `errno`. -/
inductive Errno where
  | ok
  | eperm
  | enoent
  | esrch
  | eio
  | enxio
  | ebadf
  | eagain
  | enomem
  | eacces
  | ebusy
  | eexist
  | einval
  | emfile
  | enospc
  | erofs
  | ebadmsg
  | emsgsize
  | enosys
  | eproto
  | etimedout
  deriving DecidableEq, Repr

end Catpilot
