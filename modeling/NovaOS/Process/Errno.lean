/-!
# Error numbers

`linux_error` packs an error number into the 64-bit result of a system call.  The model keeps result
and error apart: a call returns `Except Errno ℕ`, or `Except Errno` of what else it returns.
-/

namespace NovaOS.Process

/-- The error numbers the modelled calls return. -/
inductive Errno where
  | perm
  | noent
  | srch
  | intr
  | io
  | badf
  | child
  | again
  | nomem
  | acces
  | fault
  | busy
  | exist
  | notdir
  | isdir
  | inval
  | nfile
  | notty
  | nosys
  | notempty
deriving Repr, DecidableEq

end NovaOS.Process
