import Samvada.Lib.Octets

/- The error mapping of dbus_session.cyr: the name of an ERROR reply to the errno
   libsystemd gives it. A name is the bytes at its pointer and a length. -/
namespace Samvada
open Octets

def dbsHasPrefix (p : Bytes) (n : Int) (s : String) : Bool :=
  ((lit s).length : Int) ≤ n && loadN p 0 (lit s).length == lit s

def dbsNameIs (p : Bytes) (n : Int) (s : String) : Bool :=
  n == (lit s).length && dbsHasPrefix p n s

/-- The first row of a table whose name is the `n` bytes at `p`. -/
def dbsRow (table : List (String × Int)) (p : Bytes) (n : Int) : Option Int :=
  (table.find? fun row => dbsNameIs p n row.1).map (·.2)

/-- `System.Error.<NAME>`: every name of `_dbs_errno_named`, in its order. -/
def errnoNames : List (String × Int) :=
  [("EPERM", 1), ("ENOENT", 2), ("ESRCH", 3), ("EINTR", 4), ("EIO", 5), ("ENXIO", 6), ("E2BIG", 7),
   ("ENOEXEC", 8), ("EBADF", 9), ("ECHILD", 10), ("EAGAIN", 11), ("ENOMEM", 12), ("EACCES", 13),
   ("EFAULT", 14), ("ENOTBLK", 15), ("EBUSY", 16), ("EEXIST", 17), ("EXDEV", 18), ("ENODEV", 19),
   ("ENOTDIR", 20), ("EISDIR", 21), ("EINVAL", 22), ("ENFILE", 23), ("EMFILE", 24), ("ENOTTY", 25),
   ("ETXTBSY", 26), ("EFBIG", 27), ("ENOSPC", 28), ("ESPIPE", 29), ("EROFS", 30), ("EMLINK", 31),
   ("EPIPE", 32), ("EDOM", 33), ("ERANGE", 34), ("EDEADLK", 35), ("ENAMETOOLONG", 36),
   ("ENOLCK", 37), ("ENOSYS", 38), ("ENOTEMPTY", 39), ("ELOOP", 40), ("ENOMSG", 42), ("EIDRM", 43),
   ("ECHRNG", 44),
   ("EL2NSYNC", 45), ("EL3HLT", 46), ("EL3RST", 47), ("ELNRNG", 48), ("EUNATCH", 49),
   ("ENOCSI", 50), ("EL2HLT", 51), ("EBADE", 52), ("EBADR", 53), ("EXFULL", 54), ("ENOANO", 55),
   ("EBADRQC", 56), ("EBADSLT", 57), ("EBFONT", 59), ("ENOSTR", 60), ("ENODATA", 61),
   ("ETIME", 62), ("ENOSR", 63), ("ENONET", 64), ("ENOPKG", 65), ("EREMOTE", 66), ("ENOLINK", 67),
   ("EADV", 68), ("ESRMNT", 69),
   ("ECOMM", 70), ("EPROTO", 71), ("EMULTIHOP", 72), ("EDOTDOT", 73), ("EBADMSG", 74),
   ("EOVERFLOW", 75),
   ("ENOTUNIQ", 76), ("EBADFD", 77), ("EREMCHG", 78), ("ELIBACC", 79), ("ELIBBAD", 80),
   ("ELIBSCN", 81),
   ("ELIBMAX", 82), ("ELIBEXEC", 83), ("EILSEQ", 84), ("ERESTART", 85), ("ESTRPIPE", 86),
   ("EUSERS", 87),
   ("ENOTSOCK", 88), ("EDESTADDRREQ", 89), ("EMSGSIZE", 90), ("EPROTOTYPE", 91),
   ("ENOPROTOOPT", 92), ("EPROTONOSUPPORT", 93), ("ESOCKTNOSUPPORT", 94), ("EOPNOTSUPP", 95),
   ("EPFNOSUPPORT", 96),
   ("EAFNOSUPPORT", 97), ("EADDRINUSE", 98), ("EADDRNOTAVAIL", 99), ("ENETDOWN", 100),
   ("ENETUNREACH", 101),
   ("ENETRESET", 102), ("ECONNABORTED", 103), ("ECONNRESET", 104), ("ENOBUFS", 105),
   ("EISCONN", 106),
   ("ENOTCONN", 107), ("ESHUTDOWN", 108), ("ETOOMANYREFS", 109), ("ETIMEDOUT", 110),
   ("ECONNREFUSED", 111),
   ("EHOSTDOWN", 112), ("EHOSTUNREACH", 113), ("EALREADY", 114), ("EINPROGRESS", 115),
   ("ESTALE", 116), ("EUCLEAN", 117), ("ENOTNAM", 118), ("ENAVAIL", 119), ("EISNAM", 120),
   ("EREMOTEIO", 121), ("EDQUOT", 122), ("ENOMEDIUM", 123), ("EMEDIUMTYPE", 124),
   ("ECANCELED", 125), ("ENOKEY", 126), ("EKEYEXPIRED", 127), ("EKEYREVOKED", 128),
   ("EKEYREJECTED", 129), ("EOWNERDEAD", 130),
   ("ENOTRECOVERABLE", 131), ("ERFKILL", 132), ("EHWPOISON", 133), ("EWOULDBLOCK", 11),
   ("EDEADLOCK", 35), ("ENOTSUP", 95)]

/-- The names of `dbus_session_map_error`, in its order. -/
def dbusErrorNames : List (String × Int) :=
  [("org.freedesktop.DBus.Error.Failed", -13), ("org.freedesktop.DBus.Error.NoMemory", -12),
   ("org.freedesktop.DBus.Error.ServiceUnknown", -113),
   ("org.freedesktop.DBus.Error.NameHasNoOwner", -6), ("org.freedesktop.DBus.Error.NoReply", -110),
   ("org.freedesktop.DBus.Error.BadAddress", -99),
   ("org.freedesktop.DBus.Error.NotSupported", -95),
   ("org.freedesktop.DBus.Error.LimitsExceeded", -105),
   ("org.freedesktop.DBus.Error.AccessDenied", -13), ("org.freedesktop.DBus.Error.AuthFailed", -13),
   ("org.freedesktop.DBus.Error.NoServer", -112), ("org.freedesktop.DBus.Error.Timeout", -110),
   ("org.freedesktop.DBus.Error.NoNetwork", -64), ("org.freedesktop.DBus.Error.AddressInUse", -98),
   ("org.freedesktop.DBus.Error.Disconnected", -104),
   ("org.freedesktop.DBus.Error.InvalidArgs", -22), ("org.freedesktop.DBus.Error.FileNotFound", -2),
   ("org.freedesktop.DBus.Error.FileExists", -17),
   ("org.freedesktop.DBus.Error.UnknownMethod", -53),
   ("org.freedesktop.DBus.Error.UnknownObject", -53),
   ("org.freedesktop.DBus.Error.UnknownInterface", -53),
   ("org.freedesktop.DBus.Error.UnknownProperty", -53),
   ("org.freedesktop.DBus.Error.PropertyReadOnly", -30),
   ("org.freedesktop.DBus.Error.UnixProcessIdUnknown", -3),
   ("org.freedesktop.DBus.Error.InvalidSignature", -22),
   ("org.freedesktop.DBus.Error.InconsistentMessage", -74),
   ("org.freedesktop.DBus.Error.TimedOut", -110),
   ("org.freedesktop.DBus.Error.MatchRuleNotFound", -2),
   ("org.freedesktop.DBus.Error.MatchRuleInvalid", -22),
   ("org.freedesktop.DBus.Error.InteractiveAuthorizationRequired", -13),
   ("org.freedesktop.DBus.Error.InvalidFileContent", -22),
   ("org.freedesktop.DBus.Error.SELinuxSecurityContextUnknown", -3),
   ("org.freedesktop.DBus.Error.ObjectPathInUse", -16),
   ("org.freedesktop.login1.BlockedByInhibitorLock", -13),
   ("org.freedesktop.login1.DeviceIsTaken", -22), ("org.freedesktop.login1.DeviceNotTaken", -22),
   ("org.freedesktop.login1.NoSessionForPID", -6), ("org.freedesktop.login1.NoSuchSeat", -6),
   ("org.freedesktop.login1.NoSuchSession", -6), ("org.freedesktop.login1.NoSuchUser", -6),
   ("org.freedesktop.login1.NoUserForPID", -6), ("org.freedesktop.login1.NotInControl", -22),
   ("org.freedesktop.login1.NotYourDevice", -1),
   ("org.freedesktop.login1.OperationInProgress", -115),
   ("org.freedesktop.login1.SessionBusy", -16),
   ("org.freedesktop.login1.SessionNotOnSeat", -22),
   ("org.freedesktop.login1.SleepVerbNotSupported", -95)]

def dbsErrnoNamed (p : Bytes) (n : Int) : Option Int := dbsRow errnoNames p n

/-- The errno of an error name; -EIO for any name not mapped. -/
def dbusSessionMapError (p : Bytes) (n : Int) : Int :=
  if dbsHasPrefix p n "System.Error." then
    match dbsErrnoNamed (p.drop 13) (n - 13) with
    | some e => -e
    | none => -5
  else (dbsRow dbusErrorNames p n).getD (-5)

theorem dbsRow_mem {table : List (String × Int)} {p : Bytes} {n e : Int}
    (h : dbsRow table p n = some e) : ∃ row ∈ table, row.2 = e := by
  obtain ⟨row, hrow, he⟩ := Option.map_eq_some_iff.mp h
  exact ⟨row, List.mem_of_find?_eq_some hrow, he⟩

/-- Every row of the two tables is an errno. -/
theorem errno_rows_pos : ∀ row ∈ errnoNames, 0 < row.2 := by decide +kernel

theorem error_rows_neg : ∀ row ∈ dbusErrorNames, row.2 < 0 := by decide

/-- An error reply is never mapped to success. -/
theorem dbusSessionMapError_neg (p : Bytes) (n : Int) : dbusSessionMapError p n < 0 := by
  unfold dbusSessionMapError
  split
  · cases h : dbsErrnoNamed (p.drop 13) (n - 13) with
    | none => decide
    | some e =>
      obtain ⟨row, hrow, rfl⟩ := dbsRow_mem h
      have := errno_rows_pos row hrow
      show -row.2 < 0
      omega
  · cases h : dbsRow dbusErrorNames p n with
    | none => decide
    | some e =>
      obtain ⟨row, hrow, rfl⟩ := dbsRow_mem h
      exact error_rows_neg row hrow

/-- A negative length is no name's. -/
theorem dbsNameIs_neg {n : Int} (h : n < 0) (q : Bytes) (s : String) : dbsNameIs q n s = false := by
  have : n ≠ (lit s).length := by omega
  simp [dbsNameIs, this]

theorem dbsRow_short {table : List (String × Int)} {n : Int} (h : n < 0) (q : Bytes) :
    dbsRow table q n = none := by
  have none_is : table.find? (fun row => dbsNameIs q n row.1) = none :=
    List.find?_eq_none.mpr fun row _ => by simp [dbsNameIs_neg h]
  rw [dbsRow, none_is]
  rfl

theorem dbusSessionMapError_short {n : Int} (h : n < 0) (q : Bytes) :
    dbusSessionMapError q n = -5 := by
  have short : dbsHasPrefix q n "System.Error." = false := by
    have : ¬ ((lit "System.Error.").length : Int) ≤ n := by omega
    simp [dbsHasPrefix, this]
  rw [dbusSessionMapError, short, dbsRow_short h]
  rfl

end Samvada
