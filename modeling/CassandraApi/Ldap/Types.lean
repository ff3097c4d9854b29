/-
# `Ldap.Types` — the enumerations and sizes of ldap.h

Only the members that modelled functions use.  The names are those of the
header without their prefix: `LDAP_RET_DATA_AVAILABLE` is
`RetCode.dataAvailable`.
-/
import CassandraApi.C.Memory

namespace CassandraApi.Ldap

/-- `LDAP_RET_CODE`: what the stack's functions return. -/
inductive RetCode where
  | errUnknown
  | errParameter
  | errConnect
  | errMaxSession
  | errLdapversion
  | errAuthenMethod
  | errAuthen
  | errIdleTimeout
  | errUnavailable
  | errMemory
  | errSend
  | errReceive
  | errEncode
  | errDecode
  | errKeepalive
  | errUnexpectedReceive
  | errClosed
  | ok
  | dataAvailable
  | waitMoreData
  | keepalive
  | maxConnection
  | ready
  | sent
  | sentFragment
  | recvUnbind
  deriving DecidableEq, Repr

abbrev Outcome := C.Reply RetCode

/-! ## Sizes -/

def ldapReadBuffer : Nat := 131072
def ldapWriteBuffer : Nat := 131072
def berBuffer : Nat := 131072

end CassandraApi.Ldap
