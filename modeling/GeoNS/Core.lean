import GeoNS.CString

/-!
# Shared constants and types

The constants are those of `constants.h`, `core.h` and `globals.h` (on Linux)
that the modelled functions use.
-/

namespace GeoNS

open CString (Bytes)

def maxSqlQuerySize : Nat := 1024
def maxSysPathLength : Nat := 1024
def maxIpv6Length : Nat := 39
def maxGeonspBufferSize : Nat := 4096
def maxActiveNodes : Nat := 16
def maxConfigFileContent : Nat := 4096

def maxHttpUriLength : Nat := 2048
def maxHttpMethodLength : Nat := 16
def maxHttpVersionLength : Nat := 8
def maxHttpRequestSize : Nat := 1024 * 1024 * 1024 * 2 - 1
def baseHttpRequestSize : Nat := 1024 * 4 - 1
def baseHttpRequestHeaderSize : Nat := 1024 - 1
def maxHttpRoutes : Nat := 128

def geonsVersion : Bytes := CString.bytes "0.1.0"
def osName : Bytes := CString.bytes "GNU/Linux"

/-- A node as the server passes it about, less the key of its row, which
nothing reads. -/
structure Node where
  serverAddr : Bytes
  nodeGateway : UInt16
  status : Bytes
  deriving DecidableEq, Repr

end GeoNS
