import Wiretap.Text.Quoted

/-!
# Errors

What can go wrong, by cause, and its wording. A disconnect is a peer that goes
away, which the relay takes for a regular end. `shown` is the form in which the
command line reports an error: its kind with the cause in quotes.
-/

namespace Wiretap

/-- Kinds of input and output failures. -/
inductive IoKind where
  | addrInUse
  | addrNotAvailable
  | alreadyExists
  | argumentListTooLong
  | brokenPipe
  | connectionAborted
  | connectionRefused
  | connectionReset
  | crossesDevices
  | deadlock
  | directoryNotEmpty
  | executableFileBusy
  | fileTooLarge
  | hostUnreachable
  | interrupted
  | invalidData
  | invalidFilename
  | invalidInput
  | isADirectory
  | networkDown
  | networkUnreachable
  | notADirectory
  | notConnected
  | notFound
  | notSeekable
  | other
  | outOfMemory
  | permissionDenied
  | quotaExceeded
  | readOnlyFilesystem
  | resourceBusy
  | staleNetworkFileHandle
  | storageFull
  | timedOut
  | tooManyLinks
  | unexpectedEof
  | unsupported
  | wouldBlock
  | writeZero
  | uncategorized
  deriving DecidableEq, Repr, Inhabited

def IoKind.isDisconnect : IoKind → Bool
  | connectionReset | connectionAborted | brokenPipe | unexpectedEof | notConnected => true
  | _ => false

def IoKind.name : IoKind → String
  | addrInUse => "AddrInUse"
  | addrNotAvailable => "AddrNotAvailable"
  | alreadyExists => "AlreadyExists"
  | argumentListTooLong => "ArgumentListTooLong"
  | brokenPipe => "BrokenPipe"
  | connectionAborted => "ConnectionAborted"
  | connectionRefused => "ConnectionRefused"
  | connectionReset => "ConnectionReset"
  | crossesDevices => "CrossesDevices"
  | deadlock => "Deadlock"
  | directoryNotEmpty => "DirectoryNotEmpty"
  | executableFileBusy => "ExecutableFileBusy"
  | fileTooLarge => "FileTooLarge"
  | hostUnreachable => "HostUnreachable"
  | interrupted => "Interrupted"
  | invalidData => "InvalidData"
  | invalidFilename => "InvalidFilename"
  | invalidInput => "InvalidInput"
  | isADirectory => "IsADirectory"
  | networkDown => "NetworkDown"
  | networkUnreachable => "NetworkUnreachable"
  | notADirectory => "NotADirectory"
  | notConnected => "NotConnected"
  | notFound => "NotFound"
  | notSeekable => "NotSeekable"
  | other => "Other"
  | outOfMemory => "OutOfMemory"
  | permissionDenied => "PermissionDenied"
  | quotaExceeded => "QuotaExceeded"
  | readOnlyFilesystem => "ReadOnlyFilesystem"
  | resourceBusy => "ResourceBusy"
  | staleNetworkFileHandle => "StaleNetworkFileHandle"
  | storageFull => "StorageFull"
  | timedOut => "TimedOut"
  | tooManyLinks => "TooManyLinks"
  | unexpectedEof => "UnexpectedEof"
  | unsupported => "Unsupported"
  | wouldBlock => "WouldBlock"
  | writeZero => "WriteZero"
  | uncategorized => "Uncategorized"

/-- What a SOCKS5 server answers instead of a tunnel. -/
inductive ReplyError where
  | generalFailure
  | connectionNotAllowed
  | networkUnreachable
  | hostUnreachable
  | connectionRefused
  | ttlExpired
  | commandNotSupported
  | addressTypeNotSupported
  | unknown (code : UInt8)
  deriving DecidableEq, Repr, Inhabited

namespace ReplyError

def ofCode (code : UInt8) : ReplyError :=
  if code = 1 then generalFailure
  else if code = 2 then connectionNotAllowed
  else if code = 3 then networkUnreachable
  else if code = 4 then hostUnreachable
  else if code = 5 then connectionRefused
  else if code = 6 then ttlExpired
  else if code = 7 then commandNotSupported
  else if code = 8 then addressTypeNotSupported
  else unknown code

def message : ReplyError → String
  | generalFailure => "General failure"
  | connectionNotAllowed => "Connection not allowed by ruleset"
  | networkUnreachable => "Network unreachable"
  | hostUnreachable => "Host unreachable"
  | connectionRefused => "Connection refused"
  | ttlExpired => "TTL expired"
  | commandNotSupported => "Command not supported"
  | addressTypeNotSupported => "Address type not supported"
  | unknown code => "Unknown reply code " ++ toString code.toNat

def name : ReplyError → String
  | generalFailure => "GeneralFailure"
  | connectionNotAllowed => "ConnectionNotAllowed"
  | networkUnreachable => "NetworkUnreachable"
  | hostUnreachable => "HostUnreachable"
  | connectionRefused => "ConnectionRefused"
  | ttlExpired => "TtlExpired"
  | commandNotSupported => "CommandNotSupported"
  | addressTypeNotSupported => "AddressTypeNotSupported"
  | unknown code => "Unknown(" ++ toString code.toNat ++ ")"

end ReplyError

inductive Error where
  | io (kind : IoKind) (text : String)
  /-- A failure of the operating system, with its number. -/
  | os (kind : IoKind) (code : Nat) (text : String)
  | certificate (text : String)
  | tls (text : String)
  | proxy (text : String)
  | invalidRequest (text : String)
  | connection (text : String)
  | interceptor (text : String)
  | reply (reply : ReplyError)
  | other (text : String)
  deriving DecidableEq, Repr, Inhabited

namespace Error

/-- What is said about the cause, without its kind. -/
def text : Error → String
  | io _ text => text
  | os _ code text => text ++ " (os error " ++ toString code ++ ")"
  | certificate text => text
  | tls text => text
  | proxy text => text
  | invalidRequest text => text
  | connection text => text
  | interceptor text => text
  | reply r => r.message
  | other text => text

/-- What stands before the cause. -/
def heading : Error → String
  | io .. | os .. => "IO error: "
  | certificate _ => "Certificate error: "
  | tls _ => "TLS error: "
  | proxy _ => "Proxy error: "
  | invalidRequest _ => "Invalid request: "
  | connection _ => "Connection error: "
  | interceptor _ => "Interceptor error: "
  | reply _ | other _ => ""

def message (e : Error) : String := e.heading ++ e.text

/-- A peer that went away rather than a failure. -/
def isDisconnect : Error → Bool
  | io kind _ | os kind _ _ => kind.isDisconnect
  | _ => false

def kind : Error → String
  | io .. | os .. => "Io"
  | certificate _ => "Certificate"
  | tls _ => "Tls"
  | proxy _ => "Proxy"
  | invalidRequest _ => "InvalidRequest"
  | connection _ => "Connection"
  | interceptor _ => "Interceptor"
  | reply _ => "Reply"
  | other _ => "Other"

/-- The cause as it stands between the brackets of `shown`. -/
def cause : Error → String
  | io kind text =>
    "Custom \x7b kind: " ++ kind.name ++ ", error: " ++ Text.quote text ++ " \x7d"
  | os kind code text =>
    "Os \x7b code: " ++ toString code ++ ", kind: " ++ kind.name ++ ", message: " ++
      Text.quote text ++ " \x7d"
  | reply r => r.name
  | e => Text.quote e.text

def shown (e : Error) : String := e.kind ++ "(" ++ e.cause ++ ")"

end Error

end Wiretap
