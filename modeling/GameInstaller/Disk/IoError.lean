/-! # Failures of the system

What the operating system and the libraries next to it may report: a numbered system error, or an
error of some kind with a text of its own.  The kind decides how the failure is classified, the
text what is shown. -/

namespace GameInstaller.Disk

/-- Kinds of input and output failures. -/
inductive IoKind where
  | notFound
  | permissionDenied
  | connectionRefused
  | connectionReset
  | hostUnreachable
  | networkUnreachable
  | connectionAborted
  | notConnected
  | addrInUse
  | addrNotAvailable
  | networkDown
  | brokenPipe
  | alreadyExists
  | wouldBlock
  | notADirectory
  | isADirectory
  | directoryNotEmpty
  | readOnlyFilesystem
  | filesystemLoop
  | staleNetworkFileHandle
  | invalidInput
  | invalidData
  | timedOut
  | writeZero
  | storageFull
  | notSeekable
  | quotaExceeded
  | fileTooLarge
  | resourceBusy
  | executableFileBusy
  | deadlock
  | crossesDevices
  | tooManyLinks
  | invalidFilename
  | argumentListTooLong
  | interrupted
  | unsupported
  | unexpectedEof
  | outOfMemory
  | inProgress
  | other
  | uncategorized
  deriving DecidableEq, Repr

namespace IoKind

/-- Each kind with its name and its description. -/
def table : List (IoKind × String × String) :=
  [(notFound, "NotFound", "entity not found"),
   (permissionDenied, "PermissionDenied", "permission denied"),
   (connectionRefused, "ConnectionRefused", "connection refused"),
   (connectionReset, "ConnectionReset", "connection reset"),
   (hostUnreachable, "HostUnreachable", "host unreachable"),
   (networkUnreachable, "NetworkUnreachable", "network unreachable"),
   (connectionAborted, "ConnectionAborted", "connection aborted"),
   (notConnected, "NotConnected", "not connected"),
   (addrInUse, "AddrInUse", "address in use"),
   (addrNotAvailable, "AddrNotAvailable", "address not available"),
   (networkDown, "NetworkDown", "network down"),
   (brokenPipe, "BrokenPipe", "broken pipe"),
   (alreadyExists, "AlreadyExists", "entity already exists"),
   (wouldBlock, "WouldBlock", "operation would block"),
   (notADirectory, "NotADirectory", "not a directory"),
   (isADirectory, "IsADirectory", "is a directory"),
   (directoryNotEmpty, "DirectoryNotEmpty", "directory not empty"),
   (readOnlyFilesystem, "ReadOnlyFilesystem", "read-only filesystem or storage medium"),
   (filesystemLoop, "FilesystemLoop", "filesystem loop or indirection limit (e.g. symlink loop)"),
   (staleNetworkFileHandle, "StaleNetworkFileHandle", "stale network file handle"),
   (invalidInput, "InvalidInput", "invalid input parameter"),
   (invalidData, "InvalidData", "invalid data"),
   (timedOut, "TimedOut", "timed out"),
   (writeZero, "WriteZero", "write zero"),
   (storageFull, "StorageFull", "no storage space"),
   (notSeekable, "NotSeekable", "seek on unseekable file"),
   (quotaExceeded, "QuotaExceeded", "quota exceeded"),
   (fileTooLarge, "FileTooLarge", "file too large"),
   (resourceBusy, "ResourceBusy", "resource busy"),
   (executableFileBusy, "ExecutableFileBusy", "executable file busy"),
   (deadlock, "Deadlock", "deadlock"),
   (crossesDevices, "CrossesDevices", "cross-device link or rename"),
   (tooManyLinks, "TooManyLinks", "too many links"),
   (invalidFilename, "InvalidFilename", "invalid filename"),
   (argumentListTooLong, "ArgumentListTooLong", "argument list too long"),
   (interrupted, "Interrupted", "operation interrupted"),
   (unsupported, "Unsupported", "unsupported"),
   (unexpectedEof, "UnexpectedEof", "unexpected end of file"),
   (outOfMemory, "OutOfMemory", "out of memory"),
   (inProgress, "InProgress", "in progress"),
   (other, "Other", "other error"),
   (uncategorized, "Uncategorized", "uncategorized error")]

/-- What is shown for an error that is nothing but its kind. -/
def description (k : IoKind) : String :=
  match table.find? fun (k', _, _) => k' == k with
  | some (_, _, d) => d
  | none => ""

/-- The kind of a name. -/
def ofName? (s : String) : Option IoKind :=
  (table.find? fun (_, n, _) => n == s).map (·.1)

end IoKind

/-- System errors that the disk and processes of this library give. -/
inductive Errno where
  | noEntry
  | execFormat
  | permission
  | busy
  | fileExists
  | crossDevice
  | notDirectory
  | isDirectory
  | invalid
  | textBusy
  | nameTooLong
  | notEmpty
  | loop
  deriving DecidableEq, Repr

namespace Errno

/-- The number of the error. -/
def code : Errno → Nat
  | noEntry => 2
  | execFormat => 8
  | permission => 13
  | busy => 16
  | fileExists => 17
  | crossDevice => 18
  | notDirectory => 20
  | isDirectory => 21
  | invalid => 22
  | textBusy => 26
  | nameTooLong => 36
  | notEmpty => 39
  | loop => 40

/-- The system's wording. -/
def wording : Errno → String
  | noEntry => "No such file or directory"
  | execFormat => "Exec format error"
  | permission => "Permission denied"
  | busy => "Device or resource busy"
  | fileExists => "File exists"
  | crossDevice => "Invalid cross-device link"
  | notDirectory => "Not a directory"
  | isDirectory => "Is a directory"
  | invalid => "Invalid argument"
  | textBusy => "Text file busy"
  | nameTooLong => "File name too long"
  | notEmpty => "Directory not empty"
  | loop => "Too many levels of symbolic links"

/-- The kind of the error. -/
def kind : Errno → IoKind
  | noEntry => .notFound
  | execFormat => .uncategorized
  | permission => .permissionDenied
  | busy => .resourceBusy
  | fileExists => .alreadyExists
  | crossDevice => .crossesDevices
  | notDirectory => .notADirectory
  | isDirectory => .isADirectory
  | invalid => .invalidInput
  | textBusy => .executableFileBusy
  | nameTooLong => .invalidFilename
  | notEmpty => .directoryNotEmpty
  | loop => .filesystemLoop

end Errno

/-- A failure of the system. -/
inductive IoError where
  | system (e : Errno)
  | custom (kind : IoKind) (text : String)
  deriving DecidableEq, Repr

namespace IoError

/-- The kind of a failure. -/
def kind : IoError → IoKind
  | system e => e.kind
  | custom k _ => k

/-- What is shown for a failure. -/
def text : IoError → String
  | system e => e.wording ++ s!" (os error {e.code})"
  | custom _ t => t

/-- A failure that is nothing but its kind. -/
def ofKind (k : IoKind) : IoError := .custom k k.description

end IoError

/-! ## Streams of bytes

What reading an open file yields: the pieces that the single reads give, and the failure that may
come in place of the end. -/

/-- A stream of bytes. -/
structure ByteStream where
  /-- What the reads give, in order. -/
  pieces : List ByteArray
  /-- The failure that ends the stream early. -/
  failure : Option IoError

namespace ByteStream

/-- The pieces joined. -/
def joined (s : ByteStream) : ByteArray := s.pieces.foldl (· ++ ·) ByteArray.empty

/-- Everything up to the end of the stream. -/
def readAll (s : ByteStream) : Except IoError ByteArray :=
  match s.failure with
  | some e => .error e
  | none => .ok s.joined

end ByteStream

end GameInstaller.Disk
