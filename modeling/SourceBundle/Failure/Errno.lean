/-!
Error numbers of the operating system and the texts that belong to them. A number is shown as its text
followed by the number itself; a number without a text of its own is called unknown.
-/

namespace SourceBundle

/-- An error number of the operating system. -/
structure Errno where
  code : Int
  deriving DecidableEq, Repr

namespace Errno

/-- A name leads to nothing. -/
def noEntry : Errno := ⟨2⟩
/-- The name is taken. -/
def alreadyExists : Errno := ⟨17⟩
/-- Something that is not a directory stands where one is needed. -/
def notDirectory : Errno := ⟨20⟩
/-- A directory stands where a file is needed. -/
def isDirectory : Errno := ⟨21⟩
/-- The device takes no more bytes. -/
def noSpace : Errno := ⟨28⟩
/-- A name or a path is longer than the system allows. -/
def nameTooLong : Errno := ⟨36⟩
/-- Too many links were followed. -/
def tooManyLinks : Errno := ⟨40⟩

/-- The texts of the numbers from zero on; the empty ones are of numbers that are not in use. -/
def texts : Array String := #[
  "Success", "Operation not permitted", "No such file or directory", "No such process",
    "Interrupted system call", "Input/output error", "No such device or address",
    "Argument list too long", "Exec format error", "Bad file descriptor", "No child processes",
    "Resource temporarily unavailable", "Cannot allocate memory", "Permission denied",
    "Bad address", "Block device required", "Device or resource busy", "File exists",
    "Invalid cross-device link", "No such device", "Not a directory", "Is a directory",
    "Invalid argument", "Too many open files in system", "Too many open files",
    "Inappropriate ioctl for device", "Text file busy", "File too large",
    "No space left on device", "Illegal seek", "Read-only file system", "Too many links",
    "Broken pipe", "Numerical argument out of domain", "Numerical result out of range",
    "Resource deadlock avoided", "File name too long", "No locks available",
    "Function not implemented", "Directory not empty", "Too many levels of symbolic links", "",
    "No message of desired type", "Identifier removed", "Channel number out of range",
    "Level 2 not synchronized", "Level 3 halted", "Level 3 reset", "Link number out of range",
    "Protocol driver not attached", "No CSI structure available", "Level 2 halted",
    "Invalid exchange", "Invalid request descriptor", "Exchange full", "No anode",
    "Invalid request code", "Invalid slot", "", "Bad font file format", "Device not a stream",
    "No data available", "Timer expired", "Out of streams resources",
    "Machine is not on the network", "Package not installed", "Object is remote",
    "Link has been severed", "Advertise error", "Srmount error", "Communication error on send",
    "Protocol error", "Multihop attempted", "RFS specific error", "Bad message",
    "Value too large for defined data type", "Name not unique on network",
    "File descriptor in bad state", "Remote address changed",
    "Can not access a needed shared library", "Accessing a corrupted shared library",
    ".lib section in a.out corrupted", "Attempting to link in too many shared libraries",
    "Cannot exec a shared library directly", "Invalid or incomplete multibyte or wide character",
    "Interrupted system call should be restarted", "Streams pipe error", "Too many users",
    "Socket operation on non-socket", "Destination address required", "Message too long",
    "Protocol wrong type for socket", "Protocol not available", "Protocol not supported",
    "Socket type not supported", "Operation not supported", "Protocol family not supported",
    "Address family not supported by protocol", "Address already in use",
    "Cannot assign requested address", "Network is down", "Network is unreachable",
    "Network dropped connection on reset", "Software caused connection abort",
    "Connection reset by peer", "No buffer space available",
    "Transport endpoint is already connected", "Transport endpoint is not connected",
    "Cannot send after transport endpoint shutdown", "Too many references: cannot splice",
    "Connection timed out", "Connection refused", "Host is down", "No route to host",
    "Operation already in progress", "Operation now in progress", "Stale file handle",
    "Structure needs cleaning", "Not a XENIX named type file", "No XENIX semaphores available",
    "Is a named type file", "Remote I/O error", "Disk quota exceeded", "No medium found",
    "Wrong medium type", "Operation canceled", "Required key not available", "Key has expired",
    "Key has been revoked", "Key was rejected by service", "Owner died", "State not recoverable",
    "Operation not possible due to RF-kill", "Memory page has hardware error"
]

/-- The text that belongs to the number. -/
def text (e : Errno) : String :=
  let known := if 0 ≤ e.code then texts.getD e.code.toNat "" else ""
  if known.isEmpty then "Unknown error " ++ toString e.code else known

/-- The text with the number, as error messages show it. -/
def message (e : Errno) : String := e.text ++ " (os error " ++ toString e.code ++ ")"

end Errno

end SourceBundle
