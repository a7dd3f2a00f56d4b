import OsLabs.Proxy.UpstreamRequest

/-!
# What the proxy writes to its log

The line that `logMessage` makes of a message, every message of `proxy.c` with
its level, and a reader of such lines.  URLs and host names come from clients;
they have lost all white space in `sscanf`, so no client can put a line of its
own into the log.
-/

set_option autoImplicit false

namespace OsLabs.Proxy

open OsLabs.CString OsLabs.Scanf

inductive LogLevel where
  | debug
  | info
  | err
  deriving DecidableEq

def levelToStr : LogLevel → List Byte
  | .info => text "INFO"
  | .err => text "ERROR"
  | .debug => text "DEBUG"

/-- What `localtime` gives: `struct tm` with its fields in their ranges. -/
structure Tm where
  year : Nat
  mon : Nat
  mday : Nat
  hour : Nat
  min : Nat
  sec : Nat
  yearFits : year + 1900 < 2 ^ 31
  monFits : mon < 12
  mdayFits : mday < 32
  hourFits : hour < 24
  minFits : min < 60
  secFits : sec < 61

/-- `%02d` of a number that is not negative. -/
def twoDigits (number : Nat) : List Byte :=
  List.replicate (2 - (decimal number).length) 48 ++ decimal number

/-- `%d` -/
def signed : Int → List Byte
  | .ofNat 0 => text "0"
  | .ofNat number => decimal number
  | .negSucc number => text "-" ++ decimal (number + 1)

/-- The time as it stands between the brackets. -/
def Tm.stamp (t : Tm) : List Byte :=
  twoDigits (t.year + 1900) ++ text "-" ++ twoDigits (t.mon + 1) ++ text "-" ++ twoDigits t.mday ++
    text " " ++ twoDigits t.hour ++ text ":" ++ twoDigits t.min ++ text ":" ++ twoDigits t.sec

def headerSize : Nat := 64

/-- `snprintf(header, sizeof(header), "[%02d-%02d-%02d %02d:%02d:%02d] %s: ", ...)` -/
def logHeader (t : Tm) (level : LogLevel) : List Byte :=
  (text "[" ++ t.stamp ++ text "] " ++ levelToStr level ++ text ": ").take (headerSize - 1)

/-! ## The messages -/

/-- The calls of `logMessage` in `startProxy`, `handleRequest` and
`downloadData`, with their arguments. -/
inductive Message where
  | started (port : Int)
  | notAccepted
  | noArgs
  | noThread
  | tooLong
  | notAllowed
  | newConnection (url : List Byte)
  | cacheHit (url : List Byte)
  | downloading
  | notParsed
  | notResolved (host : List Byte)
  | noSocket (host : List Byte)
  | notConnected (host : List Byte) (port : Int)
  | not200
  | headerTooLarge

namespace Message

def level : Message → LogLevel
  | .started _ | .newConnection _ | .cacheHit _ | .downloading => .info
  | _ => .err

def bytes : Message → List Byte
  | .started port => text "Proxy server started on port " ++ signed port
  | .notAccepted => text "Error accepting connection"
  | .noArgs => text "Memory allocation error for client args"
  | .noThread => text "Error creating client thread"
  | .tooLong => text "Method, URL or protocol is too long"
  | .notAllowed => text "405 Method Not Allowed"
  | .newConnection url => text "New connection: " ++ url
  | .cacheHit url => text "Cache hit for URL: " ++ url
  | .downloading => text "Downloading"
  | .notParsed => text "Error parsing URL"
  | .notResolved host => text "Cannot resolve host: " ++ host
  | .noSocket host => text "Error creating socket for host: " ++ host
  | .notConnected host port => text "Error connecting to host: " ++ host ++ text ":" ++ signed port
  | .not200 => text "Received not 200 status"
  | .headerTooLarge => text "Header too large"

end Message

/-- The URL was scanned from some request. -/
def Requested (url : List Byte) : Prop :=
  ∃ received stale, handleRequest (some received) stale = .lookup url

/-- The host was parsed from the URL of an entry. -/
def ParsedHost (host : List Byte) (port : Int) : Prop :=
  ∃ url now next outputs, Requested url ∧
    (parseURL (newEntry url now next).url.bytes outputs).1 = 0 ∧
    cstr (parseURL (newEntry url now next).url.bytes outputs).2.host = host ∧
    (parseURL (newEntry url now next).url.bytes outputs).2.port = port

/-- The arguments of a message are what the code passes. -/
def Message.FromCode : Message → Prop
  | .newConnection url | .cacheHit url => Requested url
  | .notResolved host | .noSocket host => ∃ port, ParsedHost host port
  | .notConnected host port => ParsedHost host port
  | _ => True

/-- One call of `logMessage`. -/
structure LogCall where
  message : Message
  fromCode : message.FromCode

/-! ## No message has a line end -/

def OneLine (bytes : List Byte) : Prop := 10 ∉ bytes

instance (bytes : List Byte) : Decidable (OneLine bytes) :=
  inferInstanceAs (Decidable (10 ∉ bytes))

theorem OneLine.append {front back : List Byte} (first : OneLine front) (second : OneLine back) :
    OneLine (front ++ back) := by
  rw [OneLine, List.mem_append, not_or]
  exact ⟨first, second⟩

theorem decimal_oneLine (number : Nat) : OneLine (decimal number) := by
  intro member
  exact absurd (decimal_isDigit number 10 member) (by decide)

theorem signed_oneLine (value : Int) : OneLine (signed value) := by
  cases value with
  | ofNat number =>
      cases number with
      | zero => decide
      | succ less => exact decimal_oneLine (less + 1)
  | negSucc number => exact OneLine.append (by decide) (decimal_oneLine _)

theorem oneLine_of_visible {bytes : List Byte} (visible : ∀ byte ∈ bytes, isSpace byte = false) :
    OneLine bytes := fun member => (visible_bytes (visible 10 member)).1 rfl

theorem Requested.oneLine {url : List Byte} (requested : Requested url) : OneLine url := by
  obtain ⟨received, stale, looked⟩ := requested
  exact oneLine_of_visible (lookup_entry_url received stale url 0 none looked).2.2

theorem ParsedHost.oneLine {host : List Byte} {port : Int} (parsed : ParsedHost host port) :
    OneLine host := by
  obtain ⟨url, now, next, outputs, ⟨received, stale, looked⟩, succeeded, isHost, _⟩ := parsed
  obtain ⟨isUrl, clean, unspaced⟩ := lookup_entry_url received stale url now next looked
  rw [isUrl] at succeeded isHost
  obtain ⟨fields, isFields, wrote⟩ :=
    (parseURL_fields url clean outputs).2 ((parseURL_fields url clean outputs).1.mp succeeded)
  obtain ⟨origin, noNul⟩ := fields_of_url clean isFields
  rw [wrote.host.cstr_eq noNul] at isHost
  subst isHost
  exact oneLine_of_visible fun byte member =>
    unspaced byte (List.mem_of_mem_drop (origin.host byte member))

/-- Whatever clients request, a message is one line. -/
theorem LogCall.oneLine (call : LogCall) : OneLine call.message.bytes := by
  obtain ⟨message, fromCode⟩ := call
  cases message with
  | started port => exact OneLine.append (by decide) (signed_oneLine port)
  | newConnection url => exact OneLine.append (by decide) fromCode.oneLine
  | cacheHit url => exact OneLine.append (by decide) fromCode.oneLine
  | notResolved host =>
      obtain ⟨port, parsed⟩ := fromCode
      exact OneLine.append (by decide) parsed.oneLine
  | noSocket host =>
      obtain ⟨port, parsed⟩ := fromCode
      exact OneLine.append (by decide) parsed.oneLine
  | notConnected host port =>
      exact ((OneLine.append (by decide) fromCode.oneLine).append (by decide)).append
        (signed_oneLine port)
  | _ =>
      show OneLine (text _)
      decide

end OsLabs.Proxy
