import OsLabs.Lib.CString

/-!
# Buffers and cache entries

What the proxy's fixed-size arrays hold, the entry of its cache, and the two
operations that work on one entry under its own mutex.  The fields that carry
the synchronisation (`mutex`, `cond`, `dowloadThread`) belong to the threads and
are modelled with them; `dataSize` is written once and never read.
-/

set_option autoImplicit false

namespace OsLabs.Proxy

open OsLabs.CString

def bufferSize : Nat := 16384

def urlMaxLen : Nat := 2048

def cacheMaxSize : Nat := 5

/-- The number of `size_t` values. -/
def sizeCount : Nat := 0x10000000000000000

/-- Subtraction of `size_t` values. -/
def sizeSub (minuend subtrahend : Nat) : Nat :=
  (minuend + sizeCount - subtrahend) % sizeCount

theorem sizeSub_of_le {minuend subtrahend : Nat} (ordered : subtrahend ≤ minuend)
    (small : minuend ≤ bufferSize) : sizeSub minuend subtrahend = minuend - subtrahend := by
  have inRange : minuend < sizeCount := Nat.lt_of_le_of_lt small (by decide)
  rw [sizeSub, Nat.sub_add_comm ordered, Nat.add_mod_right, Nat.mod_eq_of_lt (by omega)]

/-- What a positive result of `recv(socket, buffer, sizeof(buffer), 0)` puts at
the start of the buffer. -/
structure Chunk where
  bytes : List Byte
  nonempty : bytes ≠ []
  bounded : bytes.length ≤ bufferSize

/-- What an array `char url[URL_MAX_LEN]` holds after a bounded copy: a C
string that fits with its NUL. -/
structure Url where
  bytes : List Byte
  fits : bytes.length < urlMaxLen
  clean : 0 ∉ bytes
  deriving DecidableEq

/-- `snprintf(entry->url, sizeof(entry->url), "%s", url)`. -/
def snprintfUrl (url : List Byte) : Url where
  bytes := (cstr url).take (urlMaxLen - 1)
  fits := by
    rw [List.length_take]
    have positive : 0 < urlMaxLen := by decide
    omega
  clean := by
    intro nul
    have kept := List.mem_takeWhile_imp (List.mem_of_mem_take nul)
    simp at kept

theorem snprintfUrl_bytes (url : Url) : snprintfUrl url.bytes = url := by
  have whole : cstr url.bytes = url.bytes := cstr_of_no_nul url.bytes url.clean
  have short : url.bytes.length ≤ urlMaxLen - 1 := Nat.le_sub_one_of_lt url.fits
  cases url with
  | mk bytes fits clean => simp [snprintfUrl, whole, List.take_of_length_le short]

abbrev Addr := Nat

/-- `struct CacheEntry`.  The block at `data` is always exactly as long as
`downloadedSize` says. -/
structure CacheEntry where
  url : Url
  data : List Byte
  downloadedSize : Nat
  filled : data.length = downloadedSize
  isComplete : Bool
  lastAccessTime : Int
  next : Option Addr
  deriving DecidableEq

/-- The entry as `addNewEntry` initialises it. -/
def newEntry (url : List Byte) (now : Int) (next : Option Addr) : CacheEntry where
  url := snprintfUrl url
  data := []
  downloadedSize := 0
  filled := rfl
  isComplete := false
  lastAccessTime := now
  next := next

namespace CacheEntry

/-- A failed `realloc` leaves the entry as it was. -/
def cacheInsertData (entry : CacheEntry) (reallocOk : Bool) (data : List Byte) : CacheEntry :=
  if reallocOk then
    { entry with
      data := entry.data ++ data
      downloadedSize := entry.downloadedSize + data.length
      filled := by rw [List.length_append, entry.filled] }
  else entry

def cacheMarkComplete (entry : CacheEntry) : CacheEntry :=
  { entry with isComplete := true }

/-- `strcmp(entry->url, url) == 0`. -/
def hasUrl (entry : CacheEntry) (url : List Byte) : Bool := entry.url.bytes = cstr url

/-- The bytes `handleRequest` passes to `send`. -/
def content (entry : CacheEntry) : List Byte := entry.data.take entry.downloadedSize

@[simp] theorem content_eq_data (entry : CacheEntry) : entry.content = entry.data := by
  rw [content, ← entry.filled, List.take_length]

@[simp] theorem newEntry_content (url : List Byte) (now : Int) (next : Option Addr) :
    (newEntry url now next).content = [] := rfl

theorem cacheInsertData_content (entry : CacheEntry) (reallocOk : Bool) (data : List Byte) :
    (entry.cacheInsertData reallocOk data).content =
      entry.content ++ (if reallocOk then data else []) := by
  cases reallocOk <;> simp [cacheInsertData]

end CacheEntry

end OsLabs.Proxy
