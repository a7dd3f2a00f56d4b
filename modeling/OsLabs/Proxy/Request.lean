import OsLabs.Proxy.Entry

/-!
# The request line and the cache key

Lines 136 to 153 of `handleRequest`: one `recv`, `sscanf` with three bounded
conversions, the method check, and the lookup under the scanned URL.  The
buffer is not terminated after the received bytes, so whatever is in memory
behind them (`stale`) is scanned with them.
-/

set_option autoImplicit false

namespace OsLabs.Proxy

open OsLabs.CString

structure Scan where
  count : Int
  method : Option (List Byte)
  url : Option (List Byte)
  protocol : Option (List Byte)
  deriving DecidableEq

/-- `sscanf(buffer, "%15s %2047s %15s", method, url, protocol)`: the result and
the arrays it wrote. -/
def sscanfRequest (buffer : List Byte) : Scan :=
  match scanWord 15 (cstr buffer) with
  | none => ⟨-1, none, none, none⟩
  | some (method, afterMethod) =>
      match scanWord 2047 afterMethod with
      | none => ⟨1, some method, none, none⟩
      | some (url, afterUrl) =>
          match scanWord 15 afterUrl with
          | none => ⟨2, some method, some url, none⟩
          | some (protocol, _) => ⟨3, some method, some url, some protocol⟩

inductive RequestOutcome where
  | closed
  | rejected (message : String)
  | lookup (url : List Byte)
  deriving DecidableEq

/-- The checks on the scanned request, with the messages they log. -/
def checkRequest (scan : Scan) : RequestOutcome :=
  if scan.count ≠ 3 then .rejected "Method, URL or protocol is too long"
  else if scan.method ≠ some (text "GET") then .rejected "405 Method Not Allowed"
  else .lookup (scan.url.getD [])

/-- `handleRequest` up to its call of `getCacheEntry`; `none` is a `recv` that
returned 0 or -1. -/
def handleRequest (received : Option Chunk) (stale : List Byte) : RequestOutcome :=
  match received with
  | none => .closed
  | some chunk => checkRequest (sscanfRequest (chunk.bytes ++ stale))

/-! ## What the client asked for -/

/-- The second word of an input and what follows it. -/
def urlWord (input : List Byte) : List Byte × List Byte := splitWord (splitWord input).2

theorem scanWord_nil (width : Nat) (input : List Byte) (blank : (splitWord input).1 = []) :
    scanWord width input = none := by
  simp [scanWord, blank]

theorem scanWord_some (width : Nat) (input : List Byte) (word : (splitWord input).1 ≠ []) :
    scanWord width input =
      some ((splitWord input).1.take width, (splitWord input).1.drop width ++
        (splitWord input).2) := by
  simp [scanWord, word]

/-- What follows a URL for the third conversion, the part of the URL that did
not fit included. -/
def afterUrl (memory : List Byte) : List Byte :=
  (urlWord memory).1.drop 2047 ++ (urlWord memory).2

theorem method_is_get (word : List Byte) : word.take 15 = text "GET" ↔ word = text "GET" := by
  constructor
  · intro taken
    have lengths := congrArg List.length taken
    have three : (text "GET").length = 3 := rfl
    rw [List.length_take, three] at lengths
    rwa [List.take_of_length_le (by omega)] at taken
  · intro same
    subst same
    rfl

theorem checkRequest_lookup_iff (scan : Scan) (url : List Byte) :
    checkRequest scan = .lookup url ↔
      scan.count = 3 ∧ scan.method = some (text "GET") ∧ scan.url.getD [] = url := by
  unfold checkRequest
  by_cases three : scan.count = 3
  · by_cases isGet : scan.method = some (text "GET")
    · simp [three, isGet]
    · simp [three, isGet]
  · simp [three]

/-- A lookup is made iff the first word is GET and after it there are a second
word and something for the third conversion. -/
theorem lookup_iff (received : Chunk) (stale url : List Byte) :
    handleRequest (some received) stale = .lookup url ↔
      (splitWord (cstr (received.bytes ++ stale))).1 = text "GET" ∧
      (urlWord (cstr (received.bytes ++ stale))).1 ≠ [] ∧
      (splitWord (afterUrl (cstr (received.bytes ++ stale)))).1 ≠ [] ∧
      (urlWord (cstr (received.bytes ++ stale))).1.take 2047 = url := by
  rw [handleRequest, checkRequest_lookup_iff, sscanfRequest]
  generalize cstr (received.bytes ++ stale) = memory
  by_cases noMethod : (splitWord memory).1 = []
  · rw [scanWord_nil 15 memory noMethod, noMethod]
    simp [text]
  · rw [scanWord_some 15 memory noMethod]
    by_cases isGet : (splitWord memory).1 = text "GET"
    · have noSpill : (text "GET").drop 15 = [] := rfl
      have whole : (text "GET").take 15 = text "GET" := rfl
      simp only [isGet, noSpill, whole, List.nil_append, true_and]
      by_cases noUrl : (urlWord memory).1 = []
      · rw [scanWord_nil 2047 _ noUrl]
        simp [noUrl]
      · have scanned : scanWord 2047 (splitWord memory).2 =
            some ((urlWord memory).1.take 2047, afterUrl memory) := scanWord_some 2047 _ noUrl
        rw [scanned]
        dsimp only
        by_cases noProtocol : (splitWord (afterUrl memory)).1 = []
        · rw [scanWord_nil 15 _ noProtocol]
          simp [noProtocol]
        · rw [scanWord_some 15 _ noProtocol]
          simp [noUrl, noProtocol]
    · have notTaken : (splitWord memory).1.take 15 ≠ text "GET" :=
        fun taken => isGet ((method_is_get _).mp taken)
      simp only [isGet, false_and, iff_false]
      cases scanWord 2047 ((splitWord memory).1.drop 15 ++ (splitWord memory).2) with
      | none => simp
      | some scanned =>
          dsimp only
          cases scanWord 15 scanned.2 with
          | none => simp
          | some final => simp [notTaken]

/-! ## Words of a text and of its continuations -/

theorem splitWord_mem (input : List Byte) (byte : Byte) :
    (byte ∈ (splitWord input).1 → byte ∈ input) ∧ (byte ∈ (splitWord input).2 → byte ∈ input) := by
  have inStart : byte ∈ input.dropWhile isSpace → byte ∈ input :=
    (List.dropWhile_suffix _).mem
  exact ⟨fun member => inStart ((List.takeWhile_prefix _).mem member),
    fun member => inStart ((List.dropWhile_suffix _).mem member)⟩

/-- A scanned URL is a C string that fits the array of the entry. -/
theorem lookup_url_fits (received : Chunk) (stale url : List Byte)
    (looked : handleRequest (some received) stale = .lookup url) :
    url.length ≤ 2047 ∧ 0 ∉ url := by
  obtain ⟨_, _, _, isKey⟩ := (lookup_iff received stale url).mp looked
  constructor
  · rw [← isKey, List.length_take]
    omega
  · intro nul
    rw [← isKey] at nul
    have inWord := List.mem_of_mem_take nul
    have inRest := (splitWord_mem _ 0).1 inWord
    have inString := (splitWord_mem _ 0).2 inRest
    have kept := List.mem_takeWhile_imp inString
    simp at kept

end OsLabs.Proxy
