import OsLabs.Proxy.Request
import OsLabs.Proxy.UrlParts

/-!
# The request to the server

Line 213 of `downloadData` formats the scanned host and path into a buffer and
sends it.  The URL comes from the client through `%2047s` and the entry of the
cache; what the scan conversions can produce of it keeps the request to one
request line and one header line.
-/

set_option autoImplicit false

namespace OsLabs.Proxy

open OsLabs.CString OsLabs.Scanf

/-- `"GET /%s HTTP/1.0\r\nHost: %s\r\n\r\n"` -/
def requestText (path host : List Byte) : List Byte :=
  text "GET /" ++ path ++ text " HTTP/1.0\r\n" ++ text "Host: " ++ host ++ text "\r\n\r\n"

/-- What `snprintf` leaves in `request[BUFFER_SIZE]`, and `send` sends. -/
def upstreamRequest (outputs : UrlOutputs) : List Byte :=
  (requestText (cstr outputs.path) (cstr outputs.host)).take (bufferSize - 1)

/-- The second of the parts of a request between spaces. -/
def requestTarget (request : List Byte) : Option (List Byte) := (request.splitOn 32)[1]?

/-- Every call on this URL leaves the same strings in the host and the path
array, whatever they held before. -/
def WritesHostAndPath (url : List Byte) : Prop :=
  ∃ host path, ∀ outputs, Holds (parseURL url outputs).2.host host ∧
    Holds (parseURL url outputs).2.path path

/-- One request line of three parts, the header line of the host and the empty
line, with nothing cut off. -/
structure SingleRequest (request path host : List Byte) : Prop where
  whole : request = requestText path host
  untruncated : (requestText path host).length < bufferSize
  lines : request.splitOn 10 =
    [text "GET /" ++ path ++ text " HTTP/1.0\r", text "Host: " ++ host ++ text "\r", text "\r", []]
  parts : (text "GET /" ++ path ++ text " HTTP/1.0").splitOn 32 =
    [text "GET", text "/" ++ path, text "HTTP/1.0"]
  plain : ∀ byte ∈ host ++ path, byte ≠ 0 ∧ byte ≠ 10 ∧ byte ≠ 13 ∧ isSpace byte = false

/-! ## Where the bytes of the fields come from -/

/-- Sizes of the fields, and that their bytes are bytes of the URL. -/
structure UrlFields.From (fields : UrlFields) (bytes : List Byte) : Prop where
  hostNarrow : fields.host ≠ [] ∧ fields.host.length ≤ 255
  host : ∀ byte ∈ fields.host, byte ∈ bytes
  path : ∀ path ∈ fields.path, path.length ≤ 1023 ∧ ∀ byte ∈ path, byte ∈ bytes ∨ byte = 47
  pathPlain : ∀ path ∈ fields.path, ∀ byte ∈ path, isSpace byte = false

theorem UrlParts.pathWord_from {parts : UrlParts} {path : List Byte}
    (isPath : parts.pathWord = some path) :
    path.length ≤ 1023 ∧ ∀ byte ∈ path, byte ∈ parts.bytes ∧ isSpace byte = false := by
  obtain ⟨behind, hasPath, taken⟩ := Option.bind_eq_some_iff.mp isPath
  obtain ⟨⟨word, left⟩, scanned, rfl⟩ := Option.map_eq_some_iff.mp taken
  obtain ⟨narrow, visible⟩ := scanWord_visible scanned
  refine ⟨narrow, ?_⟩
  intro byte member
  refine ⟨List.mem_append_right _ ?_, (visible byte member).2⟩
  rw [pathPart, hasPath]
  exact List.mem_cons_of_mem _ (visible byte member).1

theorem UrlParts.hostPath_from {parts : UrlParts} {path : List Byte}
    (isPath : parts.hostPath = some path) :
    (parts.authority ≠ [] ∧ parts.authority.length ≤ 255) ∧ parts.pathWord = some path := by
  unfold hostPath at isPath
  split at isPath
  · rename_i fits
    exact ⟨fits, isPath⟩
  · cases isPath

theorem UrlParts.hostPortPath_from {parts : UrlParts} {port : Int} {path : List Byte}
    (isPath : parts.hostPortPath = some (port, path)) :
    parts.hostPort = some (port, []) ∧ parts.pathWord = some path := by
  unfold hostPortPath at isPath
  split at isPath
  · rename_i isPort
    obtain ⟨word, isWord, same⟩ := Option.map_eq_some_iff.mp isPath
    cases same
    exact ⟨isPort, isWord⟩
  · cases isPath

theorem UrlParts.fields_from {parts : UrlParts} {fields : UrlFields}
    (isFields : parts.fields = some fields) : fields.From parts.bytes := by
  have fromHost : ∀ byte ∈ parts.host, byte ∈ parts.bytes :=
    fun byte member => List.mem_append_left _ (List.mem_append_left _ member)
  have fromAuthority : ∀ byte ∈ parts.authority, byte ∈ parts.bytes :=
    fun byte member => List.mem_append_left _ member
  have fromWord : ∀ path, parts.pathWord = some path →
      path.length ≤ 1023 ∧ ∀ byte ∈ path, byte ∈ parts.bytes ∨ byte = 47 := by
    intro path isPath
    obtain ⟨narrow, inside⟩ := pathWord_from isPath
    exact ⟨narrow, fun byte member => Or.inl (inside byte member).1⟩
  have plainWord : ∀ path, parts.pathWord = some path → ∀ byte ∈ path, isSpace byte = false :=
    fun path isPath byte member => ((pathWord_from isPath).2 byte member).2
  unfold UrlParts.fields at isFields
  split at isFields
  · rename_i port path isPath
    cases isFields
    obtain ⟨isPort, isWord⟩ := hostPortPath_from isPath
    exact ⟨(hostPort_authority isPort).1, fromHost, by rintro _ ⟨⟩; exact fromWord path isWord,
      by rintro _ ⟨⟩; exact plainWord path isWord⟩
  · split at isFields
    · rename_i path isPath
      cases isFields
      obtain ⟨fits, isWord⟩ := hostPath_from isPath
      exact ⟨fits, fromAuthority, by rintro _ ⟨⟩; exact fromWord path isWord,
        by rintro _ ⟨⟩; exact plainWord path isWord⟩
    · split at isFields
      · rename_i port left isPort
        cases isFields
        exact ⟨(hostPort_authority isPort).1, fromHost, by rintro _ ⟨⟩, by rintro _ ⟨⟩⟩
      · split at isFields
        · cases isFields
        · rename_i hasAuthority
          cases isFields
          have slash : text "/" = [47] := by decide
          refine ⟨⟨?_, ?_⟩, fun byte member => fromAuthority byte (List.mem_of_mem_take member),
            ?_, ?_⟩
          · rw [Ne, List.take_eq_nil_iff]
            simp [hasAuthority]
          · rw [List.length_take]
            omega
          · rintro _ ⟨⟩
            refine ⟨by decide, ?_⟩
            simp [slash]
          · rintro _ ⟨⟩ byte member
            rw [slash, List.mem_singleton] at member
            rw [member]
            rfl

/-- The fields of a URL, whose host is then a string. -/
theorem fields_of_url {url : List Byte} (clean : 0 ∉ url) {fields : UrlFields}
    (isFields : (urlParts (url.drop 7)).fields = some fields) :
    fields.From (url.drop 7) ∧ 0 ∉ fields.host := by
  have origin := UrlParts.fields_from isFields
  rw [urlParts_bytes] at origin
  exact ⟨origin, fun nul => clean (List.mem_of_mem_drop (origin.host 0 nul))⟩

/-! ## One request -/

theorem visible_bytes {byte : Byte} (visible : isSpace byte = false) :
    byte ≠ 10 ∧ byte ≠ 13 ∧ byte ≠ 32 := by
  refine ⟨?_, ?_, ?_⟩ <;>
  · intro same
    subst same
    exact absurd visible (by decide)

section Format

variable {path host : List Byte}

theorem requestText_length (pathNarrow : path.length ≤ 1023) (hostNarrow : host.length ≤ 255) :
    (requestText path host).length < bufferSize := by
  have literals : (text "GET /").length = 5 ∧ (text " HTTP/1.0\r\n").length = 11 ∧
      (text "Host: ").length = 6 ∧ (text "\r\n\r\n").length = 4 := by decide
  obtain ⟨method, version, header, blank⟩ := literals
  simp only [requestText, List.length_append, method, version, header, blank, bufferSize]
  omega

theorem requestText_lines (pathPlain : ∀ byte ∈ path, isSpace byte = false)
    (hostPlain : ∀ byte ∈ host, isSpace byte = false) :
    (requestText path host).splitOn 10 =
      [text "GET /" ++ path ++ text " HTTP/1.0\r", text "Host: " ++ host ++ text "\r",
        text "\r", []] := by
  have version : text " HTTP/1.0\r\n" = text " HTTP/1.0\r" ++ [10] := by decide
  have blank : text "\r\n\r\n" = text "\r" ++ 10 :: (text "\r" ++ 10 :: []) := by decide
  have first : 10 ∉ text "GET /" ++ path ++ text " HTTP/1.0\r" := by
    simp only [List.mem_append, not_or]
    exact ⟨⟨by decide, fun member => (visible_bytes (pathPlain 10 member)).1 rfl⟩, by decide⟩
  have second : 10 ∉ text "Host: " ++ host ++ text "\r" := by
    simp only [List.mem_append, not_or]
    exact ⟨⟨by decide, fun member => (visible_bytes (hostPlain 10 member)).1 rfl⟩, by decide⟩
  have whole : requestText path host =
      (text "GET /" ++ path ++ text " HTTP/1.0\r") ++ 10 ::
        ((text "Host: " ++ host ++ text "\r") ++ 10 :: (text "\r" ++ 10 :: [])) := by
    simp [requestText, version, blank]
  rw [whole, List.splitOn_append_cons_self_of_not_mem first,
    List.splitOn_append_cons_self_of_not_mem second,
    List.splitOn_append_cons_self_of_not_mem (by decide)]
  rfl

theorem requestLine_parts (pathPlain : ∀ byte ∈ path, isSpace byte = false) :
    (text "GET /" ++ path ++ text " HTTP/1.0").splitOn 32 =
      [text "GET", text "/" ++ path, text "HTTP/1.0"] := by
  have method : text "GET /" = text "GET" ++ 32 :: text "/" := by decide
  have version : text " HTTP/1.0" = 32 :: text "HTTP/1.0" := by decide
  have second : 32 ∉ text "/" ++ path := by
    simp only [List.mem_append, not_or]
    exact ⟨by decide, fun member => (visible_bytes (pathPlain 32 member)).2.2 rfl⟩
  have whole : text "GET /" ++ path ++ text " HTTP/1.0" =
      text "GET" ++ 32 :: ((text "/" ++ path) ++ 32 :: text "HTTP/1.0") := by
    simp [method, version]
  rw [whole, List.splitOn_append_cons_self_of_not_mem (by decide),
    List.splitOn_append_cons_self_of_not_mem second, List.splitOn_eq_singleton (by decide)]

theorem upstreamRequest_whole {outputs : UrlOutputs} (isPath : cstr outputs.path = path)
    (isHost : cstr outputs.host = host) (pathNarrow : path.length ≤ 1023)
    (hostNarrow : host.length ≤ 255) : upstreamRequest outputs = requestText path host := by
  rw [upstreamRequest, isPath, isHost]
  exact List.take_of_length_le (Nat.le_sub_one_of_lt (requestText_length pathNarrow hostNarrow))

end Format

/-- What the scan of the request and the copy into the entry leave of a URL. -/
theorem lookup_entry_url (received : Chunk) (stale url : List Byte) (now : Int)
    (next : Option Addr) (looked : handleRequest (some received) stale = .lookup url) :
    (newEntry url now next).url.bytes = url ∧ 0 ∉ url ∧ ∀ byte ∈ url, isSpace byte = false := by
  obtain ⟨short, clean⟩ := lookup_url_fits received stale url looked
  refine ⟨?_, clean, ?_⟩
  · simp only [newEntry, snprintfUrl, cstr_of_no_nul url clean]
    exact List.take_of_length_le short
  · obtain ⟨_, _, _, isWord⟩ := (lookup_iff received stale url).mp looked
    intro byte member
    rw [← isWord] at member
    have visible := List.mem_takeWhile_imp (List.mem_of_mem_take member)
    simpa using visible

/-- A call that succeeds and writes the path has scanned one. -/
theorem fields_of_written {url : List Byte} (clean : 0 ∉ url) (accepted : ¬ Refused url)
    (written : WritesHostAndPath url) :
    ∃ fields path, (urlParts (url.drop 7)).fields = some fields ∧ fields.path = some path := by
  obtain ⟨host, path, writes⟩ := written
  obtain ⟨fields, isFields, wrote⟩ := (parseURL_fields url clean ⟨[], 0, []⟩).2 accepted
  refine ⟨fields, ?_⟩
  cases isPath : fields.path with
  | some path => exact ⟨path, isFields, rfl⟩
  | none =>
      obtain ⟨_, holds⟩ := writes ⟨[], 0, []⟩
      rw [wrote.noPath isPath] at holds
      have fits := List.IsPrefix.length_le holds
      simp at fits

theorem writes_of_fields {url : List Byte} (clean : 0 ∉ url) (accepted : ¬ Refused url)
    {fields : UrlFields} {path : List Byte}
    (isFields : (urlParts (url.drop 7)).fields = some fields) (isPath : fields.path = some path) :
    WritesHostAndPath url := by
  refine ⟨fields.host, path, ?_⟩
  intro outputs
  have wrote := parseURL_writes clean accepted isFields outputs
  exact ⟨wrote.host, wrote.path path isPath⟩

/-- Whatever a client sends: when the request is accepted and the URL gives a
host and a path, the request to the server is a single one. -/
theorem upstreamRequest_single (received : Chunk) (stale url : List Byte) (now : Int)
    (next : Option Addr) (outputs : UrlOutputs)
    (looked : handleRequest (some received) stale = .lookup url)
    (succeeded : (parseURL (newEntry url now next).url.bytes outputs).1 = 0)
    (written : WritesHostAndPath (newEntry url now next).url.bytes) :
    SingleRequest (upstreamRequest (parseURL (newEntry url now next).url.bytes outputs).2)
      (cstr (parseURL (newEntry url now next).url.bytes outputs).2.path)
      (cstr (parseURL (newEntry url now next).url.bytes outputs).2.host) := by
  obtain ⟨isUrl, clean, unspaced⟩ := lookup_entry_url received stale url now next looked
  rw [isUrl] at succeeded written ⊢
  have accepted := (parseURL_fields url clean outputs).1.mp succeeded
  obtain ⟨fields, path, isFields, isPath⟩ := fields_of_written clean accepted written
  have wrote := parseURL_writes clean accepted isFields outputs
  obtain ⟨origin, _⟩ := fields_of_url clean isFields
  have inUrl : ∀ byte ∈ url.drop 7, byte ≠ 0 ∧ isSpace byte = false := by
    intro byte member
    have inside := List.mem_of_mem_drop member
    exact ⟨fun isNul => clean (isNul ▸ inside), unspaced byte inside⟩
  have hostPlain : ∀ byte ∈ fields.host, byte ≠ 0 ∧ isSpace byte = false :=
    fun byte member => inUrl byte (origin.host byte member)
  have pathPlain : ∀ byte ∈ path, byte ≠ 0 ∧ isSpace byte = false := by
    intro byte member
    rcases (origin.path path isPath).2 byte member with inside | rfl
    · exact inUrl byte inside
    · exact ⟨by decide, rfl⟩
  have hostIs : cstr (parseURL url outputs).2.host = fields.host :=
    wrote.host.cstr_eq fun nul => (hostPlain 0 nul).1 rfl
  have pathIs : cstr (parseURL url outputs).2.path = path :=
    (wrote.path path isPath).cstr_eq fun nul => (pathPlain 0 nul).1 rfl
  have pathNarrow := (origin.path path isPath).1
  have hostNarrow := origin.hostNarrow.2
  have whole := upstreamRequest_whole pathIs hostIs pathNarrow hostNarrow
  rw [pathIs, hostIs, whole]
  exact {
    whole := rfl
    untruncated := requestText_length pathNarrow hostNarrow
    lines := requestText_lines (fun byte member => (pathPlain byte member).2)
      (fun byte member => (hostPlain byte member).2)
    parts := requestLine_parts fun byte member => (pathPlain byte member).2
    plain := by
      intro byte member
      have visible : byte ≠ 0 ∧ isSpace byte = false := by
        rcases List.mem_append.mp member with inHost | inPath
        · exact hostPlain byte inHost
        · exact pathPlain byte inPath
      obtain ⟨noLineEnd, noReturn, _⟩ := visible_bytes visible.2
      exact ⟨visible.1, noLineEnd, noReturn, visible.2⟩ }

/-- A request for a page of a host without a port. -/
def pageRequest : Chunk := ⟨text "GET http://a/b HTTP/1.0\r\n\r\n", by decide, by decide⟩

theorem upstreamRequest_single_page :
    handleRequest (some pageRequest) [] = .lookup (text "http://a/b") ∧
      SingleRequest
        (upstreamRequest (parseURL (newEntry (text "http://a/b") 0 none).url.bytes
          ⟨[], 0, []⟩).2)
        (text "b") (text "a") := by
  have looked : handleRequest (some pageRequest) [] = .lookup (text "http://a/b") := rfl
  have clean : 0 ∉ text "http://a/b" := by decide
  have isUrl : (newEntry (text "http://a/b") 0 none).url.bytes = text "http://a/b" := rfl
  have accepted : ¬ Refused (text "http://a/b") := by decide
  have isFields : (urlParts ((text "http://a/b").drop 7)).fields =
      some ⟨text "a", 80, some (text "b")⟩ := by rfl
  have written := writes_of_fields clean accepted isFields rfl
  have succeeded := (parseURL_fields _ clean ⟨[], 0, []⟩).1.mpr accepted
  rw [← isUrl] at written succeeded
  exact ⟨looked, upstreamRequest_single pageRequest [] _ 0 none ⟨[], 0, []⟩ looked succeeded
    written⟩

end OsLabs.Proxy
