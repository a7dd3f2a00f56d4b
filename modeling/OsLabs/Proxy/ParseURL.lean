import OsLabs.Lib.Scanf
import OsLabs.Proxy.Entry

/-!
# parseURL

Four scan patterns are tried in turn on the same URL and the same output
arrays; an attempt that fails leaves what it has assigned.  `parseURL_rendered`
is the round trip for URLs with a path.
-/

set_option autoImplicit false

namespace OsLabs.Proxy

open OsLabs.CString OsLabs.Scanf

def httpPort : Int := 80

/-- The arguments that `parseURL` writes through. -/
structure UrlOutputs where
  host : List Byte
  port : Int
  path : List Byte

inductive UrlOutput where
  | host
  | port
  | path

/-- A string stored at the start of an array, with its NUL. -/
def storeString (memory bytes : List Byte) : List Byte := writeAt memory 0 (bytes ++ [0])

def UrlOutputs.assign (outputs : UrlOutputs) : UrlOutput × Field → UrlOutputs
  | (.host, .string bytes) => { outputs with host := storeString outputs.host bytes }
  | (.path, .string bytes) => { outputs with path := storeString outputs.path bytes }
  | (.port, .number value) => { outputs with port := value }
  | _ => outputs

/-- `"http://%255[^:/]:%d/%1023s"` -/
def portAndPath : List Directive :=
  literals (text "http://") ++ .excluding 255 (text ":/") :: literals (text ":") ++
    .decimal :: literals (text "/") ++ [.word 1023]

/-- `"http://%255[^/]/%1023s"` -/
def pathOnly : List Directive :=
  literals (text "http://") ++ .excluding 255 (text "/") :: literals (text "/") ++ [.word 1023]

/-- `"http://%255[^:/]:%d"` -/
def portOnly : List Directive :=
  literals (text "http://") ++ .excluding 255 (text ":/") :: literals (text ":") ++ [.decimal]

/-- `"http://%255[^/]"` -/
def hostOnly : List Directive := literals (text "http://") ++ [.excluding 255 (text "/")]

/-- One `sscanf` of the URL: the number of fields it assigned, and the outputs. -/
def UrlOutputs.sscanf (outputs : UrlOutputs) (url : List Byte) (format : List Directive)
    (arguments : List UrlOutput) : Nat × UrlOutputs :=
  let fields := scan format (cstr url)
  (fields.length, (arguments.zip fields).foldl UrlOutputs.assign outputs)

/-- `parseURL` with none of its arguments NULL. -/
def parseURL (url : List Byte) (outputs : UrlOutputs) : Int × UrlOutputs :=
  let outputs := { outputs with port := httpPort }
  if 64 ∈ cstr url then (-1, outputs)
  else
    let (count, outputs) := outputs.sscanf url portAndPath [.host, .port, .path]
    if count = 3 then (0, outputs)
    else
      let (count, outputs) := outputs.sscanf url pathOnly [.host, .path]
      if count = 2 then (0, outputs)
      else
        let (count, outputs) := outputs.sscanf url portOnly [.host, .port]
        if count = 2 then (0, outputs)
        else
          let (count, outputs) := outputs.sscanf url hostOnly [.host]
          if count = 1 then (0, { outputs with path := storeString outputs.path (text "/") })
          else (-1, outputs)

/-- The result does not depend on what the outputs hold. -/
theorem parseURL_result (url : List Byte) (outputs other : UrlOutputs) :
    (parseURL url outputs).1 = (parseURL url other).1 := by
  by_cases mailLike : 64 ∈ cstr url
  · simp [parseURL, mailLike]
  by_cases withPort : (scan portAndPath (cstr url)).length = 3
  · simp [parseURL, UrlOutputs.sscanf, mailLike, withPort]
  by_cases withPath : (scan pathOnly (cstr url)).length = 2
  · simp [parseURL, UrlOutputs.sscanf, mailLike, withPort, withPath]
  by_cases noPath : (scan portOnly (cstr url)).length = 2
  · simp [parseURL, UrlOutputs.sscanf, mailLike, withPort, withPath, noPath]
  by_cases hostAlone : (scan hostOnly (cstr url)).length = 1 <;>
    simp [parseURL, UrlOutputs.sscanf, mailLike, withPort, withPath, noPath, hostAlone]

/-- `parseURL` accepts the URL. -/
def Url.parses (url : Url) : Bool := (parseURL url.bytes ⟨[], 0, []⟩).1 == 0

theorem Url.parses_iff (url : Url) (outputs : UrlOutputs) :
    url.parses = true ↔ (parseURL url.bytes outputs).1 = 0 := by
  rw [Url.parses, beq_iff_eq, parseURL_result _ outputs]

/-! ## The patterns on rendered URLs -/

/-- A host name that fits the conversion. -/
structure UrlHost (host : List Byte) : Prop where
  nonempty : host ≠ []
  narrow : host.length ≤ 255
  plain : ∀ byte ∈ host, byte ≠ 0 ∧ byte ∉ text ":/@" ∧ isSpace byte = false

/-- A path that fits the conversion. -/
structure UrlPath (path : List Byte) : Prop where
  nonempty : path ≠ []
  narrow : path.length ≤ 1023
  plain : ∀ byte ∈ path, byte ≠ 0 ∧ byte ∉ text "@" ∧ isSpace byte = false

/-- `http://host:port/path` -/
def urlWithPort (host : List Byte) (port : Nat) (path : List Byte) : List Byte :=
  text "http://" ++ (host ++ text ":" ++ decimal port ++ text "/" ++ path)

/-- `http://host/path` -/
def urlWithoutPort (host path : List Byte) : List Byte :=
  text "http://" ++ (host ++ text "/" ++ path)

theorem UrlHost.allowed {host : List Byte} (isHost : UrlHost host) :
    ∀ byte ∈ host, byte ∉ text ":/" := by
  intro byte member inSet
  have longer : text ":/" <+: text ":/@" := ⟨text "@", by decide⟩
  exact (isHost.plain byte member).2.1 (longer.subset inSet)

theorem UrlHost.noSlash {host : List Byte} (isHost : UrlHost host) :
    ∀ byte ∈ host, byte ∉ text "/" := by
  intro byte member inSet
  have smaller : text "/" <:+ text ":/" := ⟨text ":", by decide⟩
  exact isHost.allowed byte member (smaller.subset inSet)

theorem UrlPath.unspaced {path : List Byte} (isPath : UrlPath path) :
    ∀ byte ∈ path, isSpace byte = false :=
  fun byte member => (isPath.plain byte member).2.2

/-- The slash in front of a path ends the number of the port. -/
theorem endsNumber_slash : EndsNumber 47 := ⟨rfl, rfl, by decide, by decide⟩

section Rendered

variable {host path : List Byte}

theorem scan_portAndPath (isHost : UrlHost host) (isPath : UrlPath path) (port : Nat)
    (positive : 0 < port) (small : port < 2 ^ 31) :
    scan portAndPath (urlWithPort host port path) =
      [.string host, .number port, .string path] := by
  have split : host ++ text ":" ++ decimal port ++ text "/" ++ path =
      host ++ 58 :: (decimal port ++ 47 :: path) := by
    simp [show text ":" = [58] by decide, show text "/" = [47] by decide]
  calc scan portAndPath (urlWithPort host port path)
      = scan (.excluding 255 (text ":/") :: .literal 58 :: .decimal :: .literal 47 ::
          [.word 1023]) (host ++ 58 :: (decimal port ++ 47 :: path)) := by
        rw [urlWithPort, split]
        exact scan_literals (text "http://") _ _
    _ = [.string host, .number port, .string path] := by
        rw [scan_excluding 255 _ host 58 _ _ isHost.nonempty isHost.narrow isHost.allowed
            (by decide),
          scan_literal, scan_decimal port 47 _ _ positive small endsNumber_slash,
          scan_literal,
          scan_word 1023 path _ isPath.nonempty isPath.narrow isPath.unspaced, scan]

/-- Without a port the first pattern assigns the host and stops at the slash. -/
theorem scan_portAndPath_noPort (isHost : UrlHost host) :
    scan portAndPath (urlWithoutPort host path) = [.string host] := by
  have split : host ++ text "/" ++ path = host ++ 47 :: path := by
    simp [show text "/" = [47] by decide]
  calc scan portAndPath (urlWithoutPort host path)
      = scan (.excluding 255 (text ":/") :: .literal 58 :: .decimal :: .literal 47 ::
          [.word 1023]) (host ++ 47 :: path) := by
        rw [urlWithoutPort, split]
        exact scan_literals (text "http://") _ _
    _ = [.string host] := by
        rw [scan_excluding 255 _ host 47 _ _ isHost.nonempty isHost.narrow isHost.allowed
            (by decide),
          scan_literal_other 58 47 _ _ (by decide)]

theorem scan_pathOnly (isHost : UrlHost host) (isPath : UrlPath path) :
    scan pathOnly (urlWithoutPort host path) = [.string host, .string path] := by
  have split : host ++ text "/" ++ path = host ++ 47 :: path := by
    simp [show text "/" = [47] by decide]
  calc scan pathOnly (urlWithoutPort host path)
      = scan (.excluding 255 (text "/") :: .literal 47 :: [.word 1023]) (host ++ 47 :: path) := by
        rw [urlWithoutPort, split]
        exact scan_literals (text "http://") _ _
    _ = [.string host, .string path] := by
        rw [scan_excluding 255 _ host 47 _ _ isHost.nonempty isHost.narrow isHost.noSlash
            (by decide),
          scan_literal,
          scan_word 1023 path _ isPath.nonempty isPath.narrow isPath.unspaced, scan]

end Rendered

/-! ## The round trip -/

/-- The three results as the caller reads them. -/
def UrlOutputs.values (outputs : UrlOutputs) : List Byte × Int × List Byte :=
  (cstr outputs.host, outputs.port, cstr outputs.path)

theorem cstr_storeString (memory bytes : List Byte) (clean : 0 ∉ bytes) :
    cstr (storeString memory bytes) = bytes := by
  have stored : storeString memory bytes = bytes ++ 0 :: memory.drop (bytes.length + 1) := by
    simp [storeString, writeAt]
  rw [stored, cstr_append_of_no_nul _ _ clean]
  simp [cstr]

theorem cstr_terminated (bytes beyond : List Byte) (clean : 0 ∉ bytes) :
    cstr (bytes ++ 0 :: beyond) = bytes := by
  rw [cstr_append_of_no_nul _ _ clean]
  simp [cstr]

/-- Neither the end of the string nor an @ is in a host or a path. -/
theorem UrlHost.lacks {host : List Byte} (isHost : UrlHost host) : 0 ∉ host ∧ 64 ∉ host :=
  ⟨fun member => (isHost.plain 0 member).1 rfl,
    fun member => (isHost.plain 64 member).2.1 (by decide)⟩

theorem UrlPath.lacks {path : List Byte} (isPath : UrlPath path) : 0 ∉ path ∧ 64 ∉ path :=
  ⟨fun member => (isPath.plain 0 member).1 rfl,
    fun member => (isPath.plain 64 member).2.1 (by decide)⟩

theorem decimal_lacks (port : Nat) : 0 ∉ decimal port ∧ 64 ∉ decimal port :=
  ⟨fun member => absurd (decimal_isDigit port 0 member) (by decide),
    fun member => absurd (decimal_isDigit port 64 member) (by decide)⟩

theorem urlWithPort_lacks {host path : List Byte} (isHost : UrlHost host)
    (isPath : UrlPath path) (port : Nat) :
    0 ∉ urlWithPort host port path ∧ 64 ∉ urlWithPort host port path := by
  have scheme : 0 ∉ text "http://" ∧ 64 ∉ text "http://" := by decide
  have colon : 0 ∉ text ":" ∧ 64 ∉ text ":" := by decide
  have slash : 0 ∉ text "/" ∧ 64 ∉ text "/" := by decide
  simp only [urlWithPort, List.mem_append, not_or]
  exact ⟨⟨scheme.1, ⟨⟨⟨⟨isHost.lacks.1, colon.1⟩, (decimal_lacks port).1⟩, slash.1⟩,
      isPath.lacks.1⟩⟩,
    ⟨scheme.2, ⟨⟨⟨⟨isHost.lacks.2, colon.2⟩, (decimal_lacks port).2⟩, slash.2⟩, isPath.lacks.2⟩⟩⟩

theorem urlWithoutPort_lacks {host path : List Byte} (isHost : UrlHost host)
    (isPath : UrlPath path) :
    0 ∉ urlWithoutPort host path ∧ 64 ∉ urlWithoutPort host path := by
  have scheme : 0 ∉ text "http://" ∧ 64 ∉ text "http://" := by decide
  have slash : 0 ∉ text "/" ∧ 64 ∉ text "/" := by decide
  simp only [urlWithoutPort, List.mem_append, not_or]
  exact ⟨⟨scheme.1, ⟨isHost.lacks.1, slash.1⟩, isPath.lacks.1⟩,
    ⟨scheme.2, ⟨isHost.lacks.2, slash.2⟩, isPath.lacks.2⟩⟩

theorem parseURL_withPort (host path : List Byte) (isHost : UrlHost host) (isPath : UrlPath path)
    (port : Nat) (positive : 0 < port) (small : port < 2 ^ 31) (beyond : List Byte)
    (outputs : UrlOutputs) :
    (parseURL (urlWithPort host port path ++ 0 :: beyond) outputs).1 = 0 ∧
      (parseURL (urlWithPort host port path ++ 0 :: beyond) outputs).2.values =
        (host, (port : Int), path) := by
  obtain ⟨clean, noAt⟩ := urlWithPort_lacks isHost isPath port
  have fields := scan_portAndPath isHost isPath port positive small
  simp only [parseURL, UrlOutputs.sscanf, cstr_terminated _ beyond clean, if_neg noAt, fields]
  simp [UrlOutputs.assign, UrlOutputs.values, cstr_storeString _ _ isHost.lacks.1,
    cstr_storeString _ _ isPath.lacks.1]

theorem parseURL_withoutPort (host path : List Byte) (isHost : UrlHost host)
    (isPath : UrlPath path) (beyond : List Byte) (outputs : UrlOutputs) :
    (parseURL (urlWithoutPort host path ++ 0 :: beyond) outputs).1 = 0 ∧
      (parseURL (urlWithoutPort host path ++ 0 :: beyond) outputs).2.values =
        (host, httpPort, path) := by
  obtain ⟨clean, noAt⟩ := urlWithoutPort_lacks isHost isPath
  -- the first pattern has assigned the host when it fails, and the second assigns it again
  have first : scan portAndPath (urlWithoutPort host path) = [.string host] :=
    scan_portAndPath_noPort isHost
  have second := scan_pathOnly isHost isPath
  simp only [parseURL, UrlOutputs.sscanf, cstr_terminated _ beyond clean, if_neg noAt, first,
    second]
  simp [UrlOutputs.assign, UrlOutputs.values, cstr_storeString _ _ isHost.lacks.1,
    cstr_storeString _ _ isPath.lacks.1]

/-- `parseURL` takes a rendered URL with a path apart again. -/
theorem parseURL_rendered (host path : List Byte) (isHost : UrlHost host) (isPath : UrlPath path)
    (port : Nat) (inRange : 1 ≤ port ∧ port ≤ 65535) (beyond : List Byte)
    (outputs : UrlOutputs) :
    ((parseURL (urlWithPort host port path ++ 0 :: beyond) outputs).1 = 0 ∧
        (parseURL (urlWithPort host port path ++ 0 :: beyond) outputs).2.values =
          (host, (port : Int), path)) ∧
      (parseURL (urlWithoutPort host path ++ 0 :: beyond) outputs).1 = 0 ∧
        (parseURL (urlWithoutPort host path ++ 0 :: beyond) outputs).2.values =
          (host, 80, path) :=
  ⟨parseURL_withPort host path isHost isPath port (by omega) (by omega) beyond outputs,
    parseURL_withoutPort host path isHost isPath beyond outputs⟩

/-- A path that itself looks like a port and a path. -/
theorem parseURL_rendered_nested :
    (1 ≤ 8080 ∧ 8080 ≤ 65535) ∧ UrlHost (text "a.b") ∧ UrlPath (text ":1//x") ∧
      (parseURL (urlWithPort (text "a.b") 8080 (text ":1//x") ++ [0]) ⟨[], 0, []⟩).2.values =
        (text "a.b", 8080, text ":1//x") := by
  have host : text "a.b" = [97, 46, 98] := by decide
  have path : text ":1//x" = [58, 49, 47, 47, 120] := by decide
  have isHost : UrlHost (text "a.b") := {
    nonempty := by decide
    narrow := by decide
    plain := by
      simp only [host, List.forall_mem_cons, List.not_mem_nil, false_implies, implies_true]
      decide }
  have isPath : UrlPath (text ":1//x") := {
    nonempty := by decide
    narrow := by decide
    plain := by
      simp only [path, List.forall_mem_cons, List.not_mem_nil, false_implies, implies_true]
      decide }
  have inRange : 1 ≤ 8080 ∧ 8080 ≤ 65535 := by decide
  exact ⟨inRange, isHost, isPath,
    (parseURL_rendered _ _ isHost isPath 8080 inRange [] ⟨[], 0, []⟩).1.2⟩

end OsLabs.Proxy
