import OsLabs.Proxy.UrlTarget

/-!
# URLs that parseURL represents

A URL that one pattern refuses is tried with a weaker one, so that a host with
a malformed port, or too long a path, is accepted with other fields than its
own.  `represented_iff` gives the URLs whose parts come out whole.
-/

set_option autoImplicit false

namespace OsLabs.Proxy

open OsLabs.CString OsLabs.Scanf

/-- A complete decimal number that a port can be. -/
structure IsPort (port : List Byte) : Prop where
  nonempty : port ≠ []
  digits : ∀ byte ∈ port, isDigit byte = true
  inRange : 1 ≤ digitsValue port ∧ digitsValue port ≤ 65535

/-- The outputs are the complete parts of the URL, and none is over-long. -/
structure Represents (parts : UrlParts) (outputs : UrlOutputs) : Prop where
  host : cstr outputs.host = parts.host ∧ parts.host.length ≤ 255
  port : ∀ port ∈ parts.port, IsPort port ∧ outputs.port = digitsValue port
  noPort : parts.port = none → outputs.port = 80
  path : ∀ path ∈ parts.path, path ≠ [] → cstr outputs.path = path ∧ path.length ≤ 1023

/-- `parseURL` accepts the URL only as what it is. -/
def Represented (url : List Byte) : Prop :=
  ∀ outputs, (parseURL url outputs).1 = 0 →
    Represents (urlParts (url.drop 7)) (parseURL url outputs).2

/-- Parts that the conversions take whole. -/
structure PartsFit (parts : UrlParts) : Prop where
  host : parts.HostFits
  port : ∀ port ∈ parts.port, IsPort port
  path : ∀ path ∈ parts.path, path.length ≤ 1023 ∧ ∀ byte ∈ path, isSpace byte = false

/-! ## Fields of parts that fit -/

theorem scanDecimal_port_whole {port : List Byte} (isPort : IsPort port) :
    scanDecimal port = some ((digitsValue port : Int), []) :=
  scanDecimal_digits port isPort.nonempty isPort.digits (by have := isPort.inRange.2; omega)

namespace PartsFit

variable {parts : UrlParts}

theorem pathWord_eq (fits : PartsFit parts) {path : List Byte} (isPath : parts.path = some path)
    (nonempty : path ≠ []) : parts.pathWord = some path := by
  obtain ⟨narrow, plain⟩ := fits.path path isPath
  rw [UrlParts.pathWord, isPath, Option.bind_some, scanWord_whole 1023 path nonempty narrow plain]
  rfl

theorem hostPort_eq (fits : PartsFit parts) {port : List Byte} (isPort : parts.port = some port) :
    parts.hostPort = some ((digitsValue port : Int), []) := by
  rw [UrlParts.hostPort, if_pos fits.host, isPort, Option.bind_some]
  exact scanDecimal_port_whole (fits.port port isPort)

theorem hostPort_none (noPort : parts.port = none) : parts.hostPort = none := by
  rw [UrlParts.hostPort, noPort]
  split <;> rfl

/-- The fields of parts that fit are the parts. -/
theorem fields_whole (fits : PartsFit parts) {fields : UrlFields}
    (isFields : parts.fields = some fields) :
    fields.host = parts.host ∧ (∀ port ∈ parts.port, fields.port = digitsValue port) ∧
      (parts.port = none → fields.port = 80) ∧
      ∀ path ∈ parts.path, path ≠ [] → fields.path = some path := by
  have pathIs : ∀ path ∈ parts.path, path ≠ [] → parts.pathWord = some path :=
    fun path isPath nonempty => fits.pathWord_eq isPath nonempty
  cases isPort : parts.port with
  | some port =>
      have numbered := fits.hostPort_eq isPort
      cases isWord : parts.pathWord with
      | some word =>
          have first : parts.hostPortPath = some ((digitsValue port : Int), word) := by
            simp [UrlParts.hostPortPath, numbered, isWord]
          simp only [UrlParts.fields, first] at isFields
          cases isFields
          refine ⟨rfl, by rintro _ ⟨⟩; rfl, by rintro ⟨⟩, ?_⟩
          intro path isPath nonempty
          rw [← isWord, pathIs path isPath nonempty]
      | none =>
          have first : parts.hostPortPath = none := by
            simp [UrlParts.hostPortPath, numbered, isWord]
          have second : parts.hostPath = none := by
            simp [UrlParts.hostPath, isWord]
          simp only [UrlParts.fields, first, second, numbered] at isFields
          cases isFields
          refine ⟨rfl, by rintro _ ⟨⟩; rfl, by rintro ⟨⟩, ?_⟩
          intro path isPath nonempty
          rw [pathIs path isPath nonempty] at isWord
          cases isWord
  | none =>
      have plain := hostPort_none isPort
      have first : parts.hostPortPath = none := by simp [UrlParts.hostPortPath, plain]
      have isHost : parts.authority = parts.host := by
        simp [UrlParts.authority, UrlParts.portPart, isPort]
      have second : parts.hostPath = parts.pathWord := by
        rw [UrlParts.hostPath, isHost]
        exact if_pos fits.host
      cases isWord : parts.pathWord with
      | some word =>
          simp only [UrlParts.fields, first, second, plain, isWord] at isFields
          cases isFields
          refine ⟨isHost, by rintro _ ⟨⟩, fun _ => rfl, ?_⟩
          intro path isPath nonempty
          rw [← isWord, pathIs path isPath nonempty]
      | none =>
          simp only [UrlParts.fields, first, second, plain, isWord, isHost, fits.host.1, if_false]
            at isFields
          cases isFields
          refine ⟨List.take_of_length_le fits.host.2, by rintro _ ⟨⟩, fun _ => rfl, ?_⟩
          intro path isPath nonempty
          rw [pathIs path isPath nonempty] at isWord
          cases isWord

end PartsFit

/-! ## When the parts come out whole -/

theorem UrlParts.path_mem {parts : UrlParts} {path : List Byte} (isPath : path ∈ parts.path)
    {byte : Byte} (member : byte ∈ path) : byte ∈ parts.bytes := by
  refine List.mem_append_right _ ?_
  rw [pathPart, Option.mem_def.mp isPath]
  exact List.mem_cons_of_mem _ member

theorem represented_of_fit {url : List Byte} (clean : 0 ∉ url)
    (fits : PartsFit (urlParts (url.drop 7))) : Represented url := by
  intro outputs succeeded
  have accepted := (parseURL_fields url clean outputs).1.mp succeeded
  obtain ⟨fields, isFields, wrote⟩ := (parseURL_fields url clean outputs).2 accepted
  obtain ⟨isHost, isPort, noPort, isPath⟩ := fits.fields_whole isFields
  obtain ⟨origin, hostClean⟩ := fields_of_url clean isFields
  refine ⟨⟨?_, fits.host.2⟩, ?_, ?_, ?_⟩
  · rw [wrote.host.cstr_eq hostClean, isHost]
  · intro port hasPort
    exact ⟨fits.port port hasPort, by rw [wrote.port, isPort port hasPort]⟩
  · intro none
    rw [wrote.port, noPort none]
  · intro path hasPath nonempty
    have pathClean : 0 ∉ path := by
      intro nul
      have inside := UrlParts.path_mem hasPath nul
      rw [urlParts_bytes] at inside
      exact clean (List.mem_of_mem_drop inside)
    exact ⟨(wrote.path path (isPath path hasPath nonempty)).cstr_eq pathClean,
      (fits.path path hasPath).1⟩

theorem fit_of_represented {url : List Byte} (clean : 0 ∉ url) (accepted : ¬ Refused url)
    (represented : Represented url) : PartsFit (urlParts (url.drop 7)) := by
  have succeeded := (parseURL_fields url clean ⟨[], 0, []⟩).1.mpr accepted
  obtain ⟨fields, isFields, wrote⟩ := (parseURL_fields url clean ⟨[], 0, []⟩).2 accepted
  have isPart := represented ⟨[], 0, []⟩ succeeded
  obtain ⟨origin, hostClean⟩ := fields_of_url clean isFields
  have sameHost : fields.host = (urlParts (url.drop 7)).host := by
    rw [← isPart.host.1, wrote.host.cstr_eq hostClean]
  refine ⟨by rw [UrlParts.HostFits, ← sameHost]; exact origin.hostNarrow,
    fun port isPort => (isPart.port port isPort).1, ?_⟩
  intro path hasPath
  by_cases empty : path = []
  · rw [empty]
    exact ⟨Nat.zero_le _, fun byte member => absurd member List.not_mem_nil⟩
  · obtain ⟨samePath, narrow⟩ := isPart.path path hasPath empty
    refine ⟨narrow, ?_⟩
    cases isPath : fields.path with
    | none =>
        -- the array keeps what it held, and here it held nothing
        rw [wrote.noPath isPath] at samePath
        exact absurd samePath.symm empty
    | some word =>
        have wordClean : 0 ∉ word := by
          intro nul
          rcases (origin.path word isPath).2 0 nul with inside | isSlash
          · exact clean (List.mem_of_mem_drop inside)
          · exact absurd isSlash (by decide)
        rw [(wrote.path word isPath).cstr_eq wordClean] at samePath
        rw [← samePath]
        exact origin.pathPlain word isPath

/-- Accepted URLs are represented exactly when their parts fit. -/
theorem represented_iff (url : Url) :
    Represented url.bytes ↔ Refused url.bytes ∨ PartsFit (urlParts (url.bytes.drop 7)) := by
  by_cases refused : Refused url.bytes
  · have vacuous : Represented url.bytes := by
      intro outputs succeeded
      exact absurd refused ((parseURL_fields url.bytes url.clean outputs).1.mp succeeded)
    exact ⟨fun _ => Or.inl refused, fun _ => vacuous⟩
  · rw [or_iff_right refused]
    exact ⟨fit_of_represented url.clean refused, represented_of_fit url.clean⟩

/-- A port that is not a number becomes part of the host. -/
theorem parseURL_port_in_host :
    ∃ url : Url, url.bytes = text "http://a:b/x" ∧ ¬ Represented url.bytes ∧
      ∀ outputs, (parseURL url.bytes outputs).1 = 0 ∧
        cstr (parseURL url.bytes outputs).2.host = text "a:b" := by
  refine ⟨⟨text "http://a:b/x", by decide, by decide⟩, rfl, ?_⟩
  have clean : 0 ∉ text "http://a:b/x" := by decide
  have accepted : ¬ Refused (text "http://a:b/x") := by decide
  have taken : ∀ outputs, (parseURL (text "http://a:b/x") outputs).1 = 0 ∧
      cstr (parseURL (text "http://a:b/x") outputs).2.host = text "a:b" := by
    intro outputs
    have isHostPath : (urlParts ((text "http://a:b/x").drop 7)).fields =
        some ⟨text "a:b", 80, some (text "x")⟩ := by rfl
    have wrote := parseURL_writes clean accepted isHostPath outputs
    exact ⟨(parseURL_fields _ clean outputs).1.mpr accepted, wrote.host.cstr_eq (by decide)⟩
  refine ⟨?_, taken⟩
  intro represented
  have isHost := (represented ⟨[], 0, []⟩ (taken ⟨[], 0, []⟩).1).host.1
  rw [(taken ⟨[], 0, []⟩).2] at isHost
  exact absurd isHost (by decide)

end OsLabs.Proxy
