import OsLabs.Proxy.UpstreamRequest

/-!
# What a successful parseURL defines

The third pattern of `parseURL` has no path, and the branch behind it does not
write one; the last one writes a slash, to which the request line adds its own.
`definesOutputs_iff` gives the URLs on which neither happens.
-/

set_option autoImplicit false

namespace OsLabs.Proxy

open OsLabs.CString OsLabs.Scanf

/-- The digits behind white space and a sign. -/
def digitsAhead (port : List Byte) : List Byte :=
  (splitSign (port.dropWhile isSpace)).2.takeWhile isDigit

def behindDigits (port : List Byte) : List Byte :=
  (splitSign (port.dropWhile isSpace)).2.dropWhile isDigit

namespace UrlParts

/-- The text between the colon and the slash begins with a number. -/
def PortStarts (parts : UrlParts) : Prop := ∃ port ∈ parts.port, digitsAhead port ≠ []

/-- It is a number. -/
def PortWhole (parts : UrlParts) : Prop :=
  ∃ port ∈ parts.port, digitsAhead port ≠ [] ∧ behindDigits port = []

def PathVisible (parts : UrlParts) : Prop :=
  ∃ path ∈ parts.path, ∃ byte ∈ path, isSpace byte = false

/-- No slash behind the authority, or nothing behind the slash. -/
def NoPath (parts : UrlParts) : Prop := parts.path = none ∨ parts.path = some []

end UrlParts

/-- A call that succeeds leaves strings and a port that do not depend on what
the outputs held; without a path the request asks for `/`. -/
structure DefinesOutputs (url : List Byte) : Prop where
  written : ∃ host port path, ∀ outputs, (parseURL url outputs).1 = 0 →
    Holds (parseURL url outputs).2.host host ∧ (parseURL url outputs).2.port = port ∧
      Holds (parseURL url outputs).2.path path
  target : (urlParts (url.drop 7)).NoPath → ∀ outputs, (parseURL url outputs).1 = 0 →
    requestTarget (upstreamRequest (parseURL url outputs).2) = some (text "/")

/-- The URL is refused, or a path can be scanned, or neither is a port scanned
nor the path missing. -/
def OutputsDefinable (url : List Byte) : Prop :=
  Refused url ∨
    ((urlParts (url.drop 7)).PathVisible ∧ ((urlParts (url.drop 7)).authority.length ≤ 255 ∨
      (urlParts (url.drop 7)).HostFits ∧ (urlParts (url.drop 7)).PortWhole)) ∨
    (¬ ((urlParts (url.drop 7)).HostFits ∧ (urlParts (url.drop 7)).PortStarts) ∧
      ¬ (urlParts (url.drop 7)).NoPath)

/-! ## The conversions that match -/

namespace UrlParts

variable {parts : UrlParts}

theorem scanDecimal_none_iff (port : List Byte) : scanDecimal port = none ↔ digitsAhead port = [] := by
  simp only [scanDecimal, digitsAhead]
  split <;> simp_all

theorem scanDecimal_left {port : List Byte} {value : Int} {left : List Byte}
    (scanned : scanDecimal port = some (value, left)) :
    digitsAhead port ≠ [] ∧ left = behindDigits port := by
  simp only [scanDecimal] at scanned
  split at scanned
  · cases scanned
  · rename_i digits
    rw [Option.some.injEq, Prod.mk.injEq] at scanned
    exact ⟨digits, scanned.2.symm⟩

theorem hostPort_none_iff : parts.hostPort = none ↔ ¬ (parts.HostFits ∧ parts.PortStarts) := by
  unfold hostPort
  split
  · rename_i fits
    rw [Option.bind_eq_none_iff]
    constructor
    · rintro noNumber ⟨_, port, isPort, digits⟩
      exact digits ((scanDecimal_none_iff port).mp (noNumber port isPort))
    · intro noDigits port isPort
      rw [scanDecimal_none_iff]
      by_contra digits
      exact noDigits ⟨fits, port, isPort, digits⟩
  · rename_i unfit
    simp [unfit]

theorem pathWord_none_iff : parts.pathWord = none ↔ ¬ parts.PathVisible := by
  unfold pathWord PathVisible
  cases parts.path with
  | none => simp
  | some path => simp [scanWord_eq_none_iff]

theorem hostPath_none_iff (hasAuthority : parts.authority ≠ []) :
    parts.hostPath = none ↔ ¬ (parts.PathVisible ∧ parts.authority.length ≤ 255) := by
  unfold hostPath
  split
  · rename_i fits
    rw [pathWord_none_iff]
    simp [fits.2]
  · rename_i wide
    have tooWide : ¬ parts.authority.length ≤ 255 := fun narrow => wide ⟨hasAuthority, narrow⟩
    simp [tooWide]

theorem hostPortPath_none_iff :
    parts.hostPortPath = none ↔ ¬ (parts.PathVisible ∧ parts.HostFits ∧ parts.PortWhole) := by
  constructor
  · rintro noMatch ⟨visible, fits, port, isPort, digits, ended⟩
    obtain ⟨⟨value, left⟩, scanned⟩ : ∃ found, scanDecimal port = some found :=
      Option.ne_none_iff_exists'.mp fun none => digits ((scanDecimal_none_iff port).mp none)
    have nothing : left = [] := by rw [(scanDecimal_left scanned).2, ended]
    obtain ⟨word, isWord⟩ : ∃ word, parts.pathWord = some word :=
      Option.ne_none_iff_exists'.mp fun none => pathWord_none_iff.mp none visible
    have isHostPort : parts.hostPort = some (value, []) := by
      rw [hostPort, if_pos fits, Option.mem_def.mp isPort, Option.bind_some, scanned, nothing]
    rw [hostPortPath, isHostPort, isWord] at noMatch
    cases noMatch
  · intro noShape
    cases found : parts.hostPortPath with
    | none => rfl
    | some values =>
        obtain ⟨value, path⟩ := values
        obtain ⟨isHostPort, isWord⟩ := hostPortPath_from found
        refine absurd ⟨?_, (hostPort_authority isHostPort).1, ?_⟩ noShape
        · by_contra hidden
          rw [pathWord_none_iff.mpr hidden] at isWord
          cases isWord
        · unfold hostPort at isHostPort
          split at isHostPort
          · obtain ⟨port, isPort, scanned⟩ := Option.bind_eq_some_iff.mp isHostPort
            obtain ⟨digits, ended⟩ := scanDecimal_left scanned
            exact ⟨port, isPort, digits, ended.symm⟩
          · cases isHostPort

/-- The branch without a path. -/
theorem fields_path_none_iff {fields : UrlFields} (isFields : parts.fields = some fields) :
    fields.path = none ↔
      parts.hostPortPath = none ∧ parts.hostPath = none ∧ parts.hostPort ≠ none := by
  unfold UrlParts.fields at isFields
  cases first : parts.hostPortPath with
  | some found =>
      rw [first] at isFields
      cases isFields
      simp
  | none =>
      cases second : parts.hostPath with
      | some path =>
          simp only [first, second] at isFields
          cases isFields
          simp
      | none =>
          cases third : parts.hostPort with
          | some found =>
              simp only [first, second, third] at isFields
              cases isFields
              simp
          | none =>
              simp only [first, second, third] at isFields
              split at isFields
              · cases isFields
              · cases isFields
                simp

/-- The branch that writes the slash. -/
theorem fields_slash {fields : UrlFields} (isFields : parts.fields = some fields)
    (first : parts.hostPortPath = none) (second : parts.hostPath = none)
    (third : parts.hostPort = none) : fields.path = some (text "/") := by
  simp only [UrlParts.fields, first, second, third] at isFields
  split at isFields
  · cases isFields
  · cases isFields
    rfl

theorem noPath_hidden (noPath : parts.NoPath) : ¬ parts.PathVisible := by
  intro assumed
  obtain ⟨path, isPath, byte, member, _⟩ := assumed
  rcases noPath with none | empty
  · rw [none] at isPath
    cases isPath
  · rw [empty] at isPath
    cases isPath
    cases member

end UrlParts

theorem requestTarget_text {path : List Byte} (host : List Byte)
    (pathPlain : ∀ byte ∈ path, isSpace byte = false) :
    requestTarget (requestText path host) = some (text "/" ++ path) := by
  have method : text "GET /" = text "GET" ++ 32 :: text "/" := by decide
  have version : text " HTTP/1.0\r\n" = 32 :: text "HTTP/1.0\r\n" := by decide
  have noSpace : 32 ∉ text "/" ++ path := by
    simp only [List.mem_append, not_or]
    exact ⟨by decide, fun member => (visible_bytes (pathPlain 32 member)).2.2 rfl⟩
  have whole : requestText path host = text "GET" ++ 32 :: ((text "/" ++ path) ++
      32 :: (text "HTTP/1.0\r\n" ++ text "Host: " ++ host ++ text "\r\n\r\n")) := by
    simp [requestText, method, version]
  rw [requestTarget, whole, List.splitOn_append_cons_self_of_not_mem (by decide),
    List.splitOn_append_cons_self_of_not_mem noSpace]
  rfl

/-- The slash of the last branch behind the one of the request line. -/
theorem target_of_slash {url : List Byte} (clean : 0 ∉ url) (accepted : ¬ Refused url)
    {fields : UrlFields} (isFields : (urlParts (url.drop 7)).fields = some fields)
    (isSlash : fields.path = some (text "/")) (outputs : UrlOutputs) :
    requestTarget (upstreamRequest (parseURL url outputs).2) = some (text "//") := by
  have wrote := parseURL_writes clean accepted isFields outputs
  obtain ⟨origin, hostClean⟩ := fields_of_url clean isFields
  have isHost := wrote.host.cstr_eq hostClean
  have isPath := (wrote.path _ isSlash).cstr_eq (by decide)
  have slashPlain : ∀ byte ∈ text "/", isSpace byte = false := by
    rw [show text "/" = [47] by decide]
    simp only [List.mem_singleton, forall_eq]
    decide
  rw [upstreamRequest_whole isPath isHost (by decide) origin.hostNarrow.2,
    requestTarget_text fields.host slashPlain]
  rfl

/-- When a path is written, the outputs do not depend on what they held. -/
theorem written_of_path {url : List Byte} (clean : 0 ∉ url) {fields : UrlFields}
    {path : List Byte} (isFields : (urlParts (url.drop 7)).fields = some fields)
    (isPath : fields.path = some path) :
    ∃ host port path, ∀ outputs, (parseURL url outputs).1 = 0 →
      Holds (parseURL url outputs).2.host host ∧ (parseURL url outputs).2.port = port ∧
        Holds (parseURL url outputs).2.path path := by
  refine ⟨fields.host, fields.port, path, ?_⟩
  intro outputs succeeded
  have accepted := (parseURL_fields url clean outputs).1.mp succeeded
  have wrote := parseURL_writes clean accepted isFields outputs
  exact ⟨wrote.host, wrote.port, wrote.path path isPath⟩

theorem definable_of_defines {url : List Byte} (clean : 0 ∉ url) (accepted : ¬ Refused url)
    (defines : DefinesOutputs url) : OutputsDefinable url := by
  obtain ⟨fields, isFields, wrote⟩ := (parseURL_fields url clean ⟨[], 0, []⟩).2 accepted
  have succeeded := (parseURL_fields url clean ⟨[], 0, []⟩).1.mpr accepted
  have hasAuthority : (urlParts (url.drop 7)).authority ≠ [] :=
    fun empty => accepted (Or.inr (Or.inr empty))
  have hasPath : fields.path ≠ none := by
    intro noPath
    obtain ⟨host, port, path, writes⟩ := defines.written
    have holds := (writes ⟨[], 0, []⟩ succeeded).2.2
    rw [wrote.noPath noPath] at holds
    have fits := List.IsPrefix.length_le holds
    simp at fits
  rw [Ne, UrlParts.fields_path_none_iff isFields] at hasPath
  by_cases first : (urlParts (url.drop 7)).hostPortPath = none
  · by_cases second : (urlParts (url.drop 7)).hostPath = none
    · -- the last branch, whose slash is not the target of a URL without a path
      have third : (urlParts (url.drop 7)).hostPort = none := by
        by_contra numbered
        exact hasPath ⟨first, second, numbered⟩
      refine Or.inr (Or.inr ⟨UrlParts.hostPort_none_iff.mp third, ?_⟩)
      intro noPath
      have target := defines.target noPath ⟨[], 0, []⟩ succeeded
      have isSlash := UrlParts.fields_slash isFields first second third
      rw [target_of_slash clean accepted isFields isSlash] at target
      exact absurd target (by decide)
    · rw [UrlParts.hostPath_none_iff hasAuthority, not_not] at second
      exact Or.inr (Or.inl ⟨second.1, Or.inl second.2⟩)
  · rw [UrlParts.hostPortPath_none_iff, not_not] at first
    exact Or.inr (Or.inl ⟨first.1, Or.inr first.2⟩)

theorem defines_of_definable {url : List Byte} (clean : 0 ∉ url) (accepted : ¬ Refused url)
    (definable : OutputsDefinable url) : DefinesOutputs url := by
  obtain ⟨fields, isFields, _⟩ := (parseURL_fields url clean ⟨[], 0, []⟩).2 accepted
  have hasAuthority : (urlParts (url.drop 7)).authority ≠ [] :=
    fun empty => accepted (Or.inr (Or.inr empty))
  have hasPath : fields.path ≠ none := by
    rw [Ne, UrlParts.fields_path_none_iff isFields, UrlParts.hostPortPath_none_iff,
      UrlParts.hostPath_none_iff hasAuthority, Ne, UrlParts.hostPort_none_iff]
    intro assumed
    obtain ⟨first, second, third⟩ := assumed
    rcases definable with refused | ⟨visible, narrow | whole⟩ | ⟨noPort, _⟩
    · exact accepted refused
    · exact second ⟨visible, narrow⟩
    · exact first ⟨visible, whole⟩
    · exact third noPort
  obtain ⟨path, isPath⟩ := Option.ne_none_iff_exists'.mp hasPath
  refine ⟨written_of_path clean isFields isPath, ?_⟩
  intro noPath
  rcases definable with refused | ⟨visible, _⟩ | ⟨_, hasText⟩
  · exact absurd refused accepted
  · exact absurd visible (UrlParts.noPath_hidden noPath)
  · exact absurd noPath hasText

/-- Success defines the outputs exactly on these URLs. -/
theorem definesOutputs_iff (url : Url) :
    DefinesOutputs url.bytes ↔ OutputsDefinable url.bytes := by
  by_cases refused : Refused url.bytes
  · have failed : ∀ outputs, (parseURL url.bytes outputs).1 ≠ 0 :=
      fun outputs succeeded => (parseURL_fields url.bytes url.clean outputs).1.mp succeeded refused
    have vacuous : DefinesOutputs url.bytes :=
      ⟨⟨[], 0, [], fun outputs succeeded => absurd succeeded (failed outputs)⟩,
        fun _ outputs succeeded => absurd succeeded (failed outputs)⟩
    exact ⟨fun _ => Or.inl refused, fun _ => vacuous⟩
  · exact ⟨definable_of_defines url.clean refused, defines_of_definable url.clean refused⟩

/-- A URL with a port and no path: the call succeeds and leaves the path array as it was. -/
theorem parseURL_port_leaves_path :
    ∃ url : Url, url.bytes = text "http://a:80" ∧ ¬ DefinesOutputs url.bytes ∧
      ∀ outputs, (parseURL url.bytes outputs).1 = 0 ∧
        (parseURL url.bytes outputs).2.path = outputs.path := by
  refine ⟨⟨text "http://a:80", by decide, by decide⟩, rfl, ?_⟩
  have clean : 0 ∉ text "http://a:80" := by decide
  have accepted : ¬ Refused (text "http://a:80") := by decide
  have left : ∀ outputs, (parseURL (text "http://a:80") outputs).1 = 0 ∧
      (parseURL (text "http://a:80") outputs).2.path = outputs.path := by
    intro outputs
    have isPortOnly : (urlParts ((text "http://a:80").drop 7)).fields =
        some ⟨text "a", 80, none⟩ := by rfl
    have wrote := parseURL_writes clean accepted isPortOnly outputs
    exact ⟨(parseURL_fields _ clean outputs).1.mpr accepted, wrote.noPath rfl⟩
  refine ⟨?_, left⟩
  intro defines
  obtain ⟨host, port, path, writes⟩ := defines.written
  have holds := (writes ⟨[], 0, []⟩ (left ⟨[], 0, []⟩).1).2.2
  rw [(left ⟨[], 0, []⟩).2] at holds
  have fits := List.IsPrefix.length_le holds
  simp at fits

end OsLabs.Proxy
