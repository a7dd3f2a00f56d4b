import OsLabs.Proxy.ParseURL

/-!
# The parts of a URL

Behind `http://` stands a host up to the first colon or slash, perhaps a colon
and a port text up to the slash, and perhaps a slash and a path.  Each of the
four scan patterns is computed from these parts; `parseURL_fields` says what a
call of `parseURL` returns and what it writes.
-/

set_option autoImplicit false

namespace OsLabs.Proxy

open OsLabs.CString OsLabs.Scanf

structure UrlParts where
  host : List Byte
  port : Option (List Byte)
  path : Option (List Byte)
  hostPlain : ∀ byte ∈ host, byte ∉ text ":/"
  portPlain : ∀ digits ∈ port, 47 ∉ digits

namespace UrlParts

def portPart (parts : UrlParts) : List Byte := parts.port.elim [] (58 :: ·)

def pathPart (parts : UrlParts) : List Byte := parts.path.elim [] (47 :: ·)

/-- Everything in front of the first slash. -/
def authority (parts : UrlParts) : List Byte := parts.host ++ parts.portPart

def bytes (parts : UrlParts) : List Byte := parts.authority ++ parts.pathPart

end UrlParts

/-- The text behind `http://` taken apart. -/
def urlParts (rest : List Byte) : UrlParts where
  host := rest.takeWhile fun byte => !(text ":/").contains byte
  port :=
    match rest.dropWhile fun byte => !(text ":/").contains byte with
    | 58 :: behind => some (behind.takeWhile fun byte => byte != 47)
    | _ => none
  path :=
    match rest.dropWhile fun byte => byte != 47 with
    | [] => none
    | _ :: behind => some behind
  hostPlain := by
    intro byte member
    simpa using List.mem_takeWhile_imp member
  portPlain := by
    intro digits isPort member
    split at isPort
    · rw [← Option.some.inj isPort] at member
      exact absurd (List.mem_takeWhile_imp member) (by decide)
    · cases isPort

theorem urlParts_bytes (rest : List Byte) : (urlParts rest).bytes = rest := by
  have rejoined : rest.takeWhile (fun byte => !(text ":/").contains byte) ++
      rest.dropWhile (fun byte => !(text ":/").contains byte) = rest :=
    List.takeWhile_append_dropWhile
  have noSlash : ∀ byte ∈ rest.takeWhile (fun byte => !(text ":/").contains byte),
      (byte != 47) = true := by
    intro byte member
    have outside := List.mem_takeWhile_imp member
    rw [bne_iff_ne]
    intro same
    subst same
    exact absurd outside (by decide)
  have sameSlash : rest.dropWhile (fun byte => byte != 47) =
      (rest.dropWhile (fun byte => !(text ":/").contains byte)).dropWhile
        (fun byte => byte != 47) := by
    conv_lhs => rw [← rejoined]
    exact List.dropWhile_append_of_pos noSlash
  have stopped : ∀ byte ∈ (rest.dropWhile (fun byte => !(text ":/").contains byte)).head?,
      byte = 58 ∨ byte = 47 := by
    intro byte first
    have excluded := List.head?_dropWhile_not (fun byte => !(text ":/").contains byte) rest
    rw [first] at excluded
    have inSet : byte ∈ text ":/" := by simpa using excluded
    rw [show text ":/" = [58, 47] by decide] at inSet
    simpa using inSet
  simp only [UrlParts.bytes, UrlParts.authority, UrlParts.portPart, UrlParts.pathPart, urlParts,
    sameSlash]
  generalize rest.takeWhile (fun byte => !(text ":/").contains byte) = host at rejoined
  generalize rest.dropWhile (fun byte => !(text ":/").contains byte) = behind at rejoined stopped
  rw [← rejoined, List.append_assoc]
  congr 1
  cases behind with
  | nil => rfl
  | cons byte more =>
      rcases stopped byte rfl with rfl | rfl
      · have joined : more.takeWhile (fun byte => byte != 47) ++
            more.dropWhile (fun byte => byte != 47) = more := List.takeWhile_append_dropWhile
        have atSlash := List.head?_dropWhile_not (fun byte => byte != 47) more
        have skipColon : (58 :: more).dropWhile (fun byte => byte != 47) =
            more.dropWhile (fun byte => byte != 47) := rfl
        rw [skipColon]
        cases tail : more.dropWhile (fun byte => byte != 47) with
        | nil =>
            rw [tail, List.append_nil] at joined
            simp [joined]
        | cons slash path =>
            rw [tail] at joined atSlash
            have isSlash : slash = 47 := by simpa using atSlash
            subst isSlash
            simp [joined]
      · rfl

namespace UrlParts

/-! ## The conversions on the parts -/

def HostFits (parts : UrlParts) : Prop := parts.host ≠ [] ∧ parts.host.length ≤ 255

instance (parts : UrlParts) : Decidable parts.HostFits := inferInstanceAs (Decidable (_ ∧ _))

/-- The number behind `host:`, and what follows it before the slash. -/
def hostPort (parts : UrlParts) : Option (Int × List Byte) :=
  if parts.HostFits then parts.port.bind scanDecimal else none

/-- What `%1023s` takes behind the slash. -/
def pathWord (parts : UrlParts) : Option (List Byte) :=
  parts.path.bind fun path => (scanWord 1023 path).map Prod.fst

/-- The fields of the first pattern. -/
def hostPortPath (parts : UrlParts) : Option (Int × List Byte) :=
  match parts.hostPort with
  | some (port, []) => parts.pathWord.map fun path => (port, path)
  | _ => none

/-- The path of the second pattern; its host is the authority. -/
def hostPath (parts : UrlParts) : Option (List Byte) :=
  if parts.authority ≠ [] ∧ parts.authority.length ≤ 255 then parts.pathWord else none

theorem hostPlain_slash (parts : UrlParts) : ∀ byte ∈ parts.host, byte ≠ 47 := by
  rintro byte member rfl
  exact absurd (by decide : (47 : Byte) ∈ text ":/") (parts.hostPlain 47 member)

theorem authorityPlain (parts : UrlParts) : ∀ byte ∈ parts.authority, byte ∉ text "/" := by
  intro byte member inSet
  rw [show text "/" = [47] by decide, List.mem_singleton] at inSet
  subst inSet
  rcases List.mem_append.mp member with inHost | inPort
  · exact parts.hostPlain_slash 47 inHost rfl
  · unfold portPart at inPort
    cases isPort : parts.port with
    | none => simp [isPort] at inPort
    | some port =>
        rw [isPort] at inPort
        have inText : 47 ∈ port := by simpa using inPort
        exact parts.portPlain port isPort inText

theorem pathPart_head (parts : UrlParts) : ∀ byte ∈ parts.pathPart.head?, byte = 47 := by
  intro byte first
  unfold pathPart at first
  cases isPath : parts.path with
  | none => simp [isPath] at first
  | some path => simpa [isPath, eq_comm] using first

theorem behindHost_head (parts : UrlParts) :
    ∀ byte ∈ (parts.portPart ++ parts.pathPart).head?, byte ∈ text ":/" := by
  intro byte first
  unfold portPart at first
  cases isPort : parts.port with
  | none =>
      rw [isPort] at first
      rw [parts.pathPart_head byte first]
      decide
  | some port =>
      have isColon : byte = 58 := by simpa [isPort, eq_comm] using first
      rw [isColon]
      decide

theorem scanExcluding_host (parts : UrlParts) :
    scanExcluding 255 (text ":/") parts.bytes =
      if parts.host = [] then none
      else some (parts.host.take 255,
        parts.host.drop 255 ++ (parts.portPart ++ parts.pathPart)) := by
  rw [bytes, authority, List.append_assoc]
  exact scanExcluding_append 255 (by decide) _ parts.hostPlain parts.behindHost_head

theorem scanExcluding_authority (parts : UrlParts) :
    scanExcluding 255 (text "/") parts.bytes =
      if parts.authority = [] then none
      else some (parts.authority.take 255, parts.authority.drop 255 ++ parts.pathPart) := by
  have stops : ∀ byte ∈ parts.pathPart.head?, byte ∈ text "/" := by
    intro byte first
    rw [parts.pathPart_head byte first]
    decide
  exact scanExcluding_append 255 (by decide) _ parts.authorityPlain stops

theorem scanDecimal_port (parts : UrlParts) (port : List Byte) :
    scanDecimal (port ++ parts.pathPart) =
      (scanDecimal port).map fun (value, left) => (value, left ++ parts.pathPart) := by
  apply scanDecimal_append
  intro byte first
  rw [parts.pathPart_head byte first]
  exact endsNumber_slash

/-! ## The patterns on the parts -/

/-- A literal that must be the slash in front of the path. -/
theorem scan_slash_word (parts : UrlParts) :
    scan [.literal 47, .word 1023] parts.pathPart =
      parts.pathWord.toList.map Field.string := by
  unfold pathPart pathWord
  cases parts.path with
  | none => rfl
  | some path =>
      have atSlash : scan [.literal 47, .word 1023] (47 :: path) = scan [.word 1023] path :=
        scan_literal 47 [.word 1023] path
      rw [Option.elim_some, atSlash, Option.bind_some]
      cases scanned : scanWord 1023 path with
      | none => simp [scan, Directive.step, scanned]
      | some word => simp [scan, Directive.step, scanned]

theorem scan_slash_word_behind (parts : UrlParts) (left : List Byte) (noSlash : 47 ∉ left)
    (more : left ≠ []) : scan [.literal 47, .word 1023] (left ++ parts.pathPart) = [] := by
  cases left with
  | nil => exact absurd rfl more
  | cons byte rest =>
      have other : byte ≠ 47 := by
        intro same
        subst same
        exact noSlash (List.mem_cons_self ..)
      exact scan_literal_other 47 byte [.word 1023] (rest ++ parts.pathPart) other

/-- `%255[^:/]:%d` in front of the rest of a format. -/
theorem scan_hostPort (parts : UrlParts) (format : List Directive) {port : Int}
    {left : List Byte} (isPort : parts.hostPort = some (port, left)) :
    scan (.excluding 255 (text ":/") :: .literal 58 :: .decimal :: format) parts.bytes =
      .string parts.host :: .number port :: scan format (left ++ parts.pathPart) := by
  unfold hostPort at isPort
  split at isPort
  · rename_i fits
    obtain ⟨digits, hasPort, scanned⟩ := Option.bind_eq_some_iff.mp isPort
    have host : scanExcluding 255 (text ":/") parts.bytes =
        some (parts.host, 58 :: (digits ++ parts.pathPart)) := by
      have isColon : parts.portPart = 58 :: digits := by simp [portPart, hasPort]
      rw [scanExcluding_host, if_neg fits.1, List.take_of_length_le fits.2,
        List.drop_eq_nil_of_le fits.2, isColon]
      rfl
    have number : scanDecimal (digits ++ parts.pathPart) = some (port, left ++ parts.pathPart) := by
      rw [scanDecimal_port, scanned]
      rfl
    simp [scan, Directive.step, host, number]
  · cases isPort

/-- Without a number behind `host:` at most a host is assigned. -/
theorem scan_noPort (parts : UrlParts) (format : List Directive)
    (noPort : parts.hostPort = none) :
    ∃ front : Option (List Byte),
      scan (.excluding 255 (text ":/") :: .literal 58 :: .decimal :: format) parts.bytes =
        front.toList.map Field.string := by
  unfold hostPort at noPort
  by_cases empty : parts.host = []
  · have nothing : scanExcluding 255 (text ":/") parts.bytes = none := by
      rw [scanExcluding_host, if_pos empty]
    exact ⟨none, by simp [scan, Directive.step, nothing]⟩
  refine ⟨some (parts.host.take 255), ?_⟩
  have host : scanExcluding 255 (text ":/") parts.bytes = some (parts.host.take 255,
      parts.host.drop 255 ++ (parts.portPart ++ parts.pathPart)) := by
    rw [scanExcluding_host, if_neg empty]
  suffices stops : scan (.literal 58 :: .decimal :: format)
      (parts.host.drop 255 ++ (parts.portPart ++ parts.pathPart)) = [] by
    rw [scan, Directive.step, host, Option.map_some]
    simp [stops]
  by_cases narrow : parts.host.length ≤ 255
  · rw [if_pos ⟨empty, narrow⟩] at noPort
    rw [List.drop_eq_nil_of_le narrow, List.nil_append]
    cases hasPort : parts.port with
    | none =>
        have noColon : parts.portPart = [] := by simp [portPart, hasPort]
        rw [noColon, List.nil_append]
        cases behind : parts.pathPart with
        | nil => rfl
        | cons byte rest =>
            have isSlash := parts.pathPart_head byte (by rw [behind]; rfl)
            exact scan_literal_other 58 byte _ rest (by rw [isSlash]; decide)
    | some digits =>
        have isColon : parts.portPart = 58 :: digits := by simp [portPart, hasPort]
        rw [hasPort, Option.bind_some] at noPort
        have noNumber : scanDecimal (digits ++ parts.pathPart) = none := by
          rw [scanDecimal_port, noPort]
          rfl
        rw [isColon, List.cons_append, scan_literal]
        simp [scan, Directive.step, noNumber]
  · -- the width ends the host, and a byte of the host stands in place of the colon
    cases more : parts.host.drop 255 with
    | nil => exact absurd (List.drop_eq_nil_iff.mp more) narrow
    | cons byte rest =>
        have inHost : byte ∈ parts.host := List.mem_of_mem_drop (by rw [more]; simp)
        have notColon : byte ≠ 58 := by
          intro same
          subst same
          exact absurd (by decide : (58 : Byte) ∈ text ":/") (parts.hostPlain 58 inHost)
        exact scan_literal_other 58 byte _ _ notColon

theorem hostPort_left {parts : UrlParts} {port : Int} {left : List Byte}
    (isPort : parts.hostPort = some (port, left)) : 47 ∉ left := by
  unfold hostPort at isPort
  split at isPort
  · obtain ⟨digits, hasPort, scanned⟩ := Option.bind_eq_some_iff.mp isPort
    intro member
    refine parts.portPlain digits hasPort ?_
    simp only [scanDecimal] at scanned
    split at scanned
    · cases scanned
    · rw [Option.some.injEq, Prod.mk.injEq] at scanned
      rw [← scanned.2] at member
      have unsigned : ∀ input : List Byte, (splitSign input).2 <:+ input := by
        intro input
        unfold splitSign
        split
        · exact List.suffix_cons ..
        · exact List.suffix_cons ..
        · exact List.suffix_rfl
      exact (List.dropWhile_suffix _).mem
        ((unsigned _).mem ((List.dropWhile_suffix _).mem member))
  · cases isPort

theorem scan_portAndPath_eq (parts : UrlParts) {port : Int} {left : List Byte}
    (isPort : parts.hostPort = some (port, left)) :
    scan portAndPath (text "http://" ++ parts.bytes) =
      .string parts.host :: .number port ::
        (if left = [] then parts.pathWord.toList else []).map Field.string := by
  have scheme : scan portAndPath (text "http://" ++ parts.bytes) =
      scan (.excluding 255 (text ":/") :: .literal 58 :: .decimal :: [.literal 47, .word 1023])
        parts.bytes := scan_literals (text "http://") _ _
  rw [scheme, scan_hostPort parts _ isPort]
  by_cases ended : left = []
  · rw [ended, List.nil_append, if_pos rfl, scan_slash_word]
  · rw [scan_slash_word_behind parts left (hostPort_left isPort) ended, if_neg ended]
    rfl

theorem scan_portAndPath_none (parts : UrlParts) (noPort : parts.hostPort = none) :
    ∃ front : Option (List Byte),
      scan portAndPath (text "http://" ++ parts.bytes) = front.toList.map Field.string := by
  have scheme : scan portAndPath (text "http://" ++ parts.bytes) =
      scan (.excluding 255 (text ":/") :: .literal 58 :: .decimal :: [.literal 47, .word 1023])
        parts.bytes := scan_literals (text "http://") _ _
  rw [scheme]
  exact scan_noPort parts _ noPort

theorem scan_portOnly_eq (parts : UrlParts) {port : Int} {left : List Byte}
    (isPort : parts.hostPort = some (port, left)) :
    scan portOnly (text "http://" ++ parts.bytes) = [.string parts.host, .number port] := by
  have scheme : scan portOnly (text "http://" ++ parts.bytes) =
      scan (.excluding 255 (text ":/") :: .literal 58 :: .decimal :: []) parts.bytes :=
    scan_literals (text "http://") _ _
  rw [scheme, scan_hostPort parts _ isPort]
  rfl

theorem scan_portOnly_none (parts : UrlParts) (noPort : parts.hostPort = none) :
    ∃ front : Option (List Byte),
      scan portOnly (text "http://" ++ parts.bytes) = front.toList.map Field.string := by
  have scheme : scan portOnly (text "http://" ++ parts.bytes) =
      scan (.excluding 255 (text ":/") :: .literal 58 :: .decimal :: []) parts.bytes :=
    scan_literals (text "http://") _ _
  rw [scheme]
  exact scan_noPort parts _ noPort

theorem scan_hostOnly_eq (parts : UrlParts) :
    scan hostOnly (text "http://" ++ parts.bytes) =
      if parts.authority = [] then [] else [.string (parts.authority.take 255)] := by
  have scheme : scan hostOnly (text "http://" ++ parts.bytes) =
      scan [.excluding 255 (text "/")] parts.bytes := scan_literals (text "http://") _ _
  rw [scheme, scan, Directive.step, scanExcluding_authority]
  by_cases empty : parts.authority = []
  · rw [if_pos empty, if_pos empty]
    rfl
  · rw [if_neg empty, if_neg empty]
    rfl

/-- The second pattern gets to its path iff the authority is not cut by the width. -/
theorem scan_pathOnly_eq (parts : UrlParts) :
    scan pathOnly (text "http://" ++ parts.bytes) =
      if parts.authority = [] then []
      else .string (parts.authority.take 255) :: parts.hostPath.toList.map Field.string := by
  have scheme : scan pathOnly (text "http://" ++ parts.bytes) =
      scan (.excluding 255 (text "/") :: [.literal 47, .word 1023]) parts.bytes :=
    scan_literals (text "http://") _ _
  rw [scheme, scan, Directive.step, scanExcluding_authority]
  by_cases empty : parts.authority = []
  · rw [if_pos empty, if_pos empty]
    rfl
  rw [if_neg empty, if_neg empty]
  by_cases narrow : parts.authority.length ≤ 255
  · have behind := parts.scan_slash_word
    simp [hostPath, empty, narrow, List.drop_eq_nil_of_le narrow, behind]
  · cases more : parts.authority.drop 255 with
    | nil => exact absurd (List.drop_eq_nil_iff.mp more) narrow
    | cons byte rest =>
        have inAuthority : byte ∈ parts.authority := List.mem_of_mem_drop (by rw [more]; simp)
        have notSlash : byte ≠ 47 := by
          intro same
          subst same
          exact parts.authorityPlain 47 inAuthority (by decide)
        have stops := scan_literal_other 47 byte [.word 1023] (rest ++ parts.pathPart) notSlash
        simp [hostPath, narrow, stops]

end UrlParts

/-! ## What a call returns and writes -/

/-- What an accepted URL stands for; without a path the array is not written. -/
structure UrlFields where
  host : List Byte
  port : Int
  path : Option (List Byte)

/-- The array starts with this string and its NUL. -/
def Holds (memory bytes : List Byte) : Prop := bytes ++ [0] <+: memory

structure UrlFields.WrittenTo (fields : UrlFields) (before after : UrlOutputs) : Prop where
  host : Holds after.host fields.host
  port : after.port = fields.port
  path : ∀ path ∈ fields.path, Holds after.path path
  noPath : fields.path = none → after.path = before.path

/-- The first of the four patterns that matches. -/
def UrlParts.fields (parts : UrlParts) : Option UrlFields :=
  match parts.hostPortPath with
  | some (port, path) => some ⟨parts.host, port, some path⟩
  | none =>
      match parts.hostPath with
      | some path => some ⟨parts.authority, (parts.hostPort.map Prod.fst).getD httpPort, some path⟩
      | none =>
          match parts.hostPort with
          | some (port, _) => some ⟨parts.host, port, none⟩
          | none =>
              if parts.authority = [] then none
              else some ⟨parts.authority.take 255, httpPort, some (text "/")⟩

/-- An @, another scheme, or nothing in front of the first slash. -/
def Refused (url : List Byte) : Prop :=
  64 ∈ url ∨ ¬ text "http://" <+: url ∨ (urlParts (url.drop 7)).authority = []

instance (url : List Byte) : Decidable (Refused url) := inferInstanceAs (Decidable (_ ∨ _ ∨ _))

theorem holds_storeString (memory bytes : List Byte) : Holds (storeString memory bytes) bytes := by
  simp [Holds, storeString, writeAt]

theorem Holds.cstr_eq {memory bytes : List Byte} (holds : Holds memory bytes)
    (clean : 0 ∉ bytes) : cstr memory = bytes := by
  obtain ⟨beyond, rfl⟩ := holds
  rw [List.append_assoc]
  exact cstr_terminated bytes beyond clean

section Fields

variable (parts : UrlParts) (outputs : UrlOutputs)

/-- Assigning at most a host changes neither the port nor the path. -/
theorem assign_front (front : Option (List Byte)) (arguments : List UrlOutput) :
    ∃ memory, (((.host :: arguments).zip (front.toList.map Field.string)).foldl
      UrlOutputs.assign outputs) = { outputs with host := memory } := by
  cases front with
  | none => exact ⟨outputs.host, rfl⟩
  | some host => exact ⟨storeString outputs.host host, by simp [UrlOutputs.assign]⟩

/-- The first pattern with a number behind the host, up to the second one. -/
theorem parseURL_numbered {port : Int} {left : List Byte}
    (clean : 0 ∉ text "http://" ++ parts.bytes) (noAt : 64 ∉ text "http://" ++ parts.bytes)
    (isPort : parts.hostPort = some (port, left)) :
    (parseURL (text "http://" ++ parts.bytes) outputs).1 = 0 ∧
      ∀ fields ∈ parts.fields,
        fields.WrittenTo outputs (parseURL (text "http://" ++ parts.bytes) outputs).2 := by
  have hasHost : parts.HostFits := by
    unfold UrlParts.hostPort at isPort
    split at isPort
    · assumption
    · cases isPort
  have hasAuthority : parts.authority ≠ [] := by
    intro empty
    exact hasHost.1 (List.append_eq_nil_iff.mp empty).1
  have first := parts.scan_portAndPath_eq isPort
  have second := parts.scan_pathOnly_eq
  have third := parts.scan_portOnly_eq isPort
  rw [if_neg hasAuthority] at second
  cases word : (if left = [] then parts.pathWord.toList else []) with
  | cons path more =>
      have ended : left = [] := by
        by_contra unfinished
        rw [if_neg unfinished] at word
        cases word
      have isPath : parts.pathWord = some path ∧ more = [] := by
        rw [if_pos ended] at word
        cases isWord : parts.pathWord with
        | none => simp [isWord] at word
        | some other => simpa [isWord, eq_comm] using word
      have all : parts.hostPortPath = some (port, path) := by
        simp [UrlParts.hostPortPath, isPort, ended, isPath.1]
      rw [word, isPath.2] at first
      simp only [parseURL, UrlOutputs.sscanf, cstr_of_no_nul _ clean, if_neg noAt, first,
        UrlParts.fields, all]
      refine ⟨rfl, ?_⟩
      rintro fields ⟨⟩
      exact ⟨holds_storeString _ _, rfl, by rintro _ ⟨⟩; exact holds_storeString _ _, by rintro ⟨⟩⟩
  | nil =>
      have noPath : parts.hostPortPath = none := by
        by_cases ended : left = []
        · rw [if_pos ended, Option.toList_eq_nil_iff] at word
          simp [UrlParts.hostPortPath, isPort, ended, word]
        · unfold UrlParts.hostPortPath
          rw [isPort]
          cases left with
          | nil => exact absurd rfl ended
          | cons byte rest => rfl
      rw [word] at first
      cases isPath : parts.hostPath with
      | some path =>
          have narrow : parts.authority.take 255 = parts.authority := by
            unfold UrlParts.hostPath at isPath
            split at isPath
            · rename_i fits
              exact List.take_of_length_le fits.2
            · cases isPath
          rw [isPath, narrow] at second
          simp only [parseURL, UrlOutputs.sscanf, cstr_of_no_nul _ clean, if_neg noAt, first,
            second, UrlParts.fields, noPath, isPath, isPort]
          refine ⟨rfl, ?_⟩
          rintro fields ⟨⟩
          exact ⟨holds_storeString _ _, rfl, by rintro _ ⟨⟩; exact holds_storeString _ _,
            by rintro ⟨⟩⟩
      | none =>
          rw [isPath] at second
          simp only [parseURL, UrlOutputs.sscanf, cstr_of_no_nul _ clean, if_neg noAt, first,
            second, third, UrlParts.fields, noPath, isPath, isPort]
          refine ⟨rfl, ?_⟩
          rintro fields ⟨⟩
          exact ⟨holds_storeString _ _, rfl, by rintro _ ⟨⟩, fun _ => rfl⟩

/-- Without such a number the first and the third pattern assign at most a host. -/
theorem parseURL_plain (clean : 0 ∉ text "http://" ++ parts.bytes)
    (noAt : 64 ∉ text "http://" ++ parts.bytes) (noPort : parts.hostPort = none) :
    ((parseURL (text "http://" ++ parts.bytes) outputs).1 =
        if parts.authority = [] then -1 else 0) ∧
      ∀ fields ∈ parts.fields,
        fields.WrittenTo outputs (parseURL (text "http://" ++ parts.bytes) outputs).2 := by
  have noPath : parts.hostPortPath = none := by simp [UrlParts.hostPortPath, noPort]
  obtain ⟨firstHost, first⟩ := parts.scan_portAndPath_none noPort
  obtain ⟨thirdHost, third⟩ := parts.scan_portOnly_none noPort
  have second := parts.scan_pathOnly_eq
  have fourth := parts.scan_hostOnly_eq
  have few : ∀ front : Option (List Byte),
      ((front.toList.map Field.string).length = 3 ↔ False) ∧
        ((front.toList.map Field.string).length = 2 ↔ False) := by
    intro front
    cases front <;> simp
  obtain ⟨memory, afterFirst⟩ := assign_front { outputs with port := httpPort } firstHost
    [.port, .path]
  by_cases empty : parts.authority = []
  · obtain ⟨later, afterThird⟩ := assign_front { outputs with host := memory, port := httpPort }
      thirdHost [.port]
    have noHostPath : parts.hostPath = none := by simp [UrlParts.hostPath, empty]
    rw [if_pos empty] at second fourth
    simp only [parseURL, UrlOutputs.sscanf, cstr_of_no_nul _ clean, if_neg noAt, first, second,
      third, fourth, afterFirst, few, if_false, List.length_nil, List.zip_nil_right,
      List.foldl_nil, UrlParts.fields, noPath, noHostPath, noPort, empty, if_true]
    simp
  · rw [if_neg empty] at second fourth
    rw [if_neg empty]
    cases isPath : parts.hostPath with
    | some path =>
        have narrow : parts.authority.take 255 = parts.authority := by
          unfold UrlParts.hostPath at isPath
          split at isPath
          · rename_i fits
            exact List.take_of_length_le fits.2
          · cases isPath
        rw [isPath, narrow] at second
        simp only [parseURL, UrlOutputs.sscanf, cstr_of_no_nul _ clean, if_neg noAt, first,
          second, afterFirst, few, if_false, UrlParts.fields, noPath, isPath, noPort]
        refine ⟨rfl, ?_⟩
        rintro fields ⟨⟩
        exact ⟨holds_storeString _ _, rfl, by rintro _ ⟨⟩; exact holds_storeString _ _,
          by rintro ⟨⟩⟩
    | none =>
        rw [isPath] at second
        obtain ⟨later, afterThird⟩ := assign_front
          { outputs with host := storeString memory (parts.authority.take 255), port := httpPort }
          thirdHost [.port]
        simp only [parseURL, UrlOutputs.sscanf, cstr_of_no_nul _ clean, if_neg noAt, first,
          second, third, fourth, afterFirst, few, if_false, UrlParts.fields, noPath, isPath, noPort,
          empty]
        refine ⟨rfl, ?_⟩
        rintro fields ⟨⟩
        simp only [Option.toList_none, List.map_nil, List.zip_cons_cons, List.zip_nil_right,
          List.foldl_cons, List.foldl_nil, UrlOutputs.assign, afterThird]
        exact ⟨holds_storeString _ _, rfl, by rintro _ ⟨⟩; exact holds_storeString _ _,
          by rintro ⟨⟩⟩

end Fields

theorem UrlParts.hostPort_authority {parts : UrlParts} {port : Int} {left : List Byte}
    (isPort : parts.hostPort = some (port, left)) : parts.HostFits ∧ parts.authority ≠ [] := by
  unfold UrlParts.hostPort at isPort
  split at isPort
  · rename_i fits
    refine ⟨fits, ?_⟩
    intro empty
    exact fits.1 (List.append_eq_nil_iff.mp empty).1
  · cases isPort

theorem UrlParts.exists_fields {parts : UrlParts} (hasAuthority : parts.authority ≠ []) :
    ∃ fields, parts.fields = some fields := by
  unfold UrlParts.fields
  cases parts.hostPortPath with
  | some found => exact ⟨_, rfl⟩
  | none =>
      cases parts.hostPath with
      | some path => exact ⟨_, rfl⟩
      | none =>
          cases parts.hostPort with
          | some found => exact ⟨_, rfl⟩
          | none => exact ⟨_, if_neg hasAuthority⟩

/-- No pattern matches behind another scheme. -/
theorem parseURL_otherScheme (url : List Byte) (clean : 0 ∉ url)
    (other : ¬ text "http://" <+: url) (outputs : UrlOutputs) :
    (parseURL url outputs).1 = -1 := by
  have first : scan portAndPath url = [] := scan_literals_other (text "http://") _ url other
  have second : scan pathOnly url = [] := scan_literals_other (text "http://") _ url other
  have third : scan portOnly url = [] := scan_literals_other (text "http://") _ url other
  have fourth : scan hostOnly url = [] := scan_literals_other (text "http://") _ url other
  simp only [parseURL, UrlOutputs.sscanf, cstr_of_no_nul url clean, first, second, third, fourth]
  split <;> rfl

theorem parseURL_fields (url : List Byte) (clean : 0 ∉ url) (outputs : UrlOutputs) :
    ((parseURL url outputs).1 = 0 ↔ ¬ Refused url) ∧
      (¬ Refused url → ∃ fields, (urlParts (url.drop 7)).fields = some fields ∧
        fields.WrittenTo outputs (parseURL url outputs).2) := by
  by_cases hasAt : 64 ∈ url
  · have returned : (parseURL url outputs).1 = -1 := by
      simp only [parseURL, cstr_of_no_nul url clean, if_pos hasAt]
    have refused : Refused url := Or.inl hasAt
    simp [returned, refused]
  by_cases scheme : text "http://" <+: url
  · obtain ⟨rest, split⟩ := scheme
    have behind : url.drop 7 = rest := by
      rw [← split]
      exact List.drop_left' rfl
    have whole : text "http://" ++ (urlParts rest).bytes = url := by rw [urlParts_bytes, split]
    rw [← whole] at clean hasAt
    have accepted : (parseURL url outputs).1 =
          (if (urlParts rest).authority = [] then -1 else 0) ∧
        ∀ fields ∈ (urlParts rest).fields,
          fields.WrittenTo outputs (parseURL url outputs).2 := by
      cases isPort : (urlParts rest).hostPort with
      | some found =>
          have numbered := parseURL_numbered (urlParts rest) outputs clean hasAt isPort
          rw [whole] at numbered
          rw [if_neg (UrlParts.hostPort_authority isPort).2]
          exact numbered
      | none =>
          have plain := parseURL_plain (urlParts rest) outputs clean hasAt isPort
          rwa [whole] at plain
    rw [whole] at hasAt
    have refused : Refused url ↔ (urlParts rest).authority = [] := by
      rw [Refused, behind, or_iff_right hasAt, or_iff_right (not_not.mpr ⟨rest, split⟩)]
    rw [refused, behind]
    refine ⟨?_, ?_⟩
    · rw [accepted.1]
      split <;> simp_all
    · intro hasAuthority
      obtain ⟨fields, found⟩ := UrlParts.exists_fields hasAuthority
      exact ⟨fields, found, accepted.2 fields found⟩
  · have refused : Refused url := Or.inr (Or.inl scheme)
    simp [parseURL_otherScheme url clean scheme outputs, refused]

/-- The call writes the fields, whatever the outputs held. -/
theorem parseURL_writes {url : List Byte} (clean : 0 ∉ url) (accepted : ¬ Refused url)
    {fields : UrlFields} (isFields : (urlParts (url.drop 7)).fields = some fields)
    (outputs : UrlOutputs) : fields.WrittenTo outputs (parseURL url outputs).2 := by
  obtain ⟨same, found, wrote⟩ := (parseURL_fields url clean outputs).2 accepted
  rw [isFields, Option.some.injEq] at found
  subst found
  exact wrote

end OsLabs.Proxy
