import OsLabs.FileTool.ModeStrings

/-!
# What permission strings mean

The strings of `ls`: a type and nine places, each with a dash or its own letter.
`permissionStrings_iff` says which modes `get_mode_from_str` recovers from what
`get_str_mode` has written, and which strings it reads with their meaning.
Both take permissions that are the same for user, group and others.
-/

set_option autoImplicit false

namespace OsLabs.FileTool

open OsLabs.Blocks

def typeSymbols : List UInt8 := [dash, letterD, letterL]

/-- A type and nine places, each with a dash or its own letter. -/
structure WellFormed (str : List UInt8) : Prop where
  size : str.length = 10
  typed : str.getD 0 0 ∈ typeSymbols
  placed : ∀ bit < 9, str.getD (place bit) 0 = dash ∨ str.getD (place bit) 0 = letter bit

/-- The mode has exactly the permissions whose letters are present. -/
def Means (str : List UInt8) (mode : Nat) : Prop :=
  ∀ bit, mode.testBit bit = true ↔ bit < 9 ∧ str.getD (place bit) 0 = letter bit

/-- What is written for this mode is read back as its nine permission bits. -/
def RoundTrips (mode : Nat) (buffer : Buffer) : Prop :=
  getModeFromStr 0 (getStrMode mode buffer.bytes) = .ok (mode &&& 0o777)

/-- The string is accepted when it is a permission string, and then with its
meaning. -/
def ReadAsMeant (str : CStr) : Prop :=
  ((∃ mode, getModeFromStr 0 str.bytes = .ok mode) ↔ WellFormed str.bytes) ∧
    ∀ mode, getModeFromStr 0 str.bytes = .ok mode → Means str.bytes mode

/-- The permissions do not tell user, group and others apart. -/
def SameForAll (mode : Nat) : Prop := ∀ bit < 9, mode.testBit bit = mode.testBit (bit % 3)

/-- The same of the letters of a string. -/
def SameLetters (str : List UInt8) : Prop :=
  ∀ bit < 9, str.getD (place bit) 0 = letter bit ↔ str.getD (place (bit % 3)) 0 = letter bit

/-- The last place does no harm: it has been written, or it held a dash, or the
letter of a permission that is given anyway. -/
def LastHarmless (mode : Nat) (previous : UInt8) : Prop :=
  mode.testBit 0 = true ∨ previous = dash ∨
    ∃ bit < 9, mode.testBit bit = true ∧ previous = letter bit

/-! ## Permissions that are the same for all -/

theorem shared_iff (P : Nat → Prop) :
    (∀ bit < 9, P bit ↔ P (bit % 3)) ↔
      ∀ bit < 9, ∀ other < 9, letter bit = letter other → P bit → P other := by
  constructor
  · intro same bit small other otherSmall sameLetter holds
    have shared := (same bit small).mp holds
    rw [(letter_eq_iff bit other).mp sameLetter] at shared
    exact (same other otherSmall).mpr shared
  · intro shared bit small
    have kindSmall : bit % 3 < 9 := by omega
    have sameLetter := letter_kind bit
    exact ⟨shared bit small _ kindSmall sameLetter.symm, shared _ kindSmall bit small sameLetter⟩

theorem sameForAll_iff (mode : Nat) :
    SameForAll mode ↔ ∀ bit < 9, ∀ other < 9, letter bit = letter other →
      mode.testBit bit = true → mode.testBit other = true := by
  rw [← shared_iff fun bit => mode.testBit bit = true]
  exact forall₂_congr fun bit _ => Bool.eq_iff_iff

theorem sameLetters_iff (str : List UInt8) :
    SameLetters str ↔ ∀ bit < 9, ∀ other < 9, letter bit = letter other →
      str.getD (place bit) 0 = letter bit → str.getD (place other) 0 = letter other := by
  have shared := shared_iff fun bit => str.getD (place bit) 0 = letter bit
  simp only [letter_kind] at shared
  exact shared

/-! ## Modes that are read back -/

theorem typeSymbol_known_iff (mode : Nat) :
    Known (typeSymbol mode) ↔ sIsdir mode = false ∧ sIslnk mode = false := by
  unfold typeSymbol
  split_ifs with isDir isLink
  · simp [unknown_symbols.1, isDir]
  · simp [unknown_symbols.2.1, isLink]
  · have known : Known dash := Or.inr (Or.inr (Or.inr rfl))
    simp [known, isDir, isLink]

theorem and_permissions_testBit (mode bit : Nat) :
    (mode &&& 0o777).testBit bit = true ↔ bit < 9 ∧ mode.testBit bit = true := by
  have mask : (0o777 : Nat) = 2 ^ 9 - 1 := rfl
  rw [mask, Nat.testBit_and, Nat.testBit_two_pow_sub_one, Bool.and_eq_true, decide_eq_true_eq,
    and_comm]

/-- A mode is read back exactly when every letter the reader finds is given to
all three classes, and it knows every symbol. -/
theorem roundTrips_iff_found (mode : Nat) (buffer : Buffer) :
    RoundTrips mode buffer ↔ Readable (getStrMode mode buffer.bytes) ∧
      ∀ bit < 9, mode.testBit bit = true ↔
        ∃ i < 10, (getStrMode mode buffer.bytes).getD i 0 = letter bit := by
  rw [RoundTrips, getModeFromStr_ok_iff]
  refine and_congr_right fun _ => ?_
  constructor
  · intro found bit small
    have here := found bit
    rw [and_permissions_testBit] at here
    simpa [small] using here
  · intro found bit
    rw [and_permissions_testBit]
    exact and_congr_right (found bit)

/-- Of a plain file the reader knows every symbol, that of the last place
apart. -/
theorem readable_written_iff (mode : Nat) (buffer : Buffer) :
    Readable (getStrMode mode buffer.bytes) ↔
      (sIsdir mode = false ∧ sIslnk mode = false) ∧
        (mode.testBit 0 = true ∨ Known (buffer.bytes.getD 9 0)) := by
  have dashKnown : Known dash := Or.inr (Or.inr (Or.inr rfl))
  rw [Readable, forall_places, getStrMode_first, typeSymbol_known_iff]
  refine and_congr_right fun _ => ?_
  constructor
  · intro known
    have last := known 0 (by omega)
    rw [getStrMode_place mode 0 buffer (by omega)] at last
    by_cases isSet : mode.testBit 0 = true
    · exact Or.inl isSet
    · rw [if_neg isSet, if_pos rfl] at last
      exact Or.inr last
  · intro last bit small
    rw [getStrMode_place mode bit buffer small]
    split_ifs with isSet isLast
    · exact letter_known bit
    · subst isLast
      exact last.resolve_left isSet
    · exact dashKnown

/-- Where the letters that the reader finds come from. -/
theorem letter_written_iff (mode bit : Nat) (buffer : Buffer)
    (plain : sIsdir mode = false ∧ sIslnk mode = false) :
    (∃ i < 10, (getStrMode mode buffer.bytes).getD i 0 = letter bit) ↔
      (∃ other < 9, mode.testBit other = true ∧ letter other = letter bit) ∨
        mode.testBit 0 = false ∧ buffer.bytes.getD 9 0 = letter bit := by
  have notFirst : (getStrMode mode buffer.bytes).getD 0 0 ≠ letter bit := by
    rw [getStrMode_first]
    simp [typeSymbol, plain, (letter_ne_dash bit).symm]
  rw [exists_places, or_iff_right notFirst]
  constructor
  · intro found
    obtain ⟨other, small, here⟩ := found
    rw [getStrMode_place mode other buffer small] at here
    split_ifs at here with isSet isLast
    · exact Or.inl ⟨other, small, isSet, here⟩
    · subst isLast
      exact Or.inr ⟨by simpa using isSet, here⟩
    · exact absurd here.symm (letter_ne_dash bit)
  · intro found
    rcases found with found | last
    · obtain ⟨other, small, isSet, here⟩ := found
      exact ⟨other, small, by rwa [getStrMode_place mode other buffer small, if_pos isSet]⟩
    · refine ⟨0, by omega, ?_⟩
      rw [getStrMode_place mode 0 buffer (by omega)]
      simpa [last.1] using last.2

theorem known_of_harmless {mode : Nat} {last : UInt8} (harmless : LastHarmless mode last) :
    mode.testBit 0 = true ∨ Known last := by
  rcases harmless with isSet | isDash | isLetter
  · exact Or.inl isSet
  · exact Or.inr (Or.inr (Or.inr (Or.inr isDash)))
  · obtain ⟨bit, _, _, isLetter⟩ := isLetter
    exact Or.inr (isLetter ▸ letter_known bit)

/-- A last symbol that is known does no harm when its permission is given. -/
theorem harmless_of_known {mode : Nat} {last : UInt8}
    (known : mode.testBit 0 = true ∨ Known last)
    (given : mode.testBit 0 = false → ∀ bit < 9, last = letter bit → mode.testBit bit = true) :
    LastHarmless mode last := by
  by_cases isSet : mode.testBit 0 = true
  · exact Or.inl isSet
  · have isClear : mode.testBit 0 = false := by simpa using isSet
    have ofLetter : ∀ bit < 9, last = letter bit → LastHarmless mode last := by
      intro bit small here
      exact Or.inr (Or.inr ⟨bit, small, given isClear bit small here, here⟩)
    rcases known.resolve_left isSet with isR | isW | isX | isDash
    · exact ofLetter 2 (by omega) isR
    · exact ofLetter 1 (by omega) isW
    · exact ofLetter 0 (by omega) isX
    · exact Or.inr (Or.inl isDash)

/-- The letter of an unwritten last place is that of a permission given. -/
theorem LastHarmless.gives {mode : Nat} {last : UInt8} (harmless : LastHarmless mode last)
    (isClear : mode.testBit 0 = false) {bit : Nat} (here : last = letter bit) :
    ∃ other < 9, mode.testBit other = true ∧ letter other = letter bit := by
  rcases harmless with isSet | isDash | isLetter
  · rw [isSet] at isClear
    cases isClear
  · exact absurd (here.symm.trans isDash) (letter_ne_dash bit)
  · obtain ⟨other, small, isSet, isLetter⟩ := isLetter
    exact ⟨other, small, isSet, isLetter.symm.trans here⟩

/-- Exactly these modes are read back from what is written over this buffer. -/
theorem roundTrips_iff (mode : Nat) (buffer : Buffer) :
    RoundTrips mode buffer ↔
      (sIsdir mode = false ∧ sIslnk mode = false) ∧ SameForAll mode ∧
        LastHarmless mode (buffer.bytes.getD 9 0) := by
  rw [roundTrips_iff_found, readable_written_iff, and_assoc]
  refine and_congr_right fun plain => ?_
  simp only [letter_written_iff mode _ buffer plain]
  rw [sameForAll_iff]
  generalize buffer.bytes.getD 9 0 = last
  constructor
  · intro assumed
    obtain ⟨known, found⟩ := assumed
    refine ⟨?_, ?_⟩
    · intro bit small other otherSmall sameLetter isSet
      exact (found other otherSmall).mpr (Or.inl ⟨bit, small, isSet, sameLetter⟩)
    · apply harmless_of_known known
      intro isClear bit small here
      exact (found bit small).mpr (Or.inr ⟨isClear, here⟩)
  · intro assumed
    obtain ⟨shared, harmless⟩ := assumed
    refine ⟨known_of_harmless harmless, ?_⟩
    intro bit small
    constructor
    · intro isSet
      exact Or.inl ⟨bit, small, isSet, rfl⟩
    · intro found
      have elsewhere : ∃ other < 9, mode.testBit other = true ∧ letter other = letter bit := by
        rcases found with found | unwritten
        · exact found
        · exact harmless.gives unwritten.1 unwritten.2
      obtain ⟨other, otherSmall, isSet, sameLetter⟩ := elsewhere
      exact shared other otherSmall bit small sameLetter isSet

/-! ## Strings that are read as they are meant -/

/-- The type of a permission string is known when it is a dash. -/
theorem WellFormed.readable_iff {str : List UInt8} (wellFormed : WellFormed str) :
    Readable str ↔ str.getD 0 0 = dash := by
  rw [Readable, forall_places]
  constructor
  · intro assumed
    have typed := wellFormed.typed
    simp only [typeSymbols, List.mem_cons, List.not_mem_nil, or_false] at typed
    rcases typed with isDash | isD | isL
    · exact isDash
    · exact absurd (isD ▸ assumed.1) unknown_symbols.1
    · exact absurd (isL ▸ assumed.1) unknown_symbols.2.1
  · intro isDash
    refine ⟨Or.inr (Or.inr (Or.inr isDash)), ?_⟩
    intro bit small
    rcases wellFormed.placed bit small with isDash | isLetter
    · exact Or.inr (Or.inr (Or.inr isDash))
    · exact isLetter ▸ letter_known bit

/-- A plain permission string is read with its meaning when its letters are the
same for all. -/
theorem WellFormed.means_iff {str : List UInt8} (wellFormed : WellFormed str)
    (isDash : str.getD 0 0 = dash) {mode : Nat} (read : getModeFromStr 0 str = .ok mode) :
    Means str mode ↔ SameLetters str := by
  have bits := ((getModeFromStr_ok_iff str mode).mp read).2
  have notFirst : ∀ bit, str.getD 0 0 ≠ letter bit := by
    intro bit isLetter
    exact letter_ne_dash bit (isLetter.symm.trans isDash)
  rw [sameLetters_iff]
  constructor
  · intro means bit small other otherSmall sameLetter here
    have granted := (bits other).mpr ⟨otherSmall,
      exists_places.mpr (Or.inr ⟨bit, small, here.trans sameLetter⟩)⟩
    exact ((means other).mp granted).2
  · intro shared bit
    rw [bits bit]
    refine and_congr_right fun small => ?_
    rw [exists_places, or_iff_right (notFirst bit)]
    constructor
    · intro found
      obtain ⟨other, otherSmall, here⟩ := found
      rcases wellFormed.placed other otherSmall with isDash | isLetter
      · exact absurd (here.symm.trans isDash) (letter_ne_dash bit)
      · exact shared other otherSmall bit small (isLetter.symm.trans here) isLetter
    · intro here
      exact ⟨bit, small, here⟩

/-- Exactly these strings are read as they are meant. -/
theorem readAsMeant_iff (str : CStr) :
    ReadAsMeant str ↔
      (Readable str.bytes → WellFormed str.bytes) ∧
        (WellFormed str.bytes → str.bytes.getD 0 0 = dash ∧ SameLetters str.bytes) := by
  rw [ReadAsMeant, accepted_iff]
  constructor
  · intro assumed
    obtain ⟨accepted, meant⟩ := assumed
    refine ⟨accepted.mp, ?_⟩
    intro wellFormed
    have readable := accepted.mpr wellFormed
    have isDash := wellFormed.readable_iff.mp readable
    obtain ⟨mode, read⟩ := (accepted_iff str.bytes).mpr readable
    exact ⟨isDash, (wellFormed.means_iff isDash read).mp (meant mode read)⟩
  · intro assumed
    obtain ⟨formed, plain⟩ := assumed
    refine ⟨⟨formed, fun wellFormed => wellFormed.readable_iff.mpr (plain wellFormed).1⟩, ?_⟩
    intro mode read
    have wellFormed := formed ((accepted_iff str.bytes).mp ⟨mode, read⟩)
    obtain ⟨isDash, sameLetters⟩ := plain wellFormed
    exact (wellFormed.means_iff isDash read).mpr sameLetters

/-! ## Both -/

/-- A mode is read back from what is written over a buffer, and a string is read
as it is meant, in exactly these cases. -/
theorem permissionStrings_iff (mode : Nat) (buffer : Buffer) (str : CStr) :
    (RoundTrips mode buffer ↔
      (sIsdir mode = false ∧ sIslnk mode = false) ∧ SameForAll mode ∧
        LastHarmless mode (buffer.bytes.getD 9 0)) ∧
    (ReadAsMeant str ↔
      (Readable str.bytes → WellFormed str.bytes) ∧
        (WellFormed str.bytes → str.bytes.getD 0 0 = dash ∧ SameLetters str.bytes)) :=
  ⟨roundTrips_iff mode buffer, readAsMeant_iff str⟩

/-- A file for its owner alone is read back as a file for everybody, the printed
type of a directory is refused, and ten letters `r` are taken for a mode. -/
theorem permissionStrings_differ :
    let dashes : Buffer := ⟨List.replicate 10 dash, by decide⟩
    getModeFromStr 0 (getStrMode 0o100600 dashes.bytes) = .ok 0o666 ∧
      ¬ RoundTrips 0o100600 dashes ∧ ¬ RoundTrips 0o040777 dashes ∧
      getModeFromStr 0 (List.replicate 10 letterR) = .ok 0o444 ∧
      ¬ ReadAsMeant ⟨List.replicate 10 letterR, by decide⟩ := by
  refine ⟨rfl, ?_, ?_, rfl, ?_⟩
  · unfold RoundTrips
    decide
  · unfold RoundTrips
    decide
  · intro meant
    have wellFormed := meant.1.mp ⟨0o444, rfl⟩
    have typed : letterR ∈ typeSymbols := wellFormed.typed
    exact absurd typed (by decide)

/-! ## file_info and change_mod -/

/-- `change_mod` never asks for a mode that tells user, group and others
apart. -/
theorem changeMod_sameForAll (chmodOk : Bool) (newMode : List UInt8) (mode : Nat)
    (requested : (changeMod chmodOk newMode).requested = some mode) : SameForAll mode := by
  unfold changeMod at requested
  split at requested
  · cases requested
  · rename_i found read
    cases requested
    have bits := ((getModeFromStr_ok_iff newMode mode).mp read).2
    rw [sameForAll_iff]
    intro bit small other otherSmall sameLetter isSet
    obtain ⟨_, i, inside, here⟩ := (bits bit).mp isSet
    exact (bits other).mpr ⟨otherSmall, i, inside, here.trans sameLetter⟩

theorem changeMod_refuses (chmodOk : Bool) (newMode : List UInt8)
    (unreadable : ¬ Readable newMode) : (changeMod chmodOk newMode).requested = none := by
  unfold changeMod
  split
  · rfl
  · rename_i mode read
    exact absurd ((accepted_iff newMode).mp ⟨mode, read⟩) unreadable

/-- When `file_info` finds a NUL in its block of ten bytes, what it prints is
too short for `change_mod`. -/
theorem fileInfo_refused (mode : Nat) (buffer : Buffer) (behind : List UInt8)
    (block : buffer.bytes.length = 10) (ended : 0 ∈ getStrMode mode buffer.bytes)
    (chmodOk : Bool) :
    (changeMod chmodOk (fileInfo mode buffer.bytes behind)).requested = none := by
  have short := CString.cstr_length_lt_of_nul (getStrMode mode buffer.bytes) behind ended
  rw [getStrMode_length, block] at short
  apply changeMod_refuses
  intro readable
  have known := readable _ short
  have isNul : (fileInfo mode buffer.bytes behind).getD
      (CString.cstr (getStrMode mode buffer.bytes ++ behind)).length 0 = 0 :=
    List.getD_eq_default _ _ (Nat.le_refl _)
  rw [isNul] at known
  exact unknown_symbols.2.2 known

end OsLabs.FileTool
