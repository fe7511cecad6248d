import Lowering.Json.Scan

/-!
# Strings in JSON

Strings are scanned after their opening quote and up to the closing one, and their escapes are
decoded on the way. A character outside the basic plane is escaped as a pair of surrogates.
-/

namespace Lowering.Json

/-- The value of a hexadecimal digit. -/
def hexValue? (c : Char) : Option Nat :=
  if '0' ≤ c ∧ c ≤ '9' then some (c.toNat - '0'.toNat)
  else if 'a' ≤ c ∧ c ≤ 'f' then some (c.toNat - 'a'.toNat + 10)
  else if 'A' ≤ c ∧ c ≤ 'F' then some (c.toNat - 'A'.toNat + 10)
  else none

/-- Scan four hexadecimal digits. The text counts as too short when fewer than four bytes of its
UTF-8 form are left. -/
def fourHex : List Char → Except Fault (Nat × List Char)
  | a :: b :: c :: d :: rest =>
      match hexValue? a, hexValue? b, hexValue? c, hexValue? d with
      | some w, some x, some y, some z => .ok (((w * 16 + x) * 16 + y) * 16 + z, rest)
      | _, _, _, _ => .error .malformed
  | short => .error (if (String.ofList short).utf8ByteSize < 4 then .endOfText else .malformed)

/-- The character that a letter stands for after a backslash. -/
def escapeLetter? (c : Char) : Option Char :=
  if c = '"' ∨ c = '\\' ∨ c = '/' then some c
  else if c = 'b' then some '\x08'
  else if c = 'f' then some '\x0c'
  else if c = 'n' then some '\n'
  else if c = 'r' then some '\r'
  else if c = 't' then some '\t'
  else none

/-- A code unit that starts a surrogate pair. -/
def isHighSurrogate (unit : Nat) : Bool := 0xd800 ≤ unit && unit ≤ 0xdbff

/-- A code unit that ends a surrogate pair. -/
def isLowSurrogate (unit : Nat) : Bool := 0xdc00 ≤ unit && unit ≤ 0xdfff

/-- Scan the second half of a surrogate pair. -/
def surrogatePair (high : Nat) : List Char → Except Fault (Char × List Char)
  | [] => .error .endOfText
  | c :: rest =>
      if c = '\\' then
        match rest with
        | [] => .error .endOfText
        | d :: rest =>
            if d = 'u' then do
              let (low, rest) ← fourHex rest
              if isLowSurrogate low then
                .ok (Char.ofNat (0x10000 + (high - 0xd800) * 0x400 + (low - 0xdc00)), rest)
              else .error .malformed
            else .error .malformed
      else .error .malformed

/-- Scan what follows a backslash. Where the text of the string does not matter, surrogates need not
come in pairs. -/
def escape (paired : Bool) : List Char → Except Fault (Char × List Char)
  | [] => .error .endOfText
  | c :: rest =>
      if c = 'u' then do
        let (unit, rest) ← fourHex rest
        if paired && isLowSurrogate unit then .error .malformed
        else if paired && isHighSurrogate unit then surrogatePair unit rest
        else .ok (Char.ofNat unit, rest)
      else
        match escapeLetter? c with
        | some d => .ok (d, rest)
        | none => .error .malformed

/-- Four hexadecimal digits take up four characters. -/
theorem length_of_fourHex {s rest : List Char} {unit : Nat} (h : fourHex s = .ok (unit, rest)) :
    s.length = rest.length + 4 := by
  unfold fourHex at h
  split at h
  · split at h
    · cases h; rfl
    · cases h
  · cases h

/-- The second half of a surrogate pair leaves less of the text. -/
theorem length_of_surrogatePair {high : Nat} {s rest : List Char} {c : Char}
    (h : surrogatePair high s = .ok (c, rest)) : rest.length < s.length := by
  unfold surrogatePair at h
  split at h
  · cases h
  · split at h
    · split at h
      · cases h
      · split at h
        · obtain ⟨⟨low, after⟩, hlow, h⟩ := bind_eq_ok.1 h
          have := length_of_fourHex hlow
          dsimp only at h
          split at h
          · simp only [Except.ok.injEq, Prod.mk.injEq] at h
            obtain ⟨_, rfl⟩ := h
            simp only [List.length_cons]; omega
          · cases h
        · cases h
    · cases h

/-- An escape leaves less of the text. -/
theorem length_of_escape {paired : Bool} {s rest : List Char} {c : Char}
    (h : escape paired s = .ok (c, rest)) : rest.length < s.length := by
  unfold escape at h
  split at h
  · cases h
  · split at h
    · obtain ⟨⟨unit, after⟩, hunit, h⟩ := bind_eq_ok.1 h
      have hlength := length_of_fourHex hunit
      dsimp only at h
      split at h
      · cases h
      · split at h
        · have := length_of_surrogatePair h
          simp only [List.length_cons]; omega
        · simp only [Except.ok.injEq, Prod.mk.injEq] at h
          obtain ⟨_, rfl⟩ := h
          simp only [List.length_cons]; omega
    · split at h
      · cases h; simp
      · cases h

/-- Scan a string after its opening quote. -/
def stringBody (paired : Bool) (s : List Char) : Except Fault (List Char × List Char) :=
  match s with
  | [] => .error .endOfText
  | c :: rest =>
      if c = '"' then .ok ([], rest)
      else if c = '\\' then
        match h : escape paired rest with
        | .error fault => .error fault
        | .ok (d, after) =>
            have : after.length < rest.length := length_of_escape h
            (stringBody paired after).map fun (ds, final) => (d :: ds, final)
      else if c < ' ' then .error .malformed
      else (stringBody paired rest).map fun (cs, final) => (c :: cs, final)
termination_by s.length

end Lowering.Json
