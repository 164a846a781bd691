import RuleTidy.Text.Digit

/-! Text as UTF-8, and what can be wrong with bytes that should be UTF-8. -/

namespace RuleTidy.Text.Utf8

inductive Step where
  | char (c : Char) (rest : List UInt8)
  /-- So many bytes begin a sequence that no further byte can complete. -/
  | invalid (length : Nat) (rest : List UInt8)
  /-- The bytes end inside a sequence. -/
  | incomplete
  deriving DecidableEq

def isContinuation (b : UInt8) : Bool := 0x80 ≤ b && b < 0xC0

/-- Which bytes may follow the first one. They exclude longer forms than needed, surrogates and
numbers past the last plane. -/
def isSecond (first second : UInt8) : Bool :=
  if first = 0xE0 then 0xA0 ≤ second && second < 0xC0
  else if first = 0xED then 0x80 ≤ second && second < 0xA0
  else if first = 0xF0 then 0x90 ≤ second && second < 0xC0
  else if first = 0xF4 then 0x80 ≤ second && second < 0x90
  else isContinuation second

def width? (first : UInt8) : Option Nat :=
  if first < 0x80 then some 1
  else if 0xC2 ≤ first && first < 0xE0 then some 2
  else if 0xE0 ≤ first && first < 0xF0 then some 3
  else if 0xF0 ≤ first && first < 0xF5 then some 4
  else none

def goodLength (first : UInt8) : List UInt8 → Nat
  | [] => 1
  | second :: more =>
    if isSecond first second then 2 + (more.takeWhile isContinuation).length else 1

def codeOf (width : Nat) (bytes : List UInt8) : Nat :=
  match bytes with
  | [] => 0
  | first :: more =>
    let lead := if width = 1 then first.toNat else first.toNat % Nat.pow 2 (7 - width)
    more.foldl (fun n b => 64 * n + b.toNat % 64) lead

/-- Takes one character, or as many bytes as belong together without making one. -/
def step (first : UInt8) (rest : List UInt8) : Step :=
  match width? first with
  | none => .invalid 1 rest
  | some width =>
    let good := goodLength first (rest.take (width - 1))
    if good = width then
      let bytes := first :: rest.take (width - 1)
      .char ((charOfCode? (codeOf width bytes)).getD ' ') (rest.drop (width - 1))
    else if good = rest.length + 1 then .incomplete
    else .invalid good (rest.drop (good - 1))

/-- Where bytes stop being UTF-8. Without a length, they end too early. -/
structure Fault where
  index : Nat
  length : Option Nat
  deriving DecidableEq

def Fault.message : Fault → String
  | ⟨index, some length⟩ => s!"invalid utf-8 sequence of {length} bytes from index {index}"
  | ⟨index, none⟩ => s!"incomplete utf-8 byte sequence from index {index}"

def decodeFrom : Nat → Nat → List UInt8 → Except Fault (List Char)
  | _, _, [] => .ok []
  | 0, _, _ => .ok []
  | fuel + 1, index, first :: rest =>
    match step first rest with
    | .char c rest' => do
      let cs ← decodeFrom fuel (index + c.utf8Size) rest'
      return c :: cs
    | .invalid length _ => .error ⟨index, some length⟩
    | .incomplete => .error ⟨index, none⟩

def decode (bytes : List UInt8) : Except Fault String :=
  (decodeFrom bytes.length 0 bytes).map .ofList

def replacement : Char := '\uFFFD'

def decodeLossyFrom : Nat → List UInt8 → List Char
  | _, [] => []
  | 0, _ => []
  | fuel + 1, first :: rest =>
    match step first rest with
    | .char c rest => c :: decodeLossyFrom fuel rest
    | .invalid _ rest => replacement :: decodeLossyFrom fuel rest
    | .incomplete => [replacement]

def decodeLossy (bytes : List UInt8) : String := .ofList (decodeLossyFrom bytes.length bytes)

def encode (text : String) : List UInt8 := text.toUTF8.data.toList

def byteLength : List Char → Nat
  | [] => 0
  | c :: rest => c.utf8Size + byteLength rest

end RuleTidy.Text.Utf8
