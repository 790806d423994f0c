import VectorizedSort.Backend.Basic

/-! # Requests for a backend

A backend is requested by its name in either case with blanks around it. A process follows a request
that it understands and that its processor can execute, and takes the fastest backend otherwise. -/

namespace VectorizedSort

/-! ### Blanks around a text -/

/-- The ranges of the characters with the property White_Space, first and last code point. -/
def blankRanges : List (Nat × Nat) :=
  [(0x09, 0x0d), (0x20, 0x20), (0x85, 0x85), (0xa0, 0xa0), (0x1680, 0x1680), (0x2000, 0x200a),
    (0x2028, 0x2029), (0x202f, 0x202f), (0x205f, 0x205f), (0x3000, 0x3000)]

/-- Whether a character has the property White_Space. -/
def isBlank (c : Char) : Bool := blankRanges.any fun r => r.1 ≤ c.toNat && c.toNat ≤ r.2

/-- A text without the blanks at its two ends. -/
def trimBlanks (text : List Char) : List Char :=
  ((text.dropWhile isBlank).reverse.dropWhile isBlank).reverse

/-! ### Names of backends -/

/-- A request that names no backend. -/
structure UnknownBackend where
  /-- The request as it was given. -/
  text : String
deriving DecidableEq

/-- The text an unknown backend is reported with. -/
def UnknownBackend.message (e : UnknownBackend) : String :=
  s!"unknown backend `{e.text}`, expected `portable` or `avx2`"

/-- The backend that a text names. Only letters of the ASCII alphabet have two cases here. -/
def Backend.parse (text : String) : Except UnknownBackend Backend :=
  let name := (trimBlanks text.toList).map Char.toLower
  if name = Backend.portable.name.toList then .ok .portable
  else if name = Backend.avx2.name.toList then .ok .avx2
  else .error ⟨text⟩

/-! ### Following a request -/

/-- Why a request is not followed. -/
inductive Refusal where
  /-- It names no backend. -/
  | unknown (error : UnknownBackend)
  /-- The processor cannot execute it. -/
  | unsupported (requested : Backend)
deriving DecidableEq

/-- A backend with the reason, if any, why it is not the requested one. -/
structure Choice where
  backend : Backend
  refusal : Option Refusal
deriving DecidableEq

/-- The backend that a process uses under an optional request. -/
def Cpu.choose (cpu : Cpu) : (request : Option String) → Choice
  | none => ⟨cpu.fastest, none⟩
  | some text =>
    match Backend.parse text with
    | .ok backend =>
      if cpu.supports backend then ⟨backend, none⟩ else ⟨cpu.fastest, some (.unsupported backend)⟩
    | .error error => ⟨cpu.fastest, some (.unknown error)⟩

end VectorizedSort
