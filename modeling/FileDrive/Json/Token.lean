import FileDrive.Text.Number

/-!
# Tokens of JSON

A text is cut into tokens one byte at a time, by a machine whose state is what it is in the middle
of. The first byte that fits no token ends the tokens with one that says so.
-/

namespace FileDrive.Json

open FileDrive.Text

/-- A token of JSON. -/
inductive Token where
  | openArray
  | closeArray
  | openObject
  | closeObject
  | comma
  | colon
  | null
  | bool (b : Bool)
  /-- A number, and whether it lies within the range of floating point numbers. -/
  | number (inRange : Bool)
  /-- A string; without a text when its escapes or bytes spell none. -/
  | string (text : Option String)
  /-- No token starts here, or the one that does is broken off. -/
  | broken
  deriving DecidableEq, Repr

/-- How far a number has been read. -/
inductive NumberPart where
  | sign
  | zero
  | whole
  | point
  | fraction
  | exponentMark
  | exponentSign
  | exponent
  deriving DecidableEq, Repr

/-- A number being read: its first digits, how many of them stand behind the point, how many digits
before the point have been left out, and its exponent. -/
structure NumberSoFar where
  part : NumberPart
  digits : Nat
  places : Nat
  leftOut : Nat
  negativeExponent : Bool
  exponent : Nat
  deriving DecidableEq, Repr

namespace NumberSoFar

/-- Whether what has been read is a whole number. -/
def isComplete (n : NumberSoFar) : Bool :=
  match n.part with
  | .zero | .whole | .fraction | .exponent => true
  | .sign | .point | .exponentMark | .exponentSign => false

/-- The number at its start. -/
def start (part : NumberPart) (digits : Nat) : NumberSoFar := ⟨part, digits, 0, 0, false, 0⟩

/-- As many digits as are kept exactly tell whether a number is in range. -/
def kept : Nat := Nat.pow 10 400

/-- The number with one more digit before the point. -/
def pushWhole (n : NumberSoFar) (d : Nat) : NumberSoFar :=
  if n.digits < kept then { n with part := .whole, digits := n.digits * 10 + d }
  else { n with part := .whole, leftOut := n.leftOut + 1 }

/-- The number with one more digit behind the point. -/
def pushFraction (n : NumberSoFar) (d : Nat) : NumberSoFar :=
  if n.digits < kept then
    { n with part := .fraction, digits := n.digits * 10 + d, places := n.places + 1 }
  else { n with part := .fraction }

/-- The number with one more byte, if that belongs to it. -/
def push? (n : NumberSoFar) (b : UInt8) : Option NumberSoFar :=
  let c := Char.ofNat b.toNat
  match n.part, digit? c with
  | .sign, some 0 => some { n with part := .zero }
  | .sign, some d | .whole, some d => some (n.pushWhole d)
  | .point, some d | .fraction, some d => some (n.pushFraction d)
  | .exponentMark, some d | .exponentSign, some d | .exponent, some d =>
    some { n with part := .exponent, exponent := min (n.exponent * 10 + d) 1000000 }
  | .zero, none | .whole, none =>
    if c = '.' then some { n with part := .point }
    else if c = 'e' ∨ c = 'E' then some { n with part := .exponentMark }
    else none
  | .fraction, none =>
    if c = 'e' ∨ c = 'E' then some { n with part := .exponentMark } else none
  | .exponentMark, none =>
    if c = '+' then some { n with part := .exponentSign }
    else if c = '-' then some { n with part := .exponentSign, negativeExponent := true }
    else none
  | _, _ => none

/-- Whether the byte behind a whole number breaks it: a digit behind a leading zero. -/
def isSpoiledBy (n : NumberSoFar) (b : UInt8) : Bool :=
  n.part = .zero && (digit? (Char.ofNat b.toNat)).isSome

/-- The least number that rounds to no finite one of double precision. -/
def overflow : Nat := Nat.pow 2 1024 - Nat.pow 2 970

/-- Whether the number rounds to a finite one of double precision. -/
def inRange (n : NumberSoFar) : Bool :=
  let down := n.places + if n.negativeExponent then n.exponent else 0
  let up := n.leftOut + if n.negativeExponent then 0 else n.exponent
  n.digits = 0 || up ≤ down ||
    (up - down ≤ 400 && n.digits * Nat.pow 10 (up - down) < overflow)

end NumberSoFar

/-- A string being read. -/
structure StringSoFar where
  /-- The bytes of the text so far. -/
  bytes : ByteArray
  /-- The first half of a pair of code units, when the second has to follow. -/
  half : Option Nat
  /-- Whether the escapes so far spell a text. -/
  sound : Bool

namespace StringSoFar

/-- The string at its start. -/
def start : StringSoFar := ⟨ByteArray.empty, none, true⟩

/-- Nothing but the second half of a pair may follow a first half. -/
def settle (s : StringSoFar) : StringSoFar :=
  if s.half.isSome then { s with half := none, sound := false } else s

/-- The string with one more byte that is no part of an escape. -/
def pushByte (s : StringSoFar) (b : UInt8) : StringSoFar :=
  let s := s.settle
  { s with bytes := s.bytes.push b }

/-- The string with one more character. -/
def pushChar (s : StringSoFar) (c : Char) : StringSoFar :=
  let s := s.settle
  { s with bytes := s.bytes ++ (String.singleton c).toUTF8 }

/-- The string with one more code unit, that an escape gives in hexadecimal digits. -/
def pushUnit (s : StringSoFar) (unit : Nat) : StringSoFar :=
  if 0xDC00 ≤ unit ∧ unit ≤ 0xDFFF then
    match s.half with
    | some high =>
      let c := Char.ofNat (0x10000 + (high - 0xD800) * 0x400 + (unit - 0xDC00))
      { s with bytes := s.bytes ++ (String.singleton c).toUTF8, half := none }
    | none => { s with sound := false }
  else if 0xD800 ≤ unit ∧ unit ≤ 0xDBFF then { s.settle with half := some unit }
  else s.pushChar (Char.ofNat unit)

/-- The text of a string that has been read to its end. -/
def text? (s : StringSoFar) : Option String :=
  let s := s.settle
  if s.sound then String.fromUTF8? s.bytes else none

end StringSoFar

/-- What a machine that cuts tokens is in the middle of. -/
inductive LexerMode where
  | between
  /-- The rest of a word to come, and the token that it will be. -/
  | word (rest : List Char) (token : Token)
  | number (n : NumberSoFar)
  | string (s : StringSoFar)
  /-- Behind a backslash. -/
  | escape (s : StringSoFar)
  /-- In the hexadecimal digits of an escape: how many are to come, and the value so far. -/
  | unit (s : StringSoFar) (missing value : Nat)
  | failed

/-- A machine that cuts tokens: what it is in the middle of, and the tokens so far, last first. -/
structure Lexer where
  mode : LexerMode
  tokens : List Token

namespace Lexer

/-- Nothing more can be read. -/
def fail (lexer : Lexer) : Lexer := ⟨.failed, .broken :: lexer.tokens⟩

/-- One more token has been read. -/
def emit (lexer : Lexer) (token : Token) : Lexer := ⟨.between, token :: lexer.tokens⟩

/-- One more byte, between tokens. -/
def stepBetween (lexer : Lexer) (b : UInt8) : Lexer :=
  let c := Char.ofNat b.toNat
  if c = ' ' ∨ c = '\n' ∨ c = '\t' ∨ c = '\r' then { lexer with mode := .between }
  else if c = '[' then lexer.emit .openArray
  else if c = ']' then lexer.emit .closeArray
  else if c.toNat = 0x7B then lexer.emit .openObject
  else if c.toNat = 0x7D then lexer.emit .closeObject
  else if c = ',' then lexer.emit .comma
  else if c = ':' then lexer.emit .colon
  else if c = '"' then { lexer with mode := .string .start }
  else if c = 'n' then { lexer with mode := .word ['u', 'l', 'l'] .null }
  else if c = 't' then { lexer with mode := .word ['r', 'u', 'e'] (.bool true) }
  else if c = 'f' then { lexer with mode := .word ['a', 'l', 's', 'e'] (.bool false) }
  else if c = '-' then { lexer with mode := .number (.start .sign 0) }
  else match digit? c with
    | some 0 => { lexer with mode := .number (.start .zero 0) }
    | some d => { lexer with mode := .number (.start .whole d) }
    | none => lexer.fail

/-- The character that an escape of one letter stands for. -/
def escaped? (c : Char) : Option Char :=
  if c = '"' ∨ c = '\\' ∨ c = '/' then some c
  else if c = 'b' then some (Char.ofNat 0x8)
  else if c = 'f' then some (Char.ofNat 0xC)
  else if c = 'n' then some '\n'
  else if c = 'r' then some '\r'
  else if c = 't' then some '\t'
  else none

/-- One more byte. -/
def step (lexer : Lexer) (b : UInt8) : Lexer :=
  let c := Char.ofNat b.toNat
  match lexer.mode with
  | .between => lexer.stepBetween b
  | .word [] token => (lexer.emit token).stepBetween b
  | .word [last] token => if c = last then lexer.emit token else lexer.fail
  | .word (next :: rest) token =>
    if c = next then { lexer with mode := .word rest token } else lexer.fail
  | .number n =>
    match n.push? b with
    | some n => { lexer with mode := .number n }
    | none =>
      if n.isComplete && !n.isSpoiledBy b then (lexer.emit (.number n.inRange)).stepBetween b
      else lexer.fail
  | .string s =>
    if c = '"' then lexer.emit (.string s.text?)
    else if c = '\\' then { lexer with mode := .escape s }
    else if b < 0x20 then lexer.fail
    else { lexer with mode := .string (s.pushByte b) }
  | .escape s =>
    if c = 'u' then { lexer with mode := .unit s 4 0 }
    else match escaped? c with
      | some c => { lexer with mode := .string (s.pushChar c) }
      | none => lexer.fail
  | .unit s missing value =>
    match hexDigit? c with
    | some d =>
      let value := value * 16 + d
      if missing ≤ 1 then { lexer with mode := .string (s.pushUnit value) }
      else { lexer with mode := .unit s (missing - 1) value }
    | none => lexer.fail
  | .failed => lexer

/-- The tokens, first to last, at the end of the text. -/
def finish (lexer : Lexer) : List Token :=
  match lexer.mode with
  | .between | .failed => lexer.tokens.reverse
  | .number n =>
    ((if n.isComplete then .number n.inRange else .broken) :: lexer.tokens).reverse
  | _ => (.broken :: lexer.tokens).reverse

end Lexer

/-- The tokens of a text. -/
def tokens (bytes : ByteArray) : List Token :=
  (bytes.foldl Lexer.step ⟨.between, []⟩).finish

end FileDrive.Json
