import HabitatGraph.Foundation.Scanner

/-! # JSON texts

A text is split into tokens, strings decoded, and the tokens are read as a value. What a
text decodes to depends on its tokens only, so that another spelling of a character inside
of its strings decodes to the same value.
-/

namespace JsonText

/-- A mark, a decoded string, or a number or a word as it is written. -/
inductive Token
  | mark (ch : Char)
  | string (value : List Char)
  | atom (text : List Char)
deriving DecidableEq, Repr

/-- What the lexer is inside of. Of a pair of surrogates, the first is kept until the second
is read. -/
inductive Mode
  | plain
  | atom (text : List Char)
  | string (value : List Char)
  | escape (value : List Char)
  | unicode (value : List Char) (high : Option Nat) (digits : List Nat)
  | pair (value : List Char) (high : Nat)
  | pairEscape (value : List Char) (high : Nat)
deriving DecidableEq, Repr

def isMark (ch : Char) : Bool :=
  ch = '[' || ch = ']' || ch = '\x7b' || ch = '\x7d' || ch = ',' || ch = ':'

def isBlank (ch : Char) : Bool := ch = ' ' || ch = '\n' || ch = '\r' || ch = '\t'

def isAtomChar (ch : Char) : Bool := ch.isAlphanum || ch = '+' || ch = '-' || ch = '.'

/-- The character a backslash and a character stand for. -/
def escaped : Char → Option Char
  | '"' => some '"'
  | '\\' => some '\\'
  | '/' => some '/'
  | 'b' => some '\x08'
  | 'f' => some '\x0C'
  | 'n' => some '\n'
  | 'r' => some '\r'
  | 't' => some '\t'
  | _ => none

def hexDigit (ch : Char) : Option Nat :=
  if ch.isDigit then some (ch.toNat - 48)
  else if 'a' ≤ ch ∧ ch ≤ 'f' then some (ch.toNat - 87)
  else if 'A' ≤ ch ∧ ch ≤ 'F' then some (ch.toNat - 55)
  else none

/-- A character between tokens. -/
def plainStep (ch : Char) : Option (List Token × Mode) :=
  if ch = '"' then some ([], .string [])
  else if isMark ch then some ([.mark ch], .plain)
  else if isBlank ch then some ([], .plain)
  else if isAtomChar ch then some ([], .atom [ch])
  else none

/-- A unit of UTF-16: a character, or half of one. -/
def unitStep (value : List Char) (high : Option Nat) (code : Nat) : Option Mode :=
  match high with
  | none =>
      if 0xD800 ≤ code ∧ code ≤ 0xDBFF then some (.pair value code)
      -- the second half of a pair cannot come first
      else if 0xDC00 ≤ code ∧ code ≤ 0xDFFF then none
      else some (.string (value ++ [Char.ofNat code]))
  | some first =>
      if 0xDC00 ≤ code ∧ code ≤ 0xDFFF then
        let point := 0x10000 + (first - 0xD800) * 0x400 + (code - 0xDC00)
        some (.string (value ++ [Char.ofNat point]))
      else none

/-- Read one character. -/
def lexer : Scanner Mode Token
  | .plain, ch => plainStep ch
  | .atom text, ch =>
      if isAtomChar ch then some ([], .atom (text ++ [ch]))
      else (plainStep ch).map fun next => (.atom text :: next.1, next.2)
  | .string value, ch =>
      if ch = '"' then some ([.string value], .plain)
      else if ch = '\\' then some ([], .escape value)
      else if ch.toNat < 0x20 then none
      else some ([], .string (value ++ [ch]))
  | .escape value, ch =>
      if ch = 'u' then some ([], .unicode value none [])
      else (escaped ch).map fun c => ([], .string (value ++ [c]))
  | .unicode value high digits, ch =>
      (hexDigit ch).bind fun d =>
        if digits.length < 3 then some ([], .unicode value high (digits ++ [d]))
        else (unitStep value high ((digits ++ [d]).foldl (16 * · + ·) 0)).map fun next => ([], next)
  | .pair value high, ch => if ch = '\\' then some ([], .pairEscape value high) else none
  | .pairEscape value high, ch =>
      if ch = 'u' then some ([], .unicode value (some high) []) else none

/-- The tokens of a text, none where it is refused or ends inside of a string. -/
def lex (chars : List Char) : Option (List Token) :=
  match lexer.run .plain chars with
  | some (tokens, .plain) => some tokens
  | some (tokens, .atom text) => some (tokens ++ [.atom text])
  | _ => none

/-! ## Values -/

/-- A value, a number as it is written. -/
inductive Value
  | null
  | bool (value : Bool)
  | number (text : List Char)
  | string (value : List Char)
  | array (items : List Value)
  | object (fields : List (List Char × Value))

def isDigits (digits : List Char) : Bool := !digits.isEmpty && digits.all Char.isDigit

def isExponent : List Char → Bool
  | [] => true
  | mark :: '+' :: digits => (mark = 'e' || mark = 'E') && isDigits digits
  | mark :: '-' :: digits => (mark = 'e' || mark = 'E') && isDigits digits
  | mark :: digits => (mark = 'e' || mark = 'E') && isDigits digits

def isFraction : List Char → Bool
  | '.' :: rest =>
      !(rest.takeWhile Char.isDigit).isEmpty && isExponent (rest.dropWhile Char.isDigit)
  | rest => isExponent rest

def isMagnitude : List Char → Bool
  | '0' :: rest => isFraction rest
  | digit :: rest => digit.isDigit && isFraction (rest.dropWhile Char.isDigit)
  | [] => false

def isNumber : List Char → Bool
  | '-' :: rest => isMagnitude rest
  | rest => isMagnitude rest

/-- The value of a word or a number. -/
def atomValue (text : List Char) : Option Value :=
  if text = "null".toList then some .null
  else if text = "true".toList then some (.bool true)
  else if text = "false".toList then some (.bool false)
  else if isNumber text then some (.number text)
  else none

/-- An array or an object that is open, with what is read of it; an object also with the key
that the next value is for. -/
inductive Frame
  | array (items : List Value)
  | object (fields : List (List Char × Value)) (key : List Char)

/-- What must come next: a value, the first item or the end of an array, the first key or
the end of an object, a key, a colon, or what follows a value. -/
inductive Parser
  | value (stack : List Frame)
  | firstItem (stack : List Frame)
  | firstKey (stack : List Frame)
  | key (fields : List (List Char × Value)) (stack : List Frame)
  | colon (fields : List (List Char × Value)) (key : List Char) (stack : List Frame)
  | after (value : Value) (stack : List Frame)

def startValue (stack : List Frame) : Token → Option Parser
  | .mark ch =>
      if ch = '[' then some (.firstItem stack)
      else if ch = '\x7b' then some (.firstKey stack)
      else none
  | .string value => some (.after (.string value) stack)
  | .atom text => (atomValue text).map fun value => .after value stack

/-- Read one token. -/
def parseToken : Parser → Token → Option Parser
  | .value stack, token => startValue stack token
  | .firstItem stack, token =>
      if token = .mark ']' then some (.after (.array []) stack)
      else startValue (.array [] :: stack) token
  | .firstKey stack, .string key => some (.colon [] key stack)
  | .firstKey stack, token =>
      if token = .mark '\x7d' then some (.after (.object []) stack) else none
  | .key fields stack, .string key => some (.colon fields key stack)
  | .key _ _, _ => none
  | .colon fields key stack, token =>
      if token = .mark ':' then some (.value (.object fields key :: stack)) else none
  | .after value (.array items :: stack), token =>
      if token = .mark ',' then some (.value (.array (items ++ [value]) :: stack))
      else if token = .mark ']' then some (.after (.array (items ++ [value])) stack)
      else none
  | .after value (.object fields key :: stack), token =>
      if token = .mark ',' then some (.key (fields ++ [(key, value)]) stack)
      else if token = .mark '\x7d' then some (.after (.object (fields ++ [(key, value)])) stack)
      else none
  | .after _ [], _ => none

def parseTokens : Parser → List Token → Option Parser
  | parser, [] => some parser
  | parser, token :: tokens => (parseToken parser token).bind fun next => parseTokens next tokens

/-- The value of a text: one value, and nothing but blanks around it. -/
def decode (chars : List Char) : Option Value :=
  (lex chars).bind fun tokens =>
    match parseTokens (.value []) tokens with
    | some (.after value []) => some value
    | _ => none

example : decode "[1.5, \"a\\u003c\\ud83d\\ude00\", \x7b\"k\": null\x7d]".toList =
    some (.array [.number "1.5".toList, .string ['a', '<', Char.ofNat 0x1F600],
      .object [(['k'], .null)]]) := by rfl

example : (decode "[1,]".toList).isNone := by decide

open Scanner

/-! ## Another spelling of a character -/

/-- A mark that no token but a string can have in it. -/
def IsForeign (ch : Char) : Prop :=
  plainStep ch = none ∧ isAtomChar ch = false ∧ escaped ch = none ∧ hexDigit ch = none ∧
    ch ≠ '"' ∧ ch ≠ '\\' ∧ ch ≠ 'u'

/-- Spell a character by an escape wherever it stands. -/
def respell (ch : Char) (spelling : List Char) (chars : List Char) : List Char :=
  chars.flatMap fun c => if c = ch then spelling else [c]

section Respelled

variable {ch : Char} {spelling : List Char} (hforeign : IsForeign ch)
  (hspelling : ∀ value, Reads lexer (.string value) spelling [] (.string (value ++ [ch])))
include hforeign hspelling

/-- A text that is read is read the same when the character is spelled otherwise. -/
theorem reads_respell {mode mode' : Mode} {chars : List Char} {tokens : List Token}
    (h : Reads lexer mode chars tokens mode') :
    Reads lexer mode (respell ch spelling chars) tokens mode' := by
  obtain ⟨hplain, hatom, hescaped, hhex, hquote, hbackslash, hu⟩ := hforeign
  induction chars generalizing mode tokens with
  | nil => exact h
  | cons c chars ih =>
      obtain ⟨first, next, rest, hstep, hrest, rfl⟩ := reads_cons_iff.mp h
      rw [respell, List.flatMap_cons]
      refine Reads.append ?_ (ih hrest)
      by_cases hc : c = ch
      · rw [if_pos hc]
        subst hc
        -- only a string goes on with the character
        cases mode with
        | string value =>
            rw [lexer, if_neg hquote, if_neg hbackslash] at hstep
            split at hstep
            next => cases hstep
            next =>
              obtain ⟨rfl, rfl⟩ := Prod.mk.inj (Option.some.inj hstep)
              exact hspelling value
        | plain => rw [lexer, hplain] at hstep; cases hstep
        | atom text =>
            rw [lexer, hatom, hplain] at hstep
            cases hstep
        | escape value =>
            rw [lexer, if_neg hu, hescaped] at hstep
            cases hstep
        | unicode value high digits =>
            rw [lexer, hhex] at hstep
            cases hstep
        | pair value high => rw [lexer, if_neg hbackslash] at hstep; cases hstep
        | pairEscape value high => rw [lexer, if_neg hu] at hstep; cases hstep
      · rw [if_neg hc]
        exact Reads.single hstep

theorem lex_respell {chars : List Char} {tokens : List Token} (h : lex chars = some tokens) :
    lex (respell ch spelling chars) = some tokens := by
  unfold lex at h
  split at h
  next tokens' hrun =>
    rw [lex, reads_respell hforeign hspelling hrun]
    exact h
  next tokens' text hrun =>
    rw [lex, reads_respell hforeign hspelling hrun]
    exact h
  next => cases h

/-- A text that decodes to a value decodes to it however the character is spelled. -/
theorem decode_respell {chars : List Char} (h : (decode chars).isSome) :
    decode (respell ch spelling chars) = decode chars := by
  cases hlex : lex chars with
  | none =>
      rw [decode, hlex] at h
      cases h
  | some tokens => rw [decode, decode, lex_respell hforeign hspelling hlex, hlex]

end Respelled

end JsonText
