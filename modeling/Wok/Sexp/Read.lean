/-
Module: Wok.Sexp.Read
Purpose: The reader of s-expression data over decoded text: words, strings and lists with
  their positions, and its errors.
Imports: Mathlib.Data.List.Defs
Trusted boundary: none
Main exports: Pos, SExp, SexpError, RState, parseWord, parseStringLit, parseDatum, listLoop,
  readSExp
-/
import Mathlib.Data.List.Defs

namespace Wok.Sexp

/-- A line and a column of the text, both from one. -/
structure Pos where
  line : Nat
  col : Nat
  deriving Repr, DecidableEq

/-- A datum with the position of its first character. A string is decoded, a word stands as it
was written. -/
inductive SExp where
  | word (text : List Char) (pos : Pos)
  | string (text : List Char) (pos : Pos)
  | list (items : List SExp) (pos : Pos)
  deriving Repr

structure SexpError where
  pos : Pos
  message : String
  deriving Repr, DecidableEq

/-- The text that is left and the position of its first character. -/
structure RState where
  text : List Char
  pos : Pos
  deriving Repr, DecidableEq

def maxDepth : Nat := 256

def advancePos (c : Char) (p : Pos) : Pos :=
  if c = '\n' then ⟨p.line + 1, 1⟩ else ⟨p.line, p.col + 1⟩

def isWs (c : Char) : Bool := c = ' ' || c = '\t' || c = '\n' || c = '\r'

def isDelim (c : Char) : Bool := c = '(' || c = ')' || c = '"' || isWs c

def skipWsFrom : List Char → Pos → RState
  | [], p => ⟨[], p⟩
  | c :: cs, p => if isWs c then skipWsFrom cs (advancePos c p) else ⟨c :: cs, p⟩

def RState.skipWs (st : RState) : RState := skipWsFrom st.text st.pos

/-! ### Atoms -/

def takeWord : List Char → Pos → List Char × RState
  | [], p => ([], ⟨[], p⟩)
  | c :: cs, p =>
      if isDelim c then ([], ⟨c :: cs, p⟩)
      else
        let (w, st) := takeWord cs (advancePos c p)
        (c :: w, st)

/-- The longest run of characters that are no delimiters. -/
def parseWord (st : RState) : List Char × RState := takeWord st.text st.pos

def isDigit (c : Char) : Bool := '0' ≤ c && c ≤ '9'

def hexVal (c : Char) : Option Nat :=
  if isDigit c then some (c.toNat - '0'.toNat)
  else if 'a' ≤ c ∧ c ≤ 'f' then some (c.toNat - 'a'.toNat + 10)
  else if 'A' ≤ c ∧ c ≤ 'F' then some (c.toNat - 'A'.toNat + 10)
  else none

/-- What an escape of one letter stands for. -/
def shortEscape (e : Char) : Option Char :=
  if e = '\\' then some '\\'
  else if e = '"' then some '"'
  else if e = 'n' then some '\n'
  else if e = 't' then some '\t'
  else if e = 'r' then some '\r'
  else none

def unterminatedString : String := "unterminated string literal"

/-- The rest of a literal that was opened at `openPos`; `acc` holds what has been decoded, the
last character first. -/
def stringLoop (openPos : Pos) (acc : List Char) :
    List Char → Pos → Except SexpError (SExp × RState)
  | [], _ => .error ⟨openPos, unterminatedString⟩
  | c :: cs, p =>
      if c = '"' then .ok (.string acc.reverse openPos, ⟨cs, advancePos c p⟩)
      else if c = '\\' then
        match cs with
        | [] => .error ⟨openPos, unterminatedString⟩
        | e :: es =>
            let pe := advancePos c p
            if e = 'x' then
              match es with
              | hi :: lo :: rest =>
                  let px := advancePos e pe
                  match hexVal hi, hexVal lo with
                  | some h, some l =>
                      stringLoop openPos (Char.ofNat (h * 16 + l) :: acc) rest
                        (advancePos lo (advancePos hi px))
                  | _, _ => .error ⟨px, "invalid \\x escape in string literal"⟩
              | _ => .error ⟨openPos, "unterminated \\x escape in string literal"⟩
            else
              match shortEscape e with
              | some d => stringLoop openPos (d :: acc) es (advancePos e pe)
              | none =>
                  .error ⟨pe, "unknown escape `\\" ++ String.ofList [e] ++ "` in string literal"⟩
      else stringLoop openPos (c :: acc) cs (advancePos c p)

def parseStringLit (st : RState) : Except SexpError (SExp × RState) :=
  match st.text with
  | [] => .error ⟨st.pos, unterminatedString⟩
  | c :: cs => stringLoop st.pos [] cs (advancePos c st.pos)

/-! ### Lists -/

/-- What the parsers give back; `none` when the fuel runs out. -/
abbrev Result := Option (Except SexpError (SExp × RState))

def fault (pos : Pos) (message : String) : Result := some (.error ⟨pos, message⟩)

/-- The words whose lists are part of the schema and no nodes. -/
def isWrapperHead (w : List Char) : Bool :=
  w = "seq".toList || w = "some".toList || w = "none".toList

def unterminatedList : String := "unterminated list: missing `)`"

/-- A list, from its bracket on. `loop` reads the data of the list at their depth. -/
def parseList (loop : Nat → Pos → RState → List SExp → Result) (depth : Nat) (st : RState) :
    Result :=
  match st.text with
  | [] => fault st.pos unterminatedList
  | c :: cs =>
      let s1 : RState := RState.skipWs ⟨cs, advancePos c st.pos⟩
      let nodeLoop (s : RState) (acc : List SExp) : Result :=
        if depth > maxDepth then
          fault st.pos ("s-expression nesting exceeds " ++ toString maxDepth ++ " levels")
        else loop (depth + 1) st.pos s acc
      match s1.text with
      | [] => nodeLoop s1 []
      | h :: _ =>
          if isDelim h then nodeLoop s1 []
          else
            let (w, s2) := parseWord s1
            if isWrapperHead w then loop depth st.pos s2 [.word w s1.pos]
            else nodeLoop s2 [.word w s1.pos]

mutual

/-- One datum. A step down or along a list takes a character at least. -/
def parseDatum : Nat → Nat → RState → Result
  | 0, _, _ => none
  | fuel + 1, depth, st =>
      let st1 := st.skipWs
      match st1.text with
      | [] => fault st1.pos "unexpected end of input, expected a datum"
      | c :: _ =>
          if c = '(' then parseList (listLoop fuel) depth st1
          else if c = '"' then some (parseStringLit st1)
          else if c = ')' then fault st1.pos "unexpected `)` with no matching `(`"
          else
            let (w, st2) := parseWord st1
            some (.ok (.word w st1.pos, st2))

/-- The data up to the closing bracket; `acc` holds those before, the last one first. -/
def listLoop : Nat → Nat → Pos → RState → List SExp → Result
  | 0, _, _, _, _ => none
  | fuel + 1, childDepth, openPos, s, acc =>
      let s1 := s.skipWs
      match s1.text with
      | [] => fault openPos unterminatedList
      | c :: cs =>
          if c = ')' then some (.ok (.list acc.reverse openPos, ⟨cs, advancePos c s1.pos⟩))
          else
            match parseDatum fuel childDepth s1 with
            | some (.ok (d, s2)) => listLoop fuel childDepth openPos s2 (d :: acc)
            | r => r

end

/-- One datum and nothing but white space after it. -/
def readSExp (input : List Char) : Option (Except SexpError SExp) :=
  match parseDatum (2 * input.length + 1) 1 ⟨input, ⟨1, 1⟩⟩ with
  | none => none
  | some (.error err) => some (.error err)
  | some (.ok (datum, after)) =>
      let afterWs := after.skipWs
      match afterWs.text with
      | [] => some (.ok datum)
      | _ :: _ => some (.error ⟨afterWs.pos, "trailing content after the top-level form"⟩)

attribute [grind =] skipWsFrom stringLoop listLoop parseDatum

end Wok.Sexp
