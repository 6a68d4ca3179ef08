/-
Module: Wok.Grammar.Token
Purpose: The tokens of the scanner: their kinds, the words that are spelled out, and
  what the layout filter asks about a token.
Imports: Mathlib.Data.List.Defs
Trusted boundary: none
Main exports: WokKind, WokWord, WokToken, WokKind.isOpenBracket,
  WokKind.isCloseBracket, WokToken.isContinuationLead
-/
import Mathlib.Data.List.Defs

namespace Wok.Grammar

/-- The kinds of tokens. `newline`, `indent` and `dedent` are produced by the layout
filter only. -/
inductive WokKind where
  | eof
  | newline | indent | dedent
  | varid | conid | varsym | keyword
  | int | string | char
  | lparen | rparen | lbracket | rbracket | lbrace | rbrace
  | comma | dot | dotdot | backtick | underscore | lambda
  | arrow | fatarrow | equals | colon | coloncolon | assign | bar
  | semi
  | bad
  deriving Repr, DecidableEq

/-- The words that are spelled out; `none` for any other token. -/
inductive WokWord where
  | none
  | module_ | import_ | as_ | type_ | alias_ | class_ | instance_ | let_ | in_ | case_ | of_
  | if_ | then_ | else_ | where_
  | effect | handler | handle | use | abort | return_ | var | with_ | foreign | extern_ | fixity
  | once | own | lend | copy
  | left | right | tighter | looser | than | row | eff
  | plus
  deriving Repr, DecidableEq

/-- A token: where it starts in the source and how long it is, its column, which
counts from one, and its flags. -/
structure WokToken where
  off : UInt32
  len : UInt32
  col : UInt32
  kind : WokKind
  word : WokWord
  flags : UInt16
  deriving Repr, DecidableEq

/-- The flag of a token that opens its physical line. -/
def tfFirstOnLine : UInt16 := 1

def WokToken.isFirstOnLine (t : WokToken) : Bool :=
  t.flags &&& tfFirstOnLine != 0

def WokKind.isOpenBracket : WokKind → Bool
  | .lparen | .lbracket | .lbrace => true
  | _ => false

def WokKind.isCloseBracket : WokKind → Bool
  | .rparen | .rbracket | .rbrace => true
  | _ => false

/-- The tokens that stage 2 adds. -/
def WokKind.isLayout : WokKind → Bool
  | .newline | .indent | .dedent => true
  | _ => false

/-- A token that can never begin an item of a block: its line continues the
previous one. -/
def WokToken.isContinuationLead (t : WokToken) : Bool :=
  match t.kind with
  | .varsym | .arrow | .fatarrow | .equals | .colon | .coloncolon | .assign | .bar | .comma
  | .dot | .dotdot | .backtick | .rparen | .rbracket | .rbrace => true
  | .keyword =>
      match t.word with
      | .where_ | .in_ | .then_ | .else_ | .of_ | .as_ | .with_ => true
      | _ => false
  | _ => false

end Wok.Grammar
