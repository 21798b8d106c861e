import Stencil.Template.Token

/-!
# Template trees

A template whose blocks are closed in order is a tree: plain text, placeholders, loops with a body,
and conditionals with one or two branches. The tree is read off the tokens with a stack of the blocks
that are open, so that the first token that cannot be placed is the one reported.
-/

namespace Stencil

/-- The nodes of a template. -/
inductive Node where
  | plain (text : String)
  | placeholder (path : String)
  | loop (key : String) (offset : Nat) (body : List Node)
  | conditional (condition : Condition) (offset : Nat) (whenTrue : List Node)
      (whenFalse : Option (List Node))

/-- What is wrong with the blocks of a template. -/
inductive BlockFault where
  | unclosedLoop (key : String)
  | unclosedConditional (condition : Condition)
  | unexpectedEachClose
  | unexpectedIfClose
  | strayOtherwise
  | repeatedOtherwise
  deriving DecidableEq

namespace BlockFault

/-- The name of conditionals, as messages spell it. -/
def conditionalTag : String := .ofList (Tag.braced "#if".toList)

/-- What is said of a fault of blocks. -/
def message : BlockFault → String
  | unclosedLoop key => "unclosed " ++ (Tag.eachOpen key).text
  | unclosedConditional condition => "unclosed " ++ (Tag.ifOpen condition).text
  | unexpectedEachClose => "unexpected " ++ Tag.eachClose.text
  | unexpectedIfClose => "unexpected " ++ Tag.ifClose.text
  | strayOtherwise => Tag.otherwise.text ++ " outside of an " ++ conditionalTag ++ " block"
  | repeatedOtherwise => "duplicate " ++ Tag.otherwise.text ++ " in the same " ++ conditionalTag ++
      " block"

theorem message_unclosedLoop (key : String) :
    (unclosedLoop key).message = "unclosed \x7b\x7b#each " ++ key ++ "\x7d\x7d" := by
  simp [message, Tag.text_eachOpen, ← String.append_assoc]

theorem message_unclosedConditional (condition : Condition) :
    (unclosedConditional condition).message =
      "unclosed \x7b\x7b#if " ++ condition.text ++ "\x7d\x7d" := by
  simp [message, Tag.text_ifOpen, ← String.append_assoc]

end BlockFault

/-- A block that is open, with the byte position of its opening tag. -/
inductive OpenBlock where
  | loop (key : String) (offset : Nat)
  | firstBranch (condition : Condition) (offset : Nat)
  | secondBranch (condition : Condition) (offset : Nat) (whenTrue : List Node)

namespace OpenBlock

/-- The fault of a template that ends while the block is open, and where it is reported. -/
def unclosed : OpenBlock → BlockFault × Nat
  | loop key offset => (.unclosedLoop key, offset)
  | firstBranch condition offset => (.unclosedConditional condition, offset)
  | secondBranch condition offset _ => (.unclosedConditional condition, offset)

end OpenBlock

namespace Node

/-- The nodes of a template. `opened` holds the open blocks from the innermost out, each with the
nodes before it; `done` holds the nodes of the innermost block. Both lists of nodes are in reverse. -/
def ofTokensIn (opened : List (OpenBlock × List Node)) (done : List Node) :
    List Token → Except (BlockFault × Nat) (List Node)
  | [] =>
    match opened with
    | [] => .ok done.reverse
    | (block, _) :: _ => .error block.unclosed
  | ⟨lexeme, start, _⟩ :: tokens =>
    match lexeme, opened with
    | .plain text, _ => ofTokensIn opened (.plain text :: done) tokens
    | .tag (.placeholder path), _ => ofTokensIn opened (.placeholder path :: done) tokens
    | .tag (.eachOpen key), _ => ofTokensIn ((.loop key start, done) :: opened) [] tokens
    | .tag (.ifOpen c), _ => ofTokensIn ((.firstBranch c start, done) :: opened) [] tokens
    | .tag .eachClose, (.loop key offset, before) :: outer =>
      ofTokensIn outer (.loop key offset done.reverse :: before) tokens
    | .tag .eachClose, _ => .error (.unexpectedEachClose, start)
    | .tag .otherwise, (.firstBranch c offset, before) :: outer =>
      ofTokensIn ((.secondBranch c offset done.reverse, before) :: outer) [] tokens
    | .tag .otherwise, (.secondBranch .., _) :: _ => .error (.repeatedOtherwise, start)
    | .tag .otherwise, _ => .error (.strayOtherwise, start)
    | .tag .ifClose, (.firstBranch c offset, before) :: outer =>
      ofTokensIn outer (.conditional c offset done.reverse none :: before) tokens
    | .tag .ifClose, (.secondBranch c offset whenTrue, before) :: outer =>
      ofTokensIn outer (.conditional c offset whenTrue (some done.reverse) :: before) tokens
    | .tag .ifClose, _ => .error (.unexpectedIfClose, start)

/-- The nodes that tokens make up, or the first fault with its byte position. -/
def ofTokens (tokens : List Token) : Except (BlockFault × Nat) (List Node) :=
  ofTokensIn [] [] tokens

end Node

end Stencil
