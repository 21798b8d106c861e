import Stencil.Data.Condition
import Stencil.Text.Scan

/-!
# Tags

The tags of a template, each written between two pairs of braces: placeholders for values, and the
opening, closing and middle tags of loops and conditionals. Anything else between braces is plain
text.

* `Tag.recogniser`: reads the tag at the front of a text, if one stands there.
* `Tag.text`: the tag as it is written in messages, which is one of the ways to write it.
-/

namespace Stencil

/-- The tags of templates. -/
inductive Tag where
  | placeholder (path : String)
  | eachOpen (key : String)
  | eachClose
  | ifOpen (condition : Condition)
  | otherwise
  | ifClose
  deriving DecidableEq

namespace Tag

open Text

/-- What a tag begins with. -/
def opening : List Char := ['{', '{']

/-- What a tag ends with. -/
def closing : List Char := ['}', '}']

/-- The tag with the given text between its braces. -/
def braced (inner : List Char) : List Char := opening ++ inner ++ closing

theorem braced_ne_nil (inner : List Char) : braced inner ≠ [] := nofun

theorem opening_ne_nil : opening ≠ [] := nofun

/-- Whether a character may stand in a key. -/
def isKeyChar (c : Char) : Bool := c.isAlphanum || c == '_' || c == '-'

/-- Keys with points between them; `inKey` tells whether a key has been begun. -/
def isPathFrom (inKey : Bool) : List Char → Bool
  | [] => inKey
  | c :: s => if isKeyChar c then isPathFrom true s else c == '.' && inKey && isPathFrom false s

/-- Whether a text is a path: keys with points between them. -/
def isPath (s : List Char) : Bool := isPathFrom false s

/-- The tag that ends a loop. -/
def eachCloseText : List Char := braced "/each".toList

/-- The tag that ends a conditional. -/
def ifCloseText : List Char := braced "/if".toList

/-- The tag between the branches of a conditional. -/
def otherwiseText : List Char := braced "#else".toList

/-- A tag as it is printed. -/
def text : Tag → String
  | placeholder path => .ofList (braced path.toList)
  | eachOpen key => .ofList (braced ("#each " ++ key).toList)
  | eachClose => .ofList eachCloseText
  | ifOpen condition => .ofList (braced ("#if " ++ condition.text).toList)
  | otherwise => .ofList otherwiseText
  | ifClose => .ofList ifCloseText

/-- The opening tag of a loop, in full. -/
theorem text_eachOpen (key : String) :
    (eachOpen key).text = "\x7b\x7b#each " ++ key ++ "\x7d\x7d" := by
  apply String.toList_inj.1
  simp [text, braced, opening, closing]

/-- The opening tag of a conditional, in full. -/
theorem text_ifOpen (condition : Condition) :
    (ifOpen condition).text = "\x7b\x7b#if " ++ condition.text ++ "\x7d\x7d" := by
  apply String.toList_inj.1
  simp [text, braced, opening, closing]

/-- Reads a tag that has only one spelling. -/
def fixed (lexeme : List Char) (h : lexeme ≠ []) (tag : Tag) : Recogniser Tag :=
  (Recogniser.exactly lexeme h).map fun _ => tag

/-- Reads a placeholder; its path has no blanks around it. -/
def placeholderPath : Recogniser String :=
  (Recogniser.exactly opening opening_ne_nil).followedBy fun _ => do
    let path ← Reader.run fun c => isKeyChar c || c == '.'
    .guard (isPath path)
    .exactly closing
    return .ofList path

/-- Reads the opening tag of a loop. -/
def loopKey : Recogniser String :=
  (Recogniser.exactly (opening ++ "#each".toList) nofun).followedBy fun _ => do
    let _ ← Reader.run1 isBlank
    let key ← Reader.run1 isKeyChar
    .exactly closing
    return .ofList key

/-- Reads one operator. -/
def symbol (op : Operator) : Reader Operator := do
  .exactly op.symbol.toList
  return op

/-- Reads any operator. -/
def operator : Reader Operator :=
  symbol .equal <|> symbol .notEqual <|> symbol .greater <|> symbol .less

/-- Whether a character may stand in an operand. -/
def isOperandChar (c : Char) : Bool := c != '"' && c != '}'

/-- An operand up to the end of its tag. A quote in front of it or behind it is not part of it, nor
are the blanks around it, save those right before a quote. -/
def operand : Reader String := do
  let _ ← Reader.run isBlank
  .optional ['"']
  let cs ← Reader.run isOperandChar
  let quoted : Reader String := do
    .exactly ['"']
    let _ ← Reader.run isBlank
    .exactly closing
    return .ofList cs
  let bare : Reader String := do
    .exactly closing
    return .ofList (trimEnd cs)
  quoted <|> bare

/-- Reads an operator and an operand. -/
def comparison : Reader Comparison := do
  let operator ← operator
  let operand ← operand
  return ⟨operator, operand⟩

/-- Reads the opening tag of a conditional. -/
def condition : Recogniser Condition :=
  (Recogniser.exactly (opening ++ "#if".toList) nofun).followedBy fun _ => do
    let _ ← Reader.run1 isBlank
    let key ← Reader.run1 isKeyChar
    let _ ← Reader.run isBlank
    let bare : Reader Condition := do
      .exactly closing
      return ⟨.ofList key, none⟩
    let compared : Reader Condition := do
      let t ← comparison
      return ⟨.ofList key, some t⟩
    bare <|> compared

/-- Reads any tag. -/
def recogniser : Recogniser Tag :=
  fixed eachCloseText (braced_ne_nil _) eachClose <|>
  fixed otherwiseText (braced_ne_nil _) otherwise <|>
  fixed ifCloseText (braced_ne_nil _) ifClose <|>
  loopKey.map eachOpen <|>
  condition.map ifOpen <|>
  placeholderPath.map placeholder

end Tag

end Stencil
