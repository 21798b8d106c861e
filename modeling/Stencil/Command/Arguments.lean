import Stencil.Text.Occurrence

/-!
# Arguments of the command line

Arguments are read level by level: those of the program itself, up to the name of a command, and then
those of the command. At each level there are switches, options with a value, and operands by their
place. What is given for an option or an operand is looked at only when the next argument that is not a
command has been recognised, so that asking for help goes before a fault in it.
-/

namespace Stencil

/-- Why reading the arguments ends the program. -/
inductive Halt where
  | misuse
  /-- Help or the version was asked for. -/
  | information
  deriving DecidableEq

/-- An argument that is either given or not. -/
inductive Switch where
  | verbose
  | quiet
  | strict
  | json
  | force
  | help
  | version
  deriving DecidableEq

/-- What an option or an operand fills. -/
inductive Slot where
  | config
  | data
  | output
  /-- A path by its place. -/
  | template
  /-- Any text by its place. -/
  | selector
  deriving DecidableEq

namespace Slot

/-- Whether a text may stand in the slot; a path is not empty. -/
def accepts (slot : Slot) (text : String) : Bool := slot = selector || text ≠ ""

/-- Whether the slot may be filled more than once; the values count in order. -/
def isRepeatable (slot : Slot) : Bool := slot = data

end Slot

/-- What may be given at a level. -/
structure Grammar where
  switches : List (Option Char × String × Switch)
  options : List (Option Char × String × Slot)
  operands : List Slot
  commands : List String

/-- What has been given at a level. -/
structure Given where
  switches : List Switch
  values : List (Slot × String)
  /-- The slot filled last, and what was given for it, not yet looked at. -/
  pending : Option (Slot × Option String)
  deriving DecidableEq

namespace Given

/-- Nothing given so far. -/
def empty : Given := ⟨[], [], none⟩

/-- The first value of a slot. -/
def value? (g : Given) (slot : Slot) : Option String := g.values.lookup slot

/-- Fills a slot with a text that it accepts, and only once unless it is repeatable. -/
def fill (g : Given) (slot : Slot) (text : String) : Except Halt Given :=
  if !slot.accepts text ∨ (!slot.isRepeatable ∧ (g.value? slot).isSome) then .error .misuse
  else .ok { g with values := g.values ++ [(slot, text)] }

/-- Looks at what was given last. -/
def settle (g : Given) : Except Halt Given :=
  match g.pending with
  | none => .ok g
  | some (_, none) => .error .misuse
  | some (slot, some text) => { g with pending := none }.fill slot text

/-- Whether the last option still waits for its value. -/
def isAwaiting (g : Given) : Bool := g.pending.any (·.2.isNone)

/-- Notes a switch, which may be given once. A request for help ends the reading, but a fault in what
was given before it goes first. -/
def take (g : Given) (s : Switch) : Except Halt Given := do
  let g ← g.settle
  if s = .help ∨ s = .version then .error .information
  else if g.switches.contains s then .error .misuse
  else .ok { g with switches := s :: g.switches }

/-- Fills a slot with an attached value, or waits for the next argument. -/
def assign (g : Given) (slot : Slot) (attached : Option String) : Except Halt Given := do
  let g ← g.settle
  match attached with
  | some text => g.fill slot text
  | none => .ok { g with pending := some (slot, none) }

/-- Whether switches that exclude each other were given together. -/
def isConflicting (g : Given) : Bool :=
  g.switches.contains .verbose && g.switches.contains .quiet

/-- What was given at a level whose arguments have been read. -/
def finish (g : Given) (operands : List Slot) : Except Halt Given := do
  let g ← g.settle
  if g.isConflicting ∨ !operands.all fun slot => (g.value? slot).isSome then .error .misuse
  else .ok g

end Given

namespace Grammar

/-- The argument with one of the long names, with the value behind an equals sign. -/
def long (gr : Grammar) (g : Given) (text : List Char) : Except Halt Given :=
  let (name, attached) := match Text.split? ['='] [] text with
    | some (name, value) => (String.ofList name, some (String.ofList value))
    | none => (String.ofList text, none)
  match gr.switches.find? (·.2.1 == name), gr.options.find? (·.2.1 == name) with
  | some (_, _, s), _ => if attached.isSome then .error .misuse else g.take s
  | none, some (_, _, slot) => g.assign slot attached
  | none, none => .error .misuse

/-- The value attached to a short name: the rest of the argument, perhaps behind an equals sign. -/
def attached? : List Char → Option String
  | [] => none
  | '=' :: text => some (.ofList text)
  | text => some (.ofList text)

/-- An argument of short names, the last of which may have a value. -/
def short (gr : Grammar) (g : Given) : List Char → Except Halt Given
  | [] => .ok g
  | c :: rest =>
    match gr.switches.find? (·.1 == some c), gr.options.find? (·.1 == some c) with
    | some (_, _, s), _ => do gr.short (← g.take s) rest
    | none, some (_, _, slot) => g.assign slot (attached? rest)
    | none, none => .error .misuse

/-- The next argument by its place. -/
def operand (g : Given) (places : List Slot) (text : String) :
    Except Halt (Given × List Slot) := do
  let g ← g.settle
  match places with
  | [] => .error .misuse
  | slot :: places => .ok ({ g with pending := some (slot, some text) }, places)

/-- The arguments of a level up to a command, which is answered with the arguments behind it. Behind a
double dash all arguments are operands. -/
def readLevel (gr : Grammar) (g : Given) (places : List Slot) (onlyOperands : Bool) :
    List String → Except Halt (Given × Option (String × List String))
  | [] => .ok (g, none)
  | arg :: args =>
    if onlyOperands then do
      let (g, places) ← operand g places arg
      gr.readLevel g places true args
    else if !g.isAwaiting ∧ gr.commands.contains arg then .ok (g, some (arg, args))
    else
      match arg.toList, g.pending with
      | ['-', '-'], _ => gr.readLevel g places true args
      | '-' :: '-' :: text, _ => do
        let g ← gr.long g text
        gr.readLevel g places false args
      | '-' :: c :: text, _ => do
        let g ← gr.short g (c :: text)
        gr.readLevel g places false args
      | _, some (slot, none) =>
        gr.readLevel { g with pending := some (slot, some arg) } places false args
      | _, _ => do
        let (g, places) ← operand g places arg
        gr.readLevel g places false args

/-- Reads the arguments of a level from their beginning. -/
def start (gr : Grammar) (args : List String) :
    Except Halt (Given × Option (String × List String)) :=
  gr.readLevel .empty gr.operands false args

end Grammar

end Stencil
