import Stencil.Template.Node

/-!
# Outlines

The outline of a template lists the keys it uses and how deep its blocks are nested, and warns of
blocks that rendering will not resolve the way they are written: rendering resolves neither a block
inside another of its kind, nor a condition on the row of a loop.
-/

namespace Stencil

/-- A block around a node. -/
inductive Enclosing where
  /-- A loop, with the fields of its rows that its body reads. -/
  | loop (key : String) (fields : List String)
  | conditional

namespace Enclosing

/-- The key, if the block is a loop. -/
def loopKey? : Enclosing → Option String
  | loop key _ => some key
  | conditional => none

/-- Whether the block is a conditional. -/
def isConditional : Enclosing → Bool
  | loop .. => false
  | conditional => true

/-- The key of a loop whose row a condition on `name` seems to test. -/
def rowReader? (name : String) : Enclosing → Option String
  | loop key fields => if key == name || fields.contains name then some key else none
  | conditional => none

end Enclosing

/-- A place in a template where a key is used, with the blocks around it from the innermost out. -/
inductive Site where
  | placeholder (path : String)
  | loop (key : String) (offset : Nat) (around : List Enclosing)
  | conditional (condition : Condition) (offset : Nat) (around : List Enclosing)

/-- The field of the rows of loop `key` that a placeholder reads, if it reads one. -/
def rowField? (key path : String) : Option String :=
  (Text.after? (key.toList ++ ['.']) path.toList).map fun rest =>
    String.ofList (rest.takeWhile (· != '.'))

namespace Node

mutual

/-- The paths of the placeholders in a node, at any depth. -/
def paths : Node → List String
  | plain _ => []
  | placeholder path => [path]
  | loop _ _ body => pathsOfAll body
  | conditional _ _ whenTrue whenFalse => pathsOfAll whenTrue ++ pathsOfBranch whenFalse

/-- The paths of the placeholders in several nodes. -/
def pathsOfAll : List Node → List String
  | [] => []
  | n :: ns => n.paths ++ pathsOfAll ns

/-- The paths of the placeholders in a branch that may be absent. -/
def pathsOfBranch : Option (List Node) → List String
  | none => []
  | some ns => pathsOfAll ns

end

mutual

/-- The sites of a node in their order in the template. -/
def sites (around : List Enclosing) : Node → List Site
  | plain _ => []
  | placeholder path => [.placeholder path]
  | loop key offset body =>
    .loop key offset around ::
      sitesOfAll (.loop key ((pathsOfAll body).filterMap (rowField? key)) :: around) body
  | conditional condition offset whenTrue whenFalse =>
    .conditional condition offset around ::
      (sitesOfAll (.conditional :: around) whenTrue ++
        sitesOfBranch (.conditional :: around) whenFalse)

/-- The sites in several nodes. -/
def sitesOfAll (around : List Enclosing) : List Node → List Site
  | [] => []
  | n :: ns => n.sites around ++ sitesOfAll around ns

/-- The sites in a branch that may be absent. -/
def sitesOfBranch (around : List Enclosing) : Option (List Node) → List Site
  | none => []
  | some ns => sitesOfAll around ns

end

end Node

/-- What a warning is about. -/
inductive Concern where
  | nestedLoop (key outer : String)
  | nestedConditional (condition : Condition)
  | rowCondition (condition : Condition) (loop : String)
  deriving DecidableEq

namespace Concern

/-- What is said of a concern. A block is named by its opening tag. -/
def message : Concern → String
  | nestedLoop key outer =>
    (Tag.eachOpen key).text ++ " is nested inside " ++ (Tag.eachOpen outer).text ++
      " and will not be expanded"
  | nestedConditional condition =>
    (Tag.ifOpen condition).text ++ " is nested inside another " ++ BlockFault.conditionalTag ++
      " and will not be resolved"
  | rowCondition condition loop =>
    (Tag.ifOpen condition).text ++ " inside " ++ (Tag.eachOpen loop).text ++
      " is evaluated against top-level data, not the loop row"

/-- What is said of a loop inside another one. -/
theorem message_nestedLoop (key outer : String) : (nestedLoop key outer).message =
    "\x7b\x7b#each " ++ key ++ "\x7d\x7d is nested inside \x7b\x7b#each " ++ outer ++
      "\x7d\x7d and will not be expanded" := by
  apply String.toList_inj.1
  simp [message, Tag.text_eachOpen]

/-- What is said of a conditional inside another one. -/
theorem message_nestedConditional (condition : Condition) : (nestedConditional condition).message =
    "\x7b\x7b#if " ++ condition.text ++ "\x7d\x7d is nested inside another " ++
      "\x7b\x7b#if\x7d\x7d and will not be resolved" := by
  apply String.toList_inj.1
  simp [message, Tag.text_ifOpen, BlockFault.conditionalTag, Tag.braced, Tag.opening, Tag.closing]

/-- What is said of a condition that seems to be about a row. -/
theorem message_rowCondition (condition : Condition) (loop : String) :
    (rowCondition condition loop).message =
      "\x7b\x7b#if " ++ condition.text ++ "\x7d\x7d inside \x7b\x7b#each " ++ loop ++
        "\x7d\x7d is evaluated against top-level data, not the loop row" := by
  apply String.toList_inj.1
  simp [message, Tag.text_ifOpen, Tag.text_eachOpen]

end Concern

/-- A concern, and where it arises. -/
structure Warning where
  concern : Concern
  offset : Nat
  deriving DecidableEq

namespace Site

/-- The path, if the site is a placeholder. -/
def path? : Site → Option String
  | placeholder path => some path
  | _ => none

/-- The key, if the site is a loop. -/
def loopKey? : Site → Option String
  | loop key _ _ => some key
  | _ => none

/-- The key of the condition, if the site is a conditional. -/
def conditionKey? : Site → Option String
  | conditional condition _ _ => some condition.key
  | _ => none

/-- How many blocks are open inside the block at this site. -/
def depth : Site → Nat
  | placeholder _ => 0
  | loop _ _ around => around.length + 1
  | conditional _ _ around => around.length + 1

/-- The warning that a site gives, in view of the blocks around it. -/
def warning? : Site → Option Warning
  | placeholder _ => none
  | loop key offset around =>
    (around.findSome? Enclosing.loopKey?).map fun outer => ⟨.nestedLoop key outer, offset⟩
  | conditional condition offset around =>
    if around.any Enclosing.isConditional then some ⟨.nestedConditional condition, offset⟩
    else (around.findSome? (Enclosing.rowReader? condition.key)).map fun loop =>
      ⟨.rowCondition condition loop, offset⟩

end Site

/-- What a template is made of. -/
structure Outline where
  placeholders : List String
  loops : List String
  conditions : List String
  maxDepth : Nat
  warnings : List Warning

namespace Outline

/-- The names of a list, each once and in order. -/
def names (ns : List String) : List String := Fields.keys (Fields.ofPairs (ns.map (·, ())))

/-- The outline of nodes. -/
def ofNodes (nodes : List Node) : Outline :=
  let sites := Node.sitesOfAll [] nodes
  { placeholders := names (sites.filterMap Site.path?)
    loops := names (sites.filterMap Site.loopKey?)
    conditions := names (sites.filterMap Site.conditionKey?)
    maxDepth := (sites.map Site.depth).foldl max 0
    warnings := sites.filterMap Site.warning? }

end Outline

end Stencil
