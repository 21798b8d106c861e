import Stencil.Template.Node

/-!
# Reading a template by descent

The tree of a template can be read without a stack: a sequence of nodes is read up to a tag that ends it,
and a block is an opening tag, a sequence and the tag that has to end it. Where the stack keeps a block
that is open, the descent waits for the sequence in it. So at each place the stack is that of the blocks
that are waited for, and both find the same tree or the same fault.

* `Descent.sequence`: a sequence of nodes and the tag that ends it, and `Descent.ofTokens`: a template.
* `Descent.shortens_sequence`: what is left behind a sequence is no longer than what was read.
* `Descent.follows_sequence`: the stack goes on behind a sequence as the descent does.
* `Descent.ofTokens_eq`: the descent reads what the stack reads.
-/

namespace Stencil

namespace Descent

/-- What is wrong with a template, and where. -/
abbrev Fault := BlockFault × Nat

/-- Why a sequence of nodes ends: with the template, or at a tag that belongs to the block around it, with
the byte position of the tag and the tokens behind it. -/
inductive Stop where
  | ended
  | eachClose (offset : Nat) (rest : List Token)
  | otherwise (offset : Nat) (rest : List Token)
  | ifClose (offset : Nat) (rest : List Token)

namespace Stop

/-- The tokens from the end of a sequence on. -/
def tokens : Stop → List Token
  | ended => []
  | eachClose offset rest => ⟨.tag .eachClose, offset, 0⟩ :: rest
  | otherwise offset rest => ⟨.tag .otherwise, offset, 0⟩ :: rest
  | ifClose offset rest => ⟨.tag .ifClose, offset, 0⟩ :: rest

/-- The fault of a tag that ends a sequence and does not belong there; `unclosed` is that of a template
that ends there. -/
def unexpected (unclosed : Fault) : Stop → Fault
  | ended => unclosed
  | eachClose offset _ => (.unexpectedEachClose, offset)
  | otherwise offset _ => (.strayOtherwise, offset)
  | ifClose offset _ => (.unexpectedIfClose, offset)

end Stop

/-- Reads a sequence of nodes, up to the tag that ends it. -/
abbrev Reading := List Token → Except Fault (List Node × Stop)

/-- A loop behind its opening tag, and the tokens behind it. -/
def loop (read : Reading) (key : String) (offset : Nat) (tokens : List Token) :
    Except Fault (Node × List Token) := do
  let (body, stop) ← read tokens
  match stop with
  | .eachClose _ rest => return (.loop key offset body, rest)
  | stop => throw (stop.unexpected (.unclosedLoop key, offset))

/-- The second branch of a conditional behind its middle tag. -/
def secondBranch (read : Reading) (c : Condition) (offset : Nat) (whenTrue : List Node)
    (tokens : List Token) : Except Fault (Node × List Token) := do
  let (whenFalse, stop) ← read tokens
  match stop with
  | .ifClose _ rest => return (.conditional c offset whenTrue (some whenFalse), rest)
  | .otherwise repeated _ => throw (.repeatedOtherwise, repeated)
  | stop => throw (stop.unexpected (.unclosedConditional c, offset))

/-- A conditional behind its opening tag, and the tokens behind it. -/
def conditional (read : Reading) (c : Condition) (offset : Nat) (tokens : List Token) :
    Except Fault (Node × List Token) := do
  let (whenTrue, stop) ← read tokens
  match stop with
  | .ifClose _ rest => return (.conditional c offset whenTrue none, rest)
  | .otherwise _ rest => secondBranch read c offset whenTrue rest
  | stop => throw (stop.unexpected (.unclosedConditional c, offset))

/-- What follows a node, with the node in front of it. -/
def behind (node : Node) (rest : Except Fault (List Node × Stop)) : Except Fault (List Node × Stop) :=
  rest.map fun (nodes, stop) => (node :: nodes, stop)

/-- **A sequence of nodes**, up to the tag that ends it. There is enough fuel where it is more than there
are tokens. -/
def sequence : Nat → Reading
  | 0, _ => .ok ([], .ended)
  | _ + 1, [] => .ok ([], .ended)
  | fuel + 1, ⟨lexeme, start, _⟩ :: tokens =>
    match lexeme with
    | .plain text => behind (.plain text) (sequence fuel tokens)
    | .tag (.placeholder path) => behind (.placeholder path) (sequence fuel tokens)
    | .tag (.eachOpen key) => do
      let (node, rest) ← loop (sequence fuel) key start tokens
      behind node (sequence fuel rest)
    | .tag (.ifOpen c) => do
      let (node, rest) ← conditional (sequence fuel) c start tokens
      behind node (sequence fuel rest)
    | .tag .eachClose => .ok ([], .eachClose start tokens)
    | .tag .otherwise => .ok ([], .otherwise start tokens)
    | .tag .ifClose => .ok ([], .ifClose start tokens)

/-- **The tree of a template**, read by descent. -/
def ofTokens (tokens : List Token) : Except Fault (List Node) := do
  let (nodes, stop) ← sequence (tokens.length + 1) tokens
  match stop with
  | .ended => return nodes
  | .eachClose offset _ => throw (.unexpectedEachClose, offset)
  | .otherwise offset _ => throw (.strayOtherwise, offset)
  | .ifClose offset _ => throw (.unexpectedIfClose, offset)

variable {read : Reading} {opened : List (OpenBlock × List Node)} {done nodes : List Node}
  {tokens rest : List Token} {node : Node} {stop : Stop} {key : String} {c : Condition} {offset n : Nat}

/-! ### What is left -/

theorem bind_eq_ok {α β : Type} {x : Except Fault α} {f : α → Except Fault β} {b : β}
    (h : x >>= f = .ok b) : ∃ a, x = .ok a ∧ f a = .ok b := by
  cases x with
  | error fault => cases h
  | ok a => exact ⟨a, rfl, h⟩

/-- What is read behind a node comes after it. -/
theorem behind_eq_ok {r : Except Fault (List Node × Stop)} (h : behind node r = .ok (nodes, stop)) :
    ∃ more, r = .ok (more, stop) ∧ nodes = node :: more := by
  cases r with
  | error fault => cases h
  | ok result =>
    obtain ⟨rfl, rfl⟩ := Prod.mk.inj (Except.ok.inj h)
    exact ⟨_, rfl, rfl⟩

/-- Behind a sequence there is no more than what was read. -/
def Shortens (read : Reading) : Prop :=
  ∀ {tokens nodes stop}, read tokens = .ok (nodes, stop) → stop.tokens.length ≤ tokens.length

/-- Reading a loop takes at least its closing tag. -/
theorem length_lt_of_loop (hread : Shortens read)
    (h : loop read key offset tokens = .ok (node, rest)) : rest.length < tokens.length := by
  obtain ⟨⟨body, stop⟩, hbody, h⟩ := bind_eq_ok h
  have hle := hread hbody
  cases stop with
  | eachClose offset rest =>
    cases h
    exact hle
  | _ => cases h

theorem length_lt_of_secondBranch {whenTrue : List Node} (hread : Shortens read)
    (h : secondBranch read c offset whenTrue tokens = .ok (node, rest)) :
    rest.length < tokens.length := by
  obtain ⟨⟨whenFalse, stop⟩, hbranch, h⟩ := bind_eq_ok h
  have hle := hread hbranch
  cases stop with
  | ifClose offset rest =>
    cases h
    exact hle
  | _ => cases h

/-- Reading a conditional takes at least its closing tag. -/
theorem length_lt_of_conditional (hread : Shortens read)
    (h : conditional read c offset tokens = .ok (node, rest)) : rest.length < tokens.length := by
  obtain ⟨⟨whenTrue, stop⟩, hbranch, h⟩ := bind_eq_ok h
  have hle := hread hbranch
  cases stop with
  | ifClose offset rest =>
    cases h
    exact hle
  | otherwise offset' rest' => exact Nat.lt_trans (length_lt_of_secondBranch hread h) hle
  | _ => cases h

/-- A sequence leaves no more tokens than there were. -/
theorem shortens_sequence (fuel : Nat) : Shortens (sequence fuel) := by
  induction fuel with
  | zero =>
    intro tokens nodes stop h
    cases h
    exact Nat.zero_le _
  | succ fuel ih =>
    intro tokens nodes stop h
    have hbehind : ∀ {node : Node} {rest : List Token}, rest.length ≤ tokens.length →
        behind node (sequence fuel rest) = .ok (nodes, stop) →
        stop.tokens.length ≤ tokens.length := by
      intro node rest hle h
      obtain ⟨more, hmore, -⟩ := behind_eq_ok h
      exact Nat.le_trans (ih hmore) hle
    cases tokens with
    | nil =>
      cases h
      exact Nat.le_refl 0
    | cons t tokens =>
      obtain ⟨lexeme, start, stop'⟩ := t
      have htail : tokens.length ≤ (⟨lexeme, start, stop'⟩ :: tokens : List Token).length :=
        Nat.le_succ _
      cases lexeme with
      | plain text => exact hbehind htail h
      | tag tag =>
        cases tag with
        | placeholder path => exact hbehind htail h
        | eachOpen key =>
          obtain ⟨⟨node, rest⟩, hloop, h⟩ := bind_eq_ok h
          have hlt := length_lt_of_loop ih hloop
          exact hbehind (by omega) h
        | ifOpen c =>
          obtain ⟨⟨node, rest⟩, hconditional, h⟩ := bind_eq_ok h
          have hlt := length_lt_of_conditional ih hconditional
          exact hbehind (by omega) h
        | _ =>
          cases h
          exact Nat.le_refl _

/-! ### The stack -/

/-- **The stack goes on behind a sequence**, as long as it is one of less than `n` tokens. -/
def Follows (read : Reading) (n : Nat) : Prop :=
  ∀ {opened : List (OpenBlock × List Node)} {done : List Node} {tokens : List Token},
    tokens.length < n → Node.ofTokensIn opened done tokens =
      read tokens >>= fun (nodes, stop) => Node.ofTokensIn opened (nodes.reverse ++ done) stop.tokens

/-- A loop is left where the descent returns from it. -/
theorem ofTokensIn_loop (hread : Follows read n) (hlength : tokens.length < n) :
    Node.ofTokensIn ((.loop key offset, done) :: opened) [] tokens =
      loop read key offset tokens >>= fun (node, rest) => Node.ofTokensIn opened (node :: done) rest := by
  rw [hread hlength, loop]
  cases read tokens with
  | error fault => rfl
  | ok result =>
    obtain ⟨body, stop⟩ := result
    cases stop with
    | eachClose offset' rest => simp [Stop.tokens, Node.ofTokensIn, bind, Except.bind, pure, Except.pure]
    | _ => rfl

/-- **The second branch**: the stack machine reads on as the recursion does. -/
theorem ofTokensIn_secondBranch {whenTrue : List Node} (hread : Follows read n)
    (hlength : tokens.length < n) :
    Node.ofTokensIn ((.secondBranch c offset whenTrue, done) :: opened) [] tokens =
      secondBranch read c offset whenTrue tokens >>= fun (node, rest) =>
        Node.ofTokensIn opened (node :: done) rest := by
  rw [hread hlength, secondBranch]
  cases read tokens with
  | error fault => rfl
  | ok result =>
    obtain ⟨whenFalse, stop⟩ := result
    cases stop with
    | ifClose offset' rest => simp [Stop.tokens, Node.ofTokensIn, bind, Except.bind, pure, Except.pure]
    | _ => rfl

/-- **A conditional**: the stack machine reads on as the recursion does. -/
theorem ofTokensIn_conditional (hshort : Shortens read) (hread : Follows read n)
    (hlength : tokens.length < n) :
    Node.ofTokensIn ((.firstBranch c offset, done) :: opened) [] tokens =
      conditional read c offset tokens >>= fun (node, rest) =>
        Node.ofTokensIn opened (node :: done) rest := by
  rw [hread hlength, conditional]
  cases hbranch : read tokens with
  | error fault => rfl
  | ok result =>
    obtain ⟨whenTrue, stop⟩ := result
    cases stop with
    | ifClose offset' rest => simp [Stop.tokens, Node.ofTokensIn, bind, Except.bind, pure, Except.pure]
    | otherwise offset' rest =>
      have hle := hshort hbranch
      have hrest : rest.length < n := Nat.lt_trans hle hlength
      have hsecond : Node.ofTokensIn ((.secondBranch c offset whenTrue, done) :: opened) [] rest = _ :=
        ofTokensIn_secondBranch hread hrest
      simpa [Stop.tokens, Node.ofTokensIn, bind, Except.bind] using hsecond
    | _ => rfl

/-- A node that is done stands in front of the sequence that follows it. -/
theorem ofTokensIn_behind (node : Node) (r : Except Fault (List Node × Stop)) :
    (r >>= fun (nodes, stop) => Node.ofTokensIn opened (nodes.reverse ++ node :: done) stop.tokens) =
      behind node r >>= fun (nodes, stop) =>
        Node.ofTokensIn opened (nodes.reverse ++ done) stop.tokens := by
  cases r with
  | error fault => rfl
  | ok result => simp [behind, bind, Except.bind, Except.map]

/-- **A sequence**: the stack machine reads on as the recursion does, by induction on the fuel. -/
theorem follows_sequence (fuel : Nat) : Follows (sequence fuel) fuel := by
  induction fuel with
  | zero => exact fun h => absurd h (Nat.not_lt_zero _)
  | succ fuel ih =>
    intro opened done tokens hlength
    cases tokens with
    | nil => rfl
    | cons t tokens =>
      obtain ⟨lexeme, start, stop⟩ := t
      have hfuel : tokens.length < fuel := Nat.lt_of_succ_lt_succ hlength
      have hshort : Shortens (sequence fuel) := shortens_sequence fuel
      -- a node is done, and the sequence goes on behind it
      have hnode : ∀ {node : Node} {rest : List Token}, rest.length < fuel →
          Node.ofTokensIn opened (node :: done) rest = behind node (sequence fuel rest) >>=
            fun (nodes, stop) => Node.ofTokensIn opened (nodes.reverse ++ done) stop.tokens :=
        fun h => (ih h).trans (ofTokensIn_behind _ _)
      cases lexeme with
      | plain text => exact hnode hfuel
      | tag tag =>
        cases tag with
        | placeholder path => exact hnode hfuel
        | eachOpen key =>
          rw [Node.ofTokensIn, ofTokensIn_loop ih hfuel, sequence]
          cases hloop : loop (sequence fuel) key start tokens with
          | error fault => rfl
          | ok result =>
            have hlt := length_lt_of_loop hshort hloop
            exact hnode (Nat.lt_trans hlt hfuel)
        | ifOpen c =>
          rw [Node.ofTokensIn, ofTokensIn_conditional hshort ih hfuel, sequence]
          cases hconditional : conditional (sequence fuel) c start tokens with
          | error fault => rfl
          | ok result =>
            have hlt := length_lt_of_conditional hshort hconditional
            exact hnode (Nat.lt_trans hlt hfuel)
        | _ => rfl

/-- **The descent reads what the stack reads**: the same tree, or the same fault at the same place. -/
theorem ofTokens_eq (tokens : List Token) : ofTokens tokens = Node.ofTokens tokens := by
  rw [Node.ofTokens, follows_sequence (tokens.length + 1) (Nat.lt_succ_self _), ofTokens]
  cases sequence (tokens.length + 1) tokens with
  | error fault => rfl
  | ok result =>
    obtain ⟨nodes, stop⟩ := result
    cases stop with
    | ended => simp [Stop.tokens, Node.ofTokensIn, bind, Except.bind, pure, Except.pure]
    | _ => rfl

end Descent

end Stencil
