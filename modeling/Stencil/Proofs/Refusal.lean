import Stencil.Proofs.Parsing
import Stencil.Proofs.Partition
import Stencil.Proofs.Positions

/-!
# The token that is reported

Where a template has no tree, one token is reported. As long as tokens could still be completed to a
balanced sequence they lead to a stack of open blocks, and the stack tells what becomes of the next
token: it is placed, or it is refused whatever follows it. So the first token behind which nothing can
be completed is the one reported, and where there is none, it is the opening tag of the innermost block
that is left open.

* `Viable`: tokens that can be completed. `Innermost`: the block that is open behind them.
* `Refusal`, `Unclosed`: what is said of a token that cannot follow, and of a block that is left open.
* `Opened.advance`, `ofTokensIn_refused`: a stack places a token, or refuses it for good.
* `opened_of_viable`: tokens that can be completed lead to a stack.
* `reported_at_first_refused`: what is reported, and where.
-/

namespace Stencil

variable {opened : List (OpenBlock × List Node)} {done : List Node} {front back passed : List Token}
  {t o : Token} {block : OpenBlock} {lexeme : Lexeme} {halved : Bool}

/-- More tokens can follow with which the whole has a tree. -/
def Viable (tokens : List Token) : Prop := ∃ more nodes, Node.ofTokens (tokens ++ more) = .ok nodes

/-- **The innermost open block** behind some tokens, by its opening tag: nothing but balanced tokens
stands behind that tag, or behind the middle tag of the block if it has one. -/
inductive Innermost (o : Token) : Bool → List Token → Prop where
  | opened {before inside : List Token} : o.lexeme.opensBlock = true →
    Balanced (inside.map Token.lexeme) → Innermost o false (before ++ o :: inside)
  | halved {c : Condition} {before first inside : List Token} {m : Token} :
    o.lexeme = .tag (.ifOpen c) → Balanced (first.map Token.lexeme) → m.lexeme = .tag .otherwise →
    Balanced (inside.map Token.lexeme) → Innermost o true (before ++ o :: (first ++ m :: inside))

/-- **What is said of a token** that cannot follow those in front of it: a closing tag that does not
belong to the innermost open block, a second middle tag in it, or a middle tag where that block is no
conditional. -/
inductive Refusal (front : List Token) : Lexeme → String → Prop where
  | eachClose : (∀ o halved key, Innermost o halved front → o.lexeme ≠ .tag (.eachOpen key)) →
    Refusal front (.tag .eachClose) "unexpected \x7b\x7b/each\x7d\x7d"
  | ifClose : (∀ o halved c, Innermost o halved front → o.lexeme ≠ .tag (.ifOpen c)) →
    Refusal front (.tag .ifClose) "unexpected \x7b\x7b/if\x7d\x7d"
  | repeated {o : Token} : Innermost o true front →
    Refusal front (.tag .otherwise)
      "duplicate \x7b\x7b#else\x7d\x7d in the same \x7b\x7b#if\x7d\x7d block"
  | stray : (∀ o halved c, Innermost o halved front → o.lexeme ≠ .tag (.ifOpen c)) →
    Refusal front (.tag .otherwise) "\x7b\x7b#else\x7d\x7d outside of an \x7b\x7b#if\x7d\x7d block"

/-- **What is said of a block** that is left open: the name of its opening tag. -/
inductive Unclosed : Lexeme → String → Prop where
  | loop (key : String) :
    Unclosed (.tag (.eachOpen key)) ("unclosed \x7b\x7b#each " ++ key ++ "\x7d\x7d")
  | conditional (c : Condition) :
    Unclosed (.tag (.ifOpen c)) ("unclosed \x7b\x7b#if " ++ c.text ++ "\x7d\x7d")

theorem Innermost.mem {tokens : List Token} (h : Innermost o halved tokens) : o ∈ tokens := by
  cases h with
  | opened _ _ => simp
  | halved _ _ _ _ => simp

/-! ### Stacks of open blocks -/

/-- Behind the tokens that make up a stack, reading goes on with the stack. -/
theorem ofTokens_append_of_opened (h : Opened Token.lexeme Token.StartsAt opened done passed)
    (rest : List Token) :
    Node.ofTokens (passed ++ rest) = Node.ofTokensIn opened done rest := by
  have hinside : ∀ {done : List Node} {ts : List Token} (opened : List (OpenBlock × List Node)) rest,
      Spells Token.lexeme Token.StartsAt done.reverse ts →
      Node.ofTokensIn opened [] (ts ++ rest) = Node.ofTokensIn opened done rest := by
    intro done ts opened rest hts
    rw [ofTokensIn_append hts, List.reverse_reverse, List.append_nil]
  -- on the stack, from the outermost block in
  induction h generalizing rest with
  | outermost hxs => exact hinside [] rest hxs
  | @loop _ _ _ x _ _ _ _ _ hx hs hys ih =>
    cases x
    cases hx
    cases hs
    rw [List.append_assoc, ih, List.cons_append, Node.ofTokensIn]
    exact hinside _ rest hys
  | @firstBranch _ _ _ x _ _ _ _ _ hx hs hys ih =>
    cases x
    cases hx
    cases hs
    rw [List.append_assoc, ih, List.cons_append, Node.ofTokensIn]
    exact hinside _ rest hys
  | @secondBranch _ _ whenTrue _ x y _ _ _ _ _ _ hx hs hys hy hzs ih =>
    cases x
    cases y
    cases hx
    cases hy
    cases hs
    rw [List.append_assoc, ih, List.cons_append, Node.ofTokensIn, List.append_assoc,
      ofTokensIn_append hys, List.cons_append, Node.ofTokensIn, List.append_nil, List.reverse_reverse]
    exact hinside _ rest hzs

/-- Every stack can be closed, block after block. -/
theorem exists_closing (opened : List (OpenBlock × List Node)) (done : List Node) :
    ∃ more nodes, Node.ofTokensIn opened done more = .ok nodes := by
  induction opened generalizing done with
  | nil => exact ⟨[], _, rfl⟩
  | cons entry outer ih =>
    obtain ⟨block, before⟩ := entry
    cases block with
    | loop key offset =>
      obtain ⟨more, nodes, hmore⟩ := ih (.loop key offset done.reverse :: before)
      exact ⟨⟨.tag .eachClose, 0, 0⟩ :: more, nodes, hmore⟩
    | firstBranch c offset =>
      obtain ⟨more, nodes, hmore⟩ := ih (.conditional c offset done.reverse none :: before)
      exact ⟨⟨.tag .ifClose, 0, 0⟩ :: more, nodes, hmore⟩
    | secondBranch c offset whenTrue =>
      obtain ⟨more, nodes, hmore⟩ := ih (.conditional c offset whenTrue (some done.reverse) :: before)
      exact ⟨⟨.tag .ifClose, 0, 0⟩ :: more, nodes, hmore⟩

theorem Opened.viable (h : Opened Token.lexeme Token.StartsAt opened done passed) :
    Viable passed := by
  obtain ⟨more, nodes, hmore⟩ := exists_closing opened done
  exact ⟨more, nodes, (ofTokens_append_of_opened h more).trans hmore⟩

theorem Viable.of_append (h : Viable (front ++ back)) : Viable front := by
  obtain ⟨more, nodes, hmore⟩ := h
  rw [List.append_assoc] at hmore
  exact ⟨back ++ more, nodes, hmore⟩

/-- Where tokens can be completed, so can all of them up to one. -/
theorem Viable.of_split {tokens : List Token} (h : Viable tokens) (hsplit : tokens = front ++ t :: back) :
    Viable (front ++ [t]) := by
  rw [hsplit, List.append_cons] at h
  exact h.of_append

/-! ### One token -/

/-- The fault of a token that cannot be placed, by the innermost open block. -/
def refusal? (opened : List (OpenBlock × List Node)) (lexeme : Lexeme) : Option BlockFault :=
  match lexeme, opened with
  | .tag .eachClose, (.loop .., _) :: _ => none
  | .tag .eachClose, _ => some .unexpectedEachClose
  | .tag .otherwise, (.firstBranch .., _) :: _ => none
  | .tag .otherwise, (.secondBranch .., _) :: _ => some .repeatedOtherwise
  | .tag .otherwise, _ => some .strayOtherwise
  | .tag .ifClose, (.firstBranch .., _) :: _ => none
  | .tag .ifClose, (.secondBranch .., _) :: _ => none
  | .tag .ifClose, _ => some .unexpectedIfClose
  | _, _ => none

/-- **A token that is not refused is placed**, and leads to a stack again. -/
theorem Opened.advance (h : Opened Token.lexeme Token.StartsAt opened done passed)
    (ht : refusal? opened t.lexeme = none) :
    ∃ opened' done', Opened Token.lexeme Token.StartsAt opened' done' (passed ++ [t]) := by
  generalize hlexeme : t.lexeme = lexeme at ht
  have hempty : Spells Token.lexeme Token.StartsAt ([] : List Node).reverse [] := .nil
  -- a node of the innermost block, or a tag that opens, goes on with or closes one
  cases lexeme with
  | plain text => exact ⟨_, _, h.push (.plain hlexeme .nil)⟩
  | tag tag =>
    cases tag with
    | placeholder path => exact ⟨_, _, h.push (.placeholder hlexeme .nil)⟩
    | eachOpen key => exact ⟨_, _, .loop h hlexeme rfl hempty⟩
    | ifOpen c => exact ⟨_, _, .firstBranch h hlexeme rfl hempty⟩
    | eachClose =>
      cases h with
      | loop h hx hs hys =>
        have hloop := h.push (.loop hx hs hys hlexeme .nil)
        exact ⟨_, _, by simpa using hloop⟩
      | _ => cases ht
    | otherwise =>
      cases h with
      | firstBranch h hx hs hys =>
        have hbranch := Opened.secondBranch h hx hs hys hlexeme hempty
        exact ⟨_, _, by simpa using hbranch⟩
      | _ => cases ht
    | ifClose =>
      cases h with
      | firstBranch h hx hs hys =>
        have hsingle := h.push (.single hx hs hys hlexeme .nil)
        exact ⟨_, _, by simpa using hsingle⟩
      | secondBranch h hx hs htrue hy hzs =>
        have hdouble := h.push (.double hx hs htrue hy hzs hlexeme .nil)
        exact ⟨_, _, by simpa using hdouble⟩
      | _ => cases ht

/-- **A token that is refused** is reported, whatever follows it. -/
theorem ofTokensIn_refused {fault : BlockFault} (ht : refusal? opened t.lexeme = some fault)
    (done : List Node) (rest : List Token) :
    Node.ofTokensIn opened done (t :: rest) = .error (fault, t.start) := by
  obtain ⟨lexeme, start, stop⟩ := t
  unfold refusal? at ht
  -- reading tells the innermost blocks apart in the same way
  split at ht <;> simp_all [Node.ofTokensIn]

theorem Opened.run (h : Opened Token.lexeme Token.StartsAt opened done passed)
    (hviable : Viable (passed ++ front)) :
    ∃ opened' done', Opened Token.lexeme Token.StartsAt opened' done' (passed ++ front) := by
  induction front generalizing opened done passed with
  | nil => exact ⟨opened, done, (List.append_nil passed).symm ▸ h⟩
  | cons t front ih =>
    have hassoc : passed ++ t :: front = passed ++ [t] ++ front := List.append_cons passed t front
    cases hrefused : refusal? opened t.lexeme with
    | none =>
      obtain ⟨opened', done', h'⟩ := h.advance hrefused
      rw [hassoc] at hviable ⊢
      exact ih h' hviable
    | some fault =>
      -- nothing that follows could complete the tokens
      obtain ⟨more, nodes, hmore⟩ := hviable
      rw [List.append_assoc, ofTokens_append_of_opened h, List.cons_append,
        ofTokensIn_refused hrefused] at hmore
      cases hmore

/-- **Tokens that can be completed lead to a stack.** -/
theorem opened_of_viable (h : Viable front) :
    ∃ opened done, Opened Token.lexeme Token.StartsAt opened done front := by
  have hempty : Opened Token.lexeme Token.StartsAt [] [] [] := .outermost .nil
  exact hempty.run h

theorem refused_of_not_viable (h : Opened Token.lexeme Token.StartsAt opened done front)
    (hstop : ¬ Viable (front ++ [t])) : ∃ fault, refusal? opened t.lexeme = some fault := by
  cases hrefused : refusal? opened t.lexeme with
  | some fault => exact ⟨fault, rfl⟩
  | none =>
    obtain ⟨opened', done', hopened⟩ := h.advance hrefused
    exact absurd hopened.viable hstop

/-! ### The innermost open block -/

/-- The block on top of a stack is the one that the token opened. -/
inductive OpenedBy (o : Token) : Bool → OpenBlock → Prop where
  | loop {key : String} : o.lexeme = .tag (.eachOpen key) → OpenedBy o false (.loop key o.start)
  | firstBranch {c : Condition} :
    o.lexeme = .tag (.ifOpen c) → OpenedBy o false (.firstBranch c o.start)
  | secondBranch {c : Condition} {whenTrue : List Node} :
    o.lexeme = .tag (.ifOpen c) → OpenedBy o true (.secondBranch c o.start whenTrue)

namespace OpenedBy

variable {key : String} {c : Condition}

theorem unclosed_of_eachOpen (h : OpenedBy o halved block) (hlexeme : o.lexeme = .tag (.eachOpen key)) :
    block.unclosed = (.unclosedLoop key, o.start) := by
  cases h with
  | loop ho =>
    obtain rfl : _ = key := by simpa using ho.symm.trans hlexeme
    rfl
  | firstBranch ho => cases ho.symm.trans hlexeme
  | secondBranch ho => cases ho.symm.trans hlexeme

theorem unclosed_of_ifOpen (h : OpenedBy o halved block) (hlexeme : o.lexeme = .tag (.ifOpen c)) :
    block.unclosed = (.unclosedConditional c, o.start) := by
  cases h with
  | loop ho => cases ho.symm.trans hlexeme
  | firstBranch ho =>
    obtain rfl : _ = c := by simpa using ho.symm.trans hlexeme
    rfl
  | secondBranch ho =>
    obtain rfl : _ = c := by simpa using ho.symm.trans hlexeme
    rfl

/-- A block that is left open is reported at its opening tag, by the name of that tag. -/
theorem unclosed (h : OpenedBy o halved block) :
    ∃ fault, block.unclosed = (fault, o.start) ∧ Unclosed o.lexeme fault.message := by
  cases h with
  | @loop key ho =>
    refine ⟨.unclosedLoop key, rfl, ?_⟩
    rw [ho, BlockFault.message_unclosedLoop]
    exact .loop key
  | @firstBranch c ho =>
    refine ⟨.unclosedConditional c, rfl, ?_⟩
    rw [ho, BlockFault.message_unclosedConditional]
    exact .conditional c
  | @secondBranch c _ ho =>
    refine ⟨.unclosedConditional c, rfl, ?_⟩
    rw [ho, BlockFault.message_unclosedConditional]
    exact .conditional c

end OpenedBy

theorem Opened.innermost {before : List Node}
    (h : Opened Token.lexeme Token.StartsAt ((block, before) :: opened) done passed) :
    ∃ o halved, Innermost o halved passed ∧ OpenedBy o halved block := by
  have hopens : ∀ {o : Token} {lexeme : Lexeme}, o.lexeme = lexeme → lexeme.opensBlock = true →
      o.lexeme.opensBlock = true := by
    rintro o lexeme rfl hopen
    exact hopen
  cases h with
  | @loop _ _ _ x _ _ _ _ _ hx hs hys =>
    obtain rfl := hs
    exact ⟨x, false, .opened (hopens hx rfl) hys.balanced, .loop hx⟩
  | @firstBranch _ _ _ x _ _ _ _ _ hx hs hys =>
    obtain rfl := hs
    exact ⟨x, false, .opened (hopens hx rfl) hys.balanced, .firstBranch hx⟩
  | @secondBranch _ _ _ _ x _ _ _ _ _ _ _ hx hs hys hy hzs =>
    obtain rfl := hs
    exact ⟨x, true, .halved hx hys.balanced hy hzs.balanced, .secondBranch hx⟩

/-- Behind tokens with an innermost open block, that block is on top of a stack. -/
theorem Innermost.opened_top (hi : Innermost o halved front) (h : Viable front) :
    ∃ block before opened done,
      Opened Token.lexeme Token.StartsAt ((block, before) :: opened) done front ∧
        OpenedBy o halved block := by
  -- what stands in front of the block can be read, and so can its balanced inside
  cases hi with
  | @opened before inside hopen hinside =>
    obtain ⟨opened, done, hbefore⟩ := opened_of_viable h.of_append
    obtain ⟨nodes, hnodes⟩ := hinside.exists_spells
    rw [← List.reverse_reverse nodes] at hnodes
    cases hlexeme : o.lexeme with
    | plain text =>
      rw [hlexeme] at hopen
      cases hopen
    | tag tag =>
      cases tag with
      | eachOpen key => exact ⟨_, _, _, _, .loop hbefore hlexeme rfl hnodes, .loop hlexeme⟩
      | ifOpen c => exact ⟨_, _, _, _, .firstBranch hbefore hlexeme rfl hnodes, .firstBranch hlexeme⟩
      | _ =>
        rw [hlexeme] at hopen
        cases hopen
  | @halved c before first inside m hlexeme hfirst hm hinside =>
    obtain ⟨opened, done, hbefore⟩ := opened_of_viable h.of_append
    obtain ⟨whenTrue, htrue⟩ := hfirst.exists_spells
    obtain ⟨nodes, hnodes⟩ := hinside.exists_spells
    rw [← List.reverse_reverse nodes] at hnodes
    exact ⟨_, _, _, _, .secondBranch hbefore hlexeme rfl htrue hm hnodes, .secondBranch hlexeme⟩

/-- A stack has the innermost open block on top, as far as its report tells. -/
theorem Opened.unclosed_of_innermost (h : Opened Token.lexeme Token.StartsAt opened done front)
    (hi : Innermost o halved front) : ∃ block before outer block',
      opened = (block, before) :: outer ∧ OpenedBy o halved block' ∧
        block.unclosed = block'.unclosed := by
  obtain ⟨block', before', opened', done', h', hby⟩ := hi.opened_top h.viable
  -- both are reported when nothing follows
  have hread := (ofTokens_append_of_opened h []).symm.trans (ofTokens_append_of_opened h' [])
  cases opened with
  | nil => cases hread
  | cons entry outer => exact ⟨_, _, outer, block', rfl, hby, Except.error.inj hread⟩

/-- No loop is the innermost open block where the stack has none on top. -/
theorem Opened.ne_eachOpen (h : Opened Token.lexeme Token.StartsAt opened done front)
    (htop : ∀ key offset before outer, opened ≠ (.loop key offset, before) :: outer) :
    ∀ o halved key, Innermost o halved front → o.lexeme ≠ .tag (.eachOpen key) := by
  intro o halved key hi hlexeme
  obtain ⟨block, before, outer, block', rfl, hby, hunclosed⟩ := h.unclosed_of_innermost hi
  rw [hby.unclosed_of_eachOpen hlexeme] at hunclosed
  cases block with
  | loop key offset => exact htop _ _ _ _ rfl
  | firstBranch c offset => cases hunclosed
  | secondBranch c offset whenTrue => cases hunclosed

/-- No conditional is the innermost open block where the stack has none on top. -/
theorem Opened.ne_ifOpen (h : Opened Token.lexeme Token.StartsAt opened done front)
    (hfirst : ∀ c offset before outer, opened ≠ (.firstBranch c offset, before) :: outer)
    (hsecond : ∀ c offset whenTrue before outer,
      opened ≠ (.secondBranch c offset whenTrue, before) :: outer) :
    ∀ o halved c, Innermost o halved front → o.lexeme ≠ .tag (.ifOpen c) := by
  intro o halved c hi hlexeme
  obtain ⟨block, before, outer, block', rfl, hby, hunclosed⟩ := h.unclosed_of_innermost hi
  rw [hby.unclosed_of_ifOpen hlexeme] at hunclosed
  cases block with
  | loop key offset => cases hunclosed
  | firstBranch c offset => exact hfirst _ _ _ _ rfl
  | secondBranch c offset whenTrue => exact hsecond _ _ _ _ _ rfl

/-- **What the stack refuses**, told by the innermost open block. -/
theorem Opened.refusal (h : Opened Token.lexeme Token.StartsAt opened done front) {fault : BlockFault}
    (hrefused : refusal? opened lexeme = some fault) : Refusal front lexeme fault.message := by
  unfold refusal? at hrefused
  -- each refusal says which block is not on top of the stack, so that none such is the innermost
  split at hrefused
  · cases hrefused
  · next hloop =>
    obtain rfl := Option.some.inj hrefused
    exact .eachClose (h.ne_eachOpen hloop)
  · cases hrefused
  · obtain rfl := Option.some.inj hrefused
    obtain ⟨o, halved, hi, hby⟩ := h.innermost
    cases hby
    exact .repeated hi
  · next hfirst hsecond =>
    obtain rfl := Option.some.inj hrefused
    exact .stray (h.ne_ifOpen hfirst hsecond)
  · cases hrefused
  · cases hrefused
  · next hfirst hsecond =>
    obtain rfl := Option.some.inj hrefused
    exact .ifClose (h.ne_ifOpen hfirst hsecond)
  · cases hrefused

/-! ### What is reported -/

theorem ofSource_eq_error {source : String} {fault : TemplateFault} :
    Node.ofSource source = .error fault ↔ ∃ cause offset,
      Node.ofTokens (Token.ofSource source) = .error (cause, offset) ∧
        fault = .unbalanced cause (.ofFault source offset) := by
  unfold Node.ofSource
  cases htokens : Node.ofTokens (Token.ofSource source) with
  | ok nodes => simp
  | error reported =>
    obtain ⟨cause, offset⟩ := reported
    constructor
    · intro h
      exact ⟨cause, offset, rfl, (Except.error.inj h).symm⟩
    · rintro ⟨cause', offset', he, rfl⟩
      obtain ⟨rfl, rfl⟩ := Prod.mk.inj (Except.error.inj he)
      rfl

/-- A token starts between two characters. -/
theorem isBoundary_start {source : String} (h : t ∈ Token.ofSource source) :
    IsBoundary source.toList t.start := by
  obtain ⟨-, slice, ⟨before, behind, hsource, hstart, -⟩, -⟩ := slice_of_mem_ofSource h
  exact ⟨before, slice ++ behind, hsource, hstart.symm⟩

/-- **The location of a fault at a token** is the line and the column of its start. -/
theorem standsAt_ofFault {source : String} (h : t ∈ Token.ofSource source) :
    StandsAt source.toList (Location.ofFault source t.start).line
      (Location.ofFault source t.start).column t.start :=
  standsAt_lineAt (isBoundary_start h)

/-- **What is reported of a template without a tree.** If there is a first token up to which the tokens
cannot be completed, the fault is located at its start, by line and column, and tells what that token is
to the innermost open block in front of it. If there is none, the fault is located at the opening tag of
the innermost block that is left open, and names that tag. -/
theorem reported_at_first_refused {source : String} {fault : TemplateFault}
    (h : Node.ofSource source = .error fault) : ∃ cause location,
      fault = .unbalanced cause location ∧
    (∀ front t back, Token.ofSource source = front ++ t :: back → Viable front →
      ¬ Viable (front ++ [t]) → location = .ofFault source t.start ∧
        StandsAt source.toList location.line location.column t.start ∧
        Refusal front t.lexeme cause.message) ∧
    ((∀ front t back, Token.ofSource source = front ++ t :: back → Viable (front ++ [t])) →
      ∃ o halved, Innermost o halved (Token.ofSource source) ∧
        location = .ofFault source o.start ∧
        StandsAt source.toList location.line location.column o.start ∧
        Unclosed o.lexeme cause.message) := by
  obtain ⟨cause, offset, htokens, rfl⟩ := ofSource_eq_error.1 h
  refine ⟨cause, .ofFault source offset, rfl, ?_, ?_⟩
  · intro front t back hsplit hviable hstop
    have ht : t ∈ Token.ofSource source := by simp [hsplit]
    obtain ⟨opened, done, hopened⟩ := opened_of_viable hviable
    obtain ⟨refused, hrefused⟩ := refused_of_not_viable hopened hstop
    rw [hsplit, ofTokens_append_of_opened hopened, ofTokensIn_refused hrefused] at htokens
    obtain ⟨rfl, rfl⟩ := Prod.mk.inj (Except.error.inj htokens)
    exact ⟨rfl, standsAt_ofFault ht, hopened.refusal hrefused⟩
  · intro hall
    -- all tokens together can be completed, and lead to a stack that is left open
    have hviable : Viable (Token.ofSource source) := by
      rcases List.eq_nil_or_concat (Token.ofSource source) with hnil | ⟨front, t, hlast⟩
      · exact ⟨[], [], by rw [hnil]; rfl⟩
      · rw [hlast, List.concat_eq_append]
        exact hall front t [] (by rw [hlast, List.concat_eq_append])
    obtain ⟨opened, done, hopened⟩ := opened_of_viable hviable
    have hread := ofTokens_append_of_opened hopened []
    rw [List.append_nil, htokens] at hread
    cases opened with
    | nil => cases hread
    | cons entry outer =>
      obtain ⟨block, before⟩ := entry
      obtain ⟨o, halved, hi, hby⟩ := hopened.innermost
      obtain ⟨named, hunclosed, hmessage⟩ := hby.unclosed
      have hread : Except.error (cause, offset) = Except.error block.unclosed := hread
      rw [hunclosed] at hread
      obtain ⟨rfl, rfl⟩ := Prod.mk.inj (Except.error.inj hread)
      exact ⟨o, halved, hi, rfl, standsAt_ofFault hi.mem, hmessage⟩

/-- A second middle tag, on the second line, a loop that is left open around a conditional that is
closed, and a conditional with a comparison that is left open. -/
theorem reported_at_second_otherwise :
    (∃ location, Node.ofSource ("\x7b\x7b#if a\x7d\x7d1\x7b\x7b#else\x7d\x7d\n" ++
          "2\x7b\x7b#else\x7d\x7d3\x7b\x7b/if\x7d\x7d") =
        .error (.unbalanced .repeatedOtherwise location) ∧
      location.line = 2 ∧ location.column = 2 ∧
      StandsAt ("\x7b\x7b#if a\x7d\x7d1\x7b\x7b#else\x7d\x7d\n" ++
        "2\x7b\x7b#else\x7d\x7d3\x7b\x7b/if\x7d\x7d").toList 2 2 21 ∧
      Refusal [⟨.tag (.ifOpen ⟨"a", none⟩), 0, 9⟩, ⟨.plain "1", 9, 10⟩, ⟨.tag .otherwise, 10, 19⟩,
          ⟨.plain "\n2", 19, 21⟩] (.tag .otherwise)
        "duplicate \x7b\x7b#else\x7d\x7d in the same \x7b\x7b#if\x7d\x7d block") ∧
    (∃ location, Node.ofSource "x\n\x7b\x7b#each a\x7d\x7d\x7b\x7b#if b\x7d\x7d\x7b\x7b/if\x7d\x7d" =
        .error (.unbalanced (.unclosedLoop "a") location) ∧
      location.line = 2 ∧ location.column = 1 ∧
      ∃ o halved, Innermost o halved (Token.ofSource
          "x\n\x7b\x7b#each a\x7d\x7d\x7b\x7b#if b\x7d\x7d\x7b\x7b/if\x7d\x7d") ∧
        StandsAt "x\n\x7b\x7b#each a\x7d\x7d\x7b\x7b#if b\x7d\x7d\x7b\x7b/if\x7d\x7d".toList
          2 1 o.start ∧
        Unclosed o.lexeme "unclosed \x7b\x7b#each a\x7d\x7d") ∧
    ∃ location, Node.ofSource "-\x7b\x7b#if a==1\x7d\x7d" =
        .error (.unbalanced (.unclosedConditional ⟨"a", some ⟨.equal, "1"⟩⟩) location) ∧
      location.line = 1 ∧ location.column = 2 ∧
      ∃ o halved, Innermost o halved (Token.ofSource "-\x7b\x7b#if a==1\x7d\x7d") ∧
        StandsAt "-\x7b\x7b#if a==1\x7d\x7d".toList 1 2 o.start ∧
        Unclosed o.lexeme "unclosed \x7b\x7b#if a == \"1\"\x7d\x7d" := by
  refine ⟨?_, ?_, ?_⟩
  · have htokens : Token.ofSource ("\x7b\x7b#if a\x7d\x7d1\x7b\x7b#else\x7d\x7d\n" ++
          "2\x7b\x7b#else\x7d\x7d3\x7b\x7b/if\x7d\x7d") =
        [⟨.tag (.ifOpen ⟨"a", none⟩), 0, 9⟩, ⟨.plain "1", 9, 10⟩, ⟨.tag .otherwise, 10, 19⟩,
          ⟨.plain "\n2", 19, 21⟩] ++ ⟨.tag .otherwise, 21, 30⟩ ::
          [⟨.plain "3", 30, 31⟩, ⟨.tag .ifClose, 31, 38⟩] := by decide +kernel
    have hsource := ofSource_eq_error.2 ⟨.repeatedOtherwise, 21, by rw [htokens]; rfl, rfl⟩
    have hviable : Viable [⟨.tag (.ifOpen ⟨"a", none⟩), 0, 9⟩, ⟨.plain "1", 9, 10⟩,
        ⟨.tag .otherwise, 10, 19⟩, ⟨.plain "\n2", 19, 21⟩] := ⟨[⟨.tag .ifClose, 0, 0⟩], _, rfl⟩
    obtain ⟨cause, location, hfault, hrefused, -⟩ := reported_at_first_refused hsource
    obtain ⟨rfl, rfl⟩ := TemplateFault.unbalanced.inj hfault
    obtain ⟨-, hstands, hrefusal⟩ := hrefused _ _ _ htokens hviable (by
      rintro ⟨more, nodes, hmore⟩
      cases hmore)
    exact ⟨_, hsource, by decide +kernel, by decide +kernel, hstands, hrefusal⟩
  · have htokens : Token.ofSource
          "x\n\x7b\x7b#each a\x7d\x7d\x7b\x7b#if b\x7d\x7d\x7b\x7b/if\x7d\x7d" =
        [⟨.plain "x\n", 0, 2⟩, ⟨.tag (.eachOpen "a"), 2, 13⟩, ⟨.tag (.ifOpen ⟨"b", none⟩), 13, 22⟩,
          ⟨.tag .ifClose, 22, 29⟩] := by decide +kernel
    have hsource := ofSource_eq_error.2 ⟨.unclosedLoop "a", 2, by rw [htokens]; rfl, rfl⟩
    obtain ⟨cause, location, hfault, -, hopen⟩ := reported_at_first_refused hsource
    obtain ⟨rfl, rfl⟩ := TemplateFault.unbalanced.inj hfault
    -- one more closing tag completes them
    have hviable : Viable (Token.ofSource
        "x\n\x7b\x7b#each a\x7d\x7d\x7b\x7b#if b\x7d\x7d\x7b\x7b/if\x7d\x7d") :=
      ⟨[⟨.tag .eachClose, 0, 0⟩], _, by rw [htokens]; rfl⟩
    obtain ⟨o, halved, hi, -, hstands, hunclosed⟩ := hopen fun _ _ _ => hviable.of_split
    have hmessage : (BlockFault.unclosedLoop "a").message = "unclosed \x7b\x7b#each a\x7d\x7d" := by
      decide
    rw [hmessage] at hunclosed
    exact ⟨_, hsource, by decide +kernel, by decide +kernel, o, halved, hi, hstands, hunclosed⟩
  · have htokens : Token.ofSource "-\x7b\x7b#if a==1\x7d\x7d" =
        [⟨.plain "-", 0, 1⟩, ⟨.tag (.ifOpen ⟨"a", some ⟨.equal, "1"⟩⟩), 1, 13⟩] := by decide +kernel
    have hsource := ofSource_eq_error.2
      ⟨.unclosedConditional ⟨"a", some ⟨.equal, "1"⟩⟩, 1, by rw [htokens]; rfl, rfl⟩
    obtain ⟨cause, location, hfault, -, hopen⟩ := reported_at_first_refused hsource
    obtain ⟨rfl, rfl⟩ := TemplateFault.unbalanced.inj hfault
    have hviable : Viable (Token.ofSource "-\x7b\x7b#if a==1\x7d\x7d") :=
      ⟨[⟨.tag .ifClose, 0, 0⟩], _, by rw [htokens]; rfl⟩
    obtain ⟨o, halved, hi, -, hstands, hunclosed⟩ := hopen fun _ _ _ => hviable.of_split
    have hmessage : (BlockFault.unclosedConditional ⟨"a", some ⟨.equal, "1"⟩⟩).message =
        "unclosed \x7b\x7b#if a == \"1\"\x7d\x7d" := by decide
    rw [hmessage] at hunclosed
    exact ⟨_, hsource, by decide +kernel, by decide +kernel, o, halved, hi, hstands, hunclosed⟩

end Stencil
