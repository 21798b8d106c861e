import Stencil.Proofs.Fills

/-!
# Conditionals and their branches

A conditional is rendered as the branch that its condition selects. Placeholders are filled before
the branch is chosen, and the fill of a path is used up by its first placeholder. So the first branch
is rendered as if it stood alone, and the second one is as long as no placeholder of the first takes
a fill away from it.

* `render_conditional`: the two cases.
* `second_branch_loses_fill`: a placeholder of the first branch takes a fill away from the second.
-/

namespace Stencil

open Text Tag Pieces

variable {ps a b : Pieces} {p q : Piece Tag} {nodes : List Node} {fills : List (String × String)}
  {data : Mapping} {missing : MissingBlocks} {K : Piece Tag → Prop}

/-- The tag belongs to conditionals. -/
def Tag.isConditional : Tag → Bool
  | .ifOpen _ => true
  | .otherwise => true
  | .ifClose => true
  | _ => false

/-- Whether a token belongs to a conditional. -/
def Lexeme.isConditional : Lexeme → Bool
  | .plain _ => false
  | .tag t => t.isConditional

/-- **A template that may be a branch**: it is balanced and clean, and has no conditionals. -/
structure IsBranch (template : String) : Prop where
  balanced : ∃ nodes, Node.ofSource template = .ok nodes
  clean : Template.isClean template = true
  unconditional : (Token.ofSource template).all (!·.lexeme.isConditional) = true

/-- A placeholder of the path is in the template. -/
def Template.reads (template path : String) : Bool :=
  (Token.ofSource template).any (·.lexeme = .tag (.placeholder path))

/-! ### Pieces without conditionals -/

/-- The piece is no tag of a conditional. -/
def Unconditional (p : Piece Tag) : Prop := ∀ tag, p.tag? = some tag → tag.isConditional = false

theorem unconditional_plain (text : List Char) : Unconditional (.plain text) := nofun

/-- An unconditional piece is no tag of a conditional. -/
theorem Unconditional.ne {tag : Tag} (h : Unconditional p) (htag : tag.isConditional = true) :
    p.tag? ≠ some tag := by
  intro he
  rw [h tag he] at htag
  cases htag

theorem Unconditional.opened? (h : Unconditional p) : BlockKind.conditional.opened? p = none := by
  cases hp : BlockKind.conditional.opened? p with
  | none => rfl
  | some c =>
    obtain ⟨tag, htag, hc⟩ := Option.bind_eq_some_iff.1 hp
    rw [BlockKind.conditional.opening?_eq_some.1 hc] at htag
    exact absurd htag (h.ne rfl)

/-- Where there is no conditional, nothing is resolved. -/
theorem conditionals_of_unconditional (h : ∀ q ∈ ps, Unconditional q) : conditionals data ps = ps := by
  unfold conditionals
  induction ps with
  | nil => exact expand_nil
  | cons p ps ih =>
    rw [List.forall_mem_cons] at h
    rw [expand_cons h.1.opened?, ih h.2]

/-- What holds of plain pieces holds of what is filled in. -/
theorem forall_mem_fill {row : Option String} {record : Mapping} (hplain : ∀ text, K (.plain text))
    (hps : ∀ q ∈ ps, K q) : ∀ q ∈ fill row ps record, K q := by
  induction record generalizing ps with
  | nil => exact hps
  | cons entry record ih => exact ih (forall_mem_fillOne hps fun _ => hplain _)

/-- Expanding loops brings no pieces but plain text and copies. -/
theorem forall_mem_loops (hplain : ∀ text, K (.plain text)) (hps : ∀ q ∈ ps, K q) :
    ∀ q ∈ loops data missing ps, K q := by
  refine forall_mem_expand ?_ hps
  intro key lexeme body _ hbody made hmade
  unfold rows? at hmade
  split at hmade
  · obtain rfl := Option.some.inj hmade
    intro q hq
    obtain ⟨row, -, hq⟩ := List.mem_flatMap.1 hq
    cases row with
    | mapping fields => exact forall_mem_fill hplain hbody q hq
    | _ => exact forall_mem_fillOne hbody (fun _ => hplain _) q hq
  · cases hmade
  · obtain rfl := Option.some.inj hmade
    exact nofun

/-! ### One conditional -/

/-- A conditional whose branches contain their loops and have no conditionals is expanded to the
branch that its condition selects. -/
theorem expand_conditional {c : Condition} {z : Piece Tag} (hp : p.tag? = some (.ifOpen c))
    (hq : q.tag? = some .otherwise) (hz : z.tag? = some .ifClose) (ha : Contained .loop a)
    (hb : Contained .loop b) (hafree : ∀ q ∈ a, Unconditional q) (hbfree : ∀ q ∈ b, Unconditional q) :
    conditionals data (loops data missing (p :: (a ++ q :: (b ++ [z])))) =
      if c.holds data then loops data missing a else loops data missing b := by
  have hclosed : ∀ {tag}, BlockKind.loop.opening? tag = none → ∀ {x : Piece Tag}, x.tag? = some tag →
      BlockKind.loop.opened? x = none := by
    intro tag htag x hx
    rw [BlockKind.opened?, hx]
    exact htag
  have hloops : loops data missing (p :: (a ++ q :: (b ++ [z]))) =
      p :: (loops data missing a ++ q :: (loops data missing b ++ [z])) := by
    unfold loops
    rw [expand_cons (hclosed rfl hp), expand_append ha, expand_cons (hclosed rfl hq),
      expand_append hb, expand_cons (hclosed rfl hz), expand_nil]
  have hafree' : ∀ r ∈ loops data missing a, Unconditional r :=
    forall_mem_loops unconditional_plain hafree
  have hbfree' : ∀ r ∈ loops data missing b, Unconditional r :=
    forall_mem_loops unconditional_plain hbfree
  -- the conditional is still closed where it was, and its middle tag is the first one
  have hbody : ∀ r ∈ loops data missing a ++ q :: loops data missing b, r.tag? ≠ some .ifClose := by
    rw [List.forall_mem_append, List.forall_mem_cons]
    refine ⟨fun r hr => (hafree' r hr).ne rfl, ?_, fun r hr => (hbfree' r hr).ne rfl⟩
    simp [hq]
  have hopen : BlockKind.conditional.opened? p = some c := by
    rw [BlockKind.opened?, hp]
    rfl
  have hassoc : loops data missing a ++ q :: (loops data missing b ++ [z]) =
      (loops data missing a ++ q :: loops data missing b) ++ z :: [] := by simp
  rw [hloops, conditionals, hassoc, expand_block hopen hbody hz, expand_nil, List.append_nil,
    Option.getD_some, branch_append (fun r hr => (hafree' r hr).ne rfl) hq]

/-! ### Branches -/

/-- A path that is read by a piece is read by the template. -/
theorem reads_of_pieces {template path : String} (h : Reads (recogniser.pieces template.toList) path) :
    Template.reads template path = true := by
  obtain ⟨q, hq, htag⟩ := h
  obtain ⟨token, htoken, he⟩ := exists_token_of_mem hq
  obtain ⟨lexeme, rfl⟩ := exists_of_tag? htag
  exact List.any_eq_true.2 ⟨token, htoken, decide_eq_true he⟩

namespace IsBranch

variable {template : String}

/-- A branch has no conditional in it. -/
theorem unconditional_of_mem (h : IsBranch template) :
    ∀ q ∈ recogniser.pieces template.toList, Unconditional q := by
  intro q hq tag htag
  obtain ⟨token, htoken, he⟩ := exists_token_of_mem hq
  obtain ⟨lexeme, rfl⟩ := exists_of_tag? htag
  have hfree := List.all_eq_true.1 h.unconditional token htoken
  rw [he, Bool.not_eq_true'] at hfree
  exact hfree

/-- A branch contains its loops, whatever is filled in. -/
theorem contained_puts (h : IsBranch template) (fills : List (String × String)) :
    Contained .loop (puts fills (recogniser.pieces template.toList)) := by
  obtain ⟨nodes, hnodes⟩ := h.balanced
  obtain ⟨nodes', hspell⟩ := spell_puts (spells_pieces hnodes) fills
  exact contained_loop hspell

theorem unconditional_puts (h : IsBranch template) (fills : List (String × String)) :
    ∀ q ∈ puts fills (recogniser.pieces template.toList), Unconditional q :=
  forall_mem_puts unconditional_plain h.unconditional_of_mem

/-- A branch that stands alone is filled, and its loops are expanded. -/
theorem expanded_eq (h : IsBranch template) (missing : MissingBlocks) (context : Context) :
    Pieces.expanded missing context (recogniser.pieces template.toList) =
      loops context.merged missing (puts context.fills (recogniser.pieces template.toList)) := by
  unfold Pieces.expanded
  rw [fillAll_eq_puts, conditionals_of_unconditional]
  exact forall_mem_loops unconditional_plain (h.unconditional_puts _)

end IsBranch

/-- A template that is one opening tag is cut into one piece. -/
theorem pieces_of_opening {opening : String} {c : Condition}
    (h : (Token.ofSource opening).map Token.lexeme = [.tag (.ifOpen c)]) :
    ∃ p, recogniser.pieces opening.toList = [p] ∧ p.lexeme = .tag (.ifOpen c) := by
  rw [map_lexeme_ofSource] at h
  obtain ⟨p, ps, hpieces, hp, hps⟩ := List.map_eq_cons_iff.1 h
  rw [List.map_eq_nil_iff.1 hps] at hpieces
  exact ⟨p, hpieces, hp⟩

/-- Pieces that come from reading texts, one after the other. -/
theorem Genuine.append (ha : Genuine a) (hb : Genuine b) : Genuine (a ++ b) := by
  intro tag lexeme h
  rcases List.mem_append.1 h with h | h
  · exact ha _ _ h
  · exact hb _ _ h

/-- A tag with a sign is genuine where it is written as its sign. -/
theorem Tag.Sign.genuine {tag : Tag} {sign : List Char} (h : Sign tag sign) :
    Genuine [.found tag sign] := by
  intro tag' lexeme hm
  obtain ⟨rfl, rfl⟩ := Piece.found.inj (List.mem_singleton.1 hm)
  exact ⟨_, [], h.2 ⟨rfl, (List.append_nil _).symm⟩⟩

/-- The pieces of a conditional with two branches. -/
def conditionalPieces (p : Piece Tag) (a b : Pieces) : Pieces :=
  p :: (a ++ .found .otherwise otherwiseText :: (b ++ [.found .ifClose ifCloseText]))

/-- The first branch is filled as if it stood alone, and the second gets the fills that are left, which
are all of them where the branches read no common path. -/
theorem puts_conditionalPieces (hp : ∀ path, p.tag? ≠ some (.placeholder path))
    (fills : List (String × String)) (a b : Pieces) :
    ∃ left, puts fills (conditionalPieces p a b) =
        conditionalPieces p (puts fills a) (puts left b) ∧
      ((∀ fill ∈ fills, ¬ Reads a fill.1 ∨ ¬ Reads b fill.1) → left = fills) := by
  -- neither the middle tag nor the closing tag takes a fill
  have hmiddle : ∀ path, (Piece.found Tag.otherwise otherwiseText).tag? ≠ some (.placeholder path) := by
    intro path
    simp [Piece.tag?]
  have hclose : ∀ path, (Piece.found Tag.ifClose ifCloseText).tag? ≠ some (.placeholder path) := by
    intro path
    simp [Piece.tag?]
  unfold conditionalPieces
  by_cases hapart : ∀ fill ∈ fills, ¬ Reads a fill.1 ∨ ¬ Reads b fill.1
  · refine ⟨fills, ?_, fun _ => rfl⟩
    have hrest : ∀ fill ∈ fills, ¬ Reads a fill.1 ∨ ¬ Reads (.found .otherwise otherwiseText ::
        (b ++ [.found .ifClose ifCloseText])) fill.1 := by
      intro fill hfill
      exact (hapart fill hfill).imp_right (mt (reads_of_between hmiddle hclose))
    rw [puts_cons hp, puts_append_of_apart hrest, puts_between hmiddle hclose]
  · obtain ⟨left, hleft⟩ := puts_append fills a (.found .otherwise otherwiseText ::
      (b ++ [.found .ifClose ifCloseText]))
    refine ⟨left, ?_, fun h => absurd h hapart⟩
    rw [puts_cons hp, hleft, puts_between hmiddle hclose]

/-- The text of a conditional with its two branches. -/
def conditionalText (opening whenTrue whenFalse : String) : String :=
  opening ++ whenTrue ++ Tag.otherwise.text ++ whenFalse ++ Tag.ifClose.text

/-- The pieces of a conditional make up its text. -/
theorem toList_conditionalText {opening : String} (h : recogniser.pieces opening.toList = [p])
    (whenTrue whenFalse : String) : (conditionalText opening whenTrue whenFalse).toList =
      join (conditionalPieces p (recogniser.pieces whenTrue.toList)
        (recogniser.pieces whenFalse.toList)) := by
  have hopen : p.text = opening.toList := by
    rw [toList_eq_join opening, h, join_cons, join_nil, List.append_nil]
  rw [conditionalPieces, join_cons, join_append, join_cons, join_append, ← toList_eq_join,
    ← toList_eq_join, hopen]
  simp [conditionalText, Piece.text, Tag.text]

/-- The pieces of a conditional are legible where its opening tag and its branches are clean. -/
theorem legible_conditionalPieces {whenTrue whenFalse : String} {c : Condition}
    (hgenuine : Genuine [p]) (hp : p.lexeme = .tag (.ifOpen c))
    (hoperand : (Tag.ifOpen c).plainOperand = true) (htrue : IsBranch whenTrue)
    (hfalse : IsBranch whenFalse) :
    Legible (Stock (conditionalPieces p (recogniser.pieces whenTrue.toList)
      (recogniser.pieces whenFalse.toList))) := by
  refine legible_of_isClean ?_ ?_
  · exact hgenuine.append ((genuine_pieces _).append (sign_otherwise.genuine.append
      ((genuine_pieces _).append sign_ifClose.genuine)))
  · rw [conditionalPieces, List.forall_mem_cons, List.forall_mem_append, List.forall_mem_cons,
      List.forall_mem_append]
    refine ⟨?_, fun _ hq => Template.isClean_of_mem htrue.clean hq, rfl,
      fun _ hq => Template.isClean_of_mem hfalse.clean hq, List.forall_mem_singleton.2 rfl⟩
    rw [hp]
    exact hoperand

/-- The last pass finds the branch that the condition selects, with its fills and its loops. -/
theorem expanded_conditionalPieces {whenTrue whenFalse : String} {c : Condition}
    (hp : p.tag? = some (.ifOpen c)) (htrue : IsBranch whenTrue) (hfalse : IsBranch whenFalse)
    (missing : MissingBlocks) (context : Context) :
    ∃ left, Pieces.expanded missing context (conditionalPieces p (recogniser.pieces whenTrue.toList)
        (recogniser.pieces whenFalse.toList)) =
          (if c.holds context.merged then
            loops context.merged missing (puts context.fills (recogniser.pieces whenTrue.toList))
          else loops context.merged missing (puts left (recogniser.pieces whenFalse.toList))) ∧
      ((∀ fill ∈ context.fills, ¬ Reads (recogniser.pieces whenTrue.toList) fill.1 ∨
        ¬ Reads (recogniser.pieces whenFalse.toList) fill.1) → left = context.fills) := by
  have hopen : ∀ path, p.tag? ≠ some (.placeholder path) := by
    intro path he
    exact absurd (Option.some.inj (hp.symm.trans he)) nofun
  obtain ⟨left, hputs, hleft⟩ := puts_conditionalPieces hopen context.fills
    (recogniser.pieces whenTrue.toList) (recogniser.pieces whenFalse.toList)
  refine ⟨left, ?_, hleft⟩
  rw [Pieces.expanded, fillAll_eq_puts, hputs, conditionalPieces]
  exact expand_conditional hp rfl rfl (htrue.contained_puts _) (hfalse.contained_puts _)
    (htrue.unconditional_puts _) (hfalse.unconditional_puts _)

/-- Where no scalar has a placeholder in both templates, no fill goes to both. -/
theorem apart_of_reads {template template' : String} {context : Context}
    (h : ∀ m ∈ context.entries, ∀ entry ∈ m, entry.2.isScalar = true →
      (Template.reads template entry.1 && Template.reads template' entry.1) = false) :
    ∀ fill ∈ context.fills, ¬ Reads (recogniser.pieces template.toList) fill.1 ∨
      ¬ Reads (recogniser.pieces template'.toList) fill.1 := by
  intro fill hfill
  obtain ⟨m, hm, entry, hentry, hscalar, rfl⟩ := mem_fills hfill
  have hboth := h m hm entry hentry hscalar
  by_cases ha : Reads (recogniser.pieces template.toList) entry.1
  · rw [reads_of_pieces ha, Bool.true_and] at hboth
    refine .inr fun hb => ?_
    rw [reads_of_pieces hb] at hboth
    cases hboth
  · exact .inl ha

/-- **A conditional is rendered as the branch it selects**: as the first where its condition holds, and
otherwise as the second, unless a scalar of the context has a placeholder in both. -/
theorem render_conditional {opening whenTrue whenFalse : String} {c : Condition} {context : Context}
    (missing : MissingBlocks) (hopening : (Token.ofSource opening).map Token.lexeme = [.tag (.ifOpen c)])
    (hoperand : (Tag.ifOpen c).plainOperand = true) (htrue : IsBranch whenTrue)
    (hfalse : IsBranch whenFalse) (hcontext : context.isClean = true) :
    (c.holds context.merged = true →
      render missing (conditionalText opening whenTrue whenFalse) context =
        render missing whenTrue context) ∧
    (c.holds context.merged = false →
      (∀ m ∈ context.entries, ∀ entry ∈ m, entry.2.isScalar = true →
        (Template.reads whenTrue entry.1 && Template.reads whenFalse entry.1) = false) →
      render missing (conditionalText opening whenTrue whenFalse) context =
        render missing whenFalse context) := by
  obtain ⟨p, hpieces, hp⟩ := pieces_of_opening hopening
  have hgenuine : Genuine [p] := hpieces ▸ genuine_pieces opening.toList
  -- one stock serves the conditional and both of its branches
  have hlegible := legible_conditionalPieces hgenuine hp hoperand htrue hfalse
  have hwhole := render_eq_join hlegible (fun _ hq => .inl hq)
    (toList_conditionalText hpieces whenTrue whenFalse) missing hcontext
  have hfirst := render_eq_join hlegible (fun _ hq => .inl (by simp [conditionalPieces, hq]))
    (toList_eq_join whenTrue) missing hcontext
  have hsecond := render_eq_join hlegible (fun _ hq => .inl (by simp [conditionalPieces, hq]))
    (toList_eq_join whenFalse) missing hcontext
  obtain ⟨left, hexpanded, hleft⟩ :=
    expanded_conditionalPieces (tag?_of_lexeme hp) htrue hfalse missing context
  rw [hexpanded] at hwhole
  rw [htrue.expanded_eq] at hfirst
  rw [hfalse.expanded_eq] at hsecond
  constructor
  · intro hholds
    rw [if_pos hholds] at hwhole
    exact String.toList_inj.1 (hwhole.trans hfirst.symm)
  · intro hholds hapart
    have hnot : ¬ c.holds context.merged = true := by
      rw [hholds]
      exact nofun
    rw [if_neg hnot, hleft (apart_of_reads hapart)] at hwhole
    exact String.toList_inj.1 (hwhole.trans hsecond.symm)

/-- A clean template that is accepted and has no conditional is a branch. -/
theorem isBranch_of_isOk {template : String} (hbalanced : (Node.ofSource template).isOk = true)
    (hclean : Template.isClean template = true)
    (hfree : (Token.ofSource template).all (!·.lexeme.isConditional) = true) : IsBranch template :=
  ⟨exists_nodes_of_isOk hbalanced, hclean, hfree⟩

/-- Both branches of a conditional on a flag. -/
theorem render_conditional_on_flag :
    render .preserve (conditionalText "\x7b\x7b#if f\x7d\x7d" "a\x7b\x7bx\x7d\x7d" "b\x7b\x7by\x7d\x7d")
        (.single [("f", .bool true), ("x", .string "1"), ("y", .string "2")]) = "a1" ∧
      render .preserve (conditionalText "\x7b\x7b#if f\x7d\x7d" "a\x7b\x7bx\x7d\x7d" "b\x7b\x7by\x7d\x7d")
        (.single [("f", .bool false), ("x", .string "1"), ("y", .string "2")]) = "b2" := by
  have hopening : (Token.ofSource "\x7b\x7b#if f\x7d\x7d").map Token.lexeme =
      [.tag (.ifOpen ⟨"f", none⟩)] := by decide +kernel
  have htrue : IsBranch "a\x7b\x7bx\x7d\x7d" :=
    isBranch_of_isOk (by decide +kernel) (by decide +kernel) (by decide +kernel)
  have hfalse : IsBranch "b\x7b\x7by\x7d\x7d" :=
    isBranch_of_isOk (by decide +kernel) (by decide +kernel) (by decide +kernel)
  constructor
  · have hboth := render_conditional .preserve hopening rfl htrue hfalse
      (by decide +kernel : (Context.single [("f", .bool true), ("x", .string "1"),
        ("y", .string "2")]).isClean = true)
    rw [hboth.1 (by decide +kernel)]
    decide +kernel
  · have hboth := render_conditional .preserve hopening rfl htrue hfalse
      (by decide +kernel : (Context.single [("f", .bool false), ("x", .string "1"),
        ("y", .string "2")]).isClean = true)
    have hapart : ∀ entry ∈ [("f", Value.bool false), ("x", .string "1"), ("y", .string "2")],
        entry.2.isScalar = true → (Template.reads "a\x7b\x7bx\x7d\x7d" entry.1 &&
          Template.reads "b\x7b\x7by\x7d\x7d" entry.1) = false := by
      simp only [List.forall_mem_cons]
      refine ⟨fun _ => ?_, fun _ => ?_, fun _ => ?_, nofun⟩ <;> decide +kernel
    rw [hboth.2 (by decide +kernel) (List.forall_mem_singleton.2 hapart)]
    decide +kernel

/-- A placeholder in the first branch takes the fill of one in the second, though the second is the
branch that is rendered. -/
theorem second_branch_loses_fill :
    (Token.ofSource "\x7b\x7b#if f\x7d\x7d").map Token.lexeme = [.tag (.ifOpen ⟨"f", none⟩)] ∧
      IsBranch "\x7b\x7bx\x7d\x7d" ∧ (Context.single [("x", .string "1")]).isClean = true ∧
      Condition.holds ⟨"f", none⟩ (Context.single [("x", .string "1")]).merged = false ∧
      render .preserve (conditionalText "\x7b\x7b#if f\x7d\x7d" "\x7b\x7bx\x7d\x7d" "\x7b\x7bx\x7d\x7d")
        (.single [("x", .string "1")]) = "" ∧
      render .preserve "\x7b\x7bx\x7d\x7d" (.single [("x", .string "1")]) = "1" := by
  have hbranch : IsBranch "\x7b\x7bx\x7d\x7d" :=
    isBranch_of_isOk (by decide +kernel) (by decide +kernel) (by decide +kernel)
  refine ⟨?_, hbranch, ?_, ?_, ?_, ?_⟩ <;> decide +kernel

end Stencil
