import Stencil.Proofs.Clean
import Stencil.Proofs.Clearing

/-!
# Passes over pieces

Each pass over a text is a pass over its pieces, as long as these are legible: it reads no tag across
the border of two pieces, and what it puts into the text makes no tag together with what is there.

* `expand_append`: a pass treats pieces that contain their blocks apart from what stands behind them.
* `Legible.fillAll_join`, `Legible.loops_join`, `Legible.conditionals_join`, `Legible.clear_join`: the
  four passes.
* `render_eq_join`: a whole rendering as passes over the pieces of the template.
-/

namespace Stencil

open Text Tag Pieces

/-- A kind of block: the tags that open it, each with what it says, and the tag that closes it. -/
structure BlockKind (α : Type) where
  opening : α → Tag
  opening? : Tag → Option α
  closing : Tag
  opening?_eq_some : ∀ {tag a}, opening? tag = some a ↔ tag = opening a

namespace BlockKind

/-- Loops, opened with a key. -/
def loop : BlockKind String where
  opening := .eachOpen
  opening?
    | .eachOpen key => some key
    | _ => none
  closing := .eachClose
  opening?_eq_some := by intro tag a; cases tag <;> simp

/-- Conditionals, opened with a condition. -/
def conditional : BlockKind Condition where
  opening := .ifOpen
  opening?
    | .ifOpen c => some c
    | _ => none
  closing := .ifClose
  opening?_eq_some := by intro tag a; cases tag <;> simp

/-- What the block says that a piece opens. -/
def opened? {α : Type} (k : BlockKind α) (p : Piece Tag) : Option α := p.tag?.bind k.opening?

end BlockKind

/-- The path of the placeholder of a key, or of a field of the rows of loop `row`. -/
def Placeholder.path (row : Option String) (key : String) : String :=
  match row with
  | none => key
  | some loop => .ofList (loop.toList ++ '.' :: key.toList)

/-! ### The passes -/

namespace Pieces

variable {α : Type}

/-- The first placeholder of a path replaced by a text, if there is one. -/
def put? (path : String) (text : List Char) (ps : Pieces) : Option Pieces :=
  (cutAt? (.placeholder path) ps).map fun (a, _, b) => a ++ .plain text :: b

/-- The first placeholder of a path replaced by a text. Without one the pieces stay as they are. -/
def put (path : String) (text : List Char) (ps : Pieces) : Pieces := (put? path text ps).getD ps

/-- The first placeholder of a key, filled with a scalar. -/
def fillOne (row : Option String) (ps : Pieces) (key : String) (value : Value) : Pieces :=
  if value.isScalar then put (Placeholder.path row key) value.display.toList ps else ps

/-- The placeholders filled from a record, entry by entry. -/
def fill (row : Option String) (ps : Pieces) (record : Mapping) : Pieces :=
  record.foldl (fun ps entry => fillOne row ps entry.1 entry.2) ps

/-- The placeholders filled from a context, its last mapping first. -/
def fillAll (ps : Pieces) (context : Context) : Pieces :=
  context.entries.reverse.foldl (fill none) ps

/-- What is left behind a cut is shorter. -/
theorem length_cutAt? {tag : Tag} {ps a b : Pieces} {p : Piece Tag}
    (h : cutAt? tag ps = some (a, p, b)) : b.length < ps.length := by
  obtain ⟨rfl, -, -⟩ := cutAt?_eq_some h
  rw [List.length_append, List.length_cons]
  omega

/-- Each block replaced by what `f` makes of its body, and left as it is where `f` makes nothing of
it. A block reaches to the first tag that closes its kind. -/
def expand (k : BlockKind α) (f : α → Pieces → Option Pieces) : Pieces → Pieces
  | [] => []
  | p :: ps =>
    match k.opened? p with
    | none => p :: expand k f ps
    | some a =>
      match _h : cutAt? k.closing ps with
      | none => p :: expand k f ps
      | some (body, q, rest) => (f a body).getD (p :: body ++ [q]) ++ expand k f rest
termination_by ps => ps.length
decreasing_by
  · exact Nat.lt_succ_self _
  · exact Nat.lt_succ_self _
  · exact Nat.lt_succ_of_lt (length_cutAt? _h)

/-- The body of a loop filled from one row, by its fields or by itself. -/
def expandRow (key : String) (body : Pieces) : Value → Pieces
  | .mapping fields => fill (some key) body fields
  | row => fillOne none body key row

/-- What stands in place of the loop over `key`. -/
def rows? (data : Mapping) (missing : MissingBlocks) (key : String) (body : Pieces) :
    Option Pieces :=
  match data.get? key, missing with
  | some value, _ => some (value.rows.flatMap (expandRow key body))
  | none, .preserve => none
  | none, .remove => some []

/-- The loops expanded. -/
def loops (data : Mapping) (missing : MissingBlocks) (ps : Pieces) : Pieces :=
  expand .loop (rows? data missing) ps

/-- The branch of a conditional with the given body. -/
def branch (holds : Bool) (body : Pieces) : Pieces :=
  match cutAt? .otherwise body with
  | some (a, _, b) => if holds then a else b
  | none => if holds then body else []

/-- The conditionals resolved. -/
def conditionals (data : Mapping) (ps : Pieces) : Pieces :=
  expand .conditional (fun c body => some (branch (c.holds data) body)) ps

/-- Whether a piece is a placeholder. -/
def isPlaceholder (p : Piece Tag) : Bool :=
  match p.tag? with
  | some (.placeholder _) => true
  | _ => false

/-- The pieces that are no placeholders. -/
def clear (ps : Pieces) : Pieces := ps.filter fun p => !isPlaceholder p

/-- The pieces of a template when the last pass begins. -/
def expanded (missing : MissingBlocks) (context : Context) (ps : Pieces) : Pieces :=
  conditionals context.merged (loops context.merged missing (fillAll ps context))

/-! ### Equations of a pass -/

variable {k : BlockKind α} {f : α → Pieces → Option Pieces} {p q : Piece Tag} {ps a b body : Pieces}
  {x : α} {path : String} {text : List Char}

theorem put?_nil : put? path text [] = none := rfl

theorem put?_cons_of_eq (h : p.tag? = some (.placeholder path)) :
    put? path text (p :: ps) = some (.plain text :: ps) := by
  rw [put?, cutAt?, if_pos h]
  rfl

theorem put?_cons_of_ne (h : p.tag? ≠ some (.placeholder path)) :
    put? path text (p :: ps) = (put? path text ps).map (p :: ·) := by
  rw [put?, put?, cutAt?, if_neg h]
  simp [Option.map_map, Function.comp_def]

/-- The placeholder is looked for in the first pieces, and then in the last ones. -/
theorem put?_append (a b : Pieces) : put? path text (a ++ b) =
    ((put? path text a).map (· ++ b)).or ((put? path text b).map (a ++ ·)) := by
  induction a with
  | nil => simp [put?_nil]
  | cons q a ih =>
    by_cases hq : q.tag? = some (.placeholder path)
    · rw [List.cons_append, put?_cons_of_eq hq, put?_cons_of_eq hq]
      rfl
    · rw [List.cons_append, put?_cons_of_ne hq, put?_cons_of_ne hq, ih]
      simp [Option.map_or, Option.map_map, Function.comp_def]

/-- Nothing is put where there is no placeholder of the path. -/
theorem put?_eq_none : put? path text ps = none ↔ ∀ q ∈ ps, q.tag? ≠ some (.placeholder path) := by
  rw [put?, Option.map_eq_none_iff, cutAt?_eq_none]

theorem expand_nil : expand k f [] = [] := by rw [expand]

/-- A piece that opens no block stays. -/
theorem expand_cons (h : k.opened? p = none) : expand k f (p :: ps) = p :: expand k f ps := by
  rw [expand]
  split
  · rfl
  · next h' => rw [h] at h'; cases h'

/-- A piece that opens a block stays where the block is not closed. -/
theorem expand_unclosed (h : ∀ q ∈ ps, q.tag? ≠ some k.closing) :
    expand k f (p :: ps) = p :: expand k f ps := by
  rw [expand]
  split
  · rfl
  · split
    · rfl
    · next h' => rw [cutAt?_eq_none.2 h] at h'; cases h'

/-- A block that is closed is replaced, and the pass goes on behind it. -/
theorem expand_block (hp : k.opened? p = some x) (hbody : ∀ q ∈ body, q.tag? ≠ some k.closing)
    (hq : q.tag? = some k.closing) :
    expand k f (p :: (body ++ q :: ps)) = (f x body).getD (p :: body ++ [q]) ++ expand k f ps := by
  have hcut := cutAt?_append hbody hq ps
  rw [expand]
  split
  · next h' => rw [hp] at h'; cases h'
  · next y h' =>
    obtain rfl : x = y := Option.some.inj (hp.symm.trans h')
    split
    · next h'' => rw [hcut] at h''; cases h''
    · next h'' =>
      rw [hcut] at h''
      obtain ⟨rfl, rfl, rfl⟩ := h''
      rfl

/-- The three ways in which a pass goes on, as an induction. -/
theorem expand_induction {motive : Pieces → Prop} (k : BlockKind α) (hnil : motive [])
    (hcons : ∀ p ps, k.opened? p = none ∨ (∀ q ∈ ps, q.tag? ≠ some k.closing) → motive ps →
      motive (p :: ps))
    (hblock : ∀ p x body q ps, k.opened? p = some x → (∀ q ∈ body, q.tag? ≠ some k.closing) →
      q.tag? = some k.closing → motive ps → motive (p :: (body ++ q :: ps)))
    (ps : Pieces) : motive ps := by
  -- on the length, as a whole block is left behind in one step
  induction hn : ps.length using Nat.strongRecOn generalizing ps with
  | ind n ih =>
    subst hn
    cases ps with
    | nil => exact hnil
    | cons p ps =>
      have hps := ih ps.length (Nat.lt_succ_self _) ps rfl
      cases hp : k.opened? p with
      | none => exact hcons p ps (.inl hp) hps
      | some x =>
        cases hcut : cutAt? k.closing ps with
        | none => exact hcons p ps (.inr (cutAt?_eq_none.1 hcut)) hps
        | some c =>
          obtain ⟨body, q, rest⟩ := c
          have hlt := length_cutAt? hcut
          obtain ⟨rfl, hq, hbody⟩ := cutAt?_eq_some hcut
          exact hblock p x body q rest hp hbody hq (ih rest.length (Nat.lt_succ_of_lt hlt) rest rfl)

/-- Behind each piece that opens a block of the kind there is one that closes such a block. -/
def Contained (k : BlockKind α) : Pieces → Prop
  | [] => True
  | p :: ps => (k.opened? p ≠ none → ∃ q ∈ ps, q.tag? = some k.closing) ∧ Contained k ps

/-- Pieces that contain their blocks, one after the other. -/
theorem Contained.append (ha : Contained k a) (hb : Contained k b) : Contained k (a ++ b) := by
  induction a with
  | nil => exact hb
  | cons p a ih =>
    refine ⟨fun hp => ?_, ih ha.2⟩
    obtain ⟨q, hq, hclose⟩ := ha.1 hp
    exact ⟨q, List.mem_append_left _ hq, hclose⟩

/-- The last of such pieces contain their blocks too. -/
theorem Contained.of_append (h : Contained k (a ++ b)) : Contained k b := by
  induction a with
  | nil => exact h
  | cons p a ih => exact ih h.2

/-- **Blocks do not reach out.** A pass treats pieces that contain their blocks apart from what
stands behind them. -/
theorem expand_append (h : Contained k ps) (qs : Pieces) :
    expand k f (ps ++ qs) = expand k f ps ++ expand k f qs := by
  induction ps using expand_induction k with
  | hnil => rw [expand_nil]; rfl
  | hcons p ps hopen ih =>
    -- an unclosed block could be closed by what stands behind
    have hp : k.opened? p = none := by
      rcases hopen with hp | hunclosed
      · exact hp
      · cases hp : k.opened? p with
        | none => rfl
        | some x =>
          obtain ⟨q, hq, hclose⟩ := h.1 (by rw [hp]; exact nofun)
          exact absurd hclose (hunclosed q hq)
    rw [List.cons_append, expand_cons hp, expand_cons hp, ih h.2, List.cons_append]
  | hblock p x body q ps hp hbody hq ih =>
    have hps : Contained k ps := (Contained.of_append h.2).2
    rw [List.cons_append, List.append_assoc, List.cons_append, expand_block hp hbody hq,
      expand_block hp hbody hq, ih hps, List.append_assoc]

end Pieces

/-! ### Passes over texts are passes over pieces -/

/-- What a key is called inside a loop is a path. -/
theorem isPath_path {row : Option String} {key : String} (hrow : ∀ loop ∈ row, isPath loop.toList)
    (hkey : isPath key.toList = true) : isPath (Placeholder.path row key).toList = true := by
  cases row with
  | none => exact hkey
  | some loop =>
    rw [Placeholder.path, String.toList_ofList]
    exact isPath_append_dot (hrow loop rfl) hkey

/-- A placeholder is looked for by its path between braces. -/
theorem lexeme_eq_braced (row : Option String) (key : String) :
    Placeholder.lexeme row key = braced (Placeholder.path row key).toList := by
  cases row with
  | none => rfl
  | some loop => rw [Placeholder.path, String.toList_ofList]; rfl

variable {K : Piece Tag → Prop} {ps : Pieces} {path key : String} {text sign : List Char}
  {row : Option String} {value : Value}

/-- What is put in place of a placeholder is plain text. -/
theorem forall_mem_put (hps : ∀ q ∈ ps, K q) (htext : K (.plain text)) :
    ∀ q ∈ put path text ps, K q := by
  rw [put, put?]
  cases hcut : cutAt? (.placeholder path) ps with
  | none => exact hps
  | some x =>
    obtain ⟨a, p, b⟩ := x
    obtain ⟨rfl, -, -⟩ := cutAt?_eq_some hcut
    rw [List.forall_mem_append, List.forall_mem_cons] at hps
    rw [Option.map_some, Option.getD_some, List.forall_mem_append, List.forall_mem_cons]
    exact ⟨hps.1, htext, hps.2.2⟩

/-- What a placeholder is filled with is plain text. -/
theorem forall_mem_fillOne (hps : ∀ q ∈ ps, K q)
    (hvalue : value.isScalar = true → K (.plain value.display.toList)) :
    ∀ q ∈ fillOne row ps key value, K q := by
  unfold fillOne
  split
  · next hscalar => exact forall_mem_put hps (hvalue hscalar)
  · exact hps

namespace Legible

/-- **Putting a text in place of a placeholder** is the same on the text and on its pieces. -/
theorem put_join (h : Legible K) (hpath : isPath path.toList = true) (hps : ∀ q ∈ ps, K q)
    (text : List Char) :
    replaceFirst (braced path.toList) text (join ps) = join (put path text ps) := by
  rw [replaceFirst, h.split?_join (sign_placeholder hpath) hps, put, put?]
  cases cutAt? (.placeholder path) ps with
  | none => rfl
  | some x =>
    obtain ⟨a, p, b⟩ := x
    simp [Piece.text]

/-- **Filling one placeholder** is the same on the text and on its pieces, which stay legible. -/
theorem fillOne_join (h : Legible K) (row : Option String)
    (hpath : isPath (Placeholder.path row key).toList = true)
    (hvalue : value.isClean = true) (hps : ∀ q ∈ ps, K q) :
    Placeholder.fillOne row (join ps) key value = join (fillOne row ps key value) ∧
      ∀ q ∈ fillOne row ps key value, K q := by
  constructor
  · unfold Placeholder.fillOne fillOne
    rw [lexeme_eq_braced]
    by_cases hscalar : value.isScalar = true
    · rw [if_pos hscalar, if_pos hscalar]
      exact h.put_join hpath hps _
    · rw [if_neg hscalar, if_neg hscalar]
  · -- what is put in comes from the data, and has no braces
    refine forall_mem_fillOne hps fun hscalar => ?_
    exact h.plain (Value.braceless_display hvalue hscalar)

/-- **Filling from a record** is the same on the text and on its pieces, by induction on the entries. -/
theorem fill_join (h : Legible K) (row : Option String) (hrow : ∀ loop ∈ row, isPath loop.toList = true)
    {record : Mapping} (hrecord : Value.areCleanFields record = true) (hps : ∀ q ∈ ps, K q) :
    Placeholder.fill row (join ps) record = join (fill row ps record) ∧
      ∀ q ∈ fill row ps record, K q := by
  rw [Value.areCleanFields_iff] at hrecord
  induction record generalizing ps with
  | nil => exact ⟨rfl, hps⟩
  | cons entry record ih =>
    rw [List.forall_mem_cons] at hrecord
    obtain ⟨⟨hkey, hvalue⟩, hrecord⟩ := hrecord
    obtain ⟨hjoin, hdrawn⟩ := h.fillOne_join row (isPath_path hrow hkey) hvalue hps
    have := ih hrecord hdrawn
    rw [← hjoin] at this
    exact this

/-- Filling a text from a context fills its pieces. -/
theorem fillAll_join (h : Legible K) {context : Context} (hcontext : context.isClean = true)
    (hps : ∀ q ∈ ps, K q) :
    Placeholder.fillAll (join ps) context = join (fillAll ps context) ∧
      ∀ q ∈ fillAll ps context, K q := by
  have hclean : ∀ m ∈ context.entries.reverse, Value.areCleanFields m = true :=
    fun m hm => List.all_eq_true.1 hcontext m (List.mem_reverse.1 hm)
  rw [Placeholder.fillAll, fillAll]
  generalize context.entries.reverse = entries at hclean
  induction entries generalizing ps with
  | nil => exact ⟨rfl, hps⟩
  | cons m entries ih =>
    rw [List.forall_mem_cons] at hclean
    obtain ⟨hjoin, hdrawn⟩ := h.fill_join none nofun hclean.1 hps
    have := ih hdrawn hclean.2
    rw [← hjoin] at this
    exact this

end Legible

/-! ### Blocks -/

/-- A piece that is a tag has been found. -/
theorem exists_of_tag? {p : Piece Tag} {tag : Tag} (h : p.tag? = some tag) :
    ∃ lexeme, p = .found tag lexeme := by
  cases p with
  | plain text => cases h
  | found tag' lexeme => exact ⟨lexeme, by rw [Option.some.inj h]⟩

variable {α γ : Type} {k : BlockKind α} {f : α → Pieces → Option Pieces} {x : α} {tag : Tag}
  {opener : Recogniser α} {blocks : Recogniser γ} {mk : α → List Char → γ} {body : Pieces}
  {lexeme s : List Char}

/-- A piece that opens a block is its opening tag. -/
theorem exists_of_opened? {p : Piece Tag} (h : k.opened? p = some x) :
    ∃ lexeme, p = .found (k.opening x) lexeme := by
  obtain ⟨tag, htag, hx⟩ := Option.bind_eq_some_iff.1 h
  rw [k.opening?_eq_some.1 hx] at htag
  exact exists_of_tag? htag

/-- **What a reader of blocks reads**: a tag that opens a block of the kind, and the text up to the
first sign of the tag that closes it. -/
structure ReadsBlocks (k : BlockKind α) (blocks : Recogniser γ) (mk : α → List Char → γ)
    (sign : List Char) : Prop where
  closes : Sign k.closing sign
  found : ∀ {s front rest body rest' x}, recogniser.read s = some (k.opening x, front, rest) →
    split? sign [] rest = some (body, rest') →
    blocks.read s = some (mk x body, front ++ (body ++ sign), rest')
  opened : ∀ {s y}, blocks.read s = some y → ∃ x front rest,
    recogniser.read s = some (k.opening x, front, rest) ∧ (split? sign [] rest).isSome = true

/-- A reader of opening tags, followed by a search for the sign of the closing one. -/
theorem block_read (opener : Recogniser α) (sign : List Char) (mk : α → List Char → γ)
    (s : List Char) :
    (opener.followedBy fun x => do let body ← Reader.upTo sign; return mk x body).read s =
      (opener.read s).bind fun (x, front, rest) =>
        (split? sign [] rest).map fun (body, rest) => (mk x body, front ++ (body ++ sign), rest) := by
  show (opener.toReader >>= fun x => Reader.upTo sign >>= fun body => pure (mk x body)).read s = _
  simp only [Bind.bind, Reader.bind, Reader.upTo, Pure.pure]
  cases opener.read s with
  | none => rfl
  | some y =>
    obtain ⟨x, front, rest⟩ := y
    cases hsplit : split? sign [] rest <;> simp [hsplit]

/-- Blocks are read by their opening tag and up to the spelling of their closing one. -/
theorem readsBlocks_followedBy (hopener : ∀ {s x front rest}, opener.read s = some (x, front, rest) ↔
      recogniser.read s = some (k.opening x, front, rest)) (hsign : Sign k.closing sign)
    (mk : α → List Char → γ) : ReadsBlocks k
      (opener.followedBy fun x => do let body ← Reader.upTo sign; return mk x body) mk sign where
  closes := hsign
  found := by
    intro s front rest body rest' x hx hsplit
    rw [block_read, hopener.2 hx, Option.bind_some]
    dsimp only
    rw [hsplit]
    rfl
  opened := by
    intro s y hy
    rw [block_read, Option.bind_eq_some_iff] at hy
    obtain ⟨⟨x, front, rest⟩, hx, hy⟩ := hy
    obtain ⟨_, hsplit, -⟩ := Option.map_eq_some_iff.1 hy
    exact ⟨x, front, rest, hopener.1 hx, by rw [hsplit]; rfl⟩

/-- Loops are read as such blocks. -/
theorem readsBlocks_loop : ReadsBlocks .loop LoopBlock.recogniser LoopBlock.mk eachCloseText :=
  readsBlocks_followedBy loopKey_read_iff sign_eachClose _

/-- Conditionals are read as such blocks. -/
theorem readsBlocks_conditional :
    ReadsBlocks .conditional ConditionalBlock.recogniser ConditionalBlock.mk ifCloseText :=
  readsBlocks_followedBy condition_read_iff sign_ifClose _

/-- A block begins where its opening tag does. -/
theorem ReadsBlocks.anchored (hr : ReadsBlocks k blocks mk sign) :
    Anchored blocks.read fun tag => ∃ x, tag = k.opening x := by
  intro s y hy
  obtain ⟨x, front, rest, hx, -⟩ := hr.opened hy
  exact ⟨_, front, rest, hx, x, rfl⟩

/-- **A block that is read in the text of pieces in place** stands between two of them, the tag that
opens it and the first one behind it that closes its kind. -/
theorem Pieces.InPlace.cut_of_block (h : InPlace ps) (hr : ReadsBlocks k blocks mk sign) {t rest : List Char}
    {y : γ} (hjoin : join ps = s ++ t) (hread : blocks.read t = some (y, lexeme, rest)) :
    ∃ x a front body b, y = mk x (join body) ∧ lexeme = front ++ (join body ++ sign) ∧
      ps = a ++ .found (k.opening x) front :: (body ++ .found k.closing sign :: b) ∧
      join a = s ∧ join b = rest ∧ ∀ q ∈ body, q.tag? ≠ some k.closing := by
  obtain ⟨x, front, behind, hopen, hclosed⟩ := hr.opened hread
  obtain ⟨⟨text, rest'⟩, hsplit⟩ := Option.isSome_iff_exists.1 hclosed
  have hfound := hr.found hopen hsplit
  rw [hread] at hfound
  obtain ⟨rfl, rfl, rfl⟩ : y = mk x text ∧ lexeme = front ++ (text ++ sign) ∧ rest = rest' := by
    simpa using hfound
  obtain ⟨a, d, rfl, rfl, rfl⟩ := h.cut_of_read hjoin hopen
  -- the body reaches to the first closing tag among the pieces behind
  have hbehind : InPlace d := (h.of_append (a := a)).2
  rw [hbehind.split?_join hr.closes] at hsplit
  obtain ⟨⟨body, q, b⟩, hcut, he⟩ := Option.map_eq_some_iff.1 hsplit
  obtain ⟨rfl, rfl⟩ := Prod.mk.inj he
  obtain ⟨rfl, hq, hbody⟩ := cutAt?_eq_some hcut
  obtain ⟨sign', rfl⟩ := exists_of_tag? hq
  obtain ⟨rfl, -⟩ := hr.closes.1 ((hbehind.of_append (a := body)).1.read rfl)
  exact ⟨x, a, front, body, b, rfl, rfl, rfl, rfl, rfl, hbody⟩

/-- What holds of all pieces and of all that is put in place of blocks holds after a pass. -/
theorem forall_mem_expand (hf : ∀ {x lexeme body}, K (.found (k.opening x) lexeme) →
      (∀ q ∈ body, K q) → ∀ ps, f x body = some ps → ∀ q ∈ ps, K q)
    (hps : ∀ q ∈ ps, K q) : ∀ q ∈ expand k f ps, K q := by
  -- on the pass, which keeps a piece or replaces a block
  induction ps using expand_induction k with
  | hnil => rw [expand_nil]; exact hps
  | hcons p ps hopen ih =>
    rw [List.forall_mem_cons] at hps
    have hexpand : expand k f (p :: ps) = p :: expand k f ps :=
      hopen.elim expand_cons expand_unclosed
    rw [hexpand, List.forall_mem_cons]
    exact ⟨hps.1, ih hps.2⟩
  | hblock p x body q ps hp hbody hq ih =>
    rw [List.forall_mem_cons, List.forall_mem_append, List.forall_mem_cons] at hps
    obtain ⟨hp', hbody', hq', hps⟩ := hps
    rw [expand_block hp hbody hq, List.forall_mem_append]
    refine ⟨?_, ih hps⟩
    cases hmade : f x body with
    | none =>
      rw [Option.getD_none, List.cons_append, List.forall_mem_cons, List.forall_mem_append]
      exact ⟨hp', hbody', List.forall_mem_singleton.2 hq'⟩
    | some made =>
      obtain ⟨lexeme, rfl⟩ := exists_of_opened? hp
      exact hf hp' hbody' made hmade

/-- A piece in place is a placeholder and is read as one, or no placeholder is read in it. -/
theorem Text.Piece.InPlace.placeholder_or_silent {p : Piece Tag} {t : List Char} (h : p.InPlace t) :
    (∃ path lexeme, p = .found (.placeholder path) lexeme ∧
      placeholderPath.read (lexeme ++ t) = some (path, lexeme, t)) ∨
    (isPlaceholder p = false ∧ Silent placeholderPath.read p.text t) := by
  by_cases hplaceholder : ∃ path, p.tag? = some (.placeholder path)
  · obtain ⟨path, htag⟩ := hplaceholder
    obtain ⟨lexeme, rfl⟩ := exists_of_tag? htag
    exact .inl ⟨path, lexeme, rfl, placeholderPath_read_iff.2 (h.read rfl)⟩
  · right
    constructor
    · rw [isPlaceholder]
      split
      · next path htag => exact absurd ⟨path, htag⟩ hplaceholder
      · rfl
    · refine h.silent_text anchored_placeholderPath fun tag htag => ?_
      rintro ⟨path, rfl⟩
      exact hplaceholder ⟨path, htag⟩

namespace Legible

/-- Where a block is not closed, none is read. -/
theorem read_unclosed (h : Legible K) (hr : ReadsBlocks k blocks mk sign) (hp : K (.found tag lexeme))
    (hps : ∀ q ∈ ps, K q) (hunclosed : ∀ q ∈ ps, q.tag? ≠ some k.closing) :
    blocks.read (lexeme ++ join ps) = none := by
  cases hread : blocks.read (lexeme ++ join ps) with
  | none => rfl
  | some y =>
    obtain ⟨x, front, rest, hx, hsplit⟩ := hr.opened hread
    rw [h.read hp hps] at hx
    obtain ⟨-, -, rfl⟩ := hx
    rw [h.split?_join hr.closes hps, cutAt?_eq_none.2 hunclosed] at hsplit
    cases hsplit

/-- A block is read up to the first piece that closes it. -/
theorem read_block (h : Legible K) (hr : ReadsBlocks k blocks mk sign)
    (hp : K (.found (k.opening x) lexeme)) (hbody : ∀ q ∈ body, K q) (hq : K (.found k.closing sign))
    (hps : ∀ q ∈ ps, K q) (hfree : ∀ q ∈ body, q.tag? ≠ some k.closing) :
    blocks.read (lexeme ++ join (body ++ .found k.closing sign :: ps)) =
      some (mk x (join body), lexeme ++ (join body ++ sign), join ps) := by
  have hrest : ∀ r ∈ body ++ .found k.closing sign :: ps, K r := by
    rw [List.forall_mem_append, List.forall_mem_cons]
    exact ⟨hbody, hq, hps⟩
  refine hr.found (h.read hp hrest) ?_
  rw [h.split?_join hr.closes hrest, cutAt?_append hfree rfl]
  rfl

/-- A scan for blocks in legible pieces replaces the blocks of the pieces. -/
theorem replace_join (h : Legible K) (hr : ReadsBlocks k blocks mk sign)
    {g : γ → List Char → List Char}
    (hg : ∀ {x lexeme body}, K (.found (k.opening x) lexeme) → (∀ q ∈ body, K q) →
      g (mk x (join body)) (lexeme ++ (join body ++ sign)) =
        ((f x body).map join).getD (lexeme ++ (join body ++ sign)))
    (hps : ∀ q ∈ ps, K q) : blocks.replace g (join ps) = join (expand k f ps) := by
  -- on the pass: what it steps over is silent for the scan, and what it replaces is read there
  induction ps using expand_induction k with
  | hnil => rw [expand_nil]; exact Recogniser.replace_nil _ _
  | hcons p ps hopen ih =>
    rw [List.forall_mem_cons] at hps
    obtain ⟨hp, hps⟩ := hps
    have hexpand : expand k f (p :: ps) = p :: expand k f ps :=
      hopen.elim expand_cons expand_unclosed
    rw [hexpand, join_cons, join_cons, ← ih hps]
    refine Recogniser.replace_append_of_silent g ?_
    rcases hopen with hopen | hunclosed
    · refine h.silent_text hr.anchored hp hps fun tag htag => ?_
      rintro ⟨x, rfl⟩
      rw [BlockKind.opened?, htag, Option.bind_some, k.opening?_eq_some.2 rfl] at hopen
      cases hopen
    · refine h.silent_of_front hr.anchored hp hps fun htag => ?_
      cases p with
      | plain text => cases htag
      | found tag lexeme => exact h.read_unclosed hr hp hps hunclosed
  | hblock p x body q ps hp hbody hq ih =>
    rw [List.forall_mem_cons, List.forall_mem_append, List.forall_mem_cons] at hps
    obtain ⟨hp', hbody', hq', hps⟩ := hps
    obtain ⟨lexeme, rfl⟩ := exists_of_opened? hp
    obtain ⟨sign', rfl⟩ := exists_of_tag? hq
    obtain ⟨rfl, -⟩ := hr.closes.1 (h.read hq' hps)
    have hread := h.read_block hr hp' hbody' hq' hps hbody
    rw [join_cons, Piece.text, Recogniser.replace_of_read g hread, ih hps, hg hp' hbody',
      expand_block hp hbody hq, join_append]
    cases f x body <;> simp [Piece.text]

/-! ### Loops -/

/-- The key of a legible loop is a path. -/
theorem isPath_of_eachOpen (h : Legible K) {lexeme : List Char}
    (hopen : K (.found (.eachOpen key) lexeme)) : isPath key.toList = true := by
  have hread : recogniser.read (lexeme ++ join []) = _ := h.read hopen nofun
  obtain ⟨⟨hne, hkey⟩, -⟩ := loopKey_eq_some (loopKey_read_iff.2 hread)
  exact isPath_of_forall hkey hne

/-- **Filling a row** is the same on the text of a body and on its pieces. -/
theorem expandRow_join (h : Legible K) (hkey : isPath key.toList = true)
    (hvalue : value.isClean = true) {body : Pieces} (hbody : ∀ q ∈ body, K q) :
    LoopBlock.expandRow ⟨key, join body⟩ value = join (expandRow key body value) ∧
      ∀ q ∈ expandRow key body value, K q := by
  have hrow : ∀ loop ∈ some key, isPath loop.toList = true := by
    rintro loop ⟨⟩
    exact hkey
  cases value with
  | mapping fields => exact h.fill_join (some key) hrow hvalue hbody
  | _ => exact h.fillOne_join none hkey hvalue hbody

/-- **Filling several rows** is the same on the text of a body and on its pieces. -/
theorem rows_join (h : Legible K) (hkey : isPath key.toList = true) {values : List Value}
    (hvalues : ∀ v ∈ values, v.isClean = true) {body : Pieces} (hbody : ∀ q ∈ body, K q) :
    values.flatMap (LoopBlock.expandRow ⟨key, join body⟩) =
        join (values.flatMap (expandRow key body)) ∧
      ∀ q ∈ values.flatMap (expandRow key body), K q := by
  induction values with
  | nil => exact ⟨rfl, nofun⟩
  | cons v values ih =>
    rw [List.forall_mem_cons] at hvalues
    obtain ⟨hrow, hdrawn⟩ := h.expandRow_join hkey hvalues.1 hbody
    obtain ⟨hrows, hdrawn'⟩ := ih hvalues.2
    rw [List.flatMap_cons, List.flatMap_cons, hrow, hrows, join_append]
    exact ⟨rfl, List.forall_mem_append.2 ⟨hdrawn, hdrawn'⟩⟩

/-- Expanding the loops of a text expands those of its pieces. -/
theorem loops_join (h : Legible K) {data : Mapping} (hdata : Value.areCleanFields data = true)
    (missing : MissingBlocks) (hps : ∀ q ∈ ps, K q) :
    Expansion.loops data missing (join ps) = join (loops data missing ps) ∧
      ∀ q ∈ loops data missing ps, K q := by
  have hrows : ∀ {key value}, data.get? key = some value → ∀ v ∈ value.rows, v.isClean = true := by
    intro key value hget v hv
    have hvalue := (Value.areCleanFields_iff.1 hdata _ (Fields.mem_of_get? hget)).2
    exact Value.isClean_of_mem_rows hvalue hv
  constructor
  · refine h.replace_join readsBlocks_loop ?_ hps
    intro key lexeme body hopen hbody
    have hkey := h.isPath_of_eachOpen hopen
    unfold LoopBlock.expand rows?
    dsimp only
    -- a loop that is bound has rows in its place, and every other one stays or goes as a whole
    cases hget : data.get? key with
    | some value => exact (h.rows_join hkey (hrows hget) hbody).1
    | none => cases missing <;> rfl
  · refine forall_mem_expand ?_ hps
    intro key lexeme body hopen hbody made hmade
    have hkey := h.isPath_of_eachOpen hopen
    unfold rows? at hmade
    cases hget : data.get? key with
    | some value =>
      rw [hget] at hmade
      obtain rfl := Option.some.inj hmade
      exact (h.rows_join hkey (hrows hget) hbody).2
    | none =>
      rw [hget] at hmade
      cases missing with
      | preserve => cases hmade
      | remove =>
        obtain rfl := Option.some.inj hmade
        exact nofun

/-! ### Conditionals and the last pass -/

/-- **Choosing a branch** is the same on the text of a body and on its pieces. -/
theorem branch_join (h : Legible K) (c : Condition) (data : Mapping) {body : Pieces}
    (hbody : ∀ q ∈ body, K q) :
    ConditionalBlock.resolve data ⟨c, join body⟩ = join (branch (c.holds data) body) ∧
      ∀ q ∈ branch (c.holds data) body, K q := by
  rw [ConditionalBlock.resolve, ConditionalBlock.whenTrue, ConditionalBlock.whenFalse, branch,
    h.split?_join sign_otherwise hbody]
  cases hcut : cutAt? .otherwise body with
  | none =>
    by_cases hc : c.holds data = true
    · simp only [hc, if_true]
      exact ⟨rfl, hbody⟩
    · simp only [hc]
      exact ⟨rfl, nofun⟩
  | some x =>
    obtain ⟨a, p, b⟩ := x
    obtain ⟨rfl, -, -⟩ := cutAt?_eq_some hcut
    rw [List.forall_mem_append, List.forall_mem_cons] at hbody
    by_cases hc : c.holds data = true
    · simp only [hc, if_true]
      exact ⟨rfl, hbody.1⟩
    · simp only [hc]
      exact ⟨rfl, hbody.2.2⟩

/-- **Resolving conditionals** is the same on the text and on its pieces. -/
theorem conditionals_join (h : Legible K) (data : Mapping) (hps : ∀ q ∈ ps, K q) :
    Expansion.conditionals data (join ps) = join (conditionals data ps) ∧
      ∀ q ∈ conditionals data ps, K q := by
  constructor
  · refine h.replace_join readsBlocks_conditional ?_ hps
    intro c lexeme body _ hbody
    exact (h.branch_join c data hbody).1
  · refine forall_mem_expand ?_ hps
    intro c lexeme body _ hbody made hmade
    obtain rfl := Option.some.inj hmade
    exact (h.branch_join c data hbody).2

/-- **Taking out placeholders** is the same on the text and on its pieces. -/
theorem clear_join (h : Legible K) (hps : ∀ q ∈ ps, K q) :
    Placeholder.clear (join ps) = join (clear ps) := by
  rw [Placeholder.clear]
  induction ps with
  | nil => exact Recogniser.replace_nil _ _
  | cons p ps ih =>
    rw [List.forall_mem_cons] at hps
    obtain ⟨hp, hps⟩ := hps
    rw [join_cons, clear, List.filter_cons]
    rcases (h.piece_inPlace hp hps).placeholder_or_silent with
      ⟨path, lexeme, rfl, hread⟩ | ⟨hkeep, hsilent⟩
    · rw [Piece.text, Recogniser.replace_of_read _ hread, ih hps]
      rfl
    · rw [Recogniser.replace_append_of_silent _ hsilent, ih hps, hkeep]
      rfl

end Legible

/-! ### A whole rendering -/

/-- The passes over a text in legible pieces, up to the last, are passes over the pieces. -/
theorem expanded_eq_join (h : Legible K) (hps : ∀ q ∈ ps, K q) {template : String}
    (htemplate : template.toList = join ps) (missing : MissingBlocks) {context : Context}
    (hcontext : context.isClean = true) :
    Stencil.expanded missing template context = join (Pieces.expanded missing context ps) ∧
      ∀ q ∈ Pieces.expanded missing context ps, K q := by
  obtain ⟨hfill, hfilled⟩ := h.fillAll_join hcontext hps
  obtain ⟨hloop, hlooped⟩ := h.loops_join (Context.isClean_merged hcontext) missing hfilled
  obtain ⟨hif, hiffed⟩ := h.conditionals_join context.merged hlooped
  exact ⟨by rw [Stencil.expanded, htemplate, hfill, hloop, hif]; rfl, hiffed⟩

/-- **Rendering goes by pieces.** A template in legible pieces is rendered as the text of its pieces
after the passes over them. -/
theorem render_eq_join (h : Legible K) (hps : ∀ q ∈ ps, K q) {template : String}
    (htemplate : template.toList = join ps) (missing : MissingBlocks) {context : Context}
    (hcontext : context.isClean = true) :
    (render missing template context).toList =
      join (clear (Pieces.expanded missing context ps)) := by
  obtain ⟨hexpanded, hdrawn⟩ := expanded_eq_join h hps htemplate missing hcontext
  rw [render_eq_clear, String.toList_ofList, hexpanded, h.clear_join hdrawn]

/-- A template is the text of its pieces. -/
theorem toList_eq_join (template : String) :
    template.toList = join (recogniser.pieces template.toList) :=
  (Recogniser.flatten_pieces _ _).symm

end Stencil
