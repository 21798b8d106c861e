import Stencil.Proofs.Branches

/-!
# Templates behind one another

A text made of two templates is rendered as the one and then the other, as long as both are balanced and
read no common path. No pass takes anything that begins in the first template and ends in the second.
That needs an argument for the conditionals: where loops stand in loops, the loop pass cuts blocks at
the wrong closing tag and copies or drops opening tags of conditionals, but the closing tag of every one
that it leaves is still behind it.

* `Legible.apart_blocks`: blocks that pieces contain are not read across the border to what follows.
* `Awaits.contained_loops`: conditionals do not reach out of balanced pieces whose loops have been expanded.
* `render_append`: the two templates are rendered apart.
-/

namespace Stencil

open Text Tag Pieces

variable {K : Piece Tag → Prop} {ps qs body : Pieces} {p q : Piece Tag} {nodes : List Node}
  {data : Mapping} {missing : MissingBlocks} {ts us : List Tag}

/-! ### Legible pieces behind one another -/

namespace Legible

variable {β γ : Type} {r : Reader β} {is : Tag → Prop}

/-- Where a construct begins with a piece, it has to end in the pieces behind that one. -/
theorem apart_cons (h : Legible K) (hr : Anchored r.read is) (hp : K p) (hps : ∀ q ∈ ps, K q)
    (hqs : ∀ q ∈ qs, K q) (hfront : ∀ tag, p.tag? = some tag → is tag →
      r.read (p.text ++ join (ps ++ qs)) = (r.read (p.text ++ join ps)).map (withBehind (join qs)))
    (ih : Apart r (join ps) (join qs)) : Apart r (join (p :: ps)) (join qs) := by
  have hall : ∀ q ∈ ps ++ qs, K q := List.forall_mem_append.2 ⟨hps, hqs⟩
  have hsilent : ∀ {s}, Silent r.read s (join (ps ++ qs)) → Silent r.read s (join ps) →
      ∀ u, u ≠ [] → u <:+ s →
        r.read (u ++ (join ps ++ join qs)) = (r.read (u ++ join ps)).map (withBehind (join qs)) := by
    intro s hfar hnear u hu hs
    rw [← join_append, hfar u hu hs, hnear u hu hs]
    rfl
  rw [join_cons]
  refine Apart.append ?_ ih
  by_cases his : ∃ tag, p.tag? = some tag ∧ is tag
  · -- at the front as assumed, and nothing begins behind it
    obtain ⟨tag, htag, his⟩ := his
    have hfront' := hfront tag htag his
    have hhidden := hsilent (h.silent_hidden hr hp hall) (h.silent_hidden hr hp hps)
    cases p with
    | plain text => cases htag
    | found tag' lexeme =>
      obtain ⟨c, s, rfl⟩ := List.exists_cons_of_ne_nil (recogniser.advances (h.read hp hps))
      intro u hu hs
      rcases List.suffix_cons_iff.1 hs with rfl | hs
      · rw [← join_append]
        exact hfront'
      · exact hhidden u hu hs
  · have hother : ∀ tag, p.tag? = some tag → ¬ is tag := fun tag htag hi => his ⟨tag, htag, hi⟩
    exact hsilent (h.silent_text hr hp hall hother) (h.silent_text hr hp hps hother)

/-- **Blocks do not reach across** the border of pieces that contain them. -/
theorem apart_blocks {α : Type} {k : BlockKind α} {blocks : Recogniser γ} {mk : α → List Char → γ}
    {sign : List Char} (h : Legible K) (hr : ReadsBlocks k blocks mk sign) (hps : ∀ q ∈ ps, K q)
    (hqs : ∀ q ∈ qs, K q) (hcontained : Contained k ps) :
    Apart blocks.toReader (join ps) (join qs) := by
  induction ps with
  | nil => exact apart_nil _ _
  | cons p ps ih =>
    rw [List.forall_mem_cons] at hps
    refine h.apart_cons hr.anchored hps.1 hps.2 hqs ?_ (ih hps.2 hcontained.2)
    rintro tag htag ⟨x, rfl⟩
    have hopen : k.opened? p = some x := by
      rw [BlockKind.opened?, htag]
      exact k.opening?_eq_some.2 rfl
    have hclosed : ∃ q ∈ ps, q.tag? = some k.closing := by
      apply hcontained.1
      rw [hopen]
      exact Option.some_ne_none x
    -- the block ends at the first closing tag, whatever stands behind that
    cases hcut : cutAt? k.closing ps with
    | none =>
      obtain ⟨q, hq, htag⟩ := hclosed
      exact absurd htag (cutAt?_eq_none.1 hcut q hq)
    | some y =>
      obtain ⟨body, q, rest⟩ := y
      obtain ⟨rfl, hq, hfree⟩ := cutAt?_eq_some hcut
      obtain ⟨lexeme, rfl⟩ := exists_of_tag? htag
      obtain ⟨sign', rfl⟩ := exists_of_tag? hq
      rw [List.forall_mem_append, List.forall_mem_cons] at hps
      obtain ⟨hp, hbody, hq', hrest⟩ := hps
      obtain ⟨rfl, -⟩ := hr.closes.1 (h.read hq' hrest)
      have hbehind : ∀ q ∈ rest ++ qs, K q := List.forall_mem_append.2 ⟨hrest, hqs⟩
      have hfar := h.read_block hr hp hbody hq' hbehind hfree
      have hnear := h.read_block hr hp hbody hq' hrest hfree
      rw [List.append_assoc, List.cons_append, Piece.text, hfar, hnear, join_append]
      rfl

/-- No placeholder reaches across the border of legible pieces. -/
theorem apart_placeholders (h : Legible K) (hps : ∀ q ∈ ps, K q) (hqs : ∀ q ∈ qs, K q) :
    Apart placeholderPath.toReader (join ps) (join qs) := by
  induction ps with
  | nil => exact apart_nil _ _
  | cons p ps ih =>
    rw [List.forall_mem_cons] at hps
    refine h.apart_cons anchored_placeholderPath hps.1 hps.2 hqs ?_ (ih hps.2)
    rintro tag htag ⟨path, rfl⟩
    obtain ⟨lexeme, rfl⟩ := exists_of_tag? htag
    have hfar := placeholderPath_read_iff.2
      (h.read hps.1 (List.forall_mem_append.2 ⟨hps.2, hqs⟩))
    have hnear := placeholderPath_read_iff.2 (h.read hps.1 hps.2)
    rw [Piece.text, hfar, hnear, join_append]
    rfl

end Legible

/-! ### Closing tags behind expanded loops -/

/-- The tag opens or closes a block. -/
def Tag.isBorder : Tag → Bool
  | .eachOpen _ => true
  | .eachClose => true
  | .ifOpen _ => true
  | .ifClose => true
  | _ => false

/-- **The closing tags that are awaited.** The pieces are read with a stack of closing tags: an opening
tag puts the one that belongs to it on top, a closing tag has to be the one on top, and in the end none
is left. -/
inductive Awaits : List Tag → Pieces → Prop where
  | nil : Awaits [] []
  | keep {ts : List Tag} {p : Piece Tag} {ps : Pieces} :
    (∀ tag, p.tag? = some tag → tag.isBorder = false) → Awaits ts ps → Awaits ts (p :: ps)
  | eachOpen {ts : List Tag} {p : Piece Tag} {ps : Pieces} {key : String} :
    p.tag? = some (.eachOpen key) → Awaits (.eachClose :: ts) ps → Awaits ts (p :: ps)
  | ifOpen {ts : List Tag} {p : Piece Tag} {ps : Pieces} {c : Condition} :
    p.tag? = some (.ifOpen c) → Awaits (.ifClose :: ts) ps → Awaits ts (p :: ps)
  | eachClose {ts : List Tag} {p : Piece Tag} {ps : Pieces} :
    p.tag? = some .eachClose → Awaits ts ps → Awaits (.eachClose :: ts) (p :: ps)
  | ifClose {ts : List Tag} {p : Piece Tag} {ps : Pieces} :
    p.tag? = some .ifClose → Awaits ts ps → Awaits (.ifClose :: ts) (p :: ps)

/-- Pieces that spell a tree leave the stack as it was. -/
theorem Awaits.append (h : Spell ps nodes) (hqs : Awaits ts qs) : Awaits ts (ps ++ qs) := by
  have hborder : ∀ {p : Piece Tag} {tag : Tag}, p.lexeme = .tag tag → tag.isBorder = false →
      ∀ tag', p.tag? = some tag' → tag'.isBorder = false := by
    intro p tag hp hfalse tag' htag
    rw [tag?_of_lexeme hp] at htag
    rw [← Option.some.inj htag]
    exact hfalse
  -- what stands behind is general, as it begins with the closing tags of the blocks around
  induction h generalizing ts qs with
  | nil => exact hqs
  | plain hx _ ih =>
    refine .keep (fun tag htag => ?_) (ih hqs)
    rw [tag?_of_lexeme_plain hx] at htag
    cases htag
  | placeholder hx _ ih => exact .keep (hborder hx rfl) (ih hqs)
  | loop hx _ _ hy _ ihbody ih =>
    rw [List.cons_append, List.append_assoc, List.cons_append]
    exact .eachOpen (tag?_of_lexeme hx) (ihbody (.eachClose (tag?_of_lexeme hy) (ih hqs)))
  | single hx _ _ hy _ ihbranch ih =>
    rw [List.cons_append, List.append_assoc, List.cons_append]
    exact .ifOpen (tag?_of_lexeme hx) (ihbranch (.ifClose (tag?_of_lexeme hy) (ih hqs)))
  | double hx _ _ hy _ hz _ ihtrue ihfalse ih =>
    rw [List.cons_append, List.append_assoc, List.cons_append, List.append_assoc, List.cons_append]
    have hrest := ihfalse (.ifClose (tag?_of_lexeme hz) (ih hqs))
    exact .ifOpen (tag?_of_lexeme hx) (ihtrue (.keep (hborder hy rfl) hrest))

theorem opened?_eq_none (h : ∀ c, p.tag? ≠ some (.ifOpen c)) : BlockKind.conditional.opened? p = none := by
  cases hopen : BlockKind.conditional.opened? p with
  | none => rfl
  | some c =>
    obtain ⟨lexeme, rfl⟩ := exists_of_opened? hopen
    exact absurd rfl (h c)

/-- A piece that opens no conditional in front of pieces that contain theirs. -/
theorem contained_cons (hp : ∀ c, p.tag? ≠ some (.ifOpen c)) (hps : Contained .conditional ps) :
    Contained .conditional (p :: ps) := by
  refine ⟨fun hopen => ?_, hps⟩
  exact absurd (opened?_eq_none hp) hopen

/-- Pieces contain their conditionals as soon as one is closed behind all of them. -/
theorem contained_append_of_closed (hps : Contained .conditional ps)
    (hclosed : ∃ q ∈ ps, q.tag? = some .ifClose) (qs : Pieces) : Contained .conditional (qs ++ ps) := by
  induction qs with
  | nil => exact hps
  | cons q qs ih =>
    refine ⟨fun _ => ?_, ih⟩
    obtain ⟨r, hr, hclose⟩ := hclosed
    exact ⟨r, List.mem_append_right qs hr, hclose⟩

/-- **A loop that is cut at the first closing tag.** Reading the body of the loop, with the stack `us` on
top of the closing tag that belongs to the loop, leaves a stack `vs` behind: a conditional that the
body opens, or that is open before it, is closed in the body or is still awaited behind the cut. -/
theorem Awaits.cut (h : Awaits (us ++ .eachClose :: ts) (body ++ q :: ps))
    (hbody : ∀ r ∈ body, r.tag? ≠ some .eachClose) (hq : q.tag? = some .eachClose) :
    ∃ vs, Awaits (vs ++ ts) ps ∧ (Contained .conditional body ∨ Tag.ifClose ∈ vs) ∧
      (Tag.ifClose ∈ us → (∃ r ∈ body, r.tag? = some .ifClose) ∨ Tag.ifClose ∈ vs) := by
  induction body generalizing us with
  | nil =>
    rw [List.nil_append] at h
    generalize hstack : us ++ .eachClose :: ts = stack at h
    have htag : ∀ {tag}, q.tag? = some tag → tag = .eachClose :=
      fun he => Option.some.inj (he.symm.trans hq)
    cases h with
    | keep hkeep _ => exact absurd (hkeep _ hq) nofun
    | eachOpen he _ => exact absurd (htag he) nofun
    | ifOpen he _ => exact absurd (htag he) nofun
    | ifClose he _ => exact absurd (htag he) nofun
    | eachClose _ h =>
      -- the loop that ends here is this one, or one that its body opens
      cases us with
      | nil =>
        obtain ⟨-, rfl⟩ := List.cons.inj hstack
        exact ⟨[], h, .inl trivial, nofun⟩
      | cons u us =>
        obtain ⟨rfl, rfl⟩ := List.cons.inj hstack
        refine ⟨us ++ [.eachClose], ?_, .inl trivial, fun hm => .inr ?_⟩
        · rw [List.append_assoc]
          exact h
        · have hm : Tag.ifClose ∈ us := (List.mem_cons.1 hm).resolve_left nofun
          exact List.mem_append_left _ hm
  | cons r body ih =>
    rw [List.forall_mem_cons] at hbody
    obtain ⟨hr, hbody⟩ := hbody
    rw [List.cons_append] at h
    generalize hstack : us ++ .eachClose :: ts = stack at h
    have hother : ∀ {tag}, r.tag? = some tag → (∀ c, tag ≠ .ifOpen c) →
        Contained .conditional body → Contained .conditional (r :: body) := by
      intro tag he hne
      exact contained_cons fun c hc => hne c (Option.some.inj (he.symm.trans hc))
    have hlater : (∃ r ∈ body, r.tag? = some .ifClose) → ∃ r' ∈ r :: body, r'.tag? = some .ifClose := by
      rintro ⟨r', hr', he⟩
      exact ⟨r', List.mem_cons_of_mem r hr', he⟩
    cases h with
    | keep hkeep h =>
      subst hstack
      obtain ⟨vs, hvs, hcontained, hclosed⟩ := ih h hbody
      have hr' : ∀ c, r.tag? ≠ some (.ifOpen c) := fun c hc => absurd (hkeep _ hc) nofun
      exact ⟨vs, hvs, hcontained.imp_left (contained_cons hr'), fun hm => (hclosed hm).imp_left hlater⟩
    | eachOpen he h =>
      subst hstack
      have h' : Awaits ((.eachClose :: us) ++ .eachClose :: ts) (body ++ q :: ps) := h
      obtain ⟨vs, hvs, hcontained, hclosed⟩ := ih h' hbody
      refine ⟨vs, hvs, hcontained.imp_left (hother he nofun), fun hm => ?_⟩
      exact (hclosed (List.mem_cons_of_mem _ hm)).imp_left hlater
    | ifOpen he h =>
      subst hstack
      have h' : Awaits ((.ifClose :: us) ++ .eachClose :: ts) (body ++ q :: ps) := h
      obtain ⟨vs, hvs, hcontained, hclosed⟩ := ih h' hbody
      have hclosed := hclosed List.mem_cons_self
      refine ⟨vs, hvs, ?_, fun _ => hclosed.imp_left hlater⟩
      rcases hclosed with hclosed | hawaited
      · exact hcontained.imp_left fun hc => ⟨fun _ => hclosed, hc⟩
      · exact .inr hawaited
    | eachClose he _ => exact absurd he hr
    | ifClose he h =>
      cases us with
      | nil => exact absurd (List.cons.inj hstack).1 nofun
      | cons u us =>
        obtain ⟨rfl, rfl⟩ := List.cons.inj hstack
        obtain ⟨vs, hvs, hcontained, -⟩ := ih h hbody
        refine ⟨vs, hvs, hcontained.imp_left (hother he nofun), fun _ => .inl ?_⟩
        exact ⟨r, List.mem_cons_self, he⟩

/-! ### Conditionals behind expanded loops -/

/-- What is kept when a placeholder becomes plain text is kept when pieces are filled. -/
theorem put_keeps {P : Pieces → Prop} (hP : ∀ {a p b path} text, p.tag? = some (.placeholder path) →
      P (a ++ p :: b) → P (a ++ .plain text :: b)) (path : String) (text : List Char) (hps : P ps) :
    P (put path text ps) := by
  unfold put put?
  cases hcut : cutAt? (.placeholder path) ps with
  | none => exact hps
  | some x =>
    obtain ⟨a, p, b⟩ := x
    obtain ⟨rfl, hp, -⟩ := cutAt?_eq_some hcut
    exact hP _ hp hps

/-- What filling a placeholder keeps is kept by filling a key. -/
theorem fillOne_keeps {P : Pieces → Prop} (hP : ∀ {a p b path} text, p.tag? = some (.placeholder path) →
      P (a ++ p :: b) → P (a ++ .plain text :: b)) {row : Option String} {key : String} {value : Value}
    (hps : P ps) : P (fillOne row ps key value) := by
  unfold fillOne
  by_cases hscalar : value.isScalar = true
  · rw [if_pos hscalar]
    exact put_keeps hP _ _ hps
  · rw [if_neg hscalar]
    exact hps

/-- What filling a placeholder keeps is kept by filling from a record. -/
theorem fill_keeps {P : Pieces → Prop} (hP : ∀ {a p b path} text, p.tag? = some (.placeholder path) →
      P (a ++ p :: b) → P (a ++ .plain text :: b)) {row : Option String} {record : Mapping}
    (hps : P ps) : P (fill row ps record) := by
  induction record generalizing ps with
  | nil => exact hps
  | cons entry record ih => exact ih (fillOne_keeps hP hps)

/-- What filling a placeholder keeps is kept by several fills. -/
theorem puts_keeps {P : Pieces → Prop} (hP : ∀ {a p b path} text, p.tag? = some (.placeholder path) →
      P (a ++ p :: b) → P (a ++ .plain text :: b)) (fills : List (String × String)) (hps : P ps) :
    P (puts fills ps) := by
  induction fills generalizing ps with
  | nil => exact hps
  | cons fill fills ih => exact ih (put_keeps hP _ _ hps)

theorem conditional_closing_ne (path : String) : BlockKind.conditional.closing ≠ .placeholder path :=
  Tag.noConfusion

/-- Where blocks of a kind are contained, they are so when a placeholder is filled. -/
theorem contained_of_filled {α : Type} {k : BlockKind α} (hk : ∀ path, k.closing ≠ .placeholder path)
    {a b : Pieces} {path : String} (text : List Char) (hp : p.tag? = some (.placeholder path))
    (h : Contained k (a ++ p :: b)) : Contained k (a ++ .plain text :: b) := by
  induction a with
  | nil => exact ⟨fun hopen => absurd rfl hopen, h.2⟩
  | cons r a ih =>
    refine ⟨fun hopen => ?_, ih h.2⟩
    obtain ⟨q, hq, hclose⟩ := h.1 hopen
    have hne : q ≠ p := by
      rintro rfl
      exact hk path (Option.some.inj (hclose.symm.trans hp))
    have hin : q ∈ a ∨ q ∈ b := by simpa [hne] using hq
    refine ⟨q, ?_, hclose⟩
    rcases hin with hin | hin
    · exact List.mem_append_left _ hin
    · exact List.mem_append_right a (List.mem_cons_of_mem _ hin)

/-- The rows of a body contain their conditionals if the body does. -/
theorem contained_expandRow {key : String} (h : Contained .conditional body) (row : Value) :
    Contained .conditional (expandRow key body row) := by
  cases row with
  | mapping fields => exact fill_keeps (contained_of_filled conditional_closing_ne) h
  | _ => exact fillOne_keeps (contained_of_filled conditional_closing_ne) h

theorem contained_rows {key : String} (h : Contained .conditional body) (values : List Value) :
    Contained .conditional (values.flatMap (expandRow key body)) := by
  induction values with
  | nil => trivial
  | cons v values ih =>
    rw [List.flatMap_cons]
    exact (contained_expandRow h v).append ih

/-- **Conditionals do not reach out of pieces whose loops have been expanded**, though loops may have
been cut at the wrong closing tag. -/
theorem Awaits.contained_loops (h : Awaits ts ps) :
    Contained .conditional (loops data missing ps) ∧
      (Tag.ifClose ∈ ts → ∃ q ∈ loops data missing ps, q.tag? = some .ifClose) := by
  unfold loops
  -- on the pass, with what is awaited general, as a loop that is replaced may take closing tags
  -- with it
  induction ps using expand_induction .loop generalizing ts with
  | hnil =>
    cases h
    rw [expand_nil]
    exact ⟨trivial, nofun⟩
  | hcons p ps hopen ih =>
    have hexpand : expand .loop (rows? data missing) (p :: ps) =
        p :: expand .loop (rows? data missing) ps := hopen.elim expand_cons expand_unclosed
    rw [hexpand]
    have hlater : (∃ q ∈ expand .loop (rows? data missing) ps, q.tag? = some .ifClose) →
        ∃ q ∈ p :: expand .loop (rows? data missing) ps, q.tag? = some .ifClose := by
      rintro ⟨q, hq, he⟩
      exact ⟨q, List.mem_cons_of_mem p hq, he⟩
    have hother : ∀ {tag}, p.tag? = some tag → ∀ c, tag ≠ .ifOpen c → p.tag? ≠ some (.ifOpen c) := by
      intro tag he c hne hc
      exact hne (Option.some.inj (he.symm.trans hc))
    cases h with
    | keep hkeep h =>
      obtain ⟨hcontained, hclosed⟩ := ih h
      have hp : ∀ c, p.tag? ≠ some (.ifOpen c) := fun c hc => absurd (hkeep _ hc) nofun
      exact ⟨contained_cons hp hcontained, fun hm => hlater (hclosed hm)⟩
    | eachOpen he h =>
      obtain ⟨hcontained, hclosed⟩ := ih h
      refine ⟨contained_cons (fun c => hother he c nofun) hcontained, fun hm => ?_⟩
      exact hlater (hclosed (List.mem_cons_of_mem _ hm))
    | ifOpen he h =>
      obtain ⟨hcontained, hclosed⟩ := ih h
      have hclosed := hclosed List.mem_cons_self
      exact ⟨⟨fun _ => hclosed, hcontained⟩, fun _ => hlater hclosed⟩
    | eachClose he h =>
      obtain ⟨hcontained, hclosed⟩ := ih h
      refine ⟨contained_cons (fun c => hother he c nofun) hcontained, fun hm => ?_⟩
      exact hlater (hclosed ((List.mem_cons.1 hm).resolve_left nofun))
    | ifClose he h =>
      obtain ⟨hcontained, -⟩ := ih h
      refine ⟨contained_cons (fun c => hother he c nofun) hcontained, fun _ => ?_⟩
      exact ⟨p, List.mem_cons_self, he⟩
  | hblock p x body q ps hp hbody hq ih =>
    obtain ⟨lexeme, rfl⟩ := exists_of_opened? hp
    have hinner : Awaits ([] ++ .eachClose :: ts) (body ++ q :: ps) := by
      cases h with
      | keep hkeep _ => exact absurd (hkeep _ rfl) nofun
      | eachOpen _ h => exact h
      | ifOpen he _ => exact absurd he nofun
      | eachClose he _ => exact absurd he nofun
      | ifClose he _ => exact absurd he nofun
    -- either the body contains its conditionals, or one is cut whose closing tag is still awaited
    obtain ⟨vs, hvs, hcut, -⟩ := hinner.cut hbody hq
    obtain ⟨hcontained, hclosed⟩ := ih hvs
    rw [expand_block hp hbody hq]
    constructor
    · rcases hcut with hin | hawaited
      · refine Contained.append ?_ hcontained
        unfold rows?
        cases data.get? x with
        | some value => exact contained_rows hin value.rows
        | none =>
          cases missing with
          | preserve =>
            have hq' : ∀ c, q.tag? ≠ some (.ifOpen c) := by simp [hq, BlockKind.loop]
            exact contained_cons nofun (hin.append (contained_cons hq' trivial))
          | remove => trivial
      · exact contained_append_of_closed hcontained (hclosed (List.mem_append_left ts hawaited)) _
    · intro hm
      obtain ⟨r, hr, he⟩ := hclosed (List.mem_append_right vs hm)
      exact ⟨r, List.mem_append_right _ hr, he⟩

/-! ### Two templates -/

/-- **No pass reaches across the border** of a template and another one behind it: the fills of the whole
are those of the two, and what the scans of the other passes take, they take from one of the two. -/
structure PassesApart (missing : MissingBlocks) (context : Context) (a b : String) : Prop where
  fills : Placeholder.fillAll (a ++ b).toList context =
    Placeholder.fillAll a.toList context ++ Placeholder.fillAll b.toList context
  loops : Apart LoopBlock.recogniser.toReader (Placeholder.fillAll a.toList context)
    (Placeholder.fillAll b.toList context)
  conditionals : Apart ConditionalBlock.recogniser.toReader
    (Expansion.loops context.merged missing (Placeholder.fillAll a.toList context))
    (Expansion.loops context.merged missing (Placeholder.fillAll b.toList context))
  placeholders : Apart placeholderPath.toReader (Stencil.expanded missing a context)
    (Stencil.expanded missing b context)

variable {a b : String} {context : Context}

/-- **Templates that the passes keep apart** are rendered one after the other. -/
theorem PassesApart.render_eq_append (h : PassesApart missing context a b) :
    render missing (a ++ b) context = render missing a context ++ render missing b context := by
  have hexpanded : Stencil.expanded missing (a ++ b) context =
      Stencil.expanded missing a context ++ Stencil.expanded missing b context := by
    unfold Stencil.expanded Expansion.conditionals Expansion.loops
    rw [h.fills, Recogniser.replace_append_of_apart _ h.loops]
    exact Recogniser.replace_append_of_apart _ h.conditionals
  rw [render_eq_clear, render_eq_clear, render_eq_clear, hexpanded, ← String.ofList_append]
  unfold Placeholder.clear
  rw [Recogniser.replace_append_of_apart _ h.placeholders]

/-- The paths of the placeholders of a template. -/
def Template.paths (template : String) : List String :=
  (Token.ofSource template).filterMap fun token =>
    match token.lexeme with
    | .tag (.placeholder path) => some path
    | _ => none

/-- A path that a piece reads is one of the template. -/
theorem mem_paths_of_reads {template path : String} (h : Reads (recogniser.pieces template.toList) path) :
    path ∈ Template.paths template := by
  obtain ⟨q, hq, htag⟩ := h
  obtain ⟨token, htoken, he⟩ := exists_token_of_mem hq
  obtain ⟨lexeme, rfl⟩ := exists_of_tag? htag
  exact List.mem_filterMap.2 ⟨token, htoken, by rw [he]; rfl⟩

theorem exists_spell_of_isOk {template : String} (h : (Node.ofSource template).isOk = true) :
    ∃ nodes, Spell (recogniser.pieces template.toList) nodes := by
  obtain ⟨nodes, hnodes⟩ := exists_nodes_of_isOk h
  exact ⟨nodes, spells_pieces hnodes⟩

/-- The pieces of two clean templates are legible together. -/
theorem Template.legible_append (ha : Template.isClean a = true) (hb : Template.isClean b = true) :
    Legible (Stock (recogniser.pieces a.toList ++ recogniser.pieces b.toList)) := by
  refine Stencil.legible_of_isClean ((genuine_pieces _).append (genuine_pieces _)) ?_
  exact List.forall_mem_append.2 ⟨fun _ hp => Template.isClean_of_mem ha hp,
    fun _ hp => Template.isClean_of_mem hb hp⟩

/-- **Templates behind one another are rendered apart.** Where two balanced, clean templates read no
common path, their text together is rendered as the first and then the second, in every clean context
and under either policy, and no pass reaches across their border. -/
theorem render_append (missing : MissingBlocks) (ha : (Node.ofSource a).isOk = true)
    (hb : (Node.ofSource b).isOk = true) (hcleana : Template.isClean a = true)
    (hcleanb : Template.isClean b = true)
    (hapart : ∀ path ∈ Template.paths a, path ∉ Template.paths b)
    (hcontext : context.isClean = true) :
    render missing (a ++ b) context = render missing a context ++ render missing b context ∧
      PassesApart missing context a b := by
  suffices h : PassesApart missing context a b from ⟨h.render_eq_append, h⟩
  -- one stock serves both templates
  have hlegible := Template.legible_append hcleana hcleanb
  have hfirst : ∀ q ∈ recogniser.pieces a.toList,
      Stock (recogniser.pieces a.toList ++ recogniser.pieces b.toList) q :=
    fun _ hq => .inl (List.mem_append_left _ hq)
  have hsecond : ∀ q ∈ recogniser.pieces b.toList,
      Stock (recogniser.pieces a.toList ++ recogniser.pieces b.toList) q :=
    fun _ hq => .inl (List.mem_append_right _ hq)
  obtain ⟨nodesa, hspella⟩ := exists_spell_of_isOk ha
  obtain ⟨nodesb, hspellb⟩ := exists_spell_of_isOk hb
  have hdata := Context.isClean_merged hcontext
  obtain ⟨hfilla, hfilleda⟩ := hlegible.fillAll_join hcontext hfirst
  obtain ⟨hfillb, hfilledb⟩ := hlegible.fillAll_join hcontext hsecond
  obtain ⟨hloopa, hloopeda⟩ := hlegible.loops_join hdata missing hfilleda
  obtain ⟨hloopb, hloopedb⟩ := hlegible.loops_join hdata missing hfilledb
  obtain ⟨hexpa, hexpandeda⟩ := expanded_eq_join hlegible hfirst (toList_eq_join a) missing hcontext
  obtain ⟨hexpb, hexpandedb⟩ := expanded_eq_join hlegible hsecond (toList_eq_join b) missing hcontext
  have htree := spell_fillAll hspella context
  have hawaits : Awaits [] (fillAll (recogniser.pieces a.toList) context ++ []) :=
    Awaits.append htree .nil
  rw [List.append_nil] at hawaits
  constructor
  · -- no fill is for both templates
    have hfills : ∀ fill ∈ context.fills, ¬ Reads (recogniser.pieces a.toList) fill.1 ∨
        ¬ Reads (recogniser.pieces b.toList) fill.1 := by
      intro fill _
      by_cases hreads : Reads (recogniser.pieces a.toList) fill.1
      · exact .inr fun hboth => hapart _ (mem_paths_of_reads hreads) (mem_paths_of_reads hboth)
      · exact .inl hreads
    have hwhole := (hlegible.fillAll_join hcontext (List.forall_mem_append.2 ⟨hfirst, hsecond⟩)).1
    rw [fillAll_eq_puts, puts_append_of_apart hfills, ← fillAll_eq_puts, ← fillAll_eq_puts, join_append,
      join_append, ← hfilla, ← hfillb, ← toList_eq_join, ← toList_eq_join] at hwhole
    rw [String.toList_append]
    exact hwhole
  · rw [toList_eq_join a, toList_eq_join b, hfilla, hfillb]
    exact hlegible.apart_blocks readsBlocks_loop hfilleda hfilledb (contained_loop htree)
  · rw [toList_eq_join a, toList_eq_join b, hfilla, hfillb, hloopa, hloopb]
    exact hlegible.apart_blocks readsBlocks_conditional hloopeda hloopedb hawaits.contained_loops.1
  · rw [hexpa, hexpb]
    exact hlegible.apart_placeholders hexpandeda hexpandedb

/-- A loop in a conditional in a loop, of which tags are left, before another conditional. -/
theorem render_append_nested :
    render .preserve ("\x7b\x7b#each xs\x7d\x7d\x7b\x7b#if f\x7d\x7d\x7b\x7b#each xs\x7d\x7d" ++
          "\x7b\x7bxs\x7d\x7d\x7b\x7b/each\x7d\x7d\x7b\x7b/if\x7d\x7d\x7b\x7b/each\x7d\x7d" ++
        "\x7b\x7b#if f\x7d\x7d\x7b\x7by\x7d\x7d\x7b\x7b/if\x7d\x7d")
        ⟨[[("f", .bool true), ("xs", .sequence [.string "1", .string "2"])], [("y", .string "3")]]⟩ =
      "\x7b\x7b#each xs\x7d\x7d1\x7b\x7b#if f\x7d\x7d" ++
          "\x7b\x7b#each xs\x7d\x7d2\x7b\x7b/each\x7d\x7d" ++ "3" := by
  rw [(render_append .preserve (by decide +kernel) (by decide +kernel) (by decide +kernel)
    (by decide +kernel) (by decide +kernel) (by decide +kernel)).1]
  decide +kernel

end Stencil
