import Stencil.Proofs.Grammar
import Stencil.Template.Outline

/-!
# The blocks around a token

Which blocks are open at a place among the tokens of a template can be told from the tokens in front of
it: an opening tag opens one more block, and a closing tag closes the innermost one. A walk through the
tree keeps the blocks around a node in a list of its own. Both come to the same, so that all sites of the
tree, with the blocks around them, can be read off the tokens.

* `openBlocks`: the opening tags of the blocks that are open behind some tokens.
* `Enclosed`, `Spells.enclosed`: the tokens of some nodes close every block that they open.
* `fields_of_block`: the fields that the body of a loop reads.
* `sites_of_spells`: the sites of a tree are its tags with keys, each with the blocks around it.
-/

namespace Stencil

/-! ### Open blocks -/

namespace Token

/-- The opening tags of the open blocks behind one more token, from the innermost out. -/
def enter (around : List Token) (token : Token) : List Token :=
  match token.lexeme with
  | .tag (.eachOpen _) => token :: around
  | .tag (.ifOpen _) => token :: around
  | .tag .eachClose => around.tail
  | .tag .ifClose => around.tail
  | _ => around

/-- Each token with the opening tags of the blocks around it. -/
def places (around : List Token) : List Token → List (Token × List Token)
  | [] => []
  | token :: tokens => (token, around) :: places (enter around token) tokens

/-- The path that a token reads, if it is a placeholder. -/
def path? (token : Token) : Option String :=
  match token.lexeme with
  | .tag (.placeholder path) => some path
  | _ => none

end Token

open Token

/-- **The open blocks** behind some tokens: their opening tags, from the innermost out. -/
def openBlocks (tokens : List Token) : List Token := tokens.foldl enter []

variable {tokens before after inner xs ys around around' : List Token} {x y t o : Token}
  {nodes : List Node} {key path : String} {starts : Token → Nat → Prop}

/-- What is open behind a token was open before it, or is opened by it. -/
theorem mem_of_mem_enter (h : o ∈ enter around t) : o ∈ around ∨ o = t := by
  unfold enter at h
  split at h
  · exact (List.mem_cons.1 h).symm
  · exact (List.mem_cons.1 h).symm
  · exact .inl (List.mem_of_mem_tail h)
  · exact .inl (List.mem_of_mem_tail h)
  · exact .inl h

/-! ### Places -/

/-- The last tokens stand in what the first ones have left open. -/
theorem places_append (around xs ys : List Token) :
    places around (xs ++ ys) = places around xs ++ places (xs.foldl enter around) ys := by
  induction xs generalizing around with
  | nil => rfl
  | cons x xs ih => rw [List.cons_append, places, ih, places, List.foldl_cons, List.cons_append]

/-- Each token has one place. -/
theorem map_fst_places (around xs : List Token) : (places around xs).map Prod.fst = xs := by
  induction xs generalizing around with
  | nil => rfl
  | cons x xs ih => rw [places, List.map_cons, ih]

/-- The blocks around a token are those that are open behind the tokens in front of it. -/
theorem mem_places_iff : (t, around') ∈ places around xs ↔
    ∃ before after, xs = before ++ t :: after ∧ around' = before.foldl enter around := by
  constructor
  · intro h
    induction xs generalizing around with
    | nil => cases h
    | cons x xs ih =>
      rcases List.mem_cons.1 h with he | h
      · obtain ⟨rfl, rfl⟩ := Prod.mk.inj he
        exact ⟨[], xs, rfl, rfl⟩
      · obtain ⟨before, after, rfl, rfl⟩ := ih h
        exact ⟨x :: before, after, rfl, rfl⟩
  · rintro ⟨before, after, rfl, rfl⟩
    rw [places_append]
    exact List.mem_append_right _ List.mem_cons_self

theorem mem_of_mem_foldl_enter (h : o ∈ xs.foldl enter around) : o ∈ around ∨ o ∈ xs := by
  induction xs generalizing around with
  | nil => exact .inl h
  | cons x xs ih =>
    rcases ih h with h | h
    · rcases mem_of_mem_enter h with h | rfl
      · exact .inl h
      · exact .inr List.mem_cons_self
    · exact .inr (List.mem_cons_of_mem x h)

/-- A block is open only behind its opening tag. -/
theorem mem_of_mem_around (h : (t, around') ∈ places around xs) (ho : o ∈ around') :
    o ∈ around ∨ o ∈ xs := by
  obtain ⟨before, after, rfl, rfl⟩ := mem_places_iff.1 h
  exact (mem_of_mem_foldl_enter ho).imp_right (List.mem_append_left _)

/-! ### Blocks that are closed -/

/-- **Tokens that stay in the blocks around them.** They close the blocks that they open, and no
others. -/
structure Enclosed (xs : List Token) : Prop where
  closed : ∀ around, xs.foldl enter around = around
  within : ∀ around, ∀ place ∈ places around xs, around <:+ place.2

namespace Enclosed

theorem nil : Enclosed [] := ⟨fun _ => rfl, fun _ _ h => absurd h List.not_mem_nil⟩

theorem single (h : ∀ around, enter around x = around) : Enclosed [x] := by
  refine ⟨h, fun around place hplace => ?_⟩
  obtain rfl := List.mem_singleton.1 hplace
  exact List.suffix_refl around

/-- Enclosed tokens one after the other. -/
theorem append (hxs : Enclosed xs) (hys : Enclosed ys) : Enclosed (xs ++ ys) := by
  refine ⟨fun around => ?_, fun around place hplace => ?_⟩
  · rw [List.foldl_append, hxs.closed, hys.closed]
  · rw [places_append, hxs.closed] at hplace
    exact (List.mem_append.1 hplace).elim (hxs.within around place) (hys.within around place)

/-- What stands inside a block has that block around it, and what stands behind it has not. -/
theorem places_block (hx : ∀ around, enter around x = x :: around) (hinner : Enclosed inner)
    (hy : ∀ around, enter around y = around.tail) (around ys : List Token) :
    places around (x :: (inner ++ y :: ys)) =
      (x, around) :: (places (x :: around) inner ++ (y, x :: around) :: places around ys) := by
  rw [places, hx, places_append, hinner.closed, places, hy, List.tail_cons]

/-- A block with its tags stays in the blocks around it. -/
theorem block (hx : ∀ around, enter around x = x :: around) (hinner : Enclosed inner)
    (hy : ∀ around, enter around y = around.tail) : Enclosed (x :: (inner ++ [y])) := by
  refine ⟨fun around => ?_, fun around place hplace => ?_⟩
  · rw [List.foldl_cons, List.foldl_append, hx, hinner.closed, List.foldl_cons, hy]
    rfl
  · rw [places_block hx hinner hy] at hplace
    have hin : around <:+ x :: around := List.suffix_cons x around
    rcases List.mem_cons.1 hplace with rfl | hplace
    · exact List.suffix_refl around
    · rcases List.mem_append.1 hplace with hplace | hplace
      · exact hin.trans (hinner.within _ place hplace)
      · obtain rfl := List.mem_singleton.1 hplace
        exact hin

end Enclosed

/-- The tokens of some nodes stay in the blocks around them. -/
theorem Spells.enclosed (h : Spells Token.lexeme starts nodes xs) : Enclosed xs := by
  induction h with
  | nil => exact .nil
  | plain hx _ ih => exact (Enclosed.single fun _ => by rw [enter, hx]).append ih
  | placeholder hx _ ih => exact (Enclosed.single fun _ => by rw [enter, hx]).append ih
  | loop hx _ _ hy _ ihbody ih =>
    have hblock := Enclosed.block (fun _ => by rw [enter, hx]) ihbody fun _ => by rw [enter, hy]
    simpa using hblock.append ih
  | single hx _ _ hy _ ihbranch ih =>
    have hblock := Enclosed.block (fun _ => by rw [enter, hx]) ihbranch fun _ => by rw [enter, hy]
    simpa using hblock.append ih
  | double hx _ _ hy _ hz _ ihtrue ihfalse ih =>
    have hmiddle := Enclosed.single fun _ => by rw [enter, hy]
    have hbranches := ihtrue.append (hmiddle.append ihfalse)
    have hblock := Enclosed.block (fun _ => by rw [enter, hx]) hbranches fun _ => by rw [enter, hz]
    simpa using hblock.append ih

/-- The placeholders among the tokens read the paths of the nodes. -/
theorem Spells.paths (h : Spells Token.lexeme starts nodes xs) :
    xs.filterMap path? = Node.pathsOfAll nodes := by
  induction h with
  | nil => rfl
  | plain hx _ ih =>
    rw [List.filterMap_cons_none (by rw [path?, hx]), ih]
    rfl
  | placeholder hx _ ih =>
    rw [List.filterMap_cons_some (by rw [path?, hx]), ih]
    rfl
  | loop hx _ _ hy _ ihbody ih =>
    rw [List.filterMap_cons_none (by rw [path?, hx]), List.filterMap_append,
      List.filterMap_cons_none (by rw [path?, hy]), ihbody, ih]
    rfl
  | single hx _ _ hy _ ihbranch ih =>
    rw [List.filterMap_cons_none (by rw [path?, hx]), List.filterMap_append,
      List.filterMap_cons_none (by rw [path?, hy]), ihbranch, ih, Node.pathsOfAll, Node.paths,
      Node.pathsOfBranch, List.append_nil]
  | double hx _ _ hy _ hz _ ihtrue ihfalse ih =>
    rw [List.filterMap_cons_none (by rw [path?, hx]), List.filterMap_append,
      List.filterMap_cons_none (by rw [path?, hy]), List.filterMap_append,
      List.filterMap_cons_none (by rw [path?, hz]), ihtrue, ihfalse, ih, Node.pathsOfAll, Node.paths,
      Node.pathsOfBranch, List.append_assoc]

/-! ### Fields -/

/-- The field that a token reads of the rows of a loop, if it is in the block of the loop. -/
def Token.fieldAt? (key : String) (opening : Token) (place : Token × List Token) : Option String :=
  if opening ∈ place.2 then place.1.path?.bind (rowField? key) else none

/-- The fields of the rows of a loop over `key` that the tokens in its block read. -/
def Token.fields (tokens : List Token) (key : String) (opening : Token) : List String :=
  (places [] tokens).filterMap (fieldAt? key opening)

theorem filterMap_fieldAt?_of_not_mem {places : List (Token × List Token)}
    (h : ∀ place ∈ places, o ∉ place.2) : places.filterMap (fieldAt? key o) = [] := by
  refine List.filterMap_eq_nil_iff.2 fun place hplace => ?_
  rw [fieldAt?, if_neg (h place hplace)]

theorem filterMap_fieldAt?_of_mem (h : ∀ place ∈ places around xs, o ∈ place.2) :
    (places around xs).filterMap (fieldAt? key o) =
      (xs.filterMap path?).filterMap (rowField? key) := by
  induction xs generalizing around with
  | nil => rfl
  | cons x xs ih =>
    rw [places, List.forall_mem_cons] at h
    have hfield : fieldAt? key o (x, around) = x.path?.bind (rowField? key) := by
      rw [fieldAt?, if_pos h.1]
    rw [places, List.filterMap_cons, hfield, ih h.2, List.filterMap_cons]
    cases x.path? with
    | none => rfl
    | some path => rw [List.filterMap_cons, Option.bind_some]

/-- **The fields that the body of a loop reads** are read by the tokens in its block. -/
theorem fields_of_block (hnodup : tokens.Nodup) (htokens : tokens = before ++ x :: (inner ++ y :: after))
    (hx : ∀ around, enter around x = x :: around) (hinner : Enclosed inner)
    (hy : ∀ around, enter around y = around.tail) (hxpath : x.path? = none) (hypath : y.path? = none)
    (key : String) : fields tokens key x = (inner.filterMap path?).filterMap (rowField? key) := by
  subst htokens
  have hout : x ∉ before ∧ x ∉ after := by
    simp only [List.nodup_append, List.nodup_cons, List.mem_append, List.mem_cons, not_or] at hnodup
    refine ⟨fun hm => ?_, hnodup.2.1.1.2.2⟩
    exact hnodup.2.2 x hm x (.inl rfl) rfl
  -- the block is not open in front of its opening tag, and not behind its closing tag
  have hbefore : ∀ place ∈ places [] before, x ∉ place.2 := by
    intro place hplace hm
    exact (mem_of_mem_around hplace hm).elim List.not_mem_nil hout.1
  have hafter : ∀ place ∈ places (openBlocks before) after, x ∉ place.2 := by
    intro place hplace hm
    rcases mem_of_mem_around hplace hm with hm | hm
    · exact (mem_of_mem_foldl_enter hm).elim List.not_mem_nil hout.1
    · exact hout.2 hm
  have hin : ∀ place ∈ places (x :: openBlocks before) inner, x ∈ place.2 :=
    fun place hplace => (hinner.within _ place hplace).subset List.mem_cons_self
  have hnone : ∀ {t : Token} {around : List Token}, t.path? = none →
      fieldAt? key x (t, around) = none := by
    intro t around ht
    rw [fieldAt?, ht]
    exact ite_self none
  have hplaces : places [] (before ++ x :: (inner ++ y :: after)) =
      places [] before ++ ((x, openBlocks before) :: (places (x :: openBlocks before) inner ++
        (y, x :: openBlocks before) :: places (openBlocks before) after)) := by
    rw [places_append, Enclosed.places_block hx hinner hy]
    rfl
  unfold fields
  rw [hplaces, List.filterMap_append, filterMap_fieldAt?_of_not_mem hbefore, List.nil_append,
    List.filterMap_cons_none (hnone hxpath), List.filterMap_append,
    List.filterMap_cons_none (hnone hypath), filterMap_fieldAt?_of_mem hin,
    filterMap_fieldAt?_of_not_mem hafter, List.append_nil]

/-! ### Sites -/

/-- The block that a tag opens, as it is around a node. -/
def Token.enclosing (tokens : List Token) (opening : Token) : Enclosing :=
  match opening.lexeme with
  | .tag (.eachOpen key) => .loop key (fields tokens key opening)
  | _ => .conditional

/-- The site at a token, if it is a tag with a key. -/
def Token.site? (tokens : List Token) (place : Token × List Token) : Option Site :=
  match place.1.lexeme with
  | .tag (.placeholder path) => some (.placeholder path)
  | .tag (.eachOpen key) => some (.loop key place.1.start (place.2.map (enclosing tokens)))
  | .tag (.ifOpen c) => some (.conditional c place.1.start (place.2.map (enclosing tokens)))
  | _ => none

/-- One more token opens a block or closes one. -/
theorem openBlocks_concat (before : List Token) (t : Token) :
    openBlocks (before ++ [t]) = enter (openBlocks before) t := by
  unfold openBlocks
  rw [List.foldl_append]
  rfl

/-- Enclosed tokens leave the open blocks as they are. -/
theorem openBlocks_append_of_enclosed (h : Enclosed xs) (before : List Token) :
    openBlocks (before ++ xs) = openBlocks before := by
  unfold openBlocks
  rw [List.foldl_append, h.closed]

/-- A block is not open any more behind its closing tag. -/
theorem openBlocks_block (hx : ∀ around, enter around x = x :: around) (hinner : Enclosed inner)
    (hy : ∀ around, enter around y = around.tail) (before : List Token) :
    openBlocks (before ++ x :: (inner ++ [y])) = openBlocks before :=
  openBlocks_append_of_enclosed (.block hx hinner hy) before

/-- Around the nodes in the body of a loop is the loop, with the fields that they read. -/
theorem enclosing_of_loop {body : List Node} (hnodup : tokens.Nodup)
    (htokens : tokens = before ++ x :: (inner ++ y :: after)) (hx : x.lexeme = .tag (.eachOpen key))
    (hbody : Spells Token.lexeme starts body inner) (hy : y.lexeme = .tag .eachClose) :
    enclosing tokens x = .loop key ((Node.pathsOfAll body).filterMap (rowField? key)) := by
  have hfields := fields_of_block hnodup htokens (fun _ => by rw [enter, hx]) hbody.enclosed
    (fun _ => by rw [enter, hy]) (by rw [path?, hx]) (by rw [path?, hy]) key
  rw [enclosing, hx, ← hbody.paths, ← hfields]

/-- The sites at some tokens that stand behind others. -/
def Token.sitesBehind (tokens before xs : List Token) : List Site :=
  (places (openBlocks before) xs).filterMap (site? tokens)

/-- Sites are read off one token after the other. -/
theorem sitesBehind_append (tokens before xs ys : List Token) : sitesBehind tokens before (xs ++ ys) =
    sitesBehind tokens before xs ++ sitesBehind tokens (before ++ xs) ys := by
  unfold sitesBehind openBlocks
  rw [places_append, List.filterMap_append, List.foldl_append]

theorem sitesBehind_cons (tokens before : List Token) (x : Token) (xs : List Token) :
    sitesBehind tokens before (x :: xs) =
      (site? tokens (x, openBlocks before)).toList ++ sitesBehind tokens (before ++ [x]) xs := by
  have hone : sitesBehind tokens before [x] = (site? tokens (x, openBlocks before)).toList := by
    unfold sitesBehind
    rw [places, places, List.filterMap_cons]
    cases site? tokens (x, openBlocks before) <;> rfl
  rw [← List.singleton_append, sitesBehind_append, hone]

/-- The site at an opening tag comes before those in its block, and the closing tag is no site. -/
theorem sitesBehind_block (hy : ∀ around, site? tokens (y, around) = none) (before : List Token)
    (x : Token) (inner ys : List Token) : sitesBehind tokens before (x :: (inner ++ y :: ys)) =
      (site? tokens (x, openBlocks before)).toList ++ (sitesBehind tokens (before ++ [x]) inner ++
        sitesBehind tokens (before ++ x :: (inner ++ [y])) ys) := by
  rw [sitesBehind_cons, sitesBehind_append, sitesBehind_cons, hy]
  simp

/-- **A walk through some nodes** comes by the tags with keys among their tokens. -/
theorem sitesOfAll_eq_sitesBehind (hnodup : tokens.Nodup)
    (h : Spells Token.lexeme Token.StartsAt nodes xs) : ∀ before after, tokens = before ++ (xs ++ after) →
      Node.sitesOfAll ((openBlocks before).map (enclosing tokens)) nodes =
        sitesBehind tokens before xs := by
  -- on the nodes: a walk goes over the tokens of one node and then over those behind it
  induction h with
  | nil => exact fun before after _ => rfl
  | @plain x xs text nodes hx _ ih =>
    intro before after htokens
    have hbehind : openBlocks (before ++ [x]) = openBlocks before := by
      rw [openBlocks_concat, enter, hx]
    have hrest := ih (before ++ [x]) after (by simpa using htokens)
    rw [sitesBehind_cons, site?, hx, ← hrest, hbehind]
    rfl
  | @placeholder x xs path nodes hx _ ih =>
    intro before after htokens
    have hbehind : openBlocks (before ++ [x]) = openBlocks before := by
      rw [openBlocks_concat, enter, hx]
    have hrest := ih (before ++ [x]) after (by simpa using htokens)
    rw [sitesBehind_cons, site?, hx, ← hrest, hbehind]
    rfl
  | @loop x y inner xs key offset body nodes hx hs hbody hy _ ihbody ih =>
    intro before after htokens
    have hopens : ∀ around, enter around x = x :: around := fun _ => by rw [enter, hx]
    have hcloses : ∀ around, enter around y = around.tail := fun _ => by rw [enter, hy]
    -- the body is walked with the loop around it, and what stands behind it without
    have hin := ihbody (before ++ [x]) (y :: (xs ++ after)) (by simpa using htokens)
    have hout := ih (before ++ x :: (inner ++ [y])) after (by simpa using htokens)
    rw [openBlocks_concat, hopens] at hin
    rw [openBlocks_block hopens hbody.enclosed hcloses] at hout
    have hloop := enclosing_of_loop hnodup (by simpa using htokens) hx hbody hy
    have hoffset : x.start = offset := hs
    rw [List.map_cons, hloop] at hin
    rw [sitesBehind_block (fun _ => by rw [site?, hy]), ← hin, ← hout, site?, hx]
    dsimp only
    rw [hoffset]
    rfl
  | @single x y inner xs c offset branch nodes hx hs hbranch hy _ ihbranch ih =>
    intro before after htokens
    have hopens : ∀ around, enter around x = x :: around := fun _ => by rw [enter, hx]
    have hcloses : ∀ around, enter around y = around.tail := fun _ => by rw [enter, hy]
    have hin := ihbranch (before ++ [x]) (y :: (xs ++ after)) (by simpa using htokens)
    have hout := ih (before ++ x :: (inner ++ [y])) after (by simpa using htokens)
    rw [openBlocks_concat, hopens] at hin
    rw [openBlocks_block hopens hbranch.enclosed hcloses] at hout
    have hconditional : enclosing tokens x = .conditional := by rw [enclosing, hx]
    have hoffset : x.start = offset := hs
    rw [List.map_cons, hconditional] at hin
    rw [sitesBehind_block (fun _ => by rw [site?, hy]), ← hin, ← hout, site?, hx, Node.sitesOfAll,
      Node.sites, Node.sitesOfBranch]
    dsimp only
    rw [hoffset, List.append_nil]
    rfl
  | @double x y z inner inner' xs c offset whenTrue whenFalse nodes hx hs htrue hy hfalse hz _
      ihtrue ihfalse ih =>
    intro before after htokens
    have hopens : ∀ around, enter around x = x :: around := fun _ => by rw [enter, hx]
    have hcloses : ∀ around, enter around z = around.tail := fun _ => by rw [enter, hz]
    -- the middle tag opens nothing, so that both branches stand in the same blocks
    have hmiddle : Enclosed (inner ++ [y]) :=
      htrue.enclosed.append (.single fun _ => by rw [enter, hy])
    have hbranches : Enclosed (inner ++ y :: inner') := by
      simpa using hmiddle.append hfalse.enclosed
    have hin := ihtrue (before ++ [x]) (y :: (inner' ++ z :: (xs ++ after))) (by simpa using htokens)
    have hin' := ihfalse (before ++ [x] ++ (inner ++ [y])) (z :: (xs ++ after))
      (by simpa using htokens)
    have hout := ih (before ++ x :: (inner ++ y :: inner' ++ [z])) after (by simpa using htokens)
    rw [openBlocks_append_of_enclosed hmiddle, openBlocks_concat, hopens] at hin'
    rw [openBlocks_concat, hopens] at hin
    rw [openBlocks_block hopens hbranches hcloses] at hout
    have hconditional : enclosing tokens x = .conditional := by rw [enclosing, hx]
    have hoffset : x.start = offset := hs
    rw [List.map_cons, hconditional] at hin hin'
    have hbody : sitesBehind tokens (before ++ [x]) (inner ++ y :: inner') =
        sitesBehind tokens (before ++ [x]) inner ++
          sitesBehind tokens (before ++ [x] ++ (inner ++ [y])) inner' := by
      rw [sitesBehind_append, sitesBehind_cons, site?, hy]
      simp
    have hassoc : x :: (inner ++ y :: (inner' ++ z :: xs)) =
        x :: (inner ++ y :: inner' ++ z :: xs) := by simp
    rw [hassoc, sitesBehind_block (fun _ => by rw [site?, hz]), hbody, ← hin, ← hin', ← hout, site?, hx,
      Node.sitesOfAll, Node.sites, Node.sitesOfBranch]
    dsimp only
    rw [hoffset]
    rfl

/-- The sites at some tokens, each with the blocks around it. -/
def Token.sitesOf (tokens : List Token) : List Site := sitesBehind tokens [] tokens

/-- **The sites of a tree** are its tags with keys, each with the blocks around it. -/
theorem sites_of_spells (hnodup : tokens.Nodup)
    (h : Spells Token.lexeme Token.StartsAt nodes tokens) : Node.sitesOfAll [] nodes = sitesOf tokens :=
  sitesOfAll_eq_sitesBehind hnodup h [] [] (by simp)

end Stencil
