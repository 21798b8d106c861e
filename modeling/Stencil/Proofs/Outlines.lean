import Stencil.Proofs.Enclosure
import Stencil.Proofs.Partition
import Stencil.Proofs.Validation

/-!
# What an outline says

The outline of a template is made from its tree, but all that it says is about the tokens of the template
and the blocks that are open at them: which keys the tags name, how many blocks are open at once, and
which tags stand in a block in which they will not be resolved.

* `Concerns`: what there is to say about a token, by the blocks around it, and in which words.
* `Outline.Describes`: what an outline says about tokens.
* `site?_warning_iff`: the warning at a token.
* `describes_ofSource`: the outline of a template describes its tokens.
-/

namespace Stencil

open Token

/-! ### Tokens in blocks -/

namespace Token

/-- The token opens a loop of the key. -/
def OpensLoop (token : Token) (key : String) : Prop := token.lexeme = .tag (.eachOpen key)

/-- The token opens a conditional. -/
def OpensConditional (token : Token) : Prop := ∃ c, token.lexeme = .tag (.ifOpen c)

end Token

/-- One of the tokens stands in the given blocks. -/
def StandsIn (tokens : List Token) (token : Token) (around : List Token) : Prop :=
  ∃ before after, tokens = before ++ token :: after ∧ around = openBlocks before

/-- The innermost block of a kind. -/
def IsInnermost (P : Token → Prop) (around : List Token) (opening : Token) : Prop :=
  ∃ inner outer, around = inner ++ opening :: outer ∧ P opening ∧ ∀ token ∈ inner, ¬ P token

/-- The path goes through the field of the rows of a loop, or ends there. -/
def ReadsField (key field path : String) : Prop :=
  path = key ++ "." ++ field ∨ ∃ more, path = key ++ "." ++ field ++ "." ++ more

/-- **A condition on `name` seems to test the row** of a loop over `name`, or of a loop in whose block a
placeholder reads the field `name` of the rows. -/
def TestsRow (tokens : List Token) (name : String) (opening : Token) : Prop :=
  ∃ key, opening.OpensLoop key ∧ (key = name ∨ ∃ token around path, StandsIn tokens token around ∧
    opening ∈ around ∧ token.lexeme = .tag (.placeholder path) ∧ ReadsField key name path)

/-- **What there is to say about a token** in the blocks around it, and the message that says it. -/
inductive Concerns (tokens around : List Token) (token : Token) : Concern → String → Prop where
  | nestedLoop {key outer : String} {opening : Token} :
    token.lexeme = .tag (.eachOpen key) → IsInnermost (fun o => ∃ key, o.OpensLoop key) around opening →
    opening.OpensLoop outer → Concerns tokens around token (.nestedLoop key outer)
      ("\x7b\x7b#each " ++ key ++ "\x7d\x7d is nested inside \x7b\x7b#each " ++ outer ++
        "\x7d\x7d and will not be expanded")
  | nestedConditional {c : Condition} {opening : Token} :
    token.lexeme = .tag (.ifOpen c) → opening ∈ around → opening.OpensConditional →
    Concerns tokens around token (.nestedConditional c)
      ("\x7b\x7b#if " ++ c.text ++ "\x7d\x7d is nested inside another " ++
        "\x7b\x7b#if\x7d\x7d and will not be resolved")
  | rowCondition {c : Condition} {loop : String} {opening : Token} :
    token.lexeme = .tag (.ifOpen c) → (∀ o ∈ around, ¬ o.OpensConditional) →
    IsInnermost (TestsRow tokens c.key) around opening → opening.OpensLoop loop →
    Concerns tokens around token (.rowCondition c loop)
      ("\x7b\x7b#if " ++ c.text ++ "\x7d\x7d inside \x7b\x7b#each " ++ loop ++
        "\x7d\x7d is evaluated against top-level data, not the loop row")

/-- The names are those that meet `P`, each once and in order. -/
def Lists (names : List String) (P : String → Prop) : Prop :=
  names.Pairwise (· < ·) ∧ ∀ name, name ∈ names ↔ P name

/-- **What an outline says about tokens.** -/
structure Outline.Describes (outline : Outline) (tokens : List Token) : Prop where
  placeholders : Lists outline.placeholders fun path =>
    ∃ token ∈ tokens, token.lexeme = .tag (.placeholder path)
  loops : Lists outline.loops fun key => ∃ token ∈ tokens, token.OpensLoop key
  conditions : Lists outline.conditions fun key =>
    ∃ token ∈ tokens, ∃ c, token.lexeme = .tag (.ifOpen c) ∧ c.key = key
  /-- The most blocks that are open anywhere. -/
  depth_le : ∀ before after, tokens = before ++ after → (openBlocks before).length ≤ outline.maxDepth
  depth_eq : ∃ before after, tokens = before ++ after ∧
    (openBlocks before).length = outline.maxDepth
  /-- One warning for each token that there is something to say about, in their order. -/
  ordered : outline.warnings.Pairwise fun w w' => w.offset < w'.offset
  warned : ∀ w, w ∈ outline.warnings ↔ ∃ token around, StandsIn tokens token around ∧
    w.offset = token.start ∧ Concerns tokens around token w.concern w.concern.message

variable {tokens around : List Token} {t o : Token} {key name field path : String} {site : Site}
  {place : Token × List Token} {w : Warning}

/-! ### Names -/

/-- Names are listed in order, each once. -/
theorem lists_names (ns : List String) : Lists (Outline.names ns) (· ∈ ns) := by
  unfold Outline.names Fields.keys
  refine ⟨List.pairwise_map.2 (Fields.sorted_ofPairs _), fun name => ⟨fun h => ?_, mem_names⟩⟩
  obtain ⟨entry, hentry, rfl⟩ := List.mem_map.1 h
  rcases Fields.mem_merge hentry with hentry | hentry
  · cases hentry
  · obtain ⟨name, hname, rfl⟩ := List.mem_map.1 hentry
    exact hname

theorem Lists.congr {names : List String} {P P' : String → Prop} (h : Lists names P)
    (hiff : ∀ name, P name ↔ P' name) : Lists names P' :=
  ⟨h.1, fun name => (h.2 name).trans (hiff name)⟩

/-- The places of a list of tokens are where its tokens stand, in the blocks around them. -/
theorem mem_places_iff_standsIn : place ∈ places [] tokens ↔ StandsIn tokens place.1 place.2 :=
  mem_places_iff

/-- What is read off the sites is read off the tokens and the blocks around them. -/
theorem mem_filterMap_sitesOf {α : Type} {f : Site → Option α} {x : α} :
    x ∈ (sitesOf tokens).filterMap f ↔
      ∃ t around, StandsIn tokens t around ∧ (site? tokens (t, around)).bind f = some x := by
  unfold sitesOf sitesBehind
  rw [List.filterMap_filterMap, List.mem_filterMap]
  constructor
  · rintro ⟨⟨t, around⟩, hplace, hx⟩
    exact ⟨t, around, mem_places_iff_standsIn.1 hplace, hx⟩
  · rintro ⟨t, around, hstands, hx⟩
    exact ⟨(t, around), mem_places_iff_standsIn.2 hstands, hx⟩

/-- A name that goes by the token alone is among the names of the tokens. -/
theorem lists_sitesOf {f : Site → Option String} {P : Token → String → Prop}
    (h : ∀ t around name, (site? tokens (t, around)).bind f = some name ↔ P t name) :
    Lists (Outline.names ((sitesOf tokens).filterMap f)) fun name => ∃ t ∈ tokens, P t name := by
  refine (lists_names _).congr fun name => mem_filterMap_sitesOf.trans ?_
  constructor
  · rintro ⟨t, around, ⟨before, after, rfl, -⟩, hname⟩
    exact ⟨t, List.mem_append_right before List.mem_cons_self, (h t around name).1 hname⟩
  · rintro ⟨t, ht, hname⟩
    obtain ⟨before, after, rfl⟩ := List.append_of_mem ht
    exact ⟨t, openBlocks before, ⟨before, after, rfl, rfl⟩, (h t _ name).2 hname⟩

/-- A site gives a path where the token is a placeholder. -/
theorem site?_path_iff : (site? tokens (t, around)).bind Site.path? = some name ↔
    t.lexeme = .tag (.placeholder name) := by
  obtain ⟨lexeme, start, stop⟩ := t
  cases lexeme with
  | plain text => simp [site?]
  | tag tag => cases tag <;> simp [site?, Site.path?]

/-- A site gives the key of a loop where the token opens one. -/
theorem site?_loopKey_iff : (site? tokens (t, around)).bind Site.loopKey? = some name ↔
    t.OpensLoop name := by
  obtain ⟨lexeme, start, stop⟩ := t
  cases lexeme with
  | plain text => simp [site?, OpensLoop]
  | tag tag => cases tag <;> simp [site?, Site.loopKey?, OpensLoop]

/-- A site gives the key of a condition where the token opens a conditional. -/
theorem site?_conditionKey_iff : (site? tokens (t, around)).bind Site.conditionKey? = some name ↔
    ∃ c, t.lexeme = .tag (.ifOpen c) ∧ c.key = name := by
  obtain ⟨lexeme, start, stop⟩ := t
  cases lexeme with
  | plain text => simp [site?]
  | tag tag => cases tag <;> simp [site?, Site.conditionKey?]

/-! ### Depth -/

/-- The greatest number is not below the others. -/
theorem le_foldl_max {ns : List Nat} {m n : Nat} (h : n ≤ m ∨ n ∈ ns) : n ≤ ns.foldl max m := by
  induction ns generalizing m with
  | nil => exact h.resolve_right List.not_mem_nil
  | cons k ns ih =>
    refine ih ?_
    rcases h with h | h
    · exact .inl (Nat.le_trans h (Nat.le_max_left m k))
    · rcases List.mem_cons.1 h with rfl | h
      · exact .inl (Nat.le_max_right m n)
      · exact .inr h

/-- The greatest number is one of the numbers. -/
theorem foldl_max_mem (ns : List Nat) (m : Nat) : ns.foldl max m = m ∨ ns.foldl max m ∈ ns := by
  induction ns generalizing m with
  | nil => exact .inl rfl
  | cons k ns ih =>
    rw [List.foldl_cons]
    rcases ih (max m k) with h | h
    · rw [h]
      rcases Nat.le_total m k with hle | hle
      · exact .inr (by rw [Nat.max_eq_right hle]; exact List.mem_cons_self)
      · exact .inl (Nat.max_eq_left hle)
    · exact .inr (List.mem_cons_of_mem k h)

/-- At a site, the blocks are counted that are open behind its tag. -/
theorem depth_eq_of_site? (h : site? tokens (t, around) = some site) :
    site.depth = 0 ∨ site.depth = (enter around t).length := by
  obtain ⟨lexeme, start, stop⟩ := t
  cases lexeme with
  | plain text => cases h
  | tag tag =>
    cases tag with
    | placeholder path =>
      obtain rfl := Option.some.inj h
      exact .inl rfl
    | eachOpen key =>
      obtain rfl := Option.some.inj h
      exact .inr (by simp [Site.depth, enter])
    | ifOpen c =>
      obtain rfl := Option.some.inj h
      exact .inr (by simp [Site.depth, enter])
    | _ => cases h

/-- A block that is entered is a site by itself, one deeper than the blocks around it. -/
theorem length_enter_le {m : Nat} (haround : around.length ≤ m)
    (hsite : ∀ site, site? tokens (t, around) = some site → site.depth ≤ m) :
    (enter around t).length ≤ m := by
  obtain ⟨lexeme, start, stop⟩ := t
  have htail : around.tail.length ≤ m := by
    rw [List.length_tail]
    omega
  cases lexeme with
  | plain text => exact haround
  | tag tag =>
    cases tag with
    | placeholder path => exact haround
    | eachOpen key =>
      have hdepth := hsite _ rfl
      rwa [Site.depth, List.length_map] at hdepth
    | ifOpen c =>
      have hdepth := hsite _ rfl
      rwa [Site.depth, List.length_map] at hdepth
    | eachClose => exact htail
    | otherwise => exact haround
    | ifClose => exact htail

/-- As many blocks are open after some tokens as the deepest site among them counts. -/
theorem length_foldl_enter_le {m : Nat} {xs : List Token} (haround : around.length ≤ m)
    (hsites : ∀ place ∈ places around xs, ∀ site, site? tokens place = some site → site.depth ≤ m) :
    (xs.foldl enter around).length ≤ m := by
  induction xs generalizing around with
  | nil => exact haround
  | cons x xs ih =>
    rw [places, List.forall_mem_cons] at hsites
    exact ih (length_enter_le haround hsites.1) hsites.2

/-- The number of blocks that are open inside the deepest block. -/
def maxDepthOf (sites : List Site) : Nat := (sites.map Site.depth).foldl max 0

/-- No more blocks are ever open than the greatest depth. -/
theorem length_openBlocks_le {before after : List Token} (htokens : tokens = before ++ after) :
    (openBlocks before).length ≤ maxDepthOf (sitesOf tokens) := by
  have hdepth : ∀ place ∈ places [] before, ∀ site, site? tokens place = some site →
      site.depth ≤ maxDepthOf (sitesOf tokens) := by
    intro place hplace site hsite
    have hmem : place ∈ places [] tokens := by
      rw [htokens, places_append]
      exact List.mem_append_left _ hplace
    have hdepth : site.depth ∈ (sitesOf tokens).map Site.depth :=
      List.mem_map_of_mem (List.mem_filterMap.2 ⟨place, hmem, hsite⟩)
    exact le_foldl_max (.inr hdepth)
  exact length_foldl_enter_le (Nat.zero_le _) hdepth

/-- Somewhere as many blocks are open as the greatest depth. -/
theorem exists_openBlocks (tokens : List Token) : ∃ before after, tokens = before ++ after ∧
    (openBlocks before).length = maxDepthOf (sitesOf tokens) := by
  have hnone : maxDepthOf (sitesOf tokens) = 0 → ∃ before after, tokens = before ++ after ∧
      (openBlocks before).length = maxDepthOf (sitesOf tokens) :=
    fun hzero => ⟨[], tokens, rfl, hzero.symm⟩
  rcases foldl_max_mem ((sitesOf tokens).map Site.depth) 0 with hzero | hmem
  · exact hnone hzero
  · obtain ⟨site, hsite, hdepth⟩ := List.mem_map.1 hmem
    obtain ⟨⟨t, around⟩, hplace, ht⟩ := List.mem_filterMap.1 hsite
    obtain ⟨before, after, htokens, haround⟩ := mem_places_iff_standsIn.1 hplace
    rcases depth_eq_of_site? ht with hzero | hopen
    · exact hnone (hdepth.symm.trans hzero)
    · -- right behind the opening tag of the deepest block
      refine ⟨before ++ [t], after, by simpa using htokens, ?_⟩
      rw [openBlocks_concat, ← haround, ← hopen]
      exact hdepth

/-! ### Warnings -/

/-- A path is that of a field of the row where it is the key, a point and the name. -/
theorem rowField?_eq_some_iff (hname : '.' ∉ name.toList) :
    rowField? key path = some name ↔ ReadsField key name path := by
  have hpoint : ".".toList = ['.'] := rfl
  have hall : ∀ c ∈ name.toList, (c != '.') = true := by
    intro c hc
    have hne : c ≠ '.' := fun he => hname (he ▸ hc)
    simpa using hne
  unfold rowField?
  rw [Option.map_eq_some_iff]
  constructor
  · rintro ⟨rest, hrest, he⟩
    have hpath := Text.after?_eq_some_iff.1 hrest
    have hfront : rest.takeWhile (· != '.') = name.toList := by rw [← he, String.toList_ofList]
    have hcut := List.takeWhile_append_dropWhile (p := (· != '.')) (l := rest)
    rw [hfront] at hcut
    cases hback : rest.dropWhile (· != '.') with
    | nil =>
      rw [hback, List.append_nil] at hcut
      refine .inl (String.ext ?_)
      rw [hpath, ← hcut, String.toList_append, String.toList_append, hpoint]
    | cons c more =>
      -- what is behind the name begins with the point that ends it
      have hhead := List.head?_dropWhile_not (· != '.') rest
      rw [hback] at hcut hhead
      obtain rfl : c = '.' := by simpa using hhead
      refine .inr ⟨.ofList more, String.ext ?_⟩
      rw [hpath, ← hcut]
      simp [String.toList_append, hpoint]
  · rintro (rfl | ⟨more, rfl⟩)
    · refine ⟨name.toList, Text.after?_eq_some_iff.2 ?_, ?_⟩
      · rw [String.toList_append, String.toList_append, hpoint]
      · rw [← List.append_nil name.toList, List.takeWhile_append_of_pos hall, List.takeWhile_nil,
          List.append_nil, String.ofList_toList]
    · refine ⟨name.toList ++ '.' :: more.toList, Text.after?_eq_some_iff.2 ?_, ?_⟩
      · simp [String.toList_append, hpoint]
      · rw [List.takeWhile_append_of_pos hall, List.takeWhile_cons, if_neg (by decide),
          List.append_nil, String.ofList_toList]

/-- A token gives a path where it is a placeholder. -/
theorem path?_eq_some_iff : t.path? = some path ↔ t.lexeme = .tag (.placeholder path) := by
  obtain ⟨lexeme, start, stop⟩ := t
  cases lexeme with
  | plain text => simp [path?]
  | tag tag => cases tag <;> simp [path?]

/-- The fields of a loop are those that the placeholders inside it read. -/
theorem mem_fields_iff (hname : '.' ∉ name.toList) : name ∈ fields tokens key o ↔
    ∃ t around path, StandsIn tokens t around ∧ o ∈ around ∧ t.lexeme = .tag (.placeholder path) ∧
      ReadsField key name path := by
  unfold fields
  rw [List.mem_filterMap]
  constructor
  · rintro ⟨⟨t, around⟩, hplace, hfield⟩
    unfold fieldAt? at hfield
    split at hfield
    · next ho =>
      obtain ⟨path, hpath, hrow⟩ := Option.bind_eq_some_iff.1 hfield
      exact ⟨t, around, path, mem_places_iff_standsIn.1 hplace, ho, path?_eq_some_iff.1 hpath,
        (rowField?_eq_some_iff hname).1 hrow⟩
    · cases hfield
  · rintro ⟨t, around, path, hstands, ho, hpath, hreads⟩
    refine ⟨(t, around), mem_places_iff_standsIn.2 hstands, ?_⟩
    rw [fieldAt?, if_pos ho, path?_eq_some_iff.2 hpath]
    exact (rowField?_eq_some_iff hname).2 hreads

/-- A block around a site has the key of the loop that it is. -/
theorem enclosing_loopKey?_iff :
    (enclosing tokens o).loopKey? = some key ↔ (∃ key, o.OpensLoop key) ∧ o.OpensLoop key := by
  obtain ⟨lexeme, start, stop⟩ := o
  cases lexeme with
  | plain text => simp [enclosing, Enclosing.loopKey?, OpensLoop]
  | tag tag => cases tag <;> simp [enclosing, Enclosing.loopKey?, OpensLoop]

/-- A block around a site is a loop whose row has the field in question. -/
theorem enclosing_rowReader?_iff (hname : '.' ∉ name.toList) :
    (enclosing tokens o).rowReader? name = some key ↔ TestsRow tokens name o ∧ o.OpensLoop key := by
  -- a conditional has no row
  by_cases hloop : ∃ key, o.OpensLoop key
  · obtain ⟨key', hkey'⟩ := hloop
    have hinj : ∀ {key}, o.OpensLoop key → key' = key := by
      intro key hkey
      have he : Lexeme.tag (.eachOpen key') = .tag (.eachOpen key) := hkey'.symm.trans hkey
      cases he
      rfl
    have htests : (key' == name || (fields tokens key' o).contains name) = true ↔
        TestsRow tokens name o := by
      rw [Bool.or_eq_true, beq_iff_eq, List.contains_iff_mem, mem_fields_iff hname]
      constructor
      · exact fun h => ⟨key', hkey', h⟩
      · rintro ⟨key, hkey, h⟩
        rwa [hinj hkey]
    unfold OpensLoop at hkey'
    rw [enclosing, hkey']
    dsimp only
    rw [Enclosing.rowReader?, ← htests]
    split
    · next h =>
      refine ⟨fun he => ⟨h, ?_⟩, fun he => congrArg some (hinj he.2)⟩
      exact Option.some.inj he ▸ hkey'
    · next h =>
      constructor
      · intro he
        cases he
      · intro he
        exact absurd he.1 h
  · have hconditional : enclosing tokens o = .conditional := by
      unfold enclosing
      split
      · next key hkey => exact absurd ⟨key, hkey⟩ hloop
      · rfl
    rw [hconditional]
    constructor
    · intro he
      cases he
    · intro he
      exact absurd ⟨key, he.2⟩ hloop

/-- What a search through the blocks around a node finds is the innermost block of a kind. -/
theorem findSome?_iff_isInnermost {f : Enclosing → Option String} {P : Token → Prop}
    (h : ∀ o key, f (enclosing tokens o) = some key ↔ P o ∧ o.OpensLoop key)
    (hloop : ∀ o, P o → ∃ key, o.OpensLoop key) :
    (around.map (enclosing tokens)).findSome? f = some key ↔
      ∃ o, IsInnermost P around o ∧ o.OpensLoop key := by
  -- the blocks further in are those in which nothing is found
  have hnone : ∀ o, f (enclosing tokens o) = none ↔ ¬ P o := by
    intro o
    constructor
    · intro hf hP
      obtain ⟨key, hkey⟩ := hloop o hP
      rw [(h o key).2 ⟨hP, hkey⟩] at hf
      cases hf
    · intro hP
      cases hf : f (enclosing tokens o) with
      | none => rfl
      | some key => exact absurd ((h o key).1 hf).1 hP
  rw [List.findSome?_map, List.findSome?_eq_some_iff]
  constructor
  · rintro ⟨inner, o, outer, hsplit, ho, hinner⟩
    obtain ⟨hP, hopens⟩ := (h o key).1 ho
    exact ⟨o, ⟨inner, outer, hsplit, hP, fun x hx => (hnone x).1 (hinner x hx)⟩, hopens⟩
  · rintro ⟨o, ⟨inner, outer, hsplit, hP, hinner⟩, hopens⟩
    exact ⟨inner, o, outer, hsplit, (h o key).2 ⟨hP, hopens⟩, fun x hx => (hnone x).2 (hinner x hx)⟩

/-- The tags around a token open blocks. -/
def Token.Opens (token : Token) : Prop := (∃ key, token.OpensLoop key) ∨ token.OpensConditional

/-- Only tokens that open a block leave one open. -/
theorem opens_of_mem_openBlocks {before : List Token} : ∀ o ∈ openBlocks before, o.Opens := by
  have henter : ∀ {around : List Token} (t : Token), (∀ o ∈ around, o.Opens) →
      ∀ o ∈ enter around t, o.Opens := by
    intro around t haround
    unfold enter
    split
    · next key ht => exact List.forall_mem_cons.2 ⟨.inl ⟨key, ht⟩, haround⟩
    · next c ht => exact List.forall_mem_cons.2 ⟨.inr ⟨c, ht⟩, haround⟩
    · exact fun o ho => haround o (List.mem_of_mem_tail ho)
    · exact fun o ho => haround o (List.mem_of_mem_tail ho)
    · exact haround
  have hfold : ∀ {around : List Token}, (∀ o ∈ around, o.Opens) →
      ∀ o ∈ before.foldl enter around, o.Opens := by
    induction before with
    | nil => exact fun h => h
    | cons t before ih => exact fun h => ih (henter t h)
  exact hfold nofun

/-- One of the blocks around is a conditional where one of their tokens opens one. -/
theorem any_isConditional_iff (haround : ∀ o ∈ around, o.Opens) :
    (around.map (enclosing tokens)).any Enclosing.isConditional = true ↔
      ∃ o ∈ around, o.OpensConditional := by
  rw [List.any_map, List.any_eq_true]
  constructor
  · rintro ⟨o, ho, hconditional⟩
    refine ⟨o, ho, (haround o ho).resolve_left ?_⟩
    rintro ⟨key, hkey⟩
    unfold OpensLoop at hkey
    rw [Function.comp_apply, enclosing, hkey] at hconditional
    cases hconditional
  · rintro ⟨o, ho, c, hc⟩
    refine ⟨o, ho, ?_⟩
    rw [Function.comp_apply, enclosing, hc]
    rfl

/-- What concerns a loop: the loop around it. -/
theorem concerns_eachOpen_iff {concern : Concern} (ht : t.lexeme = .tag (.eachOpen key)) :
    Concerns tokens around t concern concern.message ↔ ∃ outer, concern = .nestedLoop key outer ∧
      ∃ o, IsInnermost (fun o => ∃ key, o.OpensLoop key) around o ∧ o.OpensLoop outer := by
  constructor
  · intro h
    generalize concern.message = message at h
    cases h with
    | @nestedLoop key' outer o ht' hinnermost hopens =>
      obtain rfl : key = key' := by
        rw [ht] at ht'
        cases ht'
        rfl
      exact ⟨outer, rfl, o, hinnermost, hopens⟩
    | nestedConditional ht' _ _ =>
      rw [ht] at ht'
      cases ht'
    | rowCondition ht' _ _ _ =>
      rw [ht] at ht'
      cases ht'
  · rintro ⟨outer, rfl, o, hinnermost, hopens⟩
    rw [Concern.message_nestedLoop]
    exact .nestedLoop ht hinnermost hopens

/-- What concerns a conditional: a conditional around it, or else a loop whose row it tests. -/
theorem concerns_ifOpen_iff {c : Condition} {concern : Concern} (ht : t.lexeme = .tag (.ifOpen c)) :
    Concerns tokens around t concern concern.message ↔
      (concern = .nestedConditional c ∧ ∃ o ∈ around, o.OpensConditional) ∨
      ∃ loop, concern = .rowCondition c loop ∧ (∀ o ∈ around, ¬ o.OpensConditional) ∧
        ∃ o, IsInnermost (TestsRow tokens c.key) around o ∧ o.OpensLoop loop := by
  have hinj : ∀ {c'}, t.lexeme = .tag (.ifOpen c') → c = c' := by
    intro c' ht'
    rw [ht] at ht'
    cases ht'
    rfl
  constructor
  · intro h
    generalize concern.message = message at h
    cases h with
    | nestedLoop ht' _ _ =>
      rw [ht] at ht'
      cases ht'
    | nestedConditional ht' ho hopens =>
      obtain rfl := hinj ht'
      exact .inl ⟨rfl, _, ho, hopens⟩
    | @rowCondition c' loop o ht' hnone hinnermost hopens =>
      obtain rfl := hinj ht'
      exact .inr ⟨loop, rfl, hnone, o, hinnermost, hopens⟩
  · rintro (⟨rfl, o, ho, hopens⟩ | ⟨loop, rfl, hnone, o, hinnermost, hopens⟩)
    · rw [Concern.message_nestedConditional]
      exact .nestedConditional ht ho hopens
    · rw [Concern.message_rowCondition]
      exact .rowCondition ht hnone hinnermost hopens

/-- The warning about a loop. -/
theorem loop_warning_iff (ht : t.lexeme = .tag (.eachOpen key)) :
    (Site.loop key t.start (around.map (enclosing tokens))).warning? = some w ↔
      w.offset = t.start ∧ Concerns tokens around t w.concern w.concern.message := by
  have hfind : ∀ outer, (around.map (enclosing tokens)).findSome? Enclosing.loopKey? = some outer ↔
      ∃ o, IsInnermost (fun o => ∃ key, o.OpensLoop key) around o ∧ o.OpensLoop outer :=
    fun outer => findSome?_iff_isInnermost (fun _ _ => enclosing_loopKey?_iff) fun _ h => h
  obtain ⟨concern, offset⟩ := w
  rw [Site.warning?, Option.map_eq_some_iff, concerns_eachOpen_iff ht]
  constructor
  · rintro ⟨outer, hloop, ⟨⟩⟩
    exact ⟨rfl, outer, rfl, (hfind outer).1 hloop⟩
  · rintro ⟨rfl, outer, rfl, hinnermost⟩
    exact ⟨outer, (hfind outer).2 hinnermost, rfl⟩

/-- The warning about a conditional. -/
theorem conditional_warning_iff {c : Condition} (ht : t.lexeme = .tag (.ifOpen c))
    (haround : ∀ o ∈ around, o.Opens) (hkey : '.' ∉ c.key.toList) :
    (Site.conditional c t.start (around.map (enclosing tokens))).warning? = some w ↔
      w.offset = t.start ∧ Concerns tokens around t w.concern w.concern.message := by
  have hfind : ∀ loop,
      (around.map (enclosing tokens)).findSome? (Enclosing.rowReader? c.key) = some loop ↔
        ∃ o, IsInnermost (TestsRow tokens c.key) around o ∧ o.OpensLoop loop :=
    fun loop => findSome?_iff_isInnermost (fun _ _ => enclosing_rowReader?_iff hkey)
      fun _ h => h.imp fun _ => And.left
  obtain ⟨concern, offset⟩ := w
  rw [Site.warning?, concerns_ifOpen_iff ht]
  by_cases hnested : (around.map (enclosing tokens)).any Enclosing.isConditional = true
  · rw [if_pos hnested]
    have hopens := (any_isConditional_iff haround).1 hnested
    constructor
    · rintro ⟨⟩
      exact ⟨rfl, .inl ⟨rfl, hopens⟩⟩
    · rintro ⟨rfl, ⟨rfl, -⟩ | ⟨loop, -, hnone, -⟩⟩
      · rfl
      · obtain ⟨o, ho, hc⟩ := hopens
        exact absurd hc (hnone o ho)
  · rw [if_neg hnested, Option.map_eq_some_iff]
    have hnone : ∀ o ∈ around, ¬ o.OpensConditional :=
      fun o ho h => hnested ((any_isConditional_iff haround).2 ⟨o, ho, h⟩)
    constructor
    · rintro ⟨loop, hloop, ⟨⟩⟩
      exact ⟨rfl, .inr ⟨loop, rfl, hnone, (hfind loop).1 hloop⟩⟩
    · rintro ⟨rfl, ⟨rfl, o, ho, hc⟩ | ⟨loop, rfl, -, hinnermost⟩⟩
      · exact absurd hc (hnone o ho)
      · exact ⟨loop, (hfind loop).2 hinnermost, rfl⟩

/-- Nothing concerns a token that opens no block. -/
theorem not_concerns (heach : ∀ key, t.lexeme ≠ .tag (.eachOpen key))
    (hif : ∀ c, t.lexeme ≠ .tag (.ifOpen c)) (concern : Concern) (message : String) :
    ¬ Concerns tokens around t concern message := by
  intro h
  cases h with
  | nestedLoop ht _ _ => exact heach _ ht
  | nestedConditional ht _ _ => exact hif _ ht
  | rowCondition ht _ _ _ => exact hif _ ht

/-- **The warning at a token** says what there is to say about it. -/
theorem site?_warning_iff (haround : ∀ o ∈ around, o.Opens)
    (hkeys : ∀ c, t.lexeme = .tag (.ifOpen c) → '.' ∉ c.key.toList) :
    (site? tokens (t, around)).bind Site.warning? = some w ↔
      w.offset = t.start ∧ Concerns tokens around t w.concern w.concern.message := by
  obtain ⟨lexeme, start, stop⟩ := t
  have hother : (∀ key, lexeme ≠ .tag (.eachOpen key)) → (∀ c, lexeme ≠ .tag (.ifOpen c)) →
      ¬ Concerns tokens around ⟨lexeme, start, stop⟩ w.concern w.concern.message :=
    fun heach hif => not_concerns heach hif w.concern w.concern.message
  cases lexeme with
  | plain text => exact ⟨nofun, fun h => absurd h.2 (hother nofun nofun)⟩
  | tag tag =>
    cases tag with
    | eachOpen key => exact loop_warning_iff rfl
    | ifOpen c => exact conditional_warning_iff rfl haround (hkeys c rfl)
    | placeholder path => exact ⟨nofun, fun h => absurd h.2 (hother nofun nofun)⟩
    | eachClose => exact ⟨nofun, fun h => absurd h.2 (hother nofun nofun)⟩
    | otherwise => exact ⟨nofun, fun h => absurd h.2 (hother nofun nofun)⟩
    | ifClose => exact ⟨nofun, fun h => absurd h.2 (hother nofun nofun)⟩

/-! ### Outlines -/

/-- The keys of conditions in a template have no points. -/
theorem point_not_mem_of_ifOpen {source : String} {c : Condition} (ht : t ∈ Token.ofSource source)
    (hc : t.lexeme = .tag (.ifOpen c)) : '.' ∉ c.key.toList := by
  obtain ⟨p, hp, he⟩ := exists_piece_of_mem ht
  cases p with
  | plain text =>
    rw [hc] at he
    cases he
  | found tag lexeme =>
    obtain ⟨s, rest, hread⟩ := genuine_pieces _ _ _ hp
    rw [hc] at he
    obtain rfl : tag = .ifOpen c := Lexeme.tag.inj he
    obtain ⟨⟨hkey, -⟩, -⟩ := Tag.condition_eq_some_iff.1 (Tag.condition_read_iff.2 hread)
    intro hm
    exact absurd (hkey.2 _ hm) (by decide)

/-- A warning is about the place where its block is opened. -/
theorem offset_of_warning (h : (site? tokens place).bind Site.warning? = some w) :
    w.offset = place.1.start := by
  obtain ⟨⟨lexeme, start, stop⟩, around⟩ := place
  cases lexeme with
  | plain text => cases h
  | tag tag =>
    cases tag with
    | eachOpen key =>
      have hloop : (Site.loop key start (around.map (enclosing tokens))).warning? = some w := h
      rw [Site.warning?, Option.map_eq_some_iff] at hloop
      obtain ⟨outer, -, rfl⟩ := hloop
      rfl
    | ifOpen c =>
      have hconditional :
        (Site.conditional c start (around.map (enclosing tokens))).warning? = some w := h
      rw [Site.warning?] at hconditional
      split at hconditional
      · cases hconditional
        rfl
      · obtain ⟨loop, -, rfl⟩ := Option.map_eq_some_iff.1 hconditional
        rfl
    | _ => cases h

/-- The warnings come in the order of the tokens. -/
theorem pairwise_warnings (h : tokens.Pairwise fun a b => a.start < b.start) :
    ((sitesOf tokens).filterMap Site.warning?).Pairwise fun w w' => w.offset < w'.offset := by
  have hplaces : (places [] tokens).Pairwise fun a b => a.1.start < b.1.start := by
    rw [← map_fst_places [] tokens, List.pairwise_map] at h
    exact h
  unfold sitesOf sitesBehind
  rw [List.filterMap_filterMap]
  refine hplaces.filterMap _ fun place place' hlt w hw w' hw' => ?_
  rw [offset_of_warning hw, offset_of_warning hw']
  exact hlt

/-- **The outline of a template says what its tokens say.** -/
theorem describes_ofSource {source : String} {nodes : List Node} (h : Node.ofSource source = .ok nodes) :
    (Outline.ofNodes nodes).Describes (Token.ofSource source) := by
  have hspells := spells_of_ofTokens (ofSource_eq_ok.1 h)
  have hpairwise := pairwise_ofSource source
  have hkeys : ∀ t ∈ Token.ofSource source, ∀ c, t.lexeme = .tag (.ifOpen c) → '.' ∉ c.key.toList :=
    fun t ht c hc => point_not_mem_of_ifOpen ht hc
  have hnodup : (Token.ofSource source).Nodup := by
    refine hpairwise.imp fun hlt he => ?_
    rw [he] at hlt
    exact Nat.lt_irrefl _ hlt
  generalize Token.ofSource source = tokens at hspells hpairwise hkeys hnodup
  have hsites := sites_of_spells hnodup hspells
  unfold Outline.ofNodes
  rw [hsites]
  refine ⟨lists_sitesOf fun _ _ _ => site?_path_iff, lists_sitesOf fun _ _ _ => site?_loopKey_iff,
    lists_sitesOf fun _ _ _ => site?_conditionKey_iff, fun _ _ => length_openBlocks_le,
    exists_openBlocks tokens, pairwise_warnings hpairwise, fun w => mem_filterMap_sitesOf.trans ?_⟩
  -- around each token are tags that open blocks, so that its warning is the one at its site
  have hiff : ∀ {t around}, StandsIn tokens t around →
      ((site? tokens (t, around)).bind Site.warning? = some w ↔
        w.offset = t.start ∧ Concerns tokens around t w.concern w.concern.message) := by
    rintro t around ⟨before, after, htokens, rfl⟩
    have ht : t ∈ tokens := htokens ▸ List.mem_append_right before List.mem_cons_self
    exact site?_warning_iff opens_of_mem_openBlocks (hkeys t ht)
  constructor
  · rintro ⟨t, around, hstands, hw⟩
    exact ⟨t, around, hstands, (hiff hstands).1 hw⟩
  · rintro ⟨t, around, hstands, hw⟩
    exact ⟨t, around, hstands, (hiff hstands).2 hw⟩

/-- A condition on a row, a conditional in a conditional and a loop in a loop. -/
def nestedBlocks : String :=
  "\x7b\x7b#each xs\x7d\x7d\x7b\x7bxs.a\x7d\x7d\x7b\x7b#if a\x7d\x7d\x7b\x7b#if b\x7d\x7d" ++
    "\x7b\x7b/if\x7d\x7d\x7b\x7b/if\x7d\x7d\x7b\x7b#each ys\x7d\x7d\x7b\x7b/each\x7d\x7d" ++
    "\x7b\x7b/each\x7d\x7d"

/-- Each of the three is warned of at its opening tag. -/
theorem describes_nestedBlocks : ∃ nodes, Node.ofSource nestedBlocks = .ok nodes ∧
    (Outline.ofNodes nodes).Describes (Token.ofSource nestedBlocks) ∧
    (Outline.ofNodes nodes).warnings = [⟨.rowCondition ⟨"a", none⟩ "xs", 20⟩,
      ⟨.nestedConditional ⟨"b", none⟩, 29⟩, ⟨.nestedLoop "ys" "xs", 52⟩] ∧
    (Outline.ofNodes nodes).warnings.map (fun w => w.concern.message) =
      ["\x7b\x7b#if a\x7d\x7d inside \x7b\x7b#each xs\x7d\x7d is evaluated against " ++
          "top-level data, not the loop row",
        "\x7b\x7b#if b\x7d\x7d is nested inside another \x7b\x7b#if\x7d\x7d and will " ++
          "not be resolved",
        "\x7b\x7b#each ys\x7d\x7d is nested inside \x7b\x7b#each xs\x7d\x7d and will " ++
          "not be expanded"] := by
  have hok : (Node.ofSource nestedBlocks).isOk = true := by decide +kernel
  have hwarnings : (Node.ofSource nestedBlocks).toOption.map
      (fun nodes => (Outline.ofNodes nodes).warnings) = some [⟨.rowCondition ⟨"a", none⟩ "xs", 20⟩,
        ⟨.nestedConditional ⟨"b", none⟩, 29⟩, ⟨.nestedLoop "ys" "xs", 52⟩] := by decide +kernel
  obtain ⟨nodes, hnodes⟩ := exists_nodes_of_isOk hok
  rw [hnodes] at hwarnings
  have hthree : (Outline.ofNodes nodes).warnings = _ := Option.some.inj hwarnings
  refine ⟨nodes, hnodes, describes_ofSource hnodes, hthree, ?_⟩
  rw [hthree]
  decide +kernel

end Stencil
