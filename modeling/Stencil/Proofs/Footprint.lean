import Stencil.Command.Program
import Stencil.Proofs.Resolution

/-!
# What a run of the program changes

A run reads all it needs before it writes. So a run that fails has written nothing; a question about a
template or the settings writes nothing at all; and a rendering, once it has been made, is printed or
written as it is. The first settings are written only where there are none. That is looked at before
folders are made for them, so it says nothing about a path that goes back up behind a missing name.

* `Host.IsFallible`: a host that may refuse any operation on a file.
* `OnlyReads`: an attempt that leaves all files as they are.
* `render_cases`, `init_cases`: how a rendering and the writing of the first settings may end.
* `run_footprint`: which files a run of the program changes.
-/

namespace Stencil

variable {ε α β : Type} {host : Host (StateM World)} {w w' : World}

/-! ### Hosts that refuse -/

/-- What is not refused is done as by the world, and a refusal leaves all files as they are. -/
def MayRefuse (x y : StateM World (Except FileFault α)) : Prop :=
  ∀ w, x.run w = y.run w ∨ ∃ fault w', x.run w = (.error fault, w') ∧ w'.tree.files = w.tree.files

/-- A place where a host never writes. -/
def Host.Bars (host : Host (StateM World)) (path : String) : Prop :=
  ∀ text w, ∃ fault w', (host.writeFile path text).run w = (.error fault, w') ∧
    w'.tree.files = w.tree.files

/-- **A host that may refuse** to read, to write and to make folders, each time for reasons of its own.
It may deny what is there as well, at a place where it never writes. -/
structure Host.IsFallible (host : Host (StateM World)) : Prop where
  hasPath : ∀ path w, (host.hasPath path).run w = (w.tree.hasPath path, w) ∨
    (host.hasPath path).run w = (false, w) ∧ host.Bars path
  readFile : ∀ path, MayRefuse (host.readFile path) (World.host.readFile path)
  writeFile : ∀ path text, MayRefuse (host.writeFile path text) (World.host.writeFile path text)
  makeFolder : ∀ p, MayRefuse (host.makeFolder p) (World.host.makeFolder p)
  readInput : MayRefuse host.readInput World.host.readInput

/-- The world itself refuses nothing for reasons of its own. -/
theorem World.isFallible_host : World.host.IsFallible where
  hasPath _ _ := .inl rfl
  readFile _ _ := .inl rfl
  writeFile _ _ _ := .inl rfl
  makeFolder _ _ := .inl rfl
  readInput _ := .inl rfl

/-- A change of the tree that is made, or that is refused. -/
theorem MayRefuse.change {x : StateM World (Except FileFault Unit)}
    {f : FileTree → Except FileFault FileTree} (h : MayRefuse x (World.change f))
    {r : Except FileFault Unit} (hrun : x.run w = (r, w')) :
    (∃ fault, r = .error fault) ∧ w'.tree.files = w.tree.files ∨
      r = .ok () ∧ f w.tree = .ok w'.tree := by
  rcases h w with he | ⟨fault, other, he, hfiles⟩
  · rw [hrun] at he
    cases hf : f w.tree with
    | ok tree =>
      have hdone : (World.change f).run w = (.ok (), { w with tree }) := by
        simp [World.change, hf]; rfl
      rw [hdone] at he
      obtain ⟨rfl, rfl⟩ := Prod.mk.inj he
      exact .inr ⟨rfl, rfl⟩
    | error fault =>
      have hdone : (World.change f).run w = (.error fault, w) := by
        simp [World.change, hf]; rfl
      rw [hdone] at he
      obtain ⟨rfl, rfl⟩ := Prod.mk.inj he
      exact .inl ⟨⟨fault, rfl⟩, rfl⟩
  · rw [hrun] at he
    obtain ⟨rfl, rfl⟩ := Prod.mk.inj he
    exact .inl ⟨⟨fault, rfl⟩, hfiles⟩

/-! ### Reading -/

/-- **What only reads** leaves all files as they are, and the whole tree unless it fails. -/
def OnlyReads (x : StateM World (Except ε α)) : Prop :=
  ∀ w r w', x.run w = (r, w') →
    w'.tree.files = w.tree.files ∧ ∀ value, r = .ok value → w'.tree = w.tree

/-- What may refuse to do what only reads only reads itself. -/
theorem MayRefuse.onlyReads {x y : StateM World (Except FileFault α)} (h : MayRefuse x y)
    (hy : OnlyReads y) : OnlyReads x := by
  intro w r w' hrun
  rcases h w with he | ⟨fault, other, he, hfiles⟩
  · exact hy w r w' (he.symm.trans hrun)
  · obtain ⟨rfl, rfl⟩ := Prod.mk.inj (hrun.symm.trans he)
    exact ⟨hfiles, nofun⟩

namespace Attempt

/-- A problem ends the attempt, and leaves the world as it is then. -/
theorem run_bind (a : Attempt (StateM World) α) (f : α → Attempt (StateM World) β) (w : World) :
    (a >>= f).run.run w = match a.run.run w with
      | (.ok value, w') => (f value).run.run w'
      | (.error p, w') => (.error p, w') := by
  simp only [ExceptT.run_bind, StateT.run_bind]
  rcases a.run.run w with ⟨r, w'⟩
  cases r <;> rfl

/-- **How a sequence ends**: at its first attempt, or at what follows when that has succeeded. -/
theorem run_bind_cases {a : Attempt (StateM World) α} {f : α → Attempt (StateM World) β}
    {r : Except Problem β} (h : (a >>= f).run.run w = (r, w')) :
    (∃ p, a.run.run w = (.error p, w') ∧ r = .error p) ∨
      ∃ value between, a.run.run w = (.ok value, between) ∧ (f value).run.run between = (r, w') := by
  rw [run_bind] at h
  split at h
  · next value between he => exact .inr ⟨value, between, he, h⟩
  · next p between he =>
    obtain ⟨rfl, rfl⟩ := Prod.mk.inj h
    exact .inl ⟨p, he, rfl⟩

theorem run_lift {x : StateM World α} {value : α} (h : x.run w = (value, w')) :
    (liftM x : Attempt (StateM World) α).run.run w = (.ok value, w') := by
  have hlift : (liftM x : Attempt (StateM World) α).run = Except.ok <$> x := rfl
  rw [hlift, StateT.run_map, h]
  rfl

/-- How a file operation ends as an attempt. -/
theorem run_ofFile_cases {layer : Option String} {x : StateM World (Except FileFault α)}
    {r : Except Problem α} (h : (ofFile layer x).run.run w = (r, w')) :
    (∃ fault p, x.run w = (.error fault, w') ∧ r = .error p) ∨
      ∃ value, x.run w = (.ok value, w') ∧ r = .ok value := by
  rcases hx : x.run w with ⟨result, after⟩
  rw [ofFile, run_bind, run_lift hx] at h
  cases result with
  | ok value =>
    obtain ⟨rfl, rfl⟩ := Prod.mk.inj h
    exact .inr ⟨value, rfl, rfl⟩
  | error fault =>
    obtain ⟨rfl, rfl⟩ := Prod.mk.inj h
    exact .inl ⟨fault, _, rfl, rfl⟩

/-- **How a change of the tree ends as an attempt**: with a problem and the files as they were, or
changed. -/
theorem run_change_cases {layer : Option String} {x : StateM World (Except FileFault Unit)}
    {f : FileTree → Except FileFault FileTree} (hx : MayRefuse x (World.change f))
    {r : Except Problem Unit} (h : (ofFile layer x).run.run w = (r, w')) :
    (∃ p, r = .error p) ∧ w'.tree.files = w.tree.files ∨ r = .ok () ∧ f w.tree = .ok w'.tree := by
  rcases run_ofFile_cases h with ⟨fault, p, hrun, rfl⟩ | ⟨value, hrun, rfl⟩
  · rcases hx.change hrun with ⟨-, hfiles⟩ | ⟨he, -⟩
    · exact .inl ⟨⟨p, rfl⟩, hfiles⟩
    · cases he
  · rcases hx.change hrun with ⟨⟨fault, he⟩, -⟩ | ⟨-, hchanged⟩
    · cases he
    · exact .inr ⟨rfl, hchanged⟩

end Attempt

section Changes

variable (hhost : host.IsFallible)
include hhost

/-- **What writing does**: it fails and changes no file, or it writes as the tree does. -/
theorem write_cases {layer : Option String} {path text : String} {r : Except Problem Unit}
    (h : (Attempt.ofFile layer (host.writeFile path text)).run.run w = (r, w')) :
    (∃ p, r = .error p) ∧ w'.tree.files = w.tree.files ∨
      r = .ok () ∧ w.tree.write path text.toUTF8 = .ok w'.tree :=
  Attempt.run_change_cases (f := fun t => t.write path text.toUTF8) (hhost.writeFile path text) h

/-- **What making a folder does**: it fails and changes no file, or it makes it as the tree does. -/
theorem makeFolder_cases {layer : Option String} {p : FilePath} {r : Except Problem Unit}
    (h : (Attempt.ofFile layer (host.makeFolder p)).run.run w = (r, w')) :
    (∃ p, r = .error p) ∧ w'.tree.files = w.tree.files ∨
      r = .ok () ∧ w.tree.makeFolder p = .ok w'.tree :=
  Attempt.run_change_cases (f := fun t => t.makeFolder p) (hhost.makeFolder p) h

end Changes

namespace OnlyReads

open Attempt

theorem pure (value : α) : OnlyReads (pure value : Attempt (StateM World) α).run := by
  intro w r w' hrun
  obtain ⟨rfl, rfl⟩ := Prod.mk.inj hrun
  exact ⟨rfl, fun _ _ => rfl⟩

theorem throw (p : Problem) : OnlyReads (throw p : Attempt (StateM World) α).run := by
  intro w r w' hrun
  obtain ⟨rfl, rfl⟩ := Prod.mk.inj hrun
  exact ⟨rfl, nofun⟩

/-- Reading twice is reading. -/
theorem bind {a : Attempt (StateM World) α} {f : α → Attempt (StateM World) β}
    (ha : OnlyReads a.run) (hf : ∀ value, OnlyReads (f value).run) : OnlyReads (a >>= f).run := by
  intro w r w'' hrun
  rcases run_bind_cases hrun with ⟨p, hfirst, rfl⟩ | ⟨value, w', hfirst, hrest⟩
  · exact ⟨(ha w _ w'' hfirst).1, nofun⟩
  · have htree : w'.tree = w.tree := (ha w _ w' hfirst).2 value rfl
    obtain ⟨hfiles, hsame⟩ := hf value w' r w'' hrest
    rw [htree] at hfiles hsame
    exact ⟨hfiles, hsame⟩

/-- A fault of a file is reported without writing. -/
theorem ofFile {layer : Option String} {x : StateM World (Except FileFault α)} (h : OnlyReads x) :
    OnlyReads (ofFile layer x).run := by
  intro w r w' hrun
  rcases run_ofFile_cases hrun with ⟨fault, p, hx, rfl⟩ | ⟨value, hx, rfl⟩
  · exact ⟨(h w _ w' hx).1, nofun⟩
  · exact ⟨(h w _ w' hx).1, fun _ _ => (h w _ w' hx).2 value rfl⟩

/-- A question about the world leaves it as it is. -/
theorem lift {x : StateM World α} (h : ∀ w, (x.run w).2 = w) :
    OnlyReads (liftM x : Attempt (StateM World) α).run := by
  intro w r w' hrun
  rcases hx : x.run w with ⟨value, after⟩
  obtain rfl : after = w := by simpa [hx] using h w
  rw [run_lift hx] at hrun
  obtain ⟨rfl, rfl⟩ := Prod.mk.inj hrun
  exact ⟨rfl, fun _ _ => rfl⟩

theorem decode {x : StateM World (Except FileFault ByteArray)} (h : OnlyReads x) :
    OnlyReads (Inputs.decode <$> x) := by
  intro w r w' hrun
  rcases hx : x.run w with ⟨result, after⟩
  rw [StateT.run_map, hx] at hrun
  obtain ⟨rfl, rfl⟩ := Prod.mk.inj hrun
  obtain ⟨hfiles, htree⟩ := h w result after hx
  refine ⟨hfiles, fun value hvalue => ?_⟩
  cases result with
  | ok bytes => exact htree bytes rfl
  | error fault => cases hvalue

end OnlyReads

/-! ### Inputs -/

/-- The place of the settings is known, or it is not; that is told without a look at the files. -/
theorem settingsPath_cases (env : Environment) (given : Option String) :
    (∃ path, Inputs.settingsPath env given = (pure path : Attempt (StateM World) String)) ∨
      ∃ p, Inputs.settingsPath env given = (throw p : Attempt (StateM World) String) := by
  have hhome : ∀ home, (∃ path, Inputs.settingsPath.inHome home =
        (pure path : Attempt (StateM World) String)) ∨
      ∃ p, Inputs.settingsPath.inHome home = (throw p : Attempt (StateM World) String) := by
    intro home
    cases home with
    | some home => exact .inl ⟨_, rfl⟩
    | none => exact .inr ⟨_, rfl⟩
  unfold Inputs.settingsPath
  split
  · exact .inl ⟨_, rfl⟩
  · split
    · exact .inl ⟨_, rfl⟩
    · exact hhome _
  · exact hhome _

/-- Finding the settings only reads. -/
theorem onlyReads_settingsPath (env : Environment) (given : Option String) :
    OnlyReads (Inputs.settingsPath env given : Attempt (StateM World) String).run := by
  rcases settingsPath_cases env given with ⟨path, he⟩ | ⟨p, he⟩
  · rw [he]
    exact .pure path
  · rw [he]
    exact .throw p

section Inputs

variable (hhost : host.IsFallible)
include hhost

theorem onlyReads_readFile (path : String) : OnlyReads (host.readFile path) := by
  refine (hhost.readFile path).onlyReads ?_
  intro w r w' hrun
  obtain ⟨-, rfl⟩ := Prod.mk.inj hrun
  exact ⟨rfl, fun _ _ => rfl⟩

theorem onlyReads_hostInput : OnlyReads host.readInput := by
  refine hhost.readInput.onlyReads ?_
  intro w r w' hrun
  obtain ⟨-, rfl⟩ := Prod.mk.inj hrun
  exact ⟨rfl, fun _ _ => rfl⟩

theorem onlyReads_hasPath (path : String) :
    OnlyReads (liftM (host.hasPath path) : Attempt (StateM World) Bool).run := by
  refine .lift fun w => ?_
  rcases hhost.hasPath path w with hasked | ⟨hasked, -⟩
  · rw [hasked]
  · rw [hasked]

theorem onlyReads_readText (layer path : String) : OnlyReads (Inputs.readText host layer path).run :=
  .ofFile (.decode (onlyReads_readFile hhost path))

theorem onlyReads_readInput (path : String) : OnlyReads (Inputs.readInput host path).run := by
  unfold Inputs.readInput
  split
  · exact .ofFile (.decode (onlyReads_hostInput hhost))
  · exact onlyReads_readText hhost _ path

theorem onlyReads_readContext (path : String) : OnlyReads (Inputs.readContext host path).run := by
  unfold Inputs.readContext
  split
  · exact .throw _
  · refine .bind (onlyReads_readInput hhost path) fun text => ?_
    split
    · exact .throw _
    · exact .pure _

/-- Reading data files only reads, by induction on them. -/
theorem onlyReads_readContexts (paths : List String) :
    OnlyReads (Inputs.readContexts host paths).run := by
  unfold Inputs.readContexts
  generalize Context.empty = c
  induction paths generalizing c with
  | nil => exact .pure c
  | cons path paths ih =>
    rw [List.foldlM_cons]
    refine .bind (.bind (onlyReads_readContext hhost path) fun _ => .pure _) fun _ => ih _

theorem onlyReads_readSettings (path : String) : OnlyReads (Inputs.readSettings host path).run := by
  unfold Inputs.readSettings
  refine .bind (onlyReads_hasPath hhost path) fun isThere => ?_
  cases isThere with
  | false => exact .pure _
  | true =>
    refine .bind (onlyReads_readText hhost _ path) fun text => ?_
    split
    · exact .pure _
    · exact .throw _

end Inputs

/-! ### Commands -/

namespace Command

/-- Whether the command is a question, which is answered and changes nothing. -/
def isQuestion : Command → Bool
  | check .. | escape .. | showSettings | settingsPath => true
  | render .. | initSettings .. => false

/-- The text that a rendering prints or writes. -/
def rendering (host : Host (StateM World)) (env : Environment) (config : Option String)
    (template : String) (data : List String) : Attempt (StateM World) String := do
  let settings ← Inputs.readSettings host (← Inputs.settingsPath env config)
  renderText host settings template data

theorem onlyReads_settled {α : Type} (result : Except TemplateFault α) :
    OnlyReads (settled result : Attempt (StateM World) α).run := by
  cases result with
  | ok value => exact .pure value
  | error fault => exact .throw _

section Commands

variable (hhost : host.IsFallible)
include hhost

/-- Rendering a text only reads. -/
theorem onlyReads_renderText (settings : Settings) (template : String) (data : List String) :
    OnlyReads (renderText host settings template data).run := by
  have hread : OnlyReads (do
      let text ← Inputs.readInput host template
      let context ← Inputs.readContexts host data
      settled (settings.renderer.run text context) : Attempt (StateM World) String).run :=
    .bind (onlyReads_readInput hhost template) fun text =>
      .bind (onlyReads_readContexts hhost data) fun context => onlyReads_settled _
  unfold renderText
  dsimp only
  split
  · exact .bind (.throw _) fun _ => hread
  · exact hread

/-- Checking a template only reads. -/
theorem onlyReads_runCheck (settings : Settings) (template : String) (strict json : Bool) :
    OnlyReads (runCheck host settings template strict json).run := by
  unfold runCheck
  exact .bind (onlyReads_readInput hhost template) fun source =>
    .bind (onlyReads_settled _) fun outline => .pure _

/-- Showing the settings only reads. -/
theorem onlyReads_runShow (path : String) : OnlyReads (runShow host path).run := by
  unfold runShow
  exact .bind (onlyReads_readSettings hhost path) fun settings =>
    .bind (onlyReads_hasPath hhost path) fun isThere => .pure _

/-- **Questions change nothing.** -/
theorem onlyReads_of_isQuestion {command : Command} (h : command.isQuestion = true)
    (env : Environment) (config : Option String) :
    OnlyReads (attempt host env config command).run := by
  cases command with
  | render template data output => cases h
  | initSettings force => cases h
  | check template strict json =>
    exact .bind (onlyReads_settingsPath env config) fun path =>
      .bind (onlyReads_readSettings hhost path) fun settings =>
        onlyReads_runCheck hhost settings template strict json
  | escape selector => exact .pure _
  | showSettings =>
    exact .bind (onlyReads_settingsPath env config) fun path => onlyReads_runShow hhost path
  | settingsPath => exact .bind (onlyReads_settingsPath env config) fun path => .pure _

omit hhost in
/-- A rendering is made first, and then delivered. -/
theorem attempt_render (env : Environment) (config : Option String) (template : String)
    (data : List String) (output : Option String) :
    attempt host env config (.render template data output) =
      rendering host env config template data >>= deliver host output := by
  simp [attempt, rendering, runRender]

/-- All that goes before delivering a rendered text only reads. -/
theorem onlyReads_rendering (env : Environment) (config : Option String) (template : String)
    (data : List String) : OnlyReads (rendering host env config template data).run :=
  .bind (onlyReads_settingsPath env config) fun path =>
    .bind (onlyReads_readSettings hhost path) fun settings =>
      onlyReads_renderText hhost settings template data

/-- How the delivery of a text may end. -/
theorem deliver_cases {output : Option String} {text : String} {r : Except Problem Outcome}
    (h : (deliver host output text).run.run w = (r, w')) :
    (∃ p, r = .error p) ∧ w'.tree.files = w.tree.files ∨
      outputFile? output = none ∧ r = .ok (.printing text) ∧ w'.tree = w.tree ∨
        ∃ path, outputFile? output = some path ∧ r = .ok (.printing "") ∧
          w.tree.write path text.toUTF8 = .ok w'.tree := by
  unfold deliver at h
  split at h
  · next hnone =>
    obtain ⟨rfl, rfl⟩ := Prod.mk.inj h
    exact .inr (.inl ⟨hnone, rfl, rfl⟩)
  · next path hpath =>
    rcases Attempt.run_bind_cases h with ⟨p, hwrite, rfl⟩ | ⟨value, between, hwrite, hdone⟩
    · rcases write_cases hhost hwrite with ⟨-, hfiles⟩ | ⟨he, -⟩
      · exact .inl ⟨⟨p, rfl⟩, hfiles⟩
      · cases he
    · obtain ⟨rfl, rfl⟩ := Prod.mk.inj hdone
      rcases write_cases hhost hwrite with ⟨⟨p, he⟩, -⟩ | ⟨-, hwritten⟩
      · cases he
      · exact .inr (.inr ⟨path, hpath, rfl, hwritten⟩)

/-- **How a rendering may end**: with a problem, or with what it prints when it has no file to write
to. -/
theorem render_cases {env : Environment} {config : Option String} {template : String}
    {data : List String} {output : Option String} {r : Except Problem Outcome}
    (h : (attempt host env config (.render template data output)).run.run w = (r, w')) :
    (∃ p, r = .error p) ∧ w'.tree.files = w.tree.files ∨
      ∃ text between, (attempt host env config (.render template data none)).run.run w =
          (.ok (.printing text), between) ∧ between.tree = w.tree ∧
        (outputFile? output = none ∧ r = .ok (.printing text) ∧ w'.tree = w.tree ∨
          ∃ path, outputFile? output = some path ∧ r = .ok (.printing "") ∧
            w.tree.write path text.toUTF8 = .ok w'.tree) := by
  rw [attempt_render] at h ⊢
  rcases Attempt.run_bind_cases h with ⟨p, hmade, rfl⟩ | ⟨text, between, hmade, hdelivered⟩
  · exact .inl ⟨⟨p, rfl⟩, (onlyReads_rendering hhost env config template data w _ w' hmade).1⟩
  · obtain ⟨hfiles, htree⟩ := onlyReads_rendering hhost env config template data w _ between hmade
    have hprinted : (rendering host env config template data >>= deliver host none).run.run w =
        (.ok (.printing text), between) := by
      rw [Attempt.run_bind, hmade]
      rfl
    rcases deliver_cases hhost hdelivered with ⟨hproblem, hkept⟩ | ⟨hnone, rfl, hsame⟩ | ⟨path, hpath, rfl, hwritten⟩
    · exact .inl ⟨hproblem, hkept.trans hfiles⟩
    · rw [htree text rfl] at hsame
      exact .inr ⟨text, between, hprinted, htree text rfl, .inl ⟨hnone, rfl, hsame⟩⟩
    · rw [htree text rfl] at hwritten
      exact .inr ⟨text, between, hprinted, htree text rfl, .inr ⟨path, hpath, rfl, hwritten⟩⟩

/-- What has been found out when there is no refusal: that nothing is at the path, or that nothing can be
written there. -/
theorem demandNothing_cases {path : String} {force : Bool} {r : Except Problem Unit}
    (h : (demandNothing host path force).run.run w = (r, w')) :
    w' = w ∧ ((∃ p, r = .error p) ∨ host.Bars path ∨
      (force = false → w.tree.hasPath path = false)) := by
  unfold demandNothing at h
  cases force with
  | true =>
    obtain ⟨-, rfl⟩ := Prod.mk.inj h
    exact ⟨rfl, .inr (.inr nofun)⟩
  | false =>
    rw [if_neg Bool.false_ne_true] at h
    -- what is there may be denied, but then nothing is written
    rcases hhost.hasPath path w with hasked | ⟨hasked, hbars⟩
    · rw [Attempt.run_bind, Attempt.run_lift hasked] at h
      cases hthere : w.tree.hasPath path with
      | true =>
        rw [hthere] at h
        obtain ⟨rfl, rfl⟩ := Prod.mk.inj h
        exact ⟨rfl, .inl ⟨_, rfl⟩⟩
      | false =>
        rw [hthere] at h
        obtain ⟨-, rfl⟩ := Prod.mk.inj h
        exact ⟨rfl, .inr (.inr fun _ => rfl)⟩
    · rw [Attempt.run_bind, Attempt.run_lift hasked] at h
      obtain ⟨-, rfl⟩ := Prod.mk.inj h
      exact ⟨rfl, .inr (.inl hbars)⟩

/-- **What making room does**: it fails and changes no file, or the tree has grown. -/
theorem makeRoom_cases {path : String} {r : Except Problem Unit}
    (h : (makeRoom host path).run.run w = (r, w')) :
    (∃ p, r = .error p) ∧ w'.tree.files = w.tree.files ∨ FileTree.IsGrown w.tree w'.tree := by
  unfold makeRoom at h
  split at h
  · obtain ⟨-, rfl⟩ := Prod.mk.inj h
    exact .inr (.refl _)
  · rcases makeFolder_cases hhost h with hproblem | ⟨-, hmade⟩
    · exact .inl hproblem
    · exact .inr (FileTree.isGrown_makeFolder hmade)

omit hhost in
/-- Where the host never writes, writing fails. -/
theorem write_of_bars {layer : Option String} {path text : String} {r : Except Problem Unit}
    (hbars : host.Bars path)
    (h : (Attempt.ofFile layer (host.writeFile path text)).run.run w = (r, w')) :
    (∃ p, r = .error p) ∧ w'.tree.files = w.tree.files := by
  obtain ⟨fault, other, hrefused, hfiles⟩ := hbars text w
  rcases Attempt.run_ofFile_cases h with ⟨fault', p, hrun, rfl⟩ | ⟨value, hrun, -⟩
  · obtain ⟨-, rfl⟩ := Prod.mk.inj (hrefused.symm.trans hrun)
    exact ⟨⟨p, rfl⟩, hfiles⟩
  · obtain ⟨he, -⟩ := Prod.mk.inj (hrefused.symm.trans hrun)
    cases he

/-- **How the writing of the first settings may end**: with a problem, or with settings at a path where
nothing was before folders were made for them. -/
theorem init_cases {path : String} {force : Bool} {r : Except Problem Outcome}
    (h : (runInit host path force).run.run w = (r, w')) :
    (∃ p, r = .error p) ∧ w'.tree.files = w.tree.files ∨
      (∃ text, r = .ok (.printing text)) ∧ (force = false → w.tree.hasPath path = false) ∧
        ∃ u, FileTree.IsGrown w.tree u ∧
          u.write path Settings.exampleText.toUTF8 = .ok w'.tree := by
  -- three steps, each of which may be the last: to ask, to make room and to write
  rcases Attempt.run_bind_cases h with ⟨p, hdemand, rfl⟩ | ⟨_, w₁, hdemand, hrest⟩
  · obtain ⟨rfl, -⟩ := demandNothing_cases hhost hdemand
    exact .inl ⟨⟨p, rfl⟩, rfl⟩
  obtain ⟨rfl, hfound⟩ := demandNothing_cases hhost hdemand
  rcases Attempt.run_bind_cases hrest with ⟨p, hroom, rfl⟩ | ⟨_, w₂, hroom, hrest⟩
  · rcases makeRoom_cases hhost hroom with ⟨-, hfiles⟩ | hgrown
    · exact .inl ⟨⟨p, rfl⟩, hfiles⟩
    · exact .inl ⟨⟨p, rfl⟩, hgrown.files⟩
  rcases makeRoom_cases hhost hroom with ⟨⟨p, he⟩, -⟩ | hgrown
  · cases he
  rcases Attempt.run_bind_cases hrest with ⟨p, hwrite, rfl⟩ | ⟨_, w₃, hwrite, hdone⟩
  · rcases write_cases hhost hwrite with ⟨-, hfiles⟩ | ⟨he, -⟩
    · exact .inl ⟨⟨p, rfl⟩, hfiles.trans hgrown.files⟩
    · cases he
  obtain ⟨rfl, rfl⟩ := Prod.mk.inj hdone
  rcases hfound with ⟨p, he⟩ | hbars | hnothing
  · cases he
  · obtain ⟨⟨p, he⟩, -⟩ := write_of_bars hbars hwrite
    cases he
  · rcases write_cases hhost hwrite with ⟨⟨p, he⟩, -⟩ | ⟨-, hwritten⟩
    · cases he
    · exact .inr ⟨⟨_, rfl⟩, hnothing, w₂.tree, hgrown, hwritten⟩

/-- **The first settings leave what is there**, where their path goes up only from places that are
there. -/
theorem get?_of_init {env : Environment} {config : Option String} {r : Except Problem Outcome}
    (hclimb : ∀ path, Inputs.settingsPath env config = (pure path : Attempt (StateM World) String) →
      w.tree.ClimbsFromPlaces path)
    (h : (attempt host env config (.initSettings false)).run.run w = (r, w'))
    {key : String} {content : ByteArray} (hkey : w.tree.files.get? key = some content) :
    w'.tree.files.get? key = some content := by
  rw [attempt] at h
  rcases settingsPath_cases env config with ⟨path, hpath⟩ | ⟨p, hp⟩
  · rw [hpath, pure_bind] at h
    rcases init_cases hhost h with ⟨-, hfiles⟩ | ⟨-, hnothing, u, hgrown, hwritten⟩
    · rwa [hfiles]
    · obtain ⟨k, htarget, htree⟩ := FileTree.write_eq_ok_iff.1 hwritten
      have hfree : w.tree.files.get? k = none :=
        FileTree.get?_target_eq_none hgrown (hclimb path hpath) (hnothing rfl) htarget
      have hne : key ≠ k := by
        rintro rfl
        rw [hkey] at hfree
        cases hfree
      rw [htree, Fields.get?_insert, if_neg hne, hgrown.files]
      exact hkey
  · rw [hp] at h
    obtain ⟨-, rfl⟩ := Prod.mk.inj h
    exact hkey

/-- **A command that fails** leaves all files as they are. -/
theorem files_of_failed {env : Environment} {config : Option String} {command : Command}
    {r : Except Problem Outcome} (h : (attempt host env config command).run.run w = (r, w'))
    (hfailed : (Outcome.ofAttempt r).status ≠ 0) : w'.tree.files = w.tree.files := by
  -- a question only reads; the other two change files in their last step, which succeeds or changes
  -- none
  by_cases hquestion : command.isQuestion = true
  · exact (onlyReads_of_isQuestion hhost hquestion env config w _ w' h).1
  · cases command with
    | render template data output =>
      rcases render_cases hhost h with ⟨-, hfiles⟩ | ⟨_, _, -, -, ⟨-, rfl, -⟩ | ⟨_, -, rfl, -⟩⟩
      · exact hfiles
      · exact absurd rfl hfailed
      · exact absurd rfl hfailed
    | initSettings force =>
      rw [attempt] at h
      rcases settingsPath_cases env config with ⟨path, hpath⟩ | ⟨p, hp⟩
      · rw [hpath, pure_bind] at h
        rcases init_cases hhost h with ⟨-, hfiles⟩ | ⟨⟨text, rfl⟩, -⟩
        · exact hfiles
        · exact absurd rfl hfailed
      · rw [hp] at h
        obtain ⟨-, rfl⟩ := Prod.mk.inj h
        rfl
    | check template strict json => exact absurd rfl hquestion
    | escape selector => exact absurd rfl hquestion
    | showSettings => exact absurd rfl hquestion
    | settingsPath => exact absurd rfl hquestion

end Commands

end Command

/-! ### Runs -/

/-- An invocation ends as its command does. -/
theorem Invocation.run_eq {env : Environment} {i : Invocation} {r : Except Problem Outcome}
    (h : (i.command.attempt host env i.config).run.run w = (r, w')) :
    (i.run host env).run w = (.ofOutcome (.ofAttempt r), w') := by
  rw [Invocation.run, Command.run, StateT.run_map, StateT.run_map, h]
  rfl

/-- **Which files a run of the program changes**, on a host that may refuse any operation. A run that
fails changes none, and neither does a question. The first settings leave the files that are there,
unless their path goes up behind a missing name. And a rendering that succeeds changes no file but the
one it is asked to write, to what the same rendering prints without that file. -/
theorem run_footprint (hhost : host.IsFallible) {env : Environment} {args : List String}
    {ended : Ending} {after : World} (h : (Program.run host env args).run w = (ended, after)) :
    (ended.status ≠ 0 → after.tree.files = w.tree.files) ∧
    ∀ i, Invocation.ofArguments args = .ok i →
      (i.command.isQuestion = true → after.tree.files = w.tree.files) ∧
      (i.command = .initSettings false →
        (∀ path, Inputs.settingsPath env i.config = (pure path : Attempt (StateM World) String) →
          w.tree.ClimbsFromPlaces path) →
        ∀ key content, w.tree.files.get? key = some content →
          after.tree.files.get? key = some content) ∧
      (∀ template data output, i.command = .render template data output → ended.status = 0 →
        ∃ printed between,
          (({ i with command := .render template data none } : Invocation).run host env).run w =
              (⟨0, printed, ""⟩, between) ∧ between.tree.files = w.tree.files ∧
            (Command.outputFile? output = none ∧ ended = ⟨0, printed, ""⟩ ∧
                after.tree.files = w.tree.files ∨
              ∃ path key, Command.outputFile? output = some path ∧ ended = ⟨0, "", ""⟩ ∧
                w.tree.target path = .ok key ∧
                after.tree.files = w.tree.files.insert key printed.toUTF8 ∧
                after.tree.read path = .ok printed.toUTF8)) := by
  cases hargs : Invocation.ofArguments args with
  | error halt =>
    rw [Program.run_of_halt host env hargs] at h
    obtain ⟨-, rfl⟩ := Prod.mk.inj h
    exact ⟨fun _ => rfl, nofun⟩
  | ok i =>
    -- the run is that of the command which the arguments make up
    have hrun : (i.run host env).run w = (ended, after) := by
      rw [← h, Program.run, hargs]
    rcases hr : (i.command.attempt host env i.config).run.run w with ⟨r, w'⟩
    rw [Invocation.run_eq hr] at hrun
    obtain ⟨rfl, rfl⟩ := Prod.mk.inj hrun
    refine ⟨Command.files_of_failed hhost hr, fun j hj => ?_⟩
    obtain rfl : i = j := Except.ok.inj hj
    refine ⟨fun hquestion => ?_, fun hinit hclimb key content hkey => ?_,
      fun template data output hrender hstatus => ?_⟩
    · exact (Command.onlyReads_of_isQuestion hhost hquestion env i.config w r w' hr).1
    · rw [hinit] at hr
      exact Command.get?_of_init hhost hclimb hr hkey
    · rw [hrender] at hr
      rcases Command.render_cases hhost hr with
        ⟨⟨p, rfl⟩, -⟩ | ⟨printed, between, hprinted, htree, hdelivered⟩
      · cases hstatus
      · have hwithout := Invocation.run_eq (i := { i with command := .render template data none }) hprinted
        refine ⟨printed, between, hwithout, by rw [htree], ?_⟩
        rcases hdelivered with ⟨hnone, rfl, hsame⟩ | ⟨path, hpath, rfl, hwritten⟩
        · exact .inl ⟨hnone, rfl, by rw [hsame]⟩
        · obtain ⟨key, htarget, hafter⟩ := FileTree.write_eq_ok_iff.1 hwritten
          refine .inr ⟨path, key, hpath, rfl, htarget, ?_, FileTree.read_of_write hwritten⟩
          rw [hafter]

/-- A folder `app` with a template beside it. -/
def FileTree.besideTemplate : FileTree :=
  ⟨[("srv/t", "a".toUTF8)], [["tmp"]], ["srv", "app"], by decide⟩

/-- A template above the current folder is rendered to a file elsewhere, and printed without one; the
first settings are written below the home folder, and the template stays. -/
theorem rendering_written_as_printed :
    (∃ printed between, (Program.run World.host ⟨some "/home/u", none⟩ ["render", "../t"]).run
        ⟨.besideTemplate, .empty⟩ = (⟨0, printed, ""⟩, between) ∧
      ((Program.run World.host ⟨some "/home/u", none⟩ ["render", "../t", "-o/tmp/out"]).run
        ⟨.besideTemplate, .empty⟩).2.tree.files =
          FileTree.besideTemplate.files.insert "tmp/out" printed.toUTF8) ∧
    ((Program.run World.host ⟨some "/home/u", none⟩ ["config", "init"]).run
      ⟨.besideTemplate, .empty⟩).1.status = 0 ∧
    ((Program.run World.host ⟨some "/home/u", none⟩ ["config", "init"]).run
      ⟨.besideTemplate, .empty⟩).2.tree.files.keys = ["home/u/.uxr/config.toml", "srv/t"] ∧
    ((Program.run World.host ⟨some "/home/u", none⟩ ["config", "init"]).run
      ⟨.besideTemplate, .empty⟩).2.tree.files.get? "srv/t" = some "a".toUTF8 := by
  have hargs : Invocation.ofArguments ["render", "../t", "-o/tmp/out"] =
      .ok ⟨.render "../t" [] (some "/tmp/out"), .warn, none⟩ := by decide +kernel
  have hplain : Invocation.ofArguments ["render", "../t"] =
      .ok ⟨.render "../t" [] none, .warn, none⟩ := by decide +kernel
  have hinit : Invocation.ofArguments ["config", "init"] = .ok ⟨.initSettings false, .warn, none⟩ := by
    decide +kernel
  have hstatus : ((Program.run World.host ⟨some "/home/u", none⟩ ["render", "../t", "-o/tmp/out"]).run
      ⟨.besideTemplate, .empty⟩).1.status = 0 := by decide +kernel
  have hfile : Command.outputFile? (some "/tmp/out") = some "/tmp/out" := by decide +kernel
  have hplace : FileTree.besideTemplate.target "/tmp/out" = .ok "tmp/out" := by decide +kernel
  obtain ⟨-, hcommands⟩ := run_footprint World.isFallible_host (Prod.eta
    ((Program.run World.host ⟨some "/home/u", none⟩ ["render", "../t", "-o/tmp/out"]).run
      ⟨.besideTemplate, .empty⟩)).symm
  obtain ⟨-, -, hrender⟩ := hcommands _ hargs
  obtain ⟨-, hsettings⟩ := run_footprint World.isFallible_host (Prod.eta
    ((Program.run World.host ⟨some "/home/u", none⟩ ["config", "init"]).run
      ⟨.besideTemplate, .empty⟩)).symm
  obtain ⟨-, hkept, -⟩ := hsettings _ hinit
  refine ⟨?_, by decide +kernel, by decide +kernel, hkept rfl ?_ "srv/t" _ rfl⟩
  · obtain ⟨printed, between, hprinted, -, ⟨hnone, -⟩ | ⟨path, key, hpath, -, htarget, hfiles, -⟩⟩ :=
      hrender "../t" [] (some "/tmp/out") rfl hstatus
    · rw [hfile] at hnone
      cases hnone
    · obtain rfl : "/tmp/out" = path := Option.some.inj (hfile.symm.trans hpath)
      obtain rfl : "tmp/out" = key := Except.ok.inj (hplace.symm.trans htarget)
      refine ⟨printed, between, ?_, hfiles⟩
      rw [Program.run, hplain]
      exact hprinted
  · intro path hpath
    have hanswer := congrArg (fun a => (a.run.run ⟨.besideTemplate, .empty⟩).1) hpath
    obtain rfl : FilePath.join (FilePath.join "/home/u" ".uxr") "config.toml" = path :=
      Except.ok.inj hanswer
    exact FileTree.climbsFromPlaces_of_not_mem (by decide +kernel)

/-- The first settings are written over a file, where their path goes back up behind a name that has
been missing until their folders are made. -/
theorem settings_overwritten_behind_missing_name :
    Invocation.ofArguments ["config", "init", "-c", "x/../c.toml"] =
        .ok ⟨.initSettings false, .warn, some "x/../c.toml"⟩ ∧
      ((Program.run World.host ⟨none, none⟩ ["config", "init", "-c", "x/../c.toml"]).run
          ⟨⟨[("w/c.toml", "old".toUTF8)], [], ["w"], by decide⟩, .empty⟩).1.status = 0 ∧
      ((Program.run World.host ⟨none, none⟩ ["config", "init", "-c", "x/../c.toml"]).run
          ⟨⟨[("w/c.toml", "old".toUTF8)], [], ["w"], by decide⟩, .empty⟩).2.tree.files.get?
            "w/c.toml" ≠ some "old".toUTF8 := by
  refine ⟨by decide +kernel, by decide +kernel, fun hold => ?_⟩
  have hfirst : (((Program.run World.host ⟨none, none⟩ ["config", "init", "-c", "x/../c.toml"]).run
      ⟨⟨[("w/c.toml", "old".toUTF8)], [], ["w"], by decide⟩, .empty⟩).2.tree.files.get?
        "w/c.toml").bind (·.data[0]?) = some 35 := by decide +kernel
  rw [hold] at hfirst
  exact absurd hfirst (by decide +kernel)

end Stencil
