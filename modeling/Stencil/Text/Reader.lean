import Stencil.Text.Occurrence

/-!
# Readers

A reader takes a construct off the front of a text. It answers with the value it read, the
characters it took and the characters left, and it never takes anything else than a front part of
the text: the law is part of the type, so that everything composed of readers has it.

* `Reader.faithful`: what was taken and what is left make up the text.
-/

namespace Stencil.Text

/-- A way to take characters from the beginning of a text. -/
structure Reader (α : Type) where
  /-- The value, the characters taken and the characters left. -/
  read : List Char → Option (α × List Char × List Char)
  faithful : ∀ {s a front rest}, read s = some (a, front, rest) → s = front ++ rest

namespace Reader

variable {α β : Type}

/-- Reads on with what has been read. -/
def bind (p : Reader α) (f : α → Reader β) : Reader β where
  read s :=
    match p.read s with
    | none => none
    | some (a, front, rest) =>
      match (f a).read rest with
      | none => none
      | some (b, front', rest') => some (b, front ++ front', rest')
  faithful := by
    intro s b front rest h
    split at h
    · exact absurd h nofun
    · next hp =>
      split at h
      · exact absurd h nofun
      · next hq =>
        obtain ⟨-, rfl, rfl⟩ := h
        rw [p.faithful hp, (f _).faithful hq, List.append_assoc]

instance : Monad Reader where
  pure a := { read := fun s => some (a, [], s), faithful := by rintro s _ _ _ ⟨⟩; rfl }
  bind := bind

/-- The first reader's answer, or the second's where the first has none. -/
def orElse (p q : Reader α) : Reader α where
  read s :=
    match p.read s with
    | none => q.read s
    | some answer => some answer
  faithful := by
    intro s a front rest h
    split at h
    · exact q.faithful h
    · next hp => exact p.faithful (hp.trans h)

instance : OrElse (Reader α) where
  orElse p q := p.orElse (q ())

/-- Reads nothing, and refuses a text where `b` is false. -/
def guard (b : Bool) : Reader Unit where
  read s := if b then some ((), [], s) else none
  faithful := by rintro s _ _ _ h; split at h <;> simp_all

/-- Takes the given characters. -/
def exactly (needle : List Char) : Reader Unit where
  read s := (after? needle s).map fun rest => ((), needle, rest)
  faithful := by
    intro s a front rest h
    obtain ⟨t, ht, he⟩ := Option.map_eq_some_iff.1 h
    simp_all [after?_eq_some_iff.1 ht]

/-- The longest run of characters with `p`, which may be empty. -/
def run (p : Char → Bool) : Reader (List Char) where
  read s := some (s.takeWhile p, s.takeWhile p, s.dropWhile p)
  faithful := by
    rintro s a front rest ⟨⟩
    exact List.takeWhile_append_dropWhile.symm

/-- Takes the longest run of at least one character. -/
def run1 (p : Char → Bool) : Reader (List Char) := do
  let cs ← run p
  guard !cs.isEmpty
  return cs

/-- Reads `needle` where it stands at the front, and nothing elsewhere. -/
def optional (needle : List Char) : Reader Unit := exactly needle <|> pure ()

/-- The text before the first occurrence of `needle`; the occurrence is read too. -/
def upTo (needle : List Char) : Reader (List Char) where
  read s := (split? needle [] s).map fun (a, b) => (a, a ++ needle, b)
  faithful := by
    intro s a front rest h
    obtain ⟨⟨u, v⟩, hu, he⟩ := Option.map_eq_some_iff.1 h
    have := split?_append hu
    obtain ⟨rfl, rfl, rfl⟩ := he
    simpa using this

end Reader

end Stencil.Text
