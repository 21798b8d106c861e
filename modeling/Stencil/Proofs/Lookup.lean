import Stencil.Data.Path

/-!
# Lookups by paths

A path may be followed in parts: joining paths with points is following one after the other, whatever the
parts are. An empty part is a key too, the empty one, so that nothing is said of how a path is written.

* `Path.keys_append`: the keys of joined paths.
* `Value.at?_append`: a lookup by two joined paths.
* `Value.at?_intercalate`: a lookup by any number of them.
-/

namespace Stencil

/-- **The keys of joined paths** are those of one and then those of the other. -/
theorem Path.keys_append (p q : String) : keys (p ++ "." ++ q) = keys p ++ keys q := by
  have htext : (p ++ "." ++ q).toList = p.toList ++ '.' :: q.toList := by
    rw [String.toList_append, String.toList_append, List.append_assoc]
    rfl
  unfold keys
  rw [htext, List.splitOn_append_cons_self, List.map_append]

theorem Path.keys_ne_nil (p : String) : keys p ≠ [] := by
  intro h
  exact List.splitOn_ne_nil '.' p.toList (List.map_eq_nil_iff.1 h)

namespace Value

theorem child?_eq_none {v : Value} (h : ∀ fields, v ≠ mapping fields) (key : String) :
    v.child? key = none := by
  cases v with
  | mapping fields => exact absurd rfl (h fields)
  | _ => rfl

/-- Nothing is found in a value that is no mapping, since a path has a first key. -/
theorem at?_eq_none {v : Value} (h : ∀ fields, v ≠ mapping fields) (path : String) :
    v.at? path = none := by
  obtain ⟨key, keys, hkeys⟩ := List.exists_cons_of_ne_nil (Path.keys_ne_nil path)
  rw [at?, hkeys, descend?, child?_eq_none h]
  rfl

theorem at?_joined (root : Value) (p q : String) :
    root.at? (p ++ "." ++ q) = (root.at? p).bind (·.at? q) := by
  unfold at?
  rw [Path.keys_append, descend?_append]

/-- **A lookup by joined paths** follows them one after the other. -/
theorem at?_intercalate (root : Value) (p : String) (ps : List String) :
    root.at? (String.intercalate "." (p :: ps)) = (p :: ps).foldlM at? root := by
  induction ps generalizing root p with
  | nil =>
    rw [String.intercalate_singleton, List.foldlM_cons]
    exact (bind_pure (root.at? p)).symm
  | cons q ps ih =>
    rw [String.intercalate_cons_cons, at?_joined, List.foldlM_cons]
    exact congrArg _ (funext fun v => ih v q)

/-- **A lookup by two joined paths** is a lookup by the first and then one by the second in what was found.
Nothing is found behind a path that leads nowhere or to no mapping. -/
theorem at?_append (root : Value) (p q : String) :
    root.at? (p ++ "." ++ q) = (root.at? p).bind (·.at? q) ∧
      ((∀ fields, root.at? p ≠ some (mapping fields)) → root.at? (p ++ "." ++ q) = none) := by
  refine ⟨at?_joined root p q, fun hno => ?_⟩
  rw [at?_joined]
  cases hfound : root.at? p with
  | none => rfl
  | some v =>
    have hv : ∀ fields, v ≠ mapping fields := by
      rintro fields rfl
      exact hno fields hfound
    exact at?_eq_none hv q

/-- A text behind two joined paths, of which the second one has an empty key. Nothing is found in a text,
nor behind an empty key that is not bound. -/
theorem at?_append_of_text :
    let root := mapping [("a", mapping [("", string "x"), ("b", mapping [("", string "y")])])]
    root.at? ("a" ++ "." ++ "b.") = some (string "y") ∧
      root.at? ("a." ++ "." ++ "b") = none ∧ root.at? ("" ++ "." ++ "a") = none := by
  intro root
  have hfront : root.at? "a" = some (mapping [("", string "x"), ("b", mapping [("", string "y")])]) :=
    rfl
  have hback : (mapping [("", string "x"), ("b", mapping [("", string "y")])]).at? "b." =
      some (string "y") := rfl
  have htext : root.at? "a." = some (string "x") := rfl
  have hempty : root.at? "" = none := rfl
  have hfirst : ∀ fields, root.at? "a." ≠ some (mapping fields) := by
    rw [htext]
    nofun
  have hsecond : ∀ fields, root.at? "" ≠ some (mapping fields) := by
    rw [hempty]
    nofun
  have hfound := (at?_append root "a" "b.").1
  rw [hfront, Option.bind_some, hback] at hfound
  exact ⟨hfound, (at?_append root "a." "b").2 hfirst, (at?_append root "" "a").2 hsecond⟩

end Value

end Stencil
