import LinuxLive.Lib.Bytes
import Mathlib.Data.List.TakeWhile

/-!
# Paths

The file that a path names, where there are no symbolic links: the components are walked
one after another.
-/

namespace LinuxLive

namespace Paths

/-- One component, from a directory given by the names that lead to it. -/
def walk (names : List Bytes) (component : Bytes) : List Bytes :=
  if component = [] ∨ component = [46] then names
  else if component = [46, 46] then names.dropLast
  else names ++ [component]

/-- The text of a path ends at its first zero. -/
def resolve (path : Bytes) : List Bytes :=
  ((path.takeWhile (· != 0)).splitOn 47).foldl walk []

/-- Neither stays in its directory nor leaves it. -/
def IsName (component : Bytes) : Prop :=
  component ≠ [] ∧ component ≠ [46] ∧ component ≠ [46, 46] ∧ 47 ∉ component ∧ 0 ∉ component

instance : DecidablePred IsName := fun _ => inferInstanceAs (Decidable (_ ∧ _))

variable {dir name : Bytes} {names : List Bytes}

theorem walk_of_isName (h : IsName name) : walk names name = names ++ [name] := by
  obtain ⟨hnil, hdot, hdots, _, _⟩ := h
  rw [walk, if_neg (by simp [hnil, hdot]), if_neg hdots]

theorem takeWhile_of_notMem {text : Bytes} (h : 0 ∉ text) : text.takeWhile (· != 0) = text := by
  rw [List.takeWhile_eq_self_iff]
  intro b hb
  rw [bne_iff_ne]
  intro hzero
  exact h (hzero ▸ hb)

theorem resolve_child (hdir : 0 ∉ dir) (hname : IsName name) :
    resolve (dir ++ 47 :: name) = resolve dir ++ [name] := by
  have hzero : 0 ∉ dir ++ 47 :: name := by simp [hdir, hname.2.2.2.2]
  have hsplit : name.splitOn 47 = [name] := List.splitOn_eq_singleton hname.2.2.2.1
  rw [resolve, takeWhile_of_notMem hzero, List.splitOn_append_cons_self, List.foldl_append, hsplit,
    List.foldl_cons, List.foldl_nil, walk_of_isName hname, resolve, takeWhile_of_notMem hdir]

end Paths

end LinuxLive
