import Mathlib.Data.List.Basic

/-!
# A stream as pieces and what is left

A piece shows by its first symbols how long it is.  Such a stream splits into whole
pieces and a tail that holds none, and in one way only.
-/

namespace LinuxLive

/-- A reader of the first piece, with the writer that it inverts in both directions. -/
structure PieceCodec (α β : Type) where
  encode : α → List β
  read? : List β → Option (α × List β)
  encode_ne_nil : ∀ a, encode a ≠ []
  read?_encode : ∀ a rest, read? (encode a ++ rest) = some (a, rest)
  eq_of_read? : ∀ stream a rest, read? stream = some (a, rest) → stream = encode a ++ rest

namespace PieceCodec

variable {α β : Type} (c : PieceCodec α β)

def join (pieces : List α) : List β := pieces.flatMap c.encode

theorem join_cons (a : α) (pieces : List α) :
    c.join (a :: pieces) = c.encode a ++ c.join pieces := rfl

theorem length_rest_lt {stream rest : List β} {a : α} (h : c.read? stream = some (a, rest)) :
    rest.length < stream.length := by
  have hpos := List.length_pos_of_ne_nil (c.encode_ne_nil a)
  rw [c.eq_of_read? _ _ _ h, List.length_append]
  omega

theorem read?_eq_none_iff {stream : List β} :
    c.read? stream = none ↔ ∀ a rest, stream ≠ c.encode a ++ rest := by
  constructor
  · intro h a rest heq
    rw [heq, c.read?_encode] at h
    cases h
  · intro h
    cases hread : c.read? stream with
    | none => rfl
    | some p => exact absurd (c.eq_of_read? _ _ _ hread) (h p.1 p.2)

theorem encode_inj {a a' : α} {rest rest' : List β}
    (h : c.encode a ++ rest = c.encode a' ++ rest') : a = a' ∧ rest = rest' := by
  have hread := c.read?_encode a rest
  rw [h, c.read?_encode] at hread
  cases hread
  exact ⟨rfl, rfl⟩

/-- The whole pieces and the tail. -/
def split (stream : List β) : List α × List β :=
  match _h : c.read? stream with
  | none => ([], stream)
  | some (a, rest) => (a :: (split rest).1, (split rest).2)
termination_by stream.length
decreasing_by all_goals exact c.length_rest_lt _h

theorem split_of_none {stream : List β} (h : c.read? stream = none) :
    c.split stream = ([], stream) := by
  rw [split]
  split
  · rfl
  · rename_i hread
    rw [h] at hread
    cases hread

theorem split_encode (a : α) (rest : List β) :
    c.split (c.encode a ++ rest) = (a :: (c.split rest).1, (c.split rest).2) := by
  rw [split]
  split
  · rename_i hread
    rw [c.read?_encode] at hread
    cases hread
  · rename_i hread
    rw [c.read?_encode] at hread
    cases hread
    rfl

theorem split_join (pieces : List α) (rest : List β) :
    c.split (c.join pieces ++ rest) = (pieces ++ (c.split rest).1, (c.split rest).2) := by
  induction pieces with
  | nil => rfl
  | cons a pieces ih => rw [join_cons, List.append_assoc, split_encode, ih, List.cons_append]

/-- Nothing is lost by the split, and the tail holds no piece. -/
theorem split_spec (stream : List β) :
    c.join (c.split stream).1 ++ (c.split stream).2 = stream ∧
      c.read? (c.split stream).2 = none := by
  induction hn : stream.length using Nat.strongRecOn generalizing stream with
  | ind n ih =>
      cases hread : c.read? stream with
      | none =>
          rw [c.split_of_none hread]
          exact ⟨rfl, hread⟩
      | some p =>
          have hlt := c.length_rest_lt hread
          obtain ⟨hjoin, htail⟩ := ih _ (hn ▸ hlt) p.2 rfl
          have hstream := c.eq_of_read? _ _ _ hread
          rw [hstream, split_encode, join_cons, List.append_assoc, hjoin]
          exact ⟨rfl, htail⟩

end PieceCodec

end LinuxLive
