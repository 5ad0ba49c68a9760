import Mathlib.Data.List.Basic
import LinuxLive.Lib.Bytes

/-!
# Reading from a stream socket

`recv` takes a piece off the front of what is still to come, and how large the
pieces are is not the reader's choice.  This module has the ways of cutting a byte
stream into pieces, and the loop that reads until it has a given number of bytes.
-/

namespace LinuxLive

/-- The sizes of the pieces, by the bytes still to come and the bytes asked for.  Every read
leaves less to come, so no two of them need to get pieces of one size. -/
structure Segmentation where
  size : Nat → Nat → Nat
  pos : ∀ left len, 0 < left → 0 < len → 0 < size left len
  le_left : ∀ left len, size left len ≤ left
  le_len : ∀ left len, size left len ≤ len

namespace Segmentation

def whole : Segmentation where
  size left len := min left len
  pos _ _ hleft hlen := Nat.lt_min.mpr ⟨hleft, hlen⟩
  le_left := Nat.min_le_left
  le_len := Nat.min_le_right

def bytewise : Segmentation where
  size left len := min 1 (min left len)
  pos left len hleft hlen := by omega
  le_left left len := by omega
  le_len left len := by omega

end Segmentation

/-- Outcome of one read: its result, what it wrote to the buffer, and what is left. -/
structure Read where
  ok : Bool
  buf : Bytes
  rest : Bytes
  deriving DecidableEq

/-- `recv` until the peer has closed the connection; then it returns 0. -/
def recv (seg : Segmentation) (len : Nat) (stream : Bytes) : Read :=
  let n := seg.size stream.length len
  if n = 0 then ⟨false, [], stream⟩ else ⟨true, stream.take n, stream.drop n⟩

/-- The loop that reads pieces of at most `chunk` bytes until there are `len` of them. -/
def gather (read : Nat → Bytes → Read) (chunk : Nat → Nat) (len : Nat) (stream : Bytes) : Read :=
  if len = 0 then ⟨true, [], stream⟩
  else
    let r := read (chunk len) stream
    if r.ok = false ∨ r.buf.length = 0 then ⟨false, r.buf, r.rest⟩
    else
      let g := gather read chunk (len - r.buf.length) r.rest
      ⟨g.ok, r.buf ++ g.buf, g.rest⟩
termination_by len
decreasing_by
  rename_i hlen hgot
  have hpos : (read (chunk len) stream).buf.length ≠ 0 := fun h => hgot (.inr h)
  omega

/-- What a read function may do: it takes some bytes off the front of the stream, and
it fails only where the stream ends too early. -/
structure Reader (read : Nat → Bytes → Read) : Prop where
  append : ∀ len stream, (read len stream).buf ++ (read len stream).rest = stream
  le_len : ∀ len stream, (read len stream).buf.length ≤ len
  pos : ∀ len stream, 0 < len → (read len stream).ok = true → 0 < (read len stream).buf.length
  of_not_ok : ∀ len stream, 0 < len → (read len stream).ok = false →
    stream.length < len ∧ (read len stream).rest = []

namespace Reader

variable {read : Nat → Bytes → Read} {chunk : Nat → Nat} {len : Nat} {stream : Bytes}

theorem length_eq (hread : Reader read) (len : Nat) (stream : Bytes) :
    (read len stream).buf.length + (read len stream).rest.length = stream.length := by
  rw [← List.length_append, hread.append]

theorem rest_eq (hread : Reader read) (len : Nat) (stream : Bytes) :
    (read len stream).rest = stream.drop (read len stream).buf.length := by
  have h := @List.drop_left _ (read len stream).buf (read len stream).rest
  rw [hread.append] at h
  exact h.symm

theorem buf_eq (hread : Reader read) (len : Nat) (stream : Bytes) :
    (read len stream).buf = stream.take (read len stream).buf.length := by
  have h := @List.take_left _ (read len stream).buf (read len stream).rest
  rw [hread.append] at h
  exact h.symm

/-- The loop ends with the next `len` bytes, or with all that came. -/
theorem gather_eq (hread : Reader read) (hchunk : ∀ n, 0 < n → 0 < chunk n ∧ chunk n ≤ n) :
    gather read chunk len stream =
      ⟨decide (len ≤ stream.length), stream.take len, stream.drop len⟩ := by
  induction len using Nat.strongRecOn generalizing stream with
  | ind len ih =>
      unfold gather
      by_cases hzero : len = 0
      · simp [hzero]
      · rw [if_neg hzero]
        dsimp only
        obtain ⟨hpos, hle⟩ := hchunk len (Nat.pos_of_ne_zero hzero)
        have hlength := hread.length_eq (chunk len) stream
        have hbuf := hread.buf_eq (chunk len) stream
        have hrest := hread.rest_eq (chunk len) stream
        have hread_le := hread.le_len (chunk len) stream
        cases hok : (read (chunk len) stream).ok with
        | false =>
            obtain ⟨hshort, hnil⟩ := hread.of_not_ok _ _ hpos hok
            have hall : (read (chunk len) stream).buf.length = stream.length := by
              rw [hnil, List.length_nil] at hlength
              omega
            have hlt : ¬ len ≤ stream.length := by omega
            rw [if_pos (.inl rfl), hbuf, hrest, hall, List.take_length, List.drop_length,
              List.take_of_length_le (by omega), List.drop_of_length_le (by omega),
              decide_eq_false hlt]
        | true =>
            have hgot := hread.pos _ _ hpos hok
            have hgoes : ¬ (true = false ∨ (read (chunk len) stream).buf.length = 0) := by
              simp only [Bool.true_eq_false, false_or]
              omega
            rw [if_neg hgoes, ih _ (by omega)]
            generalize (read (chunk len) stream).buf.length = n at *
            rw [hrest, hbuf, List.length_drop, List.drop_drop]
            have hn : n + (len - n) = len := by omega
            have htake : stream.take n ++ (stream.drop n).take (len - n) = stream.take len := by
              rw [← hn, List.take_add, hn]
            have hdecide : (len - n ≤ stream.length - n) ↔ len ≤ stream.length := by omega
            rw [hn, htake, decide_eq_decide.mpr hdecide]

end Reader

theorem length_recv (seg : Segmentation) (len : Nat) (stream : Bytes) :
    (recv seg len stream).buf.length = seg.size stream.length len := by
  have hle := seg.le_left stream.length len
  unfold recv
  dsimp only
  split
  · rename_i hzero
    exact hzero.symm
  · rw [List.length_take]
    omega

theorem reader_recv (seg : Segmentation) : Reader (recv seg) where
  append len stream := by
    unfold recv
    dsimp only
    split
    · rfl
    · exact List.take_append_drop _ _
  le_len len stream := by
    rw [length_recv]
    exact seg.le_len _ _
  pos len stream hlen hok := by
    rw [length_recv]
    unfold recv at hok
    dsimp only at hok
    split at hok
    · cases hok
    · omega
  of_not_ok len stream hlen hok := by
    have hpos := seg.pos stream.length len
    unfold recv at hok ⊢
    dsimp only at hok ⊢
    split at hok
    · have hempty : stream.length = 0 := by omega
      rw [if_pos (by assumption)]
      exact ⟨by omega, List.length_eq_zero_iff.mp hempty⟩
    · cases hok

end LinuxLive
