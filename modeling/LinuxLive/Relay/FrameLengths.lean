import LinuxLive.Protocol.CutStreams
import LinuxLive.Relay.Session

/-!
# Frame lengths

The headers whose length the payload vector of `ws_read_loop` does not accept.
-/

namespace LinuxLive

namespace WebSocket

/-! ## Lengths of 64 bits -/

/-- An extended length of eight bytes of which the top bit is set. -/
def Head.TopBit (h : Head) : Prop :=
  ∃ b bs, h.extended = b :: bs ∧ bs.length = 7 ∧ 0x80 ≤ b.toNat

theorem size_lt_of_no_extended {h : Head} (hnone : extendedSize h.second = 0) : h.size < 128 := by
  have hmask : (0x7F : UInt8).toNat = 2 ^ 7 - 1 := rfl
  rw [Head.size, payloadLength, if_pos hnone, UInt8.toNat_and, hmask,
    Nat.and_two_pow_sub_one_eq_mod]
  omega

theorem size_eq_of_extended {h : Head} (hsome : extendedSize h.second ≠ 0) : h.size =
    h.extended.foldl (fun (n : Nat) b => n * 256 + b.toNat) 0 % 2 ^ 64 := by
  rw [Head.size, payloadLength, if_neg hsome, toNat_bigEndian]

theorem foldl_bounds (bs : Bytes) (n : Nat) :
    n * 256 ^ bs.length ≤ bs.foldl (fun (n : Nat) b => n * 256 + b.toNat) n ∧
      bs.foldl (fun (n : Nat) b => n * 256 + b.toNat) n < (n + 1) * 256 ^ bs.length := by
  induction bs generalizing n with
  | nil => simp
  | cons b bs ih =>
      have hb := b.toNat_lt
      obtain ⟨hlow, hhigh⟩ := ih (n * 256 + b.toNat)
      rw [List.foldl_cons, List.length_cons, Nat.pow_succ', ← Nat.mul_assoc, ← Nat.mul_assoc]
      constructor
      · exact Nat.le_trans (Nat.mul_le_mul_right _ (by omega)) hlow
      · exact Nat.lt_of_lt_of_le hhigh (Nat.mul_le_mul_right _ (by omega))

theorem extendedSize_cases (second : UInt8) :
    extendedSize second = 0 ∨ extendedSize second = 2 ∨ extendedSize second = 8 := by
  unfold extendedSize
  split
  · exact .inr (.inl rfl)
  · split
    · exact .inr (.inr rfl)
    · exact .inl rfl

theorem Head.TopBit.length {h : Head} (htop : h.TopBit) : h.extended.length = 8 := by
  obtain ⟨b, bs, hext, hbs, _⟩ := htop
  rw [hext, List.length_cons, hbs]

theorem topBit_iff {h : Head} {b : UInt8} {bs : Bytes} (hext : h.extended = b :: bs)
    (hbs : bs.length = 7) : h.TopBit ↔ 0x80 ≤ b.toNat := by
  constructor
  · intro htop
    obtain ⟨b', bs', hext', _, hb'⟩ := htop
    rw [hext] at hext'
    cases hext'
    exact hb'
  · exact fun hb => ⟨b, bs, hext, hbs, hb⟩

/-- Only a length of eight bytes can be too long. -/
theorem size_lt_maxSize {h : Head} (hshort : h.extended.length ≠ 8) : h.size < maxSize := by
  have hmax : maxSize = 2 ^ 63 := rfl
  rcases extendedSize_cases h.second with hnone | htwo | height
  · have hsize := size_lt_of_no_extended hnone
    omega
  · have hsize := size_eq_of_extended (show extendedSize h.second ≠ 0 by omega)
    have hbound := (foldl_bounds h.extended 0).2
    rw [h.extended_length, htwo] at hbound
    omega
  · exact absurd (h.extended_length.trans height) hshort

/-- The vector refuses a length exactly if its 64 bits have the top one set. -/
theorem maxSize_le_size_iff (h : Head) : maxSize ≤ h.size ↔ h.TopBit := by
  by_cases hlen : h.extended.length = 8
  · obtain ⟨b, bs, hext⟩ := List.exists_cons_of_length_eq_add_one hlen
    have hbs : bs.length = 7 := by
      rw [hext, List.length_cons] at hlen
      omega
    have hmax : maxSize = 2 ^ 63 := rfl
    have hsecond : extendedSize h.second ≠ 0 := by
      rw [← h.extended_length]
      omega
    have hb := b.toNat_lt
    obtain ⟨hlow, hhigh⟩ := foldl_bounds bs (0 * 256 + b.toNat)
    rw [hbs] at hlow hhigh
    rw [topBit_iff hext hbs, size_eq_of_extended hsecond, hext, List.foldl_cons]
    omega
  · exact iff_of_false (Nat.not_le.mpr (size_lt_maxSize hlen)) fun htop => hlen htop.length

/-! ## Where the vector throws -/

section loop

variable {read : Nat → Bytes → Read} {hread : Reader read} {onEnd onClose : List Action}
  {bytes : Bytes}

/-- The vector throws exactly at a head with the top bit set that the loop comes to. -/
theorem lengthError_mem_iff (hend : .lengthError ∉ onEnd) (hclose : .lengthError ∉ onClose) :
    .lengthError ∈ readLoop read hread onEnd onClose bytes ↔
      ∃ fs rest h after, bytes = stream fs ++ rest ∧ Passed read rest fs ∧
        ReadsHead read rest h after ∧ h.TopBit := by
  constructor
  · intro hmem
    obtain ⟨fs, rest, hbytes, hpassed, hstop⟩ := exists_stop read bytes
    rw [hbytes, readLoop_passed hpassed, List.mem_append,
      or_iff_right (notMem_of_not_ends hpassed.not_ends).2] at hmem
    rcases readLoop_of_stops hread onEnd onClose hstop with
      hnone | hhead
    · rw [hnone.2] at hmem
      split at hmem
      · cases hmem
      · exact absurd hmem hend
    · obtain ⟨h, after, hhead, hloop⟩ := hhead
      rcases hloop with hlong | hcloses | hshort
      · exact ⟨fs, rest, h, after, hbytes, hpassed, hhead, (maxSize_le_size_iff h).mp hlong.1⟩
      · rw [hcloses.2.2] at hmem
        rcases List.mem_cons.mp hmem with hmem | hmem
        · cases hmem
        · exact absurd hmem hclose
      · rw [hshort.2.2.2, List.mem_append] at hmem
        rcases hmem with hmem | hmem
        · exact absurd (Option.mem_toList.mp hmem) (h.action_ne _).2
        · exact absurd hmem hend
  · intro h
    obtain ⟨fs, rest, h, after, rfl, hpassed, hhead, hbit⟩ := h
    have hlong := (maxSize_le_size_iff h).mpr hbit
    rw [readLoop_passed hpassed, hhead.bytes_eq, readLoop_of_head hhead.uncut, if_pos hlong]
    exact List.mem_append_right _ (List.mem_singleton_self _)

end loop

end WebSocket

namespace Relay.ClientSession

open WebSocket

/-- The read loop throws nothing exactly if no header that it comes to has an extended
length of eight bytes with the top bit set. -/
theorem wsReadLoop_throws_nothing_iff (seg : Segmentation) (bytes : Bytes) :
    .lengthError ∉ wsReadLoop seg bytes ↔
      ¬ ∃ fs rest h after, bytes = stream fs ++ rest ∧ Passed (recvRaw seg) rest fs ∧
        ReadsHead (recvRaw seg) rest h after ∧ h.TopBit :=
  not_congr (lengthError_mem_iff List.not_mem_nil List.not_mem_nil)

/-! ## A header of ten bytes -/

/-- An unmasked text frame that announces `2 ^ 63` bytes. -/
def longHead : Head where
  first := 0x81
  second := 0x7F
  extended := [0x80, 0, 0, 0, 0, 0, 0, 0]
  mask := []
  extended_length := by decide
  mask_length := by decide

theorem header_throws :
    .lengthError ∈ wsReadLoop .whole longHead.bytes ∧
      ¬ ∀ seg bytes, .lengthError ∉ wsReadLoop seg bytes := by
  have hhead : ReadsHead (recvRaw .whole) longHead.bytes longHead [] :=
    ⟨(List.append_nil _).symm, by decide⟩
  have hthrows : .lengthError ∈ wsReadLoop .whole longHead.bytes := by
    exact (lengthError_mem_iff List.not_mem_nil List.not_mem_nil).mpr
      ⟨[], _, longHead, [], rfl, trivial, hhead, _, _, rfl, rfl, by decide⟩
  exact ⟨hthrows, fun hall => hall _ _ hthrows⟩

end Relay.ClientSession

end LinuxLive
